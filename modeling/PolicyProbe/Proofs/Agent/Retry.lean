import PolicyProbe.Proofs.Agent.Updates

/-!
A registration that is cut short by a refused write, and the same registration made again. The
refused one leaves what it wrote before the refusal. The updates of the second attempt begin with
those of the first, so they lead to where one attempt without a refusal leads
(`StoreContent.mergedAt_resumed`), wherever the first was cut: between two rules, or between the two
updates of one.
-/
namespace PolicyProbe

namespace Agent

variable {σ η : Type} [DesiredStore σ]

/-- Updates come to their end, or one of them is refused after those before it were accepted. -/
theorem updateEach_cases (us : List StateUpdate) (s : σ) :
    (updateEach us s).1 = .ok () ∨
      ∃ made u later e, us = made ++ u :: later ∧ (updateEach made s).1 = .ok () ∧
        (DesiredStore.apply u (updateEach made s).2).1 = .error e := by
  induction us generalizing s with
  | nil => exact Or.inl rfl
  | cons u us ih =>
    rcases happly : DesiredStore.apply u s with ⟨answer, after⟩
    cases answer with
    | error e => exact Or.inr ⟨[], u, us, e, rfl, rfl, congrArg Prod.fst happly⟩
    | ok _ =>
      have hcons : ∀ vs, updateEach (u :: vs) s = updateEach vs after := by
        intro vs
        rw [updateEach, happly]
      rcases ih after with hok | ⟨made, v, later, e, rfl, hmade, hrefused⟩
      · exact Or.inl (by rwa [hcons])
      · exact Or.inr ⟨u :: made, v, later, e, rfl, by rwa [hcons], by rwa [hcons]⟩

/-- Updates stop where one is refused. -/
theorem updateEach_refused {made : List StateUpdate} {u : StateUpdate} {s : σ}
    {e : StorageError} (hmade : (updateEach made s).1 = .ok ())
    (hrefused : (DesiredStore.apply u (updateEach made s).2).1 = .error e)
    (later : List StateUpdate) :
    updateEach (made ++ u :: later) s =
      (.error e, (DesiredStore.apply u (updateEach made s).2).2) := by
  rw [updateEach_append_eq]
  rcases hafter : updateEach made s with ⟨answer, after⟩
  rw [hafter] at hmade hrefused
  obtain rfl : answer = .ok () := hmade
  show updateEach (u :: later) after = _
  rw [updateEach]
  rcases happly : DesiredStore.apply u after with ⟨answer, refused⟩
  rw [happly] at hrefused
  obtain rfl : answer = .error e := hrefused
  rfl

variable [StoreContent σ]

/-- A refused write is the answer, and the store is left with what was written before it. -/
theorem registerTraffic_refused {a : Agent σ η} {rules : List Rule} {made later : List StateUpdate}
    {u : StateUpdate} {e : StorageError}
    (hsplit : (Registration.ofRules a.topology rules).remaining = made ++ u :: later)
    (hmade : (updateEach made a.deployment.state).1 = .ok ())
    (hrefused : (DesiredStore.apply u (updateEach made a.deployment.state).2).1 = .error e) :
    (a.registerTraffic rules).1 = .error (.storage e) ∧
      StoreContent.Agree (a.registerTraffic rules).2.deployment.state
        (updateEach made a.deployment.state).2 := by
  have hstop := updateEach_refused hmade hrefused later
  rw [← hsplit] at hstop
  obtain ⟨hanswer, hstate⟩ := registerTraffic_error (congrArg Prod.fst hstop)
  refine ⟨hanswer, fun endpoint => ?_⟩
  rw [hstate, hstop]
  exact StoreContent.refused endpoint hrefused

/-- However a registration ends, it has made the first of its updates, up to some place. -/
theorem held?_registerTraffic (a : Agent σ η) {rules : List Rule}
    (hports : ∀ r ∈ rules, r.port < portBound) :
    ∃ made rest, (Registration.ofRules a.topology rules).remaining = made ++ rest ∧
      ∀ endpoint, StoreContent.held? endpoint (a.registerTraffic rules).2.deployment.state =
        mergedAt endpoint made (StoreContent.held? endpoint a.deployment.state) := by
  have hsound := sound_remaining (t := a.topology) hports
  rcases updateEach_cases (Registration.ofRules a.topology rules).remaining a.deployment.state with
    hok | ⟨made, u, later, e, hsplit, hmade, hrefused⟩
  · refine ⟨_, [], (List.append_nil _).symm, fun endpoint => ?_⟩
    rw [(registerTraffic_ok hok).2, StoreContent.held?_updateEach hsound hok]
  · refine ⟨made, u :: later, hsplit, fun endpoint => ?_⟩
    have hprefix : ∀ v ∈ made, v.Sound := by
      intro v hv
      exact hsound v (hsplit ▸ List.mem_append_left _ hv)
    rw [(registerTraffic_refused hsplit hmade hrefused).2 endpoint,
      StoreContent.held?_updateEach hprefix hmade]

/-- Whatever the end of a first attempt, a second one that is not refused ends as if it had been
the only one. -/
theorem registerTraffic_again (a again once : Agent σ η) {rules : List Rule}
    (hports : ∀ r ∈ rules, r.port < portBound)
    (htagain : again.topology = a.topology) (htonce : once.topology = a.topology)
    (hleft : StoreContent.Agree again.deployment.state (a.registerTraffic rules).2.deployment.state)
    (hfresh : StoreContent.Agree once.deployment.state a.deployment.state)
    (hagain : (updateEach (Registration.ofRules a.topology rules).remaining
      again.deployment.state).1 = .ok ())
    (honce : (updateEach (Registration.ofRules a.topology rules).remaining
      once.deployment.state).1 = .ok ()) :
    (again.registerTraffic rules).1 = .ok (reportOn a.topology rules ⟨0, []⟩) ∧
      (once.registerTraffic rules).1 = .ok (reportOn a.topology rules ⟨0, []⟩) ∧
      StoreContent.Agree (again.registerTraffic rules).2.deployment.state
        (once.registerTraffic rules).2.deployment.state := by
  have hsound := sound_remaining (t := a.topology) hports
  obtain ⟨made, rest, hsplit, hheld⟩ := held?_registerTraffic a hports
  obtain ⟨hanswer, hafter⟩ := registerTraffic_ok (a := again) (by rwa [htagain])
  obtain ⟨hanswer', hafter'⟩ := registerTraffic_ok (a := once) (by rwa [htonce])
  rw [htagain] at hanswer hafter
  rw [htonce] at hanswer' hafter'
  refine ⟨hanswer, hanswer', fun endpoint => ?_⟩
  -- What was made before is a prefix of what is made now.
  calc StoreContent.held? endpoint (again.registerTraffic rules).2.deployment.state
      = mergedAt endpoint (made ++ rest)
          (mergedAt endpoint made (StoreContent.held? endpoint a.deployment.state)) := by
        rw [hafter, StoreContent.held?_updateEach hsound hagain, hleft, hheld, hsplit]
    _ = mergedAt endpoint (made ++ rest) (StoreContent.held? endpoint a.deployment.state) :=
        mergedAt_resumed ..
    _ = StoreContent.held? endpoint (once.registerTraffic rules).2.deployment.state := by
        rw [hafter', StoreContent.held?_updateEach hsound honce, hfresh, hsplit]

/-- What is so of registering some rules with writes that may be refused. -/
structure Retriable (rules : List Rule) (a : Agent σ η) : Prop where
  /-- A refused write is the answer, and the state is that of the writes before it. -/
  refused : ∀ made u later e,
    (Registration.ofRules a.topology rules).remaining = made ++ u :: later →
    (updateEach made a.deployment.state).1 = .ok () →
    (DesiredStore.apply u (updateEach made a.deployment.state).2).1 = .error e →
    (a.registerTraffic rules).1 = .error (.storage e) ∧
      StoreContent.Agree (a.registerTraffic rules).2.deployment.state
        (updateEach made a.deployment.state).2
  /-- Whatever the end of a first attempt, a second one that is not refused ends as if it had been
  the only one. -/
  again : ∀ again once : Agent σ η,
    again.topology = a.topology → once.topology = a.topology →
    StoreContent.Agree again.deployment.state (a.registerTraffic rules).2.deployment.state →
    StoreContent.Agree once.deployment.state a.deployment.state →
    (updateEach (Registration.ofRules a.topology rules).remaining
      again.deployment.state).1 = .ok () →
    (updateEach (Registration.ofRules a.topology rules).remaining
      once.deployment.state).1 = .ok () →
    ∃ report, (again.registerTraffic rules).1 = .ok report ∧
      (once.registerTraffic rules).1 = .ok report ∧
      StoreContent.Agree (again.registerTraffic rules).2.deployment.state
        (once.registerTraffic rules).2.deployment.state
  /-- Registering twice is registering once. -/
  twice : (updateEach (Registration.ofRules a.topology rules).remaining
      a.deployment.state).1 = .ok () →
    (updateEach (Registration.ofRules a.topology rules).remaining
      (a.registerTraffic rules).2.deployment.state).1 = .ok () →
    ((a.registerTraffic rules).2.registerTraffic rules).1 = (a.registerTraffic rules).1 ∧
      StoreContent.Agree ((a.registerTraffic rules).2.registerTraffic rules).2.deployment.state
        (a.registerTraffic rules).2.deployment.state

/-- A registration that failed can be made again: the failed one leaves what was written before the
refusal, and the next one ends where one alone ends, with all in the same order. -/
theorem registerTraffic_retriable (a : Agent σ η) (rules : List Rule)
    (hports : ∀ r ∈ rules, r.port < portBound) : Retriable rules a where
  refused _ _ _ _ hsplit hmade hrefused := registerTraffic_refused hsplit hmade hrefused
  again again once htagain htonce hleft hfresh hagain honce :=
    ⟨_, registerTraffic_again a again once hports htagain htonce hleft hfresh hagain honce⟩
  twice := by
    intro honce htwice
    obtain ⟨hanswer, hanswer', hagree⟩ :=
      registerTraffic_again a (a.registerTraffic rules).2 a hports rfl rfl (fun _ => rfl)
        (fun _ => rfl) htwice honce
    exact ⟨hanswer.trans hanswer'.symm, hagree⟩

/-- The agent of one endpoint over a store that takes only so many writes, if a number is given. -/
def limitedLoopback (writes : Option Nat) : Agent (LimitedStore DesiredState) Unit :=
  ⟨.default, .root .loopback, [.root],
    .fresh ⟨.memory .empty, writes, true⟩ () (.collected [])⟩

/-- The store refuses the last of four writes, the second one of its rule. -/
theorem registerTraffic_retriable_loopback :
    ((limitedLoopback (some 3)).registerTraffic loopbackRules).1 =
        .error (.storage .writeFailed) ∧
      ∃ report,
        ((limitedLoopback none).registerTraffic loopbackRules).1 = .ok report ∧
        StoreContent.Agree
          (((limitedLoopback none).put { (limitedLoopback none).deployment with
            state := LimitedStore.unlimited ((limitedLoopback (some 3)).registerTraffic
              loopbackRules).2.deployment.state.inner }).registerTraffic
                loopbackRules).2.deployment.state
          ((limitedLoopback none).registerTraffic loopbackRules).2.deployment.state := by
  have hretriable := registerTraffic_retriable (limitedLoopback (some 3)) loopbackRules (by decide)
  obtain ⟨hanswer, -⟩ := hretriable.refused
    ((Registration.ofRules (.root .loopback) loopbackRules).remaining.take 3) _ [] _ rfl rfl rfl
  obtain ⟨report, -, hok, hagree⟩ := hretriable.again
    ((limitedLoopback none).put { (limitedLoopback none).deployment with
      state := LimitedStore.unlimited ((limitedLoopback (some 3)).registerTraffic
        loopbackRules).2.deployment.state.inner })
    (limitedLoopback none) rfl rfl (fun _ => rfl) (fun _ => rfl) rfl rfl
  exact ⟨hanswer, report, hok, hagree⟩

end Agent

end PolicyProbe
