import PolicyProbe.Proofs.Lists
import PolicyProbe.Worker.Handle

/-!
What the answers to several calls on one worker tell of it. One stop takes the handle, and its
answer is true of the worker: it has ended (`Handle.Sound.taken`, `Handle.Allows`). So calls that
are over when all stops are over have told the truth. But between taking the handle and the end of
the worker there is a gap: a stop or a question that comes then is answered at once, as if the
worker had gone, and only then (`Handle.answers`).
-/
namespace PolicyProbe
namespace Handle

variable {h : Handle}

/-- Whether a call took the handle out of its slot. -/
def tookHandle : HandleCall × HandlePhase → Bool
  | (.stop, .ending) => true
  | (.stop, .returned answer) => answer
  | _ => false

/-- What is true of a handle when one of its calls is somewhere. -/
def Allows (h : Handle) : HandleCall × HandlePhase → Prop
  | (c, .watching) => c = .wait ∧ h.inSlot = true
  | (c, .ending) => c = .stop
  | (.stop, .returned true) => h.ended = true
  | (.stop, .returned false) => h.inSlot = false
  | (.isRunning, .returned false) => h.inSlot = false ∨ h.ended = true
  | _ => True

/-- What holds of every handle: its calls are where they may be, and one of them took the handle if
it is gone. -/
structure Sound (h : Handle) : Prop where
  allows : ∀ call ∈ h.calls, h.Allows call
  taken : h.calls.countP tookHandle = if h.inSlot = true then 0 else 1

/-! ## One step -/

/-- What a call tells of a handle stays true when nothing is taken out of the slot. -/
theorem Allows.mono {h' : Handle} {call : HandleCall × HandlePhase} (hcall : h.Allows call)
    (hslot : h'.inSlot = h.inSlot) (hended : h.ended = true → h'.ended = true) :
    h'.Allows call := by
  unfold Allows at hcall ⊢
  rw [hslot]
  split at hcall
  · exact hcall
  · exact hcall
  · exact hended hcall
  · exact hcall
  · exact hcall.imp_right hended
  · trivial

/-- It stays true also when the handle is taken, unless the call watches a process. -/
theorem Allows.take {h' : Handle} {call : HandleCall × HandlePhase} (hcall : h.Allows call)
    (hphase : call.2 ≠ .watching) (hslot : h'.inSlot = false)
    (hended : h.ended = true → h'.ended = true) : h'.Allows call := by
  unfold Allows at hcall ⊢
  split at hcall
  · exact absurd rfl hphase
  · exact hcall
  · exact hended hcall
  · exact hslot
  · exact .inl hslot
  · trivial

/-- A call goes where it may be, without the handle. -/
theorem Sound.move (hs : h.Sound) {i : Nat} {c : HandleCall} {phase phase' : HandlePhase}
    (hi : h.calls[i]? = some (c, phase)) (hallows : h.Allows (c, phase'))
    (hsame : tookHandle (c, phase') = tookHandle (c, phase)) : (h.move i c phase').Sound where
  allows call hcall := by
    rcases List.mem_or_eq_of_mem_set hcall with hcall | rfl
    · exact (hs.allows call hcall).mono rfl id
    · exact hallows.mono rfl id
  taken := by
    have hset := countP_set hi (c, phase') tookHandle
    rw [hsame] at hset
    exact (Nat.add_right_cancel hset).trans hs.taken

/-- A stop takes the handle, when no call keeps the lock. -/
theorem Sound.take (hs : h.Sound) {i : Nat} (hi : h.calls[i]? = some (.stop, .waiting))
    (hlock : h.isLocked = false) (hslot : h.inSlot = true) :
    ({ h.move i .stop .ending with inSlot := false, told := true } : Handle).Sound where
  allows call hcall := by
    rcases List.mem_or_eq_of_mem_set hcall with hcall | rfl
    · have hphase : call.2 ≠ .watching := by
        rw [isLocked, List.any_eq_false] at hlock
        simpa using hlock call hcall
      exact (hs.allows call hcall).take hphase rfl id
    · rfl
  taken := by
    have hset := countP_set hi (.stop, .ending) tookHandle
    rw [hs.taken, if_pos hslot] at hset
    exact hset

theorem Sound.enter (hs : h.Sound) {i : Nat} {c : HandleCall}
    (hi : h.calls[i]? = some (c, .waiting)) (hlock : h.isLocked = false) :
    (h.enter i c).Sound := by
  cases c with
  | isRunning =>
    refine hs.move hi ?_ rfl
    cases hslot : h.inSlot with
    | false => exact .inl hslot
    | true =>
      cases hended : h.ended with
      | false => trivial
      | true => exact .inr hended
  | stop =>
    rw [Handle.enter]
    split
    · rename_i hslot
      exact hs.take hi hlock hslot
    · rename_i hslot
      exact hs.move hi (Bool.eq_false_iff.mpr hslot) rfl
  | wait =>
    rw [Handle.enter]
    split
    · rename_i hwatch
      exact hs.move hi ⟨rfl, hwatch.2⟩ rfl
    · exact hs.move hi trivial rfl

theorem Sound.advance (hs : h.Sound) (i : Nat) : (h.advance i).Sound := by
  unfold Handle.advance
  split
  · rename_i c hi
    split
    · exact hs
    · rename_i hlock
      exact hs.enter hi (Bool.eq_false_iff.mpr hlock)
  · rename_i c hi
    split
    · obtain ⟨rfl, -⟩ : c = .wait ∧ h.inSlot = true := hs.allows _ (List.mem_of_getElem? hi)
      exact hs.move hi trivial rfl
    · exact hs
  · rename_i c hi
    split
    · rename_i hended
      obtain rfl : c = .stop := hs.allows _ (List.mem_of_getElem? hi)
      exact hs.move hi hended rfl
    · exact hs
  · exact hs

/-- One step keeps what holds of every handle. -/
theorem Sound.handle (hs : h.Sound) (e : HandleEvent) : (h.handle e).Sound := by
  cases e with
  | call c =>
    refine ⟨fun call hcall => ?_, ?_⟩
    · rcases List.mem_append.mp hcall with hcall | hcall
      · exact (hs.allows call hcall).mono rfl id
      · rw [List.mem_singleton.mp hcall]
        trivial
    · show (h.calls ++ [(c, HandlePhase.waiting)]).countP tookHandle = _
      rw [List.countP_append, hs.taken]
      cases c <;> rfl
  | advance i => exact hs.advance i
  | ended => exact ⟨fun call hcall => (hs.allows call hcall).mono rfl fun _ => rfl, hs.taken⟩

/-! ## A whole run -/

theorem sound_start (kind : WorkerKind) : (start kind).Sound := ⟨by simp [start], rfl⟩

theorem Sound.run (hs : h.Sound) (events : List HandleEvent) : (h.run events).Sound := by
  induction events generalizing h with
  | nil => exact hs
  | cons e events ih => exact ih (hs.handle e)

/-- When the handle is gone, some stop took it. -/
theorem Sound.exists_stop (hs : h.Sound) (hslot : h.inSlot = false) :
    (.stop, .ending) ∈ h.calls ∨ (.stop, .returned true) ∈ h.calls := by
  have hcount : 0 < h.calls.countP tookHandle := by
    rw [hs.taken, hslot]
    exact Nat.one_pos
  obtain ⟨⟨c, phase⟩, hcall, htook⟩ := List.countP_pos_iff.mp hcount
  unfold tookHandle at htook
  split at htook
  · rename_i heq
    exact .inl (heq ▸ hcall)
  · rename_i heq
    subst htook
    exact .inr (heq ▸ hcall)
  · cases htook

/-- Whether an answer says that the worker has gone. -/
def saysGone : HandleCall × HandlePhase → Bool
  | (.stop, .returned _) => true
  | (.isRunning, .returned answer) => !answer
  | _ => false

/-- All answers that say that the worker has gone are true. -/
def Gone (h : Handle) : Prop := ∀ call ∈ h.calls, saysGone call = true → h.ended = true

/-- An answer can be false only while a stop waits for the end of the worker. -/
theorem Sound.gone (hs : h.Sound) (hending : (.stop, .ending) ∉ h.calls) : h.Gone := by
  have hslot (hslot : h.inSlot = false) : h.ended = true :=
    hs.allows _ ((hs.exists_stop hslot).resolve_left hending)
  rintro ⟨c, phase⟩ hcall hgone
  have hallows := hs.allows _ hcall
  unfold saysGone at hgone
  split at hgone
  · rename_i answer heq
    obtain ⟨rfl, rfl⟩ := Prod.mk.inj heq
    cases answer with
    | true => exact hallows
    | false => exact hslot hallows
  · rename_i answer heq
    obtain ⟨rfl, rfl⟩ := Prod.mk.inj heq
    cases answer with
    | true => cases hgone
    | false => exact hallows.elim hslot id
  · cases hgone

/-! ## The gap -/

/-- While a stop waits for the end of the worker, the slot is empty and no call keeps the lock. -/
theorem Sound.open_of_ending (hs : h.Sound) (hending : (.stop, .ending) ∈ h.calls) :
    h.inSlot = false ∧ h.isLocked = false := by
  have hslot : h.inSlot = false := by
    have hcount : 0 < h.calls.countP tookHandle := List.countP_pos_iff.mpr ⟨_, hending, rfl⟩
    rw [hs.taken] at hcount
    split at hcount
    · cases hcount
    · rename_i hslot
      exact Bool.eq_false_iff.mpr hslot
  refine ⟨hslot, ?_⟩
  rw [isLocked, List.any_eq_false]
  rintro ⟨c, phase⟩ hcall
  cases phase with
  | watching =>
    have hin : h.inSlot = true := (hs.allows _ hcall).2
    rw [hslot] at hin
    cases hin
  | _ => simp

/-- A call that comes then is answered at once. -/
theorem Sound.answered_at_once (hs : h.Sound) (hending : (.stop, .ending) ∈ h.calls)
    {c : HandleCall} : h.run [.call c, .advance h.calls.length] =
      { h with calls := h.calls ++ [(c, .returned false)] } := by
  obtain ⟨hslot, hlock⟩ := hs.open_of_ending hending
  have hlast : (h.calls ++ [(c, HandlePhase.waiting)])[h.calls.length]? = some (c, .waiting) := by
    simp
  have hset (phase : HandlePhase) : (h.calls ++ [(c, HandlePhase.waiting)]).set h.calls.length
      (c, phase) = h.calls ++ [(c, phase)] := by
    simp
  have hlock' : isLocked { h with calls := h.calls ++ [(c, .waiting)] } = false := by
    rw [isLocked, List.any_append, ← isLocked, hlock]
    rfl
  show Handle.advance { h with calls := h.calls ++ [(c, .waiting)] } h.calls.length = _
  rw [Handle.advance, hlast]
  simp only [hlock']
  cases c <;> simp [Handle.enter, Handle.move, hslot, hset]

/-- One stop answers that it stopped the worker, and then the worker has ended; once all stops are
over there is such an answer. No answer is false unless a stop waits for the end of the worker; as
long as it does, every call that comes is told too early that the worker has gone. -/
theorem stops_answered (kind : WorkerKind) (events : List HandleEvent) :
    let h := (start kind).run events
    h.calls.count (.stop, .returned true) ≤ 1 ∧
      ((.stop, .returned true) ∈ h.calls → h.ended = true) ∧
      ((∃ phase, (.stop, phase) ∈ h.calls) →
        (∀ phase, (.stop, phase) ∈ h.calls → ∃ answer, phase = .returned answer) →
          h.calls.count (.stop, .returned true) = 1) ∧
      ((.stop, .ending) ∉ h.calls → h.Gone) ∧
      ((.stop, .ending) ∈ h.calls → h.ended = false → ∀ c, c ≠ .wait →
        ¬(h.run [.call c, .advance h.calls.length]).Gone) := by
  intro h
  have hs : h.Sound := (sound_start kind).run events
  have hatMost : h.calls.count (.stop, .returned true) ≤ 1 := by
    have hle : h.calls.count (.stop, .returned true) ≤ h.calls.countP tookHandle :=
      List.countP_mono_left fun call _ heq => by rw [beq_iff_eq.mp heq]; rfl
    rw [hs.taken] at hle
    split at hle <;> omega
  refine ⟨hatMost, hs.allows _, ?_, hs.gone, ?_⟩
  · rintro ⟨phase, hstop⟩ hover
    have htrue : (.stop, .returned true) ∈ h.calls := by
      obtain ⟨answer, rfl⟩ := hover phase hstop
      cases answer with
      | true => exact hstop
      | false =>
        refine (hs.exists_stop (hs.allows _ hstop)).resolve_left fun hending => ?_
        obtain ⟨answer, hanswer⟩ := hover _ hending
        cases hanswer
    have hpos := List.count_pos_iff.mpr htrue
    omega
  · intro hending hended c hc hgone
    rw [hs.answered_at_once hending] at hgone
    have htold : saysGone (c, .returned false) = true := by
      cases c with
      | wait => exact absurd rfl hc
      | isRunning | stop => rfl
    have htrue := hgone _ (List.mem_append_right _ List.mem_cons_self) htold
    rw [hended] at htrue
    cases htrue

/-- Two stops and a question on a task that has not ended yet: the second stop and the question are
answered as if it had gone. -/
theorem answered_too_early :
    let h := (start .task).run [.call .stop, .call .stop, .call .isRunning, .advance 0, .advance 1,
      .advance 2]
    h.calls = [(.stop, .ending), (.stop, .returned false), (.isRunning, .returned false)] ∧
      h.ended = false ∧ ¬h.Gone := by
  have hcalls : ((start .task).run [.call .stop, .call .stop, .call .isRunning, .advance 0,
      .advance 1, .advance 2]) = ⟨.task, false, true, false,
        [(.stop, .ending), (.stop, .returned false), (.isRunning, .returned false)]⟩ := by
    decide
  rw [hcalls]
  refine ⟨rfl, rfl, fun hgone => ?_⟩
  have htrue : false = true := hgone (.stop, .returned false) (by decide) rfl
  cases htrue

end Handle

end PolicyProbe
