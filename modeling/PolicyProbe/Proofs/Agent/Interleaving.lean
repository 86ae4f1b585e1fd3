import PolicyProbe.Agent.Registration
import PolicyProbe.Proofs.Agent.Updates
import PolicyProbe.Proofs.Lists

/-!
Registrations that are in progress at the same time lose nothing. In any order of their turns, what
was written and what is left to write are together what all of them ask (`Progress.shared`), every
registration has written its first updates in their order (`Progress.ordered`), and the store holds
what the writes make of it, one after another (`Progress.held`). Merging only adds, so when all are
complete every endpoint has all that any of them asked (`Combined`).
-/
namespace PolicyProbe

open StateEntry

/-- Everything that some lists of rules ask, list by list. -/
def asked (t : Topology) (requests : List (List Rule)) : List StateUpdate :=
  requests.flatMap fun rules => (Registration.ofRules t rules).remaining

/-- What is new stands behind what was there before: each thing that was asked for, once. -/
def Adds {α : Type} (wanted : α → Prop) (old new : List α) : Prop :=
  ∃ added, new = old ++ added ∧ added.Nodup ∧ ∀ x, x ∈ added ↔ wanted x ∧ x ∉ old

theorem adds_newcomers {α : Type} [DecidableEq α] {wanted : α → Prop} {old asks : List α}
    (h : ∀ x, x ∈ asks ↔ wanted x) : Adds wanted old (old ++ newcomers old asks) := by
  refine ⟨newcomers old asks, rfl, nodup_newcomers old asks, fun x => ?_⟩
  rw [mem_newcomers, h]

namespace Registrations

section Turns

variable {σ : Type} [DesiredStore σ]

/-- A turn is idle, or a registration makes its next update, or is refused it. -/
theorem advance_cases (r : Registrations σ) (i : Nat) :
    r.advance i = r ∨ ∃ u rest, r.calls[i]? = some ⟨u :: rest, none⟩ ∧
      ((DesiredStore.apply u r.state).1 = .ok () ∧ r.advance i =
          ⟨(DesiredStore.apply u r.state).2, r.calls.set i ⟨rest, none⟩, r.written ++ [u]⟩ ∨
        ∃ e, (DesiredStore.apply u r.state).1 = .error e ∧ r.advance i =
          ⟨(DesiredStore.apply u r.state).2, r.calls.set i ⟨u :: rest, some e⟩, r.written⟩) := by
  rw [advance]
  split
  · rename_i u rest hcall
    refine Or.inr ⟨u, rest, hcall, ?_⟩
    split
    · rename_i happly
      rw [happly]
      exact Or.inl ⟨rfl, rfl⟩
    · rename_i e after happly
      rw [happly]
      exact Or.inr ⟨e, rfl, rfl⟩
  · exact Or.inl rfl

theorem run_idle {r : Registrations σ} {i : Nat} (h : r.advance i = r) (n : Nat) :
    r.run (List.replicate n i) = r := by
  induction n with
  | zero => rfl
  | succ n ih =>
    show (r.advance i).run (List.replicate n i) = r
    rw [h, ih]

/-- A registration that has all turns makes its updates one after another. -/
theorem run_single (us : List StateUpdate) (s : σ) (written : List StateUpdate) {n : Nat}
    (hn : us.length ≤ n) :
    ∃ (call : Registration) (after : List StateUpdate),
      run ⟨s, [⟨us, none⟩], written⟩ (List.replicate n 0) =
          ⟨(Agent.updateEach us s).2, [call], after⟩ ∧
        (call.isComplete = true ↔ (Agent.updateEach us s).1 = .ok ()) := by
  induction us generalizing s written n with
  | nil => exact ⟨⟨[], none⟩, written, run_idle rfl n, iff_of_true rfl rfl⟩
  | cons u us ih =>
    cases n with
    | zero => exact absurd hn (Nat.not_succ_le_zero us.length)
    | succ n =>
      rw [List.replicate_succ, run, List.foldl_cons, ← run, Agent.updateEach]
      rcases happly : DesiredStore.apply u s with ⟨answer, after⟩
      cases answer with
      | ok _ =>
        have hstep : advance ⟨s, [⟨u :: us, none⟩], written⟩ 0 =
            ⟨after, [⟨us, none⟩], written ++ [u]⟩ := by
          simp [advance, happly]
        rw [hstep]
        exact ih after _ (Nat.le_of_succ_le_succ hn)
      | error e =>
        have hstep : advance ⟨s, [⟨u :: us, none⟩], written⟩ 0 =
            ⟨after, [⟨u :: us, some e⟩], written⟩ := by
          simp [advance, happly]
        rw [hstep]
        exact ⟨_, written, run_idle rfl n, iff_of_false Bool.false_ne_true (by rintro ⟨⟩)⟩

/-- A registration without others is the registering of its rules by the agent. -/
theorem run_alone {η : Type} (a : Agent σ η) (rules : List Rule) {n : Nat}
    (hn : (Registration.ofRules a.topology rules).remaining.length ≤ n) :
    ((start a.topology a.deployment.state [rules]).run (List.replicate n 0)).state =
        (a.registerTraffic rules).2.deployment.state ∧
      (((start a.topology a.deployment.state [rules]).run (List.replicate n 0)).isComplete = true ↔
        (a.registerTraffic rules).1.isOk = true) := by
  obtain ⟨call, written, hrun, hcomplete⟩ := run_single _ a.deployment.state [] hn
  have hstart : start a.topology a.deployment.state [rules] =
      ⟨a.deployment.state, [⟨(Registration.ofRules a.topology rules).remaining, none⟩], []⟩ := rfl
  rw [hstart, hrun]
  have hsingle : (Registrations.mk (Agent.updateEach
      (Registration.ofRules a.topology rules).remaining a.deployment.state).2 [call]
        written).isComplete = call.isComplete := Bool.and_true _
  rw [hsingle, hcomplete]
  rcases heach : (Agent.updateEach (Registration.ofRules a.topology rules).remaining
      a.deployment.state).1 with e | ⟨⟩
  · obtain ⟨hanswer, hstate⟩ := Agent.registerTraffic_error heach
    rw [hanswer, hstate]
    exact ⟨rfl, iff_of_false nofun Bool.false_ne_true⟩
  · obtain ⟨hanswer, hstate⟩ := Agent.registerTraffic_ok heach
    rw [hanswer, hstate]
    exact ⟨rfl, iff_of_true rfl rfl⟩

end Turns

/-! ## Registrations in progress -/

variable {σ : Type} [DesiredStore σ] [StoreContent σ] {t : Topology} {requests : List (List Rule)}
  {before : σ} {r : Registrations σ}

/-- What is so of registrations after any turns. -/
structure Progress (t : Topology) (requests : List (List Rule)) (before : σ)
    (r : Registrations σ) : Prop where
  shared : (r.written ++ r.calls.flatMap (·.remaining)).Perm (asked t requests)
  ordered : ∀ (i : Nat) (rules : List Rule), requests[i]? = some rules → ∃ (call : Registration)
    (made : List StateUpdate), r.calls[i]? = some call ∧
      (Registration.ofRules t rules).remaining = made ++ call.remaining ∧ made.Sublist r.written
  held : ∀ e, StoreContent.held? e r.state = mergedAt e r.written (StoreContent.held? e before)

theorem progress_start (t : Topology) (before : σ) (requests : List (List Rule)) :
    Progress t requests before (start t before requests) where
  shared := by
    show (List.flatMap Registration.remaining (requests.map (.ofRules t))).Perm _
    rw [List.flatMap_map]
    exact List.Perm.refl _
  ordered := by
    intro i rules hi
    refine ⟨.ofRules t rules, [], ?_, rfl, List.nil_sublist _⟩
    show (requests.map (Registration.ofRules t))[i]? = _
    rw [List.getElem?_map, hi, Option.map_some]
  held _ := rfl

/-- Every update that is made was asked for, so it is sound. -/
theorem Progress.sound (h : Progress t requests before r)
    (hports : ∀ rules ∈ requests, ∀ rule ∈ rules, rule.port < portBound) {i : Nat}
    {call : Registration} (hcall : r.calls[i]? = some call) : ∀ u ∈ call.remaining, u.Sound := by
  intro u hu
  have hleft : u ∈ r.calls.flatMap (·.remaining) :=
    List.mem_flatMap.mpr ⟨call, List.mem_of_getElem? hcall, hu⟩
  obtain ⟨rules, hrules, hasked⟩ :=
    List.mem_flatMap.mp (h.shared.subset (List.mem_append_right _ hleft))
  exact Agent.sound_remaining (hports rules hrules) u hasked

/-- A registration that is refused its next update has still to make it. -/
theorem Progress.stop (h : Progress t requests before r) {i : Nat} {us : List StateUpdate}
    {after : σ} {failure : Option StorageError} (hcall : r.calls[i]? = some ⟨us, none⟩)
    (hafter : StoreContent.Agree after r.state) :
    Progress t requests before ⟨after, r.calls.set i ⟨us, failure⟩, r.written⟩ where
  shared := by
    have hset := flatMap_set hcall ⟨us, failure⟩ Registration.remaining
    exact (((List.perm_append_right_iff us).mp hset).append_left _).trans h.shared
  ordered := by
    intro j rules hj
    obtain ⟨call, made, hget, hsplit, hmade⟩ := h.ordered j rules hj
    by_cases hji : i = j
    · subst hji
      obtain rfl : (⟨us, none⟩ : Registration) = call := Option.some.inj (hcall.symm.trans hget)
      exact ⟨_, made, List.getElem?_set_self (List.getElem?_eq_some_iff.mp hcall).1, hsplit, hmade⟩
    · exact ⟨call, made, (List.getElem?_set_ne hji).trans hget, hsplit, hmade⟩
  held e := (hafter e).trans (h.held e)

/-- A registration that makes its next update. -/
theorem Progress.write (h : Progress t requests before r) {i : Nat} {u : StateUpdate}
    {rest : List StateUpdate} {after : σ} (hcall : r.calls[i]? = some ⟨u :: rest, none⟩)
    (hafter : ∀ e, StoreContent.held? e after = mergedAt e [u] (StoreContent.held? e r.state)) :
    Progress t requests before ⟨after, r.calls.set i ⟨rest, none⟩, r.written ++ [u]⟩ where
  shared := by
    -- What the registration has no longer to write is what was written.
    have hset := flatMap_set hcall ⟨rest, none⟩ Registration.remaining
    have hmoved : (u :: (r.calls.set i ⟨rest, none⟩).flatMap (·.remaining)).Perm
        (r.calls.flatMap (·.remaining)) := by
      refine (List.perm_append_right_iff rest).mp (List.Perm.trans ?_ hset)
      exact List.perm_middle.symm
    show (r.written ++ [u] ++ (r.calls.set i ⟨rest, none⟩).flatMap (·.remaining)).Perm _
    rw [List.append_assoc, List.singleton_append]
    exact (hmoved.append_left _).trans h.shared
  ordered := by
    intro j rules hj
    obtain ⟨call, made, hget, hsplit, hmade⟩ := h.ordered j rules hj
    by_cases hji : i = j
    · subst hji
      obtain rfl : (⟨u :: rest, none⟩ : Registration) = call :=
        Option.some.inj (hcall.symm.trans hget)
      refine ⟨_, made ++ [u], List.getElem?_set_self (List.getElem?_eq_some_iff.mp hcall).1, ?_,
        hmade.append_right _⟩
      rw [hsplit, List.append_assoc, List.singleton_append]
    · exact ⟨call, made, (List.getElem?_set_ne hji).trans hget, hsplit,
        hmade.trans (List.sublist_append_left _ _)⟩
  held e := by rw [mergedAt_append, ← h.held e, ← hafter e]

/-- One turn. -/
theorem Progress.advance (hports : ∀ rules ∈ requests, ∀ rule ∈ rules, rule.port < portBound)
    (h : Progress t requests before r) (i : Nat) : Progress t requests before (r.advance i) := by
  rcases advance_cases r i with hidle | ⟨u, rest, hcall, ⟨hok, hstep⟩ | ⟨e, herror, hstep⟩⟩
  · rwa [hidle]
  · have hu : u.Sound := h.sound hports hcall u List.mem_cons_self
    rw [hstep]
    exact h.write hcall (StoreContent.held?_accepted hu hok)
  · rw [hstep]
    exact h.stop hcall fun endpoint => StoreContent.refused endpoint herror

/-- Any turns. -/
theorem Progress.run (hports : ∀ rules ∈ requests, ∀ rule ∈ rules, rule.port < portBound)
    (h : Progress t requests before r) (turns : List Nat) :
    Progress t requests before (r.run turns) := by
  induction turns generalizing r with
  | nil => exact h
  | cons i turns ih => exact ih (h.advance hports i)

/-! ## All registrations complete -/

omit [DesiredStore σ] [StoreContent σ] in
theorem remaining_of_isComplete (h : r.isComplete = true) {call : Registration}
    (hcall : call ∈ r.calls) : call.remaining = [] := by
  have hcomplete := List.all_eq_true.mp h call hcall
  rw [Registration.isComplete, Bool.and_eq_true] at hcomplete
  exact List.isEmpty_iff.mp hcomplete.1

/-- What was written of an endpoint is what one of the lists of rules asks of it. -/
theorem mem_of_perm_asked {us : List StateUpdate} (h : us.Perm (asked t requests)) {β : Type}
    {part : StateUpdate → List β} {e : Address} {x : β} :
    x ∈ (updatesAt e us).flatMap part ↔
      ∃ rules ∈ requests,
        x ∈ (updatesAt e (Registration.ofRules t rules).remaining).flatMap part := by
  have hperm : (updatesAt e us).Perm (updatesAt e (asked t requests)) := h.filter _
  rw [(hperm.flatMap_right part).mem_iff, asked, updatesAt, List.filter_flatMap,
    List.flatMap_assoc, List.mem_flatMap]
  rfl

/-- What registrations make of a store when all of them are complete: each of them has made its
updates in order, and every endpoint has what it had and what any of them asked, the last write of
a client deciding what is expected of it. -/
structure Combined (t : Topology) (requests : List (List Rule)) (before : σ)
    (r : Registrations σ) : Prop where
  written : r.written.Perm (asked t requests)
  ordered : ∀ rules ∈ requests, (Registration.ofRules t rules).remaining.Sublist r.written
  servers : ∀ e, t.isLocal e = true →
    Adds (fun x => ∃ rules ∈ requests, x ∈ Agent.serversAsked e rules)
      (StoreContent.servers e before) (StoreContent.servers e r.state)
  clients : ∀ e, t.isLocal e = true →
    Adds (fun k => ∃ rules ∈ requests, k ∈ (Agent.clientsAsked e rules).map ClientEntry.key)
      ((StoreContent.clients e before).map ClientEntry.key)
      ((StoreContent.clients e r.state).map ClientEntry.key)
  expected : ∀ (e : Address) (k : ClientEntry.Key),
    (StoreContent.clients e r.state).find? (·.key = k) =
      (((updatesAt e r.written).flatMap (·.clients)).findRev? (·.key = k)).or
        ((StoreContent.clients e before).find? (·.key = k))
  untouched : ∀ e, t.isLocal e = false →
    StoreContent.held? e r.state = StoreContent.held? e before

theorem combined_of_progress (h : Progress t requests before r) (hcomplete : r.isComplete = true) :
    Combined t requests before r := by
  have hnone : r.calls.flatMap (·.remaining) = [] :=
    List.flatMap_eq_nil_iff.mpr fun call => remaining_of_isComplete hcomplete
  have hwritten : r.written.Perm (asked t requests) := by
    have hshared := h.shared
    rwa [hnone, List.append_nil] at hshared
  constructor
  case written => exact hwritten
  case ordered =>
    intro rules hrules
    obtain ⟨i, hi⟩ := List.getElem?_of_mem hrules
    obtain ⟨call, made, hcall, hsplit, hmade⟩ := h.ordered i rules hi
    rw [remaining_of_isComplete hcomplete (List.mem_of_getElem? hcall), List.append_nil] at hsplit
    rwa [hsplit]
  case servers =>
    intro e he
    rw [StoreContent.servers, StoreContent.servers, h.held e, servers_mergedAt]
    refine adds_newcomers fun x => ?_
    rw [mem_of_perm_asked hwritten]
    simp only [Agent.servers_remaining he]
  case clients =>
    intro e he
    rw [StoreContent.clients, StoreContent.clients, h.held e, (clients_mergedAt e _ _).keys]
    refine adds_newcomers fun k => ?_
    rw [List.map_flatMap, mem_of_perm_asked hwritten]
    simp only [← List.map_flatMap, Agent.clients_remaining he]
  case expected =>
    intro e k
    rw [StoreContent.clients, StoreContent.clients, h.held e]
    exact (clients_mergedAt e _ _).expected k
  case untouched =>
    intro e he
    rw [h.held e]
    refine mergedAt_of_ne (fun u hu => ?_) _
    obtain ⟨rules, -, hasked⟩ := List.mem_flatMap.mp (hwritten.subset hu)
    exact Agent.ne_of_mem_remaining (Or.inl he) u hasked

/-- Registrations that are in progress at the same time and complete in any order of their turns
lose nothing of what any of them asks, nor of what was there before. -/
theorem combined_run (t : Topology) (before : σ) (requests : List (List Rule)) (turns : List Nat)
    (hports : ∀ rules ∈ requests, ∀ rule ∈ rules, rule.port < portBound)
    (hcomplete : ((start t before requests).run turns).isComplete = true) :
    Combined t requests before ((start t before requests).run turns) :=
  combined_of_progress ((progress_start t before requests).run hports turns) hcomplete

/-- Two lists of rules that ask for the same client. -/
def rivalRules : List (List Rule) :=
  [Agent.loopbackRules, [⟨.loopback, .loopback, .tcp, 80, true, .reject, .active⟩]]

theorem combined_run_loopback :
    ((start (.root .loopback) (DesiredState.memory .empty) rivalRules).run
        [0, 1, 0, 0, 1, 0]).isComplete = true ∧
      Combined (.root .loopback) rivalRules (DesiredState.memory .empty)
        ((start (.root .loopback) (DesiredState.memory .empty) rivalRules).run
          [0, 1, 0, 0, 1, 0]) :=
  ⟨by rfl, combined_run _ _ _ _ (by decide) (by rfl)⟩

end Registrations

end PolicyProbe
