import PolicyProbe.Proofs.Worker.Handle

/-!
Who keeps the lock of a handle, and whom that holds up. Only a call that watches a process keeps the
lock (`Handle.Sound.isLocked_iff`). While it does and the process lives, nothing that is asked of
the handle gets any further: all that happens is that more calls wait (`Handle.run_of_locked`). So a
stop behind such a call cannot kill the process, it can only wait for it to exit by itself; where no
call watches, a stop kills the process at its next turn (`Handle.heldUp_by_watching`).
-/
namespace PolicyProbe

namespace HandleEvent

/-- The call that an event makes, if it makes one. -/
def call? : HandleEvent → Option HandleCall
  | .call c => some c
  | .advance _ | .ended => none

/-- The calls that some events make, all of them before they have the lock. -/
def madeAmong (events : List HandleEvent) : List (HandleCall × HandlePhase) :=
  (events.filterMap call?).map (·, .waiting)

end HandleEvent

namespace Handle

variable {h : Handle}

/-! ## One step -/

/-- What a turn of a call does: nothing, or it moves this call only, and if it empties the slot then
the worker is told to end. -/
theorem advance_cases (h : Handle) (i : Nat) :
    h.advance i = h ∨ ∃ c phase phase', h.calls[i]? = some (c, phase) ∧
      (h.advance i = h.move i c phase' ∨
        h.advance i = { h.move i c phase' with inSlot := false, told := true }) := by
  unfold Handle.advance
  split
  · rename_i c hi
    split
    · exact .inl rfl
    · refine .inr ⟨c, .waiting, ?_⟩
      cases c with
      | isRunning => exact ⟨_, hi, .inl rfl⟩
      | stop =>
        rw [Handle.enter]
        split
        · exact ⟨_, hi, .inr rfl⟩
        · exact ⟨_, hi, .inl rfl⟩
      | wait =>
        rw [Handle.enter]
        split
        · exact ⟨_, hi, .inl rfl⟩
        · exact ⟨_, hi, .inl rfl⟩
  · rename_i c hi
    split
    · exact .inr ⟨c, _, _, hi, .inl rfl⟩
    · exact .inl rfl
  · rename_i c hi
    split
    · exact .inr ⟨c, _, _, hi, .inl rfl⟩
    · exact .inl rfl
  · exact .inl rfl

/-- What stays true of a handle of some kind: the worker has been told to end once the slot is
empty, and not before. -/
structure Told (kind : WorkerKind) (h : Handle) : Prop where
  kind_eq : h.kind = kind
  told_eq : h.told = !h.inSlot

theorem Told.handle {kind : WorkerKind} (ht : h.Told kind) (e : HandleEvent) :
    (h.handle e).Told kind := by
  cases e with
  | call c => exact ⟨ht.kind_eq, ht.told_eq⟩
  | ended => exact ⟨ht.kind_eq, ht.told_eq⟩
  | advance i =>
    show (h.advance i).Told kind
    obtain heq | ⟨c, phase, phase', -, heq | heq⟩ := h.advance_cases i <;> rw [heq]
    · exact ht
    · exact ⟨ht.kind_eq, ht.told_eq⟩
    · exact ⟨ht.kind_eq, rfl⟩

/-- The calls of a handle are those that were made, in their order. -/
theorem map_fst_handle (h : Handle) (e : HandleEvent) :
    (h.handle e).calls.map Prod.fst = h.calls.map Prod.fst ++ e.call?.toList := by
  cases e with
  | call c => exact List.map_append
  | ended => exact (List.append_nil _).symm
  | advance i =>
    show (h.advance i).calls.map Prod.fst = h.calls.map Prod.fst ++ []
    rw [List.append_nil]
    obtain heq | ⟨c, phase, phase', hi, heq⟩ := h.advance_cases i
    · rw [heq]
    · have hcalls : (h.advance i).calls = h.calls.set i (c, phase') := by
        rcases heq with heq | heq <;> rw [heq] <;> rfl
      have hfst : (h.calls.map Prod.fst)[i]? = some c := by
        rw [List.getElem?_map, hi, Option.map_some]
      rw [hcalls, List.map_set, set_getElem? hfst]

/-! ## A whole run -/

theorem told_start (kind : WorkerKind) : (start kind).Told kind := ⟨rfl, rfl⟩

theorem Told.run {kind : WorkerKind} (ht : h.Told kind) (events : List HandleEvent) :
    (h.run events).Told kind := by
  induction events generalizing h with
  | nil => exact ht
  | cons e events ih => exact ih (ht.handle e)

theorem map_fst_run (h : Handle) (events : List HandleEvent) :
    (h.run events).calls.map Prod.fst =
      h.calls.map Prod.fst ++ events.filterMap HandleEvent.call? := by
  induction events generalizing h with
  | nil => exact (List.append_nil _).symm
  | cons e events ih =>
    show ((h.handle e).run events).calls.map Prod.fst = _
    rw [ih, map_fst_handle, List.append_assoc]
    cases e <;> rfl

/-- A call of a new handle was made. -/
theorem made_of_mem {kind : WorkerKind} {events : List HandleEvent} {c : HandleCall}
    {phase : HandlePhase} (hcall : (c, phase) ∈ ((start kind).run events).calls) :
    .call c ∈ events := by
  have hmade : c ∈ events.filterMap HandleEvent.call? := by
    have hfst := List.mem_map_of_mem (f := Prod.fst) hcall
    rwa [map_fst_run] at hfst
  obtain ⟨e, he, hc⟩ := List.mem_filterMap.mp hmade
  cases e with
  | call c' =>
    obtain rfl : c' = c := Option.some.inj hc
    exact he
  | advance i => cases hc
  | ended => cases hc

/-! ## The lock -/

/-- Only a call that watches a process keeps the lock. -/
theorem Sound.isLocked_iff (hs : h.Sound) :
    h.isLocked = true ↔ (.wait, .watching) ∈ h.calls := by
  rw [isLocked, List.any_eq_true]
  constructor
  · rintro ⟨⟨c, phase⟩, hcall, hphase⟩
    obtain rfl : phase = .watching := beq_iff_eq.mp hphase
    have hallows : c = .wait ∧ h.inSlot = true := hs.allows _ hcall
    obtain ⟨rfl, -⟩ := hallows
    exact hcall
  · exact fun hcall => ⟨_, hcall, rfl⟩

theorem Sound.stopIsHeldUp_iff (hs : h.Sound) :
    h.stopIsHeldUp = true ↔
      (.stop, .waiting) ∈ h.calls ∧ (.wait, .watching) ∈ h.calls ∧ h.ended = false := by
  rw [stopIsHeldUp, Bool.and_eq_true, Bool.and_eq_true, List.contains_iff_mem, hs.isLocked_iff,
    Bool.not_eq_true', and_assoc]

/-- While the lock is kept and the worker lives, no call gets any further. -/
theorem advance_of_locked (hlock : h.isLocked = true) (hended : h.ended = false) (i : Nat) :
    h.advance i = h := by
  unfold Handle.advance
  split
  · exact if_pos hlock
  · simp [hended]
  · simp [hended]
  · rfl

/-- Where the lock is free, a call gets it at its turn. -/
theorem advance_of_free (hlock : h.isLocked = false) {i : Nat} {c : HandleCall}
    (hi : h.calls[i]? = some (c, .waiting)) : h.advance i = h.enter i c := by
  simp [Handle.advance, hi, hlock]

theorem isLocked_append (hlock : h.isLocked = true) (calls : List (HandleCall × HandlePhase)) :
    isLocked { h with calls := h.calls ++ calls } = true := by
  rw [isLocked, List.any_append, ← isLocked, hlock]
  rfl

/-- So all that happens until the worker ends is that the calls that are made wait as well. -/
theorem run_of_locked (hlock : h.isLocked = true) (hended : h.ended = false)
    {events : List HandleEvent} (hlives : .ended ∉ events) :
    h.run events = { h with calls := h.calls ++ HandleEvent.madeAmong events } := by
  induction events generalizing h with
  | nil =>
    show h = { h with calls := h.calls ++ [] }
    rw [List.append_nil]
  | cons e events ih =>
    have hrest : .ended ∉ events := fun hmem => hlives (List.mem_cons_of_mem _ hmem)
    cases e with
    | call c =>
      show Handle.run { h with calls := h.calls ++ [(c, .waiting)] } events = _
      rw [ih (isLocked_append hlock _) hended hrest, List.append_assoc]
      rfl
    | advance i =>
      show (h.advance i).run events = _
      rw [advance_of_locked hlock hended, ih hlock hended hrest]
      rfl
    | ended => exact absurd List.mem_cons_self hlives

/-- A stop that comes while the lock is kept is held up. -/
theorem heldUp_of_locked (hlock : h.isLocked = true) (hended : h.ended = false) :
    (h.run [.call .stop]).stopIsHeldUp = true := by
  rw [run_of_locked hlock hended (by simp), stopIsHeldUp, isLocked_append hlock, hended]
  simp [HandleEvent.madeAmong, HandleEvent.call?]

/-- A call that waits for the exit of a process holds up a stop that comes behind it, whether it has
the lock itself by then or another such call keeps it. -/
theorem heldUp_behind_wait (hkind : h.kind = .process) (hslot : h.inSlot = true)
    (hended : h.ended = false) :
    (h.run [.call .wait, .advance h.calls.length, .call .stop]).stopIsHeldUp = true := by
  let called : Handle := { h with calls := h.calls ++ [(.wait, .waiting)] }
  show ((called.advance h.calls.length).run [.call .stop]).stopIsHeldUp = true
  -- The new call watches the process unless one before it does, and then it waits with the stop.
  cases hlock : called.isLocked with
  | true =>
    rw [advance_of_locked hlock hended]
    exact heldUp_of_locked hlock hended
  | false =>
    have hlast : called.calls[h.calls.length]? = some (.wait, .waiting) := by simp [called]
    have hwaits : called.kind = .process ∧ called.inSlot = true := ⟨hkind, hslot⟩
    rw [advance_of_free hlock hlast, Handle.enter, if_pos hwaits]
    refine heldUp_of_locked ?_ hended
    exact List.any_eq_true.mpr ⟨_, mem_set_self hlast _, rfl⟩

/-- Where the lock is free, a stop goes on at its next turn, and then the worker has been told to
end, by this stop or by the one that took the handle before. -/
theorem Told.stop_goes_on {kind : WorkerKind} (ht : h.Told kind) (hlock : h.isLocked = false)
    {i : Nat} (hi : h.calls[i]? = some (.stop, .waiting)) :
    (h.advance i).told = true ∧ (h.advance i).calls[i]? ≠ some (.stop, .waiting) := by
  have hset (phase : HandlePhase) : (h.calls.set i (.stop, phase))[i]? = some (.stop, phase) :=
    List.getElem?_set_self (List.getElem?_eq_some_iff.mp hi).1
  rw [advance_of_free hlock hi, Handle.enter]
  split
  · exact ⟨rfl, by simp [Handle.move, hset]⟩
  · rename_i hslot
    refine ⟨?_, by simp [Handle.move, hset]⟩
    show h.told = true
    rw [ht.told_eq, Bool.eq_false_iff.mpr hslot]
    rfl

/-- A stop is held up while the process lives exactly if another call watches the process, so never
when no call waits for its exit. If none watches, a stop that comes to its turn goes on, and the
process has been killed. If one does, nobody has killed the process and nobody can: until it exits
by itself every call waits. And as long as no stop has come to its turn, each call that waits for
the exit brings this about for the stop that comes behind it. -/
theorem heldUp_by_watching (events : List HandleEvent) :
    let h := (start .process).run events
    (h.stopIsHeldUp = true ↔
      (.stop, .waiting) ∈ h.calls ∧ (.wait, .watching) ∈ h.calls ∧ h.ended = false) ∧
    (.call .wait ∉ events → h.stopIsHeldUp = false) ∧
    ((.wait, .watching) ∉ h.calls → ∀ i, h.calls[i]? = some (.stop, .waiting) →
      (h.advance i).told = true ∧ (h.advance i).calls[i]? ≠ some (.stop, .waiting)) ∧
    (h.stopIsHeldUp = true → h.told = false ∧ ∀ more, .ended ∉ more →
      h.run more = { h with calls := h.calls ++ HandleEvent.madeAmong more }) ∧
    (h.inSlot = true → h.ended = false →
      (h.run [.call .wait, .advance h.calls.length, .call .stop]).stopIsHeldUp = true) := by
  intro h
  have hs : h.Sound := (sound_start .process).run events
  have ht : h.Told .process := (told_start .process).run events
  refine ⟨hs.stopIsHeldUp_iff, fun hnone => ?_, fun hfree i hi => ?_, fun hheld => ?_,
    heldUp_behind_wait ht.kind_eq⟩
  · rw [Bool.eq_false_iff, Ne, hs.stopIsHeldUp_iff]
    rintro ⟨-, hwatch, -⟩
    exact hnone (made_of_mem hwatch)
  · have hlock : h.isLocked = false := by
      rw [Bool.eq_false_iff, Ne, hs.isLocked_iff]
      exact hfree
    exact ht.stop_goes_on hlock hi
  · obtain ⟨-, hwatch, hended⟩ := hs.stopIsHeldUp_iff.mp hheld
    have hslot : h.inSlot = true := (hs.allows _ hwatch).2
    refine ⟨?_, fun more hlives => run_of_locked (hs.isLocked_iff.mpr hwatch) hended hlives⟩
    rw [ht.told_eq, hslot]
    rfl

/-- A stop that comes while another call waits for the exit of a process that lives: it has had its
turn, and the process has not been killed. -/
theorem stop_behind_wait :
    let h := (start .process).run [.call .wait, .advance 0, .call .stop, .advance 1]
    h.calls = [(.wait, .watching), (.stop, .waiting)] ∧ h.stopIsHeldUp = true ∧
      h.told = false ∧ h.ended = false := by
  decide

end Handle

end PolicyProbe
