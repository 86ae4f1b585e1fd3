import PolicyProbe.Desired.State
import PolicyProbe.Proofs.Desired.Entry
import PolicyProbe.Proofs.Desired.Table
import PolicyProbe.Proofs.OrderedMap

/-!
What all stores of desired state have in common. An update that is accepted merges into the entry of
its endpoint and changes no other entry (`LawfulStore`). Memory, the table and the choice between
the two are such stores; what follows from a list of updates follows for all of them at once.
-/
namespace PolicyProbe

/-- A store in which an accepted update is a merge into one entry. -/
class LawfulStore (σ : Type) [DesiredStore σ] : Prop where
  get_apply : ∀ {u : StateUpdate} {s : σ}, u.Sound → (DesiredStore.apply u s).1 = .ok () →
    ∃ old, DesiredStore.get u.endpoint s = .ok old ∧
      DesiredStore.get u.endpoint (DesiredStore.apply u s).2 =
        .ok (some ((old.getD (.empty u.endpoint)).merge u.servers u.clients))
  get_apply_of_ne : ∀ {u : StateUpdate} {s : σ} {endpoint : Address}, endpoint ≠ u.endpoint →
    (DesiredStore.apply u s).1 = .ok () →
      DesiredStore.get endpoint (DesiredStore.apply u s).2 = DesiredStore.get endpoint s

/-! ## Memory -/

instance : LawfulStore MemoryState where
  get_apply := by
    intro u s _ _
    refine ⟨s.get? u.endpoint, rfl, ?_⟩
    show Except.ok (OrderedMap.find? _ (OrderedMap.insert _ _ _)) = _
    rw [OrderedMap.find?_insert_self]
  get_apply_of_ne := by
    intro u s endpoint hne _
    show Except.ok (OrderedMap.find? _ (OrderedMap.insert _ _ _)) = _
    rw [OrderedMap.find?_insert_of_ne hne]
    rfl

/-! ## The table -/

namespace StateTable

instance : LawfulStore StateTable where
  get_apply := by
    intro u t hu hok
    obtain ⟨rows, hrows, ⟨row, old, hf, he, happly⟩ | ⟨hf, happly⟩⟩ := apply_eq_ok hok
    · have he? := StateRow.entry?_of_entry he
      have hend := endpoint_of_entry? hf he?
      have hrow := endpoint_of_find? hf
      have ht : t = ⟨some rows⟩ := by rw [← hrows]
      refine ⟨some old, by rw [ht]; exact get_of_find? hf he?, ?_⟩
      rw [happly]
      -- A rewritten row keeps its endpoint, so the search finds it where the old one was.
      have hself : find? u.endpoint.text
          (replace (rewritten row (old.merge u.servers u.clients)) rows) =
            some (rewritten row (old.merge u.servers u.clients)) := by
        have hkey : (rewritten row (old.merge u.servers u.clients)).endpoint = u.endpoint.text :=
          hrow
        rw [← hkey] at hf ⊢
        exact find?_replace_self hf
      exact get_of_find? hself
        (entry?_rewritten ((StateRow.sound_of_entry? he?).merge hu) hrow hend)
    · have ht : t = ⟨some rows⟩ := by rw [← hrows]
      refine ⟨none, ?_, ?_⟩
      · rw [ht]
        show get u.endpoint ⟨some rows⟩ = _
        rw [get_some, hf]
      · rw [happly]
        have hself : find? u.endpoint.text (rows ++
            [.ofEntry ((StateEntry.empty u.endpoint).merge u.servers u.clients)]) =
              some (.ofEntry ((StateEntry.empty u.endpoint).merge u.servers u.clients)) := by
          rw [find?, List.find?_append]
          rw [find?] at hf
          rw [hf]
          simp [StateRow.ofEntry, StateEntry.merge, StateEntry.empty]
        exact get_of_find? hself
          (StateRow.entry?_ofEntry ((StateEntry.sound_empty u.endpoint).merge hu))
  get_apply_of_ne := by
    intro u t endpoint hne hok
    have htext : u.endpoint.text ≠ endpoint.text := fun h => hne (Address.text_injective h).symm
    obtain ⟨rows, hrows, ⟨row, old, hf, he, happly⟩ | ⟨hf, happly⟩⟩ := apply_eq_ok hok
    all_goals
      have ht : t = ⟨some rows⟩ := by rw [← hrows]
      rw [happly, ht]
      show get endpoint _ = get endpoint _
      rw [get_some, get_some]
    · have hrow : (rewritten row (old.merge u.servers u.clients)).endpoint ≠ endpoint.text := by
        show row.endpoint ≠ _
        rw [endpoint_of_find? hf]
        exact htext
      rw [find?_replace_of_ne hrow]
    · rw [find?_append_of_ne (by exact htext)]

end StateTable

/-! ## The choice between the two -/

instance : LawfulStore DesiredState where
  get_apply := by
    intro u s hu hok
    cases s with
    | memory s => exact LawfulStore.get_apply (s := s) hu hok
    | table t => exact LawfulStore.get_apply (s := t) hu hok
  get_apply_of_ne := by
    intro u s endpoint hne hok
    cases s with
    | memory s => exact LawfulStore.get_apply_of_ne (s := s) hne hok
    | table t => exact LawfulStore.get_apply_of_ne (s := t) hne hok

end PolicyProbe
