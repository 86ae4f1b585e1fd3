import PolicyProbe.Proofs.Agent.Registration
import PolicyProbe.Proofs.Desired.Content

/-!
What updates leave in a store, entry by entry. An accepted update is a merge into the entry of its
endpoint, so accepted updates leave an entry with all that they ask of it merged in, in their order
(`mergedAt`). It does not matter into how many runs they are cut (`mergedAt_append`), nor whether
the same updates have been made before (`mergedAt_again`).
-/
namespace PolicyProbe

open StateEntry

/-- The entry of an endpoint after some updates: those of the endpoint are merged into it in order,
and the first of them makes it if it is missing. -/
def mergedAt (endpoint : Address) (us : List StateUpdate) (old : Option StateEntry) :
    Option StateEntry :=
  (updatesAt endpoint us).foldl
    (fun entry u => some ((entry.getD (.empty endpoint)).merge u.servers u.clients)) old

theorem mergedAt_append (e : Address) (us vs : List StateUpdate) (old : Option StateEntry) :
    mergedAt e (us ++ vs) old = mergedAt e vs (mergedAt e us old) := by
  rw [mergedAt, Agent.updatesAt_append, List.foldl_append, mergedAt, mergedAt]

theorem mergedAt_of_ne {e : Address} {us : List StateUpdate} (h : ∀ u ∈ us, u.endpoint ≠ e)
    (old : Option StateEntry) : mergedAt e us old = old := by
  have hnone : updatesAt e us = [] := by
    rw [updatesAt, List.filter_eq_nil_iff]
    simpa using h
  rw [mergedAt, hnone, List.foldl_nil]

/-- Merging one update after another is one merge of all that they ask. -/
theorem foldl_merge (e : Address) (us : List StateUpdate) (entry : StateEntry) :
    us.foldl (fun entry u => some ((entry.getD (.empty e)).merge u.servers u.clients))
        (some entry) =
      some (entry.merge (us.flatMap (·.servers)) (us.flatMap (·.clients))) := by
  induction us generalizing entry with
  | nil => rfl
  | cons u us ih =>
    rw [List.foldl_cons, Option.getD_some, ih, merge_merge, List.flatMap_cons, List.flatMap_cons]

/-- An entry is as it was, or all that is asked of it has been merged into it. -/
theorem mergedAt_cases (e : Address) (us : List StateUpdate) :
    (updatesAt e us = [] ∧ ∀ old, mergedAt e us old = old) ∨
      ∀ old, mergedAt e us old = some ((old.getD (.empty e)).merge
        ((updatesAt e us).flatMap (·.servers)) ((updatesAt e us).flatMap (·.clients))) := by
  cases hus : updatesAt e us with
  | nil => exact Or.inl ⟨rfl, fun old => by rw [mergedAt, hus, List.foldl_nil]⟩
  | cons u rest =>
    refine Or.inr fun old => ?_
    rw [mergedAt, hus, List.foldl_cons, foldl_merge, merge_merge, List.flatMap_cons,
      List.flatMap_cons]

/-- The same updates once more change nothing. -/
theorem mergedAt_again (e : Address) (us : List StateUpdate) (old : Option StateEntry) :
    mergedAt e us (mergedAt e us old) = mergedAt e us old := by
  rcases mergedAt_cases e us with ⟨-, hsame⟩ | hmerged
  · rw [hsame, hsame]
  · rw [hmerged old, hmerged, Option.getD_some, merge_again]

/-- Updates that follow a part of them that was made before lead to where all of them lead. -/
theorem mergedAt_resumed (e : Address) (made rest : List StateUpdate) (old : Option StateEntry) :
    mergedAt e (made ++ rest) (mergedAt e made old) = mergedAt e (made ++ rest) old := by
  rw [mergedAt_append, mergedAt_again, mergedAt_append]

theorem servers_mergedAt (e : Address) (us : List StateUpdate) (old : Option StateEntry) :
    ((mergedAt e us old).map (·.servers)).getD [] =
      (old.map (·.servers)).getD [] ++
        newcomers ((old.map (·.servers)).getD []) ((updatesAt e us).flatMap (·.servers)) := by
  rcases mergedAt_cases e us with ⟨hnone, hsame⟩ | hmerged
  · rw [hsame, hnone]
    simp [newcomers]
  · rw [hmerged, Option.map_some, Option.getD_some, merge_servers]
    cases old <;> rfl

theorem clients_mergedAt (e : Address) (us : List StateUpdate) (old : Option StateEntry) :
    Merged ((old.map (·.clients)).getD []) ((updatesAt e us).flatMap (·.clients))
      (((mergedAt e us old).map (·.clients)).getD []) := by
  rcases mergedAt_cases e us with ⟨hnone, hsame⟩ | hmerged
  · rw [hsame, hnone]
    exact merged_foldl _ []
  · rw [hmerged, Option.map_some, Option.getD_some]
    have hclients := merge_clients (old.getD (.empty e)) ((updatesAt e us).flatMap (·.servers))
      ((updatesAt e us).flatMap (·.clients))
    cases old <;> exact hclients

/-! ## Stores -/

namespace StoreContent

variable {σ : Type} [DesiredStore σ] [StoreContent σ]

/-- Two stores hold the same entries. -/
def Agree (s s' : σ) : Prop := ∀ endpoint, held? endpoint s = held? endpoint s'

theorem held?_accepted {u : StateUpdate} (hu : u.Sound) {s : σ}
    (hok : (DesiredStore.apply u s).1 = .ok ()) (e : Address) :
    held? e (DesiredStore.apply u s).2 = mergedAt e [u] (held? e s) := by
  by_cases he : u.endpoint = e
  · subst he
    rw [merged hu hok, mergedAt, updatesAt, List.filter_cons_of_pos (by simp), List.filter_nil]
    rfl
  · rw [others (Ne.symm he), mergedAt_of_ne (by simpa using he)]

theorem held?_updateEach {us : List StateUpdate} {s : σ} (hus : ∀ u ∈ us, u.Sound)
    (hok : (Agent.updateEach us s).1 = .ok ()) (e : Address) :
    held? e (Agent.updateEach us s).2 = mergedAt e us (held? e s) := by
  induction us generalizing s with
  | nil => rfl
  | cons u us ih =>
    obtain ⟨hu, hrest⟩ := List.forall_mem_cons.mp hus
    obtain ⟨haccepted, hstep⟩ := Agent.updateEach_cons hok
    rw [hstep] at hok ⊢
    rw [ih hrest hok, held?_accepted hu haccepted, ← mergedAt_append]
    rfl

end StoreContent

end PolicyProbe
