import Mathlib.Data.List.OfFn
import Mathlib.Data.List.FinRange
import Mathlib.Logic.Function.Basic
import PolicyProbe.Proofs.Archive.Queries

/-!
A fan-out of stores that have nothing to do with each other. Each store is a machine with a state of
its own and may refuse any record; all that they share is a log, to which refusals are noted
(`RecordStore.combined`). A record reaches every store once, whatever the others answer, so each of
them goes through the states that it goes through alone. The fan-out takes a record if all of them
do, and otherwise answers with the refusal of the first that does not, in the order of the list
(`fanOut_independent`).
-/
namespace PolicyProbe.RecordStore

/-! ## The first refusal -/

section Refusal

variable {σ : Type}

/-- The first refusal among some answers, if there is one. -/
def firstRefusal : List (Except StorageError Unit) → Except StorageError Unit
  | [] => .ok ()
  | .error e :: _ => .error e
  | .ok _ :: answers => firstRefusal answers

theorem firstRefusal_eq_ok {answers : List (Except StorageError Unit)} :
    firstRefusal answers = .ok () ↔ ∀ answer ∈ answers, answer = .ok () := by
  induction answers with
  | nil => simp [firstRefusal]
  | cons answer answers ih =>
    cases answer with
    | error e => simp [firstRefusal]
    | ok _ => simp [firstRefusal, ih]

/-- A refusal is the first if nothing before it is one. -/
theorem firstRefusal_ofFn_eq_error {n : Nat} {answers : Fin n → Except StorageError Unit}
    {e : StorageError} :
    firstRefusal (List.ofFn answers) = .error e ↔
      ∃ i, answers i = .error e ∧ ∀ j < i, answers j = .ok () := by
  induction n with
  | zero => simp [firstRefusal]
  | succ n ih =>
    rw [List.ofFn_succ]
    cases hfirst : answers 0 with
    | error e' =>
      constructor
      · intro h
        exact ⟨0, hfirst.trans h, fun j hj => absurd hj (Fin.not_lt_zero j)⟩
      · rintro ⟨i, hanswer, hbefore⟩
        cases i using Fin.cases with
        | zero => exact hfirst.symm.trans hanswer
        | succ i => cases hfirst.symm.trans (hbefore 0 i.succ_pos)
    | ok u =>
      rw [firstRefusal, ih]
      constructor
      · rintro ⟨i, hanswer, hbefore⟩
        refine ⟨i.succ, hanswer, fun j hj => ?_⟩
        cases j using Fin.cases with
        | zero => exact hfirst
        | succ j => exact hbefore j (Fin.succ_lt_succ_iff.mp hj)
      · rintro ⟨i, hanswer, hbefore⟩
        cases i using Fin.cases with
        | zero => cases hfirst.symm.trans hanswer
        | succ i => exact ⟨i, hanswer, fun j hj => hbefore j.succ (Fin.succ_lt_succ_iff.mpr hj)⟩

/-- The stores behind the first go on from the state that it leaves, whatever it answers. -/
theorem persistAll_cons (store : RecordStore σ) (rest : List (RecordStore σ)) (r : Record) (s : σ) :
    persistAll (store :: rest) r s =
      ((store.persist r s).1.bind fun _ => (persistAll rest r (store.persist r s).2).1,
        (persistAll rest r (store.persist r s).2).2) := by
  rw [persistAll]
  rcases store.persist r s with ⟨answer | answer, s'⟩ <;> rfl

end Refusal

/-! ## Stores with states of their own -/

variable {n : Nat} {τ : Fin n → Type} {ν : Type}

/-- A store that works on its own part of a joint state. -/
def onPart (i : Fin n) (store : RecordStore (τ i)) : RecordStore (((i : Fin n) → τ i) × ν) where
  name := store.name
  persist r s := ((store.persist r (s.1 i)).1,
    (Function.update s.1 i (store.persist r (s.1 i)).2, s.2))

/-- Some stores as one, in their order; each refusal is noted in the log. -/
def combined (stores : (i : Fin n) → RecordStore (τ i))
    (note : String → Record → StorageError → ν → ν) : RecordStore (((i : Fin n) → τ i) × ν) :=
  .fanOut (List.ofFn fun i =>
    ((stores i).onPart i).onRefusal fun name r e s => (s.1, note name r e s.2))

/-- A refusal is noted behind the parts, so a store changes its own part and answers as it does
alone. -/
theorem persist_onPart (i : Fin n) (store : RecordStore (τ i))
    (note : String → Record → StorageError → ν → ν) (r : Record) (s : ((i : Fin n) → τ i) × ν) :
    let taken := ((store.onPart i).onRefusal fun name r e s => (s.1, note name r e s.2)).persist r s
    taken.1 = (store.persist r (s.1 i)).1 ∧
      taken.2.1 = Function.update s.1 i (store.persist r (s.1 i)).2 := by
  simp only [onRefusal, onPart]
  rcases store.persist r (s.1 i) with ⟨answer | answer, part⟩ <;> exact ⟨rfl, rfl⟩

theorem firstRefusal_cons (answer : Except StorageError Unit)
    (answers : List (Except StorageError Unit)) :
    firstRefusal (answer :: answers) = answer.bind fun _ => firstRefusal answers := by
  cases answer <;> rfl

/-- One record goes to some of the stores, each of them once. -/
theorem persistAll_parts (stores : (i : Fin n) → RecordStore (τ i))
    (note : String → Record → StorageError → ν → ν) (r : Record) {is : List (Fin n)}
    (hnodup : is.Nodup) (s : ((i : Fin n) → τ i) × ν) :
    let taken := persistAll (is.map fun i =>
      ((stores i).onPart i).onRefusal fun name r e s => (s.1, note name r e s.2)) r s
    taken.1 = firstRefusal (is.map fun i => ((stores i).persist r (s.1 i)).1) ∧
      ∀ i, taken.2.1 i = if i ∈ is then ((stores i).persist r (s.1 i)).2 else s.1 i := by
  induction is generalizing s with
  | nil => exact ⟨rfl, fun i => (if_neg List.not_mem_nil).symm⟩
  | cons i is ih =>
    obtain ⟨hnew, hrest⟩ := List.nodup_cons.mp hnodup
    obtain ⟨hanswer, hparts⟩ := persist_onPart i (stores i) note r s
    rw [List.map_cons, persistAll_cons, List.map_cons, firstRefusal_cons, hanswer]
    generalize (RecordStore.persist _ r s).2 = s' at hparts ⊢
    obtain ⟨hanswers, hall⟩ := ih hrest s'
    -- The stores behind the first find their parts as they were.
    have hsame : ∀ j, j ≠ i → s'.1 j = s.1 j := fun j hne =>
      (congrFun hparts j).trans (Function.update_of_ne hne _ _)
    have hmember : ∀ j ∈ is, j ≠ i := fun j hj h => hnew (h ▸ hj)
    have hsameAnswers : (is.map fun j => ((stores j).persist r (s'.1 j)).1) =
        is.map fun j => ((stores j).persist r (s.1 j)).1 :=
      List.map_congr_left fun j hj => by rw [hsame j (hmember j hj)]
    refine ⟨by rw [hanswers, hsameAnswers], fun j => (hall j).trans ?_⟩
    by_cases hfirst : j = i
    · subst hfirst
      rw [if_neg hnew, if_pos List.mem_cons_self, hparts, Function.update_self]
    · simp only [List.mem_cons, hfirst, false_or, hsame j hfirst]

/-- A record reaches every store, and the first refusal is the answer. -/
theorem persist_combined (stores : (i : Fin n) → RecordStore (τ i))
    (note : String → Record → StorageError → ν → ν) (r : Record) (s : ((i : Fin n) → τ i) × ν) :
    let taken := (combined stores note).persist r s
    taken.1 = firstRefusal (List.ofFn fun i => ((stores i).persist r (s.1 i)).1) ∧
      ∀ i, taken.2.1 i = ((stores i).persist r (s.1 i)).2 := by
  obtain ⟨hanswer, hparts⟩ := persistAll_parts stores note r (List.nodup_finRange n) s
  simp only [combined, fanOut, List.ofFn_eq_map]
  exact ⟨hanswer, fun i => (hparts i).trans (if_pos (List.mem_finRange i))⟩

/-- Some records reach every store, all of them and in their order. -/
theorem persistEach_combined (stores : (i : Fin n) → RecordStore (τ i))
    (note : String → Record → StorageError → ν → ν) (rs : List Record)
    (s : ((i : Fin n) → τ i) × ν) :
    let run := (combined stores note).persistEach rs s
    (∀ i, run.2.1 i = ((stores i).persistEach rs (s.1 i)).2) ∧
      ∀ k : Fin rs.length, ∃ answers : Fin n → Except StorageError Unit,
        (∀ i, ((stores i).persistEach rs (s.1 i)).1[k]? = some (answers i)) ∧
          run.1[k]? = some (firstRefusal (List.ofFn answers)) := by
  -- By induction on the records: behind the first, all parts are where it takes them alone.
  induction rs generalizing s with
  | nil => exact ⟨fun _ => rfl, fun k => k.elim0⟩
  | cons r rs ih =>
    obtain ⟨hanswer, hparts⟩ := persist_combined stores note r s
    obtain ⟨hstates, hanswers⟩ := ih ((combined stores note).persist r s).2
    simp only [hparts] at hstates hanswers
    refine ⟨hstates, fun k => ?_⟩
    cases k using Fin.cases with
    | zero => exact ⟨_, fun i => rfl, congrArg some hanswer⟩
    | succ k => exact hanswers k

/-- In a fan-out every store ends as if it had received the records alone, whatever the others
answer. A record is taken exactly if all stores take it, and refused exactly as by the first store
that refuses it. -/
theorem fanOut_independent (stores : (i : Fin n) → RecordStore (τ i))
    (note : String → Record → StorageError → ν → ν) (rs : List Record) (parts : (i : Fin n) → τ i)
    (log : ν) :
    let run := (combined stores note).persistEach rs (parts, log)
    let alone i := (stores i).persistEach rs (parts i)
    (∀ i, run.2.1 i = (alone i).2) ∧
      run.1.length = rs.length ∧
      ∀ k : Fin rs.length,
        (run.1[k]? = some (.ok ()) ↔ ∀ i, (alone i).1[k]? = some (.ok ())) ∧
        ∀ e, run.1[k]? = some (.error e) ↔
          ∃ i, (alone i).1[k]? = some (.error e) ∧ ∀ j < i, (alone j).1[k]? = some (.ok ()) := by
  obtain ⟨hstates, hanswers⟩ := persistEach_combined stores note rs (parts, log)
  refine ⟨hstates, length_persistEach _ rs _, fun k => ?_⟩
  obtain ⟨answers, halone, hrun⟩ := hanswers k
  simp only [hrun, halone, Option.some.injEq]
  refine ⟨firstRefusal_eq_ok.trans (by simp [List.mem_ofFn]), fun e => ?_⟩
  rw [firstRefusal_ofFn_eq_error]

end PolicyProbe.RecordStore
