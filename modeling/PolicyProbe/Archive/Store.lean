import PolicyProbe.Notice
import PolicyProbe.Recorder

/-!
Stores of records. A store takes one record at a time and may refuse it. A fan-out hands every
record to each of several stores in order, also after a refusal, and answers with the first
refusal.
-/
namespace PolicyProbe

/-- A store of records, as its name and its way to take a record in a state. -/
structure RecordStore (σ : Type) where
  name : String
  persist : Persist Record σ

namespace RecordStore

variable {σ : Type}

/-- Hands a record to each store. -/
def persistAll : List (RecordStore σ) → Persist Record σ
  | [], _, s => (.ok (), s)
  | store :: rest, r, s =>
    let (answer, s) := store.persist r s
    let (later, s) := persistAll rest r s
    match answer with
    | .error e => (.error e, s)
    | .ok _ => (later, s)

/-- Several stores as one. -/
def fanOut (stores : List (RecordStore σ)) : RecordStore σ := ⟨"fanout", persistAll stores⟩

/-- A store that does something more with every refusal. -/
def onRefusal (note : String → Record → StorageError → σ → σ) (store : RecordStore σ) :
    RecordStore σ where
  name := store.name
  persist r s :=
    match store.persist r s with
    | (.error e, s) => (.error e, note store.name r e s)
    | (.ok _, s) => (.ok (), s)

/-- Hands some records to a store, one by one; the answers are in the same order. -/
def persistEach (store : RecordStore σ) : List Record → σ → List (Except StorageError Unit) × σ
  | [], s => ([], s)
  | r :: rest, s =>
    let (answer, s) := store.persist r s
    let (answers, s) := persistEach store rest s
    (answer :: answers, s)

end RecordStore

end PolicyProbe
