import PolicyProbe.Desired.Entry
import PolicyProbe.Failure
import PolicyProbe.OrderedMap

/-!
Stores of desired state. A store keeps one entry for each endpoint; updating merges servers and
clients into the entry, which is made when it is missing. An endpoint without an entry has no
servers and no clients. A limited store refuses writes after a number of them, or all reads.
-/
namespace PolicyProbe

/-- The operations of a store of desired state. -/
class DesiredStore (σ : Type) where
  update : Address → List ServerEntry → List ClientEntry → σ → Except StorageError Unit × σ
  get : Address → σ → Except StorageError (Option StateEntry)
  list : σ → Except StorageError (List StateEntry)
  delete : Option Address → σ → Except StorageError Nat × σ

/-- What is to be merged into the entry of an endpoint. -/
structure StateUpdate where
  endpoint : Address
  servers : List ServerEntry
  clients : List ClientEntry
  deriving DecidableEq

namespace DesiredStore

variable {σ : Type} [DesiredStore σ]

/-- Makes an update. -/
def apply (u : StateUpdate) (s : σ) : Except StorageError Unit × σ :=
  update u.endpoint u.servers u.clients s

/-- The servers of an endpoint. -/
def servers (endpoint : Address) (s : σ) : Except StorageError (List ServerEntry) := do
  return ((← get endpoint s).map (·.servers)).getD []

/-- The clients of an endpoint. -/
def clients (endpoint : Address) (s : σ) : Except StorageError (List ClientEntry) := do
  return ((← get endpoint s).map (·.clients)).getD []

end DesiredStore

/-- A store that takes only so many more writes, if a number is given, and that may refuse reads. -/
structure LimitedStore (σ : Type) where
  inner : σ
  writes : Option Nat
  readable : Bool

namespace LimitedStore

variable {σ : Type} [DesiredStore σ]

/-- A store without limits. -/
def unlimited (s : σ) : LimitedStore σ := ⟨s, none, true⟩

/-- One write, refused when no more are taken. -/
def write {α : Type} (act : σ → Except StorageError α × σ) (s : LimitedStore σ) :
    Except StorageError α × LimitedStore σ :=
  match s.writes with
  | some 0 => (.error .writeFailed, s)
  | writes =>
    let (answer, inner) := act s.inner
    (answer, { s with inner, writes := writes.map (· - 1) })

instance : DesiredStore (LimitedStore σ) where
  update endpoint servers clients := write (DesiredStore.update endpoint servers clients)
  get endpoint s := if s.readable then DesiredStore.get endpoint s.inner else .error .readFailed
  list s := if s.readable then DesiredStore.list s.inner else .error .readFailed
  delete endpoint := write (DesiredStore.delete endpoint)

end LimitedStore

end PolicyProbe
