import PolicyProbe.Failure

/-!
The bounded queue in front of the stores. Pushing never waits: a full queue refuses and counts
what it drops, and a queue whose consumer is gone refuses without counting. Taking is first in,
first out.
-/
namespace PolicyProbe

/-- A queue: what is in it, how often it dropped, and whether each of its two ends is still there.
-/
structure Queue (α : Type) where
  capacity : Nat
  items : List α
  dropped : Nat
  consumer : Bool
  producers : Bool
  deriving Repr

namespace Queue

variable {α : Type}

/-- The empty queue with both of its ends. -/
def empty (capacity : Nat) : Queue α := ⟨capacity, [], 0, true, true⟩

/-- Offers an item. -/
def push (a : α) (q : Queue α) : Except QueueError Unit × Queue α :=
  if !q.consumer then (.error .closed, q)
  else if q.capacity ≤ q.items.length then (.error .full, { q with dropped := q.dropped + 1 })
  else (.ok (), { q with items := q.items ++ [a] })

/-- Takes the oldest item. -/
def pop (q : Queue α) : Option α × Queue α :=
  match q.items with
  | [] => (none, q)
  | a :: rest => (some a, { q with items := rest })

/-- The queue after its consumer is gone: what is in it is lost. -/
def dropConsumer (q : Queue α) : Queue α := { q with consumer := false, items := [] }

/-- The queue after its producers are gone. -/
def dropProducers (q : Queue α) : Queue α := { q with producers := false }

end Queue

end PolicyProbe
