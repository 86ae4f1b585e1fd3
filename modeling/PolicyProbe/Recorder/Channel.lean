import PolicyProbe.Recorder

/-!
A queue as it is shared: by any number of clones of its producer, each of which pushes and may be
dropped, and by its one receiver, which takes items itself until it is dropped or a recorder is
started on it. A push has two steps between which others take their turns: it offers its item, and
when the queue was full it counts the drop before it answers. A clone that is in use is not dropped.
-/
namespace PolicyProbe

namespace Queue

variable {α : Type}

/-- Offers an item. A full queue leaves it to its caller to count the drop. -/
def send (a : α) (q : Queue α) : Except QueueError Unit × Queue α :=
  if !q.consumer then (.error .closed, q)
  else if q.capacity ≤ q.items.length then (.error .full, q)
  else (.ok (), { q with items := q.items ++ [a] })

/-- Counts an item that was dropped. -/
def countDrop (q : Queue α) : Queue α := { q with dropped := q.dropped + 1 }

end Queue

/-- Where a push is: at its offer, at the counter because the queue was full, or at its answer. -/
inductive PushPhase where
  | offering
  | counting
  | answered (answer : Except QueueError Unit)

/-- A push of an item through a clone. -/
structure PushCall (α : Type) where
  clone : Nat
  item : α
  phase : PushPhase

namespace PushCall

variable {α : Type}

def isAnswered (call : PushCall α) : Bool :=
  match call.phase with
  | .answered _ => true
  | _ => false

/-- The same push somewhere else. -/
def moved (call : PushCall α) (phase : PushPhase) : PushCall α := { call with phase }

end PushCall

/-- What has the receiving end of a queue: its receiver, or the recorder that was started on it. -/
inductive Receiving (α σ : Type) where
  | receiver (queue : Queue α)
  | recorder (r : Recorder α σ)

namespace Receiving

variable {α σ : Type}

def queue : Receiving α σ → Queue α
  | .receiver q => q
  | .recorder r => r.queue

/-- Changes the queue. -/
def onQueue (f : Queue α → Queue α) : Receiving α σ → Receiving α σ
  | .receiver q => .receiver (f q)
  | .recorder r => .recorder { r with queue := f r.queue }

end Receiving

/-- A queue with its receiving end, the clones of its producer, each with whether it is still there,
and all pushes. -/
structure Channel (α σ : Type) where
  receiving : Receiving α σ
  clones : List Bool
  calls : List (PushCall α)

/-- What can happen to a queue: a clone is cloned, dropped or used for a push; a push makes a step;
the receiver takes an item, is dropped, or is given to a recorder with some workers; a worker of the
recorder makes a step; the recorder is told to stop; or the receiving end goes away with the last
worker. -/
inductive ChannelEvent (α : Type) where
  | clone (clone : Nat)
  | drop (clone : Nat)
  | push (clone : Nat) (item : α)
  | advance (call : Nat)
  | receive
  | hangUp
  | record (workers : Nat)
  | work (worker : Nat)
  | stop
  | finish
  deriving Repr

namespace Channel

variable {α σ : Type}

/-- A new queue with its producer and its receiver. -/
def opened (capacity : Nat) : Channel α σ := ⟨.receiver (.empty capacity), [true], []⟩

def queue (s : Channel α σ) : Queue α := s.receiving.queue

def onQueue (f : Queue α → Queue α) (s : Channel α σ) : Channel α σ :=
  { s with receiving := s.receiving.onQueue f }

/-- Whether a clone is there. -/
def hasClone (s : Channel α σ) (clone : Nat) : Bool := s.clones[clone]? == some true

/-- Whether a clone is in use. -/
def isUsed (s : Channel α σ) (clone : Nat) : Bool :=
  s.calls.any fun call => call.clone == clone && !call.isAnswered

/-- How many items were dropped, as a clone tells it. -/
def dropped? (s : Channel α σ) (clone : Nat) : Option Nat :=
  if s.hasClone clone then some s.queue.dropped else none

/-- Drops a clone. The producers are gone with the last one. -/
def dropClone (s : Channel α σ) (clone : Nat) : Channel α σ :=
  let s := { s with clones := s.clones.set clone false }
  if s.clones.any id then s else s.onQueue Queue.dropProducers

/-- A push goes on. -/
def advance (s : Channel α σ) (k : Nat) (call : PushCall α) : Channel α σ :=
  match call.phase with
  | .offering =>
    match s.queue.send call.item with
    | (.error .full, _) => { s with calls := s.calls.set k (call.moved .counting) }
    | (answer, q) =>
      { s.onQueue fun _ => q with calls := s.calls.set k (call.moved (.answered answer)) }
  | .counting =>
    { s.onQueue Queue.countDrop with
      calls := s.calls.set k (call.moved (.answered (.error .full))) }
  | .answered _ => s

/-- The queue after an event. A recorder that is started stores items in the given store. -/
def step (persist : Persist α σ) (store : σ) (s : Channel α σ) : ChannelEvent α → Channel α σ
  | .clone clone => if s.hasClone clone then { s with clones := s.clones ++ [true] } else s
  | .drop clone => if s.hasClone clone && !s.isUsed clone then s.dropClone clone else s
  | .push clone item =>
    if s.hasClone clone then { s with calls := s.calls ++ [⟨clone, item, .offering⟩] } else s
  | .advance k =>
    match s.calls[k]? with
    | some call => s.advance k call
    | none => s
  | .receive =>
    match s.receiving with
    | .receiver q => { s with receiving := .receiver q.pop.2 }
    | .recorder _ => s
  | .hangUp =>
    match s.receiving with
    | .receiver q => { s with receiving := .receiver q.dropConsumer }
    | .recorder _ => s
  | .record workers =>
    match s.receiving with
    | .receiver q =>
      if q.consumer then { s with receiving := .recorder (.start q store workers) } else s
    | .recorder _ => s
  | .work i =>
    match s.receiving with
    | .receiver _ => s
    | .recorder r => { s with receiving := .recorder (r.step persist i) }
  | .stop =>
    match s.receiving with
    | .receiver _ => s
    | .recorder r => { s with receiving := .recorder { r with stopping := true } }
  | .finish =>
    match s.receiving with
    | .receiver _ => s
    | .recorder r => { s with receiving := .recorder (r.handle persist .consumerGone) }

/-- The queue after some events. -/
def run (persist : Persist α σ) (store : σ) (s : Channel α σ) (events : List (ChannelEvent α)) :
    Channel α σ :=
  events.foldl (step persist store) s

end Channel

end PolicyProbe
