import PolicyProbe.Json.Value
import PolicyProbe.Queue

/-!
The recorder: a fixed pool of workers that take items out of the queue and store each of them
once. A worker takes the receiving end for itself, looks whether the recorder is being stopped,
and then waits for an item or, when stopping, takes what is there. Waiting ends with an item, with
the end of the waiting time, or because the producers are gone. A worker that finds the queue
empty while stopping ends. An item that the store refuses is counted and given up.
-/
namespace PolicyProbe

/-- Where a worker of a recorder is. A waiting worker has the receiving end for itself. -/
inductive RecorderWorker (α : Type) where
  | free
  | waiting
  | holding (item : α)
  | ended
  deriving DecidableEq, Repr

/-- A recorder with its queue and its store. -/
structure Recorder (α σ : Type) where
  queue : Queue α
  workers : List (RecorderWorker α)
  stopping : Bool
  persisted : Nat
  failed : Nat
  store : σ

/-- The counters of a recorder. -/
structure RecorderStats where
  persisted : Nat
  failed : Nat
  dropped : Nat
  deriving DecidableEq, Repr

def RecorderStats.toJson (s : RecorderStats) : Json :=
  .object [("persisted", .nat s.persisted), ("failed", .nat s.failed), ("dropped", .nat s.dropped)]

/-- How a store takes an item. -/
abbrev Persist (α σ : Type) := α → σ → Except StorageError Unit × σ

namespace Recorder

variable {α σ : Type}

/-- The recorder on a queue: at least one worker, all of them free. -/
def start (queue : Queue α) (store : σ) (workers : Nat) : Recorder α σ :=
  ⟨queue, List.replicate (max 1 workers) .free, false, 0, 0, store⟩

def stats (r : Recorder α σ) : RecorderStats := ⟨r.persisted, r.failed, r.queue.dropped⟩

/-- The recorder with one of its workers somewhere else. -/
def move (r : Recorder α σ) (i : Nat) (w : RecorderWorker α) : Recorder α σ :=
  { r with workers := r.workers.set i w }

/-- Whether some worker has the receiving end for itself. -/
def occupied (r : Recorder α σ) : Bool :=
  r.workers.any fun w => match w with
    | .waiting => true
    | _ => false

/-- A worker takes the oldest item; without one it goes on with `otherwise`. -/
def take (r : Recorder α σ) (i : Nat) (otherwise : RecorderWorker α) : Recorder α σ :=
  match r.queue.pop with
  | (some a, queue) => { r with queue, workers := r.workers.set i (.holding a) }
  | (none, _) => r.move i otherwise

/-- A worker hands its item to the store. -/
def hand (persist : Persist α σ) (r : Recorder α σ) (i : Nat) (a : α) : Recorder α σ :=
  let (answer, store) := persist a r.store
  let r := { r.move i .free with store }
  match answer with
  | .ok _ => { r with persisted := r.persisted + 1 }
  | .error _ => { r with failed := r.failed + 1 }

/-- One step of a worker. A free worker does nothing while another has the receiving end. -/
def step (persist : Persist α σ) (r : Recorder α σ) (i : Nat) : Recorder α σ :=
  match r.workers[i]? with
  | none => r
  | some .ended => r
  | some .free =>
    if r.occupied then r
    else if r.stopping then r.take i .ended
    else r.move i .waiting
  | some .waiting => r.take i (if r.queue.producers then .free else .ended)
  | some (.holding a) => hand persist r i a

/-- Whether all workers ended, so that a stop is over. -/
def isOver (r : Recorder α σ) : Bool :=
  r.workers.all fun w => match w with
    | .ended => true
    | _ => false

/-- A producer offers an item, if there is still one. -/
def offer (r : Recorder α σ) (a : α) : Except QueueError Unit × Recorder α σ :=
  if r.queue.producers then ((r.queue.push a).1, { r with queue := (r.queue.push a).2 })
  else (.error .closed, r)

/-- What can happen to a recorder: a producer offers an item, a worker makes a step, the producers
go away, stopping begins, or the receiving end goes away with the last worker. -/
inductive Event (α : Type) where
  | push (item : α)
  | work (worker : Nat)
  | producersGone
  | stop
  | consumerGone
  deriving Repr

/-- The recorder after an event. -/
def handle (persist : Persist α σ) (r : Recorder α σ) : Event α → Recorder α σ
  | .push a => (r.offer a).2
  | .work i => step persist r i
  | .producersGone => { r with queue := r.queue.dropProducers }
  | .stop => { r with stopping := true }
  | .consumerGone => if r.isOver then { r with queue := r.queue.dropConsumer } else r

/-- The recorder after some events. -/
def run (persist : Persist α σ) (r : Recorder α σ) (events : List (Event α)) : Recorder α σ :=
  events.foldl (handle persist) r

/-- Steps of all workers in turn, `rounds` times. -/
def rounds (persist : Persist α σ) : Nat → Recorder α σ → Recorder α σ
  | 0, r => r
  | n + 1, r => rounds persist n ((List.range r.workers.length).foldl (step persist) r)

/-- A number of rounds after which nothing is left in the queue or with a worker. -/
def enough (r : Recorder α σ) : Nat := 3 * r.queue.items.length + 4

/-- Lets the workers go on until everything in the queue is with the store. -/
def settle (persist : Persist α σ) (r : Recorder α σ) : Recorder α σ := rounds persist r.enough r

/-- The recorder when its workers have ended: they are gone, and so is the receiving end. -/
def finish (r : Recorder α σ) : Recorder α σ :=
  { r with queue := r.queue.dropConsumer, workers := [] }

/-- Stops a recorder: what is in the queue is stored, all workers end, and so does the receiving
end. -/
def stop (persist : Persist α σ) (r : Recorder α σ) : Recorder α σ :=
  (rounds persist r.enough { r with stopping := true }).finish

/-- Whether a recorder has workers to stop. -/
def running (r : Recorder α σ) : Bool := !r.workers.isEmpty

end Recorder

end PolicyProbe
