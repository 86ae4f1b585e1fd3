import PolicyProbe.Worker.Spec

/-!
The handle of a worker under several calls at once. The handle lies in a slot with a lock. A call
that asks whether the worker runs and a call that stops it take the lock for a moment only; a call
that waits for the exit of a process keeps the lock until then. Stopping takes the handle out of
the slot, tells a task to end or kills a process, and waits for its end without the lock. A call
that finds the slot empty returns at once.
-/
namespace PolicyProbe

/-- What a worker can be asked. -/
inductive HandleCall where
  | isRunning
  | stop
  | wait
  deriving DecidableEq, Repr

/-- Where a call is: before it has the lock, watching a process while it keeps the lock, behind
taking the handle, or at its end. -/
inductive HandlePhase where
  | waiting
  | watching
  | ending
  | returned (answer : Bool)
  deriving DecidableEq, Repr

/-- A handle with its calls. A worker that ended has closed its socket, or is a dead process. -/
structure Handle where
  kind : WorkerKind
  inSlot : Bool
  told : Bool
  ended : Bool
  calls : List (HandleCall × HandlePhase)
  deriving DecidableEq, Repr

/-- What can happen to a handle: a call is made, a call goes on as far as it can, or the worker
ends. -/
inductive HandleEvent where
  | call (c : HandleCall)
  | advance (i : Nat)
  | ended
  deriving DecidableEq, Repr

namespace Handle

/-- The handle of a worker that has just been started. -/
def start (kind : WorkerKind) : Handle := ⟨kind, true, false, false, []⟩

/-- Whether some call keeps the lock. -/
def isLocked (h : Handle) : Bool := h.calls.any (·.2 == .watching)

/-- The handle with one of its calls somewhere else. -/
def move (h : Handle) (i : Nat) (c : HandleCall) (phase : HandlePhase) : Handle :=
  { h with calls := h.calls.set i (c, phase) }

/-- A call gets the lock. -/
def enter (h : Handle) (i : Nat) : HandleCall → Handle
  | .isRunning => h.move i .isRunning (.returned (h.inSlot && !h.ended))
  | .stop =>
    if h.inSlot then { h.move i .stop .ending with inSlot := false, told := true }
    else h.move i .stop (.returned false)
  | .wait =>
    if h.kind = .process ∧ h.inSlot then h.move i .wait .watching
    else h.move i .wait (.returned false)

/-- A call goes on as far as it can: without the lock only when no other call keeps it, and to its
end only when the worker ended. -/
def advance (h : Handle) (i : Nat) : Handle :=
  match h.calls[i]? with
  | some (c, .waiting) => if h.isLocked then h else h.enter i c
  | some (c, .watching) => if h.ended then h.move i c (.returned true) else h
  | some (c, .ending) => if h.ended then h.move i c (.returned true) else h
  | _ => h

/-- The handle after an event. -/
def handle (h : Handle) : HandleEvent → Handle
  | .call c => { h with calls := h.calls ++ [(c, .waiting)] }
  | .advance i => h.advance i
  | .ended => { h with ended := true }

/-- The handle after some events. -/
def run (h : Handle) (events : List HandleEvent) : Handle := events.foldl handle h

/-- Whether a stop waits for the lock while another call keeps it and the process is alive. -/
def stopIsHeldUp (h : Handle) : Bool :=
  h.calls.contains (.stop, .waiting) && h.isLocked && !h.ended

end Handle

end PolicyProbe
