import PolicyProbe.Client

/-!
The workers that were ever started, known by their number. A worker runs until it is stopped or,
for a process, until it exits. Stopping takes the handle of a worker: it answers whether the
handle was still there, also when the worker had ended by itself.
-/
namespace PolicyProbe

/-- Whether a worker runs, ended by itself, or was stopped. -/
inductive WorkerState where
  | running
  | exited (code : Nat)
  | stopped
  deriving DecidableEq, Repr

/-- A worker. A client that runs as a task also has its place in its circle of destinations. -/
structure Worker where
  runnable : Runnable
  kind : WorkerKind
  state : WorkerState
  client : Option Client

namespace Worker

/-- The description of a worker. -/
def toJson (w : Worker) : Json :=
  .object [("kind", .string w.kind.name), ("runnable", .string w.runnable.describe),
    ("has_pid", .bool (w.kind == .process))]

end Worker

/-- The workers by number. -/
structure Workforce where
  members : List Worker

namespace Workforce

def empty : Workforce := ⟨[]⟩

/-- The number of the next worker. -/
def next (f : Workforce) : Nat := f.members.length

/-- The name of a worker in the log. -/
def identifier (w : Nat) : Identifier := .ofNat w

def find? (w : Nat) (f : Workforce) : Option Worker := f.members[w]?

/-- The workers with one more. -/
def add (worker : Worker) (f : Workforce) : Workforce := ⟨f.members ++ [worker]⟩

/-- The workers with one of them changed. -/
def change (w : Nat) (g : Worker → Worker) (f : Workforce) : Workforce := ⟨f.members.modify w g⟩

/-- Whether a worker is running. -/
def isRunning (w : Nat) (f : Workforce) : Bool :=
  match f.find? w with
  | some worker => worker.state == .running
  | none => false

/-- Stops a worker; whether it had not been stopped before. -/
def stop (w : Nat) (f : Workforce) : Bool × Workforce :=
  match f.find? w with
  | some worker =>
    if worker.state == .stopped then (false, f)
    else (true, f.change w fun worker => { worker with state := .stopped })
  | none => (false, f)

/-- A running worker ends by itself. -/
def exit (w code : Nat) (f : Workforce) : Workforce :=
  if f.isRunning w then f.change w fun worker => { worker with state := .exited code } else f

/-- The exit code of a process that ended by itself and was not stopped. -/
def exitCode? (w : Nat) (f : Workforce) : Option Nat :=
  match f.find? w with
  | some ⟨_, .process, .exited code, _⟩ => some code
  | _ => none

end Workforce

end PolicyProbe
