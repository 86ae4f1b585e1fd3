import PolicyProbe.Text.Lines
import PolicyProbe.Worker.Spec

/-!
The worker process, seen from inside. It decodes its specification, enters its namespace if it has
one, prepares itself, and opens the socket of a server, in this order; the first failure is
reported as an event, and the process ends with the exit code one. Otherwise it reports that it is
ready, and a client then reports each of its records.
-/
namespace PolicyProbe.WorkerProcess

/-- What the operating system answers to a worker process; a socket that cannot be opened is refused
with a text. -/
structure Surroundings where
  enter : String → Except SystemError Unit
  prepare : Except String Unit
  bind : ServerSpec → Except String Unit

/-- What is said about a specification that cannot be decoded. -/
def invalidSpec (e : DecodeError) : String := "invalid worker spec: " ++ e.detail?.getD "malformed"

/-- What is said about a namespace that cannot be entered. -/
def cannotEnter (path : String) (e : SystemError) : String :=
  "cannot enter " ++ path ++ ": " ++ e.message

/-- Enters the namespace, if there is one to enter. -/
def enterNamespace (os : Surroundings) : Option String → Except (FailureStage × String) Unit
  | none => .ok ()
  | some path =>
    match os.enter path with
    | .ok _ => .ok ()
    | .error e => .error (.namespaceEntry, cannotEnter path e)

/-- Opens the socket of a server. -/
def openSocket (os : Surroundings) : Runnable → Except (FailureStage × String) Unit
  | .client _ => .ok ()
  | .server spec =>
    match os.bind spec with
    | .ok _ => .ok ()
    | .error text => .error (.bind, text)

/-- What the process comes to run, or the stage that failed and what is said about it. -/
def begin (os : Surroundings) (spec : String) (namespacePath : Option String) :
    Except (FailureStage × String) Runnable :=
  match Runnable.decoder.run spec with
  | .error e => .error (.setup, invalidSpec e)
  | .ok runnable => do
    enterNamespace os namespacePath
    match os.prepare with
    | .error text => .error (.setup, text)
    | .ok _ =>
      openSocket os runnable
      return runnable

/-- What the process reports, given the records of its pings: the records of a client only. -/
def events (begun : Except (FailureStage × String) Runnable) (records : List Record) :
    List WorkerEvent :=
  match begun with
  | .error (stage, message) => [.failed stage message]
  | .ok (.server _) => [.ready]
  | .ok (.client _) => .ready :: records.map .record

/-- The exit code of a process that ended by itself. -/
def exitCode? : Except (FailureStage × String) Runnable → Option Nat
  | .error _ => some 1
  | .ok _ => none

/-- The bytes that the process writes. -/
def transcript (events : List WorkerEvent) : List UInt8 :=
  events.flatMap fun e => Lines.ofText e.line

end PolicyProbe.WorkerProcess
