import PolicyProbe.Text.Lines
import PolicyProbe.Worker.Spec

/-!
The launch of a worker process, seen from the agent. The first line of the process decides:
`ready` starts the worker, and everything else refuses it and kills the process. A launch waits
for the first line for a limited time; a process whose output ends before its first line is waited
for until it exits. Behind the first line, the records among the lines go to the sink, up to a
line that is no text.
-/
namespace PolicyProbe

/-- What a launch sees of its process: bytes, the end of its output, a read of it that fails, its
exit or its end by a signal, and the end of the time for its first line. -/
inductive ChildEvent where
  | output (bytes : List UInt8)
  | closed
  | faulted (text : String)
  | exited (code : Nat)
  | signalled (signal : Nat)
  | expired
  deriving Repr

/-- Where a launch is: at the first line, at the exit of a process whose output ended, or at its
end. -/
inductive LaunchPhase where
  | reading
  | reaping
  | returned (verdict : Except TrafficError Unit)

/-- A launch: the bytes that were not used yet, the wait status of a process that ended, and whether
the process was killed. -/
structure Launch where
  phase : LaunchPhase
  unread : List UInt8
  exit : Option Nat
  killed : Bool

/-- Who is launched, and how long its first line may take. -/
structure Launcher where
  worker : Identifier
  readyMs : Nat

namespace Launcher

/-- The text of a number of milliseconds below a second or of seconds. -/
def durationText (ms : Nat) : String :=
  if ms = 0 then "0ns"
  else if ms < 1000 then Digits.text ms ++ "ms"
  else
    let rest := (Digits.padded 10 3 (ms % 1000)).reverse.dropWhile (· == '0')
    let fraction := if rest.isEmpty then "" else "." ++ String.ofList rest.reverse
    Digits.text (ms / 1000) ++ fraction ++ "s"

/-- A refusal that names the worker between two texts. -/
def refusal (l : Launcher) (before after : String) : TrafficError :=
  .workerProtocol (before ++ l.worker.text ++ after)

/-- The wait status of a process that exits with a code. -/
def statusOfCode (code : Nat) : Nat := code * 256

/-- What is said of a process that ended with a wait status before its first line. -/
def exitedEarly (l : Launcher) (status : Nat) : TrafficError :=
  l.refusal "worker " (" exited before reporting readiness (Some(ExitStatus(unix_wait_status(" ++
    Digits.text status ++ "))))")

/-- What is said of a process whose first line takes too long. -/
def tooLate (l : Launcher) : TrafficError :=
  l.refusal "worker " (" not ready within " ++ durationText l.readyMs)

/-- What is said of a first line that cannot be read. -/
def failedRead (l : Launcher) (text : String) : TrafficError :=
  l.refusal "reading worker " (" stdout failed: " ++ text)

/-- What is said of a first line that is no text. -/
def unreadable (l : Launcher) (line : List UInt8) : TrafficError :=
  l.failedRead (Lines.faultText line)

/-- What a failure that the process reports is to the agent. -/
def reported (stage : FailureStage) (message : String) : TrafficError :=
  match stage with
  | .bind => .bind message
  | .namespaceEntry => .namespaceEntry message
  | .setup => .workerProtocol message

/-- What the first line decides. -/
def verdict (l : Launcher) (line : String) : Except TrafficError Unit :=
  match WorkerEvent.ofLine line with
  | .ok .ready => .ok ()
  | .ok (.failed stage message) => .error (reported stage message)
  | .ok (.record _) => .error (l.refusal "worker " " sent a record before reporting readiness")
  | .error e =>
    .error (l.refusal "unexpected first line from worker " (": " ++ e.detail?.getD "malformed"))

/-- What the bytes of the first line decide. -/
def judge (l : Launcher) (line : List UInt8) : Except TrafficError Unit :=
  match Lines.text? line with
  | some text => l.verdict text
  | none => .error (l.unreadable line)

/-- The end of a launch; a process that is refused is killed. -/
def settle (verdict : Except TrafficError Unit) (s : Launch) : Launch :=
  { s with phase := .returned verdict, killed := s.killed || !verdict.isOk }

/-- Looks for the first line in what was not used yet. -/
def look (l : Launcher) (s : Launch) : Launch :=
  match Lines.cut? s.unread with
  | some (line, rest) => settle (l.judge (Lines.trimReturn line)) { s with unread := rest }
  | none => s

/-- The launch after its process closed its output: bytes without a line feed are a first line
too. -/
def close (l : Launcher) (s : Launch) : Launch :=
  if s.unread.isEmpty then
    match s.exit with
    | some status => settle (.error (l.exitedEarly status)) s
    | none => { s with phase := .reaping }
  else settle (l.judge s.unread) { s with unread := [] }

/-- The launch after its process ended. -/
def reap (l : Launcher) (status : Nat) (s : Launch) : Launch :=
  let s := { s with exit := some status }
  match s.phase with
  | .reaping => settle (.error (l.exitedEarly status)) s
  | _ => s

/-- The launch after an event. -/
def step (l : Launcher) (s : Launch) : ChildEvent → Launch
  | .output bytes =>
    let s := { s with unread := s.unread ++ bytes }
    match s.phase with
    | .reading => l.look s
    | _ => s
  | .closed =>
    match s.phase with
    | .reading => l.close s
    | _ => s
  | .faulted text =>
    match s.phase with
    | .reading => settle (.error (l.failedRead text)) s
    | _ => s
  | .exited code => l.reap (statusOfCode code) s
  | .signalled signal => l.reap signal s
  | .expired =>
    match s.phase with
    | .reading => settle (.error l.tooLate) s
    | _ => s

/-- A launch before its first event. -/
def begin : Launch := ⟨.reading, [], none, false⟩

/-- A launch after some events. -/
def run (l : Launcher) (events : List ChildEvent) : Launch := events.foldl l.step begin

end Launcher

/-- A process as it turns out: all that it writes, and its exit code if it exits by itself. -/
structure Child where
  output : List UInt8
  exit : Option Nat

namespace Child

/-- What a launch sees of a process: its output in one piece, its exit if it exits in time, and else
the end of the time. -/
def events (c : Child) : List ChildEvent :=
  .output c.output :: match c.exit with
    | some code => [.exited code, .closed]
    | none => [.expired]

/-- Launches a process: what it writes behind its first line, or why it was refused. -/
def launch (l : Launcher) (c : Child) : Except TrafficError (List UInt8) :=
  let s := l.run c.events
  match s.phase with
  | .returned (.ok _) => .ok s.unread
  | .returned (.error e) => .error e
  | _ => .error l.tooLate

end Child

/-- The records among the lines of a worker that is running, up to a line that is no text. -/
def forwarded : List (List UInt8) → List Record
  | [] => []
  | line :: rest =>
    match Lines.text? line with
    | none => []
    | some text =>
      match WorkerEvent.ofLine text with
      | .ok (.record r) => r :: forwarded rest
      | _ => forwarded rest

end PolicyProbe
