import PolicyProbe.Client
import PolicyProbe.Worker.Launch

/-!
A worker process from its launch on, seen from the agent. Once its launch is decided the call
returns: at once when the process is ready, and when it was refused and killed as soon as it is
dead. Only a process that is ready gets a forwarder, which reads one line at a time of what the
launch left and of what comes behind it, and submits the records among them to the sink. It ends
with the output, or at a line that it cannot read.
-/
namespace PolicyProbe

/-- What happens to a process that was spawned: something is seen of it, or its forwarder takes a
turn. -/
inductive SupervisionEvent where
  | seen (event : ChildEvent)
  | turn
  deriving Repr

/-- How the output of a process ended. -/
inductive OutputEnd where
  | closed
  | faulted
  deriving DecidableEq, Repr

/-- A process that was spawned: its launch, the end of its output, whether its forwarder has ended,
and the sink. -/
structure Supervision (σ : Type) where
  launch : Launch
  ended : Option OutputEnd
  deaf : Bool
  sink : σ

namespace Supervision

variable {σ : Type}

/-- What the call that launches the process returns, once it does. -/
def answer? (s : Supervision σ) : Option (Except TrafficError Unit) :=
  match s.launch.phase with
  | .returned (.ok _) => some (.ok ())
  | .returned (.error e) => if s.launch.exit.isSome then some (.error e) else none
  | _ => none

/-- Whether the call has a forwarder started. -/
def isReady (s : Supervision σ) : Bool :=
  match s.launch.phase with
  | .returned (.ok _) => true
  | _ => false

/-- Takes a line: a record is submitted, whatever the sink answers, another text is passed over, and
a line that is no text ends the forwarder. -/
def take (sink : Sink σ) (line : List UInt8) (s : Supervision σ) : Supervision σ :=
  match Lines.text? line with
  | none => { s with deaf := true }
  | some text =>
    match WorkerEvent.ofLine text with
    | .ok (.record r) => { s with sink := (sink r s.sink).2 }
    | _ => s

/-- The same with other bytes left to read. -/
def leaving (rest : List UInt8) (s : Supervision σ) : Supervision σ :=
  { s with launch := { s.launch with unread := rest } }

/-- A turn of the forwarder: it takes the next line if there is a whole one. Bytes without a line
feed are a line when the output was closed behind them. -/
def forward (sink : Sink σ) (s : Supervision σ) : Supervision σ :=
  match Lines.cut? s.launch.unread with
  | some (line, rest) => (s.leaving rest).take sink (Lines.trimReturn line)
  | none =>
    match s.ended with
    | none => s
    | some .faulted => { s with deaf := true }
    | some .closed =>
      if s.launch.unread.isEmpty then { s with deaf := true }
      else (s.leaving []).take sink s.launch.unread

/-- How the output ended if an event ends it. -/
def endedBy (event : ChildEvent) (before : Option OutputEnd) : Option OutputEnd :=
  match event with
  | .closed => before.or (some .closed)
  | .faulted _ => before.or (some .faulted)
  | _ => before

def step (l : Launcher) (sink : Sink σ) (s : Supervision σ) : SupervisionEvent → Supervision σ
  | .seen event => { s with launch := l.step s.launch event, ended := endedBy event s.ended }
  | .turn => if s.isReady && !s.deaf then s.forward sink else s

/-- A process that was just spawned. -/
def begin (sink : σ) : Supervision σ := ⟨Launcher.begin, none, false, sink⟩

/-- A process after some events. -/
def run (l : Launcher) (sink : Sink σ) (start : σ) (events : List SupervisionEvent) :
    Supervision σ :=
  events.foldl (step l sink) (begin start)

end Supervision

namespace SupervisionEvent

/-- What is seen of the process, if anything. -/
def seen? : SupervisionEvent → Option ChildEvent
  | .seen event => some event
  | .turn => none

/-- What is seen of the process among some events. -/
def seenAmong (events : List SupervisionEvent) : List ChildEvent := events.filterMap seen?

end SupervisionEvent

end PolicyProbe
