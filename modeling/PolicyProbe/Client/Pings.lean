import PolicyProbe.Ping

/-!
The pings of one cycle while they are in progress. All of them run at once. A ping goes through the
steps of its protocol; it is answered when every step is done, and the first step that is not done
ends it. Its record is made when it ends. The client takes the records of the pings that ended, in
whatever order, and hands each to the sink and counts it before it takes the next, whatever the sink
answers. The cycle is over when no ping is left to take.
-/
namespace PolicyProbe

/-- Where a ping is: at a step with others behind it, at its end, or behind the submission of its
record. -/
inductive PingPhase where
  | running (step : PingStep) (later : List PingStep)
  | ended (outcome : Except PingError Unit) (stamp : Stamp)
  | submitted (outcome : Except PingError Unit) (stamp : Stamp)

namespace PingPhase

/-- A ping at its first step. A socket for datagrams that cannot be opened fails on sending. -/
def start : Protocol → PingPhase
  | .tcp => .running .connect [.send, .receive]
  | .udp => .running .send [.receive]

/-- The ping when its step ended as `attempt`, with what is made up for its record if the ping is at
its end now. -/
def advance (attempt : Attempt) (stamp : Stamp) : PingPhase → PingPhase
  | .running step later =>
    match attempt.outcome step, later with
    | .ok _, next :: later => .running next later
    | outcome, _ => .ended outcome stamp
  | phase => phase

/-- How often a ping goes on at most until its record is submitted. -/
def left : PingPhase → Nat
  | .running _ later => later.length + 2
  | .ended _ _ => 1
  | .submitted _ _ => 0

end PingPhase

/-- The ping of a destination. -/
structure PingTask where
  destination : Destination
  phase : PingPhase

/-- The pings of a cycle of a client, the number of records that it took, and its sink. -/
structure Pings (σ : Type) where
  source : Address
  tasks : List PingTask
  produced : Nat
  sink : σ

/-- What can happen in a cycle: the step of a ping ends, or the client takes the record of a ping
that ended. -/
inductive PingsEvent where
  | step (ping : Nat) (attempt : Attempt) (stamp : Stamp)
  | take (ping : Nat)

namespace Pings

variable {σ : Type}

/-- The pings of the next cycle of a client. -/
def start (c : Client) (sink : σ) : Pings σ :=
  ⟨c.source, c.nextBatch.1.map fun d => ⟨d, .start d.protocol⟩, 0, sink⟩

/-- The pings with one of them in another phase. -/
def move (p : Pings σ) (i : Nat) (d : Destination) (phase : PingPhase) : Pings σ :=
  { p with tasks := p.tasks.set i ⟨d, phase⟩ }

/-- The pings after an event. -/
def handle (sink : Sink σ) (p : Pings σ) : PingsEvent → Pings σ
  | .step i attempt stamp =>
    match p.tasks[i]? with
    | some ⟨d, phase⟩ => p.move i d (phase.advance attempt stamp)
    | none => p
  | .take i =>
    match p.tasks[i]? with
    | some ⟨d, .ended outcome stamp⟩ =>
      { p.move i d (.submitted outcome stamp) with
        produced := p.produced + 1
        sink := (sink (Client.record p.source d outcome stamp) p.sink).2 }
    | _ => p

/-- The pings after some events. -/
def run (sink : Sink σ) (p : Pings σ) (events : List PingsEvent) : Pings σ :=
  events.foldl (handle sink) p

/-- Whether the records of all pings were submitted, so that the cycle is over. -/
def isOver (p : Pings σ) : Bool :=
  p.tasks.all fun t => match t.phase with
    | .submitted _ _ => true
    | _ => false

/-- How much is left to be done at most until the cycle is over. -/
def left (p : Pings σ) : Nat := p.tasks.foldr (fun t n => t.phase.left + n) 0

end Pings

end PolicyProbe
