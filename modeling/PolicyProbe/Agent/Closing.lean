import PolicyProbe.Agent.Stop
import PolicyProbe.Manager.Calls

/-!
A shutdown that is in progress. It stops the client of a scope and then its servers, scope by scope,
and pauses where these stops pause; then it tells the recorder to stop and waits until the workers
of the recorder have ended. The agent can be asked nothing else meanwhile. But what it started goes
on: clients that have not been stopped hand records over, workers end by themselves, and the workers
of the recorder take their turns.
-/
namespace PolicyProbe

variable {σ η : Type}

namespace Deployment

/-- The client that runs as a task under a number. -/
def task? (w : Nat) (d : Deployment σ η) : Option Client :=
  match d.workers.find? w with
  | some ⟨_, .task, .running, some client⟩ => some client
  | _ => none

end Deployment

/-- One of the workers of a recorder makes a step. -/
def Outlet.work (i : Nat) : Outlet → Outlet
  | .recorder r => .recorder (r.step Archive.persistQueued i)
  | outlet => outlet

/-- What an agent has started does by itself: a worker ends, a client that is a task makes a whole
cycle or hands over one record of a cycle during which other things happen, a worker of the recorder
makes a step. Others may change the host. -/
inductive Incident (η : Type) where
  | exit (os : Host η) (w code : Nat)
  | cycle (ping : Nat → Destination → Except PingError Unit × Stamp)
      (ended : List Record → List Record) (w : Nat)
  | submit (w : Nat) (r : Record)
  | work (i : Nat)
  | elsewhere (host : η)

/-- What is deployed after an incident. -/
def Incident.apply (d : Deployment σ η) : Incident η → Deployment σ η
  | .exit os w code => d.exit os w code
  | .cycle ping ended w => d.cycle ping ended w
  | .submit w r => if (d.task? w).isSome then (Deployment.submit r d).2 else d
  | .work i => { d with outlet := d.outlet.work i }
  | .elsewhere host => { d with host }

/-- Where a shutdown is: in one of its stops, with those that come after it, at waiting for the
workers of the recorder, or at its end. -/
inductive ClosingPhase where
  | stopping (call : CallPhase) (rest : List ManagerCall)
  | draining
  | ended

/-- Whether a shutdown has ended. -/
def ClosingPhase.isOver : ClosingPhase → Bool
  | .ended => true
  | _ => false

/-- An agent that is being shut down. -/
structure Closing (σ η : Type) where
  agent : Agent σ η
  phase : ClosingPhase

/-- What can happen during a shutdown: it goes on to its next pause, or there is an incident. -/
inductive ClosingEvent (η : Type) where
  | proceed
  | incident (i : Incident η)

namespace Closing

/-- The stops of a shutdown, in their order. -/
def plan (scopes : List Scope) : List ManagerCall :=
  scopes.flatMap fun scope => [.stopClient scope, .stopAllServers scope]

/-- A shutdown before its first stop. -/
def begin (a : Agent σ η) : Closing σ η := ⟨a, .stopping (.stopped 0) (plan a.scopes)⟩

/-- The shutdown with something else deployed, somewhere else. -/
def moved (s : Closing σ η) (phase : ClosingPhase) (d : Deployment σ η) : Closing σ η :=
  ⟨s.agent.put d, phase⟩

/-- Tells the recorder to stop, if there is one that was not stopped before. -/
def stopRecorder (s : Closing σ η) : Closing σ η :=
  match s.agent.deployment.outlet with
  | .recorder r =>
    s.moved .draining { s.agent.deployment with outlet := .recorder { r with stopping := true } }
  | _ => ⟨s.agent, .ended⟩

/-- Goes on when all workers of the recorder have ended. -/
def awaitRecorder (s : Closing σ η) : Closing σ η :=
  match s.agent.deployment.outlet with
  | .recorder r =>
    if r.isOver then s.moved .ended { s.agent.deployment with outlet := .stopped r.finish } else s
  | _ => ⟨s.agent, .ended⟩

variable [DesiredStore σ]

/-- The shutdown goes on to its next pause. -/
def proceed (os : Host η) (s : Closing σ η) : Closing σ η :=
  match s.phase with
  | .stopping call rest =>
    if call.isOver then
      match rest with
      | next :: rest =>
        let (call, d) := Managers.begin s.agent.deployment next
        s.moved (.stopping call rest) d
      | [] => s.stopRecorder
    else
      let (call, d) := Managers.resume os s.agent.settings.traffic (fun _ => false)
        (fun w => s.agent.deployment.workers.isRunning w) call s.agent.deployment
      s.moved (.stopping call rest) d
  | .draining => s.awaitRecorder
  | .ended => s

/-- The shutdown after an event. -/
def step (os : Host η) (s : Closing σ η) : ClosingEvent η → Closing σ η
  | .proceed => s.proceed os
  | .incident i => s.moved s.phase (i.apply s.agent.deployment)

/-- The shutdown after some events. -/
def run (os : Host η) (s : Closing σ η) (events : List (ClosingEvent η)) : Closing σ η :=
  events.foldl (step os) s

end Closing

end PolicyProbe
