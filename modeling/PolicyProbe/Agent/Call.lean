import PolicyProbe.Agent.Start
import PolicyProbe.Agent.Stop
import PolicyProbe.Agent.Traffic

/-!
The calls of an agent as data, with their answers. What an agent can become is what a run of calls
makes of it, during which workers may end by themselves.
-/
namespace PolicyProbe

/-- What an agent can be asked to do. A name restricts a call to one namespace. -/
inductive AgentCall where
  | register (rules : List Rule)
  | unregister (endpoint : Option Address)
  | addServer (protocol : Protocol) (port : Nat) (endpoint : Address) (name : Option String)
  | startServers (name : Option String)
  | startClients (name : Option String)
  | stopServers (name : Option String)
  | stopServer (protocol : Protocol) (port : Nat) (name : Option String)
  | stopClients (name : Option String)
  | stopClient (name : Option String)
  | shutdown

/-- What can happen to an agent: a call, or the end of a worker by itself. -/
inductive AgentEvent where
  | call (c : AgentCall)
  | exit (w code : Nat)

/-- What a call answers. -/
inductive AgentAnswer where
  | registered (report : RegisterReport)
  | removed (entries : Nat)
  | employed (workers : List Nat)
  | started (report : StartReport)
  | stopped (workers : Nat)
  | found (any : Bool)
  | done

namespace Agent

variable {σ η : Type} [DesiredStore σ]

/-- A result as the answer of a call. -/
def answering {α : Type} (answer : α → AgentAnswer) (p : Except TrafficError α × Agent σ η) :
    Except TrafficError AgentAnswer × Agent σ η :=
  (p.1.map answer, p.2)

/-- Does what a call asks. -/
def perform (os : Host η) (a : Agent σ η) :
    AgentCall → Except TrafficError AgentAnswer × Agent σ η
  | .register rules => answering .registered (a.registerTraffic rules)
  | .unregister endpoint => answering .removed (a.unregisterTraffic endpoint)
  | .addServer protocol port endpoint name =>
    answering .employed (a.addServer os protocol port endpoint name)
  | .startServers name => answering .started (a.startServers os name)
  | .startClients name => answering .started (a.startClients os name)
  | .stopServers name => answering .stopped (a.stopServers os name)
  | .stopServer protocol port name => answering .found (a.stopServer os protocol port name)
  | .stopClients name => answering .stopped (a.stopClients os name)
  | .stopClient name => answering .found (a.stopClient os name)
  | .shutdown => (.ok .done, a.shutdown os)

/-- The agent after an event. -/
def handle (os : Host η) (a : Agent σ η) : AgentEvent → Agent σ η
  | .call c => (a.perform os c).2
  | .exit w code => a.put (a.deployment.exit os w code)

/-- The agent after some events. -/
def run (os : Host η) (a : Agent σ η) (events : List AgentEvent) : Agent σ η :=
  events.foldl (handle os) a

end Agent

end PolicyProbe
