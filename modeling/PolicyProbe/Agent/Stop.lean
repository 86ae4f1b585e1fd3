import PolicyProbe.Agent.Basic
import PolicyProbe.Manager.Clients
import PolicyProbe.Manager.Servers

/-!
Looking up and stopping the servers and the clients of an agent, and the end of an agent. Stopping
takes workers out of their registry and leaves the desired state alone.
-/
namespace PolicyProbe.Agent

variable {σ η : Type}

/-! ## Servers -/

/-- Stops all servers of some scopes; their number. -/
def stopServersIn (os : Host η) : List (Scope × Option Address) → Deployment σ η →
    Nat × Deployment σ η
  | [], d => (0, d)
  | (scope, _) :: rest, d =>
    let (stopped, d) := Servers.stopAll os scope d
    let (later, d) := stopServersIn os rest d
    (stopped + later, d)

/-- Stops all servers of each scope; their number. -/
def stopServers (os : Host η) (name : Option String) (a : Agent σ η) :
    Except TrafficError Nat × Agent σ η :=
  match a.resolve name with
  | .error e => (.error e, a)
  | .ok scopes =>
    let (stopped, d) := stopServersIn os scopes a.deployment
    (.ok stopped, a.put d)

/-- Stops one server in some scopes; whether any scope had it. -/
def stopServerIn (os : Host η) (protocol : Protocol) (port : Nat) :
    List (Scope × Option Address) → Deployment σ η → Bool × Deployment σ η
  | [], d => (false, d)
  | (scope, _) :: rest, d =>
    let (stopped, d) := Servers.stop os scope protocol port d
    let (later, d) := stopServerIn os protocol port rest d
    (stopped || later, d)

/-- Stops the server of a protocol and a port in each scope; whether any scope had one. -/
def stopServer (os : Host η) (protocol : Protocol) (port : Nat) (name : Option String)
    (a : Agent σ η) : Except TrafficError Bool × Agent σ η :=
  match a.resolve name with
  | .error e => (.error e, a)
  | .ok scopes =>
    let (stopped, d) := stopServerIn os protocol port scopes a.deployment
    (.ok stopped, a.put d)

/-- The keys of all servers. -/
def listServers (a : Agent σ η) : List ServerKey := a.deployment.servers.keys

/-- The servers of a protocol and a port in all scopes. -/
def getServer (protocol : Protocol) (port : Nat) (a : Agent σ η) : List Nat :=
  a.scopes.filterMap fun scope => Servers.get? scope protocol port a.deployment

/-! ## Clients -/

/-- Stops the clients of some scopes; the number of scopes that had one. -/
def stopClientsIn (os : Host η) : List (Scope × Option Address) → Deployment σ η →
    Nat × Deployment σ η
  | [], d => (0, d)
  | (scope, _) :: rest, d =>
    let (stopped, d) := Clients.stop os scope.name d
    let (later, d) := stopClientsIn os rest d
    (stopped.toNat + later, d)

/-- Stops the clients of the scopes of a request, or every client there is; their number. -/
def stopClients (os : Host η) (name : Option String) (a : Agent σ η) :
    Except TrafficError Nat × Agent σ η :=
  match a.resolve name with
  | .error e => (.error e, a)
  | .ok scopes =>
    let (stopped, d) :=
      if name.isSome then stopClientsIn os scopes a.deployment
      else if scopes.isEmpty then (0, a.deployment)
      else Clients.stopAll os a.deployment
    (.ok stopped, a.put d)

/-- Stops the clients of the scopes of a request; whether there was any. -/
def stopClient (os : Host η) (name : Option String) (a : Agent σ η) :
    Except TrafficError Bool × Agent σ η :=
  match a.resolve name with
  | .error e => (.error e, a)
  | .ok scopes =>
    let (stopped, d) := stopClientsIn os scopes a.deployment
    (.ok (stopped != 0), a.put d)

/-- The first client of the scopes of a request. -/
def getClient (name : Option String) (a : Agent σ η) : Except TrafficError (Option Nat) := do
  return (← a.resolve name).findSome? fun (scope, _) => Clients.get? scope a.deployment

/-! ## Recording and the end -/

/-- The counters of the recorder of an agent that has one. -/
def recorderStats (a : Agent σ η) : Option RecorderStats :=
  match a.deployment.outlet with
  | .recorder r => some r.stats
  | _ => none

/-- Stops the client and the servers of some scopes. -/
def stopScopes (os : Host η) : List Scope → Deployment σ η → Deployment σ η
  | [], d => d
  | scope :: rest, d =>
    let (_, d) := Clients.stop os scope.name d
    let (_, d) := Servers.stopAll os scope d
    stopScopes os rest d

/-- Stops all workers and then the recorder, which first stores what is queued. -/
def shutdown (os : Host η) (a : Agent σ η) : Agent σ η :=
  let d := stopScopes os a.scopes a.deployment
  a.put (match d.outlet with
    | .recorder r => { d with outlet := .stopped (r.stop Archive.persistQueued) }
    | _ => d)

end PolicyProbe.Agent
