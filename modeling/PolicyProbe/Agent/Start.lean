import PolicyProbe.Agent.Basic
import PolicyProbe.Manager.Clients
import PolicyProbe.Manager.Servers

/-!
Starting the servers and the clients of an agent. A single server is added by a request of its
own; what the desired state lists is started scope by scope, and the report counts what was
started and names what failed.
-/
namespace PolicyProbe

/-- A server or a client that could not be started. -/
inductive StartFailure where
  | server (entry : ServerEntry) (endpoint : Address) (scope : Scope) (e : TrafficError)
  | client (endpoint : Address) (scope : Scope) (e : TrafficError)

/-- The text of a failure. -/
def StartFailure.text : StartFailure → String
  | .server entry endpoint scope e =>
    entry.protocol.name ++ " " ++ Notice.place endpoint entry.port ++ " in " ++ scope.describe ++
      ": " ++ e.message
  | .client endpoint scope e =>
    "client of " ++ endpoint.text ++ " in " ++ scope.describe ++ ": " ++ e.message

/-- What became of a start of several workers. -/
structure StartReport where
  started : Nat
  failed : List StartFailure

namespace StartReport

/-- The report of a start of nothing. -/
def empty : StartReport := ⟨0, []⟩

/-- Two reports in one. -/
def append (a b : StartReport) : StartReport := ⟨a.started + b.started, a.failed ++ b.failed⟩

end StartReport

namespace Agent

variable {σ η : Type} [DesiredStore σ]

/-- Starts a server in some scopes in order, up to the first failure. A scope without an endpoint
is a failure if the request named it, and is passed over otherwise. -/
def addEach (os : Host η) (protocol : Protocol) (port : Nat) (isNamed : Bool) :
    List (Scope × Option Address) → Deployment σ η → Except TrafficError (List Nat) × Deployment σ η
  | [], d => (.ok [], d)
  | (scope, none) :: rest, d =>
    if isNamed then (.error (.missingEndpoint scope.name), d)
    else addEach os protocol port isNamed rest (d.say (.scopeSkipped scope))
  | (scope, some endpoint) :: rest, d =>
    match Servers.start os scope protocol port endpoint d with
    | (.error e, d) => (.error e, d)
    | (.ok w, d) =>
      match addEach os protocol port isNamed rest d with
      | (.error e, d) => (.error e, d)
      | (.ok workers, d) => (.ok (w :: workers), d)

/-- Starts a server and records it in the desired state. Without namespaces the endpoint has to be
that of the agent; with namespaces the server is bound to the endpoint of each scope. -/
def addServer (os : Host η) (protocol : Protocol) (port : Nat) (endpoint : Address)
    (name : Option String) (a : Agent σ η) : Except TrafficError (List Nat) × Agent σ η :=
  match a.resolve name with
  | .error e => (.error e, a)
  | .ok scopes =>
    if a.topology.namespaceMode then
      let (answer, d) := addEach os protocol port name.isSome scopes a.deployment
      (answer, a.put d)
    else if a.topology.isLocal endpoint then
      let here := scopes.map fun (scope, _) => (scope, some endpoint)
      let (answer, d) := addEach os protocol port false here a.deployment
      (answer, a.put d)
    else
      (.error (.configuration (endpoint.text ++ " is not an endpoint of this agent")), a)

/-- Starts the given servers of an endpoint in its scope. -/
def startListed (os : Host η) (scope : Scope) (endpoint : Address) :
    List ServerEntry → Deployment σ η → StartReport × Deployment σ η
  | [], d => (.empty, d)
  | entry :: rest, d =>
    let (answer, d) := Servers.start os scope entry.protocol entry.port endpoint d
    let (report, d) := startListed os scope endpoint rest d
    match answer with
    | .ok _ => (.append ⟨1, []⟩ report, d)
    | .error e => (.append ⟨0, [.server entry endpoint scope e]⟩ report, d)

/-- Starts the servers that the desired state lists, scope by scope, up to a scope whose desired
state cannot be read. -/
def startServersIn (os : Host η) :
    List (Scope × Option Address) → Deployment σ η →
      Except TrafficError StartReport × Deployment σ η
  | [], d => (.ok .empty, d)
  | (scope, none) :: rest, d => startServersIn os rest (d.say (.serversNotStarted scope))
  | (scope, some endpoint) :: rest, d =>
    match DesiredStore.servers endpoint d.state with
    | .error e => (.error (.storage e), d)
    | .ok servers =>
      let (report, d) := startListed os scope endpoint servers d
      match startServersIn os rest d with
      | (.error e, d) => (.error e, d)
      | (.ok later, d) => (.ok (report.append later), d)

/-- Starts the servers that the desired state lists for each scope. -/
def startServers (os : Host η) (name : Option String) (a : Agent σ η) :
    Except TrafficError StartReport × Agent σ η :=
  match a.resolve name with
  | .error e => (.error e, a)
  | .ok scopes =>
    let (answer, d) := startServersIn os scopes a.deployment
    (answer, a.put d)

/-- Starts the client of each scope that has destinations. -/
def startClientsIn (os : Host η) (settings : TrafficSettings) :
    List (Scope × Option Address) → Deployment σ η → StartReport × Deployment σ η
  | [], d => (.empty, d)
  | (scope, none) :: rest, d => startClientsIn os settings rest (d.say (.clientNotStarted scope))
  | (scope, some endpoint) :: rest, d =>
    let (answer, d) := Clients.start os settings scope endpoint d
    let (report, d) := startClientsIn os settings rest d
    match answer with
    | .ok (some _) => (.append ⟨1, []⟩ report, d)
    | .ok none => (report, d)
    | .error e => (.append ⟨0, [.client endpoint scope e]⟩ report, d)

/-- Starts the clients of the scopes of a request. -/
def startClients (os : Host η) (name : Option String) (a : Agent σ η) :
    Except TrafficError StartReport × Agent σ η :=
  match a.resolve name with
  | .error e => (.error e, a)
  | .ok scopes =>
    let (report, d) := startClientsIn os a.settings.traffic scopes a.deployment
    (.ok report, a.put d)

end Agent

end PolicyProbe
