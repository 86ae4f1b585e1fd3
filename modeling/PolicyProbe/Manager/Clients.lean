import PolicyProbe.Deployment

/-!
The client of a scope. Starting a client that is running returns it; one that ended is taken out
first. A new client pings the destinations that the desired state has for the endpoint at that
time; without any, no client is started.
-/
namespace PolicyProbe.Clients

variable {σ η : Type}

/-- Takes a client that ended out of the registry. -/
def discard (scope : Scope) (w : Nat) (d : Deployment σ η) : Deployment σ η :=
  { d with clients := d.clients.erase scope.name }.say (.clientDead scope (Workforce.identifier w))

/-- Registers a client; the answer is the one now registered. -/
def register (scope : Scope) (w : Nat) (d : Deployment σ η) : Nat × Deployment σ η :=
  let (w, clients) := Registry.add scope.name w d.clients
  (w, { d with clients })

/-- What the client of an endpoint runs. -/
def spec (settings : TrafficSettings) (endpoint : Address) (clients : List ClientEntry) :
    ClientSpec :=
  ⟨endpoint, clients.map ClientEntry.toDestination, settings⟩

/-- Starts a client in a scope that has none. -/
def launch [DesiredStore σ] (os : Host η) (settings : TrafficSettings) (scope : Scope)
    (endpoint : Address) (d : Deployment σ η) : Except TrafficError (Option Nat) × Deployment σ η :=
  match DesiredStore.clients endpoint d.state with
  | .error e => (.error (.storage e), d)
  | .ok [] => (.ok none, d)
  | .ok clients =>
    match d.start os scope (.client (spec settings endpoint clients)) with
    | (.error e, d) => (.error e, d.say (.clientFailed endpoint scope e))
    | (.ok w, d) =>
      let (w, d) := register scope w d
      (.ok (some w), d)

/-- Starts the client of an endpoint, unless the client of the scope is running. -/
def start [DesiredStore σ] (os : Host η) (settings : TrafficSettings) (scope : Scope)
    (endpoint : Address) (d : Deployment σ η) : Except TrafficError (Option Nat) × Deployment σ η :=
  match d.clients.find? scope.name with
  | some w =>
    if d.workers.isRunning w then (.ok (some w), d)
    else launch os settings scope endpoint (discard scope w d)
  | none => launch os settings scope endpoint d

/-- Takes out the client of a scope and stops it; whether there was one. -/
def stop (os : Host η) (scope : String) (d : Deployment σ η) : Bool × Deployment σ η :=
  let (found, clients) := Registry.remove scope d.clients
  let d := { d with clients }
  match found with
  | some w => (true, (d.stop os w).2)
  | none => (false, d)

/-- Stops the clients of some scopes; the number of those that were registered. -/
def stopEach (os : Host η) : List String → Deployment σ η → Nat × Deployment σ η
  | [], d => (0, d)
  | scope :: rest, d =>
    let (found, d) := stop os scope d
    let (stopped, d) := stopEach os rest d
    (found.toNat + stopped, d)

/-- Stops all clients; their number. -/
def stopAll (os : Host η) (d : Deployment σ η) : Nat × Deployment σ η :=
  stopEach os d.clients.keys d

/-- The client of a scope, running or not. -/
def get? (scope : Scope) (d : Deployment σ η) : Option Nat := d.clients.find? scope.name

end PolicyProbe.Clients
