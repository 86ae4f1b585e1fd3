import PolicyProbe.Deployment

/-!
The servers of a scope. Starting a server that is running returns it; one that ended is taken out
first. A server that was started is registered and then recorded in the desired state of the
address it is bound to; when it cannot be recorded, only the log says so. Stopping takes a server
out of the registry and then stops it, whether it still ran or not.
-/
namespace PolicyProbe.Servers

variable {σ η : Type}

/-- What a server is registered under. -/
def key (scope : Scope) (protocol : Protocol) (port : Nat) : ServerKey :=
  ⟨scope.name, port, protocol⟩

/-- Takes a server that ended out of the registry. -/
def discard (key : ServerKey) (w : Nat) (d : Deployment σ η) : Deployment σ η :=
  { d with servers := d.servers.erase key }.say (.serverDead key (Workforce.identifier w))

/-- Registers a server; the answer is the one now registered. -/
def register (key : ServerKey) (w : Nat) (d : Deployment σ η) : Nat × Deployment σ η :=
  let (w, servers) := Registry.add key w d.servers
  (w, { d with servers })

/-- Records a server in the desired state of an address. -/
def record [DesiredStore σ] (key : ServerKey) (bindAddress : Address) (d : Deployment σ η) :
    Deployment σ η :=
  match DesiredStore.update bindAddress [⟨key.protocol, key.port⟩] [] d.state with
  | (.ok _, state) => { d with state }
  | (.error e, state) => { d with state }.say (.serverUnrecorded key bindAddress e)

/-- Starts a server under a key that is free. -/
def launch [DesiredStore σ] (os : Host η) (scope : Scope) (key : ServerKey)
    (bindAddress : Address) (d : Deployment σ η) : Except TrafficError Nat × Deployment σ η :=
  match d.start os scope (.server ⟨key.protocol, key.port, bindAddress⟩) with
  | (.error e, d) => (.error e, d.say (.serverFailed key scope e))
  | (.ok w, d) =>
    let (w, d) := register key w d
    (.ok w, record key bindAddress d)

/-- Starts the server of a protocol and a port, unless it is running. -/
def start [DesiredStore σ] (os : Host η) (scope : Scope) (protocol : Protocol)
    (port : Nat) (bindAddress : Address) (d : Deployment σ η) :
    Except TrafficError Nat × Deployment σ η :=
  let key := key scope protocol port
  match d.servers.find? key with
  | some w =>
    if d.workers.isRunning w then (.ok w, d)
    else launch os scope key bindAddress (discard key w d)
  | none => launch os scope key bindAddress d

/-- Takes out the server of a key and stops it; whether there was one. -/
def remove (os : Host η) (key : ServerKey) (d : Deployment σ η) : Bool × Deployment σ η :=
  let (found, servers) := Registry.remove key d.servers
  let d := { d with servers }
  match found with
  | some w => (true, (d.stop os w).2)
  | none => (false, d)

/-- Stops the server of a protocol and a port; whether one was registered. -/
def stop (os : Host η) (scope : Scope) (protocol : Protocol) (port : Nat) (d : Deployment σ η) :
    Bool × Deployment σ η :=
  let key := key scope protocol port
  match remove os key d with
  | (true, d) => (true, d)
  | (false, d) => (false, d.say (.noServer key))

/-- Stops the servers of some keys; the number of those that were registered. -/
def stopKeys (os : Host η) : List ServerKey → Deployment σ η → Nat × Deployment σ η
  | [], d => (0, d)
  | key :: rest, d =>
    let (found, d) := remove os key d
    let (stopped, d) := stopKeys os rest d
    (found.toNat + stopped, d)

/-- Stops all servers of a scope; their number. -/
def stopAll (os : Host η) (scope : Scope) (d : Deployment σ η) : Nat × Deployment σ η :=
  stopKeys os (Registry.keysIn scope.name d.servers) d

/-- The server of a protocol and a port, running or not. -/
def get? (scope : Scope) (protocol : Protocol) (port : Nat) (d : Deployment σ η) : Option Nat :=
  d.servers.find? (key scope protocol port)

end PolicyProbe.Servers
