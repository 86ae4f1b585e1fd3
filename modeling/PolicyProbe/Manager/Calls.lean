import PolicyProbe.Manager.Clients
import PolicyProbe.Manager.Servers

/-!
Calls of the managers that are in progress at the same time. A call goes on from one pause to the
next, and other calls may go on in between. The starts of one manager take turns; stops wait for
nobody. A start pauses before it learns whether the registered worker runs, before it reads the
desired state, while its worker is started, before it registers the worker, and before it records a
server. A stop of several workers fixes their keys at its beginning. It pauses twice at each worker
that it took out of its registry: before it takes the handle, from when on the worker counts as not
running, and until the worker has stopped. Workers may end by themselves at any time.
-/
namespace PolicyProbe

/-- What a worker is registered under. -/
inductive WorkerKey where
  | server (key : ServerKey)
  | client (scope : String)
  deriving DecidableEq, Repr

namespace WorkerKey

variable {σ η : Type}

/-- The worker that is registered under a key. -/
def registered? (key : WorkerKey) (d : Deployment σ η) : Option Nat :=
  match key with
  | .server key => d.servers.find? key
  | .client scope => d.clients.find? scope

/-- Takes out what is registered under a key. -/
def erase (key : WorkerKey) (d : Deployment σ η) : Deployment σ η :=
  match key with
  | .server key => { d with servers := d.servers.erase key }
  | .client scope => { d with clients := d.clients.erase scope }

end WorkerKey

/-- A start: of the server of a protocol and a port on an address, or of the client of an
endpoint. -/
inductive WorkerStart where
  | server (scope : Scope) (protocol : Protocol) (port : Nat) (bindAddress : Address)
  | client (scope : Scope) (endpoint : Address)

namespace WorkerStart

variable {σ η : Type}

def scope : WorkerStart → Scope
  | .server scope _ _ _ => scope
  | .client scope _ => scope

/-- What the worker will be registered under. -/
def key : WorkerStart → WorkerKey
  | .server scope protocol port _ => .server (Servers.key scope protocol port)
  | .client scope _ => .client scope.name

/-- Whether two starts are of one manager: that of the servers or that of the client of a scope. -/
def sameManager : WorkerStart → WorkerStart → Bool
  | .server s _ _ _, .server t _ _ _ => s.name == t.name
  | .client s _, .client t _ => s.name == t.name
  | _, _ => false

/-- What the log says when the worker cannot be started. -/
def failure (e : TrafficError) : WorkerStart → Notice
  | .server scope protocol port _ => .serverFailed (Servers.key scope protocol port) scope e
  | .client scope endpoint => .clientFailed endpoint scope e

/-- Takes a worker that ended out of its registry. -/
def discard (s : WorkerStart) (w : Nat) (d : Deployment σ η) : Deployment σ η :=
  match s with
  | .server scope protocol port _ => Servers.discard (Servers.key scope protocol port) w d
  | .client scope _ => Clients.discard scope w d

end WorkerStart

/-- A call of a manager. -/
inductive ManagerCall where
  | start (s : WorkerStart)
  | stopServer (scope : Scope) (protocol : Protocol) (port : Nat)
  | stopAllServers (scope : Scope)
  | stopClient (scope : Scope)
  | stopClients

/-- Where a call is when it pauses, or how it ended. -/
inductive CallPhase where
  | queued (s : WorkerStart)
  | checking (s : WorkerStart) (w : Nat)
  | reading (s : WorkerStart)
  | opening (s : WorkerStart) (runnable : Runnable)
  | registering (s : WorkerStart) (w : Nat)
  | recording (s : WorkerStart) (w : Nat)
  | removed (w : Nat) (rest : List WorkerKey) (stopped : Nat)
  | stopping (w : Nat) (rest : List WorkerKey) (stopped : Nat)
  | started (answer : Except TrafficError (Option Nat))
  | stopped (count : Nat)

namespace CallPhase

/-- The start whose turn it is in this phase. -/
def turn? : CallPhase → Option WorkerStart
  | .checking s _ => some s
  | .reading s => some s
  | .opening s _ => some s
  | .registering s _ => some s
  | .recording s _ => some s
  | _ => none

/-- Whether a call has ended. -/
def isOver : CallPhase → Bool
  | .started _ => true
  | .stopped _ => true
  | _ => false

/-- The worker that a call is stopping. -/
def stopping? : CallPhase → Option Nat
  | .removed w _ _ => some w
  | .stopping w _ _ => some w
  | _ => none

/-- The worker whose handle a call has taken. -/
def handle? : CallPhase → Option Nat
  | .stopping w _ _ => some w
  | _ => none

/-- The worker that a call has just opened, with the key that it was opened for. -/
def opened? : CallPhase → Option (Nat × WorkerKey)
  | .registering s w => some (w, s.key)
  | _ => none

end CallPhase

/-- What is deployed, with the calls of the managers, and the workers that these have opened, each
with the key that it was opened for. -/
structure Managers (σ η : Type) where
  deployment : Deployment σ η
  calls : List CallPhase
  opened : List (Nat × WorkerKey)

/-- What can happen: a call is made, a call goes on to its next pause, a worker ends by itself, or
others change the desired state, the host and where records go. -/
inductive ManagerEvent (σ η : Type) where
  | call (c : ManagerCall)
  | advance (i : Nat)
  | exit (w code : Nat)
  | elsewhere (state : σ) (host : η) (outlet : Outlet)

namespace Managers

variable {σ η : Type}

/-- Takes the next worker out that is still registered under one of some keys. -/
def sweep : List WorkerKey → Nat → Deployment σ η → CallPhase × Deployment σ η
  | [], stopped, d => (.stopped stopped, d)
  | key :: rest, stopped, d =>
    match key.registered? d with
    | some w => (.removed w rest stopped, key.erase d)
    | none => sweep rest stopped d

/-- A call up to its first pause. -/
def begin (d : Deployment σ η) : ManagerCall → CallPhase × Deployment σ η
  | .start s => (.queued s, d)
  | .stopServer scope protocol port =>
    let key := Servers.key scope protocol port
    match sweep [.server key] 0 d with
    | (.stopped n, d) => (.stopped n, d.say (.noServer key))
    | paused => paused
  | .stopAllServers scope =>
    sweep ((Registry.keysIn scope.name d.servers).map .server) 0 d
  | .stopClient scope => sweep [.client scope.name] 0 d
  | .stopClients => sweep (d.clients.keys.map .client) 0 d

/-- A start goes on under a key that is free. -/
def proceed : WorkerStart → CallPhase
  | .server scope protocol port bindAddress =>
    .opening (.server scope protocol port bindAddress) (.server ⟨protocol, port, bindAddress⟩)
  | .client scope endpoint => .reading (.client scope endpoint)

/-- A start that has its turn looks its key up. -/
def lookUp (s : WorkerStart) (d : Deployment σ η) : CallPhase :=
  match s.key.registered? d with
  | some w => .checking s w
  | none => proceed s

/-- A start that found a worker goes on without one that does not run. -/
def check (s : WorkerStart) (w : Nat) (running : Bool) (d : Deployment σ η) :
    CallPhase × Deployment σ η :=
  if running then (.started (.ok (some w)), d) else (proceed s, s.discard w d)

/-- The start of a client reads its destinations. -/
def read [DesiredStore σ] (settings : TrafficSettings) (s : WorkerStart) (d : Deployment σ η) :
    CallPhase :=
  match s with
  | .server _ _ _ _ => proceed s
  | .client _ endpoint =>
    match DesiredStore.clients endpoint d.state with
    | .error e => .started (.error (.storage e))
    | .ok [] => .started (.ok none)
    | .ok clients => .opening s (.client (Clients.spec settings endpoint clients))

/-- The worker of a start is started. -/
def openWorker (os : Host η) (s : WorkerStart) (runnable : Runnable) (d : Deployment σ η) :
    CallPhase × Deployment σ η :=
  match d.start os s.scope runnable with
  | (.error e, d) => (.started (.error e), d.say (WorkerStart.failure e s))
  | (.ok w, d) => (.registering s w, d)

/-- The worker of a start is registered; the start goes on with the one now registered. -/
def registerWorker (s : WorkerStart) (w : Nat) (d : Deployment σ η) :
    CallPhase × Deployment σ η :=
  match s with
  | .server scope protocol port _ =>
    let (w, d) := Servers.register (Servers.key scope protocol port) w d
    (.recording s w, d)
  | .client scope _ =>
    let (w, d) := Clients.register scope w d
    (.started (.ok (some w)), d)

/-- A server that was started is recorded in the desired state. -/
def recordWorker [DesiredStore σ] (s : WorkerStart) (w : Nat) (d : Deployment σ η) :
    CallPhase × Deployment σ η :=
  (.started (.ok (some w)), match s with
    | .server scope protocol port bindAddress =>
      Servers.record (Servers.key scope protocol port) bindAddress d
    | .client _ _ => d)

/-- A call up to its next pause. `turn` says whether a start has to wait for another one, `running`
whether a worker is found running. -/
def resume [DesiredStore σ] (os : Host η) (settings : TrafficSettings) (turn : WorkerStart → Bool)
    (running : Nat → Bool) (phase : CallPhase) (d : Deployment σ η) :
    CallPhase × Deployment σ η :=
  match phase with
  | .queued s => if turn s then (phase, d) else (lookUp s d, d)
  | .checking s w => check s w (running w) d
  | .reading s => (read settings s d, d)
  | .opening s runnable => openWorker os s runnable d
  | .registering s w => registerWorker s w d
  | .recording s w => recordWorker s w d
  | .removed w rest stopped => (.stopping w rest stopped, d)
  | .stopping w rest stopped => sweep rest (stopped + 1) (d.stop os w).2
  | .started answer => (.started answer, d)
  | .stopped count => (.stopped count, d)

/-- Whether some start of the manager of a start has its turn. -/
def isTaken (m : Managers σ η) (s : WorkerStart) : Bool :=
  m.calls.any fun phase => phase.turn?.any s.sameManager

/-- Whether a worker is found running: it is alive and no call has taken its handle. -/
def findsRunning (m : Managers σ η) (w : Nat) : Bool :=
  m.deployment.workers.isRunning w && !m.calls.any (·.handle? == some w)

/-- What is deployed after an event. -/
def handle [DesiredStore σ] (os : Host η) (settings : TrafficSettings) (m : Managers σ η) :
    ManagerEvent σ η → Managers σ η
  | .call c =>
    let (phase, deployment) := begin m.deployment c
    { m with deployment, calls := m.calls ++ [phase] }
  | .advance i =>
    match m.calls[i]? with
    | some phase =>
      let (next, deployment) := resume os settings m.isTaken m.findsRunning phase m.deployment
      ⟨deployment, m.calls.set i next, m.opened ++ next.opened?.toList⟩
    | none => m
  | .exit w code => { m with deployment := m.deployment.exit os w code }
  | .elsewhere state host outlet =>
    { m with deployment := { m.deployment with state, host, outlet } }

/-- What is deployed after some events, from no calls. -/
def run [DesiredStore σ] (os : Host η) (settings : TrafficSettings) (d : Deployment σ η)
    (events : List (ManagerEvent σ η)) : Managers σ η :=
  events.foldl (handle os settings) ⟨d, [], []⟩

/-- Whether a worker is alive and no call is stopping it. -/
def isLive (m : Managers σ η) (w : Nat) : Bool :=
  m.deployment.workers.isRunning w && !m.calls.any (·.stopping? == some w)

/-- The workers opened for a key that are alive and that no call is stopping. -/
def live (m : Managers σ η) (key : WorkerKey) : List Nat :=
  (m.opened.filter fun e => e.2 == key && m.isLive e.1).map Prod.fst

/-- Whether no call is in progress. -/
def isIdle (m : Managers σ η) : Bool := m.calls.all CallPhase.isOver

end Managers

end PolicyProbe
