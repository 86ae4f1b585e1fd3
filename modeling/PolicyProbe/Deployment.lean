import PolicyProbe.Archive
import PolicyProbe.Desired.Store
import PolicyProbe.Worker.Launch
import PolicyProbe.Worker.Workforce

/-!
What an agent has deployed: the desired state, the registered workers, all workers, the way
records take, and the log. Workers are started on a host, which says how opening a socket and
starting a process turn out. In the root scope a worker is a task; in a namespace it is a process
that is launched with the JSON text of what it runs.
-/
namespace PolicyProbe

/-- What a host answers: opening and closing the socket of a server, and starting the worker
program with a specification and the path of a namespace. A started process has `readyMs` for its
first line. -/
structure Host (η : Type) where
  readyMs : Nat
  bind : ServerSpec → η → Except String Unit × η
  release : ServerSpec → η → η
  spawn : String → Option String → η → Except SystemError Child × η

/-- A recorder in front of an archive. -/
abbrev ArchiveRecorder := Recorder Record Archive

/-- Where records go: they are collected, or a recorder takes them, or the recorder was stopped. -/
inductive Outlet where
  | collected (records : List Record)
  | recorder (r : ArchiveRecorder)
  | stopped (r : ArchiveRecorder)

namespace Outlet

/-- The records that are collected. -/
def records : Outlet → List Record
  | .collected records => records
  | _ => []

/-- The recorder, stopped or not. -/
def recorder? : Outlet → Option ArchiveRecorder
  | .collected _ => none
  | .recorder r => some r
  | .stopped r => some r

/-- Lets the recorder store all that is queued. -/
def settle : Outlet → Outlet
  | .recorder r => .recorder (r.settle Archive.persistQueued)
  | outlet => outlet

end Outlet

/-- What is deployed. -/
structure Deployment (σ η : Type) where
  state : σ
  servers : ServerRegistry Nat
  clients : ClientRegistry Nat
  workers : Workforce
  host : η
  outlet : Outlet
  notices : List Notice

namespace Deployment

variable {σ η : Type}

/-- A deployment without workers. -/
def fresh (state : σ) (host : η) (outlet : Outlet) : Deployment σ η :=
  ⟨state, [], [], .empty, host, outlet, []⟩

/-- The same deployment with its desired state in another kind of store. -/
def withState {τ : Type} (state : τ) (d : Deployment σ η) : Deployment τ η :=
  ⟨state, d.servers, d.clients, d.workers, d.host, d.outlet, d.notices⟩

/-- Adds a notice. -/
def say (n : Notice) (d : Deployment σ η) : Deployment σ η := { d with notices := d.notices ++ [n] }

/-! ## Records -/

/-- Offers a record to the queue of a recorder. -/
def enqueue (r : Record) (recorder : ArchiveRecorder) : Except QueueError Unit × ArchiveRecorder :=
  let (answer, queue) := recorder.queue.push r
  (answer, { recorder with queue })

/-- Hands a record to where records go. -/
def submit : Sink (Deployment σ η) := fun r d =>
  match d.outlet with
  | .collected records => (.ok (), { d with outlet := .collected (records ++ [r]) })
  | .recorder recorder =>
    let (answer, recorder) := enqueue r recorder
    let d := { d with outlet := .recorder recorder }
    match answer with
    | .error .full => (answer, d.say (.queueFull r recorder.queue.dropped))
    | _ => (answer, d)
  | .stopped _ => (.error .closed, d)

/-- One cycle of a running client that is a task. -/
def cycle (ping : Nat → Destination → Except PingError Unit × Stamp)
    (ended : List Record → List Record) (w : Nat) (d : Deployment σ η) : Deployment σ η :=
  match d.workers.find? w with
  | some ⟨_, .task, .running, some client⟩ =>
    let (_, client, d) := client.cycle ping ended submit d
    { d with workers := d.workers.change w fun worker => { worker with client := some client } }
  | _ => d

/-! ## Starting and stopping -/

/-- Adds a worker; the answer is its number. -/
def employ (worker : Worker) (d : Deployment σ η) : Nat × Deployment σ η :=
  (d.workers.next, { d with workers := d.workers.add worker })

/-- Starts a task. The socket of a server is opened first. -/
def startTask (os : Host η) (runnable : Runnable) (d : Deployment σ η) :
    Except TrafficError Nat × Deployment σ η :=
  match runnable with
  | .server spec =>
    match os.bind spec d.host with
    | (.error text, host) => (.error (.bind text), { d with host })
    | (.ok _, host) =>
      let (w, d) := employ ⟨runnable, .task, .running, none⟩ { d with host }
      (.ok w, d)
  | .client spec =>
    let (w, d) := d.employ ⟨runnable, .task, .running, some (.ofSpec spec)⟩
    (.ok w, d)

/-- What the log says of a process that was refused: only a failure that it reported itself. -/
def noteFailure (worker : Identifier) (child : Child) (d : Deployment σ η) : Deployment σ η :=
  match (Lines.all child.output).head?.bind Lines.text? |>.map WorkerEvent.ofLine with
  | some (.ok (.failed stage message)) => d.say (.workerFailed worker stage message)
  | _ => d

/-- Starts a process, in a namespace if a path is given. A process that is refused is killed; the
records of one that is ready are handed on. -/
def startProcess (os : Host η) (path : Option String) (runnable : Runnable)
    (d : Deployment σ η) : Except TrafficError Nat × Deployment σ η :=
  let worker := Workforce.identifier d.workers.next
  match os.spawn runnable.toJson.text path d.host with
  | (.error e, host) =>
    (.error (.workerSpawn e.message), { d with host }.say (.spawnFailed worker e))
  | (.ok child, host) =>
    let d := { d with host }
    match child.launch ⟨worker, os.readyMs⟩ with
    | .error e =>
      let (_, d) := d.employ ⟨runnable, .process, .stopped, none⟩
      (.error e, d.noteFailure worker child)
    | .ok rest =>
      let state := match child.exit with
        | some code => WorkerState.exited code
        | none => .running
      let (w, d) := d.employ ⟨runnable, .process, state, none⟩
      (.ok w, (Client.deliver submit (forwarded (Lines.all rest)) d).2)

/-- Starts a worker in a scope. -/
def start (os : Host η) (scope : Scope) (runnable : Runnable)
    (d : Deployment σ η) : Except TrafficError Nat × Deployment σ η :=
  match scope.path? with
  | none => d.startTask os runnable
  | some path => d.startProcess os (some path) runnable

/-- Closes the socket of a running server. -/
def closeSocket (os : Host η) (w : Nat) (d : Deployment σ η) : Deployment σ η :=
  match d.workers.find? w with
  | some ⟨.server spec, _, .running, _⟩ => { d with host := os.release spec d.host }
  | _ => d

/-- Stops a worker; whether it had not been stopped before. -/
def stop (os : Host η) (w : Nat) (d : Deployment σ η) : Bool × Deployment σ η :=
  let d := d.closeSocket os w
  let (answer, workers) := d.workers.stop w
  (answer, { d with workers })

/-- A running worker ends by itself, with its socket. -/
def exit (os : Host η) (w code : Nat) (d : Deployment σ η) : Deployment σ η :=
  let d := d.closeSocket os w
  { d with workers := d.workers.exit w code }

end Deployment

end PolicyProbe
