import PolicyProbe.CommandLine
import PolicyProbe.Disk
import PolicyProbe.Ping
import PolicyProbe.Worker.Process

/-!
A host with a state of its own: which sockets are open, what its network answers, which files are
there instead of namespaces, and what the worker program is. A socket is refused when another one
that is open excludes it. The worker program is missing, or writes a given output, or is the worker
process of this library, of which a client makes a given number of cycles.
-/
namespace PolicyProbe

/-- The program that a launch starts. -/
inductive WorkerProgram where
  | missing
  | scripted (child : Child)
  | worker

/-- Whether two sockets cannot both be open: those of one protocol and port, at one address or at
any. Port zero stands for any port that is free. -/
def ServerSpec.excludes (a b : ServerSpec) : Bool :=
  a.protocol == b.protocol && a.port == b.port && a.port != 0 &&
    (a.bindAddress == b.bindAddress || a.bindAddress == .unspecified ||
      b.bindAddress == .unspecified)

/-- A host. `cycles` is the number of cycles of a client that is a process, and `serial` the
number of pings so far, of which every one has a stamp of its own. -/
structure Machine where
  sockets : List ServerSpec
  network : Network
  enter : String → Except SystemError Unit
  program : WorkerProgram
  cycles : Nat
  serial : Nat

namespace Machine

/-- The time that a machine without a clock gives to records. -/
def epoch : Instant := ⟨⟨1970, 1, 1, by decide⟩, 0, 0, by decide⟩

/-- The stamp of a ping by its number. -/
def stamp (serial : Nat) : Stamp := ⟨.ofNat serial, .zero false, epoch⟩

/-- How the pings of a cycle turn out. -/
def ping (m : Machine) (i : Nat) (d : Destination) : Except PingError Unit × Stamp :=
  (m.network.outcome d, stamp (m.serial + i))

/-- A machine without routes and without namespaces, with a disk. -/
def unrouted (disk : Disk) (program : WorkerProgram) : Machine where
  sockets := []
  network := .unrouted
  enter := disk.enter
  program := program
  cycles := 1
  serial := 0

/-- Opens the socket of a server. -/
def bind (spec : ServerSpec) (m : Machine) : Except SystemError Unit × Machine :=
  if m.sockets.any spec.excludes then (.error .addressInUse, m)
  else (.ok (), { m with sockets := spec :: m.sockets })

/-- Closes the socket of a server. -/
def release (spec : ServerSpec) (m : Machine) : Machine :=
  { m with sockets := m.sockets.erase spec }

/-- What the operating system answers to a worker process. -/
def surroundings (m : Machine) : WorkerProcess.Surroundings where
  enter := m.enter
  prepare := .ok ()
  bind spec := (m.bind spec).1.mapError SystemError.message

/-- The records of some cycles of a client, the first ping of which has the given number. -/
def cycleRecords (m : Machine) : Nat → Client → Nat → List Record
  | 0, _, _ => []
  | cycles + 1, client, serial =>
    let (produced, client, records) :=
      client.cycle { m with serial }.ping id (fun r rs => (.ok (), rs ++ [r])) []
    records ++ m.cycleRecords cycles client (serial + produced)

/-- The records of a worker process. -/
def processRecords (m : Machine) : Runnable → List Record
  | .server _ => []
  | .client spec => m.cycleRecords m.cycles (.ofSpec spec) m.serial

/-- The machine while something runs on it that holds a socket or has pinged. -/
def occupied (m : Machine) : Runnable → Machine
  | .server spec => (m.bind spec).2
  | .client spec => { m with serial := m.serial + m.cycles * (Client.ofSpec spec).rate }

/-- The events of a worker process on a machine. -/
def workerEvents (m : Machine) (spec : String) (path : Option String) : List WorkerEvent :=
  let begun := WorkerProcess.begin m.surroundings spec path
  WorkerProcess.events begun (match begun with
    | .ok runnable => m.processRecords runnable
    | .error _ => [])

/-- A worker process as it turns out, and the machine on which it was started. -/
def process (m : Machine) (spec : String) (path : Option String) : Child × Machine :=
  let begun := WorkerProcess.begin m.surroundings spec path
  (⟨WorkerProcess.transcript (m.workerEvents spec path), WorkerProcess.exitCode? begun⟩,
    match begun with
    | .ok runnable => m.occupied runnable
    | .error _ => m)

/-- Starts the worker program with the arguments that ask for a worker. No argument can hold a
character zero, and arguments that the program does not understand end it before it writes
anything. -/
def spawn (spec : String) (path : Option String) (m : Machine) :
    Except SystemError Child × Machine :=
  if path.any (·.toList.contains '\x00') then (.error .zeroInArgument, m)
  else match m.program with
  | .missing => (.error .noSuchFile, m)
  | .scripted child => (.ok child, m)
  | .worker =>
    match CommandLine.parse (CommandLine.workerArguments spec path) with
    | .ok (.worker spec path) => (.ok (m.process spec path).1, (m.process spec path).2)
    | .ok (.run _ _) => (.ok ⟨[], none⟩, m)
    | .error diversion => (.ok ⟨[], some diversion.exitCode⟩, m)

/-- The machine as a host. -/
def host (readyMs : Nat) : Host Machine where
  readyMs := readyMs
  bind spec m :=
    match m.bind spec with
    | (.ok _, m) => (.ok (), m)
    | (.error e, m) => (.error e.message, m)
  release := release
  spawn := spawn

/-- One cycle of a client that is a task, with the stamps of the machine. -/
def cycle {σ : Type} (w : Nat) (d : Deployment σ Machine) : Deployment σ Machine :=
  let pings := match d.workers.find? w with
    | some ⟨_, .task, .running, some client⟩ => client.rate
    | _ => 0
  let d := d.cycle d.host.ping id w
  { d with host := { d.host with serial := d.host.serial + pings } }

/-- One cycle of each of some workers. -/
def cycleEach {σ : Type} (ws : List Nat) (d : Deployment σ Machine) : Deployment σ Machine :=
  ws.foldl (fun d w => cycle w d) d

/-- Cycles of some workers, at most `rounds` of each, until so many records are collected. -/
def collect {σ : Type} (count : Nat) (ws : List Nat) : Nat → Deployment σ Machine →
    Deployment σ Machine
  | 0, d => d
  | rounds + 1, d =>
    if count ≤ d.outlet.records.length then d else collect count ws rounds (cycleEach ws d)

end Machine

end PolicyProbe
