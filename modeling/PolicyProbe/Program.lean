import PolicyProbe.Agent.Call
import PolicyProbe.Machine
import PolicyProbe.Settings.File

/-!
The program that runs an agent. It reads the settings and the rules, makes the agent, registers
the rules, starts the servers and then the clients of the desired state, and runs until it is
interrupted. Settings, rules or an agent that cannot be had, and rules that cannot be registered,
end it.
-/
namespace PolicyProbe.Program

/-- What the program prints first. -/
def banner : String :=
  let rule := String.ofList (List.replicate 78 '=') ++ "\n"
  "\n" ++ rule ++ "                 pulse: synthetic traffic oracle v0.1.0\n" ++ rule ++ "\n"

/-- The content of a file, or why it cannot be read. -/
abbrev FileText := Except SystemError ByteArray

/-- The rules of a file, or why there are none. -/
def rulesOf (content : FileText) : Except String (List Rule) :=
  match content with
  | .error e => .error e.message
  | .ok bytes =>
    match String.fromUTF8? bytes with
    | none => .error SystemError.notUnicode.message
    | some text =>
      match (Decoder.list Rule.decoder).run text with
      | .ok rules => .ok rules
      | .error e => .error (e.detail?.getD "malformed")

/-- The program after its start: it ended with notices, or its agent is running. -/
inductive Started where
  | ended (notices : List Notice)
  | running (a : Agent DesiredState Machine)

/-- Settings and rules, or what the log says about those that cannot be had. -/
def imported (settings : FileText) (rules : Option (String × FileText)) :
    Except Notice (Settings × List Rule) :=
  match Settings.ofFile settings with
  | .error e => .error (.settingsFailed e)
  | .ok s =>
    match rules with
    | none => .ok (s, [])
    | some (path, content) =>
      match rulesOf content with
      | .ok rules => .ok (s, rules)
      | .error text => .error (.rulesFailed path text)

/-- The agent with another notice. -/
def say (n : Notice) (a : Agent DesiredState Machine) : Agent DesiredState Machine :=
  a.put (a.deployment.say n)

/-- What the log says about a start of several workers. -/
def reportStart (what : String) (answer : Except TrafficError StartReport)
    (a : Agent DesiredState Machine) : Agent DesiredState Machine :=
  match answer with
  | .error e => say (.startFailed what e) a
  | .ok report =>
    report.failed.foldl (fun a failure => say (.notStarted failure.text) a)
      (say (.started report.started what) a)

/-- Starts the servers and then the clients of an agent. -/
def startAll (os : Host Machine) (a : Agent DesiredState Machine) : Agent DesiredState Machine :=
  let (servers, a) := a.startServers os none
  let (clients, a) := a.startClients os none
  reportStart "clients" clients (reportStart "servers" servers a)

/-- Registers rules, if there are any; whether the program can go on. -/
def register (os : Host Machine) (rules : List Rule) (a : Agent DesiredState Machine) :
    Bool × Agent DesiredState Machine :=
  if rules.isEmpty then (true, a)
  else
    match a.registerTraffic rules with
    | (.error e, a) => (false, (say (.registerFailed e) a).shutdown os)
    | (.ok report, a) =>
      (true, if report.rejected.isEmpty then a else say (.rulesRejected report.rejected.length) a)

/-- The log of an agent, and behind it that of its archive. -/
def log (a : Agent DesiredState Machine) : List Notice :=
  a.deployment.notices ++ ((a.deployment.outlet.recorder?.map (·.store.notices)).getD [])

/-- Starts the program. -/
def start (settings : FileText) (rules : Option (String × FileText))
    (disk : Disk) (m : Machine) : Started :=
  match imported settings rules with
  | .error n => .ended [n]
  | .ok (s, rules) =>
    match Agent.open? s (disk.places s) m with
    | .error (e, notices) => .ended (notices ++ [.agentFailed e])
    | .ok a =>
      let os := Machine.host s.traffic.readyTimeoutMs
      match register os rules a with
      | (false, a) => .ended (log a)
      | (true, a) => .running (startAll os a)

/-- One cycle of every client of a running agent, and all that the recorder can do then. -/
def cycle (a : Agent DesiredState Machine) : Agent DesiredState Machine :=
  let d := Machine.cycleEach a.deployment.clients.values a.deployment
  a.put { d with outlet := d.outlet.settle }

/-- Ends a running agent. -/
def interrupt (a : Agent DesiredState Machine) : Agent DesiredState Machine :=
  a.shutdown (Machine.host a.settings.traffic.readyTimeoutMs)

/-- A program that ended: its exit code, its log, and the archive of its agent if it had one. -/
structure Ended where
  exit : Nat
  notices : List Notice
  archive : Option Archive

/-- Runs the program for one cycle of its clients. -/
def run (settings : FileText) (rules : Option (String × FileText)) (disk : Disk) (m : Machine) :
    Ended :=
  match start settings rules disk m with
  | .ended notices => ⟨1, notices, none⟩
  | .running a =>
    let a := interrupt (cycle a)
    ⟨0, log a, a.deployment.outlet.recorder?.map (·.store)⟩

end PolicyProbe.Program
