import PolicyProbe.Desired.Location
import PolicyProbe.Topology
import PolicyProbe.Worker.Registry
import PolicyProbe.Worker.Spec

/-!
What the program says in its log, by cause, with level and wording.
-/
namespace PolicyProbe

/-- How grave a notice is. -/
inductive Level where
  | error
  | warn
  | info
  deriving DecidableEq, Repr

def Level.name : Level → String
  | .error => "ERROR"
  | .warn => "WARN"
  | .info => "INFO"

/-- A line of the log. Workers are named by their identifiers. -/
inductive Notice where
  | record (r : Record)
  | recordDirectory (path : String) (e : SystemError)
  | recordFile (path : String) (e : SystemError)
  | recordWrite (path : String) (e : SystemError)
  | storeFailed (store : String) (id : Identifier) (e : StorageError)
  | persistFailed (id : Identifier) (e : StorageError)
  | queueFull (r : Record) (dropped : Nat)
  | stateDatabase (path : String) (fault : LocationFault)
  | serverDead (key : ServerKey) (worker : Identifier)
  | serverFailed (key : ServerKey) (scope : Scope) (e : TrafficError)
  | serverUnrecorded (key : ServerKey) (endpoint : Address) (e : StorageError)
  | noServer (key : ServerKey)
  | clientDead (scope : Scope) (worker : Identifier)
  | clientFailed (endpoint : Address) (scope : Scope) (e : TrafficError)
  | spawnFailed (worker : Identifier) (e : SystemError)
  | workerFailed (worker : Identifier) (stage : FailureStage) (message : String)
  | scopeSkipped (scope : Scope)
  | ruleRejected (rule : Rule)
  | serversNotStarted (scope : Scope)
  | clientNotStarted (scope : Scope)
  | settingsFailed (e : ConfigError)
  | rulesFailed (path text : String)
  | agentFailed (e : TrafficError)
  | rulesRejected (count : Nat)
  | registerFailed (e : TrafficError)
  | started (count : Nat) (what : String)
  | notStarted (failure : String)
  | startFailed (what : String) (e : TrafficError)

namespace Notice

def level : Notice → Level
  | .record _ | .started _ _ => .info
  | .storeFailed _ _ _ | .queueFull _ _ | .serverDead _ _ | .noServer _ | .clientDead _ _
  | .workerFailed _ _ _ | .scopeSkipped _ | .ruleRejected _ | .serversNotStarted _
  | .clientNotStarted _ | .rulesRejected _ | .notStarted _ => .warn
  | _ => .error

/-- An address with a port. -/
def place (a : Address) (port : Nat) : String := a.text ++ ":" ++ Digits.text port

def text : Notice → String
  | .record r => r.logLine
  | .recordDirectory path e => "Failed to create record dir " ++ path ++ ": " ++ e.message
  | .recordFile path e => "Failed to open record file " ++ path ++ ": " ++ e.message
  | .recordWrite path e => "Failed to write record file " ++ path ++ ": " ++ e.message
  | .storeFailed store id e =>
    store ++ " storage failed for record " ++ id.text ++ ": " ++ e.message
  | .persistFailed id e => "Failed to persist record " ++ id.text ++ ": " ++ e.message
  | .queueFull r dropped =>
    "Record queue full, dropping record " ++ r.id.text ++ " (" ++ r.src.text ++ " -> " ++
      place r.dst r.port ++ "), " ++ Digits.text dropped ++ " dropped so far"
  | .stateDatabase path fault =>
    "Failed to open connected state database " ++ path ++ ": Connection Error: " ++ fault.message
  | .serverDead key worker =>
    "Server " ++ key.text ++ " worker " ++ worker.text ++ " is dead, restarting"
  | .serverFailed key scope e =>
    "Failed to start server " ++ key.text ++ " in " ++ scope.describe ++ ": " ++ e.message
  | .serverUnrecorded key endpoint e =>
    "Server " ++ key.text ++ " started but could not be recorded for " ++ endpoint.text ++ ": " ++
      e.message
  | .noServer key => "No server " ++ key.text ++ " to stop"
  | .clientDead scope worker =>
    "Client of " ++ scope.describe ++ " worker " ++ worker.text ++ " is dead, restarting"
  | .clientFailed endpoint scope e =>
    "Failed to start client of " ++ endpoint.text ++ " in " ++ scope.describe ++ ": " ++ e.message
  | .spawnFailed worker e => "Failed to spawn worker " ++ worker.text ++ ": " ++ e.message
  | .workerFailed worker stage message =>
    "Worker " ++ worker.text ++ " failed during " ++ stage.describe ++ ": " ++ message
  | .scopeSkipped scope => "Skipping " ++ scope.describe ++ ": no endpoint known"
  | .ruleRejected rule =>
    "Rejecting rule " ++ rule.src.text ++ " -> " ++ rule.dst.text ++ " " ++ rule.protocol.name ++
      ":" ++ Digits.text rule.port ++ ": no local endpoint"
  | .serversNotStarted scope =>
    "Servers of " ++ scope.describe ++ " not started: no endpoint known"
  | .clientNotStarted scope => "Client of " ++ scope.describe ++ " not started: no endpoint known"
  | .settingsFailed e => "Unable to import configuration from file: " ++ e.message
  | .rulesFailed path text => "Unable to import traffic rules: " ++ path ++ ": " ++ text
  | .agentFailed e => "Unable to create the agent: " ++ e.message ++ ", exiting..."
  | .rulesRejected count => Digits.text count ++ " rules rejected"
  | .registerFailed e => "Unable to register traffic: " ++ e.message
  | .started count what => "Started " ++ Digits.text count ++ " " ++ what
  | .notStarted failure => "Failed to start " ++ failure
  | .startFailed what e => "Unable to start " ++ what ++ ": " ++ e.message

/-- The line of a notice. -/
def line (n : Notice) : String := n.level.name ++ " " ++ n.text

end Notice

end PolicyProbe
