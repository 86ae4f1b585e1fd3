import PolicyProbe.Text.Digits

/-!
The failures that the library reports, by cause, with their texts. A failure of a lower part becomes
one of the traffic failures when it passes through the agent.
-/
namespace PolicyProbe

/-- Failures of the operating system that the library can meet, with their texts. -/
inductive SystemError where
  | noSuchFile
  | isDirectory
  | fileExists
  | notDirectory
  | invalidArgument
  | nameTooLong
  | addressInUse
  | unreachable
  | refused
  | noSpace
  | notUnicode
  | zeroInPath
  | zeroInArgument
  deriving DecidableEq, Repr, Inhabited

namespace SystemError

/-- A text with its number. -/
def numbered (text : String) (code : Nat) : String :=
  text ++ " (os error " ++ Digits.text code ++ ")"

def message : SystemError → String
  | .noSuchFile => numbered "No such file or directory" 2
  | .isDirectory => numbered "Is a directory" 21
  | .fileExists => numbered "File exists" 17
  | .notDirectory => numbered "Not a directory" 20
  | .invalidArgument => numbered "Invalid argument" 22
  | .nameTooLong => numbered "File name too long" 36
  | .addressInUse => numbered "Address already in use" 98
  | .unreachable => numbered "Network is unreachable" 101
  | .refused => numbered "Connection refused" 111
  | .noSpace => numbered "No space left on device" 28
  | .notUnicode => "stream did not contain valid UTF-8"
  | .zeroInPath => "file name contained an unexpected NUL byte"
  | .zeroInArgument => "nul byte found in provided data"

end SystemError

/-- Why a configuration cannot be used. -/
inductive ConfigError where
  | io (text : String)
  | toml (text : String)
  | notInRange (text : String)
  | missingValue (text : String)
  | invalidNamespace (name : String)
  deriving DecidableEq, Repr

def ConfigError.message : ConfigError → String
  | .io text => "IO error: " ++ text
  | .toml text => "TOML parsing error: " ++ text
  | .notInRange text => "Value out of range: " ++ text
  | .missingValue text => "Missing value: " ++ text
  | .invalidNamespace name => "Invalid namespace name: " ++ name

/-- The name of a cause. -/
def ConfigError.kind : ConfigError → String
  | .io _ => "IoError"
  | .toml _ => "TomlError"
  | .notInRange _ => "NotInRange"
  | .missingValue _ => "MissingValue"
  | .invalidNamespace _ => "InvalidNamespace"

/-- Why a store cannot be used. -/
inductive StorageError where
  | connectionFailed
  | writeFailed
  | readFailed
  deriving DecidableEq, Repr, Inhabited

def StorageError.message : StorageError → String
  | .connectionFailed => "Storage connection failed"
  | .writeFailed => "Storage write failed"
  | .readFailed => "Storage read failed"

/-- The name of a cause. -/
def StorageError.kind : StorageError → String
  | .connectionFailed => "ConnectionFailed"
  | .writeFailed => "WriteFailed"
  | .readFailed => "ReadFailed"

/-- Why the agent cannot do what it is asked. -/
inductive TrafficError where
  | configuration (text : String)
  | unknownNamespace (name : String)
  | missingEndpoint (name : String)
  | bind (text : String)
  | namespaceEntry (text : String)
  | workerSpawn (text : String)
  | workerProtocol (text : String)
  | storage (cause : StorageError)
  deriving DecidableEq, Repr

namespace TrafficError

def message : TrafficError → String
  | .configuration text => "Configuration error: " ++ text
  | .unknownNamespace name => "Unknown namespace: " ++ name
  | .missingEndpoint name => "No endpoint address known for namespace " ++ name
  | .bind text => "Server bind error: " ++ text
  | .namespaceEntry text => "Namespace entry failed: " ++ text
  | .workerSpawn text => "Worker spawn failed: " ++ text
  | .workerProtocol text => "Worker protocol error: " ++ text
  | .storage cause => "Storage error: " ++ cause.message

/-- The name of a cause. -/
def kind : TrafficError → String
  | .configuration _ => "Configuration"
  | .unknownNamespace _ => "UnknownNamespace"
  | .missingEndpoint _ => "MissingEndpoint"
  | .bind _ => "Bind"
  | .namespaceEntry _ => "NamespaceEntry"
  | .workerSpawn _ => "WorkerSpawn"
  | .workerProtocol _ => "WorkerProtocol"
  | .storage _ => "Storage"

/-- A configuration failure as the agent reports it. -/
def ofConfig (e : ConfigError) : TrafficError := .configuration e.message

end TrafficError

/-- The step of a ping that can run out of time. -/
inductive PingStep where
  | connect
  | send
  | receive
  deriving DecidableEq, Repr

def PingStep.name : PingStep → String
  | .connect => "connect"
  | .send => "send"
  | .receive => "receive"

/-- Why a ping was not answered. -/
inductive PingError where
  | timeout (step : PingStep)
  | io (text : String)
  deriving DecidableEq, Repr

def PingError.message : PingError → String
  | .timeout step => "timed out during " ++ step.name
  | .io text => text

/-- Why the record queue did not take a record. -/
inductive QueueError where
  | full
  | closed
  deriving DecidableEq, Repr, Inhabited

def QueueError.message : QueueError → String
  | .full => "Record queue is full"
  | .closed => "Record queue is closed"

/-- The name of a cause. -/
def QueueError.kind : QueueError → String
  | .full => "QueueFull"
  | .closed => "QueueClosed"

/-- The stage of the start of a worker that failed. -/
inductive FailureStage where
  | namespaceEntry
  | bind
  | setup
  deriving DecidableEq, Repr, Inhabited

/-- The description of a stage. -/
def FailureStage.describe : FailureStage → String
  | .namespaceEntry => "namespace entry"
  | .bind => "bind"
  | .setup => "runtime setup"

end PolicyProbe
