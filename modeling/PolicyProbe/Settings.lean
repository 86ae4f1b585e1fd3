import PolicyProbe.Failure
import PolicyProbe.OrderedMap
import PolicyProbe.Policy.Protocol

/-!
The settings of an agent. Every setting has a default. Settings are read from a configuration file
or from JSON and are then checked: names of namespaces or the endpoint first, then the ranges of
traffic settings, then those of the recorder.
-/
namespace PolicyProbe

/-- The decoder of whole number settings. -/
def Decoder.word64 : Decoder Nat := Decoder.natBelow Numeral.wordBound

/-- Timing of the clients and of the start of workers. -/
structure TrafficSettings where
  requestRate : Nat
  cycleSeconds : Nat
  pingTimeoutMs : Nat
  readyTimeoutMs : Nat
  deriving DecidableEq, Repr

namespace TrafficSettings

def default : TrafficSettings := ⟨100, 20, 2000, 5000⟩

instance : Inhabited TrafficSettings := ⟨default⟩

def layout : Layout TrafficSettings :=
  TrafficSettings.mk <$> Layout.withDefault "request_rate" Decoder.word64 default.requestRate
    <*> Layout.withDefault "cycle_interval_secs" Decoder.word64 default.cycleSeconds
    <*> Layout.withDefault "ping_timeout_ms" Decoder.word64 default.pingTimeoutMs
    <*> Layout.withDefault "worker_ready_timeout_ms" Decoder.word64 default.readyTimeoutMs

def decoder : Decoder TrafficSettings := layout.decode

def toJson (s : TrafficSettings) : Json :=
  .object [("request_rate", .nat s.requestRate), ("cycle_interval_secs", .nat s.cycleSeconds),
    ("ping_timeout_ms", .nat s.pingTimeoutMs), ("worker_ready_timeout_ms", .nat s.readyTimeoutMs)]

instance : JsonForm TrafficSettings := ⟨decoder, toJson⟩

/-- The time between two cycles of a client, in milliseconds. -/
def cycleMs (s : TrafficSettings) : Nat := s.cycleSeconds * 1000

end TrafficSettings

/-- A kind of store for records. -/
inductive RecordBackend where
  | log
  | file
  | sqlite
  deriving DecidableEq, Repr, Inhabited

namespace RecordBackend

def name : RecordBackend → String
  | .log => "log"
  | .file => "file"
  | .sqlite => "sqlite"

def decoder : Decoder RecordBackend :=
  Decoder.word [("log", .log), ("file", .file), ("sqlite", .sqlite)]

def toJson (b : RecordBackend) : Json := .string b.name

instance : JsonForm RecordBackend := ⟨decoder, toJson⟩

end RecordBackend

/-- Where records go and how the queue in front of the stores works. -/
structure RecorderSettings where
  backends : List RecordBackend
  path : String
  queueCapacity : Nat
  workers : Nat
  pollMs : Nat
  deriving DecidableEq, Repr

namespace RecorderSettings

def default : RecorderSettings := ⟨[.log], "/var/lib/pulse", 3000, 2, 500⟩

instance : Inhabited RecorderSettings := ⟨default⟩

def layout : Layout RecorderSettings :=
  RecorderSettings.mk
    <$> Layout.withDefault "backends" (Decoder.list RecordBackend.decoder) default.backends
    <*> Layout.withDefault "path" Decoder.string default.path
    <*> Layout.withDefault "queue_capacity" Decoder.word64 default.queueCapacity
    <*> Layout.withDefault "workers" Decoder.word64 default.workers
    <*> Layout.withDefault "poll_interval_ms" Decoder.word64 default.pollMs

def decoder : Decoder RecorderSettings := layout.decode

def toJson (s : RecorderSettings) : Json :=
  .object [("backends", .array (s.backends.map RecordBackend.toJson)), ("path", .string s.path),
    ("queue_capacity", .nat s.queueCapacity), ("workers", .nat s.workers),
    ("poll_interval_ms", .nat s.pollMs)]

instance : JsonForm RecorderSettings := ⟨decoder, toJson⟩

end RecorderSettings

/-- A kind of store for the desired state. -/
inductive StateBackend where
  | memory
  | sqlite
  deriving DecidableEq, Repr, Inhabited

namespace StateBackend

def name : StateBackend → String
  | .memory => "memory"
  | .sqlite => "sqlite"

def decoder : Decoder StateBackend := Decoder.word [("memory", .memory), ("sqlite", .sqlite)]

def toJson (b : StateBackend) : Json := .string b.name

instance : JsonForm StateBackend := ⟨decoder, toJson⟩

end StateBackend

/-- Where the desired state is kept. -/
structure StateSettings where
  backend : StateBackend
  path : String
  deriving DecidableEq, Repr

namespace StateSettings

def default : StateSettings := ⟨.sqlite, "/var/lib/pulse/connected_state.sqlite3"⟩

instance : Inhabited StateSettings := ⟨default⟩

def layout : Layout StateSettings :=
  StateSettings.mk <$> Layout.withDefault "backend" StateBackend.decoder default.backend
    <*> Layout.withDefault "path" Decoder.string default.path

def decoder : Decoder StateSettings := layout.decode

def toJson (s : StateSettings) : Json :=
  .object [("backend", s.backend.toJson), ("path", .string s.path)]

instance : JsonForm StateSettings := ⟨decoder, toJson⟩

end StateSettings

/-- All settings of an agent. With `namespaceMode` every endpoint lives in a namespace of its own;
without it the agent serves the single `endpoint`. -/
structure Settings where
  namespaceMode : Bool
  endpoint : Option Address
  namespaceDir : String
  namespaces : OrderedMap String Address
  traffic : TrafficSettings
  recorder : RecorderSettings
  state : StateSettings
  deriving DecidableEq

namespace Settings

def default : Settings :=
  ⟨false, none, "/var/run/netns", [], TrafficSettings.default, RecorderSettings.default,
    StateSettings.default⟩

instance : Inhabited Settings := ⟨default⟩

def layout : Layout Settings :=
  Settings.mk <$> Layout.withDefault "namespace_mode" Decoder.bool default.namespaceMode
    <*> Layout.withDefault "endpoint" (Decoder.optional Address.decoder) default.endpoint
    <*> Layout.withDefault "netns_dir" Decoder.string default.namespaceDir
    <*> Layout.withDefault "namespaces"
      (Decoder.map OrderedMap.ofList (Decoder.entries Address.decoder)) default.namespaces
    <*> Layout.withDefault "traffic" TrafficSettings.decoder default.traffic
    <*> Layout.withDefault "recorder" RecorderSettings.decoder default.recorder
    <*> Layout.withDefault "connected_state" StateSettings.decoder default.state

def decoder : Decoder Settings := layout.decode

def toJson (s : Settings) : Json :=
  .object [("namespace_mode", .bool s.namespaceMode),
    ("endpoint", .ofOption (s.endpoint.map Address.toJson)), ("netns_dir", .string s.namespaceDir),
    ("namespaces", .object (s.namespaces.map fun (name, a) => (name, a.toJson))),
    ("traffic", s.traffic.toJson), ("recorder", s.recorder.toJson),
    ("connected_state", s.state.toJson)]

instance : JsonForm Settings := ⟨decoder, toJson⟩

/-! ## Checking -/

/-- Whether a character may stand in the name of a namespace. -/
def isNameChar (c : Char) : Bool := c.isAlphanum || c == '_' || c == '.' || c == '-'

/-- Whether a name can be that of a file directly in the directory of namespaces. -/
def isNamespaceName (name : String) : Bool :=
  !name.toList.isEmpty && name.toList.all isNameChar && name != "." && name != ".."

/-- An objection unless a condition holds. -/
def ensure (condition : Bool) (e : ConfigError) : Except ConfigError Unit :=
  if condition then .ok () else .error e

/-- The first objection to the names of namespaces, or to a missing endpoint. -/
def checkPlaces (s : Settings) : Except ConfigError Unit :=
  if s.namespaceMode then
    match s.namespaces.keys.find? (fun name => !isNamespaceName name) with
    | some name => .error (.invalidNamespace name)
    | none => .ok ()
  else
    ensure s.endpoint.isSome (.missingValue "endpoint is required when namespace_mode is false")

/-- The first objection to settings. -/
def check (s : Settings) : Except ConfigError Unit := do
  s.checkPlaces
  ensure (s.traffic.requestRate != 0) (.notInRange "traffic.request_rate must be at least 1")
  ensure (s.traffic.cycleSeconds != 0)
    (.notInRange "traffic.cycle_interval_secs must be at least 1")
  ensure (s.traffic.pingTimeoutMs != 0) (.notInRange "traffic.ping_timeout_ms must be positive")
  ensure (s.recorder.workers != 0) (.notInRange "recorder.workers must be at least 1")
  ensure (s.recorder.pollMs != 0) (.notInRange "recorder.poll_interval_ms must be at least 1")
  ensure (s.recorder.queueCapacity != 0) (.notInRange "recorder.queue_capacity must be at least 1")
  ensure (!s.recorder.backends.isEmpty) (.missingValue "recorder.backends is empty")

end Settings

end PolicyProbe
