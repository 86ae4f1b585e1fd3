import PolicyProbe.Failure
import PolicyProbe.Record
import PolicyProbe.Settings

/-!
What a worker runs, and what a worker process says about itself. A runnable is a server or a client;
its JSON text is the command line of a worker process. The process answers with events, one JSON
text a line.
-/
namespace PolicyProbe

/-- An echo server to run. -/
structure ServerSpec where
  protocol : Protocol
  port : Nat
  bindAddress : Address
  deriving DecidableEq

namespace ServerSpec

def layout : Layout ServerSpec :=
  ServerSpec.mk <$> Layout.required "protocol" Protocol.decoder
    <*> Layout.required "port" Port.decoder <*> Layout.required "bind_address" Address.decoder

def decoder : Decoder ServerSpec := layout.decode

def members (s : ServerSpec) : List (String × Json) :=
  [("protocol", s.protocol.toJson), ("port", .nat s.port), ("bind_address", s.bindAddress.toJson)]

def toJson (s : ServerSpec) : Json := .object s.members

instance : JsonForm ServerSpec := ⟨decoder, toJson⟩

end ServerSpec

/-- A client to run. -/
structure ClientSpec where
  source : Address
  destinations : List Destination
  settings : TrafficSettings
  deriving DecidableEq

namespace ClientSpec

def layout : Layout ClientSpec :=
  ClientSpec.mk <$> Layout.required "source" Address.decoder
    <*> Layout.required "destinations" (Decoder.list Destination.decoder)
    <*> Layout.required "settings" TrafficSettings.decoder

def decoder : Decoder ClientSpec := layout.decode

def members (c : ClientSpec) : List (String × Json) :=
  [("source", c.source.toJson), ("destinations", .array (c.destinations.map Destination.toJson)),
    ("settings", c.settings.toJson)]

def toJson (c : ClientSpec) : Json := .object c.members

instance : JsonForm ClientSpec := ⟨decoder, toJson⟩

end ClientSpec

/-- What a worker runs. -/
inductive Runnable where
  | server (spec : ServerSpec)
  | client (spec : ClientSpec)
  deriving DecidableEq

namespace Runnable

/-- The name of the member that tells the kinds apart. -/
def tag : String := "type"

def decoder : Decoder Runnable :=
  Variants.decode [("server", Decoder.map .server ServerSpec.decoder),
    ("client", Decoder.map .client ClientSpec.decoder)] tag

def toJson : Runnable → Json
  | .server spec => .object ((tag, .string "server") :: spec.members)
  | .client spec => .object ((tag, .string "client") :: spec.members)

instance : JsonForm Runnable := ⟨decoder, toJson⟩

/-- The description of a runnable. -/
def describe : Runnable → String
  | .server s => s.protocol.name ++ " server on " ++ s.bindAddress.text ++ ":" ++ Digits.text s.port
  | .client c =>
    "client from " ++ c.source.text ++ " to " ++ Digits.text c.destinations.length ++
      " destinations"

end Runnable

namespace FailureStage

def name : FailureStage → String
  | .namespaceEntry => "Namespace"
  | .bind => "Bind"
  | .setup => "Runtime"

def decoder : Decoder FailureStage :=
  Decoder.word [("Namespace", .namespaceEntry), ("Bind", .bind), ("Runtime", .setup)]

def toJson (s : FailureStage) : Json := .string s.name

instance : JsonForm FailureStage := ⟨decoder, toJson⟩

end FailureStage

/-- Whether a worker runs inside the agent or in a process of its own. -/
inductive WorkerKind where
  | task
  | process
  deriving DecidableEq, Repr, Inhabited

def WorkerKind.name : WorkerKind → String
  | .task => "task"
  | .process => "process"

/-- One line of a worker process. The first is `ready` or `failed`, every later one a record. -/
inductive WorkerEvent where
  | ready
  | failed (stage : FailureStage) (message : String)
  | record (record : Record)
  deriving DecidableEq

namespace WorkerEvent

/-- The name of the member that tells the kinds apart. -/
def tag : String := "event"

/-- The fields of a failure. -/
def failedLayout : Layout WorkerEvent :=
  WorkerEvent.failed <$> Layout.required "stage" FailureStage.decoder
    <*> Layout.required "message" Decoder.string

def decoder : Decoder WorkerEvent :=
  Variants.decode [("ready", Variants.bare .ready), ("failed", failedLayout.decode),
    ("record", Decoder.map .record Record.decoder)] tag

def toJson : WorkerEvent → Json
  | .ready => .object [(tag, .string "ready")]
  | .failed stage message =>
    .object [(tag, .string "failed"), ("stage", stage.toJson), ("message", .string message)]
  | .record r => .object ((tag, .string "record") :: r.members)

instance : JsonForm WorkerEvent := ⟨decoder, toJson⟩

/-- The line of an event, without its line break. -/
def line (e : WorkerEvent) : String := e.toJson.text

/-- The event of a line. -/
def ofLine (line : String) : Except DecodeError WorkerEvent := decoder.run line

end WorkerEvent

end PolicyProbe
