import PolicyProbe.Instant.Text
import PolicyProbe.Policy.Rule
import PolicyProbe.Identifier

/-!
Records: one for each ping, with the destination, the latency, the error that kept the ping from
being answered, and the verdict. A record is never changed. Beside its JSON form it has a log line.
-/
namespace PolicyProbe

/-- One observation. `success` is the verdict, not the outcome of the ping. -/
structure Record where
  id : Identifier
  src : Address
  dst : Address
  port : Nat
  protocol : Protocol
  latency : Double
  error : Option String
  success : Bool
  connected : Bool
  created : Instant
  deriving DecidableEq

namespace Record

def layout : Layout Record :=
  Record.mk <$> Layout.required "id" (Decoder.textOf Identifier.ofText?)
    <*> Layout.required "src" Address.decoder <*> Layout.required "dst" Address.decoder
    <*> Layout.required "port" Port.decoder <*> Layout.required "protocol" Protocol.decoder
    <*> Layout.required "latency_ms" Decoder.double <*> Layout.optional "error" Decoder.string
    <*> Layout.required "success" Decoder.bool <*> Layout.required "connected" Decoder.bool
    <*> Layout.required "created_time" (Decoder.textOf Instant.ofText?)

def decoder : Decoder Record := layout.decode

/-- The members of a record's JSON object. -/
def members (r : Record) : List (String × Json) :=
  [("id", .string r.id.text), ("src", r.src.toJson), ("dst", r.dst.toJson), ("port", .nat r.port),
    ("protocol", r.protocol.toJson), ("latency_ms", .float r.latency),
    ("error", .ofOption (r.error.map .string)), ("success", .bool r.success),
    ("connected", .bool r.connected), ("created_time", .string r.created.text)]

def toJson (r : Record) : Json := .object r.members

instance : JsonForm Record := ⟨decoder, toJson⟩

/-- The text of a truth value. -/
def boolText (b : Bool) : String := if b then "true" else "false"

/-- The line that stands for a record in the log: the latency has two digits after the point, and an
error comes last. -/
def logLine (r : Record) : String :=
  "[record] " ++ r.protocol.name ++ " " ++ r.src.text ++ " -> " ++ r.dst.text ++ ":" ++
    Digits.text r.port ++ " success=" ++ boolText r.success ++ " connected=" ++
    boolText r.connected ++ " latency=" ++ String.ofList (r.latency.fixed 2) ++ "ms" ++
    (match r.error with
      | some e => " error=" ++ e
      | none => "")

end Record

end PolicyProbe
