import PolicyProbe.Address
import PolicyProbe.Json.Form

/-!
Transport protocols: their names, the words that configuration and records use for them, and their
order.
-/
namespace PolicyProbe

/-- A transport protocol under test. -/
inductive Protocol where
  | tcp
  | udp
  deriving DecidableEq, Repr, Inhabited

namespace Protocol

/-- The name of a protocol. -/
def name : Protocol → String
  | .tcp => "TCP"
  | .udp => "UDP"

/-- The protocol of a name in any ASCII case; otherwise the name in upper case. -/
def ofName (text : String) : Except String Protocol :=
  match text.map Char.toUpper with
  | "TCP" => .ok .tcp
  | "UDP" => .ok .udp
  | other => .error other

/-- The objection to a name that is no protocol's. -/
def unsupported (upper : String) : String := "unsupported protocol " ++ upper

def decoder : Decoder Protocol :=
  Decoder.word [("TCP", .tcp), ("tcp", .tcp), ("UDP", .udp), ("udp", .udp)]

def toJson (p : Protocol) : Json := .string p.name

instance : JsonForm Protocol := ⟨decoder, toJson⟩

/-- The order of protocols. -/
def lt : Protocol → Protocol → Bool
  | .tcp, .udp => true
  | _, _ => false

end Protocol

/-- The bound of port numbers. -/
def portBound : Nat := 65536

/-- The decoder of port numbers. -/
def Port.decoder : Decoder Nat := Decoder.natBelow portBound

/-- The decoder of addresses. -/
def Address.decoder : Decoder Address := Decoder.textOf Address.ofText?

def Address.toJson (a : Address) : Json := .string a.text

instance : JsonForm Address := ⟨Address.decoder, Address.toJson⟩

end PolicyProbe
