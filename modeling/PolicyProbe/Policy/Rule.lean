import PolicyProbe.Policy.Protocol

/-!
Policy rules under test. A rule names two endpoints, a protocol and a port, whether the endpoints
are expected to reach each other at all, and the action that policy takes on the traffic. An
action is written as one of two words and read from a truth value, a whole number or one of five
words.
-/
namespace PolicyProbe

/-- What policy does with traffic. -/
inductive Action where
  | allow
  | reject
  deriving DecidableEq, Repr, Inhabited

namespace Action

/-- Whether traffic is let through. -/
def allows : Action → Bool
  | .allow => true
  | .reject => false

/-- The action of a truth value. -/
def ofBool (b : Bool) : Action := if b then .allow else .reject

def name : Action → String
  | .allow => "allow"
  | .reject => "reject"

/-- The action of a word in any ASCII case. -/
def ofName (text : String) : Except DecodeError Action :=
  match text.map Char.toLower with
  | "allow" => .ok .allow
  | "accept" => .ok .allow
  | "reject" => .ok .reject
  | "drop" => .ok .reject
  | "deny" => .ok .reject
  | other => .error (.unknownAction other)

/-- A truth value, a signed 64 bit whole number (zero rejects) or a word. -/
def decoder : Decoder Action
  | _, .bool b => .ok (ofBool b)
  | _, .number n =>
    match n.int? with
    | some v => if v < Nat.pow 2 63 then .ok (ofBool (v != 0)) else .error .malformed
    | none => .error .malformed
  | _, .string (some s) => ofName s
  | _, _ => .error .malformed

def toJson (a : Action) : Json := .string a.name

instance : JsonForm Action := ⟨decoder, toJson⟩

end Action

/-- Whether a rule is in force. -/
inductive RuleState where
  | active
  | inactive
  deriving DecidableEq, Repr, Inhabited

namespace RuleState

def name : RuleState → String
  | .active => "active"
  | .inactive => "inactive"

def decoder : Decoder RuleState := Decoder.word [("active", .active), ("inactive", .inactive)]

def toJson (s : RuleState) : Json := .string s.name

instance : JsonForm RuleState := ⟨decoder, toJson⟩

end RuleState

/-- One policy rule under test. -/
structure Rule where
  src : Address
  dst : Address
  protocol : Protocol
  port : Nat
  connected : Bool
  action : Action
  state : RuleState
  deriving DecidableEq, Inhabited

namespace Rule

def layout : Layout Rule :=
  Rule.mk <$> Layout.required "src" Address.decoder <*> Layout.required "dst" Address.decoder
    <*> Layout.required "protocol" Protocol.decoder <*> Layout.required "port" Port.decoder
    <*> Layout.required "connected" Decoder.bool <*> Layout.required "action" Action.decoder
    <*> Layout.withDefault "state" RuleState.decoder .active

def decoder : Decoder Rule := layout.decode

def toJson (r : Rule) : Json :=
  .object [("src", r.src.toJson), ("dst", r.dst.toJson), ("protocol", r.protocol.toJson),
    ("port", .nat r.port), ("connected", .bool r.connected), ("action", r.action.toJson),
    ("state", r.state.toJson)]

instance : JsonForm Rule := ⟨decoder, toJson⟩

end Rule

/-- What a client pings, with what is expected of it. -/
structure Destination where
  protocol : Protocol
  port : Nat
  address : Address
  connected : Bool
  action : Action
  deriving DecidableEq, Inhabited

namespace Destination

def layout : Layout Destination :=
  Destination.mk <$> Layout.required "protocol" Protocol.decoder
    <*> Layout.required "port" Port.decoder <*> Layout.required "address" Address.decoder
    <*> Layout.required "connected" Decoder.bool <*> Layout.required "action" Action.decoder

def decoder : Decoder Destination := layout.decode

def toJson (d : Destination) : Json :=
  .object [("protocol", d.protocol.toJson), ("port", .nat d.port), ("address", d.address.toJson),
    ("connected", .bool d.connected), ("action", d.action.toJson)]

instance : JsonForm Destination := ⟨decoder, toJson⟩

end Destination

/-- The verdict on one ping. Endpoints that are not expected to reach each other pass when nothing
answered; others pass when the answer is what the action asks for. -/
def verdict (answered connected : Bool) (action : Action) : Bool :=
  if connected then answered == action.allows else !answered

end PolicyProbe
