import PolicyProbe.Record

/-!
Filters on records. Every criterion that is set has to hold; one that is not set lets all pass. The
two bounds on the time of a record are inclusive.
-/
namespace PolicyProbe

/-- Criteria on records. -/
structure Filter where
  src : Option Address
  dst : Option Address
  port : Option Nat
  protocol : Option Protocol
  success : Option Bool
  since : Option Instant
  upTo : Option Instant
  deriving DecidableEq

namespace Filter

/-- The filter that lets every record pass. -/
def all : Filter := ⟨none, none, none, none, none, none, none⟩

instance : Inhabited Filter := ⟨all⟩

/-- The records of one pair of endpoints. -/
def byPair (src dst : Address) : Filter := { all with src := some src, dst := some dst }

/-- The records whose verdict is a violation of policy. -/
def violations : Filter := { all with success := some false }

/-- Whether a criterion that may be unset holds of a value. -/
def holds {α : Type} (criterion : Option α) (test : α → Bool) : Bool :=
  match criterion with
  | none => true
  | some a => test a

/-- Whether a record meets every criterion. -/
def accepts (f : Filter) (r : Record) : Bool :=
  holds f.src (r.src == ·) && holds f.dst (r.dst == ·) && holds f.port (r.port == ·) &&
    holds f.protocol (r.protocol == ·) && holds f.success (r.success == ·) &&
    holds f.since (·.notAfter r.created) && holds f.upTo (r.created.notAfter ·)

def layout : Layout Filter :=
  Filter.mk <$> Layout.optional "src" Address.decoder <*> Layout.optional "dst" Address.decoder
    <*> Layout.optional "port" Port.decoder <*> Layout.optional "protocol" Protocol.decoder
    <*> Layout.optional "success" Decoder.bool
    <*> Layout.optional "since" (Decoder.textOf Instant.ofText?)
    <*> Layout.optional "until" (Decoder.textOf Instant.ofText?)

def decoder : Decoder Filter := layout.decode

def toJson (f : Filter) : Json :=
  .object [("src", .ofOption (f.src.map Address.toJson)),
    ("dst", .ofOption (f.dst.map Address.toJson)), ("port", .ofOption (f.port.map .nat)),
    ("protocol", .ofOption (f.protocol.map Protocol.toJson)),
    ("success", .ofOption (f.success.map .bool)),
    ("since", .ofOption (f.since.map (.string ·.text))),
    ("until", .ofOption (f.upTo.map (.string ·.text)))]

instance : JsonForm Filter := ⟨decoder, toJson⟩

end Filter

end PolicyProbe
