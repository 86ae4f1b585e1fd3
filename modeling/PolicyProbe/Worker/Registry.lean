import PolicyProbe.Policy.Protocol
import PolicyProbe.OrderedMap

/-!
Registries of workers. A server is registered under its scope, port and protocol, and keys are in
that order; a client is registered under the name of its scope. Adding keeps what is registered
already.
-/
namespace PolicyProbe

/-- What a server is registered under. -/
structure ServerKey where
  scope : String
  port : Nat
  protocol : Protocol
  deriving DecidableEq, Repr

namespace ServerKey

/-- The text of a key. -/
def text (k : ServerKey) : String :=
  k.scope ++ "/" ++ k.protocol.name ++ ":" ++ Digits.text k.port

/-- Whether one key comes before another. -/
def before (a b : ServerKey) : Bool :=
  a.scope < b.scope || (a.scope == b.scope &&
    (a.port < b.port || (a.port == b.port && a.protocol.lt b.protocol)))

instance : KeyOrder ServerKey := ⟨before⟩

end ServerKey

/-- The servers by key. -/
abbrev ServerRegistry (ω : Type) := OrderedMap ServerKey ω

/-- The clients by the name of their scope. -/
abbrev ClientRegistry (ω : Type) := OrderedMap String ω

namespace Registry

variable {κ ω : Type} [BEq κ] [KeyOrder κ]

/-- Registers a worker unless the key is taken; the answer is the worker now registered. -/
def add (key : κ) (worker : ω) (m : OrderedMap κ ω) : ω × OrderedMap κ ω :=
  match m.find? key with
  | some registered => (registered, m)
  | none => (worker, m.insert key worker)

/-- Takes out what is registered under a key. -/
def remove (key : κ) (m : OrderedMap κ ω) : Option ω × OrderedMap κ ω := (m.find? key, m.erase key)

/-- The keys of one scope. -/
def keysIn (scope : String) (m : ServerRegistry ω) : List ServerKey :=
  m.keys.filter (·.scope == scope)

end Registry

end PolicyProbe
