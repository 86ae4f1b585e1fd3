/-!
Finite maps as lists of keys and values in the order of the keys. Looking a key up is core's
`List.lookup`; `insert` keeps the order and replaces, `erase` takes a key out.
-/
namespace PolicyProbe

/-- A total order on keys, by its strict test. -/
class KeyOrder (κ : Type) where
  before : κ → κ → Bool

instance : KeyOrder String := ⟨fun a b => a < b⟩

/-- A map as its entries in the order of the keys. -/
abbrev OrderedMap (κ α : Type) := List (κ × α)

namespace OrderedMap

variable {κ α : Type} [BEq κ] [KeyOrder κ]

/-- The value of a key. -/
def find? (key : κ) (m : OrderedMap κ α) : Option α := m.lookup key

/-- The map with the value of a key set. -/
def insert (key : κ) (a : α) : OrderedMap κ α → OrderedMap κ α
  | [] => [(key, a)]
  | (k, b) :: rest =>
    if key == k then (key, a) :: rest
    else if KeyOrder.before key k then (key, a) :: (k, b) :: rest
    else (k, b) :: insert key a rest

/-- The map without a key. -/
def erase (key : κ) (m : OrderedMap κ α) : OrderedMap κ α := m.filter fun e => !(e.1 == key)

/-- The map of some entries, of which a later one replaces an earlier one. -/
def ofList (entries : List (κ × α)) : OrderedMap κ α :=
  entries.foldl (fun m (k, a) => insert k a m) []

/-- The keys in order. -/
def keys (m : OrderedMap κ α) : List κ := m.map Prod.fst

/-- The values in the order of their keys. -/
def values (m : OrderedMap κ α) : List α := m.map Prod.snd

end OrderedMap

end PolicyProbe
