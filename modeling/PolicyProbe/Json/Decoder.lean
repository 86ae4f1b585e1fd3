import PolicyProbe.Json.Reading

/-!
Typed reading. A decoder turns a reading into a value of the domain or says why it cannot. The first
objection in the order of the text wins: the members of an object are gone through as they stand,
and fields that are missing are reported at its closing brace, in the order of declaration.
-/
namespace PolicyProbe

/-- Why a text does not stand for a value. -/
inductive DecodeError where
  | malformed
  | unknownAction (name : String)
  | unknownWord (name : String) (choices : List String)
  | missingField (name : String)
  | duplicateField (name : String)
  deriving DecidableEq, Repr

/-- A word between backquotes. -/
def quotedWord (word : String) : String := "\x60" ++ word ++ "\x60"

/-- The text of an error, apart from that of a malformed text. -/
def DecodeError.detail? : DecodeError → Option String
  | .malformed => none
  | .unknownAction name => some ("unknown action " ++ name)
  | .unknownWord name choices =>
    let listed := match choices with
      | [a, b] => quotedWord a ++ " or " ++ quotedWord b
      | [a] => quotedWord a
      | _ => "one of " ++ String.intercalate ", " (choices.map quotedWord)
    some ("unknown variant " ++ quotedWord name ++ ", expected " ++ listed)
  | .missingField name => some ("missing field " ++ quotedWord name)
  | .duplicateField name => some ("duplicate field " ++ quotedWord name)

/-- How a reading came about: straight from a text, from a value that was kept whole before, from a
value that was kept beside a tag, or from a table of a configuration file. The four differ in how a
word may be wrapped. -/
inductive Manner where
  | direct
  | kept
  | tagged
  | table
  deriving DecidableEq, Repr

/-- A typed reading of a value. -/
abbrev Decoder (α : Type) := Manner → Reading → Except DecodeError α

namespace Decoder

/-- The same decoder followed by a function. -/
def map {α β : Type} (f : α → β) (d : Decoder α) : Decoder β := fun manner r => f <$> d manner r

def bool : Decoder Bool
  | _, .bool b => .ok b
  | _, _ => .error .malformed

def string : Decoder String
  | _, .string (some s) => .ok s
  | _, _ => .error .malformed

/-- A text that some reader accepts. -/
def textOf {α : Type} (read? : String → Option α) : Decoder α
  | _, .string (some s) =>
    match read? s with
    | some a => .ok a
    | none => .error .malformed
  | _, _ => .error .malformed

/-- A natural number below a bound. -/
def natBelow (bound : Nat) : Decoder Nat
  | _, .number n =>
    match n.int? with
    | some v => if 0 ≤ v ∧ v < bound then .ok v.toNat else .error .malformed
    | none => .error .malformed
  | _, _ => .error .malformed

/-- A floating point number; whole numbers count as well. -/
def double : Decoder Double
  | _, .number n =>
    let x := match n.int? with
      | some v => Double.ofInt? v
      | none => n.double?
    match x with
    | some x => .ok x
    | none => .error .malformed
  | _, _ => .error .malformed

/-- A value or null. -/
def optional {α : Type} (d : Decoder α) : Decoder (Option α)
  | _, .null => .ok none
  | manner, r => some <$> d manner r

/-- An array, item by item. -/
def list {α : Type} (d : Decoder α) : Decoder (List α)
  | manner, .array items ending => do
    let xs ← items.mapM (d manner)
    if ending = .closed then .ok xs else .error .malformed
  | _, _ => .error .malformed

/-- The value that a word stands for. -/
def choose {α : Type} (choices : List (String × α)) (name : String) : Except DecodeError α :=
  match choices.lookup name with
  | some a => .ok a
  | none => .error (.unknownWord name (choices.map Prod.fst))

/-- One of some words. A word may also be the only name of an object whose value is null, or beside
a tag an empty object; a table writes it with an empty table or array instead. -/
def word {α : Type} (choices : List (String × α)) : Decoder α
  | _, .string (some name) => choose choices name
  | .direct, .object ((some name, value) :: more) ending => do
    let a ← choose choices name
    match value, more, ending with
    | .null, [], .closed => .ok a
    | _, _, _ => .error .malformed
  | manner, .object [(some name, value)] _ => do
    let a ← choose choices name
    match manner, value with
    | .table, .object [] _ => .ok a
    | .table, .array [] _ => .ok a
    | .table, _ => .error .malformed
    | .tagged, .object [] _ => .ok a
    | _, .null => .ok a
    | _, _ => .error .malformed
  | _, _ => .error .malformed

/-- The members of an object whose names are free; a later value of a name replaces an earlier. -/
def entries {α : Type} (d : Decoder α) : Decoder (List (String × α))
  | manner, .object members ending => do
    let xs ← members.mapM fun
      | (some name, value) => do return (name, ← d manner value)
      | (none, _) => .error .malformed
    if ending = .closed then .ok xs else .error .malformed
  | _, _ => .error .malformed

/-- The value of a text that holds nothing else. -/
def run {α : Type} (d : Decoder α) (text : String) : Except DecodeError α := do
  let (r, clean) := Reading.ofText text.toList
  let a ← d .direct r
  if clean then .ok a else .error .malformed

end Decoder

/-- What is known of a field before its value: its name, whether it may be missing from an array,
and the objection to a value. -/
structure Field where
  name : String
  defaulted : Bool
  check : Manner → Reading → Except DecodeError Unit

/-- The fields of a structure in order, and how the structure is built from their values. -/
structure Layout (α : Type) where
  fields : List Field
  build : Manner → (String → Option Reading) → Except DecodeError α

namespace Layout

def pure {α : Type} (a : α) : Layout α := ⟨[], fun _ _ => .ok a⟩

def seq {α β : Type} (f : Layout (α → β)) (x : Unit → Layout α) : Layout β :=
  ⟨f.fields ++ (x ()).fields, fun manner value? => do
    let g ← f.build manner value?
    let a ← (x ()).build manner value?
    return g a⟩

instance : Applicative Layout where
  pure := Layout.pure
  seq := Layout.seq

private def checked {α : Type} (d : Decoder α) (manner : Manner) (r : Reading) :
    Except DecodeError Unit := do
  let _ ← d manner r
  return ()

/-- A field that has to be there. -/
def required {α : Type} (name : String) (d : Decoder α) : Layout α :=
  ⟨[⟨name, false, checked d⟩], fun manner value? =>
    match value? name with
    | some r => d manner r
    | none => .error (.missingField name)⟩

/-- A field that an object may leave out or set to null. -/
def optional {α : Type} (name : String) (d : Decoder α) : Layout (Option α) :=
  ⟨[⟨name, false, checked (Decoder.optional d)⟩], fun manner value? =>
    match value? name with
    | some r => Decoder.optional d manner r
    | none => .ok none⟩

/-- A field that takes a value of its own when it is left out. -/
def withDefault {α : Type} (name : String) (d : Decoder α) (default : α) : Layout α :=
  ⟨[⟨name, true, checked d⟩], fun manner value? =>
    match value? name with
    | some r => d manner r
    | none => .ok default⟩

/-- The first objection to the members of an object; `seen` are the names before them. -/
def checkMembers (fields : List Field) (manner : Manner) :
    List String → List (Option String × Reading) → Except DecodeError Unit
  | _, [] => .ok ()
  | _, (none, _) :: _ => .error .malformed
  | seen, (some name, value) :: members =>
    match fields.find? (·.name == name) with
    | none => checkMembers fields manner seen members
    | some field =>
      if seen.contains name then .error (.duplicateField name)
      else do
        field.check manner value
        checkMembers fields manner (name :: seen) members

/-- The first objection to the items of an array that stand for the fields in order. -/
def checkItems (manner : Manner) : List Field → List Reading → Except DecodeError Unit
  | field :: fields, item :: items => do
    field.check manner item
    checkItems manner fields items
  | _, _ => .ok ()

/-- A structure as an object, or as the array of its fields in order. A table's array may be
longer. A moment counts as an object in which no field is named. -/
def decode {α : Type} (layout : Layout α) : Decoder α
  | manner, .object members ending => do
    checkMembers layout.fields manner [] members
    if ending = .closed then layout.build manner (members.lookup <| some ·)
    else .error .malformed
  | manner, .moment => layout.build manner fun _ => none
  | manner, .array items ending => do
    checkItems manner layout.fields items
    let complete := (layout.fields.drop items.length).all (·.defaulted)
    let fits := manner == .table || decide (items.length ≤ layout.fields.length)
    if ending = .closed ∧ complete ∧ fits then
      layout.build manner fun name => ((layout.fields.map (·.name)).zip items).lookup name
    else .error .malformed
  | _, _ => .error .malformed

end Layout

/-- A structure whose kind is named by a tag beside its fields: for every tag the decoder of the
remaining fields. -/
abbrev Variants (α : Type) := List (String × Decoder α)

namespace Variants

/-- The variant that a tag value names. -/
def choose {α : Type} (variants : Variants α) : Reading → Except DecodeError (Decoder α)
  | .string (some name) => Decoder.choose variants name
  | _ => .error .malformed

/-- The tag and the other members, in the order of the text: the tag is looked at in its place, the
others have to be sound. -/
def split {α : Type} (variants : Variants α) (tag : String) :
    Option (Decoder α) → List (Option String × Reading) →
      Except DecodeError (Option (Decoder α) × List (Option String × Reading))
  | chosen, [] => .ok (chosen, [])
  | _, (none, _) :: _ => .error .malformed
  | chosen, (some name, value) :: members =>
    if name = tag then
      if chosen.isSome then .error (.duplicateField tag)
      else do
        let d ← variants.choose value
        split variants tag (some d) members
    else if value.sound 127 then do
      let (chosen, rest) ← split variants tag chosen members
      return (chosen, (some name, value) :: rest)
    else .error .malformed

/-- A tagged structure, as an object with the tag at any place or as an array with the tag first. -/
def decode {α : Type} (variants : Variants α) (tag : String) : Decoder α
  | _, .object members ending => do
    let (chosen, rest) ← split variants tag none members
    if ending = .cut then .error .malformed
    match chosen with
    | none => .error (.missingField tag)
    | some d => d .tagged (.object rest .closed)
  | _, .array [] .closed => .error (.missingField tag)
  | _, .array (first :: items) ending => do
    let d ← variants.choose first
    if ending = .closed ∧ items.all (·.sound 127) then d .tagged (.array items .closed)
    else .error .malformed
  | _, _ => .error .malformed

/-- A variant without fields: anything beside the tag is passed over, but an array has to end. -/
def bare {α : Type} (a : α) : Decoder α
  | _, .object _ _ => .ok a
  | _, .array [] _ => .ok a
  | _, _ => .error .malformed

end Variants

end PolicyProbe
