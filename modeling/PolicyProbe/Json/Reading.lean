import PolicyProbe.Json.Numeral
import PolicyProbe.Json.Quoted

/-!
What a JSON text says, as far as it can be read. A reading is a tree of values in which the first
malformed place is a leaf of its own, and every container knows whether its end was reached. So a
consumer that goes through a reading from left to right meets the faults of the text and its own
objections in the order in which they stand in the text. Configuration files have readings as well.
-/
namespace PolicyProbe

/-- Whether the closing bracket of a container was reached. -/
inductive Ending where
  | closed
  | cut
  deriving DecidableEq, Repr

/-- A value as far as the text could be read. A string or a name without meaning holds a lone
surrogate. A moment is a date or a time, of which JSON has none. -/
inductive Reading where
  | fault
  | null
  | moment
  | bool (value : Bool)
  | number (value : Numeral)
  | string (value : Option String)
  | array (items : List Reading) (ending : Ending)
  | object (members : List (Option String × Reading)) (ending : Ending)
  deriving Inhabited

namespace Reading

/-- Blanks between the parts of a text. -/
def isBlank (c : Char) : Bool := c == ' ' || c == '\n' || c == '\t' || c == '\r'

/-- The text without the blanks in front. -/
def skipBlanks (text : List Char) : List Char := text.dropWhile isBlank

/-- What follows a word at the front of a text. -/
def afterWord? : List Char → List Char → Option (List Char)
  | [], text => some text
  | w :: word, c :: text => if w = c then afterWord? word text else none
  | _ :: _, [] => none

/-- A word of the format: its value if it is there, else a fault. -/
def word (expected : String) (value : Reading) (text : List Char) : Reading × Option (List Char) :=
  match afterWord? expected.toList text with
  | some rest => (value, some rest)
  | none => (.fault, none)

/-- The ending of a container whose reading left off at `rest`. -/
def endingOf (rest : Option (List Char)) : Ending := if rest.isSome then .closed else .cut

mutual

/-- A value at the front of a text, and what follows it unless reading had to stop inside it. -/
def value : Nat → List Char → Reading × Option (List Char)
  | 0, _ => (.fault, none)
  | fuel + 1, text =>
    match skipBlanks text with
    | [] => (.fault, none)
    | '"' :: rest =>
      match Quoted.scan rest with
      | some (pieces, rest) => (.string ((Quoted.meaning pieces).map String.ofList), some rest)
      | none => (.fault, none)
    | '[' :: rest =>
      let (xs, rest) := items fuel true rest
      (.array xs (endingOf rest), rest)
    | '{' :: rest =>
      let (ms, rest) := members fuel true rest
      (.object ms (endingOf rest), rest)
    | 'n' :: rest => word "null" .null ('n' :: rest)
    | 't' :: rest => word "true" (.bool true) ('t' :: rest)
    | 'f' :: rest => word "false" (.bool false) ('f' :: rest)
    | text =>
      match Numeral.read text with
      | some (n, rest) => (.number n, some rest)
      | none => (.fault, none)

/-- The items of an array up to its end; `first` says that no comma is due. -/
def items : Nat → Bool → List Char → List Reading × Option (List Char)
  | 0, _, _ => ([], none)
  | fuel + 1, first, text =>
    match skipBlanks text with
    | [] => ([], none)
    | c :: rest =>
      if c = ']' then ([], some rest)
      else if first then oneItem fuel (c :: rest)
      else if c = ',' then
        match skipBlanks rest with
        | ']' :: _ => ([], none)
        | rest => oneItem fuel rest
      else ([], none)

/-- One item and the items after it. -/
def oneItem : Nat → List Char → List Reading × Option (List Char)
  | 0, _ => ([], none)
  | fuel + 1, text =>
    match value fuel text with
    | (item, none) => ([item], none)
    | (item, some rest) =>
      let (xs, rest) := items fuel false rest
      (item :: xs, rest)

/-- The members of an object up to its end; `first` says that no comma is due. -/
def members : Nat → Bool → List Char → List (Option String × Reading) × Option (List Char)
  | 0, _, _ => ([], none)
  | fuel + 1, first, text =>
    match skipBlanks text with
    | [] => ([], none)
    | c :: rest =>
      if c = '}' then ([], some rest)
      else if first then oneMember fuel (c :: rest)
      else if c = ',' then oneMember fuel (skipBlanks rest)
      else ([], none)

/-- One member and the members after it. A name without its colon is a member with a fault. -/
def oneMember : Nat → List Char → List (Option String × Reading) × Option (List Char)
  | 0, _ => ([], none)
  | fuel + 1, text =>
    match text with
    | '"' :: rest =>
      match Quoted.scan rest with
      | none => ([], none)
      | some (pieces, rest) =>
        let name := (Quoted.meaning pieces).map String.ofList
        match skipBlanks rest with
        | ':' :: rest =>
          match value fuel rest with
          | (v, none) => ([(name, v)], none)
          | (v, some rest) =>
            let (ms, rest) := members fuel false rest
            ((name, v) :: ms, rest)
        | _ => ([(name, .fault)], none)
    | _ => ([], none)

end

/-- A whole text: its value, and whether nothing but blanks follows it. -/
def ofText (text : List Char) : Reading × Bool :=
  match value (3 * text.length + 3) text with
  | (v, none) => (v, false)
  | (v, some rest) => (v, (skipBlanks rest).isEmpty)

/-- An object of members in order. -/
def ofMembers (members : List (String × Reading)) : Reading :=
  .object (members.map fun (name, value) => (some name, value)) .closed

/-- The value of the first member of a name. -/
def member? (name : String) : Reading → Option Reading
  | .object members _ => members.lookup (some name)
  | _ => none

mutual

/-- Whether a value can be kept as it is: no fault in it, all strings and names with meaning, all
numbers in range, and containers nested less than `depth` deep. -/
def sound (depth : Nat) : Reading → Bool
  | .fault => false
  | .null => true
  | .moment => true
  | .bool _ => true
  | .number n => n.inRange
  | .string s => s.isSome
  | .array xs e => 1 < depth && e == .closed && soundItems (depth - 1) xs
  | .object ms e => 1 < depth && e == .closed && soundMembers (depth - 1) ms

/-- Whether all items are sound. -/
def soundItems (depth : Nat) : List Reading → Bool
  | [] => true
  | x :: xs => sound depth x && soundItems depth xs

/-- Whether all members are sound. -/
def soundMembers (depth : Nat) : List (Option String × Reading) → Bool
  | [] => true
  | (name, x) :: ms => name.isSome && sound depth x && soundMembers depth ms

end

end Reading

end PolicyProbe
