import PolicyProbe.Json.Decoder
import PolicyProbe.Toml.Table

/-!
Configuration files. A file is a list of statements, one a line, with blanks, comments and empty
lines between them; inside brackets there may be line breaks as well. Keys have at most eighty
parts, and brackets are nested at most eighty deep. The value of a file is read like a JSON object
whose members stand in the order of their names, so one set of decoders serves both formats.
-/
namespace PolicyProbe.Toml

/-- The text without the blanks in front. -/
def skipSpaces (text : List Char) : List Char := text.dropWhile fun c => c == ' ' || c == '\t'

/-- What follows a comment, if one stands here: everything up to the end of the line. -/
def afterComment? (text : List Char) : Option (List Char) :=
  match text with
  | '#' :: rest =>
    let body := rest.takeWhile fun c => !isControl c
    some (rest.drop body.length)
  | text => some text

/-- What follows the rest of a line that has to be empty up to a comment. -/
def afterLine? (text : List Char) : Option (List Char) := do
  let rest ← afterComment? (skipSpaces text)
  match rest with
  | [] => some []
  | rest => afterBreak? rest

/-- The text without blanks, comments and line breaks in front. -/
def skipVoid : Nat → List Char → Option (List Char)
  | 0, _ => none
  | fuel + 1, text =>
    match skipSpaces text with
    | [] => some []
    | '#' :: rest => do
      match ← afterComment? ('#' :: rest) with
      | [] => some []
      | rest => skipVoid fuel (← afterBreak? rest)
    | text =>
      match afterBreak? text with
      | some rest => skipVoid fuel rest
      | none => some text

/-- Whether a character may stand in a key without quotation. -/
def isBareChar (c : Char) : Bool := c.isAlphanum || c == '_' || c == '-'

/-- One part of a key. -/
def keyPart? (text : List Char) : Option (String × List Char) :=
  match text with
  | '"' :: rest => (line? '"' (rest.length + 1) rest).map fun (cs, rest) => (String.ofList cs, rest)
  | '\'' :: rest =>
    (line? '\'' (rest.length + 1) rest).map fun (cs, rest) => (String.ofList cs, rest)
  | text =>
    let word := text.takeWhile isBareChar
    if word.isEmpty then none else some (String.ofList word, text.drop word.length)

/-- The largest number of parts of a key, and the deepest nesting of brackets. -/
def depthBound : Nat := 80

/-- Parts with points between them, at most so many. -/
def keyParts? : Nat → List Char → Option (List String × List Char)
  | 0, _ => none
  | bound + 1, text => do
    let (part, rest) ← keyPart? (skipSpaces text)
    match skipSpaces rest with
    | '.' :: rest => do
      let (parts, rest) ← keyParts? bound rest
      return (part :: parts, rest)
    | rest => some ([part], rest)

/-- A key at the front of a text. -/
def key? (text : List Char) : Option (List String × List Char) := keyParts? depthBound text

/-- What follows an equals sign. -/
def afterEquals? : List Char → Option (List Char)
  | '=' :: rest => some (skipSpaces rest)
  | _ => none

mutual

/-- A value at the front of a text, with brackets nested at most `depth` deep. -/
def value? : Nat → Nat → List Char → Option (Value × List Char)
  | 0, _, _ => none
  | fuel + 1, depth, text =>
    match text with
    | '"' :: rest =>
      (quoted? '"' rest).map fun (cs, rest) => (.scalar (.string (String.ofList cs)), rest)
    | '\'' :: rest =>
      (quoted? '\'' rest).map fun (cs, rest) => (.scalar (.string (String.ofList cs)), rest)
    | '[' :: rest => do
      if depth = 0 then none
      let (xs, rest) ← items? fuel (depth - 1) rest
      return (.array xs, rest)
    | '{' :: rest => do
      if depth = 0 then none
      let (xs, rest) ← pairs? fuel (depth - 1) rest
      return (.table .inline (← inlineEntries? xs), rest)
    | text =>
      let (word, rest) := splitWord text
      (Scalar.ofWord? word).map fun s => (.scalar s, rest)

/-- The items of an array behind its opening bracket; a comma may come after the last. -/
def items? : Nat → Nat → List Char → Option (List Value × List Char)
  | 0, _, _ => none
  | fuel + 1, depth, text => do
    match ← skipVoid (text.length + 1) text with
    | ']' :: rest => some ([], rest)
    | text =>
      let (x, rest) ← value? fuel depth text
      match ← skipVoid (rest.length + 1) rest with
      | ']' :: rest => some ([x], rest)
      | ',' :: rest => do
        let (xs, rest) ← items? fuel depth rest
        return (x :: xs, rest)
      | _ => none

/-- The assignments of an inline table behind its opening brace; a comma may come after the last. -/
def pairs? : Nat → Nat → List Char → Option (List (List String × Value) × List Char)
  | 0, _, _ => none
  | fuel + 1, depth, text => do
    match ← skipVoid (text.length + 1) text with
    | '}' :: rest => some ([], rest)
    | text =>
      let (path, rest) ← key? text
      let rest ← afterEquals? (← skipVoid (rest.length + 1) rest)
      let (x, rest) ← value? fuel depth (← skipVoid (rest.length + 1) rest)
      match ← skipVoid (rest.length + 1) rest with
      | '}' :: rest => some ([(path, x)], rest)
      | ',' :: rest => do
        let (xs, rest) ← pairs? fuel depth rest
        return ((path, x) :: xs, rest)
      | _ => none

end

/-- The path of a header up to its closing brackets. -/
def headerPath? (closing : List Char) (text : List Char) : Option (List String × List Char) := do
  let (path, rest) ← key? text
  if closing.isPrefixOf rest then return (path, ← afterLine? (rest.drop closing.length)) else none

/-- One statement at the front of a text, up to the end of its line. -/
def statement? (text : List Char) : Option (Statement × List Char) :=
  match text with
  | '[' :: '[' :: rest => do
    let (path, rest) ← headerPath? [']', ']'] rest
    return (.arrayHeader path, rest)
  | '[' :: rest => do
    let (path, rest) ← headerPath? [']'] rest
    return (.header path, rest)
  | text => do
    let (path, rest) ← key? text
    let (value, rest) ← value? (3 * rest.length + 3) depthBound (← afterEquals? rest)
    return (.assignment path value, ← afterLine? rest)

/-- The statements of a text. -/
def statements? : Nat → List Char → Option (List Statement)
  | 0, _ => none
  | fuel + 1, text => do
    match ← skipVoid (text.length + 1) text with
    | [] => some []
    | text =>
      let (s, rest) ← statement? text
      return s :: (← statements? fuel rest)

/-- The text without a byte order mark in front. -/
def afterMark (text : List Char) : List Char :=
  match text with
  | c :: rest => if c.toNat = 0xFEFF then rest else text
  | [] => []

/-- The top table of a file. -/
def document? (text : List Char) : Option Entries := do
  let text := afterMark text
  build? (← statements? (text.length + 1) text)

/-! ## Reading the value -/

/-- The numeral of a whole number. -/
def numeral (n : Int) : Numeral := ⟨n < 0, Digits.ofNat 10 n.natAbs, none, none⟩

/-- Members in the order of their names. -/
def insertMember (name : String) (r : Reading) : List (String × Reading) → List (String × Reading)
  | [] => [(name, r)]
  | (k, v) :: rest =>
    if name < k then (name, r) :: (k, v) :: rest else (k, v) :: insertMember name r rest

/-- A scalar as a reading. -/
def Scalar.reading : Scalar → Reading
  | .string s => .string (some s)
  | .integer n => .number (numeral n)
  | .float => .number ⟨false, [0], some [0], none⟩
  | .bool b => .bool b
  | .moment => .moment

mutual

/-- A value as a reading. -/
def reading : Value → Reading
  | .scalar s => s.reading
  | .array items => .array (readings items) .closed
  | .tables items => .array (tableReadings items) .closed
  | .table _ entries => .ofMembers (memberReadings entries)

/-- The readings of items. -/
def readings : List Value → List Reading
  | [] => []
  | x :: xs => reading x :: readings xs

/-- The readings of an array of tables. -/
def tableReadings : List (List (String × Value)) → List Reading
  | [] => []
  | entries :: rest => .ofMembers (memberReadings entries) :: tableReadings rest

/-- The readings of entries, in the order of their names. -/
def memberReadings : List (String × Value) → List (String × Reading)
  | [] => []
  | (name, v) :: rest => insertMember name (reading v) (memberReadings rest)

end

/-- The value of a configuration text. -/
def decode {α : Type} (d : Decoder α) (text : String) : Except DecodeError α :=
  match document? text.toList with
  | none => .error .malformed
  | some entries => d .table (.ofMembers (memberReadings entries))

end PolicyProbe.Toml
