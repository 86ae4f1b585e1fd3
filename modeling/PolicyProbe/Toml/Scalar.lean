import PolicyProbe.Decimal.Double
import PolicyProbe.Instant
import PolicyProbe.Text.Digits

/-!
The scalars of configuration files: quoted texts of four kinds, and the words that stand for truth
values, whole numbers, floating point numbers and dates. A word is first taken off the text whole
and then told apart.
-/
namespace PolicyProbe.Toml

/-- The value of a word. Floating point numbers, dates and times are only told from the others,
since no setting has such a value. -/
inductive Scalar where
  | string (value : String)
  | integer (value : Int)
  | float
  | bool (value : Bool)
  | moment
  deriving DecidableEq, Repr, Inhabited

/-! ## Quoted texts -/

/-- Whether a character may not stand in a quoted text or a comment. -/
def isControl (c : Char) : Bool := (c.toNat < 0x20 && c != '\t') || c.toNat == 0x7F

/-- The character of a code point, unless it is a surrogate or too large. -/
def scalarValue? (n : Nat) : Option Char :=
  if h : n.isValidChar then some (Char.ofNatAux n h) else none

/-- The character of exactly `count` hexadecimal digits. -/
def hexEscape? (count : Nat) (text : List Char) : Option (Char × List Char) := do
  let ds ← Digits.all? Digits.hexValue? (text.take count)
  if ds.length = count then
    return (← scalarValue? (Digits.toNat 16 ds), text.drop count)
  else none

/-- The character of an escape behind its backslash. -/
def escape? : List Char → Option (Char × List Char)
  | 'x' :: rest => hexEscape? 2 rest
  | 'u' :: rest => hexEscape? 4 rest
  | 'U' :: rest => hexEscape? 8 rest
  | 'b' :: rest => some ('\x08', rest)
  | 't' :: rest => some ('\t', rest)
  | 'n' :: rest => some ('\n', rest)
  | 'f' :: rest => some ('\x0c', rest)
  | 'r' :: rest => some ('\r', rest)
  | 'e' :: rest => some ('\x1b', rest)
  | '"' :: rest => some ('"', rest)
  | '\\' :: rest => some ('\\', rest)
  | _ => none

/-- A text on one line up to its closing mark; only between quotation marks are there escapes. -/
def line? (mark : Char) : Nat → List Char → Option (List Char × List Char)
  | 0, _ => none
  | fuel + 1, text =>
    match text with
    | [] => none
    | c :: rest =>
      if c = mark then some ([], rest)
      else if c = '\\' ∧ mark = '"' then do
        let (d, rest) ← escape? rest
        let (cs, rest) ← line? mark fuel rest
        return (d :: cs, rest)
      else if isControl c then none
      else do
        let (cs, rest) ← line? mark fuel rest
        return (c :: cs, rest)

/-- A line break at the front of a text, and what follows it. -/
def splitBreak? : List Char → Option (List Char × List Char)
  | '\n' :: rest => some (['\n'], rest)
  | '\r' :: '\n' :: rest => some (['\r', '\n'], rest)
  | _ => none

/-- What follows a line break. -/
def afterBreak? (text : List Char) : Option (List Char) := (splitBreak? text).map Prod.snd

/-- The text without blanks and line breaks in front. -/
def skipLines : Nat → List Char → List Char
  | 0, text => text
  | fuel + 1, text =>
    match text with
    | ' ' :: rest => skipLines fuel rest
    | '\t' :: rest => skipLines fuel rest
    | text =>
      match afterBreak? text with
      | some rest => skipLines fuel rest
      | none => text

/-- What follows a backslash that ends a line, up to the next character that is no blank. -/
def afterContinued? (text : List Char) : Option (List Char) :=
  match afterBreak? (text.dropWhile fun c => c == ' ' || c == '\t') with
  | some rest => some (skipLines rest.length rest)
  | none => none

/-- A text over several lines up to three closing marks; one or two marks right before them belong
to the text, and so do the line breaks as they are written. -/
def lines? (mark : Char) : Nat → List Char → Option (List Char × List Char)
  | 0, _ => none
  | fuel + 1, text =>
    match text with
    | [] => none
    | c :: rest =>
      if c = mark then
        let run := (text.takeWhile (· == mark)).length
        if 6 ≤ run then none
        else if 3 ≤ run then some (List.replicate (run - 3) mark, text.drop run)
        else do
          let (cs, rest) ← lines? mark fuel rest
          return (c :: cs, rest)
      else if c = '\\' ∧ mark = '"' then
        match afterContinued? rest with
        | some rest => lines? mark fuel rest
        | none => do
          let (d, rest) ← escape? rest
          let (cs, rest) ← lines? mark fuel rest
          return (d :: cs, rest)
      else
        match splitBreak? text with
        | some (lineBreak, rest) => do
          let (cs, rest) ← lines? mark fuel rest
          return (lineBreak ++ cs, rest)
        | none =>
          if isControl c then none
          else do
            let (cs, rest) ← lines? mark fuel rest
            return (c :: cs, rest)

/-- A quoted text behind its first mark: over several lines when three marks open it. -/
def quoted? (mark : Char) (text : List Char) : Option (List Char × List Char) :=
  match text with
  | a :: b :: rest =>
    if a = mark ∧ b = mark then
      let body := (afterBreak? rest).getD rest
      lines? mark (body.length + 1) body
    else line? mark (text.length + 1) text
  | text => line? mark (text.length + 1) text

/-! ## Words -/

/-- Digits with single underscores between them. -/
def grouped? (value? : Char → Option Nat) : List Char → Option (List Nat)
  | [] => none
  | [c] => (value? c).map fun d => [d]
  | c :: '_' :: rest => do return (← value? c) :: (← grouped? value? rest)
  | c :: rest => do return (← value? c) :: (← grouped? value? rest)

/-- The values of digits below a base. -/
def digitBelow (base : Nat) (c : Char) : Option Nat :=
  (Digits.hexValue? c).filter (· < base)

/-- The digits of a whole number without a sign in decimal, without a leading zero. -/
def decimal? (text : List Char) : Option (List Nat) := do
  let ds ← grouped? Digits.decimalValue? text
  match ds with
  | 0 :: _ :: _ => none
  | ds => some ds

/-- A sign and what follows it. -/
def signed (text : List Char) : Bool × List Char :=
  match text with
  | '-' :: rest => (true, rest)
  | '+' :: rest => (false, rest)
  | text => (false, text)

/-- A whole number: hexadecimal, octal or binary behind a mark, or decimal with an optional sign. -/
def integer? (text : List Char) : Option Int :=
  match text with
  | '0' :: 'x' :: rest => (grouped? (digitBelow 16) rest).map fun ds => (Digits.toNat 16 ds : Int)
  | '0' :: 'o' :: rest => (grouped? (digitBelow 8) rest).map fun ds => (Digits.toNat 8 ds : Int)
  | '0' :: 'b' :: rest => (grouped? (digitBelow 2) rest).map fun ds => (Digits.toNat 2 ds : Int)
  | text =>
    let (negative, rest) := signed text
    (decimal? rest).map fun ds =>
      if negative then -(Digits.toNat 10 ds : Int) else Digits.toNat 10 ds

/-- A text cut at the first character with a property; the character is left out. -/
def cutAt (p : Char → Bool) (text : List Char) : List Char × Option (List Char) :=
  (text.takeWhile fun c => !p c, match text.dropWhile (fun c => !p c) with
    | [] => none
    | _ :: rest => some rest)

/-- Whether digits scaled by a power of ten are beyond the largest number of double precision. -/
def overflows (digits : List Nat) (power : Int) : Bool :=
  let digits := digits.dropWhile (· == 0)
  let length := digits.length + power
  let magnitude := Digits.toNat 10 digits
  if digits.isEmpty || length ≤ 308 then false
  else if 309 < length then true
  else if 0 ≤ power then (Double.ofRatio? false (magnitude * Nat.pow 10 power.toNat) 1).isNone
  else (Double.ofRatio? false magnitude (Nat.pow 10 (-power).toNat)).isNone

/-- The digits of a fraction; there are none without a point. -/
def fraction? : Option (List Char) → Option (List Nat)
  | none => some []
  | some text => grouped? Digits.decimalValue? text

/-- The exponent of a number; without a mark for it, it is zero. -/
def exponent? : Option (List Char) → Option Int
  | none => some 0
  | some text =>
    let (negative, rest) := signed text
    (grouped? Digits.decimalValue? rest).map fun ds =>
      if negative then -(Digits.toNat 10 ds : Int) else Digits.toNat 10 ds

/-- Whether a word is a floating point number that is not too large. -/
def isFloat (text : List Char) : Bool :=
  let rest := (signed text).2
  if rest = "inf".toList ∨ rest = "nan".toList then true
  else
    let (mantissa, exponent) := cutAt (fun c => c == 'e' || c == 'E') rest
    let (whole, part) := cutAt (· == '.') mantissa
    match decimal? whole, fraction? part, exponent? exponent with
    | some ds, some ps, some e =>
      (exponent.isSome || part.isSome) && !overflows (ds ++ ps) (e - ps.length)
    | _, _, _ => false

/-- Numbers of fixed width with separators between them. -/
def fixedNumbers (separator : Char) : List Nat → List Char → Option (List Nat × List Char)
  | [], text => some ([], text)
  | [w], text => do
    let ds ← Digits.all? Digits.decimalValue? (text.take w)
    if ds.length = w then return ([Digits.toNat 10 ds], text.drop w) else none
  | w :: ws, text => do
    let ds ← Digits.all? Digits.decimalValue? (text.take w)
    if ds.length ≠ w then none
    match text.drop w with
    | c :: rest =>
      if c = separator then do
        let (ns, rest) ← fixedNumbers separator ws rest
        return (Digits.toNat 10 ds :: ns, rest)
      else none
    | [] => none

/-- What follows a date at the front of a text. -/
def afterDate? (text : List Char) : Option (List Char) := do
  match ← fixedNumbers '-' [4, 2, 2] text with
  | ([y, m, d], rest) => (Date.mk? y m d).map fun _ => rest
  | _ => none

/-- What follows a fraction of a second, if there is one. -/
def afterFraction? (text : List Char) : Option (List Char) :=
  match text with
  | '.' :: rest =>
    match Digits.span Digits.decimalValue? rest with
    | ([], _) => none
    | (_, rest) => some rest
  | text => some text

/-- What follows a time of day at the front of a text; the seconds may be left out. -/
def afterTime? (text : List Char) : Option (List Char) := do
  match fixedNumbers ':' [2, 2, 2] text with
  | some ([h, m, s], rest) => if h < 24 ∧ m < 60 ∧ s ≤ 60 then afterFraction? rest else none
  | _ =>
    match ← fixedNumbers ':' [2, 2] text with
    | ([h, m], rest) => if h < 24 ∧ m < 60 then some rest else none
    | _ => none

/-- Whether a text is empty or an offset from universal time. -/
def isOffset (text : List Char) : Bool :=
  match text with
  | [] => true
  | ['Z'] => true
  | ['z'] => true
  | c :: rest =>
    (c == '+' || c == '-') && match fixedNumbers ':' [2, 2] rest with
      | some ([h, m], []) => h < 24 && m < 60
      | _ => false

/-- Whether a word is a date, a time or both. -/
def isMoment (text : List Char) : Bool :=
  match afterDate? text with
  | some [] => true
  | some (c :: rest) =>
    (c == 'T' || c == 't' || c == ' ') && match afterTime? rest with
      | some rest => isOffset rest
      | none => false
  | none => afterTime? text == some []

/-- The bounds of whole numbers. -/
def integerFits (n : Int) : Bool := -(Nat.pow 2 127) ≤ n && n < Nat.pow 2 128

/-- The scalar that a word stands for. -/
def Scalar.ofWord? (text : List Char) : Option Scalar :=
  if text = "true".toList then some (.bool true)
  else if text = "false".toList then some (.bool false)
  else
    match integer? text with
    | some n => if integerFits n then some (.integer n) else none
    | none =>
      if isFloat text then some .float
      else if isMoment text then some .moment
      else none

/-- Whether a character belongs to a word. -/
def isWordChar (c : Char) : Bool :=
  c.isAlphanum || c == '_' || c == '-' || c == '+' || c == '.' || c == ':'

/-- A word at the front of a text; a date takes a time behind a blank along. -/
def splitWord (text : List Char) : List Char × List Char :=
  let word := text.takeWhile isWordChar
  let rest := text.drop word.length
  match rest with
  | ' ' :: d :: more =>
    if d.isDigit ∧ afterDate? word = some [] then
      let time := (d :: more).takeWhile isWordChar
      (word ++ ' ' :: time, (d :: more).drop time.length)
    else (word, rest)
  | rest => (word, rest)

end PolicyProbe.Toml
