import PolicyProbe.Decimal.Shortest
import PolicyProbe.Json.Numeral

/-!
Values in the columns of a table. A column prefers one kind of value: `asText`, `asWhole` and
`asReal` say what it keeps of any value. A column of numbers keeps the number that a text is
written for, and keeps a text that is no number as it is.
-/
namespace PolicyProbe

/-- A value in a column. -/
inductive Cell where
  | whole (value : Int)
  | real (value : Double)
  | text (value : String)
  deriving DecidableEq

namespace Cell

/-- A truth value as a number. -/
def ofBool (b : Bool) : Cell := .whole (if b then 1 else 0)

/-- A number as it is written. -/
def ofNumeral? (n : Numeral) : Option Cell :=
  match n.int? with
  | some v => some (.whole v)
  | none => n.double?.map .real

/-- The number that a text is written for, or else the text. -/
def parsed (text : String) : Cell :=
  match Numeral.read text.toList with
  | some (n, []) => (ofNumeral? n).getD (.text text)
  | _ => .text text

/-- The whole number that a floating point number is, if it fits 64 bits. -/
def wholeOf? (x : Double) : Option Int :=
  let (num, den) := x.ratio
  if num % den = 0 ∧ num / den < Nat.pow 2 63 then
    some (if x.negative then -(num / den : Int) else num / den)
  else none

/-- What a column of texts keeps. -/
def asText : Cell → String
  | .whole v => if v < 0 then "-" ++ Digits.text v.natAbs else Digits.text v.natAbs
  | .real x => String.ofList x.text
  | .text s => s

/-- What a column of whole numbers keeps of a number. -/
def narrowed : Cell → Cell
  | .real x => (wholeOf? x).elim (.real x) .whole
  | c => c

/-- What a column of floating point numbers keeps of a number: a zero has no sign. -/
def widened : Cell → Cell
  | .whole v => ((Double.ofInt? v).elim (.whole v) .real)
  | .real x => .real (if x.significand = 0 then Double.zero false else x)
  | c => c

/-- What a column of whole numbers keeps. -/
def asWhole : Cell → Cell
  | .text s => (parsed s).narrowed
  | c => c.narrowed

/-- What a column of floating point numbers keeps. -/
def asReal : Cell → Cell
  | .text s => (parsed s).widened
  | c => c.widened

/-- The whole number, if it is one. -/
def whole? : Cell → Option Int
  | .whole v => some v
  | _ => none

/-- The floating point number, if it is one. -/
def real? : Cell → Option Double
  | .real x => some x
  | _ => none

end Cell

end PolicyProbe
