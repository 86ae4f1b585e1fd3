import PolicyProbe.Decimal.Double
import PolicyProbe.Text.Digits

/-!
Number texts: a sign, whole digits without a leading zero, and optional digits after a point and
an optional exponent. `read` takes one off the front of a text. What it stands for is either a whole
number (when there is neither a point nor an exponent, and it fits 64 bits) or a floating point
number, whose significand is made of the leading digits that fit 64 bits.
-/
namespace PolicyProbe

/-- A number as it is written. -/
structure Numeral where
  negative : Bool
  whole : List Nat
  fraction : Option (List Nat)
  exponent : Option (Bool × List Nat)
  deriving DecidableEq, Repr

namespace Numeral

/-- The digits after a decimal point, if one follows. -/
def readFraction : List Char → Option (Option (List Nat) × List Char)
  | '.' :: rest =>
    match Digits.span Digits.decimalValue? rest with
    | ([], _) => none
    | (ds, tail) => some (some ds, tail)
  | text => some (none, text)

/-- The sign of an exponent; no sign is a plus. -/
def readSign : List Char → Bool × List Char
  | '-' :: rest => (true, rest)
  | '+' :: rest => (false, rest)
  | text => (false, text)

/-- The exponent, if a letter announces one. -/
def readExponent (text : List Char) : Option (Option (Bool × List Nat) × List Char) :=
  match text with
  | c :: rest =>
    if c = 'e' ∨ c = 'E' then
      let (sign, rest) := readSign rest
      match Digits.span Digits.decimalValue? rest with
      | ([], _) => none
      | (ds, tail) => some (some (sign, ds), tail)
    else some (none, text)
  | [] => some (none, [])

/-- The whole digits: a single zero, or digits that do not start with one. -/
def readWhole (text : List Char) : Option (List Nat × List Char) :=
  match Digits.span Digits.decimalValue? text with
  | ([], _) => none
  | ([d], tail) => some ([d], tail)
  | (d :: ds, tail) => if d = 0 then none else some (d :: ds, tail)

/-- A number at the front of a text, and what follows it. -/
def read (text : List Char) : Option (Numeral × List Char) := do
  let (negative, text) := match text with
    | '-' :: rest => (true, rest)
    | text => (false, text)
  let (whole, text) ← readWhole text
  let (fraction, text) ← readFraction text
  let (exponent, text) ← readExponent text
  return (⟨negative, whole, fraction, exponent⟩, text)

/-- The bound of a 64 bit word. -/
def wordBound : Nat := Nat.pow 2 64

/-- A significand with the power of ten that goes with it. -/
structure Scaled where
  significand : Nat
  power : Int
  full : Bool

/-- One more digit of a whole part: kept while the significand fits, later only counted. -/
def Scaled.whole (s : Scaled) (d : Nat) : Scaled :=
  if s.full ∨ wordBound ≤ s.significand * 10 + d then { s with power := s.power + 1, full := true }
  else { s with significand := s.significand * 10 + d }

/-- One more digit of a fraction: kept while the significand fits, later dropped. -/
def Scaled.part (s : Scaled) (d : Nat) : Scaled :=
  if s.full ∨ wordBound ≤ s.significand * 10 + d then { s with full := true }
  else { s with significand := s.significand * 10 + d, power := s.power - 1 }

/-- The significand and the power of ten that the digits stand for; the fraction gets its own
chance to fill the significand. -/
def scaled (n : Numeral) : Scaled :=
  let s := n.whole.foldl Scaled.whole ⟨0, 0, false⟩
  (n.fraction.getD []).foldl Scaled.part { s with full := false }

/-- The largest exponent that is kept as a number. -/
def exponentBound : Nat := Nat.pow 2 31 - 1

/-- The floating point number that a text stands for; none beyond the largest. -/
def double? (n : Numeral) : Option Double :=
  let s := n.scaled
  match n.exponent with
  | none => Double.ofDecimal? n.negative s.significand s.power
  | some (down, ds) =>
    let e := Digits.toNat 10 ds
    if exponentBound < e then
      if s.significand ≠ 0 ∧ !down then none else some (Double.zero n.negative)
    else Double.ofDecimal? n.negative s.significand (if down then s.power - e else s.power + e)

/-- The whole number that a text stands for, if it is written as one and fits 64 bits; a zero with
a minus sign is no whole number. -/
def int? (n : Numeral) : Option Int :=
  if n.fraction.isSome ∨ n.exponent.isSome then none
  else
    let v := Digits.toNat 10 n.whole
    if n.negative then
      if v = 0 ∨ Nat.pow 2 63 < v then none else some (-(v : Int))
    else if v < wordBound then some (v : Int) else none

/-- Whether the number is within range, read as whole or as floating point. -/
def inRange (n : Numeral) : Bool := n.int?.isSome || n.double?.isSome

end Numeral

end PolicyProbe
