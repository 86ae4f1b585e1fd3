/-!
Finite binary floating point numbers of double precision, as exact values `± m · 2^e` in the one
canonical form each has. Every operation is the exact rational result rounded to the nearest
number, a tie going to the even significand; a result beyond the largest number is no number.
-/
namespace PolicyProbe

/-- The pairs `m`, `e` that are the form of a number: `2^52 ≤ m < 2^53`, or the lowest exponent. -/
def Double.Canonical (m : Nat) (e : Int) : Prop :=
  (m < Nat.pow 2 52 ∧ e = -1074) ∨ (Nat.pow 2 52 ≤ m ∧ m < Nat.pow 2 53 ∧ -1074 ≤ e ∧ e ≤ 971)

instance (m : Nat) (e : Int) : Decidable (Double.Canonical m e) :=
  inferInstanceAs (Decidable (_ ∨ _))

/-- A finite number of double precision; zero has two signs. -/
structure Double where
  negative : Bool
  significand : Nat
  exponent : Int
  canonical : Double.Canonical significand exponent
  deriving DecidableEq

namespace Double

/-- Zero of the given sign. -/
def zero (negative : Bool) : Double :=
  ⟨negative, 0, -1074, Or.inl ⟨by decide, rfl⟩⟩

instance : Inhabited Double := ⟨zero false⟩

/-- The number of that form, if it is one. -/
def mk? (negative : Bool) (m : Nat) (e : Int) : Option Double :=
  if h : Canonical m e then some ⟨negative, m, e, h⟩ else none

/-- The quotient rounded to the nearest whole number, a tie to the even one. -/
def roundHalfEven (num den : Nat) : Nat :=
  let q := num / den
  let r := num % den
  if 2 * r < den then q else if den < 2 * r then q + 1 else q + q % 2

/-- `num / den` scaled by `2^(-e)`, rounded. -/
def roundAt (num den : Nat) (e : Int) : Nat :=
  if 0 ≤ e then roundHalfEven num (den * Nat.pow 2 e.toNat)
  else roundHalfEven (num * Nat.pow 2 (-e).toNat) den

/-- `num / den` scaled by `2^(-e)`, cut. -/
def floorAt (num den : Nat) (e : Int) : Nat :=
  if 0 ≤ e then num / (den * Nat.pow 2 e.toNat) else num * Nat.pow 2 (-e).toNat / den

/-- The number nearest to `num / den`. -/
def ofRatio? (negative : Bool) (num den : Nat) : Option Double :=
  if num = 0 then some (zero negative)
  else
    let guess : Int := max ((num.log2 : Int) - (den.log2 : Int) - 53) (-1074)
    let e := if Nat.pow 2 53 ≤ floorAt num den guess then guess + 1 else guess
    let m := roundAt num den e
    if m = Nat.pow 2 53 then mk? negative (Nat.pow 2 52) (e + 1) else mk? negative m e

/-- The number nearest to `m · 2^e`. -/
def ofScaled? (negative : Bool) (m : Nat) (e : Int) : Option Double :=
  if 0 ≤ e then ofRatio? negative (m * Nat.pow 2 e.toNat) 1
  else ofRatio? negative m (Nat.pow 2 (-e).toNat)

/-- The number nearest to a natural number. -/
def ofNat? (n : Nat) : Option Double := ofRatio? false n 1

/-- The number nearest to an integer. -/
def ofInt? (n : Int) : Option Double := ofRatio? (n < 0) n.natAbs 1

def isZero (x : Double) : Bool := x.significand == 0

def neg (x : Double) : Double := { x with negative := !x.negative }

/-- The magnitude as a ratio of natural numbers. -/
def ratio (x : Double) : Nat × Nat :=
  if 0 ≤ x.exponent then (x.significand * Nat.pow 2 x.exponent.toNat, 1)
  else (x.significand, Nat.pow 2 (-x.exponent).toNat)

/-- The product, rounded. -/
def mul? (x y : Double) : Option Double :=
  ofScaled? (x.negative != y.negative) (x.significand * y.significand) (x.exponent + y.exponent)

/-- The quotient, rounded; there is none by zero. -/
def div? (x y : Double) : Option Double :=
  if y.isZero then none
  else
    let (xn, xd) := x.ratio
    let (yn, yd) := y.ratio
    ofRatio? (x.negative != y.negative) (xn * yd) (xd * yn)

/-- The power of ten as a number. -/
def powTen? (k : Nat) : Option Double := ofNat? (Nat.pow 10 k)

/-- Division by `10^k`, a division by `10^308` at a time once `k` is larger than that. -/
def scaleDown (x : Double) (k : Nat) : Option Double :=
  if k ≤ 308 then do x.div? (← powTen? k)
  else if x.isZero then some x
  else do scaleDown (← x.div? (← powTen? 308)) (k - 308)
termination_by k

/-- Multiplication by `10^k`: a power beyond the largest number leaves only zero. -/
def scaleUp (x : Double) (k : Nat) : Option Double :=
  if k ≤ 308 then do x.mul? (← powTen? k)
  else if x.isZero then some x
  else none

/-- The value of `significand · 10^k`, rounded once for the significand and once for the scaling. -/
def ofDecimal? (negative : Bool) (significand : Nat) (k : Int) : Option Double := do
  let x ← ofNat? significand
  let y ← if 0 ≤ k then x.scaleUp k.toNat else x.scaleDown (-k).toNat
  return if negative then y.neg else y

end Double

end PolicyProbe
