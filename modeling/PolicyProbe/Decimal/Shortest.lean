import PolicyProbe.Decimal.Double
import PolicyProbe.Text.Digits

/-!
The shortest decimal text of a number: the fewest digits that are nearer to it than to any other
number, and of those the nearest. Numbers from `10^-5` up to `10^16` are written positionally with
at least one digit after the point, the others with an exponent.
-/
namespace PolicyProbe.Double

/-- A decimal `digits · 10^exponent`. -/
structure Decimal where
  digits : Nat
  exponent : Int
  deriving DecidableEq, Repr

/-- The open or closed interval of values that round to a number, all over the denominator `den`;
the number itself is `mid / den`. -/
structure Neighbourhood where
  low : Nat
  mid : Nat
  high : Nat
  den : Nat
  closed : Bool

/-- The values that round to `x`: half way to its neighbours, the ends included when `x` is even. -/
def neighbourhood (x : Double) : Neighbourhood :=
  let (n, d) := x.ratio
  let step := if 0 ≤ x.exponent then Nat.pow 2 x.exponent.toNat else 1
  let narrow := x.significand == Nat.pow 2 52 && -1074 < x.exponent
  { low := 4 * n - (if narrow then step else 2 * step)
    mid := 4 * n
    high := 4 * n + 2 * step
    den := 4 * d
    closed := x.significand % 2 == 0 }

/-- Whether `digits · 10^k` lies in the neighbourhood. -/
def Neighbourhood.holds (b : Neighbourhood) (digits : Nat) (k : Int) : Bool :=
  let v := if 0 ≤ k then digits * Nat.pow 10 k.toNat * b.den else digits * b.den
  let unit := if 0 ≤ k then 1 else Nat.pow 10 (-k).toNat
  if b.closed then b.low * unit ≤ v && v ≤ b.high * unit
  else b.low * unit < v && v < b.high * unit

/-- The largest multiple of `10^k` not above the number, in units of `10^k`. -/
def Neighbourhood.floor (b : Neighbourhood) (k : Int) : Nat :=
  if 0 ≤ k then b.mid / (b.den * Nat.pow 10 k.toNat) else b.mid * Nat.pow 10 (-k).toNat / b.den

/-- Whether `floor + 1` is nearer than `floor`, or as near and even. -/
def Neighbourhood.upper (b : Neighbourhood) (k : Int) : Bool :=
  let (num, den) :=
    if 0 ≤ k then (b.mid, b.den * Nat.pow 10 k.toNat) else (b.mid * Nat.pow 10 (-k).toNat, b.den)
  let r := num % den
  den < 2 * r || (den == 2 * r && num / den % 2 == 1)

/-- The nearest multiple of `10^k` that lies in the neighbourhood. -/
def Neighbourhood.onGrid? (b : Neighbourhood) (k : Int) : Option Nat :=
  let lo := b.floor k
  let first := if b.upper k then lo + 1 else lo
  let second := if b.upper k then lo else lo + 1
  if b.holds first k then some first else if b.holds second k then some second else none

/-- The decimal exponent of the leading digit of `num / den`, for a positive ratio. -/
def leading (num den : Nat) : Int :=
  let guess : Int := ((Digits.decimal num).length : Int) - ((Digits.decimal den).length : Int)
  let below :=
    if 0 ≤ guess then num < den * Nat.pow 10 guess.toNat else num * Nat.pow 10 (-guess).toNat < den
  if below then guess - 1 else guess

/-- The first grid with a hit, from the coarsest on; `fuel` more grids are tried. -/
def Neighbourhood.search (b : Neighbourhood) (k : Int) : Nat → Decimal
  | 0 => ⟨b.floor k, k⟩
  | fuel + 1 =>
    match b.onGrid? k with
    | some digits => ⟨digits, k⟩
    | none => b.search (k - 1) fuel

/-- The shortest decimal that reads back as the magnitude of `x`. -/
def shortest (x : Double) : Decimal :=
  if x.isZero then ⟨0, 0⟩
  else
    let b := x.neighbourhood
    b.search (leading b.mid b.den) 17

/-- The digits without trailing zeros, with the exponent of the last. -/
def Decimal.trim (d : Decimal) : List Char × Int :=
  let text := Digits.decimal d.digits
  let kept := (text.reverse.dropWhile (· == '0')).reverse
  if kept.isEmpty then (['0'], 0)
  else (kept, d.exponent + ((text.length - kept.length : Nat) : Int))

/-- Digits with the point after the first `whole` of them. -/
def positional (digits : List Char) (whole : Int) : List Char :=
  if whole ≤ 0 then '0' :: '.' :: List.replicate (-whole).toNat '0' ++ digits
  else
    let w := whole.toNat
    if digits.length ≤ w then digits ++ List.replicate (w - digits.length) '0' ++ ['.', '0']
    else digits.take w ++ '.' :: digits.drop w

/-- Digits with the point after the first, and the exponent with its sign. -/
def scientific (digits : List Char) (e : Int) : List Char :=
  let tail := match digits with
    | [] => []
    | [d] => [d]
    | d :: ds => d :: '.' :: ds
  tail ++ 'e' :: (if e < 0 then '-' else '+') :: Digits.decimal e.natAbs

/-- The text of a number: positional from `10^-5` up to `10^16`, else with an exponent. -/
def text (x : Double) : List Char :=
  let (digits, last) := x.shortest.trim
  let e : Int := last + (digits.length : Int) - 1
  let magnitude := if -5 ≤ e ∧ e < 16 then positional digits (e + 1) else scientific digits e
  if x.negative then '-' :: magnitude else magnitude

/-- The text with exactly `places` digits after the point, rounded from the exact value, a tie to
the even digit. -/
def fixed (x : Double) (places : Nat) : List Char :=
  let (num, den) := x.ratio
  let scaled := Digits.padded 10 (places + 1) (roundHalfEven (num * Nat.pow 10 places) den)
  let whole := scaled.take (scaled.length - places)
  let part := scaled.drop (scaled.length - places)
  (if x.negative then ['-'] else []) ++ whole ++ (if places = 0 then [] else '.' :: part)

end PolicyProbe.Double
