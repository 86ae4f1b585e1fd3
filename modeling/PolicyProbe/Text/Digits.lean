/-!
Natural numbers as digits in a base, most significant digit first, and the characters of those
digits. `ofNat` writes a number, `toNat` reads it back, and `padded` writes it to a fixed width.
-/
namespace PolicyProbe.Digits

/-- The digits of `n` in `base`, most significant first; a base below two is read as unary
"itself". -/
def ofNat (base n : Nat) : List Nat :=
  if n < base ∨ base < 2 then [n] else ofNat base (n / base) ++ [n % base]
termination_by n
decreasing_by
  rename_i h
  exact Nat.div_lt_self (by omega) (by omega)

/-- The number that a list of digits stands for. -/
def toNat (base : Nat) (digits : List Nat) : Nat :=
  digits.foldl (fun n d => n * base + d) 0

/-- The lower-case characters of the digits of `n`. -/
def chars (base n : Nat) : List Char :=
  (ofNat base n).map Nat.digitChar

/-- The decimal characters of `n`. -/
def decimal (n : Nat) : List Char := chars 10 n

/-- The decimal text of `n`. -/
def text (n : Nat) : String := String.ofList (decimal n)

/-- The characters of `n` with zeros in front up to `width`. -/
def padded (base width n : Nat) : List Char :=
  let text := chars base n
  List.replicate (width - text.length) '0' ++ text

/-- The value of a decimal digit. -/
def decimalValue? (c : Char) : Option Nat :=
  if '0' ≤ c ∧ c ≤ '9' then some (c.toNat - '0'.toNat) else none

/-- The value of a hexadecimal digit of either case. -/
def hexValue? (c : Char) : Option Nat :=
  if '0' ≤ c ∧ c ≤ '9' then some (c.toNat - '0'.toNat)
  else if 'a' ≤ c ∧ c ≤ 'f' then some (c.toNat - 'a'.toNat + 10)
  else if 'A' ≤ c ∧ c ≤ 'F' then some (c.toNat - 'A'.toNat + 10)
  else none

/-- The longest run of digits at the front of a text, by value, and what follows it. -/
def span (value? : Char → Option Nat) : List Char → List Nat × List Char
  | [] => ([], [])
  | c :: rest =>
    match value? c with
    | none => ([], c :: rest)
    | some d => let (ds, tail) := span value? rest; (d :: ds, tail)

/-- The digits of a whole text, if it holds nothing else. -/
def all? (value? : Char → Option Nat) (text : List Char) : Option (List Nat) :=
  text.mapM value?

end PolicyProbe.Digits
