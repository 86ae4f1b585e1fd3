import PolicyProbe.Instant
import PolicyProbe.Text.Blank
import PolicyProbe.Text.Digits

/-!
The texts of instants. Writing gives universal time with a `Z` and as many groups of three digits
of the fraction as are needed, or exactly six; a year outside `0000` to `9999` has a sign. There
are two readers. The strict one takes a date, a separator, a time and an offset with digits and
signs in their exact places. The free one lets blanks stand before numbers and signs, takes
shorter numbers and signed years, and offsets without a colon.
-/
namespace PolicyProbe.Instant
open Blank

/-! ## Writing -/

/-- The year: four digits, or a sign and at least four outside the four digit years. -/
def yearText (year : Int) : List Char :=
  if 0 ≤ year ∧ year ≤ 9999 then Digits.padded 10 4 year.toNat
  else (if year < 0 then '-' else '+') :: Digits.padded 10 4 year.natAbs

/-- Date and time up to the second; a leap second is the sixtieth. -/
def clockText (t : Instant) : List Char :=
  let leap := if secondNanos ≤ t.nanos then 1 else 0
  yearText t.date.year ++ '-' :: Digits.padded 10 2 t.date.month ++
    '-' :: Digits.padded 10 2 t.date.day ++ 'T' :: Digits.padded 10 2 (t.second / 3600) ++
    ':' :: Digits.padded 10 2 (t.second / 60 % 60) ++
    ':' :: Digits.padded 10 2 (t.second % 60 + leap)

/-- The fraction of the second, a leap second counted from its start. -/
def fraction (t : Instant) : Nat := t.nanos % secondNanos

/-- The shortest of no, three, six or nine digits that holds the fraction. -/
def fractionText (n : Nat) : List Char :=
  if n = 0 then []
  else if n % 1000000 = 0 then '.' :: Digits.padded 10 3 (n / 1000000)
  else if n % 1000 = 0 then '.' :: Digits.padded 10 6 (n / 1000)
  else '.' :: Digits.padded 10 9 n

/-- The characters of an instant. -/
def chars (t : Instant) : List Char := t.clockText ++ fractionText t.fraction ++ ['Z']

/-- The text of an instant. -/
def text (t : Instant) : String := String.ofList t.chars

/-- The characters of an instant with six digits of the fraction, the others cut. -/
def microChars (t : Instant) : List Char :=
  t.clockText ++ '.' :: Digits.padded 10 6 (t.fraction / 1000) ++ ['Z']

/-- The text of an instant with six digits of the fraction, the others cut. -/
def microText (t : Instant) : String := String.ofList t.microChars

/-! ## Reading -/

/-- Between `least` and `most` digits at the front of a text, as many as there are. -/
def readNumber (least most : Nat) (text : List Char) : Option (Nat × List Char) :=
  let ds := (Digits.span Digits.decimalValue? (text.take most)).1
  if ds.length < least then none else some (Digits.toNat 10 ds, text.drop ds.length)

/-- What follows a character that has to come first. -/
def expect (c : Char) : List Char → Option (List Char)
  | d :: rest => if c = d then some rest else none
  | [] => none

/-- The fraction behind a point: nine digits count, further ones are passed over. -/
def readFraction (text : List Char) : Option (Nat × List Char) :=
  match text with
  | '.' :: rest =>
    match Digits.span Digits.decimalValue? rest with
    | ([], _) => none
    | (ds, rest) =>
      let kept := ds.take 9
      some (Digits.toNat 10 kept * Nat.pow 10 (9 - kept.length), rest)
  | text => some (0, text)

/-- The sign of an offset: plus, a hyphen or the minus sign of mathematics. -/
def readSign : List Char → Option (Bool × List Char)
  | '+' :: rest => some (false, rest)
  | '-' :: rest => some (true, rest)
  | c :: rest => if c.toNat = 0x2212 then some (true, rest) else none
  | [] => none

/-- An offset in minutes: a `Z`, or a sign, two digits, what `between` takes away, and two digits
below sixty. -/
def readOffset (between : List Char → Option (List Char)) (text : List Char) :
    Option (Int × List Char) :=
  match text with
  | 'Z' :: rest => some (0, rest)
  | 'z' :: rest => some (0, rest)
  | text => do
    let (negative, rest) ← readSign text
    let (hours, rest) ← readNumber 2 2 rest
    let rest ← between rest
    let (minutes, rest) ← readNumber 2 2 rest
    if 60 ≤ minutes then none
    let total : Int := (hours * 60 + minutes : Nat)
    return (if negative then -total else total, rest)

/-- The parts of a date and time as they were read. -/
structure Parts where
  year : Int
  month : Nat
  day : Nat
  hour : Nat
  minute : Nat
  second : Nat
  nanos : Nat
  offset : Int

/-- The instant of some parts: all in range, the offset less than a day, and second sixty the leap
second behind the fifty-ninth. -/
def Parts.instant? (p : Parts) : Option Instant := do
  if 24 ≤ p.hour ∨ 60 ≤ p.minute ∨ 60 < p.second ∨ 1440 ≤ p.offset.natAbs then none
  let date ← Date.mk? p.year p.month p.day
  let (second, nanos) := if p.second = 60 then (59, p.nanos + secondNanos) else (p.second, p.nanos)
  ofLocal? date (p.hour * 3600 + p.minute * 60 + second) nanos p.offset

/-- The separator between date and time. -/
def readSeparator : List Char → Option (List Char)
  | c :: rest => if c = 'T' ∨ c = 't' ∨ c = ' ' then some rest else none
  | [] => none

/-- The instant that a text in the exact form stands for. -/
def ofExact? (text : List Char) : Option Instant := do
  let (year, text) ← readNumber 4 4 text
  let (month, text) ← readNumber 2 2 (← expect '-' text)
  let (day, text) ← readNumber 2 2 (← expect '-' text)
  let (hour, text) ← readNumber 2 2 (← readSeparator text)
  let (minute, text) ← readNumber 2 2 (← expect ':' text)
  let (second, text) ← readNumber 2 2 (← expect ':' text)
  let (nanos, text) ← readFraction text
  let (offset, text) ← readOffset (expect ':') text
  if text.isEmpty then Parts.instant? ⟨year, month, day, hour, minute, second, nanos, offset⟩
  else none

/-- A year: up to four digits, or any number of them behind a sign. -/
def readYear (text : List Char) : Option (Int × List Char) :=
  match text with
  | '-' :: rest => do
    let (n, rest) ← readNumber 1 rest.length rest
    return (-(n : Int), rest)
  | '+' :: rest => do
    let (n, rest) ← readNumber 1 rest.length rest
    return ((n : Int), rest)
  | text => do
    let (n, rest) ← readNumber 1 4 text
    return ((n : Int), rest)

/-- A number of up to two digits behind blanks. -/
def readPair (text : List Char) : Option (Nat × List Char) := readNumber 1 2 (trimmed text)

/-- The text without colons and blanks in front. -/
def skipColons (text : List Char) : List Char := text.dropWhile fun c => c == ':' || isSpace c

/-- An offset in the free form: the word for universal time in any case, or an offset with or
without a colon. -/
def readFreeOffset (text : List Char) : Option (Int × List Char) :=
  if (text.take 3).map Char.toUpper = ['U', 'T', 'C'] then some (0, text.drop 3)
  else readOffset (fun rest => some (skipColons rest)) text

/-- The instant that a text in the free form stands for. -/
def ofFree? (text : List Char) : Option Instant := do
  let (year, text) ← readYear (trimmed text)
  let (month, text) ← readPair (← expect '-' (trimmed text))
  let (day, text) ← readPair (← expect '-' (trimmed text))
  let (hour, text) ← readPair (← readSeparator text)
  let (minute, text) ← readPair (← expect ':' (trimmed text))
  let (second, text) ← readPair (← expect ':' (trimmed text))
  let (nanos, text) ← readFraction text
  let (offset, text) ← readFreeOffset (trimmed text)
  if (trimmed text).isEmpty then
    Parts.instant? ⟨year, month, day, hour, minute, second, nanos, offset⟩
  else none

/-- The instant that a text in the free form stands for. -/
def ofText? (text : String) : Option Instant := ofFree? text.toList

end PolicyProbe.Instant
