import PolicyProbe.Text.Digits

/-!
Internet addresses of both versions, their order and their texts. An address of version four is
four octets written in decimal. One of version six is eight groups written in hexadecimal, the
first longest run of at least two zero groups as two colons, and an address that carries a version
four address in its last groups behind `::ffff:` in the decimal form of the latter. Reading accepts
any run of zeros, upper case and leading zeros in groups, but no leading zeros in octets.
-/
namespace PolicyProbe

/-- Whether a list has the length of an address part and all its numbers are below the bound. -/
def Address.Parts (length bound : Nat) (xs : List Nat) : Prop :=
  xs.length = length ∧ ∀ x ∈ xs, x < bound

instance (length bound : Nat) (xs : List Nat) : Decidable (Address.Parts length bound xs) :=
  inferInstanceAs (Decidable (_ ∧ _))

/-- An internet address. The same number in the two versions is two addresses. -/
inductive Address where
  | v4 (octets : List Nat) (valid : Address.Parts 4 256 octets)
  | v6 (groups : List Nat) (valid : Address.Parts 8 65536 groups)
  deriving DecidableEq

namespace Address

/-- The address of four octets. -/
def ofOctets? (xs : List Nat) : Option Address :=
  if h : Parts 4 256 xs then some (.v4 xs h) else none

/-- The address of eight groups. -/
def ofGroups? (xs : List Nat) : Option Address :=
  if h : Parts 8 65536 xs then some (.v6 xs h) else none

/-- The address of this host on its own loop. -/
def loopback : Address := .v4 [127, 0, 0, 1] (by decide)

/-- The address that stands for all addresses of a host. -/
def unspecified : Address := .v4 [0, 0, 0, 0] (by decide)

instance : Inhabited Address := ⟨loopback⟩

/-- Whether one list of numbers comes before another of the same length. -/
def before : List Nat → List Nat → Bool
  | x :: xs, y :: ys => x < y || (x == y && before xs ys)
  | _, _ => false

/-- The order of addresses: version four first, then by value. -/
def lt : Address → Address → Bool
  | .v4 xs _, .v4 ys _ => before xs ys
  | .v4 _ _, .v6 _ _ => true
  | .v6 _ _, .v4 _ _ => false
  | .v6 xs _, .v6 ys _ => before xs ys

/-! ## Writing -/

/-- Parts with a separator between them. -/
def joined (separator : Char) : List (List Char) → List Char
  | [] => []
  | [x] => x
  | x :: xs => x ++ separator :: joined separator xs

/-- The decimal text of octets. -/
def octetText (xs : List Nat) : List Char := joined '.' (xs.map Digits.decimal)

/-- The hexadecimal text of groups. -/
def groupText (xs : List Nat) : List Char := joined ':' (xs.map (Digits.chars 16))

/-- The number of zeros at the front. -/
def zeros (xs : List Nat) : Nat := (xs.takeWhile (· == 0)).length

/-- Start and length of the first longest run of zeros; `start` is the position of the list. -/
def longestRun (start : Nat) : List Nat → Nat × Nat
  | [] => (start, 0)
  | x :: xs =>
    let here := zeros (x :: xs)
    let (s, n) := longestRun (start + 1) xs
    if n ≤ here then (start, here) else (s, n)

/-- The text of groups with the first longest run of at least two zeros left out. -/
def compressed (xs : List Nat) : List Char :=
  let (s, n) := longestRun 0 xs
  if n < 2 then groupText xs
  else groupText (xs.take s) ++ ':' :: ':' :: groupText (xs.drop (s + n))

/-- The octets of two groups. -/
def octetsOf (hi lo : Nat) : List Nat := [hi / 256, hi % 256, lo / 256, lo % 256]

/-- The text of eight groups. -/
def sixText : List Nat → List Char
  | [0, 0, 0, 0, 0, 65535, hi, lo] => "::ffff:".toList ++ octetText (octetsOf hi lo)
  | xs => compressed xs

/-- The characters of an address. -/
def chars : Address → List Char
  | .v4 xs _ => octetText xs
  | .v6 xs _ => sixText xs

/-- The text of an address. -/
def text (a : Address) : String := String.ofList a.chars

/-! ## Reading -/

/-- One octet: up to three digits without a leading zero, below 256. -/
def readOctet (text : List Char) : Option (Nat × List Char) :=
  match Digits.span Digits.decimalValue? text with
  | ([], _) => none
  | ([d], rest) => some (d, rest)
  | (d :: ds, rest) =>
    let n := Digits.toNat 10 (d :: ds)
    if d = 0 ∨ 3 < (d :: ds).length ∨ 256 ≤ n then none else some (n, rest)

/-- Further octets, each behind a point. -/
def readOctets : Nat → List Char → Option (List Nat × List Char)
  | 0, text => some ([], text)
  | n + 1, text =>
    match text with
    | '.' :: rest => do
      let (x, rest) ← readOctet rest
      let (xs, rest) ← readOctets n rest
      return (x :: xs, rest)
    | _ => none

/-- Four octets at the front of a text. -/
def readFour (text : List Char) : Option (List Nat × List Char) := do
  let (x, rest) ← readOctet text
  let (xs, rest) ← readOctets 3 rest
  return (x :: xs, rest)

/-- One group: up to four hexadecimal digits. -/
def readGroup (text : List Char) : Option (Nat × List Char) :=
  match Digits.span Digits.hexValue? text with
  | ([], _) => none
  | (ds, rest) => if 4 < ds.length then none else some (Digits.toNat 16 ds, rest)

/-- What follows a colon, or the text itself where none is due. -/
def afterColon? (due : Bool) (text : List Char) : Option (List Char) :=
  if due then
    match text with
    | ':' :: rest => some rest
    | _ => none
  else some text

/-- Up to `room` groups with colons between them, the last two possibly as four octets; `due` says
that a colon has to come first. The answer says whether octets ended it. -/
def readGroups : Nat → Bool → List Char → List Nat × Bool × List Char
  | 0, _, text => ([], false, text)
  | room + 1, due, text =>
    match afterColon? due text with
    | none => ([], false, text)
    | some inner =>
      match (if room = 0 then none else readFour inner) with
      | some ([a, b, c, d], rest) => ([a * 256 + b, c * 256 + d], true, rest)
      | _ =>
        match readGroup inner with
        | none => ([], false, text)
        | some (g, rest) =>
          let (gs, octets, rest) := readGroups room true rest
          (g :: gs, octets, rest)

/-- Eight groups, or fewer around two colons that stand for at least one zero group. -/
def readEight (text : List Char) : Option (List Nat × List Char) :=
  let (head, octets, rest) := readGroups 8 false text
  if head.length = 8 then some (head, rest)
  else if octets then none
  else
    match rest with
    | ':' :: ':' :: rest =>
      let (tail, _, rest) := readGroups (7 - head.length) false rest
      some (head ++ List.replicate (8 - head.length - tail.length) 0 ++ tail, rest)
    | _ => none

/-- The address that a text stands for. -/
def ofChars? (text : List Char) : Option Address :=
  match readFour text with
  | some (xs, []) => ofOctets? xs
  | _ =>
    match readEight text with
    | some (xs, []) => ofGroups? xs
    | _ => none

/-- The address that a text stands for. -/
def ofText? (text : String) : Option Address := ofChars? text.toList

end Address

end PolicyProbe
