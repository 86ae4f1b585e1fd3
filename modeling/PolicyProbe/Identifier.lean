import PolicyProbe.Text.Digits

/-!
Identifiers of 128 bits. The text is 32 lower-case hexadecimal digits in five groups with hyphens
between them. Reading takes either case, the digits without hyphens, the hyphenated text in braces,
and the hyphenated text behind `urn:uuid:`.
-/
namespace PolicyProbe

/-- An identifier, as its hexadecimal digits. -/
structure Identifier where
  digits : List Nat
  valid : digits.length = 32 ∧ ∀ d ∈ digits, d < 16
  deriving DecidableEq

namespace Identifier

/-- The identifier of some digits. -/
def ofDigits? (digits : List Nat) : Option Identifier :=
  if h : digits.length = 32 ∧ ∀ d ∈ digits, d < 16 then some ⟨digits, h⟩ else none

/-- The identifier without any bit set. -/
def nil : Identifier := ⟨List.replicate 32 0, by decide⟩

instance : Inhabited Identifier := ⟨nil⟩

/-- The identifier whose digits are those of a number. -/
def ofNat (n : Nat) : Identifier where
  digits := (List.range 32).map fun i => n / Nat.pow 16 (31 - i) % 16
  valid := by
    refine ⟨by simp, fun d hd => ?_⟩
    obtain ⟨i, -, rfl⟩ := List.mem_map.1 hd
    exact Nat.mod_lt _ (by decide)

/-- The sizes of the groups of digits. -/
def groups : List Nat := [8, 4, 4, 4, 12]

/-- Characters cut into groups with hyphens between them. -/
def hyphenated : List Nat → List Char → List Char
  | [], text => text
  | [_], text => text
  | n :: ns, text => text.take n ++ '-' :: hyphenated ns (text.drop n)

/-- The characters of an identifier. -/
def chars (id : Identifier) : List Char := hyphenated groups (id.digits.map Nat.digitChar)

/-- The text of an identifier. -/
def text (id : Identifier) : String := String.ofList id.chars

/-- The digits without the hyphens that have to stand between the groups. -/
def unhyphenated? : List Nat → List Char → Option (List Char)
  | [], text => if text.isEmpty then some [] else none
  | [n], text => if text.length = n then some text else none
  | n :: ns, text =>
    match text.drop n with
    | '-' :: rest => do return text.take n ++ (← unhyphenated? ns rest)
    | _ => none

/-- The text inside an optional frame around the hyphenated form. -/
def unframed (text : List Char) : List Char :=
  match text with
  | '{' :: rest => if text.length = 38 ∧ rest.getLast? = some '}' then rest.dropLast else text
  | 'u' :: 'r' :: 'n' :: ':' :: 'u' :: 'u' :: 'i' :: 'd' :: ':' :: rest => rest
  | _ => text

/-- The identifier that a text stands for. -/
def ofChars? (text : List Char) : Option Identifier := do
  let digits ← if text.length = 32 then some text else unhyphenated? groups (unframed text)
  ofDigits? (← Digits.all? Digits.hexValue? digits)

/-- The identifier that a text stands for. -/
def ofText? (text : String) : Option Identifier := ofChars? text.toList

end Identifier

end PolicyProbe
