import PolicyProbe.Text.Digits

/-!
Quoted text: how characters are written between quotation marks, and how such a text is read. A
quotation mark, a backslash and the control characters are written as escapes. Reading goes in two
steps, since a text that is only skipped has to be well formed but need not mean characters:
`scan` finds the pieces up to the closing mark, `meaning` joins escaped surrogate pairs.
-/
namespace PolicyProbe.Quoted

/-- The escape or the character itself that stands for `c`. -/
def escape (c : Char) : List Char :=
  if c = '"' then ['\\', '"']
  else if c = '\\' then ['\\', '\\']
  else if c = '\x08' then ['\\', 'b']
  else if c = '\x0c' then ['\\', 'f']
  else if c = '\n' then ['\\', 'n']
  else if c = '\r' then ['\\', 'r']
  else if c = '\t' then ['\\', 't']
  else if c.toNat < 0x20 then '\\' :: 'u' :: Digits.padded 16 4 c.toNat
  else [c]

/-- A text between quotation marks. -/
def write (text : List Char) : List Char :=
  '"' :: text.flatMap escape ++ ['"']

/-- A piece of a quoted text: a character, or the code unit of a `\u` escape. -/
inductive Piece where
  | char (c : Char)
  | unit (n : Nat)
  deriving DecidableEq, Repr

/-- The character that a one-letter escape stands for. -/
def unescape? (c : Char) : Option Char :=
  if c = '"' ∨ c = '\\' ∨ c = '/' then some c
  else if c = 'b' then some '\x08'
  else if c = 'f' then some '\x0c'
  else if c = 'n' then some '\n'
  else if c = 'r' then some '\r'
  else if c = 't' then some '\t'
  else none

/-- The pieces up to the closing quotation mark and what follows it; none for a control character,
an unknown escape or a text that ends too early. -/
def scan : List Char → Option (List Piece × List Char)
  | [] => none
  | '"' :: rest => some ([], rest)
  | '\\' :: 'u' :: a :: b :: c :: d :: rest =>
    match Digits.all? Digits.hexValue? [a, b, c, d] with
    | none => none
    | some ds => (scan rest).map fun (ps, tail) => (.unit (Digits.toNat 16 ds) :: ps, tail)
  | '\\' :: e :: rest =>
    match unescape? e with
    | none => none
    | some c => (scan rest).map fun (ps, tail) => (.char c :: ps, tail)
  | c :: rest =>
    if c = '\\' ∨ c.toNat < 0x20 then none
    else (scan rest).map fun (ps, tail) => (.char c :: ps, tail)

/-- Whether a code unit opens a surrogate pair. -/
def isHigh (n : Nat) : Bool := 0xD800 ≤ n && n ≤ 0xDBFF

/-- Whether a code unit closes a surrogate pair. -/
def isLow (n : Nat) : Bool := 0xDC00 ≤ n && n ≤ 0xDFFF

/-- The characters that the pieces stand for; none when a surrogate stands alone. -/
def meaning : List Piece → Option (List Char)
  | [] => some []
  | .char c :: rest => (meaning rest).map (c :: ·)
  | .unit h :: .unit l :: rest =>
    if isHigh h then
      if isLow l then
        (meaning rest).map (Char.ofNat ((h - 0xD800) * 0x400 + (l - 0xDC00) + 0x10000) :: ·)
      else none
    else if isLow h then none
    else (meaning (.unit l :: rest)).map (Char.ofNat h :: ·)
  | .unit n :: rest =>
    if isHigh n || isLow n then none else (meaning rest).map (Char.ofNat n :: ·)

end PolicyProbe.Quoted
