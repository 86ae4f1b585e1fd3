import PolicyProbe.Text.Digits

/-!
Lines of bytes. A line ends at a line feed; the line feed and a carriage return right before it are
not part of the line. Bytes behind the last line feed are a line as well, and they keep a carriage
return at their end. A line is a text when its bytes are UTF-8.
-/
namespace PolicyProbe.Lines

/-- Line feed and carriage return. -/
def lineFeed : UInt8 := 10

def carriageReturn : UInt8 := 13

/-- A line without the carriage return at its end. -/
def trimReturn (line : List UInt8) : List UInt8 :=
  if line.getLast? = some carriageReturn then line.dropLast else line

/-- The bytes up to the first line feed and the bytes behind it, or none if there is no line feed.
-/
def cut? : List UInt8 → Option (List UInt8 × List UInt8)
  | [] => none
  | b :: rest =>
    if b = lineFeed then some ([], rest) else (cut? rest).map fun (line, rest) => (b :: line, rest)

theorem cut?_length {bytes line rest : List UInt8} (h : cut? bytes = some (line, rest)) :
    rest.length < bytes.length := by
  induction bytes generalizing line with
  | nil => simp [cut?] at h
  | cons b bytes ih =>
    unfold cut? at h
    split at h
    · cases h
      simp
    · obtain ⟨⟨l, r⟩, hc, he⟩ := Option.map_eq_some_iff.1 h
      cases he
      exact Nat.lt_succ_of_lt (ih hc)

/-- All lines. -/
def all (bytes : List UInt8) : List (List UInt8) :=
  match h : cut? bytes with
  | some (line, rest) =>
    have := cut?_length h
    trimReturn line :: all rest
  | none => if bytes.isEmpty then [] else [bytes]
termination_by bytes.length

/-- The text of a line, if it is one. -/
def text? (line : List UInt8) : Option String := String.fromUTF8? ⟨line.toArray⟩

/-- The bytes of a text and a line feed. -/
def ofText (text : String) : List UInt8 := text.toUTF8.toList ++ [lineFeed]

/-! ## Faults of encoding -/

/-- Whether a byte continues a character. -/
def continues (b : UInt8) : Bool := 0x80 ≤ b && b ≤ 0xBF

/-- The bytes that may follow a first byte: the range of the second byte and the number of further
continuing bytes. -/
def tail? (b : UInt8) : Option (UInt8 × UInt8 × Nat) :=
  if 0xC2 ≤ b && b ≤ 0xDF then some (0x80, 0xBF, 0)
  else if b == 0xE0 then some (0xA0, 0xBF, 1)
  else if b == 0xED then some (0x80, 0x9F, 1)
  else if 0xE1 ≤ b && b ≤ 0xEF then some (0x80, 0xBF, 1)
  else if b == 0xF0 then some (0x90, 0xBF, 2)
  else if 0xF1 ≤ b && b ≤ 0xF3 then some (0x80, 0xBF, 2)
  else if b == 0xF4 then some (0x80, 0x8F, 2)
  else none

/-- How many of the next bytes continue a character that needs `more` of them, and whether the bytes
ended before it was complete. -/
def follow : Nat → List UInt8 → Nat × Bool
  | 0, _ => (0, false)
  | _ + 1, [] => (0, true)
  | more + 1, b :: rest =>
    if continues b then
      let (n, ended) := follow more rest
      (n + 1, ended)
    else (0, false)

/-- The length of the first character, or the number of bytes at fault, none when the bytes ended.
-/
def head : List UInt8 → Except (Option Nat) Nat
  | [] => .error none
  | b :: rest =>
    if b < 0x80 then .ok 1
    else
      match tail? b, rest with
      | none, _ => .error (some 1)
      | some _, [] => .error none
      | some (low, high, more), c :: rest =>
        if low ≤ c && c ≤ high then
          match follow more rest with
          | (n, ended) =>
            if n = more then .ok (n + 2) else if ended then .error none else .error (some (n + 2))
        else .error (some 1)

/-- The position of the first fault and the number of bytes at fault, none when the bytes ended. -/
def fault? : Nat → Nat → List UInt8 → Option (Nat × Option Nat)
  | 0, _, _ => none
  | _, _, [] => none
  | fuel + 1, position, bytes =>
    match head bytes with
    | .ok n => fault? fuel (position + n) (bytes.drop n)
    | .error wrong => some (position, wrong)

/-- What is said of bytes that are no text. -/
def faultText (bytes : List UInt8) : String :=
  match fault? bytes.length 0 bytes with
  | some (position, some n) =>
    "invalid utf-8 sequence of " ++ Digits.text n ++ " bytes from index " ++ Digits.text position
  | some (position, none) => "incomplete utf-8 byte sequence from index " ++ Digits.text position
  | none => ""

end PolicyProbe.Lines
