/-!
Blanks: the characters that are white space in any script.
-/
namespace PolicyProbe.Blank

/-- Whether a character is white space. -/
def isSpace (c : Char) : Bool :=
  let n := c.toNat
  (9 ≤ n && n ≤ 13) || n == 0x20 || n == 0x85 || n == 0xA0 || n == 0x1680 ||
    (0x2000 ≤ n && n ≤ 0x200A) || n == 0x2028 || n == 0x2029 || n == 0x202F || n == 0x205F ||
    n == 0x3000

/-- The text without the blanks in front. -/
def trimmed (text : List Char) : List Char := text.dropWhile isSpace

/-- Whether a text holds nothing but blanks. -/
def isBlank (text : String) : Bool := text.toList.all isSpace

end PolicyProbe.Blank
