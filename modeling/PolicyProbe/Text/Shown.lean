import PolicyProbe.Text.Digits
import PolicyProbe.Text.Joining
import PolicyProbe.Text.Unseen

/-!
Texts in double quotes, as messages show them: a quote, a backslash and the common control
characters are escaped by a letter, and every other character that has no picture of its own by
its number in hexadecimal.
-/
namespace PolicyProbe.Shown

/-- Whether a character is shown by its number. -/
def isHidden (c : Char) : Bool := Unseen.isUnseen c || Joining.isJoining c

/-- A character inside quotes. -/
def escaped (c : Char) : List Char :=
  if c = '"' then ['\\', '"']
  else if c = '\\' then ['\\', '\\']
  else if c = '\n' then ['\\', 'n']
  else if c = '\r' then ['\\', 'r']
  else if c = '\t' then ['\\', 't']
  else if c.toNat = 0 then ['\\', '0']
  else if isHidden c then ['\\', 'u', '\x7b'] ++ Digits.chars 16 c.toNat ++ ['\x7d']
  else [c]

/-- A text in quotes. -/
def quoted (text : String) : String := "\"" ++ String.ofList (text.toList.flatMap escaped) ++ "\""

end PolicyProbe.Shown
