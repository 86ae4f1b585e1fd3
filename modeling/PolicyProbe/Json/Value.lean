import PolicyProbe.Decimal.Shortest
import PolicyProbe.Json.Quoted

/-!
JSON values that the library writes, and their compact text: no blanks, members in the given order,
whole numbers without a point and floating point numbers always with a point or an exponent.
-/
namespace PolicyProbe

/-- A value to be written. -/
inductive Json where
  | null
  | bool (value : Bool)
  | int (value : Int)
  | float (value : Double)
  | string (value : String)
  | array (items : List Json)
  | object (members : List (String × Json))
  deriving Inhabited

namespace Json

/-- The decimal text of a whole number. -/
def intText (n : Int) : List Char :=
  if n < 0 then '-' :: Digits.decimal n.natAbs else Digits.decimal n.natAbs

mutual

/-- The compact text of a value, in front of `tail`. -/
def write (tail : List Char) : Json → List Char
  | .null => "null".toList ++ tail
  | .bool true => "true".toList ++ tail
  | .bool false => "false".toList ++ tail
  | .int n => intText n ++ tail
  | .float x => x.text ++ tail
  | .string s => Quoted.write s.toList ++ tail
  | .array [] => '[' :: ']' :: tail
  | .array (item :: items) => '[' :: write (writeItems (']' :: tail) items) item
  | .object [] => '{' :: '}' :: tail
  | .object ((key, value) :: members) =>
    '{' :: Quoted.write key.toList ++ ':' :: write (writeMembers ('}' :: tail) members) value

/-- The items after the first, each behind its comma. -/
def writeItems (tail : List Char) : List Json → List Char
  | [] => tail
  | item :: items => ',' :: write (writeItems tail items) item

/-- The members after the first, each behind its comma. -/
def writeMembers (tail : List Char) : List (String × Json) → List Char
  | [] => tail
  | (key, value) :: members =>
    ',' :: Quoted.write key.toList ++ ':' :: write (writeMembers tail members) value

end

/-- The compact text of a value. -/
def text (value : Json) : String := String.ofList (write [] value)

/-- An optional value: nothing is written as null. -/
def ofOption (value : Option Json) : Json := value.getD .null

/-- A natural number as a value. -/
def nat (n : Nat) : Json := .int n

end Json

end PolicyProbe
