import PolicyProbe.Failure
import PolicyProbe.Text.Digits
import PolicyProbe.Text.Lines

/-!
The location of the table of desired state. Its path is part of an address: a percent sign with two
hexadecimal digits stands for a byte, and a question mark opens parameters, of which no name is
known that a path could give.
-/
namespace PolicyProbe

/-- Why a table of desired state cannot be opened. -/
inductive LocationFault where
  | cannotOpen
  | unknownParameter (name : String)
  | notText (fault : String)
  deriving DecidableEq, Repr

def LocationFault.message : LocationFault → String
  | .cannotOpen => "error returned from database: (code: 14) unable to open database file"
  | .unknownParameter name =>
    "error with configuration: unknown query parameter \x60" ++ name ++
      "\x60 while parsing connection URL"
  | .notText fault => "error with configuration: " ++ fault

namespace StateLocation

/-- The bytes for which an escaped text stands. -/
def unescaped : List Char → List UInt8
  | [] => []
  | '%' :: a :: b :: rest =>
    match Digits.hexValue? a, Digits.hexValue? b with
    | some h, some l => UInt8.ofNat (16 * h + l) :: unescaped rest
    | _, _ => '%'.toUInt8 :: unescaped (a :: b :: rest)
  | c :: rest => c.toString.toUTF8.toList ++ unescaped rest

/-- The name of the first parameter of an address; behind the parameters that a path gives stands
the mode in which the table is opened. -/
def parameterName (behind : List Char) : String :=
  String.ofList ((behind ++ "?mode".toList).takeWhile fun c => c != '=' && c != '&')

/-- The path of the file that a path in an address stands for. -/
def file? (path : String) : Except LocationFault String :=
  match path.toList.span (· != '?') with
  | (_, _ :: behind) => .error (.unknownParameter (parameterName behind))
  | (front, []) =>
    match Lines.text? (unescaped front) with
    | some file => .ok file
    | none => .error (.notText (Lines.faultText (unescaped front)))

end StateLocation

end PolicyProbe
