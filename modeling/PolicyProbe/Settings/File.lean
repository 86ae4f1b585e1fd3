import PolicyProbe.Settings
import PolicyProbe.Toml.Document

/-!
Settings from a configuration file: its text is read, decoded and checked.
-/
namespace PolicyProbe.Settings

/-- The settings of a configuration text. -/
def parse (text : String) : Except ConfigError Settings := do
  match Toml.decode Settings.decoder text with
  | .error e => .error (.toml (e.detail?.getD ""))
  | .ok s =>
    s.check
    return s

/-- The settings of a file, given its bytes or why they could not be read. -/
def ofFile (content : Except SystemError ByteArray) : Except ConfigError Settings :=
  match content with
  | .error e => .error (.io e.message)
  | .ok bytes =>
    match String.fromUTF8? bytes with
    | none => .error (.io SystemError.notUnicode.message)
    | some text => parse text

end PolicyProbe.Settings
