import PolicyProbe.Json.Decoder
import PolicyProbe.Json.Value

/-!
Types of values that have a JSON form: a decoder that reads it and a function that writes it.
-/
namespace PolicyProbe

/-- A type with a JSON form. -/
class JsonForm (α : Type) where
  decoder : Decoder α
  toJson : α → Json

namespace JsonForm

variable {α : Type} [JsonForm α]

/-- The compact JSON text of a value. -/
def text (a : α) : String := (toJson a).text

/-- The value that a JSON text stands for. -/
def ofText (text : String) : Except DecodeError α := (decoder (α := α)).run text

instance : JsonForm Double := ⟨Decoder.double, .float⟩

instance : JsonForm (List α) := ⟨Decoder.list decoder, fun as => .array (as.map toJson)⟩

end JsonForm

end PolicyProbe
