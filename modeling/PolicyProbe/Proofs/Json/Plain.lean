import PolicyProbe.Proofs.Json.Written
import PolicyProbe.Proofs.Text.Lines

/-!
The compact text of a value has no control characters, so it is a line: strings escape theirs, and
everything else is written with printable ones.
-/
namespace PolicyProbe

open Lines Digits

theorem plain_digits {base : Nat} (hb : base ≤ 16) {ds : List Nat} (h : ∀ d ∈ ds, d < base) :
    Plain (ds.map Nat.digitChar) := by
  have hdigit : ∀ d < 16, 0x20 ≤ (Nat.digitChar d).toNat := by decide
  intro c hc
  obtain ⟨d, hd, rfl⟩ := List.mem_map.mp hc
  exact hdigit d (Nat.lt_of_lt_of_le (h d hd) hb)

namespace Numeral

theorem plain_chars {n : Numeral} (h : n.WellFormed) : Plain n.chars := by
  obtain ⟨negative, whole, fraction, exponent⟩ := n
  obtain ⟨⟨⟨-, hwhole⟩, -⟩, hfraction, hexponent⟩ := h
  have hsign : Plain (if negative then ['-'] else []) := by
    cases negative with
    | true => exact plain_nil.cons (by decide)
    | false => exact plain_nil
  have hpart : Plain (fractionChars fraction) := by
    cases fraction with
    | none => exact plain_nil
    | some ds => exact (plain_digits (by decide) (hfraction ds rfl).2).cons (by decide)
  have hpower : Plain (exponentChars exponent) := by
    cases exponent with
    | none => exact plain_nil
    | some e =>
      obtain ⟨down, ds⟩ := e
      have hds : Plain (ds.map Nat.digitChar) := plain_digits (by decide) (hexponent _ rfl).2
      have hletter : 0x20 ≤ (if down then '-' else '+').toNat := by split <;> decide
      exact (hds.cons hletter).cons (by decide)
  exact hsign.append ((plain_digits (by decide) hwhole).append (hpart.append hpower))

end Numeral

namespace Quoted

theorem plain_escape (c : Char) : Plain (escape c) := by
  have hback : ∀ d : Char, 0x20 ≤ d.toNat → Plain ['\\', d] :=
    fun d hd => (plain_nil.cons hd).cons (by decide)
  unfold escape
  split
  · exact hback _ (by decide)
  split
  · exact hback _ (by decide)
  split
  · exact hback _ (by decide)
  split
  · exact hback _ (by decide)
  split
  · exact hback _ (by decide)
  split
  · exact hback _ (by decide)
  split
  · exact hback _ (by decide)
  split
  · -- A control character without a letter of its own is written by its number.
    rw [padded_eq_map]
    have hdigits := plain_digits (by decide : 16 ≤ 16) (lt_of_mem_fixed (by decide) 4 c.toNat)
    exact (hdigits.cons (by decide)).cons (by decide)
  · rename_i hc
    exact plain_nil.cons (Nat.le_of_not_lt hc)

theorem plain_write (text : List Char) : Plain (write text) := by
  have hescaped : Plain (text.flatMap escape) := by
    intro d hd
    obtain ⟨c, -, hd⟩ := List.mem_flatMap.mp hd
    exact plain_escape c d hd
  exact (hescaped.append (plain_nil.cons (by decide))).cons (by decide)

end Quoted

namespace Json

/-- A key with its colon in front of a plain text. -/
theorem plain_key (key : String) {text : List Char} (h : Plain text) :
    Plain (Quoted.write key.toList ++ ':' :: text) :=
  (Quoted.plain_write key.toList).append (h.cons (by decide))

mutual

theorem plain_write {tail : List Char} (h : Plain tail) : ∀ j : Json, Plain (write tail j)
  | .null => (plain_of_all (by decide)).append h
  | .bool true => (plain_of_all (by decide)).append h
  | .bool false => (plain_of_all (by decide)).append h
  | .int n => by
    rw [write, ← Numeral.chars_ofInt]
    exact (Numeral.plain_chars (Numeral.wellFormed_ofInt n)).append h
  | .float x => by
    rw [write, (numeral_spec x).2]
    exact (Numeral.plain_chars (numeral_spec x).1).append h
  | .string s => (Quoted.plain_write s.toList).append h
  | .array [] => (h.cons (by decide)).cons (by decide)
  | .array (item :: items) => by
    have hitems := plain_writeItems (h.cons (by decide : 0x20 ≤ ']'.toNat)) items
    exact (plain_write hitems item).cons (by decide)
  | .object [] => (h.cons (by decide)).cons (by decide)
  | .object ((key, value) :: members) => by
    have hmembers := plain_writeMembers (h.cons (by decide : 0x20 ≤ '\x7d'.toNat)) members
    exact (plain_key key (plain_write hmembers value)).cons (by decide)

theorem plain_writeItems {tail : List Char} (h : Plain tail) :
    ∀ items : List Json, Plain (writeItems tail items)
  | [] => h
  | item :: items => (plain_write (plain_writeItems h items) item).cons (by decide)

theorem plain_writeMembers {tail : List Char} (h : Plain tail) :
    ∀ members : List (String × Json), Plain (writeMembers tail members)
  | [] => h
  | (key, value) :: members =>
    (plain_key key (plain_write (plain_writeMembers h members) value)).cons (by decide)

end

theorem plain_text (j : Json) : Plain j.text.toList := by
  rw [text, String.toList_ofList]
  exact plain_write plain_nil j

end Json

end PolicyProbe
