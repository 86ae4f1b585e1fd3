import PolicyProbe.Json.Quoted
import PolicyProbe.Proofs.Text.Digits

/-!
Quoted text reads back. `scan_write` says that the pieces found up to the closing mark are those of
the characters that were written, whatever follows the mark, and `meaning_map_pieceOf` that they
mean these characters again. No character is written as a surrogate, so no pair is ever joined.
-/
namespace PolicyProbe.Quoted

open Digits

/-- Whether a character is written as a `\u` escape. -/
def isUnit (c : Char) : Prop :=
  c.toNat < 0x20 ∧ c ≠ '\x08' ∧ c ≠ '\x0c' ∧ c ≠ '\n' ∧ c ≠ '\r' ∧ c ≠ '\t'

instance (c : Char) : Decidable (isUnit c) := inferInstanceAs (Decidable (_ ∧ _))

/-- The piece as which a written character is found. -/
def pieceOf (c : Char) : Piece := if isUnit c then .unit c.toNat else .char c

theorem padded_four {n : Nat} (h : n < 256) :
    padded 16 4 n = ['0', '0', Nat.digitChar (n / 16), Nat.digitChar (n % 16)] := by
  unfold padded chars
  by_cases hn : n < 16
  · have hd : n / 16 = 0 := by omega
    have hm : n % 16 = n := by omega
    rw [ofNat, if_pos (Or.inl hn), hd, hm]
    rfl
  · have hq : ofNat 16 (n / 16) = [n / 16] := by
      rw [ofNat, if_pos (Or.inl (by omega))]
    rw [ofNat, if_neg (by omega), hq]
    rfl

theorem all?_padded {n : Nat} (h : n < 256) :
    all? hexValue? ['0', '0', Nat.digitChar (n / 16), Nat.digitChar (n % 16)] =
      some [0, 0, n / 16, n % 16] := by
  have h0 : hexValue? '0' = some 0 := by decide
  have h1 := hexValue_digitChar (n / 16) (by omega)
  have h2 := hexValue_digitChar (n % 16) (by omega)
  simp [all?, h0, h1, h2]

/-- The code unit of a `\u` escape. -/
theorem scan_unit {n : Nat} (h : n < 256) (rest : List Char) :
    scan ('\\' :: 'u' :: padded 16 4 n ++ rest) =
      (scan rest).map fun (ps, tail) => (.unit n :: ps, tail) := by
  have hv : toNat 16 [0, 0, n / 16, n % 16] = n := by
    simp only [Digits.toNat, List.foldl_cons, List.foldl_nil]
    omega
  rw [padded_four h]
  simp only [List.cons_append, List.nil_append, scan, all?_padded h, hv]

theorem scan_escape (c : Char) (rest : List Char) :
    scan (escape c ++ rest) = (scan rest).map fun (ps, tail) => (pieceOf c :: ps, tail) := by
  unfold escape
  split
  · subst_vars; simp [scan, unescape?, pieceOf, isUnit]
  split
  · subst_vars; simp [scan, unescape?, pieceOf, isUnit]
  split
  · subst_vars; simp [scan, unescape?, pieceOf, isUnit]
  split
  · subst_vars; simp [scan, unescape?, pieceOf, isUnit]
  split
  · subst_vars; simp [scan, unescape?, pieceOf, isUnit]
  split
  · subst_vars; simp [scan, unescape?, pieceOf, isUnit]
  split
  · subst_vars; simp [scan, unescape?, pieceOf, isUnit]
  split
  · rename_i hb hf hn hr ht hlt
    have hu : pieceOf c = .unit c.toNat := if_pos ⟨hlt, hb, hf, hn, hr, ht⟩
    rw [scan_unit (by omega), hu]
  · -- The character stands for itself.
    rename_i hq hs _ _ _ _ _ hlt
    have hp : pieceOf c = .char c := if_neg fun h => hlt h.1
    rw [hp, List.singleton_append, scan]
    · rw [if_neg (by rintro (h | h) <;> contradiction)]
    · exact hq
    · intro a b c d rest h
      exact absurd h hs
    · intro e rest h
      exact absurd h hs

/-- What was written is found again up to its closing mark. -/
theorem scan_write (text rest : List Char) :
    scan (text.flatMap escape ++ '"' :: rest) = some (text.map pieceOf, rest) := by
  induction text with
  | nil => simp [scan]
  | cons c text ih => simp [List.append_assoc, scan_escape, ih]

theorem meaning_unit {n : Nat} (h : n < 0x20) (ps : List Piece) :
    meaning (.unit n :: ps) = (meaning ps).map (Char.ofNat n :: ·) := by
  have hh : isHigh n = false := by simp [isHigh]; omega
  have hl : isLow n = false := by simp [isLow]; omega
  cases ps with
  | nil => simp [meaning, hh, hl]
  | cons p ps => cases p <;> simp [meaning, hh, hl]

/-- The pieces of characters mean these characters. -/
theorem meaning_map_pieceOf (text : List Char) : meaning (text.map pieceOf) = some text := by
  induction text with
  | nil => rfl
  | cons c text ih =>
    rw [List.map_cons]
    by_cases h : isUnit c
    · rw [pieceOf, if_pos h, meaning_unit h.1, ih]
      simp
    · rw [pieceOf, if_neg h, meaning, ih]
      rfl

end PolicyProbe.Quoted
