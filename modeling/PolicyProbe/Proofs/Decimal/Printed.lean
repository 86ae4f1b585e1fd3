import Mathlib.Data.Nat.Cast.Order.Field
import PolicyProbe.Proofs.Decimal.Rounding
import PolicyProbe.Proofs.Json.Decoding

/-!
Every number that is printed is read as some number, though not always as itself: reading rounds the
significand, the power of ten and their product. What is read of the digits never stands for more
than the digits do (`scaled_le`), the digits printed of a number stand for no more than half a step
above it (`shortest_le`), and that leaves room for the roundings at all numbers but the two largest.
Of those, the texts are read one by one.
-/
namespace PolicyProbe

open Digits

namespace Numeral

/-! ## What is kept of the digits -/

theorem le_foldl (ds : List Nat) (n : Nat) : n ≤ ds.foldl (fun n d => n * 10 + d) n := by
  induction ds generalizing n with
  | nil => exact Nat.le_refl n
  | cons d ds ih => exact Nat.le_trans (by omega) (ih (n * 10 + d))

/-- As long as they fit a word, whole digits are all kept. -/
theorem foldl_whole {ds : List Nat} {n : Nat}
    (h : ds.foldl (fun n d => n * 10 + d) n < wordBound) :
    ds.foldl Scaled.whole ⟨n, 0, false⟩ = ⟨ds.foldl (fun n d => n * 10 + d) n, 0, false⟩ := by
  induction ds generalizing n with
  | nil => rfl
  | cons d ds ih =>
    have hfits : ¬(false = true ∨ wordBound ≤ n * 10 + d) := by
      have hle := le_foldl ds (n * 10 + d)
      rw [List.foldl_cons] at h
      simp only [Bool.false_eq_true, false_or, Nat.not_le]
      omega
    rw [List.foldl_cons, List.foldl_cons, Scaled.whole, if_neg hfits]
    exact ih h

/-- Digits behind the point that are dropped make the number no larger. The number of them is `q`;
once one was dropped, all others are. -/
theorem foldl_part (ds : List Nat) : ∀ (s : Scaled) (v p : Nat), s.significand < wordBound →
    s.significand * 10 ^ p ≤ v → (s.full = false → p = 0) →
    (ds.foldl Scaled.part s).significand < wordBound ∧ ∃ q : Nat,
      (ds.foldl Scaled.part s).significand * 10 ^ q ≤ ds.foldl (fun n d => n * 10 + d) v ∧
      (ds.foldl Scaled.part s).power + ds.length + p = s.power + q := by
  induction ds with
  | nil =>
    intro s v p hword hle _
    exact ⟨hword, p, hle, by simp⟩
  | cons d ds ih =>
    intro s v p hword hle hfull
    rw [List.foldl_cons, List.foldl_cons, List.length_cons]
    by_cases hfits : s.full = true ∨ wordBound ≤ s.significand * 10 + d
    · have hnext : s.significand * 10 ^ (p + 1) ≤ v * 10 + d := by
        rw [Nat.pow_succ, ← Nat.mul_assoc]
        omega
      have hpart : Scaled.part s d = { s with full := true } := if_pos hfits
      obtain ⟨hlt, q, hq, hpower⟩ :=
        ih { s with full := true } (v * 10 + d) (p + 1) hword hnext nofun
      rw [← hpart] at hlt hq hpower
      have hsame : (Scaled.part s d).power = s.power := by rw [hpart]
      exact ⟨hlt, q, hq, by omega⟩
    · have hpart : Scaled.part s d =
          { s with significand := s.significand * 10 + d, power := s.power - 1 } := if_neg hfits
      rw [not_or, Bool.not_eq_true, Nat.not_le] at hfits
      obtain rfl := hfull hfits.1
      rw [Nat.pow_zero, Nat.mul_one] at hle
      obtain ⟨hlt, q, hq, hpower⟩ :=
        ih { s with significand := s.significand * 10 + d, power := s.power - 1 } (v * 10 + d) 0
          hfits.2 (by dsimp only; omega) fun _ => rfl
      rw [← hpart] at hlt hq hpower
      have hless : (Scaled.part s d).power = s.power - 1 := by rw [hpart]
      exact ⟨hlt, q, hq, by omega⟩

/-- The number that a numeral stands for. -/
def meaning (n : Numeral) : Rat := toNat 10 n.digits * 10 ^ n.power

theorem Shows.meaning_eq {n : Numeral} {m : Nat} {k : Int} (h : n.Shows m k) :
    n.meaning = m * 10 ^ k := by
  obtain ⟨zeros, hdigits, hpower⟩ := h.value
  rw [meaning, hdigits, ← hpower, zpow_add₀ (by norm_num), zpow_natCast]
  push_cast
  ring

/-- What is kept of a numeral fits a word and stands for no more than the numeral. -/
theorem scaled_le {n : Numeral} (h : toNat 10 n.whole < wordBound) :
    n.scaled.significand < wordBound ∧
      (n.scaled.significand : Rat) * 10 ^ (n.scaled.power + exponentValue n.exponent) ≤
        n.meaning := by
  have hwhole : n.whole.foldl Scaled.whole ⟨0, 0, false⟩ = ⟨toNat 10 n.whole, 0, false⟩ :=
    foldl_whole h
  have hscaled : n.scaled =
      (n.fraction.getD []).foldl Scaled.part ⟨toNat 10 n.whole, 0, false⟩ := by
    rw [scaled, hwhole]
  obtain ⟨hlt, q, hle, hpower⟩ := foldl_part (n.fraction.getD []) ⟨toNat 10 n.whole, 0, false⟩
    (toNat 10 n.whole) 0 h (by rw [Nat.pow_zero, Nat.mul_one]) fun _ => rfl
  rw [← hscaled] at hlt hle hpower
  have hdigits : (n.fraction.getD []).foldl (fun n d => n * 10 + d) (toNat 10 n.whole) =
      toNat 10 n.digits := by
    show _ = (n.whole ++ n.fraction.getD []).foldl (fun n d => n * 10 + d) 0
    rw [List.foldl_append]
    rfl
  rw [hdigits] at hle
  have hcast : (n.scaled.significand : Rat) * 10 ^ q ≤ toNat 10 n.digits := by exact_mod_cast hle
  have hexponent : n.scaled.power + exponentValue n.exponent = q + n.power := by
    rw [power]
    dsimp only at hpower
    omega
  refine ⟨hlt, ?_⟩
  rw [hexponent, zpow_add₀ (by norm_num), zpow_natCast, ← mul_assoc, meaning]
  gcongr

/-- An exponent goes with a leading digit, so the number is at least that power of ten. -/
theorem pow_le_meaning {n : Numeral} {d : Nat} {ds : List Nat} (hwhole : n.whole = d :: ds)
    (hd : d ≠ 0) : (10 : Rat) ^ exponentValue n.exponent ≤ n.meaning := by
  have hnat : 10 ^ (n.fraction.getD []).length ≤ toNat 10 n.digits := by
    rw [digits, hwhole, List.cons_append, toNat_cons, List.length_append, Nat.pow_add]
    calc
      10 ^ (n.fraction.getD []).length
        ≤ 10 ^ ds.length * 10 ^ (n.fraction.getD []).length :=
          Nat.le_mul_of_pos_left _ (Nat.pow_pos (by decide))
      _ ≤ d * (10 ^ ds.length * 10 ^ (n.fraction.getD []).length) :=
          Nat.le_mul_of_pos_left _ (Nat.pos_of_ne_zero hd)
      _ ≤ _ := Nat.le_add_right _ _
  have hcast : (10 : Rat) ^ (n.fraction.getD []).length ≤ toNat 10 n.digits := by
    exact_mod_cast hnat
  calc
    (10 : Rat) ^ exponentValue n.exponent
      = 10 ^ (n.fraction.getD []).length * 10 ^ n.power := by
        rw [← zpow_natCast, ← zpow_add₀ (by norm_num), power]
        congr 1
        ring
    _ ≤ n.meaning := by
      rw [meaning]
      gcongr

/-- The exponent of a numeral below the limit is small, as long as it is not negative. -/
theorem exponent_le {n : Numeral} {ds : List Nat} (hn : n.WellFormed)
    (hleading : n.whole.head? ≠ some 0) (hexponent : n.exponent = some (false, ds))
    (hlimit : n.meaning < Double.limit) : toNat 10 ds ≤ exponentBound := by
  obtain ⟨d, rest, hwhole⟩ := List.exists_cons_of_ne_nil hn.whole.1.1
  have hd : d ≠ 0 := by
    rw [hwhole] at hleading
    simpa using hleading
  have hpow := pow_le_meaning hwhole hd
  rw [hexponent, exponentValue, if_neg (by decide), zpow_natCast] at hpow
  have hsmall := Double.pow_ten_lt_limit.mp (hpow.trans_lt hlimit)
  have hbound : exponentBound = 2147483647 := rfl
  omega

/-- A numeral is read as a number when there is room for rounding twice. -/
theorem exists_double? {n : Numeral} {m : Nat} {k : Int} (hn : n.WellFormed) (h : n.Shows m k)
    (hroom : (m : Rat) * 10 ^ k * (1 + 1 / 2 ^ 53) ^ 2 < Double.limit) :
    ∃ y, n.double? = some y := by
  have hword : toNat 10 n.whole < wordBound := by
    have hlt : toNat 10 n.whole < 10 ^ n.whole.length := toNat_lt hn.whole.1.2
    have hle : 10 ^ n.whole.length ≤ 10 ^ 16 := Nat.pow_le_pow_right (by decide) h.short
    have hbound : 10 ^ 16 < wordBound := by decide
    omega
  obtain ⟨hlt, hle⟩ := scaled_le hword
  rw [← h.meaning_eq] at hroom
  have hread := Double.exists_ofDecimal? n.negative hlt
    ((mul_le_mul_of_nonneg_right hle (by norm_num)).trans_lt hroom)
  rw [double?]
  dsimp only
  cases hexponent : n.exponent with
  | none =>
    rw [hexponent, exponentValue, add_zero] at hread
    exact hread
  | some e =>
    obtain ⟨down, ds⟩ := e
    dsimp only
    have hsum : (if down then n.scaled.power - (toNat 10 ds : Int)
        else n.scaled.power + toNat 10 ds) = n.scaled.power + exponentValue n.exponent := by
      rw [hexponent, exponentValue]
      split <;> omega
    rw [hsum]
    split
    · rename_i hlarge
      cases down with
      | true => exact ⟨Double.zero n.negative, by rw [if_neg (by simp)]⟩
      | false =>
        have hnonneg : 0 ≤ n.meaning := by
          rw [meaning]
          positivity
        have hlimit : n.meaning < Double.limit :=
          (le_mul_of_one_le_right hnonneg (by norm_num)).trans_lt hroom
        have hleading := h.leading (by rw [hexponent]; rfl)
        exact absurd (exponent_le hn hleading hexponent hlimit) (Nat.not_le.mpr hlarge)
    · exact hread

theorem Shows.int?_eq_none {n : Numeral} {m : Nat} {k : Int} (h : n.Shows m k) : n.int? = none := by
  rw [int?, if_pos h.marked]

end Numeral

namespace Double

/-! ## The digits of a number -/

namespace Neighbourhood

theorem holds_le {b : Neighbourhood} (hden : 0 < b.den) {digits : Nat} {k : Int}
    (h : b.holds digits k = true) : (digits : Rat) * 10 ^ k ≤ b.high / b.den := by
  have hpos : (0 : Rat) < b.den := Nat.cast_pos.mpr hden
  rw [le_div_iff₀ hpos]
  have hnat : (if 0 ≤ k then digits * Nat.pow 10 k.toNat * b.den else digits * b.den) ≤
      b.high * (if 0 ≤ k then 1 else Nat.pow 10 (-k).toNat) := by
    rw [holds] at h
    split at h <;> simp only [Bool.and_eq_true, decide_eq_true_eq] at h
    · exact h.2
    · exact h.2.le
  by_cases hk : 0 ≤ k
  · rw [if_pos hk, if_pos hk, Nat.mul_one, ← @Nat.cast_le Rat, Nat.cast_mul, Nat.cast_mul,
      natCast_pow_toNat 10 hk] at hnat
    exact hnat
  · rw [if_neg hk, if_neg hk, ← @Nat.cast_le Rat, Nat.cast_mul, Nat.cast_mul,
      natCast_pow_toNat 10 (by omega), Nat.cast_ofNat, zpow_neg, ← div_eq_mul_inv] at hnat
    have hten : (0 : Rat) < 10 ^ k := zpow_pos (by norm_num) k
    rw [le_div_iff₀ hten] at hnat
    rwa [mul_right_comm]

theorem holds_of_onGrid? {b : Neighbourhood} {digits : Nat} {k : Int}
    (h : b.onGrid? k = some digits) : b.holds digits k = true := by
  have heither : ∀ first second : Nat, (if b.holds first k then some first
      else if b.holds second k then some second else none) = some digits →
      b.holds digits k = true := by
    intro first second h
    split at h <;> rename_i hfirst
    · exact Option.some.inj h ▸ hfirst
    · split at h <;> rename_i hsecond
      · exact Option.some.inj h ▸ hsecond
      · exact nomatch h
  exact heither _ _ h

theorem floor_le {b : Neighbourhood} (hden : 0 < b.den) (k : Int) :
    (b.floor k : Rat) * 10 ^ k ≤ b.mid / b.den := by
  have hpos : (0 : Rat) < b.den := Nat.cast_pos.mpr hden
  have hten : (0 : Rat) < 10 ^ k := zpow_pos (by norm_num) k
  rw [floor]
  split
  · rename_i hk
    have hle := Nat.cast_div_le (α := Rat) (m := b.mid) (n := b.den * Nat.pow 10 k.toNat)
    rw [Nat.cast_mul, natCast_pow_toNat 10 hk, Nat.cast_ofNat, ← div_div,
      le_div_iff₀ hten] at hle
    exact hle
  · rename_i hk
    have hle := Nat.cast_div_le (α := Rat) (m := b.mid * Nat.pow 10 (-k).toNat) (n := b.den)
    rw [Nat.cast_mul, natCast_pow_toNat 10 (by omega), Nat.cast_ofNat, zpow_neg, ← div_eq_mul_inv,
      div_right_comm, le_div_iff₀ hten] at hle
    exact hle

/-- Wherever the search ends, it ends in the neighbourhood or below the number. -/
theorem search_le {b : Neighbourhood} (hden : 0 < b.den) (hmid : b.mid ≤ b.high) (fuel : Nat) :
    ∀ k, ((b.search k fuel).digits : Rat) * 10 ^ (b.search k fuel).exponent ≤ b.high / b.den := by
  induction fuel with
  | zero =>
    intro k
    have hle : (b.mid : Rat) / b.den ≤ b.high / b.den := by gcongr
    exact (floor_le hden k).trans hle
  | succ fuel ih =>
    intro k
    rw [search]
    split
    · rename_i digits hgrid
      exact holds_le hden (holds_of_onGrid? hgrid)
    · exact ih (k - 1)

end Neighbourhood

/-- The neighbourhood of a number ends half a step above it. -/
theorem high_eq (x : Double) : 0 < x.neighbourhood.den ∧
    x.neighbourhood.mid ≤ x.neighbourhood.high ∧
    (x.neighbourhood.high : Rat) / x.neighbourhood.den = x.magnitude + 2 ^ x.exponent / 2 := by
  obtain ⟨hden, hratio⟩ := x.ratio_eq
  have hpos : (0 : Rat) < x.ratio.2 := Nat.cast_pos.mpr hden
  have hstep : (((if 0 ≤ x.exponent then Nat.pow 2 x.exponent.toNat else 1 : Nat)) : Rat) =
      2 ^ x.exponent * x.ratio.2 := by
    rw [ratio]
    split
    · rename_i he
      rw [natCast_pow_toNat 2 he]
      simp
    · rename_i he
      have hpow : ((Nat.pow 2 (-x.exponent).toNat : Nat) : Rat) = (2 ^ x.exponent)⁻¹ := by
        rw [natCast_pow_toNat 2 (by omega), Nat.cast_ofNat, zpow_neg]
      rw [hpow, mul_inv_cancel₀ (two_zpow_pos _).ne', Nat.cast_one]
  have hhigh : x.neighbourhood.high =
      4 * x.ratio.1 + 2 * (if 0 ≤ x.exponent then Nat.pow 2 x.exponent.toNat else 1) := rfl
  have hwide : x.neighbourhood.den = 4 * x.ratio.2 := rfl
  refine ⟨by omega, ?_, ?_⟩
  · rw [hhigh]
    exact Nat.le_add_right _ _
  · rw [hhigh, hwide, Nat.cast_add, Nat.cast_mul, Nat.cast_mul, Nat.cast_mul, hstep, ← hratio]
    field_simp
    push_cast
    ring

/-- The digits of a number stand for no more than half a step above it. -/
theorem shortest_le (x : Double) :
    (x.shortest.digits : Rat) * 10 ^ x.shortest.exponent ≤ x.magnitude + 2 ^ x.exponent / 2 := by
  obtain ⟨hden, hmid, hhigh⟩ := x.high_eq
  rw [shortest]
  split
  · have hnonneg : 0 ≤ x.magnitude := mul_nonneg (Nat.cast_nonneg _) (two_zpow_pos _).le
    have hstep := two_zpow_pos x.exponent
    rw [Nat.cast_zero, zero_mul]
    linarith
  · rw [← hhigh]
    exact Neighbourhood.search_le hden hmid 17 _

/-! ## Reading what was printed -/

/-- All numbers but the two largest leave room for rounding twice. -/
theorem room_of_small {x : Double} (h : x.significand + 2 < Nat.pow 2 53 ∨ x.exponent ≠ 971) :
    (x.magnitude + 2 ^ x.exponent / 2) * (1 + 1 / 2 ^ 53) ^ 2 < limit := by
  have hmono : ∀ {a b : Int}, a ≤ b → (2 : Rat) ^ a ≤ 2 ^ b :=
    zpow_le_zpow_right₀ (by norm_num)
  have hform : x.significand + 1 ≤ 2 ^ 53 ∧ x.exponent ≤ 971 := by
    rcases x.canonical with ⟨hm, he⟩ | ⟨-, hm, -, he⟩ <;> rw [Nat.pow_eq] at hm <;> omega
  have hhalf : x.magnitude + 2 ^ x.exponent / 2 = (x.significand + 1 / 2) * 2 ^ x.exponent := by
    rw [magnitude]
    ring
  have hle : x.magnitude + 2 ^ x.exponent / 2 ≤ (2 ^ 53 - 5 / 2) * 2 ^ (971 : Int) := by
    rw [hhalf]
    rcases h with h | h
    · have hm : (x.significand : Rat) + 3 ≤ 2 ^ 53 := by exact_mod_cast h
      exact mul_le_mul (by linarith) (hmono hform.2) (two_zpow_pos _).le (by norm_num)
    · have hm : (x.significand : Rat) + 1 ≤ 2 ^ 53 := by exact_mod_cast hform.1
      have hstep : (2 : Rat) ^ x.exponent ≤ 2 ^ (970 : Int) := hmono (by omega)
      have hnext : (2 : Rat) ^ (971 : Int) = 2 ^ (970 : Int) * 2 := zpow_add_one₀ (by norm_num) 970
      have hpos := two_zpow_pos 970
      calc
        (x.significand + 1 / 2) * (2 : Rat) ^ x.exponent ≤ 2 ^ 53 * 2 ^ (970 : Int) :=
          mul_le_mul (by linarith) hstep (two_zpow_pos _).le (by norm_num)
        _ ≤ (2 ^ 53 - 5 / 2) * 2 ^ (971 : Int) := by
          rw [hnext]
          generalize (2 : Rat) ^ (970 : Int) = step at hpos
          linarith
  calc
    (x.magnitude + 2 ^ x.exponent / 2) * (1 + 1 / 2 ^ 53) ^ 2
      ≤ (2 ^ 53 - 5 / 2) * 2 ^ (971 : Int) * (1 + 1 / 2 ^ 53) ^ 2 :=
        mul_le_mul_of_nonneg_right hle (by norm_num)
    _ = (2 ^ 53 - 5 / 2) * (1 + 1 / 2 ^ 53) ^ 2 * 2 ^ (971 : Int) := by ring
    _ < limit := by
      rw [limit]
      gcongr
      norm_num

/-- The texts of the two largest numbers of each sign are read. -/
theorem exists_largest {x : Double}
    (hm : x.significand = Nat.pow 2 53 - 2 ∨ x.significand = Nat.pow 2 53 - 1)
    (he : x.exponent = 971) : ∃ y, x.numeral.double? = some y := by
  obtain ⟨negative, m, e, hform⟩ := x
  dsimp only at hm he
  subst he
  refine Option.isSome_iff_exists.mp ?_
  rcases hm with rfl | rfl <;> cases negative <;> decide +kernel +revert

/-- The text of a number is read as some number. -/
theorem exists_numeral_double? (x : Double) : ∃ y, x.numeral.double? = some y := by
  by_cases hsmall : x.significand + 2 < Nat.pow 2 53 ∨ x.exponent ≠ 971
  · obtain ⟨m, k, hshows, hvalue⟩ := Json.numeral_shows x
    refine Numeral.exists_double? (Json.numeral_spec x).1 hshows ?_
    have hle : (m : Rat) * 10 ^ k ≤ x.magnitude + 2 ^ x.exponent / 2 := by
      refine le_trans ?_ x.shortest_le
      rcases hvalue with rfl | ⟨zeros, hdigits, rfl⟩
      · rw [Nat.cast_zero, zero_mul]
        positivity
      · rw [hdigits, zpow_add₀ (by norm_num), zpow_natCast]
        push_cast
        exact (by ring : _ = _).le
    exact (mul_le_mul_of_nonneg_right hle (by norm_num)).trans_lt (room_of_small hsmall)
  · rw [not_or, Nat.not_lt, not_not] at hsmall
    have hform : x.significand < Nat.pow 2 53 := by
      rcases x.canonical with ⟨hm, -⟩ | ⟨-, hm, -, -⟩
      · exact hm.trans (by decide)
      · exact hm
    exact exists_largest (by omega) hsmall.2

/-- The number that is read from the text of a number. -/
def reread (x : Double) : Double := x.numeral.double?.getD x

end Double

/-- In what is printed of a number, a number is found. -/
theorem Decoder.finds_reread (x : Double) : Decoder.double.Finds (.float x) x.reread := by
  obtain ⟨y, hy⟩ := x.exists_numeral_double?
  obtain ⟨m, k, hshows, -⟩ := Json.numeral_shows x
  intro manner
  rw [Json.reading, Double.reread]
  simp only [Decoder.double, hshows.int?_eq_none, hy, Option.getD_some]

end PolicyProbe
