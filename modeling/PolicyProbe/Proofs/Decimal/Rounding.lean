import Mathlib.Algebra.Order.Field.Power
import Mathlib.Tactic.FieldSimp
import Mathlib.Tactic.GCongr
import Mathlib.Tactic.Linarith
import Mathlib.Tactic.NormNum
import Mathlib.Tactic.Positivity
import Mathlib.Tactic.Ring
import PolicyProbe.Decimal.Double

/-!
What rounding costs. A ratio below `Double.limit` has a nearest number (`exists_ofRatio?`), and from
one on the two differ by no more than one part in `2^53` (`Nearest.abs_sub_le`). Scaling by a power
of ten rounds the power and the result: dividing always gives a number (`exists_scaleDown`),
multiplying does as long as the exact product leaves room for both roundings (`exists_scaleUp`).
-/
namespace PolicyProbe.Double

/-! ## Quotients and powers of two -/

theorem natCast_pow_toNat (b : Nat) {e : Int} (h : 0 ≤ e) :
    ((Nat.pow b e.toNat : Nat) : Rat) = (b : Rat) ^ e := by
  obtain ⟨n, rfl⟩ := Int.eq_ofNat_of_zero_le h
  rw [Int.toNat_natCast, Nat.pow_eq, Nat.cast_pow, zpow_natCast]

theorem two_zpow_pos (e : Int) : (0 : Rat) < 2 ^ e := zpow_pos (by norm_num) e

/-- A quotient is off by half at most. -/
theorem roundHalfEven_near (num : Nat) {den : Nat} (h : 0 < den) :
    |(roundHalfEven num den : Rat) - num / den| ≤ 1 / 2 := by
  have hdiv : den * (num / den) + num % den = num := Nat.div_add_mod num den
  have hmod : num % den < den := Nat.mod_lt num h
  have hnat : 2 * num ≤ 2 * (den * roundHalfEven num den) + den ∧
      2 * (den * roundHalfEven num den) ≤ 2 * num + den := by
    rw [roundHalfEven]
    split
    · omega
    · split
      · rw [Nat.mul_add]
        omega
      · -- A tie: both neighbours are as near.
        rcases Nat.mod_two_eq_zero_or_one (num / den) with hp | hp <;> rw [hp, Nat.mul_add] <;>
          omega
  have hden : (0 : Rat) < den := Nat.cast_pos.mpr h
  obtain ⟨hlow, hhigh⟩ := hnat
  have hlow' : (2 * num : Rat) ≤ 2 * (den * roundHalfEven num den) + den := by exact_mod_cast hlow
  have hhigh' : (2 * (den * roundHalfEven num den) : Rat) ≤ 2 * num + den := by
    exact_mod_cast hhigh
  rw [abs_le]
  constructor
  · have hle : (num : Rat) / den ≤ roundHalfEven num den + 1 / 2 := by
      rw [div_le_iff₀ hden]
      linarith
    linarith
  · have hle : roundHalfEven num den - 1 / 2 ≤ (num : Rat) / den := by
      rw [le_div_iff₀ hden]
      linarith
    linarith

/-- The same at a power of two. -/
theorem roundAt_near (num : Nat) {den : Nat} (h : 0 < den) (e : Int) :
    |(roundAt num den e : Rat) * 2 ^ e - num / den| ≤ 2 ^ e / 2 := by
  have hpos : (0 : Rat) < 2 ^ e := two_zpow_pos e
  have hscaled : |(roundAt num den e : Rat) - num / den / 2 ^ e| ≤ 1 / 2 := by
    rw [roundAt]
    split
    · rename_i he
      have hnear := roundHalfEven_near num (Nat.mul_pos h (@Nat.pow_pos 2 e.toNat (by decide)))
      rw [Nat.cast_mul] at hnear
      have hcast := natCast_pow_toNat 2 he
      rw [Nat.pow_eq] at hcast
      rw [hcast, ← div_div] at hnear
      exact hnear
    · rename_i he
      have hnear := roundHalfEven_near (num * Nat.pow 2 (-e).toNat) h
      rw [Nat.cast_mul, natCast_pow_toNat 2 (by omega), Nat.cast_ofNat, zpow_neg] at hnear
      rwa [div_div, mul_comm (den : Rat), ← div_div, div_eq_mul_inv (num : Rat)]
  have hfactor : (roundAt num den e : Rat) * 2 ^ e - num / den =
      (roundAt num den e - num / den / 2 ^ e) * 2 ^ e := by
    rw [sub_mul, div_mul_cancel₀ _ hpos.ne']
  rw [hfactor, abs_mul, abs_of_pos hpos]
  calc
    |(roundAt num den e : Rat) - num / den / 2 ^ e| * 2 ^ e ≤ 1 / 2 * 2 ^ e :=
      mul_le_mul_of_nonneg_right hscaled hpos.le
    _ = 2 ^ e / 2 := by ring

theorem le_floorAt {n num den : Nat} (h : 0 < den) (e : Int) :
    n ≤ floorAt num den e ↔ (n : Rat) * 2 ^ e ≤ num / den := by
  have hden : (0 : Rat) < den := Nat.cast_pos.mpr h
  rw [floorAt, le_div_iff₀ hden]
  split
  · rename_i he
    have hpow : 0 < Nat.pow 2 e.toNat := Nat.pow_pos (by decide)
    rw [Nat.le_div_iff_mul_le (Nat.mul_pos h hpow), ← @Nat.cast_le Rat]
    rw [Nat.cast_mul, Nat.cast_mul, natCast_pow_toNat 2 he, Nat.cast_ofNat]
    rw [mul_comm (den : Rat), mul_assoc]
  · rename_i he
    have hpos : (0 : Rat) < 2 ^ e := two_zpow_pos e
    rw [Nat.le_div_iff_mul_le h, ← @Nat.cast_le Rat]
    rw [Nat.cast_mul, Nat.cast_mul, natCast_pow_toNat 2 (by omega), Nat.cast_ofNat, zpow_neg]
    rw [← div_eq_mul_inv, le_div_iff₀ hpos, mul_right_comm]

/-- The lengths of numerator and denominator bound a ratio from both sides. -/
theorem ratio_bounds {num den : Nat} (hnum : num ≠ 0) (hden : den ≠ 0) :
    (2 : Rat) ^ ((num.log2 : Int) - den.log2 - 1) ≤ num / den ∧
      (num : Rat) / den < 2 ^ ((num.log2 : Int) - den.log2 + 1) := by
  have hnum0 : (2 : Rat) ^ (num.log2 : Int) ≤ num := by
    rw [zpow_natCast]
    exact_mod_cast Nat.log2_self_le hnum
  have hnum1 : (num : Rat) < 2 ^ ((num.log2 : Int) + 1) := by
    exact_mod_cast Nat.lt_log2_self
  have hden0 : (2 : Rat) ^ (den.log2 : Int) ≤ den := by
    rw [zpow_natCast]
    exact_mod_cast Nat.log2_self_le hden
  have hden1 : (den : Rat) < 2 ^ ((den.log2 : Int) + 1) := by
    exact_mod_cast Nat.lt_log2_self
  have hpos : (0 : Rat) < den := by exact_mod_cast Nat.pos_of_ne_zero hden
  have htwo : (2 : Rat) ≠ 0 := by norm_num
  constructor
  · rw [le_div_iff₀ hpos]
    calc
      (2 : Rat) ^ ((num.log2 : Int) - den.log2 - 1) * den
        ≤ 2 ^ ((num.log2 : Int) - den.log2 - 1) * 2 ^ ((den.log2 : Int) + 1) := by gcongr
      _ = 2 ^ (num.log2 : Int) := by
        rw [← zpow_add₀ htwo]
        congr 1
        ring
      _ ≤ num := hnum0
  · rw [div_lt_iff₀ hpos]
    calc
      (num : Rat) < 2 ^ ((num.log2 : Int) + 1) := hnum1
      _ = 2 ^ ((num.log2 : Int) - den.log2 + 1) * 2 ^ (den.log2 : Int) := by
        rw [← zpow_add₀ htwo]
        congr 1
        ring
      _ ≤ 2 ^ ((num.log2 : Int) - den.log2 + 1) * den := by gcongr

/-! ## The nearest number -/

/-- The magnitude as a rational number. -/
def magnitude (x : Double) : Rat := x.significand * 2 ^ x.exponent

/-- From here on no number is the nearest: half way from the largest number to what would be the
next. -/
def limit : Rat := (2 ^ 53 - 1 / 2) * 2 ^ (971 : Int)

/-- A number is as near to a value as its significand allows: half a step of the power of two at
which the value has 53 binary digits, or of the lowest power there is. -/
def Nearest (v : Rat) (x : Double) : Prop :=
  ∃ e : Int, (e = -1074 ∨ 2 ^ 52 * 2 ^ e ≤ v) ∧ |x.magnitude - v| ≤ 2 ^ e / 2

/-- From one on, rounding costs one part in `2^53` at most. -/
theorem Nearest.abs_sub_le {v : Rat} {x : Double} (h : Nearest v x) (hv : 1 ≤ v) :
    |x.magnitude - v| ≤ v / 2 ^ 53 := by
  obtain ⟨e, he, hnear⟩ := h
  refine hnear.trans ?_
  rcases he with rfl | he
  · have hsmall : (2 : Rat) ^ (-1074 : Int) ≤ 2 ^ (-53 : Int) :=
      zpow_le_zpow_right₀ (by norm_num) (by norm_num)
    calc
      (2 : Rat) ^ (-1074 : Int) / 2 ≤ 2 ^ (-53 : Int) / 2 := by gcongr
      _ ≤ 1 / 2 ^ 53 := by norm_num
      _ ≤ v / 2 ^ 53 := by gcongr
  · rw [div_le_div_iff₀ (by norm_num) (by norm_num)]
    linarith

theorem magnitude_lt (x : Double) : x.magnitude < limit := by
  have hbound : x.significand + 1 ≤ 2 ^ 53 ∧ x.exponent ≤ 971 := by
    rcases x.canonical with ⟨hm, he⟩ | ⟨-, hm, -, he⟩ <;> rw [Nat.pow_eq] at hm <;> omega
  have hm : (x.significand : Rat) + 1 ≤ 2 ^ 53 := by exact_mod_cast hbound.1
  have hpow : (2 : Rat) ^ x.exponent ≤ 2 ^ (971 : Int) :=
    zpow_le_zpow_right₀ (by norm_num) hbound.2
  have hpos := two_zpow_pos 971
  calc
    x.magnitude ≤ (2 ^ 53 - 1) * 2 ^ (971 : Int) := by
      rw [magnitude]
      exact mul_le_mul (by linarith) hpow (two_zpow_pos _).le (by norm_num)
    _ < limit := by
      rw [limit]
      gcongr
      norm_num

/-- The power of two at which a ratio is rounded gives it 53 binary digits before the point, unless
it is the lowest one. -/
theorem exists_exponent {num den : Nat} (hnum : num ≠ 0) (hden : den ≠ 0) : ∃ e : Int,
    (∀ negative, ofRatio? negative num den = if roundAt num den e = Nat.pow 2 53
      then mk? negative (Nat.pow 2 52) (e + 1) else mk? negative (roundAt num den e) e) ∧
    -1074 ≤ e ∧ (e = -1074 ∨ 2 ^ 52 * 2 ^ e ≤ (num : Rat) / den) ∧
    (num : Rat) / den < 2 ^ 53 * 2 ^ e := by
  obtain ⟨hlow, hhigh⟩ := ratio_bounds hnum hden
  have hpos : 0 < den := Nat.pos_of_ne_zero hden
  have htwo : (2 : Rat) ≠ 0 := by norm_num
  let guess : Int := max ((num.log2 : Int) - (den.log2 : Int) - 53) (-1074)
  have hguess : (guess = -1074 ∨ 2 ^ 52 * 2 ^ guess ≤ (num : Rat) / den) ∧
      (num : Rat) / den < 2 ^ 54 * 2 ^ guess := by
    have hsplit : ∀ (n : Nat), (2 : Rat) ^ n * 2 ^ guess = 2 ^ ((n : Int) + guess) := fun n => by
      rw [zpow_add₀ htwo, zpow_natCast]
    rw [hsplit, hsplit]
    constructor
    · by_cases h : guess = -1074
      · exact Or.inl h
      · have hexp : ((52 : Nat) : Int) + guess = (num.log2 : Int) - den.log2 - 1 := by omega
        rw [hexp]
        exact Or.inr hlow
    · exact hhigh.trans_le (zpow_le_zpow_right₀ (by norm_num) (by omega))
  have hround : ∀ negative, ofRatio? negative num den =
      let e := if Nat.pow 2 53 ≤ floorAt num den guess then guess + 1 else guess
      let m := roundAt num den e
      if m = Nat.pow 2 53 then mk? negative (Nat.pow 2 52) (e + 1) else mk? negative m e := by
    intro negative
    rw [ofRatio?, if_neg hnum]
  have hfloor : Nat.pow 2 53 ≤ floorAt num den guess ↔ 2 ^ 53 * 2 ^ guess ≤ (num : Rat) / den := by
    rw [le_floorAt hpos, Nat.pow_eq, Nat.cast_pow, Nat.cast_ofNat]
  have hnext : (2 : Rat) ^ (guess + 1) = 2 ^ guess * 2 := zpow_add_one₀ htwo guess
  by_cases hbig : Nat.pow 2 53 ≤ floorAt num den guess
  · simp only [if_pos hbig] at hround
    rw [hfloor] at hbig
    refine ⟨guess + 1, hround, by omega, Or.inr ?_, ?_⟩ <;> rw [hnext] <;> linarith
  · simp only [if_neg hbig] at hround
    rw [hfloor, not_le] at hbig
    exact ⟨guess, hround, by omega, hguess.1, hbig⟩

/-- Below the limit, a value with 53 binary digits at a power of two keeps the power in range. -/
theorem exponent_lt {v : Rat} {e : Int} (hlimit : v < limit)
    (h : (2 ^ 53 - 1 / 2) * 2 ^ e ≤ v) : e < 971 := by
  by_contra hlarge
  have hpow : (2 : Rat) ^ (971 : Int) ≤ 2 ^ e :=
    zpow_le_zpow_right₀ (by norm_num) (Int.not_lt.mp hlarge)
  rw [limit] at hlimit
  linarith

/-- What is near to such a value is the significand of a number, unless it is one more than that. -/
theorem canonical_of_near {v : Rat} {m : Nat} {e : Int} (hlimit : v < limit) (hlowest : -1074 ≤ e)
    (hlow : e = -1074 ∨ 2 ^ 52 * 2 ^ e ≤ v) (hhigh : v < 2 ^ 53 * 2 ^ e)
    (hnear : |(m : Rat) * 2 ^ e - v| ≤ 2 ^ e / 2) (hcarry : m ≠ Nat.pow 2 53) : Canonical m e := by
  obtain ⟨hnear0, hnear1⟩ := abs_le.mp hnear
  have hpos := two_zpow_pos e
  have hm : m < Nat.pow 2 53 := by
    have hle : (m : Rat) * 2 ^ e < (2 ^ 53 + 1) * 2 ^ e := by linarith
    have hlt : (m : Rat) < 2 ^ 53 + 1 := lt_of_mul_lt_mul_right hle hpos.le
    have hnat : m < 2 ^ 53 + 1 := by exact_mod_cast hlt
    rw [Nat.pow_eq] at hcarry ⊢
    omega
  rcases hlow with rfl | hlow
  · rcases Nat.lt_or_ge m (Nat.pow 2 52) with h | h
    · exact Or.inl ⟨h, rfl⟩
    · exact Or.inr ⟨h, hm, by decide, by decide⟩
  · have hge : (2 ^ 52 - 1) * 2 ^ e < (m : Rat) * 2 ^ e := by linarith
    have hlt : (2 ^ 52 - 1 : Rat) < m := lt_of_mul_lt_mul_right hge hpos.le
    have hcast : (2 ^ 52 : Rat) < m + 1 := by linarith
    have hnat : 2 ^ 52 < m + 1 := by exact_mod_cast hcast
    have he : e - 1 < 971 := by
      have hhalf : (2 : Rat) ^ e = 2 ^ (e - 1) * 2 := by
        rw [← zpow_add_one₀ (by norm_num), Int.sub_add_cancel]
      have hless := two_zpow_pos (e - 1)
      refine exponent_lt hlimit (le_trans ?_ hlow)
      rw [hhalf]
      linarith
    exact Or.inr ⟨by rw [Nat.pow_eq]; omega, hm, hlowest, by omega⟩

/-- Every ratio below the limit has a nearest number. -/
theorem exists_ofRatio? (negative : Bool) (num : Nat) {den : Nat} (hden : 0 < den)
    (hlimit : (num : Rat) / den < limit) :
    ∃ x, ofRatio? negative num den = some x ∧ Nearest (num / den) x := by
  by_cases hnum : num = 0
  · have hzero : (zero negative).magnitude = 0 := by simp [magnitude, zero]
    have hpos := two_zpow_pos (-1074)
    refine ⟨zero negative, by rw [ofRatio?, if_pos hnum], -1074, Or.inl rfl, ?_⟩
    rw [hzero, hnum, Nat.cast_zero, zero_div, sub_zero, abs_zero]
    linarith
  obtain ⟨e, hround, hlowest, hlow, hhigh⟩ := exists_exponent hnum hden.ne'
  have hnear := roundAt_near num hden e
  rw [hround]
  generalize roundAt num den e = m at hnear
  generalize (num : Rat) / den = v at *
  split
  · -- Rounding carried into one more binary digit.
    rename_i hcarry
    rw [hcarry, Nat.pow_eq, Nat.cast_pow, Nat.cast_ofNat] at hnear
    have he : e < 971 := by
      refine exponent_lt hlimit ?_
      have hnear1 := (abs_le.mp hnear).2
      linarith
    have hform : Canonical (Nat.pow 2 52) (e + 1) :=
      Or.inr ⟨Nat.le_refl _, by decide, by omega, he⟩
    refine ⟨⟨negative, Nat.pow 2 52, e + 1, hform⟩, by rw [mk?, dif_pos hform], e, hlow, ?_⟩
    have hvalue : (⟨negative, Nat.pow 2 52, e + 1, hform⟩ : Double).magnitude = 2 ^ 53 * 2 ^ e := by
      show ((Nat.pow 2 52 : Nat) : Rat) * 2 ^ (e + 1) = _
      rw [zpow_add_one₀ (by norm_num), Nat.pow_eq, Nat.cast_pow, Nat.cast_ofNat]
      ring
    rwa [hvalue]
  · rename_i hcarry
    have hform : Canonical m e := canonical_of_near hlimit hlowest hlow hhigh hnear hcarry
    exact ⟨⟨negative, m, e, hform⟩, by rw [mk?, dif_pos hform], e, hlow, hnear⟩

/-! ## Products and quotients -/

theorem ratio_eq (x : Double) : 0 < x.ratio.2 ∧ (x.ratio.1 : Rat) / x.ratio.2 = x.magnitude := by
  rw [ratio, magnitude]
  split
  · rename_i he
    refine ⟨Nat.one_pos, ?_⟩
    rw [Nat.cast_one, div_one, Nat.cast_mul, natCast_pow_toNat 2 he, Nat.cast_ofNat]
  · rename_i he
    refine ⟨Nat.pow_pos (by decide), ?_⟩
    rw [natCast_pow_toNat 2 (by omega), Nat.cast_ofNat, zpow_neg, div_inv_eq_mul]

theorem magnitude_eq_zero {x : Double} (h : x.isZero = true) : x.magnitude = 0 := by
  have hzero : x.significand = 0 := by simpa [isZero] using h
  rw [magnitude, hzero, Nat.cast_zero, zero_mul]

theorem exists_ofScaled? (negative : Bool) (m : Nat) (e : Int) (h : (m : Rat) * 2 ^ e < limit) :
    ∃ x, ofScaled? negative m e = some x := by
  rw [ofScaled?]
  split
  · rename_i he
    have hratio : ((m * Nat.pow 2 e.toNat : Nat) : Rat) / (1 : Nat) = m * 2 ^ e := by
      rw [Nat.cast_one, div_one, Nat.cast_mul, natCast_pow_toNat 2 he, Nat.cast_ofNat]
    obtain ⟨x, hx, -⟩ := exists_ofRatio? negative _ Nat.one_pos (hratio ▸ h)
    exact ⟨x, hx⟩
  · rename_i he
    have hratio : (m : Rat) / (Nat.pow 2 (-e).toNat : Nat) = m * 2 ^ e := by
      rw [natCast_pow_toNat 2 (by omega), Nat.cast_ofNat, zpow_neg, div_inv_eq_mul]
    obtain ⟨x, hx, -⟩ := exists_ofRatio? negative m (Nat.pow_pos (by decide)) (hratio ▸ h)
    exact ⟨x, hx⟩

theorem exists_mul? {x y : Double} (h : x.magnitude * y.magnitude < limit) :
    ∃ z, x.mul? y = some z := by
  refine exists_ofScaled? _ _ _ ?_
  have hproduct : ((x.significand * y.significand : Nat) : Rat) * 2 ^ (x.exponent + y.exponent) =
      x.magnitude * y.magnitude := by
    rw [magnitude, magnitude, Nat.cast_mul, zpow_add₀ (by norm_num)]
    ring
  rwa [hproduct]

/-- A number divided by one that is no smaller than one is a number. -/
theorem exists_div? {x y : Double} (h : 1 ≤ y.magnitude) : ∃ z, x.div? y = some z := by
  have hzero : ¬y.isZero = true := by
    intro hzero
    rw [magnitude_eq_zero hzero] at h
    norm_num at h
  have hpos : 0 < y.magnitude := by linarith
  obtain ⟨hxden, hx⟩ := x.ratio_eq
  obtain ⟨hyden, hy⟩ := y.ratio_eq
  have hynum : 0 < y.ratio.1 := by
    rw [Nat.pos_iff_ne_zero]
    intro hnum
    rw [hnum, Nat.cast_zero, zero_div] at hy
    linarith
  have hquotient : ((x.ratio.1 * y.ratio.2 : Nat) : Rat) / (x.ratio.2 * y.ratio.1 : Nat) =
      x.magnitude / y.magnitude := by
    rw [← hx, ← hy, Nat.cast_mul, Nat.cast_mul, div_div_div_eq]
  have hle : x.magnitude / y.magnitude ≤ x.magnitude :=
    div_le_self (mul_nonneg (Nat.cast_nonneg _) (two_zpow_pos _).le) h
  obtain ⟨z, hz, -⟩ := exists_ofRatio? (x.negative != y.negative) (x.ratio.1 * y.ratio.2)
    (Nat.mul_pos hxden hynum) (hquotient ▸ hle.trans_lt x.magnitude_lt)
  refine ⟨z, ?_⟩
  rw [div?, if_neg hzero]
  exact hz

/-! ## Scaling by powers of ten -/

theorem exists_ofNat? {n : Nat} (h : (n : Rat) < limit) : ∃ x, ofNat? n = some x ∧ Nearest n x := by
  have hratio : (n : Rat) / (1 : Nat) = n := by rw [Nat.cast_one, div_one]
  obtain ⟨x, hx, hnear⟩ := exists_ofRatio? false n Nat.one_pos (hratio.symm ▸ h)
  exact ⟨x, hx, hratio ▸ hnear⟩

/-- The largest power of ten is `10^308`. -/
theorem pow_ten_lt_limit {k : Nat} : (10 : Rat) ^ k < limit ↔ k ≤ 308 := by
  have hlimit : limit = (((2 ^ 54 - 1) * 2 ^ 970 : Nat) : Rat) := by
    have hsplit : (2 : Rat) ^ (971 : Int) = 2 * 2 ^ 970 := by
      rw [← pow_succ']
      rfl
    have hdigits : ((2 ^ 54 - 1 : Nat) : Rat) = 2 ^ 54 - 1 := by norm_num
    rw [limit, hsplit, Nat.cast_mul, hdigits, Nat.cast_pow, Nat.cast_ofNat, ← mul_assoc]
    norm_num
  have hcast : (10 : Rat) ^ k = ((10 ^ k : Nat) : Rat) := by rw [Nat.cast_pow, Nat.cast_ofNat]
  have hmono : ∀ {i j : Nat}, i ≤ j → 10 ^ i ≤ 10 ^ j := Nat.pow_le_pow_right (by decide)
  have hnext : ∀ {i j : Nat}, i < j → 10 ^ i * 10 ≤ 10 ^ j := fun h => by
    rw [← Nat.pow_succ]
    exact hmono h
  have hlow : 10 ^ 308 < (2 ^ 54 - 1) * 2 ^ 970 := by decide +kernel
  have hhigh : (2 ^ 54 - 1) * 2 ^ 970 < 10 ^ 308 * 10 := by decide +kernel
  rw [hcast, hlimit, Nat.cast_lt]
  constructor
  · intro h
    by_contra hk
    exact absurd (h.trans hhigh) (Nat.not_lt.mpr (hnext (Nat.lt_of_not_le hk)))
  · intro hk
    exact (hmono hk).trans_lt hlow

theorem exists_powTen? {k : Nat} (hk : k ≤ 308) :
    ∃ y, powTen? k = some y ∧ |y.magnitude - 10 ^ k| ≤ 10 ^ k / 2 ^ 53 := by
  have hcast : ((Nat.pow 10 k : Nat) : Rat) = 10 ^ k := by
    rw [Nat.pow_eq, Nat.cast_pow, Nat.cast_ofNat]
  obtain ⟨y, hy, hnear⟩ := exists_ofNat? (hcast ▸ pow_ten_lt_limit.mpr hk)
  rw [hcast] at hnear
  exact ⟨y, hy, hnear.abs_sub_le (one_le_pow₀ (by norm_num))⟩

theorem one_le_powTen {k : Nat} (h : 1 ≤ k) (hk : k ≤ 308) :
    ∃ y, powTen? k = some y ∧ 1 ≤ y.magnitude := by
  obtain ⟨y, hy, hnear⟩ := exists_powTen? hk
  have hten : (10 : Rat) ≤ 10 ^ k := le_self_pow₀ (by norm_num) (by omega)
  have hshare : (10 : Rat) ^ k / 2 ^ 53 ≤ 10 ^ k / 2 := by
    gcongr
    norm_num
  have hlow := (abs_le.mp hnear).1
  exact ⟨y, hy, by linarith⟩

/-- Dividing by a power of ten always gives a number. -/
theorem exists_scaleDown (x : Double) (k : Nat) (h : 1 ≤ k) : ∃ z, x.scaleDown k = some z := by
  rw [scaleDown]
  split
  · rename_i hk
    obtain ⟨y, hy, hone⟩ := one_le_powTen h hk
    rw [hy]
    exact exists_div? hone
  · split
    · exact ⟨x, rfl⟩
    · obtain ⟨y, hy, hone⟩ := one_le_powTen (by decide : 1 ≤ 308) (Nat.le_refl 308)
      obtain ⟨z, hz⟩ := exists_div? (x := x) hone
      rw [hy, Option.bind_eq_bind, Option.bind_some, hz]
      exact exists_scaleDown z (k - 308) (by omega)
termination_by k

/-- Multiplying by a power of ten gives a number when the power has room to be rounded. -/
theorem exists_scaleUp {x : Double} {k : Nat} (hk : k ≤ 308)
    (h : x.magnitude * (10 ^ k * (1 + 1 / 2 ^ 53)) < limit) : ∃ z, x.scaleUp k = some z := by
  obtain ⟨y, hy, hnear⟩ := exists_powTen? hk
  have hle : y.magnitude ≤ 10 ^ k * (1 + 1 / 2 ^ 53) := by
    have hhigh := (abs_le.mp hnear).2
    linarith
  have hnonneg : 0 ≤ x.magnitude := mul_nonneg (Nat.cast_nonneg _) (two_zpow_pos _).le
  rw [scaleUp, if_pos hk, hy]
  exact exists_mul? ((mul_le_mul_of_nonneg_left hle hnonneg).trans_lt h)

/-- A rounded significand times a power of ten is a number when there is room for both roundings. -/
theorem exists_scaleUp_ofNat? {m n : Nat} {x : Double} (hx : ofNat? m = some x)
    (hnear : Nearest m x) (h : (m : Rat) * 10 ^ n * (1 + 1 / 2 ^ 53) ^ 2 < limit) :
    ∃ y, x.scaleUp n = some y := by
  rcases Nat.eq_zero_or_pos m with rfl | hpos
  · obtain rfl : zero false = x := Option.some.inj hx
    by_cases hn : n ≤ 308
    · refine exists_scaleUp hn ?_
      rw [Nat.cast_zero, zero_mul, zero_mul] at h
      rwa [magnitude_eq_zero rfl, zero_mul]
    · exact ⟨zero false, by rw [scaleUp, if_neg hn]; rfl⟩
  · have hone : (1 : Rat) ≤ m := by exact_mod_cast hpos
    have hten : (0 : Rat) < 10 ^ n := by positivity
    have hpower : (10 : Rat) ^ n ≤ m * 10 ^ n * (1 + 1 / 2 ^ 53) ^ 2 := by
      rw [mul_right_comm]
      exact le_mul_of_one_le_left hten.le (one_le_mul_of_one_le_of_one_le hone (by norm_num))
    refine exists_scaleUp (pow_ten_lt_limit.mp (hpower.trans_lt h)) ?_
    have hle : x.magnitude ≤ m * (1 + 1 / 2 ^ 53) := by
      have hhigh := (abs_le.mp (hnear.abs_sub_le hone)).2
      linarith
    have hfactor : (0 : Rat) ≤ 10 ^ n * (1 + 1 / 2 ^ 53) := by positivity
    calc
      x.magnitude * (10 ^ n * (1 + 1 / 2 ^ 53))
        ≤ m * (1 + 1 / 2 ^ 53) * (10 ^ n * (1 + 1 / 2 ^ 53)) :=
          mul_le_mul_of_nonneg_right hle hfactor
      _ = m * 10 ^ n * (1 + 1 / 2 ^ 53) ^ 2 := by ring
      _ < limit := h

/-- A significand of a word times a power of ten gives a number when there is room for rounding
twice. -/
theorem exists_ofDecimal? (negative : Bool) {m : Nat} (hm : m < 2 ^ 64) {k : Int}
    (h : (m : Rat) * 10 ^ k * (1 + 1 / 2 ^ 53) ^ 2 < limit) :
    ∃ y, ofDecimal? negative m k = some y := by
  have hword : (m : Rat) < limit := by
    have hlt : (m : Rat) < 2 ^ 64 := by exact_mod_cast hm
    have hten : (2 : Rat) ^ 64 < 10 ^ 308 := by
      calc
        (2 : Rat) ^ 64 < 10 ^ 64 := by norm_num
        _ ≤ 10 ^ 308 := pow_le_pow_right₀ (by norm_num) (by decide)
    exact (hlt.trans hten).trans (pow_ten_lt_limit.mpr (Nat.le_refl 308))
  obtain ⟨x, hx, hnear⟩ := exists_ofNat? hword
  rw [ofDecimal?, hx]
  by_cases hk : 0 ≤ k
  · obtain ⟨n, rfl⟩ := Int.eq_ofNat_of_zero_le hk
    rw [zpow_natCast] at h
    obtain ⟨y, hy⟩ := exists_scaleUp_ofNat? hx hnear h
    refine ⟨if negative then y.neg else y, ?_⟩
    rw [Option.bind_eq_bind, Option.bind_some, if_pos hk, Int.toNat_natCast, hy]
    rfl
  · obtain ⟨y, hy⟩ := exists_scaleDown x (-k).toNat (by omega)
    refine ⟨if negative then y.neg else y, ?_⟩
    rw [Option.bind_eq_bind, Option.bind_some, if_neg hk, hy]
    rfl

end PolicyProbe.Double
