import Mathlib.Tactic.Ring
import PolicyProbe.Text.Digits

/-!
Digits read back. `toNat_ofNat` says that the digits of a number stand for it, `span_map` that the
run of digits at the front of a text is the one that was written there, whatever follows it, as long
as what follows is no further digit (`Stops`).
-/
namespace PolicyProbe.Digits

/-- What follows a run of digits is no digit. -/
def Stops (value? : Char → Option Nat) (text : List Char) : Prop :=
  ∀ c ∈ text.head?, value? c = none

theorem stops_nil (value? : Char → Option Nat) : Stops value? [] := by
  intro c hc
  simp at hc

theorem stops_cons {value? : Char → Option Nat} {c : Char} {rest : List Char}
    (h : value? c = none) : Stops value? (c :: rest) := by
  intro d hd
  simp only [List.head?_cons, Option.mem_def, Option.some.injEq] at hd
  rw [← hd]
  exact h

/-! ## Digits and numbers -/

theorem ofNat_ne_nil (base n : Nat) : ofNat base n ≠ [] := by
  rw [ofNat]
  split <;> simp

theorem toNat_append (base : Nat) (ds es : List Nat) :
    toNat base (ds ++ es) = toNat base ds * base ^ es.length + toNat base es := by
  have hfold : ∀ (es : List Nat) (n : Nat),
      es.foldl (fun n d => n * base + d) n = n * base ^ es.length + toNat base es := by
    intro es
    induction es with
    | nil => intro n; simp [toNat]
    | cons e es ih =>
      intro n
      have hzero : toNat base (e :: es) = es.foldl (fun n d => n * base + d) (0 * base + e) := rfl
      rw [List.foldl_cons, ih, hzero, ih, List.length_cons, Nat.pow_succ]
      ring
  rw [toNat, List.foldl_append]
  exact hfold es _

theorem toNat_singleton (base d : Nat) : toNat base [d] = d := by
  simp [toNat]

theorem toNat_cons (base d : Nat) (ds : List Nat) :
    toNat base (d :: ds) = d * base ^ ds.length + toNat base ds := by
  rw [← List.singleton_append, toNat_append, toNat_singleton]

theorem toNat_zeros (base k : Nat) : toNat base (List.replicate k 0) = 0 := by
  induction k with
  | zero => rfl
  | succ k ih => rw [List.replicate_succ, toNat_cons, ih, Nat.zero_mul]

/-- The digits of a number stand for it. -/
theorem toNat_ofNat (base n : Nat) : toNat base (ofNat base n) = n := by
  rw [ofNat]
  split
  · simp [toNat]
  · rename_i h
    have hlt : n / base < n := Nat.div_lt_self (by omega) (by omega)
    rw [toNat_append, toNat_ofNat base (n / base), toNat_singleton, List.length_singleton,
      Nat.pow_one]
    exact Nat.div_add_mod' n base
termination_by n

theorem lt_of_mem_ofNat {base : Nat} (hb : 2 ≤ base) (n : Nat) :
    ∀ d ∈ ofNat base n, d < base := by
  rw [ofNat]
  split
  · rename_i h
    intro d hd
    rw [List.mem_singleton] at hd
    omega
  · rename_i h
    have hlt : n / base < n := Nat.div_lt_self (by omega) (by omega)
    intro d hd
    rcases List.mem_append.mp hd with hd | hd
    · exact lt_of_mem_ofNat hb (n / base) d hd
    · rw [List.mem_singleton] at hd
      rw [hd]
      exact Nat.mod_lt n (by omega)
termination_by n

/-- A number below a power of the base has no more digits than the power says. -/
theorem length_ofNat_le {base : Nat} (hb : 2 ≤ base) :
    ∀ (k n : Nat), n < base ^ (k + 1) → (ofNat base n).length ≤ k + 1 := by
  intro k
  induction k with
  | zero =>
    intro n hn
    rw [ofNat, if_pos (Or.inl (by simpa using hn))]
    simp
  | succ k ih =>
    intro n hn
    rw [ofNat]
    split
    · simp
    · have hq : n / base < base ^ (k + 1) := by
        rw [Nat.div_lt_iff_lt_mul (by omega), ← Nat.pow_succ]
        exact hn
      have := ih (n / base) hq
      simp only [List.length_append, List.length_cons, List.length_nil]
      omega

/-- Only zero is written with a zero in front. -/
theorem head_ofNat_pos {base n : Nat} (hb : 2 ≤ base) (hn : 0 < n) {d : Nat} {ds : List Nat}
    (h : ofNat base n = d :: ds) : 0 < d := by
  rw [ofNat] at h
  split at h
  · simp only [List.cons.injEq] at h
    omega
  · rename_i hc
    have hlt : n / base < n := Nat.div_lt_self (by omega) (by omega)
    have hpos : 0 < n / base := Nat.div_pos (by omega) (by omega)
    cases hq : ofNat base (n / base) with
    | nil => exact absurd hq (ofNat_ne_nil base (n / base))
    | cons e es =>
      rw [hq] at h
      simp only [List.cons_append, List.cons.injEq] at h
      rw [← h.1]
      exact head_ofNat_pos hb hpos hq
termination_by n

/-! ## Digits and characters -/

theorem decimalValue_digitChar : ∀ d < 10, decimalValue? (Nat.digitChar d) = some d := by decide

theorem hexValue_digitChar : ∀ d < 16, hexValue? (Nat.digitChar d) = some d := by decide

theorem digitChar_mem_decimal (n : Nat) :
    ∀ d ∈ ofNat 10 n, decimalValue? (Nat.digitChar d) = some d :=
  fun d hd => decimalValue_digitChar d (lt_of_mem_ofNat (by decide) n d hd)

theorem digitChar_mem_hex (n : Nat) : ∀ d ∈ ofNat 16 n, hexValue? (Nat.digitChar d) = some d :=
  fun d hd => hexValue_digitChar d (lt_of_mem_ofNat (by decide) n d hd)

theorem span_of_stops {value? : Char → Option Nat} {text : List Char} (h : Stops value? text) :
    span value? text = ([], text) := by
  cases text with
  | nil => rfl
  | cons c rest =>
    have hc : value? c = none := h c (by simp)
    simp [span, hc]

/-- A run of digits is found as it was written. -/
theorem span_map {value? : Char → Option Nat} {ds : List Nat} {text : List Char}
    (hd : ∀ d ∈ ds, value? (Nat.digitChar d) = some d) (h : Stops value? text) :
    span value? (ds.map Nat.digitChar ++ text) = (ds, text) := by
  induction ds with
  | nil => exact span_of_stops h
  | cons d ds ih =>
    have hv := hd d List.mem_cons_self
    have := ih (fun e he => hd e (List.mem_cons_of_mem d he))
    simp only [List.map_cons, List.cons_append, span, hv, this]

theorem span_decimal (n : Nat) {text : List Char} (h : Stops decimalValue? text) :
    span decimalValue? (decimal n ++ text) = (ofNat 10 n, text) :=
  span_map (digitChar_mem_decimal n) h

theorem span_hex (n : Nat) {text : List Char} (h : Stops hexValue? text) :
    span hexValue? (chars 16 n ++ text) = (ofNat 16 n, text) :=
  span_map (digitChar_mem_hex n) h

/-! ## Digits of a fixed width -/

/-- The digits of a number with zeros in front up to a width. -/
def fixed (base width n : Nat) : List Nat :=
  List.replicate (width - (ofNat base n).length) 0 ++ ofNat base n

theorem padded_eq_map (base width n : Nat) :
    padded base width n = (fixed base width n).map Nat.digitChar := by
  simp [padded, fixed, chars, Nat.digitChar]

/-- Zeros in front do not count. -/
theorem toNat_fixed (base width n : Nat) : toNat base (fixed base width n) = n := by
  rw [fixed, toNat_append, toNat_zeros, Nat.zero_mul, Nat.zero_add, toNat_ofNat]

theorem lt_of_mem_fixed {base : Nat} (hb : 2 ≤ base) (width n : Nat) :
    ∀ d ∈ fixed base width n, d < base := by
  intro d hd
  rcases List.mem_append.mp hd with hd | hd
  · rw [(List.mem_replicate.mp hd).2]
    omega
  · exact lt_of_mem_ofNat hb n d hd

theorem length_fixed {base : Nat} (hb : 2 ≤ base) {width n : Nat} (hn : n < base ^ (width + 1)) :
    (fixed base (width + 1) n).length = width + 1 := by
  have hlen := length_ofNat_le hb width n hn
  simp only [fixed, List.length_append, List.length_replicate]
  omega

theorem fixed_ne_nil (base width n : Nat) : fixed base width n ≠ [] := by
  simp [fixed, ofNat_ne_nil]

/-! ## The order of digits of a fixed width -/

theorem toNat_lt {base : Nat} {ds : List Nat} (h : ∀ d ∈ ds, d < base) :
    toNat base ds < base ^ ds.length := by
  induction ds with
  | nil => simp [toNat]
  | cons d ds ih =>
    have hd : d < base := h d List.mem_cons_self
    have hrest := ih fun e he => h e (List.mem_cons_of_mem d he)
    rw [toNat_cons, List.length_cons, Nat.pow_succ]
    calc
      d * base ^ ds.length + toNat base ds
        < d * base ^ ds.length + base ^ ds.length := Nat.add_lt_add_left hrest _
      _ = (d + 1) * base ^ ds.length := by ring
      _ ≤ base * base ^ ds.length := Nat.mul_le_mul_right _ hd
      _ = base ^ ds.length * base := Nat.mul_comm _ _

theorem digitChar_lt : ∀ d < 10, ∀ e < 10, (Nat.digitChar d < Nat.digitChar e ↔ d < e) := by
  decide

theorem digitChar_inj : ∀ d < 10, ∀ e < 10, Nat.digitChar d = Nat.digitChar e → d = e := by
  decide

/-- In front of other texts, digits of one width are ordered as the numbers they stand for. -/
theorem map_append_lt {ds es : List Nat} (hd : ∀ d ∈ ds, d < 10) (he : ∀ e ∈ es, e < 10)
    (hlen : ds.length = es.length) (x y : List Char) :
    ds.map Nat.digitChar ++ x < es.map Nat.digitChar ++ y ↔
      toNat 10 ds < toNat 10 es ∨ toNat 10 ds = toNat 10 es ∧ x < y := by
  induction ds generalizing es with
  | nil =>
    cases es with
    | nil => simp [toNat]
    | cons e es => exact nomatch hlen
  | cons d ds ih =>
    cases es with
    | nil => exact nomatch hlen
    | cons e es =>
      have hlen' : ds.length = es.length := Nat.succ.inj hlen
      have hd0 : d < 10 := hd d List.mem_cons_self
      have he0 : e < 10 := he e List.mem_cons_self
      have hds : ∀ d ∈ ds, d < 10 := fun c hc => hd c (List.mem_cons_of_mem d hc)
      have hes : ∀ e ∈ es, e < 10 := fun c hc => he c (List.mem_cons_of_mem e hc)
      have hm := toNat_lt hds
      have hn := toNat_lt hes
      rw [← hlen'] at hn
      have hchar := digitChar_lt d hd0 e he0
      simp only [List.map_cons, List.cons_append, List.cons_lt_cons_iff, ih hds hes hlen',
        toNat_cons, ← hlen', hchar]
      -- A larger digit in front outweighs all digits behind it.
      rcases Nat.lt_trichotomy d e with hlt | rfl | hgt
      · have hmul : (d + 1) * 10 ^ ds.length ≤ e * 10 ^ ds.length := Nat.mul_le_mul_right _ hlt
        rw [Nat.succ_mul] at hmul
        exact ⟨fun _ => Or.inl (by omega), fun _ => Or.inl hlt⟩
      · have hirrefl : ¬d < d := Nat.lt_irrefl d
        simp only [hirrefl, true_and, false_or, Nat.add_lt_add_iff_left, Nat.add_left_cancel_iff]
      · have hmul : (e + 1) * 10 ^ ds.length ≤ d * 10 ^ ds.length := Nat.mul_le_mul_right _ hgt
        rw [Nat.succ_mul] at hmul
        have hne : Nat.digitChar d ≠ Nat.digitChar e := fun h =>
          absurd (digitChar_inj d hd0 e he0 h) (by omega)
        constructor
        · rintro (h | ⟨h, -⟩)
          · omega
          · exact absurd h hne
        · intro h
          omega

theorem padded_append_lt {width m n : Nat} (hm : m < 10 ^ (width + 1)) (hn : n < 10 ^ (width + 1))
    (x y : List Char) : padded 10 (width + 1) m ++ x < padded 10 (width + 1) n ++ y ↔
      m < n ∨ m = n ∧ x < y := by
  have hlen : (fixed 10 (width + 1) m).length = (fixed 10 (width + 1) n).length := by
    rw [length_fixed (by decide) hm, length_fixed (by decide) hn]
  have hlt := map_append_lt (lt_of_mem_fixed (by decide) _ m) (lt_of_mem_fixed (by decide) _ n)
    hlen x y
  rwa [toNat_fixed, toNat_fixed, ← padded_eq_map, ← padded_eq_map] at hlt

end PolicyProbe.Digits
