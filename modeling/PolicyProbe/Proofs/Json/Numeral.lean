import Mathlib.Data.List.Induction
import PolicyProbe.Json.Numeral
import PolicyProbe.Json.Value
import PolicyProbe.Proofs.Text.Digits

/-!
Numbers read back. `Numeral.chars` is the text that a numeral is read from, `read_chars` says that
it is read again, whatever follows it, as long as that cannot go on with the number (`Follows`). The
texts of whole and of floating point numbers are texts of well-formed numerals, and that of a
floating point number stands for its shortest decimal (`Shows`).
-/
namespace PolicyProbe

namespace Numeral

open Digits

/-! ## The text of a numeral -/

/-- The point and the digits behind it. -/
def fractionChars : Option (List Nat) → List Char
  | none => []
  | some ds => '.' :: ds.map Nat.digitChar

/-- The exponent with its sign. -/
def exponentChars : Option (Bool × List Nat) → List Char
  | none => []
  | some (down, ds) => 'e' :: (if down then '-' else '+') :: ds.map Nat.digitChar

/-- The text of a numeral. -/
def chars (n : Numeral) : List Char :=
  (if n.negative then ['-'] else []) ++
    (n.whole.map Nat.digitChar ++ (fractionChars n.fraction ++ exponentChars n.exponent))

/-- Some digits, at least one. -/
def IsDigits (ds : List Nat) : Prop := ds ≠ [] ∧ ∀ d ∈ ds, d < 10

/-- The digits of a whole part: no zero in front of others. -/
def IsWhole (ds : List Nat) : Prop := IsDigits ds ∧ (ds.length = 1 ∨ ds.head? ≠ some 0)

/-- A numeral that has a text. -/
structure WellFormed (n : Numeral) : Prop where
  whole : IsWhole n.whole
  fraction : ∀ ds ∈ n.fraction, IsDigits ds
  exponent : ∀ e ∈ n.exponent, IsDigits e.2

/-- What follows a number does not go on with it. -/
def Follows (text : List Char) : Prop :=
  ∀ c ∈ text.head?, decimalValue? c = none ∧ c ≠ '.' ∧ c ≠ 'e' ∧ c ≠ 'E'

theorem follows_nil : Follows [] := by
  intro c hc
  simp at hc

theorem follows_cons {c : Char} {text : List Char}
    (h : decimalValue? c = none ∧ c ≠ '.' ∧ c ≠ 'e' ∧ c ≠ 'E') : Follows (c :: text) := by
  intro d hd
  simp only [List.head?_cons, Option.mem_def, Option.some.injEq] at hd
  rw [← hd]
  exact h

theorem Follows.stops {text : List Char} (h : Follows text) : Stops decimalValue? text :=
  fun c hc => (h c hc).1

theorem span_digits {ds : List Nat} (hd : ∀ d ∈ ds, d < 10) {text : List Char}
    (h : Stops decimalValue? text) :
    span decimalValue? (ds.map Nat.digitChar ++ text) = (ds, text) :=
  span_map (fun d hm => decimalValue_digitChar d (hd d hm)) h

theorem readWhole_map {ds : List Nat} (hw : IsWhole ds) {text : List Char}
    (h : Stops decimalValue? text) :
    readWhole (ds.map Nat.digitChar ++ text) = some (ds, text) := by
  obtain ⟨⟨hne, hlt⟩, hz⟩ := hw
  rw [readWhole, span_digits hlt h]
  match ds, hne, hz with
  | [d], _, _ => rfl
  | d :: e :: ds, _, hz =>
    have hd : d ≠ 0 := by simpa using hz
    simp only [if_neg hd]

theorem stops_exponentChars (e : Option (Bool × List Nat)) {text : List Char} (h : Follows text) :
    Stops decimalValue? (exponentChars e ++ text) := by
  cases e with
  | none => exact h.stops
  | some e => exact stops_cons (by decide)

theorem stops_fractionChars (f : Option (List Nat)) {text : List Char}
    (h : Stops decimalValue? text) : Stops decimalValue? (fractionChars f ++ text) := by
  cases f with
  | none => exact h
  | some ds => exact stops_cons (by decide)

theorem readFraction_chars {f : Option (List Nat)} (hf : ∀ ds ∈ f, IsDigits ds) {text : List Char}
    (h : Stops decimalValue? text) (hp : ∀ c ∈ text.head?, c ≠ '.') :
    readFraction (fractionChars f ++ text) = some (f, text) := by
  cases f with
  | none =>
    rw [fractionChars, List.nil_append]
    unfold readFraction
    split
    · exact absurd rfl (hp '.' (by simp))
    · rfl
  | some ds =>
    obtain ⟨hne, hlt⟩ := hf ds rfl
    rw [fractionChars, List.cons_append, readFraction, span_digits hlt h]
    cases ds with
    | nil => exact absurd rfl hne
    | cons d ds => rfl

theorem readExponent_chars {e : Option (Bool × List Nat)} (he : ∀ x ∈ e, IsDigits x.2)
    {text : List Char} (h : Follows text) :
    readExponent (exponentChars e ++ text) = some (e, text) := by
  cases e with
  | none =>
    rw [exponentChars, List.nil_append]
    cases text with
    | nil => rfl
    | cons c text =>
      obtain ⟨-, -, h1, h2⟩ := h c (by simp)
      simp only [readExponent, h1, h2, or_self, if_false]
  | some e =>
    obtain ⟨down, ds⟩ := e
    obtain ⟨hne, hlt⟩ := he _ rfl
    cases ds with
    | nil => exact absurd rfl hne
    | cons d ds =>
      have hspan := span_digits hlt h.stops
      cases down <;>
        simp only [exponentChars, List.cons_append, readExponent, true_or, if_true, if_false,
          readSign, hspan, Bool.false_eq_true]

/-- A number without its sign does not start with one. -/
theorem head_digits_ne {ds : List Nat} (hd : IsDigits ds) (text : List Char) :
    ∀ rest, ds.map Nat.digitChar ++ text ≠ '-' :: rest := by
  obtain ⟨hne, hlt⟩ := hd
  intro rest h
  cases ds with
  | nil => exact hne rfl
  | cons d ds =>
    simp only [List.map_cons, List.cons_append, List.cons.injEq] at h
    have hv := decimalValue_digitChar d (hlt d List.mem_cons_self)
    have hminus : decimalValue? '-' = none := by decide
    rw [h.1, hminus] at hv
    exact absurd hv (by simp)

/-- A well-formed numeral is read from its text. -/
theorem read_chars {n : Numeral} (hn : WellFormed n) {tail : List Char} (h : Follows tail) :
    read (n.chars ++ tail) = some (n, tail) := by
  obtain ⟨negative, whole, fraction, exponent⟩ := n
  obtain ⟨hw, hf, he⟩ := hn
  dsimp only at hw hf he
  -- A numeral without a fraction must not go on with a point.
  have hpoint : ∀ c ∈ (exponentChars exponent ++ tail).head?, c ≠ '.' := by
    intro c hc
    cases exponent with
    | none => exact (h c hc).2.1
    | some e =>
      simp only [exponentChars, List.cons_append, List.head?_cons, Option.mem_def,
        Option.some.injEq] at hc
      rw [← hc]
      decide
  have h1 := readWhole_map hw
    (stops_fractionChars fraction (stops_exponentChars exponent h))
  have h2 := readFraction_chars hf (stops_exponentChars exponent h) hpoint
  have h3 := readExponent_chars he h
  cases negative with
  | true =>
    have hchars : chars ⟨true, whole, fraction, exponent⟩ ++ tail = '-' ::
        (whole.map Nat.digitChar ++ (fractionChars fraction ++ (exponentChars exponent ++ tail))) :=
      by simp [chars]
    rw [hchars, read]
    simp only [Option.bind_eq_bind, h1, h2, h3, Option.bind_some]
    rfl
  | false =>
    have hchars : chars ⟨false, whole, fraction, exponent⟩ ++ tail =
        whole.map Nat.digitChar ++ (fractionChars fraction ++ (exponentChars exponent ++ tail)) :=
      by simp [chars]
    rw [hchars, read]
    · simp only [Option.bind_eq_bind, h1, h2, h3, Option.bind_some]
      rfl
    · exact head_digits_ne hw.1 _

/-! ## Whole numbers -/

/-- The numeral of a whole number. -/
def ofInt (n : Int) : Numeral := ⟨decide (n < 0), ofNat 10 n.natAbs, none, none⟩

theorem isDigits_ofNat (n : Nat) : IsDigits (ofNat 10 n) :=
  ⟨ofNat_ne_nil 10 n, lt_of_mem_ofNat (by decide) n⟩

theorem isWhole_ofNat (n : Nat) : IsWhole (ofNat 10 n) := by
  refine ⟨isDigits_ofNat n, ?_⟩
  by_cases hn : n = 0
  · left
    rw [hn]
    decide +kernel
  · right
    cases h : ofNat 10 n with
    | nil => simp
    | cons d ds =>
      have := head_ofNat_pos (by decide : 2 ≤ 10) (Nat.pos_of_ne_zero hn) h
      simp only [List.head?_cons, ne_eq, Option.some.injEq]
      omega

theorem wellFormed_ofInt (n : Int) : WellFormed (ofInt n) :=
  ⟨isWhole_ofNat n.natAbs, by simp [ofInt], by simp [ofInt]⟩

theorem chars_ofInt (n : Int) : (ofInt n).chars = Json.intText n := by
  by_cases h : n < 0 <;>
    simp [chars, ofInt, Json.intText, h, fractionChars, exponentChars, decimal, Digits.chars]

/-- A whole number that fits a word, signed or not, reads as itself. -/
theorem int?_ofInt {n : Int} (hl : -(2 ^ 63 : Int) ≤ n) (hu : n < 2 ^ 64) :
    (ofInt n).int? = some n := by
  have hw : wordBound = 2 ^ 64 := rfl
  have hp : Nat.pow 2 63 = 2 ^ 63 := rfl
  simp only [int?, ofInt, toNat_ofNat, hw, hp]
  by_cases h : n < 0
  · simp only [h, decide_true, if_true, Option.isSome_none, Bool.false_eq_true, or_self, if_false]
    rw [if_neg (by omega)]
    congr 1
    omega
  · simp only [h, decide_false, Option.isSome_none, Bool.false_eq_true, or_self, if_false]
    rw [if_pos (by omega)]
    congr 1
    omega

/-! ## What a numeral stands for -/

/-- The digits of a numeral, those behind the point as well. -/
def digits (n : Numeral) : List Nat := n.whole ++ n.fraction.getD []

/-- The exponent as a number. -/
def exponentValue : Option (Bool × List Nat) → Int
  | none => 0
  | some (down, ds) => if down then -(toNat 10 ds : Int) else toNat 10 ds

/-- The power of ten that goes with the last of the digits. -/
def power (n : Numeral) : Int := exponentValue n.exponent - (n.fraction.getD []).length

/-- A numeral shows the floating point number `m · 10^k`: it stands for it, it has a point or an
exponent, few digits in front of the point, and no zero there when there is an exponent. -/
structure Shows (n : Numeral) (m : Nat) (k : Int) : Prop where
  value : ∃ zeros : Nat, toNat 10 n.digits = m * 10 ^ zeros ∧ n.power + zeros = k
  marked : n.fraction.isSome ∨ n.exponent.isSome
  short : n.whole.length ≤ 16
  leading : n.exponent.isSome → n.whole.head? ≠ some 0

end Numeral

/-! ## Floating point numbers -/

namespace Double

open Digits Numeral

/-- Dropping the zeros at the end of some digits. -/
theorem dropWhile_zeros {ds : List Nat} (hd : ∀ d ∈ ds, d < 10) :
    ∃ kept zeros, ds = kept ++ List.replicate zeros 0 ∧
      ((ds.map Nat.digitChar).reverse.dropWhile (· == '0')).reverse = kept.map Nat.digitChar := by
  have hzero : ∀ d < 10, ((Nat.digitChar d == '0') = true ↔ d = 0) := by decide
  induction ds using List.reverseRecOn with
  | nil => exact ⟨[], 0, rfl, rfl⟩
  | append_singleton ds d ih =>
    have hlast := hzero d (hd d (by simp))
    rw [List.map_append, List.map_singleton, List.reverse_append, List.reverse_singleton,
      List.singleton_append, List.dropWhile_cons]
    by_cases h : d = 0
    · obtain ⟨kept, zeros, hds, hkept⟩ := ih fun e he => hd e (by simp [he])
      refine ⟨kept, zeros + 1, ?_, ?_⟩
      · rw [h, List.replicate_succ', ← List.append_assoc, ← hds]
      · rw [if_pos (hlast.mpr h)]
        exact hkept
    · refine ⟨ds ++ [d], 0, by simp, ?_⟩
      rw [if_neg (mt hlast.mp h)]
      simp

/-- The digits of a trimmed decimal: a single zero, or digits that do not start with one and stand
for the same number. -/
theorem trim_digits (d : Decimal) :
    ∃ ds, (d.trim).1 = ds.map Nat.digitChar ∧ IsDigits ds ∧
      (ds = [0] ∧ (d.trim).2 = 0 ∨ ds.head? ≠ some 0 ∧
        ∃ zeros : Nat, d.digits = toNat 10 ds * 10 ^ zeros ∧ (d.trim).2 = d.exponent + zeros) := by
  have hlt : ∀ e ∈ ofNat 10 d.digits, e < 10 := lt_of_mem_ofNat (by decide) d.digits
  obtain ⟨kept, zeros, hds, hkept⟩ := dropWhile_zeros hlt
  unfold Decimal.trim decimal Digits.chars
  dsimp only
  rw [hkept]
  split
  · exact ⟨[0], rfl, ⟨by simp, by simp⟩, Or.inl ⟨rfl, rfl⟩⟩
  · rename_i hk
    have hne : kept ≠ [] := fun h => hk (by rw [h]; rfl)
    have hvalue : d.digits = toNat 10 kept * 10 ^ zeros := by
      have h := toNat_ofNat 10 d.digits
      rw [hds, toNat_append, toNat_zeros, List.length_replicate, Nat.add_zero] at h
      exact h.symm
    have hlength : ((((ofNat 10 d.digits).map Nat.digitChar).length -
        (kept.map Nat.digitChar).length : Nat) : Int) = zeros := by
      rw [hds]
      simp
    refine ⟨kept, rfl, ⟨hne, fun e he => hlt e (hds ▸ List.mem_append_left _ he)⟩,
      Or.inr ⟨?_, zeros, hvalue, by rw [hlength]⟩⟩
    -- The first digit is kept, and only zero starts with a zero.
    cases kept with
    | nil => exact absurd rfl hne
    | cons c cs =>
      have hpos : 0 < d.digits := by
        rw [Nat.pos_iff_ne_zero]
        intro hzero
        have hdrop : ((ofNat 10 0).map Nat.digitChar).reverse.dropWhile (· == '0') = [] := by
          decide +kernel
        rw [hzero, hdrop] at hkept
        exact nomatch hkept
      have := head_ofNat_pos (by decide : 2 ≤ 10) hpos hds
      simp only [List.head?_cons, ne_eq, Option.some.injEq]
      omega

/-- A text is that of a numeral without a sign, which shows `m · 10^k`. -/
structure Prints (n : Numeral) (text : List Char) (m : Nat) (k : Int) : Prop where
  wellFormed : n.WellFormed
  unsigned : n.negative = false
  chars : text = n.chars
  shows : n.Shows m k

section Positional

variable {ds : List Nat} {whole : Int}

/-- Digits behind the point only: a zero is the whole part. -/
theorem prints_fraction (hd : IsDigits ds) (hw : whole ≤ 0) : ∃ n : Numeral,
    Prints n (positional (ds.map Nat.digitChar) whole) (toNat 10 ds) (whole - ds.length) := by
  obtain ⟨hne, hlt⟩ := hd
  have hdigits : IsDigits (List.replicate (-whole).toNat 0 ++ ds) := by
    refine ⟨by simp [hne], fun d hd => ?_⟩
    rcases List.mem_append.mp hd with hd | hd
    · rw [(List.mem_replicate.mp hd).2]
      decide
    · exact hlt d hd
  refine ⟨⟨false, [0], some (List.replicate (-whole).toNat 0 ++ ds), none⟩,
    ⟨⟨⟨by simp, by simp⟩, Or.inl rfl⟩, ?_, by simp⟩, rfl, ?_, ⟨0, ?_, ?_⟩, Or.inl rfl, ?_, nofun⟩
  · intro fs hfs
    exact Option.some.inj hfs ▸ hdigits
  · rw [positional, if_pos hw]
    simp [Numeral.chars, fractionChars, exponentChars, Nat.digitChar]
  · simp [Numeral.digits, toNat_append, toNat_cons, toNat_zeros]
  · simp only [Numeral.power, exponentValue, Option.getD_some, List.length_append,
      List.length_replicate]
    omega
  · simp

/-- Digits in front of the point only: zeros fill the whole part, and one stands behind the point.
-/
theorem prints_whole (hd : IsDigits ds) (hw : 0 < whole) (hw16 : whole ≤ 16)
    (hlen : ds.length ≤ whole.toNat) (hz : ds = [0] ∧ whole = 1 ∨ ds.head? ≠ some 0) :
    ∃ n : Numeral,
      Prints n (positional (ds.map Nat.digitChar) whole) (toNat 10 ds) (whole - ds.length) := by
  obtain ⟨hne, hlt⟩ := hd
  have hdigits : IsDigits (ds ++ List.replicate (whole.toNat - ds.length) 0) := by
    refine ⟨by simp [hne], fun d hd => ?_⟩
    rcases List.mem_append.mp hd with hd | hd
    · exact hlt d hd
    · rw [(List.mem_replicate.mp hd).2]
      decide
  refine ⟨⟨false, ds ++ List.replicate (whole.toNat - ds.length) 0, some [0], none⟩,
    ⟨⟨hdigits, ?_⟩, ?_, by simp⟩, rfl, ?_,
    ⟨whole.toNat - ds.length + 1, ?_, ?_⟩, Or.inl rfl, ?_, nofun⟩
  · rcases hz with ⟨rfl, rfl⟩ | hz
    · exact Or.inl rfl
    · right
      cases ds with
      | nil => exact absurd rfl hne
      | cons d ds => simpa using hz
  · intro fs hfs
    exact Option.some.inj hfs ▸ ⟨by simp, by simp⟩
  · rw [positional, if_neg (by omega)]
    dsimp only
    rw [List.length_map, if_pos hlen]
    simp [Numeral.chars, fractionChars, exponentChars, Nat.digitChar]
  · simp [Numeral.digits, toNat_append, toNat_zeros, toNat_singleton, Nat.pow_succ]
  · simp only [Numeral.power, exponentValue, Option.getD_some, List.length_singleton]
    omega
  · simp only [List.length_append, List.length_replicate]
    omega

/-- Digits on both sides of the point. -/
theorem prints_mixed (hd : IsDigits ds) (hw : 0 < whole) (hw16 : whole ≤ 16)
    (hlen : whole.toNat < ds.length) (hz : ds.head? ≠ some 0) : ∃ n : Numeral,
      Prints n (positional (ds.map Nat.digitChar) whole) (toNat 10 ds) (whole - ds.length) := by
  have hdigits : ∀ {part : List Nat}, part.length ≠ 0 → (∀ d ∈ part, d ∈ ds) → IsDigits part :=
    fun hlen hmem => ⟨fun h => hlen (by rw [h]; rfl), fun d hd' => hd.2 d (hmem d hd')⟩
  refine ⟨⟨false, ds.take whole.toNat, some (ds.drop whole.toNat), none⟩,
    ⟨⟨hdigits ?_ fun d => List.mem_of_mem_take, Or.inr ?_⟩, ?_, by simp⟩, rfl, ?_,
    ⟨0, ?_, ?_⟩, Or.inl rfl, ?_, nofun⟩
  · rw [List.length_take]
    omega
  · rwa [List.head?_take, if_neg (by omega)]
  · intro fs hfs
    refine Option.some.inj hfs ▸ hdigits ?_ fun d => List.mem_of_mem_drop
    rw [List.length_drop]
    omega
  · rw [positional, if_neg (by omega)]
    dsimp only
    rw [List.length_map, if_neg (by omega)]
    simp [Numeral.chars, fractionChars, exponentChars]
  · simp [Numeral.digits]
  · simp only [Numeral.power, exponentValue, Option.getD_some, List.length_drop]
    omega
  · simp only [List.length_take]
    omega

theorem prints_positional (hd : IsDigits ds) (hw16 : whole ≤ 16)
    (hz : ds = [0] ∧ whole = 1 ∨ ds.head? ≠ some 0) : ∃ n : Numeral,
      Prints n (positional (ds.map Nat.digitChar) whole) (toNat 10 ds) (whole - ds.length) := by
  by_cases hw : whole ≤ 0
  · exact prints_fraction hd hw
  by_cases hlen : ds.length ≤ whole.toNat
  · exact prints_whole hd (by omega) hw16 hlen hz
  · refine prints_mixed hd (by omega) hw16 (by omega) (hz.resolve_left ?_)
    rintro ⟨rfl, rfl⟩
    exact hlen (by decide)

end Positional

theorem prints_scientific {ds : List Nat} (hd : IsDigits ds) (hz : ds.head? ≠ some 0) (e : Int) :
    ∃ n : Numeral,
      Prints n (scientific (ds.map Nat.digitChar) e) (toNat 10 ds) (e + 1 - ds.length) := by
  obtain ⟨hne, hlt⟩ := hd
  cases ds with
  | nil => exact absurd rfl hne
  | cons d ds =>
    have hfraction : (if ds.isEmpty then none else some ds).getD [] = ds := by
      cases ds <;> rfl
    have hexponent : exponentValue (some (decide (e < 0), ofNat 10 e.natAbs)) = e := by
      rw [exponentValue, toNat_ofNat]
      split <;> rename_i he <;> rw [decide_eq_true_eq] at he <;> omega
    refine ⟨⟨false, [d], if ds.isEmpty then none else some ds,
        some (decide (e < 0), ofNat 10 e.natAbs)⟩,
      ⟨⟨⟨by simp, by simpa using hlt d List.mem_cons_self⟩, Or.inl rfl⟩, ?_, ?_⟩, rfl, ?_,
      ⟨0, ?_, ?_⟩, Or.inr rfl, by simp, fun _ => hz⟩
    · cases ds with
      | nil => simp
      | cons c cs =>
        intro fs hfs
        rw [← Option.some.inj hfs]
        exact ⟨by simp, fun x hx => hlt x (List.mem_cons_of_mem _ hx)⟩
    · intro x hx
      rw [← Option.some.inj hx]
      exact isDigits_ofNat e.natAbs
    · cases ds <;> by_cases he : e < 0 <;>
        simp [scientific, Numeral.chars, fractionChars, exponentChars, he, decimal, Digits.chars]
    · rw [Numeral.digits, hfraction, Nat.pow_zero, Nat.mul_one, List.singleton_append]
    · rw [Numeral.power, hexponent, hfraction, List.length_cons]
      omega

/-- The text of a floating point number is that of a numeral, which shows the shortest decimal or
zero. -/
theorem text_chars (x : Double) : ∃ n : Numeral, n.WellFormed ∧ x.text = n.chars ∧
    ∃ m k, n.Shows m k ∧ (m = 0 ∨ ∃ zeros : Nat,
      x.shortest.digits = m * 10 ^ zeros ∧ k = x.shortest.exponent + zeros) := by
  obtain ⟨ds, hds, hd, hz⟩ := trim_digits x.shortest
  let e : Int := x.shortest.trim.2 + (x.shortest.trim.1.length : Int) - 1
  have hlength : x.shortest.trim.1.length = ds.length := by rw [hds, List.length_map]
  let magnitude := if -5 ≤ e ∧ e < 16 then positional x.shortest.trim.1 (e + 1)
    else scientific x.shortest.trim.1 e
  have hmagnitude : ∃ n : Numeral, Prints n magnitude (toNat 10 ds) x.shortest.trim.2 := by
    have hlast : x.shortest.trim.2 = e + 1 - ds.length := by omega
    rw [hlast]
    show ∃ n : Numeral, Prints n (if -5 ≤ e ∧ e < 16 then positional x.shortest.trim.1 (e + 1)
      else scientific x.shortest.trim.1 e) _ _
    rw [hds]
    split
    · refine prints_positional hd (by omega) (hz.imp (fun h => ⟨h.1, ?_⟩) And.left)
      rw [h.1, List.length_singleton] at hlength
      omega
    · rename_i he
      rcases hz with ⟨rfl, hlast⟩ | hz
      · rw [List.length_singleton] at hlength
        exact absurd (by omega) he
      · exact prints_scientific hd hz.1 e
  obtain ⟨n, hn, hneg, hchars, hshows⟩ := hmagnitude
  refine ⟨⟨x.negative, n.whole, n.fraction, n.exponent⟩, ⟨hn.whole, hn.fraction, hn.exponent⟩, ?_,
    toNat 10 ds, _, ⟨hshows.value, hshows.marked, hshows.short, hshows.leading⟩, ?_⟩
  · have htext : x.text = if x.negative then '-' :: magnitude else magnitude := rfl
    rw [htext, hchars]
    cases hx : x.negative <;> simp [Numeral.chars, hneg]
  · rcases hz with ⟨rfl, -⟩ | ⟨-, hz⟩
    · exact Or.inl rfl
    · exact Or.inr hz

end Double

end PolicyProbe
