import PolicyProbe.Instant.Text
import PolicyProbe.Proofs.Text.Digits

/-!
The texts of instants read back. The free reader finds every instant in its text, whatever its year
(`ofText?_text`). The exact reader finds in a text with six digits of the fraction the instant cut
down to microseconds, but only in the years of four digits (`ofExact?_microChars`): it takes no
sign, and every other year is written with one.
-/
namespace PolicyProbe.Instant

open Digits Blank

/-! ## Numbers of a fixed width -/

/-- A run of digits is read as its number when it fills the room there is, or stops before. -/
theorem readNumber_digits {ds : List Nat} (hd : ∀ d ∈ ds, d < 10) {least most : Nat}
    (hl : least ≤ ds.length) (hm : ds.length ≤ most) {rest : List Char}
    (h : ds.length = most ∨ Stops decimalValue? rest) :
    readNumber least most (ds.map Nat.digitChar ++ rest) = some (toNat 10 ds, rest) := by
  have hv : ∀ d ∈ ds, decimalValue? (Nat.digitChar d) = some d :=
    fun d hm => decimalValue_digitChar d (hd d hm)
  have htake : (ds.map Nat.digitChar ++ rest).take most =
      ds.map Nat.digitChar ++ rest.take (most - ds.length) := by
    rw [List.take_append, List.length_map, List.take_of_length_le (by simpa using hm)]
  have hstop : Stops decimalValue? (rest.take (most - ds.length)) := by
    rcases h with h | h
    · rw [h, Nat.sub_self]
      exact stops_nil _
    · intro c hc
      rw [List.head?_take] at hc
      split at hc
      · simp at hc
      · exact h c hc
  have hdrop : (ds.map Nat.digitChar ++ rest).drop ds.length = rest := by
    have := @List.drop_left _ (ds.map Nat.digitChar) rest
    rwa [List.length_map] at this
  simp only [readNumber, htake, span_map hv hstop, hdrop]
  rw [if_neg (by omega)]

/-- A number that is written with two digits is read with exactly two of them. -/
theorem readNumber_two {n : Nat} (hn : n < 100) {least : Nat} (hl : least ≤ 2) (rest : List Char) :
    readNumber least 2 (padded 10 2 n ++ rest) = some (n, rest) := by
  have hlen : (fixed 10 2 n).length = 2 := @length_fixed 10 (by decide) 1 n hn
  rw [padded_eq_map, readNumber_digits (lt_of_mem_fixed (by decide) 2 n) (by omega) (by omega)
    (Or.inl hlen), toNat_fixed]

/-! ## What stands in front of a number -/

theorem trimmed_cons {c : Char} (h : isSpace c = false) (rest : List Char) :
    trimmed (c :: rest) = c :: rest := by
  simp [trimmed, h]

theorem isSpace_digitChar : ∀ d < 10, isSpace (Nat.digitChar d) = false := by decide

/-- No blank stands in front of digits. -/
theorem trimmed_digits {ds : List Nat} (hne : ds ≠ []) (hd : ∀ d ∈ ds, d < 10)
    (rest : List Char) :
    trimmed (ds.map Nat.digitChar ++ rest) = ds.map Nat.digitChar ++ rest := by
  cases ds with
  | nil => exact absurd rfl hne
  | cons d ds => exact trimmed_cons (isSpace_digitChar d (hd d List.mem_cons_self)) _

theorem readPair_padded {n : Nat} (hn : n < 100) (rest : List Char) :
    readPair (padded 10 2 n ++ rest) = some (n, rest) := by
  have htrim : trimmed (padded 10 2 n ++ rest) = padded 10 2 n ++ rest := by
    rw [padded_eq_map]
    exact trimmed_digits (fixed_ne_nil 10 2 n) (lt_of_mem_fixed (by decide) 2 n) rest
  rw [readPair, htrim, readNumber_two hn (by decide)]

theorem expect_cons (c : Char) (rest : List Char) : expect c (c :: rest) = some rest := by
  simp [expect]

/-! ## Years -/

/-- A year that is written with four digits and no sign. -/
def FourDigits (year : Int) : Prop := 0 ≤ year ∧ year ≤ 9999

instance (year : Int) : Decidable (FourDigits year) := inferInstanceAs (Decidable (_ ∧ _))

theorem yearText_of_fourDigits {year : Int} (h : FourDigits year) :
    yearText year = (fixed 10 4 year.toNat).map Nat.digitChar := by
  rw [yearText, if_pos (show 0 ≤ year ∧ year ≤ 9999 from h), padded_eq_map]

theorem yearText_of_not_fourDigits {year : Int} (h : ¬FourDigits year) :
    yearText year =
      (if year < 0 then '-' else '+') :: (fixed 10 4 year.natAbs).map Nat.digitChar := by
  rw [yearText, if_neg (show ¬(0 ≤ year ∧ year ≤ 9999) from h), padded_eq_map]

theorem length_fixed_year {year : Int} (h : FourDigits year) :
    (fixed 10 4 year.toNat).length = 4 := by
  obtain ⟨-, hu⟩ := h
  exact @length_fixed 10 (by decide) 3 _ (by omega)

/-- Digits do not start with a sign. -/
theorem digits_ne_sign {ds : List Nat} (hne : ds ≠ []) (hd : ∀ d ∈ ds, d < 10)
    {rest : List Char} {c : Char} (hc : decimalValue? c = none) (tail : List Char) :
    ds.map Nat.digitChar ++ rest ≠ c :: tail := by
  intro h
  cases ds with
  | nil => exact hne rfl
  | cons d ds =>
    have hv := decimalValue_digitChar d (hd d List.mem_cons_self)
    rw [List.map_cons, List.cons_append, List.cons.injEq] at h
    rw [h.1, hc] at hv
    exact nomatch hv

theorem readYear_yearText (year : Int) {rest : List Char} (h : Stops decimalValue? rest) :
    readYear (yearText year ++ rest) = some (year, rest) := by
  by_cases hy : FourDigits year
  · have hlt := lt_of_mem_fixed (by decide : 2 ≤ 10) 4 year.toNat
    have hne := fixed_ne_nil 10 4 year.toNat
    have hlen := length_fixed_year hy
    rw [yearText_of_fourDigits hy, readYear]
    · rw [readNumber_digits hlt (by omega) (by omega) (Or.inl hlen), toNat_fixed]
      simp [Int.toNat_of_nonneg hy.1]
    · exact digits_ne_sign hne hlt (by decide)
    · exact digits_ne_sign hne hlt (by decide)
  · have hlt := lt_of_mem_fixed (by decide : 2 ≤ 10) 4 year.natAbs
    have hpos : 1 ≤ (fixed 10 4 year.natAbs).length :=
      List.length_pos_iff.mpr (fixed_ne_nil 10 4 year.natAbs)
    -- The sign lets the year take as many digits as there are.
    have hread := readNumber_digits hlt hpos
      (Nat.le_add_right _ rest.length) (Or.inr h)
    rw [toNat_fixed] at hread
    rw [yearText_of_not_fourDigits hy, List.cons_append]
    by_cases hneg : year < 0
    · simp only [if_pos hneg, readYear, List.length_append, List.length_map, hread]
      simp only [Option.bind_eq_bind, Option.bind_some, Option.pure_def, Option.some.injEq,
        Prod.mk.injEq, and_true]
      omega
    · simp only [if_neg hneg, readYear, List.length_append, List.length_map, hread]
      simp only [Option.bind_eq_bind, Option.bind_some, Option.pure_def, Option.some.injEq,
        Prod.mk.injEq, and_true]
      omega

theorem trimmed_yearText (year : Int) (rest : List Char) :
    trimmed (yearText year ++ rest) = yearText year ++ rest := by
  by_cases hy : FourDigits year
  · rw [yearText_of_fourDigits hy]
    exact trimmed_digits (fixed_ne_nil 10 4 _) (lt_of_mem_fixed (by decide) 4 _) rest
  · rw [yearText_of_not_fourDigits hy, List.cons_append]
    refine trimmed_cons ?_ _
    split <;> decide

/-- The exact reader takes a year of four digits and no other. -/
theorem readNumber_year {year : Int} (h : FourDigits year) (rest : List Char) :
    readNumber 4 4 (yearText year ++ rest) = some (year.toNat, rest) := by
  have hlen := length_fixed_year h
  rw [yearText_of_fourDigits h, readNumber_digits (lt_of_mem_fixed (by decide) 4 _) (by omega)
    (by omega) (Or.inl hlen), toNat_fixed]

theorem readNumber_signed {year : Int} (h : ¬FourDigits year) (rest : List Char) :
    readNumber 4 4 (yearText year ++ rest) = none := by
  have hsign : decimalValue? (if year < 0 then '-' else '+') = none := by split <;> decide
  rw [yearText_of_not_fourDigits h, List.cons_append, readNumber, List.take_succ_cons, span, hsign]
  rfl

/-! ## Fractions -/

/-- Digits behind the point stand for as many digits of nine, the others zero. -/
theorem readFraction_padded {width n : Nat} (hw : width < 9) (hn : n < 10 ^ (width + 1))
    {rest : List Char} (h : Stops decimalValue? rest) :
    readFraction ('.' :: (padded 10 (width + 1) n ++ rest)) =
      some (n * 10 ^ (9 - (width + 1)), rest) := by
  have hlen := length_fixed (by decide : 2 ≤ 10) hn
  have hlt := lt_of_mem_fixed (by decide : 2 ≤ 10) (width + 1) n
  have hspan := span_map (fun d hm => decimalValue_digitChar d (hlt d hm)) h
  have htake : (fixed 10 (width + 1) n).take 9 = fixed 10 (width + 1) n :=
    List.take_of_length_le (by omega)
  have hvalue := toNat_fixed 10 (width + 1) n
  rw [padded_eq_map, readFraction, hspan]
  cases hds : fixed 10 (width + 1) n with
  | nil => exact absurd hds (fixed_ne_nil 10 (width + 1) n)
  | cons d ds =>
    rw [hds] at htake hlen hvalue
    simp only [htake, hvalue, hlen]
    rfl

theorem readFraction_fractionText {n : Nat} (hn : n < secondNanos) :
    readFraction (fractionText n ++ ['Z']) = some (n, ['Z']) := by
  have hz : Stops decimalValue? ['Z'] := stops_cons (by decide)
  have hs : secondNanos = 1000000000 := rfl
  unfold fractionText
  split
  · rename_i h0
    rw [h0]
    rfl
  split
  · rw [List.cons_append, readFraction_padded (by decide) (by omega) hz]
    simp only [Option.some.injEq, Prod.mk.injEq, and_true]
    omega
  split
  · rw [List.cons_append, readFraction_padded (by decide) (by omega) hz]
    simp only [Option.some.injEq, Prod.mk.injEq, and_true]
    omega
  · rw [List.cons_append, readFraction_padded (by decide) (by omega) hz]
    simp

/-! ## The clock -/

/-- The second that the clock of an instant shows. -/
def shownSecond (t : Instant) : Nat :=
  t.second % 60 + if secondNanos ≤ t.nanos then 1 else 0

theorem shownSecond_lt (t : Instant) : t.shownSecond < 100 := by
  unfold shownSecond
  split <;> omega

/-- Date and time in front of a rest, part by part. -/
theorem clockText_append (t : Instant) (rest : List Char) :
    t.clockText ++ rest = yearText t.date.year ++ ('-' :: (padded 10 2 t.date.month ++
      ('-' :: (padded 10 2 t.date.day ++ ('T' :: (padded 10 2 (t.second / 3600) ++
      (':' :: (padded 10 2 (t.second / 60 % 60) ++
      (':' :: (padded 10 2 t.shownSecond ++ rest)))))))))) := by
  simp only [clockText, shownSecond, List.append_assoc, List.cons_append]

theorem daysIn_le (year : Int) (month : Nat) : daysIn year month ≤ 31 := by
  unfold daysIn
  split
  · split <;> decide
  · split <;> decide

theorem date_bounds (d : Date) : d.month < 100 ∧ d.day < 100 := by
  obtain ⟨-, -, -, hm, -, hd⟩ := d.valid
  have := daysIn_le d.year d.month
  exact ⟨by omega, by omega⟩

/-- The parts that a clock shows are those of its instant; the fraction may have been cut. -/
theorem instant?_shown (t : Instant) {shown nanos : Nat}
    (hn : shown + (if secondNanos ≤ t.nanos then secondNanos else 0) = nanos)
    (h : Valid t.second nanos) :
    Parts.instant? ⟨t.date.year, t.date.month, t.date.day, t.second / 3600, t.second / 60 % 60,
        t.shownSecond, shown, 0⟩ =
      some ⟨t.date, t.second, nanos, h⟩ := by
  obtain ⟨hs, -, hleap⟩ := t.valid
  have hday : daySeconds = 86400 := rfl
  rw [hday] at hs
  have hdate : Date.mk? t.date.year t.date.month t.date.day = some t.date := dif_pos t.date.valid
  have hlocal : ofLocal? t.date t.second nanos 0 = some ⟨t.date, t.second, nanos, h⟩ := by
    have h1 : ¬((t.second : Int) - 0 * 60 < 0) := by omega
    have h2 : ¬((daySeconds : Int) ≤ (t.second : Int) - 0 * 60) := by rw [hday]; omega
    have h3 : (((t.second : Int) - 0 * 60) % (daySeconds : Int)).toNat = t.second := by
      rw [hday]
      omega
    simp only [ofLocal?, if_neg h1, if_neg h2, h3, Option.bind_eq_bind, Option.bind_some]
    exact dif_pos h
  have hshown : t.shownSecond = t.second % 60 + if secondNanos ≤ t.nanos then 1 else 0 := rfl
  have hparts : ¬(24 ≤ t.second / 3600 ∨ 60 ≤ t.second / 60 % 60 ∨ 60 < t.shownSecond ∨
      1440 ≤ (0 : Int).natAbs) := by
    rw [hshown]
    split <;> omega
  simp only [Parts.instant?, if_neg hparts, hdate, Option.bind_eq_bind, Option.bind_some]
  by_cases hl : secondNanos ≤ t.nanos
  · -- A leap second is shown as the sixtieth and belongs to the one before it.
    have hsec := hleap hl
    have h60 : t.shownSecond = 60 := by rw [hshown, if_pos hl, hsec]
    have hclock : t.second / 3600 * 3600 + t.second / 60 % 60 * 60 + 59 = t.second := by omega
    rw [if_pos hl] at hn
    rw [if_pos h60]
    dsimp only
    rw [hclock, hn]
    exact hlocal
  · have h60 : t.shownSecond ≠ 60 := by
      rw [hshown, if_neg hl]
      omega
    have hclock : t.second / 3600 * 3600 + t.second / 60 % 60 * 60 + t.shownSecond = t.second := by
      rw [hshown, if_neg hl]
      omega
    rw [if_neg hl, Nat.add_zero] at hn
    rw [if_neg h60]
    dsimp only
    rw [hclock, hn]
    exact hlocal

/-- Whole seconds beside the fraction are those of a leap second. -/
theorem fraction_add (t : Instant) :
    t.fraction + (if secondNanos ≤ t.nanos then secondNanos else 0) = t.nanos := by
  obtain ⟨-, hn, -⟩ := t.valid
  have hnano : secondNanos = 1000000000 := rfl
  rw [fraction]
  rw [hnano] at hn ⊢
  split <;> omega

/-! ## Reading whole texts -/

/-- A part that is read is handed on to what reads the next. -/
theorem bind_of_eq {α β : Type} {part : Option α} {next : α → Option β} {a : α} {result : Option β}
    (h : part = some a) (hnext : next a = result) : (part >>= next) = result := by
  rw [h]
  exact hnext

/-- The free reader finds the instant in its text. -/
theorem ofText?_text (t : Instant) : ofText? t.text = some t := by
  obtain ⟨hs, hn, -⟩ := t.valid
  obtain ⟨hmonth, hday⟩ := date_bounds t.date
  have hd : daySeconds = 86400 := rfl
  have hnano : secondNanos = 1000000000 := rfl
  have hfrac : t.fraction < secondNanos := Nat.mod_lt _ (by decide)
  have hparts := instant?_shown t t.fraction_add t.valid
  have hyear := fun rest => @readYear_yearText t.date.year ('-' :: rest) (stops_cons (by decide))
  have hoffset : readFreeOffset (trimmed ['Z']) = some (0, []) := by decide
  have hsep : ∀ rest, readSeparator ('T' :: rest) = some rest := fun rest => by simp [readSeparator]
  have hdash : ∀ rest, expect '-' (trimmed ('-' :: rest)) = some rest := fun rest => by
    rw [trimmed_cons (by decide), expect_cons]
  have hcolon : ∀ rest, expect ':' (trimmed (':' :: rest)) = some rest := fun rest => by
    rw [trimmed_cons (by decide), expect_cons]
  rw [ofText?, text, String.toList_ofList, chars, List.append_assoc, clockText_append, ofFree?,
    trimmed_yearText]
  refine bind_of_eq (hyear _) ?_
  refine bind_of_eq (hdash _) (bind_of_eq (readPair_padded hmonth _) ?_)
  refine bind_of_eq (hdash _) (bind_of_eq (readPair_padded hday _) ?_)
  refine bind_of_eq (hsep _) (bind_of_eq (readPair_padded (by omega) _) ?_)
  refine bind_of_eq (hcolon _) (bind_of_eq (readPair_padded (by omega) _) ?_)
  refine bind_of_eq (hcolon _) (bind_of_eq (readPair_padded t.shownSecond_lt _) ?_)
  exact bind_of_eq (readFraction_fractionText hfrac) (bind_of_eq hoffset hparts)

/-- The exact reader finds in the microsecond text the instant without what was cut. -/
theorem ofExact?_microChars {t : Instant} (h : FourDigits t.date.year) :
    ofExact? t.microChars = some (t.cutTo 1000) := by
  obtain ⟨hs, hn, -⟩ := t.valid
  obtain ⟨hmonth, hday⟩ := date_bounds t.date
  have hd : daySeconds = 86400 := rfl
  have hnano : secondNanos = 1000000000 := rfl
  have hfrac : t.fraction < secondNanos := Nat.mod_lt _ (by decide)
  have hcut : t.fraction / 1000 * 1000 + (if secondNanos ≤ t.nanos then secondNanos else 0) =
      t.nanos / 1000 * 1000 := by
    have hwhole := t.fraction_add
    rw [hnano] at hwhole ⊢
    split at hwhole <;> split <;> omega
  have hparts := instant?_shown t hcut (t.cutTo 1000).valid
  have hread : readFraction ('.' :: (padded 10 6 (t.fraction / 1000) ++ ['Z'])) =
      some (t.fraction / 1000 * 1000, ['Z']) :=
    @readFraction_padded 5 _ (by decide) (by omega) _ (stops_cons (by decide))
  have hoffset : readOffset (expect ':') ['Z'] = some (0, []) := rfl
  have hsep : ∀ rest, readSeparator ('T' :: rest) = some rest := fun rest => by simp [readSeparator]
  have hyear : ((t.date.year.toNat : Nat) : Int) = t.date.year := Int.toNat_of_nonneg h.1
  rw [← hyear] at hparts
  rw [microChars, List.append_assoc, List.cons_append, clockText_append, ofExact?]
  refine bind_of_eq (readNumber_year h _) ?_
  refine bind_of_eq (expect_cons '-' _) (bind_of_eq (readNumber_two hmonth (Nat.le_refl 2) _) ?_)
  refine bind_of_eq (expect_cons '-' _) (bind_of_eq (readNumber_two hday (Nat.le_refl 2) _) ?_)
  refine bind_of_eq (hsep _) (bind_of_eq (readNumber_two (by omega) (Nat.le_refl 2) _) ?_)
  refine bind_of_eq (expect_cons ':' _)
    (bind_of_eq (readNumber_two (by omega) (Nat.le_refl 2) _) ?_)
  refine bind_of_eq (expect_cons ':' _)
    (bind_of_eq (readNumber_two t.shownSecond_lt (Nat.le_refl 2) _) ?_)
  exact bind_of_eq hread (bind_of_eq hoffset hparts)

/-- The exact reader finds nothing in a text whose year has a sign. -/
theorem ofExact?_signed {t : Instant} (h : ¬FourDigits t.date.year) :
    ofExact? t.microChars = none := by
  rw [microChars, List.append_assoc, clockText_append, ofExact?, readNumber_signed h]
  rfl

end PolicyProbe.Instant
