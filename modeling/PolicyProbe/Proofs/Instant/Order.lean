import PolicyProbe.Proofs.Instant.Text

/-!
The order of microsecond texts is that of the instants cut down to microseconds, as long as years
have four digits: every number in such a text has a fixed width. The text shows a leap second as the
sixtieth of its minute, so it comes after the second it belongs to and before the next one, as it
does among instants. Cutting swaps no two instants, but two may become one.
-/
namespace PolicyProbe.Instant

open Digits

/-! ## The parts of a text -/

theorem cons_lt_cons_same (c : Char) (x y : List Char) : c :: x < c :: y ↔ x < y := by
  rw [List.cons_lt_cons_iff]
  simp

/-- Years of four digits are ordered as their texts. -/
theorem yearText_append_lt {m n : Int} (hm : FourDigits m) (hn : FourDigits n) (x y : List Char) :
    yearText m ++ x < yearText n ++ y ↔ m < n ∨ m = n ∧ x < y := by
  obtain ⟨hm0, hm1⟩ := hm
  obtain ⟨hn0, hn1⟩ := hn
  have hm4 : m.toNat < 10 ^ (3 + 1) := by omega
  have hn4 : n.toNat < 10 ^ (3 + 1) := by omega
  have hlt : m.toNat < n.toNat ↔ m < n := by omega
  have heq : m.toNat = n.toNat ↔ m = n := by omega
  rw [yearText, if_pos ⟨hm0, hm1⟩, yearText, if_pos ⟨hn0, hn1⟩]
  rw [padded_append_lt hm4 hn4, hlt, heq]

theorem padded_two_append_lt {m n : Nat} (hm : m < 100) (hn : n < 100) (x y : List Char) :
    padded 10 2 m ++ x < padded 10 2 n ++ y ↔ m < n ∨ m = n ∧ x < y :=
  @padded_append_lt 1 m n hm hn x y

theorem fractionChars_lt {m n : Nat} (hm : m < 1000000) (hn : n < 1000000) :
    '.' :: (padded 10 6 m ++ ['Z']) < '.' :: (padded 10 6 n ++ ['Z']) ↔ m < n := by
  have hirrefl : ¬(['Z'] : List Char) < ['Z'] := by decide
  rw [cons_lt_cons_same, @padded_append_lt 5 m n hm hn]
  exact or_iff_left fun h => hirrefl h.2

/-- What a clock shows is ordered as the second of the day and its fraction: hours, minutes and
seconds first, a leap second behind the one it belongs to, then whole microseconds. -/
theorem clock_lt (t u : Instant) :
    (t.second / 3600 < u.second / 3600 ∨ t.second / 3600 = u.second / 3600 ∧
      (t.second / 60 % 60 < u.second / 60 % 60 ∨ t.second / 60 % 60 = u.second / 60 % 60 ∧
        (t.shownSecond < u.shownSecond ∨ t.shownSecond = u.shownSecond ∧
          t.fraction / 1000 < u.fraction / 1000))) ↔
      t.second < u.second ∨ t.second = u.second ∧
        t.nanos / 1000 * 1000 < u.nanos / 1000 * 1000 := by
  obtain ⟨-, hn, hl⟩ := t.valid
  obtain ⟨-, hn', hl'⟩ := u.valid
  have hnano : secondNanos = 1000000000 := rfl
  -- Hours and minutes together are the minutes of the day.
  have hhour : ∀ s, s / 3600 = s / 60 / 60 := fun s => by omega
  rw [hhour, hhour, shownSecond, shownSecond, fraction, fraction]
  rw [hnano] at hn hn' hl hl' ⊢
  split <;> split <;> omega

theorem date_before_iff {d e : Date} : d.before e = true ↔
    d.year < e.year ∨ d.year = e.year ∧
      (d.month < e.month ∨ d.month = e.month ∧ d.day < e.day) := by
  simp only [Date.before, Bool.or_eq_true, Bool.and_eq_true, decide_eq_true_eq, beq_iff_eq]

theorem date_eq_iff {d e : Date} :
    d = e ↔ d.year = e.year ∧ d.month = e.month ∧ d.day = e.day := by
  obtain ⟨year, month, day, hd⟩ := d
  obtain ⟨year', month', day', he⟩ := e
  simp only [Date.mk.injEq]

theorem before_iff {t u : Instant} : t.before u = true ↔
    t.date.before u.date = true ∨ t.date = u.date ∧
      (t.second < u.second ∨ t.second = u.second ∧ t.nanos < u.nanos) := by
  simp only [before, Bool.or_eq_true, Bool.and_eq_true, decide_eq_true_eq, beq_iff_eq]

/-! ## Cutting and order -/

/-- Cutting swaps no two instants. -/
theorem before_of_cutTo {unit : Nat} {t u : Instant}
    (h : (t.cutTo unit).before (u.cutTo unit) = true) : t.before u = true := by
  rw [before_iff] at h ⊢
  refine h.imp_right fun ⟨hdate, h⟩ => ⟨hdate, h.imp_right fun ⟨hsecond, h⟩ => ⟨hsecond, ?_⟩⟩
  by_contra hle
  have hdiv : u.nanos / unit ≤ t.nanos / unit := Nat.div_le_div_right (Nat.le_of_not_lt hle)
  exact absurd h (Nat.not_lt.mpr (Nat.mul_le_mul_right unit hdiv))

/-- Cutting may make two instants the same. -/
theorem cutTo_before_or_eq {unit : Nat} {t u : Instant} (h : t.before u = true) :
    (t.cutTo unit).before (u.cutTo unit) = true ∨ t.cutTo unit = u.cutTo unit := by
  rw [before_iff] at h ⊢
  rcases h with hdate | ⟨hdate, hsecond | ⟨hsecond, hnanos⟩⟩
  · exact Or.inl (Or.inl hdate)
  · exact Or.inl (Or.inr ⟨hdate, Or.inl hsecond⟩)
  · have hle : t.nanos / unit * unit ≤ u.nanos / unit * unit :=
      Nat.mul_le_mul_right unit (Nat.div_le_div_right (Nat.le_of_lt hnanos))
    rcases Nat.lt_or_eq_of_le hle with hlt | heq
    · exact Or.inl (Or.inr ⟨hdate, Or.inr ⟨hsecond, hlt⟩⟩)
    · right
      simp only [cutTo, Instant.mk.injEq]
      exact ⟨hdate, hsecond, heq⟩

theorem not_before_self (t : Instant) : t.before t = false := by
  rw [Bool.eq_false_iff, ne_eq, before_iff, date_before_iff]
  omega

theorem notAfter_cutTo {t u : Instant} (unit : Nat) (h : t.notAfter u = true) :
    (t.cutTo unit).notAfter (u.cutTo unit) = true := by
  rw [notAfter, Bool.not_eq_true', Bool.eq_false_iff] at h ⊢
  exact mt before_of_cutTo h

/-- Cut instants are in order just as they were, unless two different ones became the same. -/
theorem notAfter_cutTo_iff {unit : Nat} {t u : Instant} (h : t.cutTo unit = u.cutTo unit → t = u) :
    (t.cutTo unit).notAfter (u.cutTo unit) = true ↔ t.notAfter u = true := by
  refine ⟨fun hcut => ?_, notAfter_cutTo unit⟩
  rw [notAfter, Bool.not_eq_true', Bool.eq_false_iff] at hcut ⊢
  intro hbefore
  rcases cutTo_before_or_eq hbefore with hlt | heq
  · exact hcut hlt
  · rw [h heq.symm, not_before_self] at hbefore
    exact Bool.false_ne_true hbefore

/-! ## Texts -/

/-- The order of the texts is that of the instants without what was cut. -/
theorem microText_lt {t u : Instant} (ht : FourDigits t.date.year) (hu : FourDigits u.date.year) :
    t.microText < u.microText ↔ (t.cutTo 1000).before (u.cutTo 1000) = true := by
  obtain ⟨hs, -, -⟩ := t.valid
  obtain ⟨hs', -, -⟩ := u.valid
  obtain ⟨hmonth, hday⟩ := date_bounds t.date
  obtain ⟨hmonth', hday'⟩ := date_bounds u.date
  have hd : daySeconds = 86400 := rfl
  rw [hd] at hs hs'
  have hfraction : ∀ v : Instant, v.fraction / 1000 < 1000000 := by
    intro v
    have hmod : v.fraction < 1000000000 := Nat.mod_lt v.nanos (by decide)
    omega
  have hhour : ∀ {s : Nat}, s < 86400 → s / 3600 < 100 := fun h => by omega
  have hminute : ∀ s : Nat, s / 60 % 60 < 100 := fun s => by omega
  have htext : t.microText < u.microText ↔ t.microChars < u.microChars := by
    rw [String.lt_iff, microText, microText, String.toList_ofList, String.toList_ofList]
  rw [htext, microChars, microChars, List.append_assoc, List.append_assoc, clockText_append,
    clockText_append]
  simp only [List.cons_append, cons_lt_cons_same, yearText_append_lt ht hu,
    padded_two_append_lt hmonth hmonth', padded_two_append_lt hday hday',
    padded_two_append_lt (hhour hs) (hhour hs'), padded_two_append_lt (hminute _) (hminute _),
    padded_two_append_lt t.shownSecond_lt u.shownSecond_lt,
    fractionChars_lt (hfraction t) (hfraction u)]
  rw [clock_lt, before_iff, date_before_iff, date_eq_iff]
  simp only [cutTo]
  -- On both sides: year, month, day, then the clock.
  simp only [or_assoc, and_or_left, and_assoc]

end PolicyProbe.Instant
