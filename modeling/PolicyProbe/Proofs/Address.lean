import PolicyProbe.Address
import PolicyProbe.Proofs.Text.Digits

/-!
The text of an address stands for it and for no other (`ofText?_text`, `text_injective`), in each of
the three forms: four octets, eight groups with the first longest run of zeros left out, and a
version four address behind `::ffff:`. Reading tries four octets first, so a text of groups has to
be refused there (`readFour_of_no_point`); that is the case because no point comes after its first
decimal digits.
-/
namespace PolicyProbe.Address

open Digits

theorem joined_cons (separator : Char) (x : List Char) (xs : List (List Char)) :
    joined separator (x :: xs) = x ++ xs.flatMap (separator :: ·) := by
  induction xs generalizing x with
  | nil => simp [joined]
  | cons y ys ih =>
    rw [joined, ih y]
    · simp
    · simp

/-! ## Octets -/

theorem octetText_cons (x : Nat) (xs : List Nat) :
    octetText (x :: xs) = decimal x ++ xs.flatMap ('.' :: decimal ·) := by
  rw [octetText, List.map_cons, joined_cons, List.flatMap_map]

theorem readOctet_decimal {x : Nat} (hx : x < 256) {rest : List Char}
    (h : Stops decimalValue? rest) : readOctet (decimal x ++ rest) = some (x, rest) := by
  have hval := toNat_ofNat 10 x
  rw [readOctet, span_decimal x h]
  cases hd : ofNat 10 x with
  | nil => exact absurd hd (ofNat_ne_nil 10 x)
  | cons d ds =>
    rw [hd] at hval
    cases ds with
    | nil =>
      simp only [Digits.toNat, List.foldl_cons, List.foldl_nil] at hval
      simp [← hval]
    | cons e es =>
      -- two digits or more: the number is not zero, so its first digit is none
      have hlen := length_ofNat_le (by decide : 2 ≤ 10) 2 x (by omega)
      have hpos : 0 < x := by
        rcases Nat.eq_zero_or_pos x with rfl | hp
        · simp [ofNat] at hd
        · exact hp
      have hd0 := head_ofNat_pos (by decide) hpos hd
      rw [hd] at hlen
      simp only [hval]
      rw [if_neg]
      rintro (h0 | hl | hb) <;> omega

theorem readOctets_flatMap {rest : List Char} (h : Stops decimalValue? rest) :
    ∀ xs : List Nat, (∀ x ∈ xs, x < 256) →
      readOctets xs.length (xs.flatMap ('.' :: decimal ·) ++ rest) = some (xs, rest) := by
  intro xs
  induction xs with
  | nil => intro _; rfl
  | cons x xs ih =>
    intro hx
    have hstop : Stops decimalValue? (xs.flatMap ('.' :: decimal ·) ++ rest) := by
      cases xs with
      | nil => exact h
      | cons y ys => exact stops_cons (by decide)
    have hread := readOctet_decimal (hx x List.mem_cons_self) hstop
    have ih := ih (fun y hy => hx y (List.mem_cons_of_mem x hy))
    simp only [List.length_cons, List.flatMap_cons, List.cons_append, List.append_assoc,
      readOctets, hread, ih, Option.bind_eq_bind, Option.bind_some, Option.pure_def]

theorem readFour_octetText {xs : List Nat} (hx : Parts 4 256 xs) {rest : List Char}
    (h : Stops decimalValue? rest) : readFour (octetText xs ++ rest) = some (xs, rest) := by
  obtain ⟨hlen, hlt⟩ := hx
  cases xs with
  | nil => simp at hlen
  | cons x xs =>
    have hl : xs.length = 3 := by simpa using hlen
    have hstop : Stops decimalValue? (xs.flatMap ('.' :: decimal ·) ++ rest) := by
      cases xs with
      | nil => simp at hl
      | cons y ys => exact stops_cons (by decide)
    have hread := readOctet_decimal (hlt x List.mem_cons_self) hstop
    have htail := readOctets_flatMap h xs (fun y hy => hlt y (List.mem_cons_of_mem x hy))
    rw [hl] at htail
    simp only [octetText_cons, List.append_assoc, readFour, hread, htail, Option.bind_eq_bind,
      Option.bind_some, Option.pure_def]

/-! ## Groups -/

theorem groupText_cons (x : Nat) (xs : List Nat) :
    groupText (x :: xs) = Digits.chars 16 x ++ xs.flatMap (':' :: Digits.chars 16 ·) := by
  rw [groupText, List.map_cons, joined_cons, List.flatMap_map]

theorem hexValue_of_mem_chars {n : Nat} : ∀ c ∈ Digits.chars 16 n, (hexValue? c).isSome := by
  intro c hc
  obtain ⟨d, hd, rfl⟩ := List.mem_map.mp hc
  rw [digitChar_mem_hex n d hd]
  rfl

/-- What is no hexadecimal digit is no decimal one. -/
theorem stops_decimal_of_hex {text : List Char} (h : Stops hexValue? text) :
    Stops decimalValue? text := by
  intro c hc
  have hx := h c hc
  unfold hexValue? at hx
  unfold decimalValue?
  split at hx
  · simp at hx
  · rename_i hn
    rw [if_neg hn]

/-- Where no point stands in `front` and none behind it, none stands behind the leading digits. -/
theorem span_head_ne_point {front tail : List Char} (hf : '.' ∉ front)
    (hs : Stops decimalValue? tail) (ht : tail.head? ≠ some '.') :
    (span decimalValue? (front ++ tail)).2.head? ≠ some '.' := by
  induction front with
  | nil =>
    rw [List.nil_append, span_of_stops hs]
    exact ht
  | cons c front ih =>
    simp only [List.mem_cons, not_or] at hf
    simp only [List.cons_append, span]
    cases decimalValue? c with
    | none =>
      simp only [List.head?_cons, ne_eq, Option.some.injEq]
      exact fun h => hf.1 h.symm
    | some d => exact ih hf.2

theorem readOctets_of_no_point {n : Nat} {text : List Char} (h : text.head? ≠ some '.') :
    readOctets (n + 1) text = none := by
  cases text with
  | nil => rfl
  | cons c rest =>
    have hc : c ≠ '.' := by simpa using h
    rw [readOctets]
    intro rest' hcons
    exact hc (List.cons.inj hcons).1

theorem readOctet_rest {text rest : List Char} {x : Nat} (h : readOctet text = some (x, rest)) :
    rest = (span decimalValue? text).2 := by
  unfold readOctet at h
  split at h
  · simp at h
  · rename_i d r hs
    simp only [Option.some.injEq, Prod.mk.injEq] at h
    rw [hs]
    exact h.2.symm
  · rename_i d ds r _ hs
    dsimp only at h
    split at h
    · simp at h
    · simp only [Option.some.injEq, Prod.mk.injEq] at h
      rw [hs]
      exact h.2.symm

/-- A text without a point behind its leading digits does not begin with four octets. -/
theorem readFour_of_no_point {text : List Char}
    (h : (span decimalValue? text).2.head? ≠ some '.') : readFour text = none := by
  unfold readFour
  cases ho : readOctet text with
  | none => rfl
  | some p =>
    obtain ⟨x, rest⟩ := p
    have hr := readOctet_rest ho
    rw [← hr] at h
    simp only [Option.bind_eq_bind, Option.bind_some, readOctets_of_no_point (n := 2) h,
      Option.bind_none]

/-- The end of groups: the end of the text, or two colons. -/
def Ends (tail : List Char) : Prop := tail = [] ∨ ∃ rest, tail = ':' :: ':' :: rest

theorem Ends.stops {tail : List Char} (h : Ends tail) : Stops hexValue? tail := by
  rcases h with rfl | ⟨rest, rfl⟩
  · exact stops_nil _
  · exact stops_cons (by decide)

theorem Ends.head {tail : List Char} (h : Ends tail) : tail.head? ≠ some '.' := by
  rcases h with rfl | ⟨rest, rfl⟩ <;> simp

/-- Groups behind the first are followed by no digit and no point when their end is not. -/
theorem flatMap_groups_stops (xs : List Nat) {tail : List Char} (hs : Stops hexValue? tail)
    (ht : tail.head? ≠ some '.') :
    Stops hexValue? (xs.flatMap (':' :: Digits.chars 16 ·) ++ tail) ∧
      (xs.flatMap (':' :: Digits.chars 16 ·) ++ tail).head? ≠ some '.' := by
  cases xs with
  | nil => exact ⟨hs, ht⟩
  | cons x xs => exact ⟨stops_cons (by decide), by simp⟩

theorem readFour_chars {n : Nat} {tail : List Char} (hs : Stops hexValue? tail)
    (ht : tail.head? ≠ some '.') : readFour (Digits.chars 16 n ++ tail) = none := by
  refine readFour_of_no_point (span_head_ne_point ?_ (stops_decimal_of_hex hs) ht)
  intro hp
  have := hexValue_of_mem_chars '.' hp
  simp [hexValue?] at this

theorem readGroup_chars {n : Nat} (hn : n < 65536) {tail : List Char}
    (hs : Stops hexValue? tail) : readGroup (Digits.chars 16 n ++ tail) = some (n, tail) := by
  have hlen := length_ofNat_le (by decide : 2 ≤ 16) 3 n (by omega)
  have hval := toNat_ofNat 16 n
  rw [readGroup, span_hex n hs]
  cases hd : ofNat 16 n with
  | nil => exact absurd hd (ofNat_ne_nil 16 n)
  | cons d ds =>
    rw [hd] at hlen hval
    simp only [hval]
    rw [if_neg (by omega)]

/-- One group at the front of a text of groups. -/
theorem readGroups_group {room n : Nat} {due : Bool} {text tail : List Char} (hn : n < 65536)
    (hs : Stops hexValue? tail) (ht : tail.head? ≠ some '.')
    (htext : afterColon? due text = some (Digits.chars 16 n ++ tail)) :
    readGroups (room + 1) due text =
      (n :: (readGroups room true tail).1, (readGroups room true tail).2) := by
  -- Four octets are tried before a group, and there is no point behind its digits.
  have hfour : (if room = 0 then none else readFour (Digits.chars 16 n ++ tail)) = none := by
    split
    · rfl
    · exact readFour_chars hs ht
  simp only [readGroups, htext, hfour, readGroup_chars hn hs]

theorem readGroups_of_ends (room : Nat) (due : Bool) {tail : List Char} (h : Ends tail) :
    readGroups room due tail = ([], false, tail) := by
  cases room with
  | zero => rfl
  | succ room =>
    rcases h with rfl | ⟨rest, rfl⟩
    · cases due with
      | true => rfl
      | false =>
        have hfour : readFour [] = none := rfl
        simp [readGroups, afterColon?, hfour, readGroup, span]
    · have hfour : ∀ t, readFour (':' :: t) = none := fun t =>
        readFour_of_no_point (by simp [span, decimalValue?])
      have hgroup : ∀ t, readGroup (':' :: t) = none := fun t => by
        simp [readGroup, span, hexValue?]
      cases due <;> simp [readGroups, afterColon?, hfour, hgroup]

theorem readGroups_flatMap {tail : List Char} (h : Ends tail) :
    ∀ (xs : List Nat) (room : Nat), xs.length ≤ room → (∀ x ∈ xs, x < 65536) →
      readGroups room true (xs.flatMap (':' :: Digits.chars 16 ·) ++ tail) = (xs, false, tail) := by
  intro xs
  induction xs with
  | nil => intro room _ _; exact readGroups_of_ends room true h
  | cons x xs ih =>
    intro room hroom hx
    obtain ⟨room, rfl⟩ : ∃ k, room = k + 1 := ⟨room - 1, by simp at hroom; omega⟩
    obtain ⟨hs, ht⟩ := flatMap_groups_stops xs h.stops h.head
    have ih := ih room (by simpa using hroom) (fun y hy => hx y (List.mem_cons_of_mem x hy))
    rw [readGroups_group (n := x) (hx x List.mem_cons_self) hs ht, ih]
    simp [afterColon?]

/-- Groups are read up to their end. -/
theorem readGroups_groupText {xs : List Nat} {room : Nat} (hroom : xs.length ≤ room)
    (hx : ∀ x ∈ xs, x < 65536) {tail : List Char} (h : Ends tail) :
    readGroups room false (groupText xs ++ tail) = (xs, false, tail) := by
  cases xs with
  | nil => exact readGroups_of_ends room false h
  | cons x xs =>
    obtain ⟨room, rfl⟩ : ∃ k, room = k + 1 := ⟨room - 1, by simp at hroom; omega⟩
    obtain ⟨hs, ht⟩ := flatMap_groups_stops xs h.stops h.head
    have hrest := readGroups_flatMap h xs room (by simpa using hroom)
      (fun y hy => hx y (List.mem_cons_of_mem x hy))
    rw [groupText_cons, List.append_assoc,
      readGroups_group (n := x) (hx x List.mem_cons_self) hs ht rfl, hrest]

/-! ## The run of zeros that is left out -/

theorem zeros_le_length (xs : List Nat) : zeros xs ≤ xs.length := by
  simpa [zeros] using (List.takeWhile_sublist (p := (· == 0)) (l := xs)).length_le

theorem take_zeros (xs : List Nat) : xs.take (zeros xs) = List.replicate (zeros xs) 0 := by
  induction xs with
  | nil => rfl
  | cons x xs ih =>
    by_cases hx : x = 0
    · subst hx
      have : zeros (0 :: xs) = zeros xs + 1 := by simp [zeros]
      rw [this, List.take_succ_cons, ih, List.replicate_succ]
    · have : zeros (x :: xs) = 0 := by simp [zeros, hx]
      rw [this]
      rfl

/-- The longest run lies inside the list and holds only zeros. -/
theorem longestRun_spec : ∀ (xs : List Nat) (start : Nat),
    ∃ k, (longestRun start xs).1 = start + k ∧ k + (longestRun start xs).2 ≤ xs.length ∧
      (xs.drop k).take (longestRun start xs).2 = List.replicate (longestRun start xs).2 0 := by
  intro xs
  induction xs with
  | nil => intro start; exact ⟨0, by simp [longestRun]⟩
  | cons x xs ih =>
    intro start
    obtain ⟨k, h1, h2, h3⟩ := ih (start + 1)
    simp only [longestRun]
    split
    · -- The run at the front is at least as long as every later one.
      refine ⟨0, rfl, ?_, ?_⟩
      · simpa using zeros_le_length (x :: xs)
      · exact take_zeros (x :: xs)
    · refine ⟨k + 1, by omega, ?_, ?_⟩
      · simp only [List.length_cons]
        omega
      · simpa using h3

theorem readEight_groupText {xs : List Nat} (hx : Parts 8 65536 xs) :
    readEight (groupText xs) = some (xs, []) := by
  have hread := readGroups_groupText (Nat.le_of_eq hx.1) hx.2 (Or.inl rfl)
  rw [List.append_nil] at hread
  rw [readEight, hread]
  simp [hx.1]

/-- Groups around two colons are read with zeros in their place. -/
theorem readEight_around {head tail : List Nat} (hlen : head.length + tail.length + 2 ≤ 8)
    (hh : ∀ x ∈ head, x < 65536) (ht : ∀ x ∈ tail, x < 65536) :
    readEight (groupText head ++ ':' :: ':' :: groupText tail) =
      some (head ++ List.replicate (8 - head.length - tail.length) 0 ++ tail, []) := by
  have hhead := readGroups_groupText (by omega : head.length ≤ 8) hh
    (Or.inr ⟨groupText tail, rfl⟩)
  -- Two colons stand for at least one group, so one place less is left behind them.
  have htail := readGroups_groupText (by omega : tail.length ≤ 7 - head.length) ht (Or.inl rfl)
  rw [List.append_nil] at htail
  simp only [readEight, hhead, htail]
  rw [if_neg (by omega)]
  rfl

theorem readEight_compressed {xs : List Nat} (hx : Parts 8 65536 xs) :
    readEight (compressed xs) = some (xs, []) := by
  obtain ⟨hlen, hlt⟩ := hx
  obtain ⟨k, h1, h2, h3⟩ := longestRun_spec xs 0
  unfold compressed
  rcases hrun : longestRun 0 xs with ⟨s, n⟩
  simp only [hrun, Nat.zero_add] at h1 h2 h3
  subst h1
  dsimp only
  split
  · exact readEight_groupText ⟨hlen, hlt⟩
  · rename_i hn
    have hround := readEight_around
      (by simp only [List.length_take, List.length_drop]; omega :
        (xs.take s).length + (xs.drop (s + n)).length + 2 ≤ 8)
      (fun x hx => hlt x (List.mem_of_mem_take hx)) (fun x hx => hlt x (List.mem_of_mem_drop hx))
    have hzeros : 8 - (xs.take s).length - (xs.drop (s + n)).length = n := by
      simp only [List.length_take, List.length_drop]
      omega
    have hparts : xs.take s ++ List.replicate n 0 ++ xs.drop (s + n) = xs := by
      rw [← h3, List.append_assoc, ← List.drop_drop, List.take_append_drop, List.take_append_drop]
    rw [hround, hzeros, hparts]

/-! ## Whole addresses -/

theorem readFour_groupText (xs : List Nat) {tail : List Char} (h : Ends tail) :
    readFour (groupText xs ++ tail) = none := by
  cases xs with
  | nil =>
    rcases h with rfl | ⟨rest, rfl⟩
    · rfl
    · exact readFour_of_no_point (by simp [groupText, joined, span, decimalValue?])
  | cons x xs =>
    obtain ⟨hs, ht⟩ := flatMap_groups_stops xs h.stops h.head
    rw [groupText_cons, List.append_assoc]
    exact readFour_chars hs ht

theorem readFour_compressed (xs : List Nat) : readFour (compressed xs) = none := by
  unfold compressed
  dsimp only
  split
  · have hfour := readFour_groupText xs (Or.inl rfl)
    rwa [List.append_nil] at hfour
  · exact readFour_groupText _ (Or.inr ⟨_, rfl⟩)

theorem ofChars?_octets {xs : List Nat} (hx : Parts 4 256 xs) :
    ofChars? (octetText xs) = some (.v4 xs hx) := by
  have hread := readFour_octetText hx (stops_nil decimalValue?)
  rw [List.append_nil] at hread
  simp [ofChars?, hread, ofOctets?, hx]

theorem ofChars?_compressed {xs : List Nat} (hx : Parts 8 65536 xs) :
    ofChars? (compressed xs) = some (.v6 xs hx) := by
  simp [ofChars?, readFour_compressed, readEight_compressed hx, ofGroups?, hx]

theorem octetsOf_parts {hi lo : Nat} (hh : hi < 65536) (hl : lo < 65536) :
    Parts 4 256 (octetsOf hi lo) := by
  refine ⟨rfl, ?_⟩
  intro x hx
  simp only [octetsOf, List.mem_cons, List.not_mem_nil, or_false] at hx
  omega

/-- An address of version four behind `::ffff:`. -/
theorem readEight_mapped {hi lo : Nat} (hh : hi < 65536) (hl : lo < 65536) :
    readEight ("::ffff:".toList ++ octetText (octetsOf hi lo)) =
      some ([0, 0, 0, 0, 0, 65535, hi, lo], []) := by
  have hmark : "::ffff:".toList ++ octetText (octetsOf hi lo) =
      ':' :: ':' :: (Digits.chars 16 65535 ++ ':' :: octetText (octetsOf hi lo)) := by
    simp [Digits.chars, ofNat, Nat.digitChar]
  have hfour := readFour_octetText (octetsOf_parts hh hl) (stops_nil decimalValue?)
  rw [List.append_nil] at hfour
  have hlast : readGroups 6 true (':' :: octetText (octetsOf hi lo)) = ([hi, lo], true, []) := by
    have e1 : hi / 256 * 256 + hi % 256 = hi := Nat.div_add_mod' hi 256
    have e2 : lo / 256 * 256 + lo % 256 = lo := Nat.div_add_mod' lo 256
    rw [readGroups]
    simp only [afterColon?, if_true, hfour]
    simp [octetsOf, e1, e2]
  have htail : readGroups 7 false (Digits.chars 16 65535 ++ ':' :: octetText (octetsOf hi lo)) =
      ([65535, hi, lo], true, []) := by
    rw [readGroups_group (n := 65535) (by decide) (stops_cons (by decide)) (by simp) rfl, hlast]
  rw [hmark]
  have hhead := readGroups_of_ends 8 false
    (Or.inr ⟨Digits.chars 16 65535 ++ ':' :: octetText (octetsOf hi lo), rfl⟩)
  simp [readEight, hhead, htail]

theorem ofChars?_mapped {hi lo : Nat} (h : Parts 8 65536 [0, 0, 0, 0, 0, 65535, hi, lo]) :
    ofChars? ("::ffff:".toList ++ octetText (octetsOf hi lo)) = some (.v6 _ h) := by
  -- The points of the octets come too late for a text of four octets: it starts with colons.
  have hfour : readFour ("::ffff:".toList ++ octetText (octetsOf hi lo)) = none :=
    readFour_of_no_point (by simp [span, decimalValue?])
  have height := readEight_mapped (h.2 hi (by simp)) (h.2 lo (by simp))
  simp only [ofChars?, hfour, height, ofGroups?, h, dif_pos]

theorem ofChars?_sixText {xs : List Nat} (hx : Parts 8 65536 xs) :
    ofChars? (sixText xs) = some (.v6 xs hx) := by
  unfold sixText
  split
  · exact ofChars?_mapped hx
  · exact ofChars?_compressed hx

/-- The text of an address stands for it. -/
theorem ofText?_text (a : Address) : ofText? a.text = some a := by
  rw [ofText?, text, String.toList_ofList]
  cases a with
  | v4 xs h => exact ofChars?_octets h
  | v6 xs h => exact ofChars?_sixText h

theorem text_injective {a b : Address} (h : a.text = b.text) : a = b := by
  have := congrArg ofText? h
  rw [ofText?_text, ofText?_text] at this
  exact Option.some.inj this

end PolicyProbe.Address
