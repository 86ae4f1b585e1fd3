import PolicyProbe.Json.Decoder
import PolicyProbe.Proofs.Json.Numeral
import PolicyProbe.Proofs.Json.Quoted

/-!
Values read back. The compact text of a value is read as the tree that mirrors the value
(`Json.reading`), to its end and with nothing behind it. A decoder that runs on such a text
therefore sees that tree, and what it makes of it needs no further look at characters.
-/
namespace PolicyProbe

open Digits Numeral

/-- The numeral as which a floating point number is written. -/
def Double.numeral (x : Double) : Numeral :=
  match Numeral.read x.text with
  | some (n, _) => n
  | none => .ofInt 0

namespace Json

mutual

/-- The reading of a value that was written. -/
def reading : Json → Reading
  | .null => .null
  | .bool b => .bool b
  | .int n => .number (.ofInt n)
  | .float x => .number x.numeral
  | .string s => .string (some s)
  | .array items => .array (itemReadings items) .closed
  | .object members => .object (memberReadings members) .closed

/-- The readings of some items. -/
def itemReadings : List Json → List Reading
  | [] => []
  | item :: items => item.reading :: itemReadings items

/-- The readings of some members. -/
def memberReadings : List (String × Json) → List (Option String × Reading)
  | [] => []
  | (key, value) :: members => (some key, value.reading) :: memberReadings members

end

theorem itemReadings_eq_map (items : List Json) : itemReadings items = items.map reading := by
  induction items with
  | nil => rfl
  | cons item items ih => rw [itemReadings, ih, List.map_cons]

theorem memberReadings_eq_map (members : List (String × Json)) :
    memberReadings members = members.map fun m => (some m.1, m.2.reading) := by
  induction members with
  | nil => rfl
  | cons m members ih => rw [memberReadings, ih, List.map_cons]

/-! ## The first character of a text -/

/-- Whether a character is one with which a value may start. -/
def Opens (c : Char) : Prop := Reading.isBlank c = false ∧ c ≠ ']'

/-- Whether a character is one with which a number starts. -/
def OpensNumber (c : Char) : Prop := c = '-' ∨ (decimalValue? c).isSome

theorem opensNumber_ne {c d : Char} (h : OpensNumber c) (hd : d ≠ '-')
    (hv : decimalValue? d = none) : c ≠ d := by
  rintro rfl
  rcases h with h | h
  · exact hd h
  · rw [hv] at h
    exact Bool.noConfusion h

theorem OpensNumber.opens {c : Char} (h : OpensNumber c) : Opens c := by
  refine ⟨?_, opensNumber_ne h (by decide) (by decide)⟩
  have h1 := opensNumber_ne h (by decide : ' ' ≠ '-') (by decide)
  have h2 := opensNumber_ne h (by decide : '\n' ≠ '-') (by decide)
  have h3 := opensNumber_ne h (by decide : '\t' ≠ '-') (by decide)
  have h4 := opensNumber_ne h (by decide : '\r' ≠ '-') (by decide)
  simp [Reading.isBlank, h1, h2, h3, h4]

theorem chars_opens {n : Numeral} (hn : n.WellFormed) :
    ∃ c rest, n.chars = c :: rest ∧ OpensNumber c := by
  obtain ⟨negative, whole, fraction, exponent⟩ := n
  obtain ⟨⟨⟨hne, hlt⟩, -⟩, -, -⟩ := hn
  cases negative with
  | true => exact ⟨'-', _, rfl, Or.inl rfl⟩
  | false =>
    cases whole with
    | nil => exact absurd rfl hne
    | cons d ds =>
      refine ⟨Nat.digitChar d, _, rfl, Or.inr ?_⟩
      rw [decimalValue_digitChar d (hlt d List.mem_cons_self)]
      rfl

theorem numeral_eq {x : Double} {n : Numeral} (hn : n.WellFormed) (hchars : x.text = n.chars) :
    x.numeral = n := by
  have hread := read_chars hn follows_nil
  rw [List.append_nil, ← hchars] at hread
  rw [Double.numeral, hread]

theorem numeral_spec (x : Double) : x.numeral.WellFormed ∧ x.text = x.numeral.chars := by
  obtain ⟨n, hn, hchars, -⟩ := x.text_chars
  rw [numeral_eq hn hchars]
  exact ⟨hn, hchars⟩

/-- The numeral of a number shows its shortest decimal or zero. -/
theorem numeral_shows (x : Double) : ∃ m k, x.numeral.Shows m k ∧ (m = 0 ∨ ∃ zeros : Nat,
    x.shortest.digits = m * 10 ^ zeros ∧ k = x.shortest.exponent + zeros) := by
  obtain ⟨n, hn, hchars, hshows⟩ := x.text_chars
  rw [numeral_eq hn hchars]
  exact hshows

/-- A written value starts with neither a blank nor the end of an array. -/
theorem write_opens (tail : List Char) (j : Json) :
    ∃ c rest, write tail j = c :: rest ∧ Opens c := by
  cases j with
  | null => exact ⟨'n', _, rfl, by decide, by decide⟩
  | bool b => cases b with
    | true => exact ⟨'t', _, rfl, by decide, by decide⟩
    | false => exact ⟨'f', _, rfl, by decide, by decide⟩
  | int n =>
    obtain ⟨c, rest, h, ho⟩ := chars_opens (wellFormed_ofInt n)
    exact ⟨c, rest ++ tail, by rw [write, ← chars_ofInt, h]; rfl, ho.opens⟩
  | float x =>
    obtain ⟨c, rest, h, ho⟩ := chars_opens (numeral_spec x).1
    exact ⟨c, rest ++ tail, by rw [write, (numeral_spec x).2, h]; rfl, ho.opens⟩
  | string s => exact ⟨'"', _, rfl, by decide, by decide⟩
  | array items => cases items with
    | nil => exact ⟨'[', _, rfl, by decide, by decide⟩
    | cons item items => exact ⟨'[', _, rfl, by decide, by decide⟩
  | object members => cases members with
    | nil => exact ⟨'{', _, rfl, by decide, by decide⟩
    | cons m members => exact ⟨'{', _, rfl, by decide, by decide⟩

theorem skipBlanks_cons {c : Char} (h : Reading.isBlank c = false) (rest : List Char) :
    Reading.skipBlanks (c :: rest) = c :: rest := by
  simp [Reading.skipBlanks, h]

/-! ## Reading the parts -/

theorem afterWord?_append (word tail : List Char) :
    Reading.afterWord? word (word ++ tail) = some tail := by
  induction word with
  | nil => rfl
  | cons c word ih => simp [Reading.afterWord?, ih]

theorem value_of_read {fuel : Nat} {c : Char} (ho : OpensNumber c) {text rest : List Char}
    {n : Numeral} (hread : Numeral.read (c :: text) = some (n, rest)) :
    Reading.value (fuel + 1) (c :: text) = (.number n, some rest) := by
  rw [Reading.value, skipBlanks_cons ho.opens.1]
  split
  · contradiction
  -- A number opens none of the other kinds of value.
  iterate 6
    · rename_i heq
      exact absurd (List.cons.inj heq).1 (opensNumber_ne ho (by decide) (by decide))
  · rw [hread]

theorem value_number {fuel : Nat} {n : Numeral} (hn : n.WellFormed) {tail : List Char}
    (h : Follows tail) : Reading.value (fuel + 1) (n.chars ++ tail) = (.number n, some tail) := by
  obtain ⟨c, rest, hc, ho⟩ := chars_opens hn
  have hread := read_chars hn h
  rw [hc, List.cons_append] at hread ⊢
  exact value_of_read ho hread

theorem word_append (expected : String) (r : Reading) (tail : List Char) :
    Reading.word expected r (expected.toList ++ tail) = (r, some tail) := by
  rw [Reading.word, afterWord?_append]

theorem scan_string (s : String) (tail : List Char) :
    Quoted.scan (s.toList.flatMap Quoted.escape ++ '"' :: tail) =
      some (s.toList.map Quoted.pieceOf, tail) :=
  Quoted.scan_write s.toList tail

theorem meaning_string (s : String) :
    (Quoted.meaning (s.toList.map Quoted.pieceOf)).map String.ofList = some s := by
  rw [Quoted.meaning_map_pieceOf, Option.map_some, String.ofList_toList]

theorem follows_writeItems (tail : List Char) (items : List Json) :
    Follows (writeItems (']' :: tail) items) := by
  cases items with
  | nil => exact follows_cons (by decide)
  | cons item items => exact follows_cons (by decide)

theorem follows_writeMembers (tail : List Char) (members : List (String × Json)) :
    Follows (writeMembers ('}' :: tail) members) := by
  cases members with
  | nil => exact follows_cons (by decide)
  | cons m members => exact follows_cons (by decide)

theorem write_key (key : String) (text : List Char) :
    Quoted.write key.toList ++ ':' :: text =
      '"' :: (key.toList.flatMap Quoted.escape ++ '"' :: ':' :: text) := by
  simp [Quoted.write]

/-- A member is read when its value and the members after it are. -/
theorem oneMember_write {fuel : Nat} {key : String} {text tail rest : List Char} {r : Reading}
    {ms : List (Option String × Reading)} (hv : Reading.value fuel text = (r, some tail))
    (hm : Reading.members fuel false tail = (ms, some rest)) :
    Reading.oneMember (fuel + 1) ('"' :: (key.toList.flatMap Quoted.escape ++ '"' :: ':' :: text)) =
      ((some key, r) :: ms, some rest) := by
  rw [Reading.oneMember, scan_string]
  simp only [meaning_string, skipBlanks_cons (by decide : Reading.isBlank ':' = false), hv, hm]

/-- An item is read when its value and the items after it are. -/
theorem oneItem_write {fuel : Nat} {text tail rest : List Char} {r : Reading} {rs : List Reading}
    (hv : Reading.value fuel text = (r, some tail))
    (hi : Reading.items fuel false tail = (rs, some rest)) :
    Reading.oneItem (fuel + 1) text = (r :: rs, some rest) := by
  simp only [Reading.oneItem, hv, hi]

/-! ## The length of a text -/

mutual

theorem length_write (tail : List Char) : ∀ j : Json, tail.length < (write tail j).length
  | .null => by
    rw [write, List.length_append]
    exact Nat.lt_add_of_pos_left (by decide)
  | .bool true => by
    rw [write, List.length_append]
    exact Nat.lt_add_of_pos_left (by decide)
  | .bool false => by
    rw [write, List.length_append]
    exact Nat.lt_add_of_pos_left (by decide)
  | .int n => by
    obtain ⟨c, rest, h, -⟩ := chars_opens (wellFormed_ofInt n)
    simp only [write, ← chars_ofInt, h, List.length_append, List.length_cons]
    omega
  | .float x => by
    obtain ⟨c, rest, h, -⟩ := chars_opens (numeral_spec x).1
    simp only [write, (numeral_spec x).2, h, List.length_append, List.length_cons]
    omega
  | .string s => by
    simp only [write, Quoted.write, List.length_append, List.length_cons]
    omega
  | .array [] => by
    simp only [write, List.length_cons]
    omega
  | .array (item :: items) => by
    have h1 := length_write (writeItems (']' :: tail) items) item
    have h2 := length_writeItems (']' :: tail) items
    simp only [write, List.length_cons] at h1 h2 ⊢
    omega
  | .object [] => by
    simp only [write, List.length_cons]
    omega
  | .object ((key, value) :: members) => by
    have h1 := length_write (writeMembers ('}' :: tail) members) value
    have h2 := length_writeMembers ('}' :: tail) members
    simp only [write, List.length_cons, List.length_append] at h1 h2 ⊢
    omega

theorem length_writeItems (tail : List Char) :
    ∀ items : List Json, tail.length ≤ (writeItems tail items).length
  | [] => Nat.le_refl _
  | item :: items => by
    have h1 := length_write (writeItems tail items) item
    have h2 := length_writeItems tail items
    simp only [writeItems, List.length_cons]
    omega

theorem length_writeMembers (tail : List Char) :
    ∀ members : List (String × Json), tail.length ≤ (writeMembers tail members).length
  | [] => Nat.le_refl _
  | (key, value) :: members => by
    have h1 := length_write (writeMembers tail members) value
    have h2 := length_writeMembers tail members
    simp only [writeMembers, List.length_cons, List.length_append]
    omega

end

/-! ## Reading whole values -/

mutual

/-- A written value is read as its tree, and what follows it is left. Every character pays for the
three steps that reading takes at most for it. -/
theorem value_write : ∀ (j : Json) (fuel : Nat) (tail : List Char), Follows tail →
    3 * (write tail j).length ≤ fuel + 3 * tail.length →
      Reading.value fuel (write tail j) = (j.reading, some tail)
  | j, 0, tail, _, hf => by
    have := length_write tail j
    omega
  | .null, fuel + 1, tail, _, _ => word_append "null" .null tail
  | .bool true, fuel + 1, tail, _, _ => word_append "true" (.bool true) tail
  | .bool false, fuel + 1, tail, _, _ => word_append "false" (.bool false) tail
  | .int n, fuel + 1, tail, h, _ => by
    rw [write, ← chars_ofInt, value_number (wellFormed_ofInt n) h, reading]
  | .float x, fuel + 1, tail, h, _ => by
    rw [write, (numeral_spec x).2, value_number (numeral_spec x).1 h, reading]
  | .string s, fuel + 1, tail, _, _ => by
    have hs : write tail (.string s) = '"' :: (s.toList.flatMap Quoted.escape ++ '"' :: tail) := by
      simp [write, Quoted.write]
    rw [hs, Reading.value, skipBlanks_cons (by decide)]
    simp only [scan_string, meaning_string, reading]
  | .array [], fuel + 1, tail, _, hf => by
    obtain ⟨fuel, rfl⟩ : ∃ n, fuel = n + 1 := by
      simp only [write, List.length_cons] at hf
      exact ⟨fuel - 1, by omega⟩
    rfl
  | .array (item :: items), fuel + 1, tail, _, hf => by
    have h1 := length_write (writeItems (']' :: tail) items) item
    have h2 := length_writeItems (']' :: tail) items
    simp only [write, List.length_cons] at hf h1 h2
    obtain ⟨fuel, rfl⟩ : ∃ n, fuel = n + 2 := ⟨fuel - 2, by omega⟩
    have hv := value_write item fuel _ (follows_writeItems tail items) (by omega)
    have hi := items_write items fuel tail (by omega)
    have hone := oneItem_write hv hi
    -- Reading looks for the end of the list first; an item does not start with it.
    obtain ⟨c, rest, hw, hb, hc⟩ := write_opens (writeItems (']' :: tail) items) item
    rw [write, Reading.value, skipBlanks_cons (by decide)]
    rw [hw] at hone ⊢
    simp only [Reading.items, skipBlanks_cons hb, if_neg hc, if_true, hone, reading, itemReadings]
    rfl
  | .object [], fuel + 1, tail, _, hf => by
    obtain ⟨fuel, rfl⟩ : ∃ n, fuel = n + 1 := by
      simp only [write, List.length_cons] at hf
      exact ⟨fuel - 1, by omega⟩
    rfl
  | .object ((key, value) :: members), fuel + 1, tail, _, hf => by
    have h1 := length_write (writeMembers ('}' :: tail) members) value
    have h2 := length_writeMembers ('}' :: tail) members
    simp only [write, List.length_cons, List.length_append] at hf h1 h2
    obtain ⟨fuel, rfl⟩ : ∃ n, fuel = n + 2 := ⟨fuel - 2, by omega⟩
    have hv := value_write value fuel _ (follows_writeMembers tail members) (by omega)
    have hm := members_write members fuel tail (by omega)
    have hone := @oneMember_write fuel key _ _ _ _ _ hv hm
    rw [write, List.cons_append, write_key, Reading.value, skipBlanks_cons (by decide)]
    simp only [Reading.members, skipBlanks_cons (by decide : Reading.isBlank '"' = false),
      if_neg (by decide : '"' ≠ '}'), if_true, hone, reading, memberReadings]
    rfl

theorem items_write : ∀ (items : List Json) (fuel : Nat) (tail : List Char),
    3 * (writeItems (']' :: tail) items).length ≤ fuel + 3 * tail.length →
      Reading.items fuel false (writeItems (']' :: tail) items) =
        (itemReadings items, some tail)
  | items, 0, tail, hf => by
    have := length_writeItems (']' :: tail) items
    simp only [List.length_cons] at this
    omega
  | [], fuel + 1, tail, _ => rfl
  | item :: items, fuel + 1, tail, hf => by
    have h1 := length_write (writeItems (']' :: tail) items) item
    have h2 := length_writeItems (']' :: tail) items
    simp only [writeItems, List.length_cons] at hf h1 h2
    obtain ⟨fuel, rfl⟩ : ∃ n, fuel = n + 1 := ⟨fuel - 1, by omega⟩
    have hv := value_write item fuel _ (follows_writeItems tail items) (by omega)
    have hi := items_write items fuel tail (by omega)
    have hone := oneItem_write hv hi
    obtain ⟨c, rest, hw, hb, hc⟩ := write_opens (writeItems (']' :: tail) items) item
    rw [writeItems, Reading.items, skipBlanks_cons (by decide)]
    rw [hw] at hone ⊢
    simp only [skipBlanks_cons hb, if_neg (by decide : ',' ≠ ']'), Bool.false_eq_true, if_false,
      if_true, itemReadings]
    split
    · rename_i heq
      exact absurd (List.cons.inj heq).1 hc
    · exact hone

theorem members_write : ∀ (members : List (String × Json)) (fuel : Nat) (tail : List Char),
    3 * (writeMembers ('}' :: tail) members).length ≤ fuel + 3 * tail.length →
      Reading.members fuel false (writeMembers ('}' :: tail) members) =
        (memberReadings members, some tail)
  | members, 0, tail, hf => by
    have := length_writeMembers ('}' :: tail) members
    simp only [List.length_cons] at this
    omega
  | [], fuel + 1, tail, _ => rfl
  | (key, value) :: members, fuel + 1, tail, hf => by
    have h1 := length_write (writeMembers ('}' :: tail) members) value
    have h2 := length_writeMembers ('}' :: tail) members
    simp only [writeMembers, List.length_cons, List.length_append] at hf h1 h2
    obtain ⟨fuel, rfl⟩ : ∃ n, fuel = n + 1 := ⟨fuel - 1, by omega⟩
    have hv := value_write value fuel _ (follows_writeMembers tail members) (by omega)
    have hm := members_write members fuel tail (by omega)
    have hone := @oneMember_write fuel key _ _ _ _ _ hv hm
    rw [writeMembers, List.cons_append, write_key, Reading.members, skipBlanks_cons (by decide)]
    simp only [skipBlanks_cons (by decide : Reading.isBlank '"' = false),
      if_neg (by decide : ',' ≠ '}'), Bool.false_eq_true, if_false, if_true, hone, memberReadings]

end

/-- The text of a value is read as its tree and nothing follows it. -/
theorem ofText_text (j : Json) : Reading.ofText j.text.toList = (j.reading, true) := by
  have hv := value_write j (3 * (write [] j).length + 3) [] follows_nil (by omega)
  rw [text, String.toList_ofList, Reading.ofText, hv]
  rfl

/-- What a decoder makes of the text of a value. -/
theorem run_text {α : Type} (d : Decoder α) (j : Json) :
    d.run j.text = d .direct j.reading := by
  rw [Decoder.run, ofText_text]
  dsimp only
  cases d .direct j.reading <;> rfl

end Json

end PolicyProbe
