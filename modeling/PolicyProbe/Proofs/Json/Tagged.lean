import PolicyProbe.Proofs.Json.Decoding
import PolicyProbe.Proofs.OrderedMap

/-!
Tagged structures read back. A written one has its tag in front of its fields. The fields are kept
whole before the tag decides what they are decoded as, so each of them has to be sound on its own:
`Json.Keeps` says so of a value and of what it may be nested in.
-/
namespace PolicyProbe

/-! ## Values that are kept whole -/

namespace Reading

theorem soundItems_eq_all (depth : Nat) (items : List Reading) :
    soundItems depth items = items.all (sound depth ·) := by
  induction items with
  | nil => rfl
  | cons r items ih =>
    show (sound depth r && soundItems depth items) = _
    rw [ih, List.all_cons]

theorem soundMembers_eq_all (depth : Nat) (members : List (Option String × Reading)) :
    soundMembers depth members = members.all fun m => m.1.isSome && sound depth m.2 := by
  induction members with
  | nil => rfl
  | cons m members ih =>
    show (m.1.isSome && sound depth m.2 && soundMembers depth members) = _
    rw [ih, List.all_cons]

theorem sound_array {depth : Nat} {items : List Reading} {ending : Ending} :
    sound depth (.array items ending) = true ↔
      1 < depth ∧ ending = .closed ∧ ∀ r ∈ items, r.sound (depth - 1) = true := by
  show (decide (1 < depth) && ending == .closed && soundItems (depth - 1) items) = true ↔ _
  rw [soundItems_eq_all]
  simp [and_assoc]

theorem sound_object {depth : Nat} {members : List (Option String × Reading)} {ending : Ending} :
    sound depth (.object members ending) = true ↔
      1 < depth ∧ ending = .closed ∧
        ∀ m ∈ members, m.1.isSome = true ∧ m.2.sound (depth - 1) = true := by
  show (decide (1 < depth) && ending == .closed && soundMembers (depth - 1) members) = true ↔ _
  rw [soundMembers_eq_all]
  simp [and_assoc]

end Reading

/-- Whether the reading of a value can be kept inside containers with room for `depth` levels. -/
def Json.Keeps (depth : Nat) (j : Json) : Prop := j.reading.sound depth = true

namespace Json

theorem keeps_null (depth : Nat) : Keeps depth .null := rfl

theorem keeps_bool (depth : Nat) (b : Bool) : Keeps depth (.bool b) := rfl

theorem keeps_string (depth : Nat) (s : String) : Keeps depth (.string s) := rfl

theorem keeps_nat (depth : Nat) {n : Nat} (h : n < 2 ^ 64) : Keeps depth (.nat n) := by
  have hi : (Numeral.ofInt n).int? = some (n : Int) := Numeral.int?_ofInt (by omega) (by omega)
  show (Numeral.ofInt n).inRange = true
  simp [Numeral.inRange, hi]

/-- A floating point number that is read back is in range. -/
theorem keeps_float (depth : Nat) {x : Double}
    (h : Decoder.double.run (Json.float x).text = .ok x) : Keeps depth (.float x) := by
  have hfound := Decoder.finds_double h .direct
  simp only [reading, Decoder.double] at hfound
  show x.numeral.inRange = true
  rw [Numeral.inRange]
  cases hi : x.numeral.int? with
  | some v => rfl
  | none =>
    rw [hi] at hfound
    cases hd : x.numeral.double? with
    | some y => rfl
    | none =>
      rw [hd] at hfound
      exact nomatch hfound

theorem keeps_ofOption {depth : Nat} {o : Option Json} (h : ∀ j ∈ o, Keeps depth j) :
    Keeps depth (.ofOption o) := by
  cases o with
  | none => exact keeps_null depth
  | some j => exact h j rfl

theorem keeps_array {depth : Nat} (hd : 0 < depth) {items : List Json}
    (h : ∀ j ∈ items, Keeps depth j) : Keeps (depth + 1) (.array items) := by
  have hitems : ∀ r ∈ itemReadings items, r.sound depth = true := by
    rw [itemReadings_eq_map, List.forall_mem_map]
    exact h
  exact Reading.sound_array.mpr ⟨Nat.succ_lt_succ hd, rfl, hitems⟩

theorem keeps_object {depth : Nat} (hd : 0 < depth) {members : List (String × Json)}
    (h : ∀ m ∈ members, Keeps depth m.2) : Keeps (depth + 1) (.object members) := by
  have hmembers : ∀ m ∈ memberReadings members, m.1.isSome = true ∧ m.2.sound depth = true := by
    rw [memberReadings_eq_map, List.forall_mem_map]
    exact fun m hm => ⟨rfl, h m hm⟩
  exact Reading.sound_object.mpr ⟨Nat.succ_lt_succ hd, rfl, hmembers⟩

end Json

namespace Variants

variable {α : Type} {variants : Variants α} {tag : String}

/-- Behind the tag, the other members are kept as they are. -/
theorem split_keeps {d : Decoder α} {members : List (String × Json)}
    (hnames : ∀ m ∈ members, m.1 ≠ tag) (hkeeps : ∀ m ∈ members, m.2.Keeps 127) :
    split variants tag (some d) (Json.memberReadings members) =
      .ok (some d, Json.memberReadings members) := by
  induction members with
  | nil => rfl
  | cons m members ih =>
    have hname := hnames m List.mem_cons_self
    have hkeep : m.2.reading.sound 127 = true := hkeeps m List.mem_cons_self
    have hrest := ih (fun n hn => hnames n (List.mem_cons_of_mem m hn))
      fun n hn => hkeeps n (List.mem_cons_of_mem m hn)
    simp only [Json.memberReadings, split, if_neg hname, if_pos hkeep, hrest]
    rfl

/-- A structure is found behind its tag when the decoder of the tag finds it. -/
theorem finds {name : String} {d : Decoder α} {members : List (String × Json)} {a : α}
    (hchosen : variants.lookup name = some d) (hfound : d.Finds (.object members) a)
    (hnames : ∀ m ∈ members, m.1 ≠ tag) (hkeeps : ∀ m ∈ members, m.2.Keeps 127) :
    (decode variants tag).Finds (.object ((tag, .string name) :: members)) a := by
  intro manner
  have hchoose : choose variants (.string (some name)) = .ok d := by
    simp only [choose, Decoder.choose, hchosen]
  have hsplit : split variants tag none (Json.memberReadings ((tag, .string name) :: members)) =
      .ok (some d, Json.memberReadings members) := by
    rw [Json.memberReadings, split, if_pos rfl, Json.reading, hchoose]
    exact split_keeps hnames hkeeps
  have htagged := hfound .tagged
  rw [Json.reading] at htagged ⊢
  simp only [decode, hsplit]
  exact htagged

/-! ## What tagged structures are decoded as -/

/-- A decoder that a tag chooses is one of the variants. -/
theorem mem_of_choose {r : Reading} {d : Decoder α} (h : choose variants r = .ok d) :
    ∃ v ∈ variants, v.2 = d := by
  unfold choose at h
  split at h
  · rename_i name
    unfold Decoder.choose at h
    split at h
    · rename_i e he
      rw [← Except.ok.inj h]
      exact ⟨_, OrderedMap.mem_of_find? he, rfl⟩
    · exact nomatch h
  · exact nomatch h

theorem mem_of_split {members rest : List (Option String × Reading)} {chosen : Option (Decoder α)}
    {d : Decoder α} (h : split variants tag chosen members = .ok (some d, rest)) :
    chosen = some d ∨ ∃ v ∈ variants, v.2 = d := by
  induction members generalizing chosen rest with
  | nil => exact Or.inl (Prod.mk.inj (Except.ok.inj h)).1
  | cons m members ih =>
    obtain ⟨name, value⟩ := m
    cases name with
    | none => exact nomatch h
    | some name =>
      rw [split] at h
      split at h
      · split at h
        · exact nomatch h
        · -- The tag is here, and nothing behind it chooses again.
          obtain ⟨e, he, h⟩ := Except.bind_eq_ok h
          rcases ih h with hd | hd
          · exact Or.inr (Option.some.inj hd ▸ mem_of_choose he)
          · exact Or.inr hd
      · split at h
        · obtain ⟨⟨found, others⟩, hp, h⟩ := Except.bind_eq_ok h
          have hfound : found = some d := (Prod.mk.inj (Except.ok.inj h)).1
          rw [hfound] at hp
          exact ih hp
        · exact nomatch h

theorem yields {P : α → Prop} (h : ∀ v ∈ variants, v.2.Yields P) :
    (decode variants tag).Yields P := by
  intro manner r a ha
  unfold decode at ha
  split at ha
  · obtain ⟨⟨chosen, rest⟩, hp, ha⟩ := Except.bind_eq_ok ha
    dsimp only at ha
    split at ha
    · exact nomatch ha
    cases chosen with
    | none => exact nomatch ha
    | some d =>
      rcases mem_of_split hp with hd | ⟨v, hv, rfl⟩
      · exact nomatch hd
      · exact h v hv ha
  · exact nomatch ha
  · obtain ⟨d, hd, ha⟩ := Except.bind_eq_ok ha
    split at ha
    · obtain ⟨v, hv, rfl⟩ := mem_of_choose hd
      exact h v hv ha
    · exact nomatch ha
  · exact nomatch ha

end Variants

end PolicyProbe
