import PolicyProbe.Proofs.Json.Structures

/-!
Tagged structures ignore edits. What is made of an object depends on the value of its tag and on the
other members in their order (`Variants.decode_object`), so the tag may stand anywhere. An edit of a
tagged structure is an edit of the members beside its tag, and these are still kept whole behind it;
the variant that the tag chooses ignores the edit (`Variants.Follows.ignores`).
-/
namespace PolicyProbe

namespace Variants

open Reading (valuesOf)

variable {α : Type} {variants : Variants α} {tag : String}
  {members members' : List (Option String × Reading)}

/-! ## The members beside the tag -/

/-- The members beside the tag. -/
def untagged (tag : String) (members : List (Option String × Reading)) :
    List (Option String × Reading) :=
  members.filter fun m => decide (m.1 ≠ some tag)

theorem untagged_cons_of_ne {m : Option String × Reading} (h : m.1 ≠ some tag) :
    untagged tag (m :: members) = m :: untagged tag members :=
  List.filter_cons_of_pos (by simpa using h)

theorem untagged_cons_self {r : Reading} :
    untagged tag ((some tag, r) :: members) = untagged tag members :=
  List.filter_cons_of_neg (by simp)

theorem untagged_append : untagged tag (members ++ members') =
    untagged tag members ++ untagged tag members' :=
  List.filter_append ..

/-- The members beside the tag can be kept: all names have a meaning, and the values of these
members are kept whole. -/
structure Keeps (tag : String) (members : List (Option String × Reading)) : Prop where
  names : ∀ m ∈ members, m.1.isSome = true
  sound : ∀ m ∈ untagged tag members, m.2.sound 127 = true

theorem keeps_cons_self {r : Reading} :
    Keeps tag ((some tag, r) :: members) ↔ Keeps tag members := by
  constructor
  · rintro ⟨hnames, hsound⟩
    rw [untagged_cons_self] at hsound
    exact ⟨(List.forall_mem_cons.mp hnames).2, hsound⟩
  · rintro ⟨hnames, hsound⟩
    rw [← untagged_cons_self] at hsound
    exact ⟨List.forall_mem_cons.mpr ⟨rfl, hnames⟩, hsound⟩

theorem keeps_cons_of_ne {name : String} {r : Reading} (h : name ≠ tag) :
    Keeps tag ((some name, r) :: members) ↔ r.sound 127 = true ∧ Keeps tag members := by
  have hrest : untagged tag ((some name, r) :: members) = (some name, r) :: untagged tag members :=
    untagged_cons_of_ne (by simpa using h)
  constructor
  · rintro ⟨hnames, hsound⟩
    rw [hrest, List.forall_mem_cons] at hsound
    exact ⟨hsound.1, (List.forall_mem_cons.mp hnames).2, hsound.2⟩
  · rintro ⟨hvalue, hnames, hsound⟩
    refine ⟨List.forall_mem_cons.mpr ⟨rfl, hnames⟩, ?_⟩
    rw [hrest, List.forall_mem_cons]
    exact ⟨hvalue, hsound⟩

/-! ## Taking the tag out -/

/-- The tag is looked at in its place, if none was there before. -/
theorem split_cons_self {chosen : Option (Decoder α)} {r : Reading}
    {out : Option (Decoder α) × List (Option String × Reading)} :
    split variants tag chosen ((some tag, r) :: members) = .ok out ↔
      chosen = none ∧ ∃ d, variants.choose r = .ok d ∧
        split variants tag (some d) members = .ok out := by
  rw [split, if_pos rfl]
  cases chosen with
  | some e => simp
  | none =>
    constructor
    · intro h
      obtain ⟨d, hd, h⟩ := Except.bind_eq_ok h
      exact ⟨rfl, d, hd, h⟩
    · rintro ⟨-, d, hd, h⟩
      show (variants.choose r >>= fun d => split variants tag (some d) members) = _
      rw [hd]
      exact h

/-- Another member stays in front of the others if it can be kept. -/
theorem split_cons_of_ne {chosen chosen' : Option (Decoder α)} {name : String} {r : Reading}
    {rest : List (Option String × Reading)} (hname : name ≠ tag) :
    split variants tag chosen ((some name, r) :: members) = .ok (chosen', rest) ↔
      r.sound 127 = true ∧ ∃ others, split variants tag chosen members = .ok (chosen', others) ∧
        rest = (some name, r) :: others := by
  rw [split, if_neg hname]
  constructor
  · intro h
    split at h
    · rename_i hsound
      obtain ⟨⟨_, others⟩, hsplit, h⟩ := Except.bind_eq_ok h
      obtain ⟨rfl, rfl⟩ := Prod.mk.inj (Except.ok.inj h)
      exact ⟨hsound, others, hsplit, rfl⟩
    · cases h
  · rintro ⟨hsound, others, hsplit, rfl⟩
    rw [if_pos hsound, hsplit]
    rfl

/-- The tag chooses once: before the members that are still to come, or among them. -/
theorem split_eq_ok_iff {chosen : Option (Decoder α)} {d : Decoder α}
    {rest : List (Option String × Reading)} :
    split variants tag chosen members = .ok (some d, rest) ↔
      Keeps tag members ∧ rest = untagged tag members ∧
        (chosen = some d ∧ valuesOf tag members = [] ∨
          chosen = none ∧ ∃ r, valuesOf tag members = [r] ∧ variants.choose r = .ok d) := by
  -- Behind the tag a variant is chosen already, so the statement is for every choice before.
  induction members generalizing chosen rest with
  | nil =>
    have hkeeps : Keeps tag [] := ⟨by simp, by simp [untagged]⟩
    constructor
    · intro h
      obtain ⟨hchosen, hrest⟩ := Prod.mk.inj (Except.ok.inj h)
      exact ⟨hkeeps, hrest.symm, .inl ⟨hchosen, rfl⟩⟩
    · rintro ⟨-, rfl, ⟨rfl, -⟩ | ⟨-, r, hr, -⟩⟩
      · rfl
      · cases hr
  | cons m members ih =>
    obtain ⟨name?, value⟩ := m
    cases name? with
    | none =>
      constructor
      · intro h
        cases h
      · rintro ⟨hkeeps, -⟩
        cases hkeeps.names _ List.mem_cons_self
    | some name =>
      by_cases hname : name = tag
      · subst hname
        rw [split_cons_self, keeps_cons_self, untagged_cons_self, Reading.valuesOf_cons_self]
        constructor
        · rintro ⟨rfl, e, he, hsplit⟩
          obtain ⟨hkeeps, hrest, ⟨hchosen, hvalues⟩ | ⟨hchosen, -⟩⟩ := ih.mp hsplit
          · obtain rfl := Option.some.inj hchosen
            exact ⟨hkeeps, hrest, .inr ⟨rfl, value, by rw [hvalues], he⟩⟩
          · cases hchosen
        · rintro ⟨hkeeps, hrest, ⟨-, hvalues⟩ | ⟨rfl, r, hvalues, hr⟩⟩
          · cases hvalues
          · obtain ⟨rfl, hnone⟩ := List.cons.inj hvalues
            exact ⟨rfl, d, hr, ih.mpr ⟨hkeeps, hrest, .inl ⟨rfl, hnone⟩⟩⟩
      · have hne : (some name, value).1 ≠ some tag := by simpa using hname
        rw [split_cons_of_ne hname, keeps_cons_of_ne hname, untagged_cons_of_ne hne,
          Reading.valuesOf_cons_of_ne hne]
        constructor
        · rintro ⟨hsound, others, hsplit, rfl⟩
          obtain ⟨hkeeps, rfl, hchosen⟩ := ih.mp hsplit
          exact ⟨⟨hsound, hkeeps⟩, rfl, hchosen⟩
        · rintro ⟨⟨hsound, hkeeps⟩, hrest, hchosen⟩
          exact ⟨hsound, _, ih.mpr ⟨hkeeps, rfl, hchosen⟩, hrest⟩

/-! ## Decoding -/

/-- A tagged structure as an object: what counts is the tag and the members beside it. -/
theorem decode_object {manner : Manner} {ending : Ending} {a : α} :
    decode variants tag manner (.object members ending) = .ok a ↔
      ending = .closed ∧ Keeps tag members ∧ ∃ r d, valuesOf tag members = [r] ∧
        variants.choose r = .ok d ∧ d .tagged (.object (untagged tag members) .closed) = .ok a := by
  constructor
  · intro h
    obtain ⟨⟨chosen, rest⟩, hsplit, h⟩ := Except.bind_eq_ok h
    dsimp only at h
    split at h
    · cases h
    · rename_i hending
      cases chosen with
      | none => cases h
      | some d =>
        obtain ⟨hkeeps, rfl, ⟨hchosen, -⟩ | ⟨-, r, hr, hd⟩⟩ := split_eq_ok_iff.mp hsplit
        · cases hchosen
        · refine ⟨?_, hkeeps, r, d, hr, hd, h⟩
          cases ending with
          | closed => rfl
          | cut => exact absurd rfl hending
  · rintro ⟨rfl, hkeeps, r, d, hr, hd, ha⟩
    rw [decode, split_eq_ok_iff.mpr ⟨hkeeps, rfl, .inr ⟨rfl, r, hr, hd⟩⟩]
    exact ha

/-- A tagged structure as an array: the first item is the tag. -/
theorem decode_array {manner : Manner} {items : List Reading} {ending : Ending} {a : α} :
    decode variants tag manner (.array items ending) = .ok a ↔
      ending = .closed ∧ ∃ first rest d, items = first :: rest ∧ variants.choose first = .ok d ∧
        (∀ r ∈ rest, r.sound 127 = true) ∧ d .tagged (.array rest .closed) = .ok a := by
  cases items with
  | nil => cases ending <;> simp [decode]
  | cons first rest =>
    constructor
    · intro h
      obtain ⟨d, hd, h⟩ := Except.bind_eq_ok h
      split at h
      · rename_i hshape
        exact ⟨hshape.1, first, rest, d, rfl, hd, List.all_eq_true.mp hshape.2, hshape.1 ▸ h⟩
      · cases h
    · rintro ⟨rfl, _, _, d, heq, hd, hsound, ha⟩
      obtain ⟨rfl, rfl⟩ := List.cons.inj heq
      rw [decode, hd]
      exact (if_pos ⟨rfl, List.all_eq_true.mpr hsound⟩).trans ha

/-! ## Edits -/

/-- A variant without fields passes over all members, but it has no items. -/
theorem ignores_bare (a : α) : (bare a).Ignores (.struct []) := by
  intro depth manner r r' b hedit h
  cases hedit with
  | permuted hp =>
    cases hp with
    | here _ _ | member _ => exact h
    | item _ => simp [bare] at h
  | inserted _ _ => exact h
  | listed hlisted =>
    cases hlisted with
    | ends _ => exact h
  | field hf _ => exact absurd hf List.not_mem_nil
  | slot hf _ => cases hf

/-- The variants have these names, and each ignores the edits of its own fields. -/
def Follows (variants : Variants α) (shapes : List (String × List FieldShape)) : Prop :=
  List.Forall₂ (fun v s => v.1 = s.1 ∧ v.2.Ignores (.struct s.2)) variants shapes

variable {shapes : List (String × List FieldShape)}

theorem lookup_of_forall₂ {β γ : Type} {R : β → γ → Prop} {vs : List (String × β)}
    {ss : List (String × γ)} (h : List.Forall₂ (fun v s => v.1 = s.1 ∧ R v.2 s.2) vs ss)
    {name : String} {b : β} (hb : vs.lookup name = some b) :
    ∃ c, ss.lookup name = some c ∧ R b c := by
  induction h with
  | nil => cases hb
  | @cons v s _ _ hvs _ ih =>
    obtain ⟨key, b'⟩ := v
    obtain ⟨_, c⟩ := s
    obtain ⟨rfl, hr⟩ := hvs
    by_cases hname : name = key
    · subst hname
      rw [List.lookup_cons_self] at hb ⊢
      exact ⟨c, rfl, Option.some.inj hb ▸ hr⟩
    · obtain ⟨c', hc, hr'⟩ := ih ((OrderedMap.find?_cons_of_ne hname b' _).symm.trans hb)
      exact ⟨c', (OrderedMap.find?_cons_of_ne hname c _).trans hc, hr'⟩

/-- What chooses a variant is a string, the name of the variant. -/
theorem Follows.choose (h : Follows variants shapes) {r : Reading} {d : Decoder α}
    (hd : variants.choose r = .ok d) :
    ∃ name fields, r = .string (some name) ∧ shapes.lookup name = some fields ∧
      d.Ignores (.struct fields) := by
  unfold Variants.choose at hd
  split at hd
  · rename_i name
    unfold Decoder.choose at hd
    split at hd
    · rename_i e he
      obtain ⟨fields, hfields, hignores⟩ := lookup_of_forall₂
        (R := fun (d : Decoder α) fields => d.Ignores (.struct fields)) h he
      exact ⟨name, fields, rfl, hfields, Except.ok.inj hd ▸ hignores⟩
    · cases hd
  · cases hd

/-- Members that have the same tag and can be kept whole beside it, after an edit of the fields of
the variant. -/
structure Beside (tag : String) (fields : List FieldShape)
    (members members' : List (Option String × Reading)) : Prop where
  keeps : Keeps tag members'
  value : valuesOf tag members' = valuesOf tag members
  edit : ∃ depth, Edit depth (.struct fields) (.object (untagged tag members) .closed)
    (.object (untagged tag members') .closed)

theorem Follows.object (h : Follows variants shapes) {manner : Manner} {ending : Ending} {a : α}
    (hbeside : ∀ name fields, Keeps tag members → valuesOf tag members = [.string (some name)] →
      shapes.lookup name = some fields → Beside tag fields members members')
    (ha : decode variants tag manner (.object members ending) = .ok a) :
    decode variants tag manner (.object members' ending) = .ok a := by
  rw [decode_object] at ha ⊢
  obtain ⟨hending, hkeeps, r, d, hr, hd, ha⟩ := ha
  obtain ⟨name, fields, rfl, hfields, hignores⟩ := h.choose hd
  obtain ⟨hkeeps', htag, depth, hedit⟩ := hbeside name fields hkeeps hr hfields
  exact ⟨hending, hkeeps', _, d, htag.trans hr, hd, hignores hedit ha⟩

theorem Keeps.perm (h : Keeps tag members) (hperm : members.Perm members') :
    Keeps tag members' where
  names := fun m hm => h.names m (hperm.mem_iff.mpr hm)
  sound := fun m hm => h.sound m ((hperm.filter _).mem_iff.mpr hm)

section Middle

variable {before after : List (Option String × Reading)} {name : String} {r : Reading}

theorem keeps_middle (h : name ≠ tag) : Keeps tag (before ++ (some name, r) :: after) ↔
    r.sound 127 = true ∧ Keeps tag (before ++ after) := by
  rw [← keeps_cons_of_ne h]
  exact ⟨fun hkeeps => hkeeps.perm List.perm_middle,
    fun hkeeps => hkeeps.perm List.perm_middle.symm⟩

theorem valuesOf_middle (h : name ≠ tag) :
    valuesOf tag (before ++ (some name, r) :: after) = valuesOf tag (before ++ after) := by
  rw [Reading.valuesOf_append, Reading.valuesOf_append,
    Reading.valuesOf_cons_of_ne (by simpa using h)]

theorem untagged_middle (h : name ≠ tag) : untagged tag (before ++ (some name, r) :: after) =
    untagged tag before ++ (some name, r) :: untagged tag after := by
  rw [untagged_append, untagged_cons_of_ne (by simpa using h)]

end Middle

/-- A string is not edited. -/
theorem not_edit_string {depth : Nat} {shape : Shape} {s : Option String} {r : Reading} :
    ¬Edit depth shape (.string s) r := by
  intro h
  cases h with
  | permuted hp => cases hp

/-- A member whose value is edited is not the tag. -/
theorem beside_replace {before after : List (Option String × Reading)} {name? : Option String}
    {r r' : Reading} {depth : Nat} {shape : Shape} {chosen : String} {fields : List FieldShape}
    (hvalue : Edit depth shape r r') (hsound : r.sound 127 = true → r'.sound 127 = true)
    (hedit : name? ≠ some tag → ∃ depth, Edit depth (.struct fields)
      (.object (untagged tag before ++ (name?, r) :: untagged tag after) .closed)
      (.object (untagged tag before ++ (name?, r') :: untagged tag after) .closed))
    (hkeeps : Keeps tag (before ++ (name?, r) :: after))
    (htag : valuesOf tag (before ++ (name?, r) :: after) = [.string (some chosen)]) :
    Beside tag fields (before ++ (name?, r) :: after) (before ++ (name?, r') :: after) := by
  cases name? with
  | none =>
    have hnone := hkeeps.names _ (List.mem_append_right _ List.mem_cons_self)
    cases hnone
  | some name =>
    have hname : name ≠ tag := by
      rintro rfl
      rw [Reading.valuesOf_append, Reading.valuesOf_cons_self] at htag
      obtain ⟨-, hstring, -⟩ := toList_eq_append_cons (o := some _) htag
      rw [← Option.some.inj hstring] at hvalue
      exact not_edit_string hvalue
    rw [keeps_middle hname] at hkeeps
    refine ⟨(keeps_middle hname).mpr ⟨hsound hkeeps.1, hkeeps.2⟩, ?_, ?_⟩
    · rw [valuesOf_middle hname, valuesOf_middle hname]
    · rw [untagged_middle hname, untagged_middle hname]
      exact hedit (by simpa using hname)

/-- Another order of the members of an object, or of one inside a member. -/
theorem Follows.object_permuted (h : Follows variants shapes) {manner : Manner}
    {ending : Ending} {r' : Reading} {a : α} (hp : (Reading.object members ending).Permutes r')
    (ha : decode variants tag manner (.object members ending) = .ok a) :
    decode variants tag manner r' = .ok a := by
  cases hp with
  | here hnames hperm =>
    refine h.object (fun name fields hkeeps htag _ => ⟨hkeeps.perm hperm, ?_, 0, ?_⟩) ha
    · have hvalues := hperm.symm.filterMap fun m => if m.1 = some tag then some m.2 else none
      have hsame : valuesOf tag _ = (some _).toList :=
        eq_toList_of_perm (hvalues.trans (.of_eq htag))
      exact hsame.trans htag.symm
    · exact .permuted (.here (hnames.sublist (List.filter_sublist.filterMap Prod.fst))
        (hperm.filter _))
  | member hp =>
    refine h.object (fun name fields hkeeps htag _ => ?_) ha
    have hvalue : Edit 0 .simple _ _ := .permuted hp
    exact beside_replace hvalue (fun hs => hp.sound hs) (fun _ => ⟨0, .permuted (.member hp)⟩)
      hkeeps htag

/-- Another order of the members of an object inside an item. -/
theorem Follows.array_permuted (h : Follows variants shapes) {manner : Manner}
    {before after : List Reading} {r r' : Reading} {ending : Ending} {a : α} (hp : r.Permutes r')
    (ha : decode variants tag manner (.array (before ++ r :: after) ending) = .ok a) :
    decode variants tag manner (.array (before ++ r' :: after) ending) = .ok a := by
  rw [decode_array] at ha ⊢
  obtain ⟨hending, first, rest, d, hitems, hd, hsound, ha⟩ := ha
  obtain ⟨name, fields, rfl, -, hignores⟩ := h.choose hd
  cases before with
  | nil =>
    obtain ⟨rfl, -⟩ := List.cons.inj hitems
    cases hp
  | cons first before =>
    rw [List.cons_append] at hitems
    obtain ⟨rfl, rfl⟩ := List.cons.inj hitems
    refine ⟨hending, _, before ++ r' :: after, d, rfl, hd, ?_, hignores.permuted (.item hp) ha⟩
    rw [List.forall_mem_append, List.forall_mem_cons] at hsound ⊢
    exact ⟨hsound.1, hp.sound hsound.2.1, hsound.2.2⟩

/-- A tagged structure ignores what its variants ignore. -/
theorem Follows.ignores (h : Follows variants shapes) :
    (decode variants tag).Ignores (.tagged tag shapes) := by
  intro depth manner r r' a hedit ha
  cases hedit with
  | permuted hp =>
    cases r with
    | object members ending => exact h.object_permuted hp ha
    | array items ending =>
      cases hp with
      | item hp => exact h.array_permuted hp ha
    | _ => cases hp
  | @tagged _ name _ fields members members' hvariant htag hedit =>
    -- The variant of the edit is the one that the tag chooses.
    have hsame : ∀ chosen fields', valuesOf tag members = [.string (some chosen)] →
        shapes.lookup chosen = some fields' → fields' = fields := by
      intro chosen fields' hvalue hfields
      have hmem : Reading.string (some name) ∈ valuesOf tag members :=
        List.mem_filterMap.mpr ⟨_, htag, if_pos rfl⟩
      rw [hvalue, List.mem_singleton, Reading.string.injEq, Option.some.injEq] at hmem
      rw [← hmem, hvariant] at hfields
      exact (Option.some.inj hfields).symm
    cases hedit with
    | permuted hp => exact h.object_permuted hp ha
    | inserted hname hsound =>
      refine h.object (fun chosen fields' hkeeps hvalue hfields => ?_) ha
      obtain rfl := hsame chosen fields' hvalue hfields
      have hne := Ne.symm (hname _ List.mem_cons_self)
      refine ⟨(keeps_middle hne).mpr ⟨hsound, hkeeps⟩, valuesOf_middle hne, 128, ?_⟩
      rw [untagged_middle hne, untagged_append]
      exact .inserted (fun f hf => hname f (List.mem_cons_of_mem _ hf)) hsound
    | field hf hedit =>
      refine h.object (fun chosen fields' hkeeps hvalue hfields => ?_) ha
      obtain rfl := hsame chosen fields' hvalue hfields
      refine beside_replace hedit (fun hs => hedit.sound hs) (fun hne => ⟨128, ?_⟩) hkeeps hvalue
      rcases List.mem_cons.mp hf with rfl | hf
      · exact absurd rfl hne
      · exact .field hf hedit

end Variants

end PolicyProbe
