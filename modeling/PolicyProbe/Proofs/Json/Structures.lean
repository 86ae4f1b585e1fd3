import Mathlib.Data.List.Nodup
import PolicyProbe.Proofs.Json.Ignores

/-!
Structures ignore edits. What a layout makes of an object depends on the values of its fields only
(`Layout.decode_object`), and so does what it makes of an array (`Layout.decode_array`). A layout
follows the shapes of its fields (`Layout.Follows`) if each field ignores the edits of its own
shape; then the edits of a structure change nothing, its array form included
(`Layout.Follows.ignores`). A tagged structure ignores what its variants ignore
(`Variants.ignores`): its tag may stand anywhere.
-/
namespace PolicyProbe

/-- What goes on after a check ends well only if the check did. -/
theorem Except.check_bind_eq_ok_iff {ε β : Type} {x : Except ε Unit} {y : Except ε β} {b : β} :
    (x >>= fun _ => y) = .ok b ↔ x = .ok () ∧ y = .ok b := by
  cases x with
  | error e =>
    constructor
    · intro h
      cases h
    · rintro ⟨h, -⟩
      cases h
  | ok u => exact ⟨fun h => ⟨rfl, h⟩, fun h => h.2⟩

/-! ## The values of a name -/

namespace Reading

/-- The values of a name among members. -/
def valuesOf (name : String) (members : List (Option String × Reading)) : List Reading :=
  members.filterMap fun m => if m.1 = some name then some m.2 else none

variable {name : String} {members : List (Option String × Reading)}

theorem valuesOf_cons_self (name : String) (r : Reading)
    (members : List (Option String × Reading)) :
    valuesOf name ((some name, r) :: members) = r :: valuesOf name members :=
  List.filterMap_cons_some (if_pos rfl)

theorem valuesOf_cons_of_ne {m : Option String × Reading} (h : m.1 ≠ some name)
    (members : List (Option String × Reading)) :
    valuesOf name (m :: members) = valuesOf name members :=
  List.filterMap_cons_none (if_neg h)

theorem valuesOf_append (name : String) (members members' : List (Option String × Reading)) :
    valuesOf name (members ++ members') = valuesOf name members ++ valuesOf name members' :=
  List.filterMap_append

theorem lookup_eq_head? (name : String) (members : List (Option String × Reading)) :
    members.lookup (some name) = (valuesOf name members).head? := by
  induction members with
  | nil => rfl
  | cons m members ih =>
    by_cases hname : m.1 = some name
    · obtain ⟨_, r⟩ := m
      obtain rfl : _ = some name := hname
      rw [valuesOf_cons_self, List.lookup_cons_self, List.head?_cons]
    · have hne : some name ≠ m.1 := Ne.symm hname
      rw [valuesOf_cons_of_ne hname, ← ih]
      exact OrderedMap.find?_cons_of_ne hne m.2 members

end Reading

open Reading (valuesOf)

/-- What stands in the same place is related. -/
theorem getElem?_of_forall₂ {α β : Type} {R : α → β → Prop} {as : List α} {bs : List β}
    (h : List.Forall₂ R as bs) {i : Nat} {a : α} (hi : as[i]? = some a) :
    ∃ b, bs[i]? = some b ∧ R a b := by
  induction h generalizing i with
  | nil => cases hi
  | @cons x y _ _ hxy _ ih =>
    cases i with
    | zero =>
      obtain rfl : x = a := Option.some.inj hi
      exact ⟨y, rfl, hxy⟩
    | succ i => exact ih hi

theorem getElem?_map_of_eq_some {α β : Type} (f : α → β) {as : List α} {i : Nat} {a : α}
    (h : as[i]? = some a) : (as.map f)[i]? = some (f a) := by
  rw [List.getElem?_map, h]
  rfl

theorem exists_toList {α : Type} {as : List α} (h : as.length ≤ 1) :
    ∃ o : Option α, as = o.toList := by
  cases as with
  | nil => exact ⟨none, rfl⟩
  | cons a as =>
    obtain rfl := List.eq_nil_of_length_eq_zero (Nat.le_zero.mp (Nat.le_of_succ_le_succ h))
    exact ⟨some a, rfl⟩

theorem toList_eq_append_cons {α : Type} {before after : List α} {a : α} {o : Option α}
    (h : before ++ a :: after = o.toList) : before = [] ∧ o = some a ∧ after = [] := by
  cases o with
  | none => exact absurd h (by simp)
  | some b =>
    rcases List.append_eq_singleton_iff.mp h with ⟨hbefore, hrest⟩ | ⟨-, hrest⟩
    · obtain ⟨rfl, hafter⟩ := List.cons.inj hrest
      exact ⟨hbefore, rfl, hafter⟩
    · cases hrest

theorem eq_toList_of_perm {α : Type} {as : List α} {o : Option α} (h : as.Perm o.toList) :
    as = o.toList := by
  cases o with
  | none => exact List.perm_nil.mp h
  | some a => exact List.perm_singleton.mp h

/-- What is paired with a name. -/
theorem lookup_zip {names : List String} {items : List Reading} {i : Nat} {name : String}
    (hn : names.Nodup) (hi : names[i]? = some name) :
    (names.zip items).lookup name = items[i]? := by
  induction names generalizing items i with
  | nil => cases hi
  | cons first names ih =>
    obtain ⟨hfirst, hrest⟩ := List.nodup_cons.mp hn
    cases items with
    | nil => rfl
    | cons item items =>
      cases i with
      | zero =>
        obtain rfl := Option.some.inj hi
        exact List.lookup_cons_self
      | succ i =>
        rw [List.getElem?_cons_succ] at hi
        have hne : name ≠ first := fun heq => hfirst (heq ▸ List.mem_of_getElem? hi)
        rw [List.zip_cons_cons, List.getElem?_cons_succ, ← ih hrest hi]
        exact OrderedMap.find?_cons_of_ne hne item _

/-! ## What a layout makes of its fields -/

/-- A field takes its values among members: at most one, none if it was seen before, and each passes
its check. -/
structure Field.Takes (f : Field) (manner : Manner) (seen : List String)
    (members : List (Option String × Reading)) : Prop where
  length : (valuesOf f.name members).length ≤ if f.name ∈ seen then 0 else 1
  checks : ∀ r ∈ valuesOf f.name members, f.check manner r = .ok ()

namespace Field

variable {f : Field} {manner : Manner} {seen : List String}
  {members : List (Option String × Reading)}

theorem takes_cons_of_ne {m : Option String × Reading} (h : m.1 ≠ some f.name) :
    f.Takes manner seen (m :: members) ↔ f.Takes manner seen members := by
  have hvalues := Reading.valuesOf_cons_of_ne h members
  exact ⟨fun h => ⟨hvalues ▸ h.length, hvalues ▸ h.checks⟩,
    fun h => ⟨hvalues ▸ h.length, hvalues ▸ h.checks⟩⟩

theorem takes_seen_of_ne {name : String} (h : f.name ≠ name) :
    f.Takes manner (name :: seen) members ↔ f.Takes manner seen members := by
  have hseen : f.name ∈ name :: seen ↔ f.name ∈ seen := by simp [h]
  constructor
  · rintro ⟨hlength, hchecks⟩
    exact ⟨by simpa only [hseen] using hlength, hchecks⟩
  · rintro ⟨hlength, hchecks⟩
    exact ⟨by simpa only [hseen] using hlength, hchecks⟩

theorem takes_cons_self {r : Reading} : f.Takes manner seen ((some f.name, r) :: members) ↔
    f.name ∉ seen ∧ f.check manner r = .ok () ∧ f.Takes manner (f.name :: seen) members := by
  have hvalues := Reading.valuesOf_cons_self f.name r members
  constructor
  · rintro ⟨hlength, hchecks⟩
    rw [hvalues, List.length_cons] at hlength
    rw [hvalues, List.forall_mem_cons] at hchecks
    split at hlength
    · exact absurd hlength (by omega)
    · rename_i hseen
      refine ⟨hseen, hchecks.1, ?_, hchecks.2⟩
      rw [if_pos List.mem_cons_self]
      omega
  · rintro ⟨hseen, hcheck, hlength, hchecks⟩
    rw [if_pos List.mem_cons_self] at hlength
    constructor
    · rw [hvalues, List.length_cons, if_neg hseen]
      omega
    · rw [hvalues, List.forall_mem_cons]
      exact ⟨hcheck, hchecks⟩

end Field

namespace Layout

variable {α β : Type}

/-- A member that a field is named after is for that field; to the other fields, it is not there and
its name is not seen. -/
theorem forall_takes_cons {fields : List Field} (hn : (fields.map (·.name)).Nodup) {g : Field}
    (hg : g ∈ fields) {manner : Manner} {r : Reading} {members : List (Option String × Reading)}
    {seen : List String} :
    (∀ f ∈ fields, f.Takes manner seen ((some g.name, r) :: members)) ↔
      g.name ∉ seen ∧ g.check manner r = .ok () ∧
        ∀ f ∈ fields, f.Takes manner (g.name :: seen) members := by
  have hother : ∀ f ∈ fields, f ≠ g →
      (f.Takes manner seen ((some g.name, r) :: members) ↔
        f.Takes manner (g.name :: seen) members) := by
    intro f hf hfg
    have hne : f.name ≠ g.name := fun heq => hfg (List.inj_on_of_nodup_map hn hf hg heq)
    rw [Field.takes_cons_of_ne (by simpa using Ne.symm hne), Field.takes_seen_of_ne hne]
  constructor
  · intro h
    obtain ⟨hseen, hcheck, hself⟩ := Field.takes_cons_self.mp (h g hg)
    refine ⟨hseen, hcheck, fun f hf => ?_⟩
    by_cases hfg : f = g
    · exact hfg ▸ hself
    · exact (hother f hf hfg).mp (h f hf)
  · rintro ⟨hseen, hcheck, h⟩ f hf
    by_cases hfg : f = g
    · subst hfg
      exact Field.takes_cons_self.mpr ⟨hseen, hcheck, h f hf⟩
    · exact (hother f hf hfg).mpr (h f hf)

/-- Members pass if their names have a meaning and every field takes its values. -/
theorem checkMembers_eq_ok_iff {fields : List Field} (hn : (fields.map (·.name)).Nodup)
    {manner : Manner} {members : List (Option String × Reading)} {seen : List String} :
    checkMembers fields manner seen members = .ok () ↔
      (∀ m ∈ members, m.1.isSome = true) ∧ ∀ f ∈ fields, f.Takes manner seen members := by
  -- The names that were seen grow along the members, so the statement is for any of them.
  induction members generalizing seen with
  | nil =>
    refine ⟨fun _ => ⟨by simp, fun f _ => ⟨Nat.zero_le _, by simp [valuesOf]⟩⟩, fun _ => rfl⟩
  | cons m members ih =>
    obtain ⟨name?, value⟩ := m
    rw [List.forall_mem_cons]
    cases name? with
    | none => simp [checkMembers]
    | some name =>
      cases hfind : fields.find? (·.name == name) with
      | none =>
        have hne : ∀ f ∈ fields, some name ≠ some f.name := by
          intro f hf heq
          exact List.find?_eq_none.mp hfind f hf (beq_iff_eq.mpr (Option.some.inj heq).symm)
        simp only [checkMembers, hfind]
        rw [ih]
        refine and_congr (by simp) (forall₂_congr fun f hf => ?_)
        exact (Field.takes_cons_of_ne (hne f hf)).symm
      | some g =>
        have hg : g ∈ fields := List.mem_of_find?_eq_some hfind
        have hname : g.name = name := by simpa using List.find?_some hfind
        subst hname
        rw [forall_takes_cons hn hg]
        simp only [checkMembers, hfind, List.contains_iff_mem]
        by_cases hseen : g.name ∈ seen
        · simp [hseen]
        · rw [if_neg hseen, Except.check_bind_eq_ok_iff, ih]
          constructor
          · rintro ⟨hcheck, hnames, hfields⟩
            exact ⟨⟨rfl, hnames⟩, hseen, hcheck, hfields⟩
          · rintro ⟨⟨-, hnames⟩, -, hcheck, hfields⟩
            exact ⟨hcheck, hnames, hfields⟩

/-- A layout makes a structure of the values of its fields: each of them passes the check of its
field, and the structure is built from them. -/
structure Answers (layout : Layout α) (manner : Manner) (value? : String → Option Reading) (a : α) :
    Prop where
  checks : ∀ f ∈ layout.fields, ∀ r, value? f.name = some r → f.check manner r = .ok ()
  build : layout.build manner value? = .ok a

/-- A structure as an object: what counts is the values of its fields. -/
theorem decode_object {layout : Layout α} (hn : (layout.fields.map (·.name)).Nodup)
    {manner : Manner} {members : List (Option String × Reading)} {ending : Ending} {a : α} :
    layout.decode manner (.object members ending) = .ok a ↔
      ending = .closed ∧ (∀ m ∈ members, m.1.isSome = true) ∧
      (∀ name ∈ layout.fields.map (·.name), (valuesOf name members).length ≤ 1) ∧
      layout.Answers manner (members.lookup <| some ·) a := by
  rw [List.forall_mem_map]
  show (checkMembers layout.fields manner [] members >>= fun _ =>
    if ending = .closed then _ else _) = _ ↔ _
  rw [Except.check_bind_eq_ok_iff, checkMembers_eq_ok_iff hn]
  constructor
  · rintro ⟨⟨hnames, hfields⟩, h⟩
    split at h
    · rename_i hending
      refine ⟨hending, hnames, fun f hf => (hfields f hf).length, ?_, h⟩
      intro f hf r hr
      refine (hfields f hf).checks r ?_
      rw [Reading.lookup_eq_head?] at hr
      exact List.mem_of_head? hr
    · cases h
  · rintro ⟨rfl, hnames, hlength, hchecks, hbuild⟩
    refine ⟨⟨hnames, fun f hf => ⟨hlength f hf, fun r hr => hchecks f hf r ?_⟩⟩, hbuild⟩
    -- The only value is the first.
    obtain ⟨o, ho⟩ := exists_toList (hlength f hf)
    rw [Reading.lookup_eq_head?, ho]
    rw [ho, Option.mem_toList] at hr
    obtain rfl : o = some r := hr
    rfl

theorem checkItems_eq_ok_iff {manner : Manner} {fields : List Field} {items : List Reading} :
    checkItems manner fields items = .ok () ↔
      ∀ (i : Nat) (f : Field) (r : Reading), fields[i]? = some f → items[i]? = some r →
        f.check manner r = .ok () := by
  induction fields generalizing items with
  | nil => simp [checkItems]
  | cons g fields ih =>
    cases items with
    | nil => simp [checkItems]
    | cons item items =>
      rw [checkItems, Except.check_bind_eq_ok_iff, ih]
      constructor
      · rintro ⟨hitem, hitems⟩ i f r hf hr
        cases i with
        | zero =>
          obtain rfl := Option.some.inj hf
          obtain rfl := Option.some.inj hr
          exact hitem
        | succ i => exact hitems i f r hf hr
      · intro h
        exact ⟨h 0 g item rfl rfl, fun i f r hf hr => h (i + 1) f r hf hr⟩

/-- A structure as the array of its fields: what counts is the items, each the value of the field in
its place. -/
theorem decode_array {layout : Layout α} (hn : (layout.fields.map (·.name)).Nodup)
    {manner : Manner} {items : List Reading} {ending : Ending} {a : α} :
    layout.decode manner (.array items ending) = .ok a ↔
      ending = .closed ∧ (∀ b ∈ (layout.fields.map (·.defaulted)).drop items.length, b = true) ∧
      (manner = .table ∨ items.length ≤ layout.fields.length) ∧
      layout.Answers manner (((layout.fields.map (·.name)).zip items).lookup ·) a := by
  have hdefaulted : (layout.fields.drop items.length).all (·.defaulted) = true ↔
      ∀ b ∈ (layout.fields.map (·.defaulted)).drop items.length, b = true := by
    rw [← List.map_drop, List.forall_mem_map, List.all_eq_true]
  have hfits : (manner == .table || decide (items.length ≤ layout.fields.length)) = true ↔
      manner = .table ∨ items.length ≤ layout.fields.length := by simp
  rw [← hdefaulted, ← hfits]
  unfold decode
  refine Except.check_bind_eq_ok_iff.trans ?_
  rw [checkItems_eq_ok_iff]
  dsimp only
  constructor
  · rintro ⟨hitems, h⟩
    split at h
    · rename_i hshape
      refine ⟨hshape.1, hshape.2.1, hshape.2.2, ?_, h⟩
      intro f hf r hr
      obtain ⟨i, hi⟩ := List.mem_iff_getElem?.mp hf
      rw [lookup_zip hn (getElem?_map_of_eq_some _ hi)] at hr
      exact hitems i f r hi hr
    · cases h
  · rintro ⟨hending, hcomplete, hfit, hchecks, hbuild⟩
    rw [if_pos ⟨hending, hcomplete, hfit⟩]
    refine ⟨fun i f r hi hr => ?_, hbuild⟩
    refine hchecks f (List.mem_of_getElem? hi) r ?_
    rw [lookup_zip hn (getElem?_map_of_eq_some _ hi)]
    exact hr

end Layout

/-! ## Layouts that follow shapes -/

/-- What a field may have in one place and, after an edit, in another: the same, an edited value, or
what stands for a value that was left out. -/
inductive FieldShape.Agree (s : FieldShape) : Option Reading → Option Reading → Prop where
  | same (o : Option Reading) : Agree s o o
  | edited {depth : Nat} {r r' : Reading} (h : Edit depth s.shape r r') :
      Agree s (some r) (some r')
  | written {r : Reading} (h : s.absent? = some r) : Agree s none (some r)

/-- A field has a shape: its check lets pass what stands for it, and what it let pass before an
edit. -/
structure Field.Fits (f : Field) (s : FieldShape) : Prop where
  name : f.name = s.name
  defaulted : f.defaulted = s.isDefaulted
  check : ∀ ⦃manner o o'⦄, s.Agree o o' → (∀ r, o = some r → f.check manner r = .ok ()) →
    ∀ r, o' = some r → f.check manner r = .ok ()

/-- The fields of a layout have these shapes, and what is built from their values is built from
values that agree with them. -/
structure Layout.Follows {α : Type} (layout : Layout α) (shapes : List FieldShape) : Prop where
  fields : List.Forall₂ Field.Fits layout.fields shapes
  build : ∀ ⦃manner value? value?' a⦄, (∀ s ∈ shapes, s.Agree (value? s.name) (value?' s.name)) →
    layout.build manner value? = .ok a → layout.build manner value?' = .ok a

namespace Listed

variable {depth : Nat} {value? : String → Option Reading} {shapes : List FieldShape}
  {items : List Reading}

theorem length_le (h : Listed depth value? shapes items) : items.length ≤ shapes.length := by
  induction h with
  | ends _ => exact Nat.zero_le _
  | given _ _ ih | absent _ _ _ _ ih => exact Nat.succ_le_succ ih

theorem defaulted (h : Listed depth value? shapes items) :
    ∀ s ∈ shapes.drop items.length, s.isDefaulted = true := by
  induction h with
  | ends h => exact fun s hs => (h s hs).1
  | given _ _ ih | absent _ _ _ _ ih => exact ih

/-- The items agree with the values of the members. -/
theorem agree (h : Listed depth value? shapes items) {i : Nat} {s : FieldShape}
    (hi : shapes[i]? = some s) : s.Agree (value? s.name) items[i]? := by
  induction h generalizing i with
  | ends h =>
    rw [(h s (List.mem_of_getElem? hi)).2]
    exact .same none
  | given hvalue _ ih =>
    cases i with
    | zero =>
      obtain rfl := Option.some.inj hi
      rw [hvalue]
      exact .same _
    | succ i => exact ih hi
  | absent hvalue hr _ _ ih =>
    cases i with
    | zero =>
      obtain rfl := Option.some.inj hi
      rw [hvalue]
      exact .written hr
    | succ i => exact ih hi

end Listed

namespace Layout

variable {α β : Type}

theorem follows_pure (a : α) : (Layout.pure a).Follows [] where
  fields := .nil
  build := fun _ _ _ _ _ h => h

theorem Follows.andThen {f : Layout (α → β)} {x : Layout α} {ss ts : List FieldShape}
    (hf : f.Follows ss) (hx : x.Follows ts) : (f <*> x).Follows (ss ++ ts) where
  fields := List.rel_append hf.fields hx.fields
  build := by
    intro manner value? value?' b hagree h
    rw [List.forall_mem_append] at hagree
    obtain ⟨g, hg, h⟩ := Except.bind_eq_ok h
    obtain ⟨a, ha, h⟩ := Except.bind_eq_ok h
    show (do let g ← f.build manner value?'; let a ← x.build manner value?'; return g a) = _
    rw [hf.build hagree.1 hg, hx.build hagree.2 ha]
    exact h

theorem Follows.map {x : Layout α} {ss : List FieldShape} (g : α → β) (hx : x.Follows ss) :
    (g <$> x).Follows ss :=
  (follows_pure g).andThen hx

/-- A layout of a single field follows the shape that the decoder of its value ignores. What stands
for a value is decoded as what is built without one. -/
theorem follows_singleton {layout : Layout α} {f : Field} {s : FieldShape} {d : Decoder α}
    (absent : Except DecodeError α) (hfields : layout.fields = [f]) (hname : f.name = s.name)
    (hdefaulted : f.defaulted = s.isDefaulted)
    (hcheck : ∀ manner r, f.check manner r = (do let _ ← d manner r; return ()))
    (hbuild : ∀ manner value?, layout.build manner value? = (value? s.name).elim absent (d manner))
    (hd : d.Ignores s.shape)
    (habsent : ∀ manner r, s.absent? = some r → d manner r = absent ∧ ∃ a, absent = .ok a) :
    layout.Follows [s] where
  fields := by
    rw [hfields]
    refine .cons ⟨hname, hdefaulted, ?_⟩ .nil
    intro manner o o' hagree hpass r hr
    cases hagree with
    | same => exact hpass r hr
    | edited hedit =>
      obtain ⟨a, ha, -⟩ := Except.bind_eq_ok ((hcheck ..).symm.trans (hpass _ rfl))
      rw [hcheck, ← Option.some.inj hr, hd hedit ha]
      rfl
    | written hwritten =>
      obtain ⟨hfound, a, ha⟩ := habsent manner _ hwritten
      rw [hcheck, ← Option.some.inj hr, hfound, ha]
      rfl
  build := by
    intro manner value? value?' a hagree h
    have hvalue := hagree s List.mem_cons_self
    rw [hbuild] at h ⊢
    -- Only the value in each place matters from here on, not where it was found.
    generalize value? s.name = o at hvalue h
    generalize value?' s.name = o' at hvalue ⊢
    cases hvalue with
    | same => exact h
    | edited hedit => exact hd hedit h
    | written hwritten =>
      rw [← h]
      exact (habsent manner _ hwritten).1

theorem follows_required (name : String) {d : Decoder α} {shape : Shape} (hd : d.Ignores shape) :
    (required name d).Follows [⟨name, .required, shape⟩] := by
  refine follows_singleton (.error (.missingField name)) rfl rfl rfl (fun _ _ => rfl) ?_ hd ?_
  · intro manner value?
    cases h : value? name <;> simp only [required, h] <;> rfl
  · intro manner r h
    cases h

theorem follows_optional (name : String) {d : Decoder α} {shape : Shape} (hd : d.Ignores shape) :
    (optional name d).Follows [⟨name, .optional, shape⟩] := by
  refine follows_singleton (.ok none) rfl rfl rfl (fun _ _ => rfl) ?_ hd.optional ?_
  · intro manner value?
    cases h : value? name <;> simp only [optional, h] <;> rfl
  · intro manner r h
    rw [← Option.some.inj h]
    exact ⟨rfl, none, rfl⟩

theorem follows_withDefault (name : String) {d : Decoder α} {shape : Shape} {value : Json}
    {default : α} (hd : d.Ignores shape) (hfinds : d.Finds value default) :
    (withDefault name d default).Follows [⟨name, .defaulted value, shape⟩] := by
  refine follows_singleton (.ok default) rfl rfl rfl (fun _ _ => rfl) ?_ hd ?_
  · intro manner value?
    cases h : value? name <;> simp only [withDefault, h] <;> rfl
  · intro manner r h
    rw [← Option.some.inj h]
    exact ⟨hfinds manner, default, rfl⟩

variable {layout : Layout α} {shapes : List FieldShape}

theorem Follows.names (h : layout.Follows shapes) :
    layout.fields.map (·.name) = shapes.map (·.name) := by
  rw [← List.forall₂_eq_eq_eq, List.forall₂_map_left_iff, List.forall₂_map_right_iff]
  exact h.fields.imp fun _ _ hf => hf.name

theorem Follows.defaulted (h : layout.Follows shapes) :
    layout.fields.map (·.defaulted) = shapes.map (·.isDefaulted) := by
  rw [← List.forall₂_eq_eq_eq, List.forall₂_map_left_iff, List.forall₂_map_right_iff]
  exact h.fields.imp fun _ _ hf => hf.defaulted

theorem Follows.answers (h : layout.Follows shapes) {manner : Manner}
    {value? value?' : String → Option Reading} {a : α}
    (hagree : ∀ s ∈ shapes, s.Agree (value? s.name) (value?' s.name))
    (ha : layout.Answers manner value? a) : layout.Answers manner value?' a where
  checks := by
    intro f hf
    obtain ⟨i, hi⟩ := List.mem_iff_getElem?.mp hf
    obtain ⟨s, hs, hfits⟩ := getElem?_of_forall₂ h.fields hi
    have hvalue := hagree s (List.mem_of_getElem? hs)
    rw [← hfits.name] at hvalue
    exact hfits.check hvalue (ha.checks f hf)
  build := h.build hagree ha.build

/-- A structure as an object, by the shapes of its fields. -/
theorem Follows.decode_object (h : layout.Follows shapes) (hn : (shapes.map (·.name)).Nodup)
    {manner : Manner} {members : List (Option String × Reading)} {ending : Ending} {a : α} :
    layout.decode manner (.object members ending) = .ok a ↔
      ending = .closed ∧ (∀ m ∈ members, m.1.isSome = true) ∧
      (∀ s ∈ shapes, (valuesOf s.name members).length ≤ 1) ∧
      layout.Answers manner (members.lookup <| some ·) a := by
  rw [Layout.decode_object (h.names ▸ hn), h.names, List.forall_mem_map]

/-- A structure as an array, by the shapes of its fields. -/
theorem Follows.decode_array (h : layout.Follows shapes) (hn : (shapes.map (·.name)).Nodup)
    {manner : Manner} {items : List Reading} {ending : Ending} {a : α} :
    layout.decode manner (.array items ending) = .ok a ↔
      ending = .closed ∧ (∀ s ∈ shapes.drop items.length, s.isDefaulted = true) ∧
      (manner = .table ∨ items.length ≤ shapes.length) ∧
      layout.Answers manner (((shapes.map (·.name)).zip items).lookup ·) a := by
  rw [Layout.decode_array (h.names ▸ hn), h.names, h.defaulted, h.fields.length_eq,
    ← List.map_drop, List.forall_mem_map]

/-- An object whose fields have values that agree with those of another. -/
theorem Follows.object (h : layout.Follows shapes) (hn : (shapes.map (·.name)).Nodup)
    {manner : Manner} {members members' : List (Option String × Reading)} {ending : Ending} {a : α}
    (hnames : (∀ m ∈ members, m.1.isSome = true) → ∀ m ∈ members', m.1.isSome = true)
    (hagree : ∀ s ∈ shapes, ∀ o : Option Reading, valuesOf s.name members = o.toList →
      ∃ o' : Option Reading, valuesOf s.name members' = o'.toList ∧ s.Agree o o')
    (ha : layout.decode manner (.object members ending) = .ok a) :
    layout.decode manner (.object members' ending) = .ok a := by
  rw [h.decode_object hn] at ha ⊢
  obtain ⟨hending, hmembers, hlength, ha⟩ := ha
  have hvalue : ∀ s ∈ shapes, ∃ o o' : Option Reading, valuesOf s.name members = o.toList ∧
      valuesOf s.name members' = o'.toList ∧ s.Agree o o' := by
    intro s hs
    obtain ⟨o, ho⟩ := exists_toList (hlength s hs)
    obtain ⟨o', ho', hagree⟩ := hagree s hs o ho
    exact ⟨o, o', ho, ho', hagree⟩
  refine ⟨hending, hnames hmembers, ?_, h.answers ?_ ha⟩
  · intro s hs
    obtain ⟨o, o', -, ho', -⟩ := hvalue s hs
    rw [ho']
    exact Option.length_toList_le
  · intro s hs
    obtain ⟨o, o', ho, ho', hagree⟩ := hvalue s hs
    rw [Reading.lookup_eq_head?, Reading.lookup_eq_head?, ho, ho', Option.head?_toList,
      Option.head?_toList]
    exact hagree

/-- A member whose value is edited, if it is one of a field. -/
theorem Follows.object_replace (h : layout.Follows shapes) (hn : (shapes.map (·.name)).Nodup)
    {manner : Manner} {before after : List (Option String × Reading)} {name : Option String}
    {r r' : Reading} {ending : Ending} {a : α}
    (hedit : ∀ s ∈ shapes, name = some s.name → ∃ depth, Edit depth s.shape r r')
    (ha : layout.decode manner (.object (before ++ (name, r) :: after) ending) = .ok a) :
    layout.decode manner (.object (before ++ (name, r') :: after) ending) = .ok a := by
  refine h.object hn ?_ ?_ ha
  · simp only [List.forall_mem_append, List.forall_mem_cons, imp_self]
  · intro s hs o ho
    rw [Reading.valuesOf_append] at ho ⊢
    by_cases hname : name = some s.name
    · obtain ⟨depth, hvalue⟩ := hedit s hs hname
      subst hname
      rw [Reading.valuesOf_cons_self] at ho ⊢
      -- The field has the value that is edited, so it has no other.
      obtain ⟨hbefore, rfl, hafter⟩ := toList_eq_append_cons ho
      rw [hbefore, hafter]
      exact ⟨some r', rfl, .edited hvalue⟩
    · rw [Reading.valuesOf_cons_of_ne hname] at ho ⊢
      exact ⟨o, ho, .same o⟩

/-- An item that is edited, if it stands in the place of a field. -/
theorem Follows.array_replace (h : layout.Follows shapes) (hn : (shapes.map (·.name)).Nodup)
    {manner : Manner} {before after : List Reading} {r r' : Reading} {ending : Ending} {a : α}
    (hedit : ∀ s, shapes[before.length]? = some s → ∃ depth, Edit depth s.shape r r')
    (ha : layout.decode manner (.array (before ++ r :: after) ending) = .ok a) :
    layout.decode manner (.array (before ++ r' :: after) ending) = .ok a := by
  rw [h.decode_array hn] at ha ⊢
  have hlength : (before ++ r' :: after).length = (before ++ r :: after).length := by simp
  obtain ⟨hending, hdefaulted, hfits, ha⟩ := ha
  rw [hlength]
  refine ⟨hending, hdefaulted, hfits, h.answers ?_ ha⟩
  intro s hs
  obtain ⟨i, hi⟩ := List.mem_iff_getElem?.mp hs
  have hname := getElem?_map_of_eq_some (·.name) hi
  rw [lookup_zip hn hname, lookup_zip hn hname]
  -- In its place the item is edited; in all others the arrays are the same.
  by_cases hplace : before.length = i
  · obtain ⟨depth, hedit⟩ := hedit s (hplace ▸ hi)
    rw [← hplace, List.getElem?_append_right (Nat.le_refl _),
      List.getElem?_append_right (Nat.le_refl _), Nat.sub_self]
    exact .edited hedit
  · have hset : before ++ r' :: after = (before ++ r :: after).set before.length r' := by simp
    rw [hset, List.getElem?_set_ne hplace]
    exact .same _

/-- The array of the fields of a structure that was made of some values. -/
theorem Follows.array_listed (h : layout.Follows shapes) (hn : (shapes.map (·.name)).Nodup)
    {manner : Manner} {depth : Nat} {value? : String → Option Reading} {items : List Reading}
    {a : α} (hlisted : Listed depth value? shapes items) (ha : layout.Answers manner value? a) :
    layout.decode manner (.array items .closed) = .ok a := by
  rw [h.decode_array hn]
  refine ⟨rfl, hlisted.defaulted, .inr hlisted.length_le, h.answers ?_ ha⟩
  intro s hs
  obtain ⟨i, hi⟩ := List.mem_iff_getElem?.mp hs
  rw [lookup_zip hn (getElem?_map_of_eq_some (·.name) hi)]
  exact hlisted.agree hi

/-- A structure ignores the edits of its shape. -/
theorem Follows.ignores (h : layout.Follows shapes) (hn : (shapes.map (·.name)).Nodup) :
    layout.decode.Ignores (.struct shapes) := by
  intro depth manner r r' a hedit ha
  cases hedit with
  | permuted hp =>
    cases hp with
    | here _ hperm =>
      -- The values of a field are those in another order, and there is at most one.
      refine h.object hn (fun hm m hmem => hm m (hperm.mem_iff.mpr hmem)) ?_ ha
      intro s _ o ho
      have hvalues := hperm.filterMap fun m => if m.1 = some s.name then some m.2 else none
      exact ⟨o, eq_toList_of_perm (hvalues.symm.trans (.of_eq ho)), .same o⟩
    | item hp => exact h.array_replace hn (fun _ _ => ⟨0, .permuted hp⟩) ha
    | member hp => exact h.object_replace hn (fun _ _ _ => ⟨0, .permuted hp⟩) ha
  | inserted hname _ =>
    refine h.object hn ?_ ?_ ha
    · simp only [List.forall_mem_append, List.forall_mem_cons]
      exact fun hm => ⟨hm.1, rfl, hm.2⟩
    · intro s hs o ho
      refine ⟨o, ?_, .same o⟩
      have hne : some _ ≠ some s.name := fun heq => hname s hs (Option.some.inj heq).symm
      rw [Reading.valuesOf_append] at ho ⊢
      rw [Reading.valuesOf_cons_of_ne hne]
      exact ho
  | listed hlisted =>
    obtain ⟨-, -, -, ha⟩ := (h.decode_object hn).mp ha
    exact h.array_listed hn hlisted ha
  | field hf hedit =>
    refine h.object_replace hn (fun s hs heq => ?_) ha
    rw [List.inj_on_of_nodup_map hn hs hf (Option.some.inj heq).symm]
    exact ⟨_, hedit⟩
  | slot hf hedit =>
    refine h.array_replace hn (fun s hs => ?_) ha
    rw [Option.some.inj (hs.symm.trans hf)]
    exact ⟨_, hedit⟩

end Layout

end PolicyProbe
