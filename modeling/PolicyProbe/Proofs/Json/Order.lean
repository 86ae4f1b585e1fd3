import PolicyProbe.Proofs.Json.Document
import PolicyProbe.Proofs.Json.Tagged

/-!
Changes of a JSON text that change nothing of what it stands for. The shape of a type says where its
values are structures, and what their fields are (`Shape`). An edit gives the members of some object
another order, puts a member that no field is named after into the object of a structure, or gives
the array of its fields for it (`Edit`). Edits are those of what is read; the members of a document
are the members of what it is read as (`Document.Permutes.reading`). What can be kept whole can be
kept whole behind an edit (`Edit.sound`).
-/
namespace PolicyProbe

/-! ## Another order -/

namespace Reading

/-- The members of one object have another order, anywhere in a value. The names that mean anything
are distinct. -/
inductive Permutes : Reading → Reading → Prop where
  | here {members members' : List (Option String × Reading)}
      (hnames : (members.filterMap Prod.fst).Nodup) (h : members.Perm members') :
      Permutes (.object members .closed) (.object members' .closed)
  | item {before after : List Reading} {r r' : Reading} {ending : Ending} (h : Permutes r r') :
      Permutes (.array (before ++ r :: after) ending) (.array (before ++ r' :: after) ending)
  | member {before after : List (Option String × Reading)} {name : Option String} {r r' : Reading}
      {ending : Ending} (h : Permutes r r') :
      Permutes (.object (before ++ (name, r) :: after) ending)
        (.object (before ++ (name, r') :: after) ending)

end Reading

namespace Document

theorem itemReadings_eq_map (items : List Document) : itemReadings items = items.map reading := by
  induction items with
  | nil => rfl
  | cons item items ih => rw [itemReadings, ih, List.map_cons]

theorem memberReadings_eq_map (members : List (MemberName × Document)) :
    memberReadings members = members.map fun m => (m.1.reading, m.2.reading) := by
  induction members with
  | nil => rfl
  | cons m members ih => rw [memberReadings, ih, List.map_cons]

/-- The members of one object have another order, anywhere in a text. -/
inductive Permutes : Document → Document → Prop where
  | here {members members' : List (MemberName × Document)} {gap gap' : Blanks}
      (hnames : (members.filterMap fun m => m.1.reading).Nodup) (h : members.Perm members') :
      Permutes (.object members gap) (.object members' gap')
  | item {before after : List Document} {d d' : Document} {gap : Blanks} (h : Permutes d d') :
      Permutes (.array (before ++ d :: after) gap) (.array (before ++ d' :: after) gap)
  | member {before after : List (MemberName × Document)} {name : MemberName} {d d' : Document}
      {gap : Blanks} (h : Permutes d d') :
      Permutes (.object (before ++ (name, d) :: after) gap)
        (.object (before ++ (name, d') :: after) gap)
  | spaced {before after : Blanks} {d d' : Document} (h : Permutes d d') :
      Permutes (.spaced before d after) (.spaced before d' after)

/-- Another order of the members in a text is another order of the members that are read. -/
theorem Permutes.reading {d d' : Document} (h : d.Permutes d') :
    d.reading.Permutes d'.reading := by
  induction h with
  | here hnames h =>
    rw [Document.reading, Document.reading, memberReadings_eq_map, memberReadings_eq_map]
    refine .here ?_ (h.map _)
    rw [List.filterMap_map]
    exact hnames
  | item _ ih =>
    rw [Document.reading, Document.reading, itemReadings_eq_map, itemReadings_eq_map,
      List.map_append, List.map_append]
    exact .item ih
  | member _ ih =>
    rw [Document.reading, Document.reading, memberReadings_eq_map, memberReadings_eq_map,
      List.map_append, List.map_append]
    exact .member ih
  | spaced _ ih => exact ih

end Document

/-! ## Shapes -/

/-- Whether a field has to be there, may be left out or null, or may be left out and then has a
value of its own, which is written like this. -/
inductive Presence where
  | required
  | optional
  | defaulted (value : Json)

mutual

/-- Where the values of a type are structures. -/
inductive Shape where
  | simple
  | list (item : Shape)
  | struct (fields : List FieldShape)
  | tagged (tag : String) (variants : List (String × List FieldShape))

/-- A field of a structure. -/
structure FieldShape where
  name : String
  presence : Presence
  shape : Shape

end

namespace FieldShape

/-- How a field that an object leaves out is written, if it may be left out. -/
def absent? (f : FieldShape) : Option Reading :=
  match f.presence with
  | .required => none
  | .optional => some .null
  | .defaulted value => some value.reading

/-- Whether a field has a value of its own. -/
def isDefaulted (f : FieldShape) : Bool :=
  match f.presence with
  | .defaulted _ => true
  | _ => false

end FieldShape

/-- The array of the fields of a structure in order, from the values of the members: each value that
is there, and otherwise what stands for it. At the end, fields may be left out that have a value of
their own. What stands for a field can be kept inside containers with room for `depth` levels. -/
inductive Listed (depth : Nat) (value? : String → Option Reading) :
    List FieldShape → List Reading → Prop where
  | ends {fields : List FieldShape}
      (h : ∀ f ∈ fields, f.isDefaulted = true ∧ value? f.name = none) :
      Listed depth value? fields []
  | given {f : FieldShape} {fields : List FieldShape} {r : Reading} {items : List Reading}
      (h : value? f.name = some r) (hrest : Listed depth value? fields items) :
      Listed depth value? (f :: fields) (r :: items)
  | absent {f : FieldShape} {fields : List FieldShape} {r : Reading} {items : List Reading}
      (h : value? f.name = none) (hr : f.absent? = some r) (hsound : r.sound depth = true)
      (hrest : Listed depth value? fields items) : Listed depth value? (f :: fields) (r :: items)

/-! ## Edits -/

/-- A change of a value of some shape, in a place with room for `depth` levels: another order of the
members of an object, a member of an unknown name and an ordinary value put into the object of a
structure, or the array of its fields for the object of a plain structure. -/
inductive Edit : Nat → Shape → Reading → Reading → Prop where
  | permuted {depth : Nat} {shape : Shape} {r r' : Reading} (h : r.Permutes r') :
      Edit depth shape r r'
  | inserted {depth : Nat} {fields : List FieldShape} {name : String} {r : Reading}
      {before after : List (Option String × Reading)} {ending : Ending}
      (hname : ∀ f ∈ fields, f.name ≠ name) (hsound : r.sound depth = true) :
      Edit (depth + 1) (.struct fields) (.object (before ++ after) ending)
        (.object (before ++ (some name, r) :: after) ending)
  | listed {depth : Nat} {fields : List FieldShape} {members : List (Option String × Reading)}
      {items : List Reading} (h : Listed depth (members.lookup <| some ·) fields items) :
      Edit (depth + 1) (.struct fields) (.object members .closed) (.array items .closed)
  | item {depth : Nat} {shape : Shape} {before after : List Reading} {r r' : Reading}
      {ending : Ending} (h : Edit depth shape r r') :
      Edit (depth + 1) (.list shape) (.array (before ++ r :: after) ending)
        (.array (before ++ r' :: after) ending)
  | field {depth : Nat} {fields : List FieldShape} {f : FieldShape}
      {before after : List (Option String × Reading)} {r r' : Reading} {ending : Ending}
      (hf : f ∈ fields) (h : Edit depth f.shape r r') :
      Edit (depth + 1) (.struct fields) (.object (before ++ (some f.name, r) :: after) ending)
        (.object (before ++ (some f.name, r') :: after) ending)
  | slot {depth : Nat} {fields : List FieldShape} {f : FieldShape} {before after : List Reading}
      {r r' : Reading} {ending : Ending} (hf : fields[before.length]? = some f)
      (h : Edit depth f.shape r r') :
      Edit (depth + 1) (.struct fields) (.array (before ++ r :: after) ending)
        (.array (before ++ r' :: after) ending)
  | tagged {tag name : String} {variants : List (String × List FieldShape)}
      {fields : List FieldShape} {members members' : List (Option String × Reading)}
      (hvariant : variants.lookup name = some fields)
      (htag : (some tag, .string (some name)) ∈ members)
      (h : Edit 128 (.struct (⟨tag, .required, .simple⟩ :: fields)) (.object members .closed)
        (.object members' .closed)) :
      Edit 128 (.tagged tag variants) (.object members .closed) (.object members' .closed)

/-! ## What is kept whole -/

namespace Reading

theorem Permutes.sound {r r' : Reading} (h : r.Permutes r') {depth : Nat}
    (hr : r.sound depth = true) : r'.sound depth = true := by
  induction h generalizing depth with
  | here _ h =>
    obtain ⟨hdepth, hending, hmembers⟩ := sound_object.mp hr
    exact sound_object.mpr ⟨hdepth, hending, fun m hm => hmembers m (h.mem_iff.mpr hm)⟩
  | item _ ih =>
    obtain ⟨hdepth, hending, hitems⟩ := sound_array.mp hr
    refine sound_array.mpr ⟨hdepth, hending, ?_⟩
    rw [List.forall_mem_append, List.forall_mem_cons] at hitems ⊢
    exact ⟨hitems.1, ih hitems.2.1, hitems.2.2⟩
  | member _ ih =>
    obtain ⟨hdepth, hending, hmembers⟩ := sound_object.mp hr
    refine sound_object.mpr ⟨hdepth, hending, ?_⟩
    rw [List.forall_mem_append, List.forall_mem_cons] at hmembers ⊢
    exact ⟨hmembers.1, ⟨hmembers.2.1.1, ih hmembers.2.1.2⟩, hmembers.2.2⟩

end Reading

theorem Listed.sound {depth : Nat} {members : List (Option String × Reading)}
    {fields : List FieldShape} {items : List Reading}
    (h : Listed depth (members.lookup <| some ·) fields items)
    (hmembers : ∀ m ∈ members, m.2.sound depth = true) : ∀ r ∈ items, r.sound depth = true := by
  induction h with
  | ends _ => exact fun r hr => absurd hr List.not_mem_nil
  | given h _ ih =>
    exact List.forall_mem_cons.mpr ⟨hmembers _ (OrderedMap.mem_of_find? h), ih⟩
  | absent _ _ hsound _ ih => exact List.forall_mem_cons.mpr ⟨hsound, ih⟩

/-- What can be kept whole can be kept whole behind an edit. -/
theorem Edit.sound {depth : Nat} {shape : Shape} {r r' : Reading} (h : Edit depth shape r r')
    (hr : r.sound depth = true) : r'.sound depth = true := by
  induction h with
  | permuted h => exact h.sound hr
  | inserted _ hsound =>
    obtain ⟨hdepth, hending, hmembers⟩ := Reading.sound_object.mp hr
    refine Reading.sound_object.mpr ⟨hdepth, hending, ?_⟩
    rw [List.forall_mem_append] at hmembers
    rw [List.forall_mem_append, List.forall_mem_cons]
    exact ⟨hmembers.1, ⟨rfl, hsound⟩, hmembers.2⟩
  | listed h =>
    obtain ⟨hdepth, hending, hmembers⟩ := Reading.sound_object.mp hr
    exact Reading.sound_array.mpr ⟨hdepth, rfl, h.sound fun m hm => (hmembers m hm).2⟩
  | item _ ih | slot _ _ ih =>
    obtain ⟨hdepth, hending, hitems⟩ := Reading.sound_array.mp hr
    refine Reading.sound_array.mpr ⟨hdepth, hending, ?_⟩
    rw [List.forall_mem_append, List.forall_mem_cons] at hitems ⊢
    exact ⟨hitems.1, ih hitems.2.1, hitems.2.2⟩
  | field _ _ ih =>
    obtain ⟨hdepth, hending, hmembers⟩ := Reading.sound_object.mp hr
    refine Reading.sound_object.mpr ⟨hdepth, hending, ?_⟩
    rw [List.forall_mem_append, List.forall_mem_cons] at hmembers ⊢
    exact ⟨hmembers.1, ⟨rfl, ih hmembers.2.1.2⟩, hmembers.2.2⟩
  | tagged _ _ _ ih => exact ih hr

end PolicyProbe
