import PolicyProbe.Proofs.Json.Variants

/-!
One value of a text in the place of another. A place is a path down into a text, together with what
stands there in a decoded value and how it is replaced in it (`Focus`). A decoder shows a place
(`Decoder.Shows`) when, of a text that it decodes, it makes the same value with another part in it
as soon as the text has another part there, and refuses the text with the objection to that part if
there is one. Lists, structures and tagged structures show the places of their parts
(`Decoder.Shows.list`, `Layout.Sees.shows`, `Variants.shows`).
-/
namespace PolicyProbe

/-! ## Places -/

/-- One step down into a value: to an item by its position, or to a member by its name. -/
inductive Descent where
  | item (position : Nat)
  | member (name : String)
  deriving DecidableEq

namespace Reading

/-- Two values that differ only at the end of a path: one has `s` there and the other `s'`. -/
inductive Swaps (s s' : Reading) : List Descent → Reading → Reading → Prop where
  | here : Swaps s s' [] s s'
  | item {before after : List Reading} {path : List Descent} {r r' : Reading} {ending : Ending}
      (h : Swaps s s' path r r') : Swaps s s' (.item before.length :: path)
        (.array (before ++ r :: after) ending) (.array (before ++ r' :: after) ending)
  | member {before after : List (Option String × Reading)} {name : String} {path : List Descent}
      {r r' : Reading} {ending : Ending} (h : Swaps s s' path r r') :
      Swaps s s' (.member name :: path) (.object (before ++ (some name, r) :: after) ending)
        (.object (before ++ (some name, r') :: after) ending)

/-- What can be kept whole can be kept whole with another part that can. -/
theorem Swaps.sound {s s' : Reading} {path : List Descent} {r r' : Reading}
    (h : Swaps s s' path r r') (hs : ∀ depth, s'.sound depth = true) {depth : Nat}
    (hr : r.sound depth = true) : r'.sound depth = true := by
  induction h generalizing depth with
  | here => exact hs depth
  | item _ ih =>
    obtain ⟨hdepth, hending, hitems⟩ := sound_array.mp hr
    refine sound_array.mpr ⟨hdepth, hending, ?_⟩
    rw [List.forall_mem_append, List.forall_mem_cons] at hitems ⊢
    exact ⟨hitems.1, ih hitems.2.1, hitems.2.2⟩
  | member _ ih =>
    obtain ⟨hdepth, hending, hmembers⟩ := sound_object.mp hr
    refine sound_object.mpr ⟨hdepth, hending, ?_⟩
    rw [List.forall_mem_append, List.forall_mem_cons] at hmembers ⊢
    exact ⟨hmembers.1, ⟨hmembers.2.1.1, ih hmembers.2.1.2⟩, hmembers.2.2⟩

end Reading

/-- Two texts that differ only at the end of a path: one has `d` there and the other `d'`. Blanks
and the spelling of names are not looked at. -/
inductive Document.Swaps (d d' : Document) : List Descent → Document → Document → Prop where
  | here : Swaps d d' [] d d'
  | spaced {before after : Blanks} {path : List Descent} {e e' : Document}
      (h : Swaps d d' path e e') :
      Swaps d d' path (.spaced before e after) (.spaced before e' after)
  | item {before after : List Document} {path : List Descent} {e e' : Document} {gap : Blanks}
      (h : Swaps d d' path e e') : Swaps d d' (.item before.length :: path)
        (.array (before ++ e :: after) gap) (.array (before ++ e' :: after) gap)
  | member {before after : List (MemberName × Document)} {name : MemberName} {key : String}
      {path : List Descent} {e e' : Document} {gap : Blanks} (hname : name.reading = some key)
      (h : Swaps d d' path e e') : Swaps d d' (.member key :: path)
        (.object (before ++ (name, e) :: after) gap) (.object (before ++ (name, e') :: after) gap)

theorem Document.Swaps.reading {d d' : Document} {path : List Descent} {e e' : Document}
    (h : d.Swaps d' path e e') : Reading.Swaps d.reading d'.reading path e.reading e'.reading := by
  induction h with
  | here => exact .here
  | spaced _ ih => exact ih
  | @item before _ _ _ _ _ _ ih =>
    have hlength : before.length = (before.map Document.reading).length := by rw [List.length_map]
    rw [Document.reading, Document.reading, itemReadings_eq_map, itemReadings_eq_map,
      List.map_append, List.map_append, hlength]
    exact .item ih
  | member hname _ ih =>
    rw [Document.reading, Document.reading, memberReadings_eq_map, memberReadings_eq_map,
      List.map_append, List.map_append, List.map_cons, List.map_cons, hname]
    exact .member ih

/-- A place in the texts of a type, with what stands there in a value and how it is replaced. A
value may be of a kind that has nothing there. -/
structure Focus (α β : Type) where
  path : List Descent
  get? : α → Option β
  put : β → α → α

namespace Focus

variable {α β γ : Type}

/-- A value as its own part. -/
def whole : Focus β β := ⟨[], some, fun b _ => b⟩

/-- A place in a field of a structure. -/
def field (name : String) (get : α → γ) (set : γ → α → α) (p : Focus γ β) : Focus α β where
  path := .member name :: p.path
  get? a := p.get? (get a)
  put b a := set (p.put b (get a)) a

/-- A place in an item of a list. -/
def item (i : Nat) (p : Focus γ β) : Focus (List γ) β where
  path := .item i :: p.path
  get? cs := cs[i]?.bind p.get?
  put b cs := cs.modify i (p.put b)

/-- A place in one kind of values, which are those made by `make`. -/
def variant (make : γ → α) (of? : α → Option γ) (p : Focus γ β) : Focus α β where
  path := p.path
  get? a := (of? a).bind p.get?
  put b a := (of? a).elim a fun c => make (p.put b c)

end Focus

/-- A decoder shows a place where a part is read: what it makes of a text, with the new part in its
place, it makes of every text with another part there. -/
def Decoder.Shows {α β : Type} (d : Decoder α) (read : Reading → Except DecodeError β)
    (p : Focus α β) : Prop :=
  ∀ ⦃manner s s' r r' a⦄, Reading.Swaps s s' p.path r r' → d manner r = .ok a →
    (p.get? a).isSome = true → d manner r' = (p.put · a) <$> read s'

namespace Decoder

variable {α β γ : Type} {read : Reading → Except DecodeError β}

theorem shows_whole {d : Decoder β} (hd : ∀ manner r, d manner r = read r) :
    d.Shows read .whole := by
  intro manner s s' r r' a hswap _ _
  cases hswap
  rw [hd]
  cases read s' <;> rfl

/-! ## Kinds of values and lists -/

theorem Shows.map {d : Decoder γ} {p : Focus γ β} (hd : d.Shows read p) {make : γ → α}
    {of? : α → Option γ} (hmake : ∀ c, of? (make c) = some c) :
    (Decoder.map make d).Shows read (p.variant make of?) := by
  intro manner s s' r r' a hswap ha hget
  obtain ⟨c, hc, ha⟩ := Except.bind_eq_ok ha
  obtain rfl : make c = a := Except.ok.inj ha
  have hpart : (p.get? c).isSome = true := by simpa [Focus.variant, hmake] using hget
  show make <$> d manner r' = _
  rw [hd hswap hc hpart]
  simp only [Focus.variant, hmake, Option.elim_some]
  cases read s' <;> rfl

/-- Values of another kind have nothing in the place. -/
theorem shows_other {d : Decoder γ} {make : γ → α} {p : Focus α β}
    (h : ∀ c, p.get? (make c) = none) : (Decoder.map make d).Shows read p := by
  intro manner s s' r r' a _ ha hget
  obtain ⟨c, -, ha⟩ := Except.bind_eq_ok ha
  rw [← Except.ok.inj ha, h] at hget
  cases hget

/-- If all items are decoded, another item in the place of one of them is all that matters. -/
theorem mapM_replace {f : Reading → Except DecodeError α} {before after : List Reading}
    {r : Reading} (r' : Reading) {as : List α} (h : (before ++ r :: after).mapM f = .ok as) :
    ∃ xs x ys, as = xs ++ x :: ys ∧ xs.length = before.length ∧ f r = .ok x ∧
      (before ++ r' :: after).mapM f = (fun x' => xs ++ x' :: ys) <$> f r' := by
  induction before generalizing as with
  | nil =>
    rw [List.nil_append, List.mapM_cons] at h
    obtain ⟨x, hx, h⟩ := Except.bind_eq_ok h
    obtain ⟨ys, hys, h⟩ := Except.bind_eq_ok h
    refine ⟨[], x, ys, (Except.ok.inj h).symm, rfl, hx, ?_⟩
    rw [List.nil_append, List.mapM_cons, hys]
    cases f r' <;> rfl
  | cons b before ih =>
    rw [List.cons_append, List.mapM_cons] at h
    obtain ⟨z, hz, h⟩ := Except.bind_eq_ok h
    obtain ⟨zs, hzs, h⟩ := Except.bind_eq_ok h
    obtain ⟨xs, x, ys, rfl, hlength, hx, hnew⟩ := ih hzs
    refine ⟨z :: xs, x, ys, (Except.ok.inj h).symm, congrArg (· + 1) hlength, hx, ?_⟩
    rw [List.cons_append, List.mapM_cons, hz, hnew]
    cases f r' <;> rfl

theorem modify_middle (xs : List α) (x : α) (ys : List α) (f : α → α) :
    (xs ++ x :: ys).modify xs.length f = xs ++ f x :: ys := by
  induction xs with
  | nil => rfl
  | cons z xs ih => exact congrArg (z :: ·) ih

theorem Shows.list {d : Decoder γ} {p : Focus γ β} (hd : d.Shows read p) (i : Nat) :
    (Decoder.list d).Shows read (p.item i) := by
  intro manner s s' r r' cs hswap hcs hget
  cases hswap with
  | @item before after _ r r' ending hswap =>
    obtain ⟨hending, hitems⟩ := closed_eq_ok_iff.mp hcs
    obtain ⟨xs, x, ys, rfl, hlength, hx, hnew⟩ := mapM_replace r' hitems
    subst hending
    have hitem : (xs ++ x :: ys)[before.length]? = some x := by
      rw [← hlength, List.getElem?_append_right (Nat.le_refl _), Nat.sub_self]
      rfl
    have hpart : (p.get? x).isSome = true := by simpa [Focus.item, hitem] using hget
    show ((before ++ r' :: after).mapM (d manner) >>= fun as =>
      if Ending.closed = .closed then .ok as else .error .malformed) = _
    rw [hnew, hd hswap hx hpart]
    simp only [Focus.item, ← hlength, modify_middle]
    cases read s' <;> rfl

end Decoder

/-! ## Structures -/

namespace Layout

variable {α β γ : Type}

/-- What is built does not depend on the value of a name. -/
def Unaware (layout : Layout α) (name : String) : Prop :=
  ∀ ⦃manner value? value?'⦄, (∀ n, n ≠ name → value?' n = value? n) →
    layout.build manner value?' = layout.build manner value?

theorem Unaware.andThen {f : Layout (α → β)} {x : Layout α} {name : String} (hf : f.Unaware name)
    (hx : x.Unaware name) : (f <*> x).Unaware name := by
  intro manner value? value?' hother
  show (do let g ← f.build manner value?'; let a ← x.build manner value?'; return g a) = _
  rw [hf hother, hx hother]
  rfl

theorem unaware_pure (a : α) (name : String) : (Layout.pure a).Unaware name := fun _ _ _ _ => rfl

theorem Unaware.map {x : Layout α} {name : String} (hx : x.Unaware name) (g : α → β) :
    (g <$> x).Unaware name :=
  (unaware_pure g name).andThen hx

theorem unaware_required (field : String) {name : String} (h : field ≠ name) (d : Decoder α) :
    (required field d).Unaware name := by
  intro manner value? value?' hother
  simp only [required, hother field h]

theorem unaware_withDefault (field : String) {name : String} (h : field ≠ name) (d : Decoder α)
    (default : α) : (withDefault field d default).Unaware name := by
  intro manner value? value?' hother
  simp only [withDefault, hother field h]

/-- A layout sees the value of a name: what it builds is made of that value by a function with some
property, and of another value by the same function. -/
def Sees (layout : Layout α) (name : String) (d : Decoder γ) (P : (γ → α) → Prop) : Prop :=
  ∀ ⦃manner value? value?' r r' a⦄, (∀ n, n ≠ name → value?' n = value? n) →
    value? name = some r → value?' name = some r' → layout.build manner value? = .ok a →
      ∃ g c, P g ∧ d manner r = .ok c ∧ a = g c ∧
        layout.build manner value?' = g <$> d manner r'

/-- The last field so far is seen. -/
theorem sees_required {f : Layout (γ → α)} {name : String} (hf : f.Unaware name)
    {P : (γ → α) → Prop} (hyields : f.Yields P) (d : Decoder γ) :
    (f <*> required name d).Sees name d P := by
  intro manner value? value?' r r' a hother hr hr' h
  obtain ⟨g, hg, h⟩ := Except.bind_eq_ok h
  obtain ⟨c, hc, h⟩ := Except.bind_eq_ok h
  simp only [required, hr] at hc
  refine ⟨g, c, hyields hg, hc, (Except.ok.inj h).symm, ?_⟩
  show (do let g ← f.build manner value?'; let c ← (required name d).build manner value?'
           return g c) = _
  rw [hf hother, hg]
  simp only [required, hr']
  cases d manner r' <;> rfl

/-- A field is seen also with another one behind it. -/
theorem Sees.andThen {f : Layout (β → α)} {name : String} {d : Decoder γ}
    {P : (γ → β → α) → Prop} (hf : f.Sees name d P) {x : Layout β} (hx : x.Unaware name)
    {Q : (γ → α) → Prop} (hQ : ∀ g b, P g → Q fun c => g c b) : (f <*> x).Sees name d Q := by
  intro manner value? value?' r r' a hother hr hr' h
  obtain ⟨k, hk, h⟩ := Except.bind_eq_ok h
  obtain ⟨b, hb, h⟩ := Except.bind_eq_ok h
  obtain ⟨g, c, hg, hc, rfl, hbuild⟩ := hf hother hr hr' hk
  refine ⟨fun c => g c b, c, hQ g b hg, hc, (Except.ok.inj h).symm, ?_⟩
  show (do let k ← f.build manner value?'; let b ← x.build manner value?'; return k b) = _
  rw [hbuild, hx hother, hb]
  cases d manner r' <;> rfl

/-- A function makes values of a part, which is found in them and replaced in them. -/
def Sets (get : α → γ) (set : γ → α → α) (g : γ → α) : Prop :=
  ∀ c, get (g c) = c ∧ ∀ c', set c' (g c) = g c'

/-- If all members pass, another value for one of them is all that matters. -/
theorem checkMembers_replace {fields : List Field} {f : Field} {name : String}
    (hf : fields.find? (·.name == name) = some f) {manner : Manner} {seen : List String}
    {before after : List (Option String × Reading)} {r : Reading} (r' : Reading)
    (h : checkMembers fields manner seen (before ++ (some name, r) :: after) = .ok ()) :
    checkMembers fields manner seen (before ++ (some name, r') :: after) = f.check manner r' := by
  induction before generalizing seen with
  | nil =>
    rw [List.nil_append, checkMembers, hf] at h ⊢
    dsimp only at h ⊢
    split at h
    · cases h
    · rename_i hseen
      rw [if_neg hseen, (Except.check_bind_eq_ok_iff.mp h).2]
      cases f.check manner r' <;> rfl
  | cons m before ih =>
    obtain ⟨name?, value⟩ := m
    cases name? with
    | none => cases h
    | some n =>
      rw [List.cons_append, checkMembers] at h ⊢
      cases hfind : fields.find? (·.name == n) with
      | none =>
        rw [hfind] at h
        exact ih h
      | some g =>
        rw [hfind] at h
        dsimp only at h ⊢
        split at h
        · cases h
        · rename_i hseen
          obtain ⟨hvalue, hrest⟩ := Except.check_bind_eq_ok_iff.mp h
          rw [if_neg hseen, hvalue]
          exact ih hrest

/-- The only value of a name is found, and the values of the other names are those of the other
members. -/
theorem lookup_replace {before after : List (Option String × Reading)} {name : String}
    {r : Reading}
    (h : (Reading.valuesOf name (before ++ (some name, r) :: after)).length ≤ 1) (r' : Reading) :
    (before ++ (some name, r') :: after).lookup (some name) = some r' ∧
      ∀ n, n ≠ name → (before ++ (some name, r') :: after).lookup (some n) =
        (before ++ (some name, r) :: after).lookup (some n) := by
  constructor
  · obtain ⟨o, ho⟩ := exists_toList h
    rw [Reading.valuesOf_append, Reading.valuesOf_cons_self] at ho
    obtain ⟨hbefore, -, -⟩ := toList_eq_append_cons ho
    rw [Reading.lookup_eq_head?, Reading.valuesOf_append, hbefore, Reading.valuesOf_cons_self]
    rfl
  · intro n hn
    have hne (r : Reading) : (some name, r).1 ≠ some n := by simpa using Ne.symm hn
    rw [Reading.lookup_eq_head?, Reading.lookup_eq_head?, Reading.valuesOf_append,
      Reading.valuesOf_append, Reading.valuesOf_cons_of_ne (hne r),
      Reading.valuesOf_cons_of_ne (hne r')]

variable {read : Reading → Except DecodeError β}

/-- A structure shows the places in a field that it sees. -/
theorem Sees.shows {layout : Layout α} {name : String} {d : Decoder γ} {get : α → γ}
    {set : γ → α → α} (h : layout.Sees name d (Sets get set))
    (hn : (layout.fields.map (·.name)).Nodup) {f : Field}
    (hf : layout.fields.find? (·.name == name) = some f)
    (hcheck : ∀ manner r, f.check manner r = (do let _ ← d manner r; return ()))
    {p : Focus γ β} (hd : d.Shows read p) : layout.decode.Shows read (p.field name get set) := by
  intro manner s s' r r' a hswap ha hget
  cases hswap with
  | @member before after _ _ r r' ending hswap =>
    have hchecked := ha
    obtain ⟨hending, -, hlength, hanswers⟩ := (decode_object hn).mp ha
    subst hending
    have hfield : name ∈ layout.fields.map (·.name) :=
      List.mem_map.mpr ⟨f, List.mem_of_find?_eq_some hf, by simpa using List.find?_some hf⟩
    have hvalue := lookup_replace (hlength name hfield) r
    obtain ⟨hvalue', hother⟩ := lookup_replace (hlength name hfield) r'
    obtain ⟨g, c, hg, hc, rfl, hbuild⟩ := h hother hvalue.1 hvalue' hanswers.build
    have hmembers := checkMembers_replace hf r' (Except.check_bind_eq_ok_iff.mp hchecked).1
    show (checkMembers layout.fields manner [] _ >>= fun _ => layout.build manner _) = _
    have hpart : (p.get? c).isSome = true := by simpa only [Focus.field, (hg c).1] using hget
    rw [hmembers, hcheck, hbuild, hd hswap hc hpart]
    simp only [Focus.field, (hg c).1, (hg c).2]
    cases read s' <;> rfl

end Layout

/-! ## Tagged structures -/

namespace Variants

variable {α β : Type} {variants : Variants α} {tag : String}

/-- What is made of members that can be kept beside a tag. -/
theorem decode_of_keeps {members : List (Option String × Reading)} {manner : Manner} {r : Reading}
    {d : Decoder α} (hkeeps : Keeps tag members) (hvalue : Reading.valuesOf tag members = [r])
    (hd : variants.choose r = .ok d) : decode variants tag manner (.object members .closed) =
      d .tagged (.object (untagged tag members) .closed) := by
  rw [decode, split_eq_ok_iff.mpr ⟨hkeeps, rfl, .inr ⟨rfl, r, hvalue, hd⟩⟩]
  rfl

/-- A member that cannot be kept is refused, if the members before it pass. -/
theorem split_replace_unsound {before after : List (Option String × Reading)} {name : String}
    (hname : name ≠ tag) {r r' : Reading} (hr : r'.sound 127 = false)
    {chosen : Option (Decoder α)} {out : Option (Decoder α) × List (Option String × Reading)}
    (h : split variants tag chosen (before ++ (some name, r) :: after) = .ok out) :
    split variants tag chosen (before ++ (some name, r') :: after) = .error .malformed := by
  induction before generalizing chosen out with
  | nil => rw [List.nil_append, split, if_neg hname, hr, if_neg Bool.false_ne_true]
  | cons m before ih =>
    obtain ⟨name?, value⟩ := m
    cases name? with
    | none => cases h
    | some n =>
      by_cases hn : n = tag
      · subst hn
        obtain ⟨rfl, d, hd, hrest⟩ := split_cons_self.mp h
        rw [List.cons_append, split, if_pos rfl, hd]
        exact ih hrest
      · obtain ⟨chosen', rest⟩ := out
        obtain ⟨hsound, others, hrest, -⟩ := (split_cons_of_ne hn).mp h
        rw [List.cons_append, split, if_neg hn, if_pos hsound, ih hrest]
        rfl

variable {read : Reading → Except DecodeError β}

/-- A tagged structure shows the places in a member beside its tag that all its variants show. Parts
that cannot be kept whole are malformed in any case. -/
theorem shows {p : Focus α β} {name : String} {path : List Descent}
    (hpath : p.path = .member name :: path) (hname : name ≠ tag)
    (hread : ∀ r, read r ≠ .error .malformed → ∀ depth, r.sound depth = true)
    (h : ∀ v ∈ variants, v.2.Shows read p) : (decode variants tag).Shows read p := by
  intro manner s s' r r' a hswap ha hget
  rw [hpath] at hswap
  cases hswap with
  | @member before after _ _ r r' ending hswap =>
    have hsplit := ha
    obtain ⟨hending, hkeeps, t, d, ht, hd, ha⟩ := decode_object.mp ha
    subst hending
    obtain ⟨hsound, hrest⟩ := (keeps_middle hname).mp hkeeps
    obtain ⟨v, hv, rfl⟩ := mem_of_choose hd
    -- The variant meets the same swap in what is beside the tag.
    have hvariant : v.2 .tagged
        (.object (untagged tag (before ++ (some name, r') :: after)) .closed) =
          (p.put · a) <$> read s' := by
      have hinner : Reading.Swaps s s' p.path
          (.object (untagged tag before ++ (some name, r) :: untagged tag after) .closed)
          (.object (untagged tag before ++ (some name, r') :: untagged tag after) .closed) := by
        rw [hpath]
        exact .member hswap
      rw [untagged_middle hname] at ha ⊢
      exact h v hv hinner ha hget
    cases hnew : r'.sound 127 with
    | true =>
      have hvalue := (valuesOf_middle (r := r') hname).trans
        ((valuesOf_middle (r := r) hname).symm.trans ht)
      rw [decode_of_keeps ((keeps_middle hname).mpr ⟨hnew, hrest⟩) hvalue hd, hvariant]
    | false =>
      have hmalformed : read s' = .error .malformed := by
        by_contra hne
        rw [hswap.sound (hread s' hne) hsound] at hnew
        cases hnew
      obtain ⟨out, hout, -⟩ := Except.bind_eq_ok hsplit
      rw [decode, split_replace_unsound hname hnew hout, hmalformed]
      rfl

end Variants

/-! ## Texts -/

/-- The text of a document is decoded as what it is read as. -/
theorem JsonForm.ofText_document {α : Type} [JsonForm α] (d : Document) :
    JsonForm.ofText (α := α) d.text = JsonForm.decoder .direct d.reading := by
  rw [JsonForm.ofText, Decoder.run, d.ofText_text]
  show (JsonForm.decoder .direct d.reading >>= fun a => if true = true then _ else _) = _
  cases JsonForm.decoder (α := α) .direct d.reading <;> rfl

end PolicyProbe
