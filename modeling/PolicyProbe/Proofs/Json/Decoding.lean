import PolicyProbe.Json.Form
import PolicyProbe.Proofs.Json.Written

/-!
Typed reading of what was written. A decoder finds a value in a written one (`Decoder.Finds`) when
it answers with it in every manner. A layout finds the structure whose fields are found in the
members, member by member; from there one lemma (`Layout.Reads.finds`) goes to the object that they
make up. Whatever the text, what a decoder answers with has the properties that it looks for
(`Decoder.Yields`).
-/
namespace PolicyProbe

/-- A computation that goes on after another ends well only if both do. -/
theorem Except.bind_eq_ok {ε α β : Type} {x : Except ε α} {f : α → Except ε β} {b : β}
    (h : x >>= f = .ok b) : ∃ a, x = .ok a ∧ f a = .ok b := by
  cases x with
  | error e => exact nomatch h
  | ok a => exact ⟨a, rfl, h⟩

theorem Except.eq_ok_of_toOption {ε α : Type} {x : Except ε α} {a : α}
    (h : x.toOption = some a) : x = .ok a := by
  cases x with
  | error e => exact nomatch h
  | ok b => exact congrArg Except.ok (Option.some.inj h)

/-- What a decoder finds in a value that was written. -/
def Decoder.Finds {α : Type} (d : Decoder α) (j : Json) (a : α) : Prop :=
  ∀ manner, d manner j.reading = .ok a

namespace Decoder

variable {α : Type}

theorem Finds.run {d : Decoder α} {j : Json} {a : α} (h : d.Finds j a) : d.run j.text = .ok a := by
  rw [Json.run_text]
  exact h .direct

theorem finds_bool (b : Bool) : bool.Finds (.bool b) b := fun _ => rfl

theorem finds_string (s : String) : string.Finds (.string s) s := fun _ => rfl

theorem finds_textOf {read? : String → Option α} {s : String} {a : α} (h : read? s = some a) :
    (textOf read?).Finds (.string s) a := by
  intro manner
  simp only [Json.reading, textOf, h]

theorem finds_natBelow {bound n : Nat} (hb : bound ≤ 2 ^ 64) (hn : n < bound) :
    (natBelow bound).Finds (.nat n) n := by
  intro manner
  have hi : (Numeral.ofInt n).int? = some (n : Int) := Numeral.int?_ofInt (by omega) (by omega)
  simp only [Json.nat, Json.reading, natBelow, hi]
  rw [if_pos ⟨by omega, by omega⟩]
  rfl

theorem finds_map {β : Type} (f : α → β) {d : Decoder α} {j : Json} {a : α} (h : d.Finds j a) :
    (map f d).Finds j (f a) := by
  intro manner
  show f <$> d manner j.reading = _
  rw [h manner]
  rfl

/-- Only null is read as null. -/
theorem reading_ne_null {j : Json} (h : j ≠ .null) : j.reading ≠ .null := by
  cases j with
  | null => exact absurd rfl h
  | _ => exact nofun

theorem finds_optional {d : Decoder α} {toJson : α → Json} {o : Option α}
    (hn : ∀ a ∈ o, toJson a ≠ .null) (h : ∀ a ∈ o, d.Finds (toJson a) a) :
    (optional d).Finds (.ofOption (o.map toJson)) o := by
  intro manner
  cases o with
  | none => rfl
  | some a =>
    show optional d manner (toJson a).reading = .ok (some a)
    unfold optional
    split
    · rename_i hnull
      exact absurd hnull (reading_ne_null (hn a rfl))
    · exact congrArg (some <$> ·) (h a rfl _)

/-- A number is found when it is read back from its text: that does not depend on the manner. -/
theorem finds_double {x : Double} (h : double.run (Json.float x).text = .ok x) :
    double.Finds (.float x) x := by
  rw [Json.run_text] at h
  intro manner
  exact h

theorem finds_word {choices : List (String × α)} {name : String} {a : α}
    (h : choices.lookup name = some a) : (word choices).Finds (.string name) a := by
  intro manner
  simp only [Json.reading, word, choose, h]

theorem mapM_finds {d : Decoder α} {toJson : α → Json} (manner : Manner) {as : List α}
    (h : ∀ a ∈ as, d.Finds (toJson a) a) :
    (as.map fun a => (toJson a).reading).mapM (d manner) = .ok as := by
  induction as with
  | nil => rfl
  | cons a as ih =>
    have ha := h a List.mem_cons_self manner
    have has := ih fun b hb => h b (List.mem_cons_of_mem a hb)
    rw [List.map_cons, List.mapM_cons, ha, has]
    rfl

theorem finds_list {d : Decoder α} {toJson : α → Json} {as : List α}
    (h : ∀ a ∈ as, d.Finds (toJson a) a) : (list d).Finds (.array (as.map toJson)) as := by
  intro manner
  rw [Json.reading, Json.itemReadings_eq_map, List.map_map]
  simp only [list]
  have hm := mapM_finds manner h
  rw [show (Json.reading ∘ toJson) = fun a => (toJson a).reading from rfl, hm]
  rfl

theorem finds_entries {d : Decoder α} {toJson : α → Json} {m : List (String × α)}
    (h : ∀ e ∈ m, d.Finds (toJson e.2) e.2) :
    (entries d).Finds (.object (m.map fun e => (e.1, toJson e.2))) m := by
  intro manner
  simp only [Json.reading, Json.memberReadings_eq_map, List.map_map, entries]
  refine (congrArg (· >>= _) (?_ : List.mapM _ _ = Except.ok m)).trans rfl
  induction m with
  | nil => rfl
  | cons e m ih =>
    have he := h e List.mem_cons_self manner
    have hrest := ih fun e he => h e (List.mem_cons_of_mem _ he)
    rw [List.map_cons, List.mapM_cons, hrest]
    simp only [Function.comp, he]
    rfl

end Decoder

/-! ## Structures -/

/-- A layout finds a structure in members that are its fields in order. -/
structure Layout.Reads {α : Type} (layout : Layout α) (members : List (String × Json)) (a : α) :
    Prop where
  names : layout.fields.map (·.name) = members.map Prod.fst
  checks : ∀ manner, ∀ p ∈ layout.fields.zip members, p.1.check manner p.2.2.reading = .ok ()
  build : ∀ manner value?, (∀ m ∈ members, value? m.1 = some m.2.reading) →
    layout.build manner value? = .ok a

namespace Layout

variable {α β : Type}

theorem reads_pure (a : α) : (Layout.pure a).Reads [] a :=
  ⟨rfl, by simp [Layout.pure], by simp [Layout.pure]⟩

theorem Reads.seq {f : Layout (α → β)} {x : Unit → Layout α} {ms ns : List (String × Json)}
    {g : α → β} {a : α} (hf : f.Reads ms g) (hx : (x ()).Reads ns a) :
    (f.seq x).Reads (ms ++ ns) (g a) where
  names := by
    show (f.fields ++ (x ()).fields).map _ = _
    rw [List.map_append, List.map_append, hf.names, hx.names]
  checks := by
    intro manner p hp
    have hlen : f.fields.length = ms.length := by
      simpa using congrArg List.length hf.names
    have hzip : (f.seq x).fields.zip (ms ++ ns) = f.fields.zip ms ++ (x ()).fields.zip ns :=
      List.zip_append hlen
    rw [hzip] at hp
    rcases List.mem_append.mp hp with hp | hp
    · exact hf.checks manner p hp
    · exact hx.checks manner p hp
  build := by
    intro manner value? hv
    have h1 := hf.build manner value? fun m hm => hv m (List.mem_append_left ns hm)
    have h2 := hx.build manner value? fun m hm => hv m (List.mem_append_right ms hm)
    show (do let g ← f.build manner value?; let a ← (x ()).build manner value?; return g a) = _
    rw [h1, h2]
    rfl

theorem Reads.andThen {f : Layout (α → β)} {x : Layout α} {ms ns : List (String × Json)}
    {g : α → β} {a : α} (hf : f.Reads ms g) (hx : x.Reads ns a) :
    (f <*> x).Reads (ms ++ ns) (g a) :=
  @Reads.seq α β f (fun _ => x) ms ns g a hf hx

theorem Reads.map {x : Layout α} {ms : List (String × Json)} {a : α} (g : α → β)
    (hx : x.Reads ms a) : (g <$> x).Reads ms (g a) :=
  (reads_pure g).andThen hx

theorem reads_required (name : String) {d : Decoder α} {j : Json} {a : α} (h : d.Finds j a) :
    (required name d).Reads [(name, j)] a where
  names := rfl
  checks := by
    intro manner p hp
    obtain rfl := List.mem_singleton.mp hp
    show (do let _ ← d manner j.reading; return ()) = _
    rw [h manner]
    rfl
  build := by
    intro manner value? hv
    have := hv (name, j) (List.mem_singleton.mpr rfl)
    simp only [required, this, h manner]

theorem reads_withDefault (name : String) {d : Decoder α} {j : Json} {a : α} (default : α)
    (h : d.Finds j a) : (withDefault name d default).Reads [(name, j)] a where
  names := rfl
  checks := by
    intro manner p hp
    obtain rfl := List.mem_singleton.mp hp
    show (do let _ ← d manner j.reading; return ()) = _
    rw [h manner]
    rfl
  build := by
    intro manner value? hv
    have := hv (name, j) (List.mem_singleton.mpr rfl)
    simp only [withDefault, this, h manner]

theorem reads_optional (name : String) {d : Decoder α} {j : Json} {o : Option α}
    (h : (Decoder.optional d).Finds j o) : (optional name d).Reads [(name, j)] o where
  names := rfl
  checks := by
    intro manner p hp
    obtain rfl := List.mem_singleton.mp hp
    show (do let _ ← Decoder.optional d manner j.reading; return ()) = _
    rw [h manner]
    rfl
  build := by
    intro manner value? hv
    have := hv (name, j) (List.mem_singleton.mpr rfl)
    simp only [optional, this, h manner]

/-- The members of a closed object pass when each of them passes the check of its field and no name
comes twice. -/
theorem checkMembers_ok {fields : List Field} {manner : Manner} :
    ∀ {members : List (String × Json)} {seen : List String},
      (∀ m ∈ members, m.1 ∉ seen) → (members.map Prod.fst).Nodup →
      (∀ m ∈ members, ∃ f, fields.find? (·.name == m.1) = some f ∧
        f.check manner m.2.reading = .ok ()) →
      checkMembers fields manner seen (Json.memberReadings members) = .ok () := by
  intro members
  induction members with
  | nil => intros; rfl
  | cons m members ih =>
    intro seen hseen hn hc
    obtain ⟨f, hf, hok⟩ := hc m List.mem_cons_self
    rw [List.map_cons, List.nodup_cons] at hn
    -- The names seen so far grow with the members, so the induction is for any of them.
    have hrest := @ih (m.1 :: seen)
      (fun n hm hs => by
        rcases List.mem_cons.mp hs with hs | hs
        · exact hn.1 (hs ▸ List.mem_map_of_mem hm)
        · exact hseen n (List.mem_cons_of_mem m hm) hs)
      hn.2 (fun n hm => hc n (List.mem_cons_of_mem m hm))
    have hnot : seen.contains m.1 = false := by
      simpa using hseen m List.mem_cons_self
    rw [Json.memberReadings, checkMembers]
    simp only [hf, hnot, Bool.false_eq_true, if_false, hok]
    exact hrest

theorem lookup_memberReadings {members : List (String × Json)} (hn : (members.map Prod.fst).Nodup) :
    ∀ m ∈ members, (Json.memberReadings members).lookup (some m.1) = some m.2.reading := by
  induction members with
  | nil => simp
  | cons m members ih =>
    rw [List.map_cons, List.nodup_cons] at hn
    intro n hm
    rw [Json.memberReadings]
    rcases List.mem_cons.mp hm with rfl | hm
    · simp
    · have hne : n.1 ≠ m.1 := fun h => hn.1 (h ▸ List.mem_map_of_mem hm)
      rw [List.lookup_cons, beq_eq_false_iff_ne.mpr (by simpa using hne)]
      exact ih hn.2 n hm

/-- Fields and members of the same names are found together. -/
theorem find?_of_names {members : List (String × Json)} {fields : List Field}
    (h : fields.map (·.name) = members.map Prod.fst) (hn : (members.map Prod.fst).Nodup) :
    ∀ m ∈ members, ∃ f, fields.find? (·.name == m.1) = some f ∧ (f, m) ∈ fields.zip members := by
  induction members generalizing fields with
  | nil => simp
  | cons m members ih =>
    cases fields with
    | nil => simp at h
    | cons f fields =>
      rw [List.map_cons, List.map_cons, List.cons.injEq] at h
      rw [List.map_cons, List.nodup_cons] at hn
      intro n hm
      rcases List.mem_cons.mp hm with rfl | hm
      · exact ⟨f, by simp [h.1], List.mem_cons_self⟩
      · have hne : f.name ≠ n.1 := by
          rw [h.1]
          exact fun he => hn.1 (he ▸ List.mem_map_of_mem hm)
        obtain ⟨g, hg, hz⟩ := ih h.2 hn.2 n hm
        refine ⟨g, ?_, List.mem_cons_of_mem _ hz⟩
        rw [List.find?_cons_of_neg (by simpa using hne)]
        exact hg

/-- A structure is found in the object of its members. -/
theorem Reads.finds {layout : Layout α} {members : List (String × Json)} {a : α}
    (h : layout.Reads members a) (hnames : (layout.fields.map (·.name)).Nodup) :
    layout.decode.Finds (.object members) a := by
  intro manner
  have hn : (members.map Prod.fst).Nodup := h.names ▸ hnames
  have hcheck : checkMembers layout.fields manner [] (Json.memberReadings members) = .ok () := by
    refine checkMembers_ok (by simp) hn fun m hm => ?_
    obtain ⟨f, hf, hz⟩ := find?_of_names h.names hn m hm
    exact ⟨f, hf, h.checks manner _ hz⟩
  have hbuild := h.build manner ((Json.memberReadings members).lookup <| some ·)
    (lookup_memberReadings hn)
  rw [Json.reading]
  simp only [decode, hcheck, if_true]
  exact hbuild

end Layout

/-! ## What decoders answer with -/

/-- What is true of every answer of a decoder. -/
def Decoder.Yields {α : Type} (d : Decoder α) (P : α → Prop) : Prop :=
  ∀ ⦃manner r a⦄, d manner r = .ok a → P a

/-- What is true of the structure that a layout builds from some values, if it builds one. -/
def Layout.Built {α : Type} (layout : Layout α) (manner : Manner) (value? : String → Option Reading)
    (P : α → Prop) : Prop :=
  ∀ ⦃a⦄, layout.build manner value? = .ok a → P a

/-- What is true of every structure that a layout builds. -/
def Layout.Yields {α : Type} (layout : Layout α) (P : α → Prop) : Prop :=
  ∀ ⦃manner value?⦄, layout.Built manner value? P

section Yields

variable {α β : Type} {P : α → Prop}

theorem Decoder.yields_natBelow (bound : Nat) : (Decoder.natBelow bound).Yields (· < bound) := by
  intro manner r a h
  unfold natBelow at h
  split at h
  · split at h
    · split at h
      · rename_i hv
        have ha := Except.ok.inj h
        omega
      · exact nomatch h
    · exact nomatch h
  · exact nomatch h

theorem Decoder.Yields.of_mapM {d : Decoder α} (hd : d.Yields P) {manner : Manner}
    {items : List Reading} {as : List α} (h : items.mapM (d manner) = .ok as) : ∀ a ∈ as, P a := by
  induction items generalizing as with
  | nil =>
    rw [← Except.ok.inj h]
    simp
  | cons item items ih =>
    rw [List.mapM_cons] at h
    obtain ⟨a, ha, h⟩ := Except.bind_eq_ok h
    obtain ⟨bs, hbs, h⟩ := Except.bind_eq_ok h
    rw [← Except.ok.inj h]
    intro b hb
    rcases List.mem_cons.mp hb with rfl | hb
    · exact hd ha
    · exact ih hbs b hb

theorem Decoder.Yields.list {d : Decoder α} (hd : d.Yields P) :
    (Decoder.list d).Yields fun as => ∀ a ∈ as, P a := by
  intro manner r as h
  unfold Decoder.list at h
  split at h
  · obtain ⟨bs, hm, h⟩ := Except.bind_eq_ok h
    split at h
    · rw [← Except.ok.inj h]
      exact hd.of_mapM hm
    · exact nomatch h
  · exact nomatch h

theorem Decoder.Yields.optional {d : Decoder α} (hd : d.Yields P) :
    (Decoder.optional d).Yields fun o => ∀ a ∈ o, P a := by
  intro manner r o h
  unfold Decoder.optional at h
  split at h
  · rw [← Except.ok.inj h]
    exact nofun
  · obtain ⟨a, ha, h⟩ := Except.bind_eq_ok h
    rw [← Except.ok.inj h]
    intro b hb
    exact Option.some.inj hb ▸ hd ha

theorem Decoder.Yields.map {d : Decoder α} {f : α → β} {Q : β → Prop} (hd : d.Yields P)
    (hf : ∀ a, P a → Q (f a)) : (Decoder.map f d).Yields Q := by
  intro manner r b h
  obtain ⟨a, ha, h⟩ := Except.bind_eq_ok h
  rw [← Except.ok.inj h]
  exact hf a (hd ha)

theorem Decoder.Yields.run {d : Decoder α} (hd : d.Yields P) {text : String} {a : α}
    (h : d.run text = .ok a) : P a := by
  unfold Decoder.run at h
  rcases hr : Reading.ofText text.toList with ⟨r, clean⟩
  rw [hr] at h
  obtain ⟨b, hb, h⟩ := Except.bind_eq_ok h
  split at h
  · rw [← Except.ok.inj h]
    exact hd hb
  · exact nomatch h

namespace Layout

theorem yields_required (name : String) {d : Decoder α} (hd : d.Yields P) :
    (required name d).Yields P := by
  intro manner value? a h
  simp only [required] at h
  split at h
  · exact hd h
  · exact nomatch h

theorem yields_withDefault (name : String) {d : Decoder α} {default : α} (hd : d.Yields P)
    (hdefault : P default) : (withDefault name d default).Yields P := by
  intro manner value? a h
  simp only [withDefault] at h
  split at h
  · exact hd h
  · exact Except.ok.inj h ▸ hdefault

theorem yields_optional (name : String) {d : Decoder α} (hd : d.Yields P) :
    (optional name d).Yields fun o => ∀ a ∈ o, P a := by
  intro manner value? o h
  simp only [optional] at h
  split at h
  · exact hd.optional h
  · rw [← Except.ok.inj h]
    exact nofun

variable {manner : Manner} {value? : String → Option Reading} {R : β → Prop}

/-- What is built from a function and a value is built field by field. -/
theorem built_andThen {f : Layout (α → β)} {x : Layout α} : (f <*> x).Built manner value? R ↔
    f.Built manner value? fun g => x.Built manner value? fun a => R (g a) := by
  have hseq : (f <*> x).build manner value? =
      (do let g ← f.build manner value?; let a ← x.build manner value?; return g a) := rfl
  constructor
  · intro h g hg a ha
    refine h ?_
    rw [hseq, hg, ha]
    rfl
  · intro h b hb
    rw [hseq] at hb
    obtain ⟨g, hg, hb⟩ := Except.bind_eq_ok hb
    obtain ⟨a, ha, hb⟩ := Except.bind_eq_ok hb
    rw [← Except.ok.inj hb]
    exact h hg ha

theorem built_map {x : Layout α} {g : α → β} : (g <$> x).Built manner value? R ↔
    x.Built manner value? fun a => R (g a) := by
  have hpure : (Layout.pure g).Built manner value? (fun h => x.Built manner value? fun a => R (h a))
      ↔ x.Built manner value? fun a => R (g a) :=
    ⟨fun h => h rfl, fun h _ hg => Except.ok.inj hg ▸ h⟩
  exact built_andThen.trans hpure

theorem Yields.decode {layout : Layout α} (hl : layout.Yields P) : layout.decode.Yields P := by
  intro manner r a h
  unfold Layout.decode at h
  split at h
  · obtain ⟨-, -, h⟩ := Except.bind_eq_ok h
    split at h
    · exact hl h
    · exact nomatch h
  · exact hl h
  · obtain ⟨-, -, h⟩ := Except.bind_eq_ok h
    dsimp only at h
    split at h
    · exact hl h
    · exact nomatch h
  · exact nomatch h

end Layout

end Yields

/-! ## Forms that are read back -/

theorem Decoder.yields_true {α : Type} (d : Decoder α) : d.Yields fun _ => True :=
  fun _ _ _ _ => trivial

/-- A JSON form of a type. `Sound` are the values that there are: ports are ports, whole numbers fit
a word, and maps are in order. `Readable` are those whose floating point numbers are found again in
their texts. -/
class WireForm (α : Type) extends JsonForm α where
  Sound : α → Prop := fun _ => True
  Readable : α → Prop := fun _ => True
  finds : ∀ a : α, Sound a → Readable a → decoder.Finds (toJson a) a
  yields : decoder.Yields Sound

namespace WireForm

variable {α : Type} [WireForm α]

/-- A value is read back from its text. -/
theorem ofText_text {a : α} (hs : Sound a) (hr : Readable a) :
    JsonForm.ofText (JsonForm.text a) = .ok a :=
  (finds a hs hr).run

/-- What any text is decoded as is a value that there is. -/
theorem sound_of_ofText {text : String} {a : α} (h : JsonForm.ofText text = .ok a) : Sound a :=
  yields.run h

end WireForm

end PolicyProbe
