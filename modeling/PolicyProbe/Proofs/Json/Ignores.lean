import Mathlib.Data.List.Perm.Basic
import Mathlib.Logic.Relation
import PolicyProbe.Proofs.Json.Order
import PolicyProbe.Proofs.Json.Tagged

/-!
Decoders that ignore edits: what they make of a value, they make of it after every edit
(`Decoder.Ignores`). Decoders of plain values refuse containers or take a few that have no other
form, and decoders of lists and of optional values ignore what the decoders of their items ignore.
The order of the members of an object that is read as a map is lost in the map.
-/
namespace PolicyProbe

/-- What a decoder answers with is the same after every edit of values of some shape. -/
def Decoder.Ignores {α : Type} (d : Decoder α) (shape : Shape) : Prop :=
  ∀ ⦃depth : Nat⦄ ⦃manner : Manner⦄ ⦃r r' : Reading⦄ ⦃a : α⦄, Edit depth shape r r' →
    d manner r = .ok a → d manner r' = .ok a

theorem Decoder.Ignores.permuted {α : Type} {d : Decoder α} {shape : Shape} (hd : d.Ignores shape)
    {manner : Manner} {r r' : Reading} {a : α} (hp : r.Permutes r') (h : d manner r = .ok a) :
    d manner r' = .ok a :=
  hd (show Edit 0 shape r r' from .permuted hp) h

/-- Many edits are ignored as well as one. -/
theorem Decoder.Ignores.edits {α : Type} {d : Decoder α} {shape : Shape} (hd : d.Ignores shape)
    {depth : Nat} {manner : Manner} {r r' : Reading} {a : α}
    (hedits : Relation.ReflTransGen (Edit depth shape) r r') (h : d manner r = .ok a) :
    d manner r' = .ok a := by
  induction hedits with
  | refl => exact h
  | tail _ hedit ih => exact hd hedit ih

/-! ## Lists of answers -/

theorem mapM_eq_ok_iff {ε α β : Type} {f : α → Except ε β} {as : List α} {bs : List β} :
    as.mapM f = .ok bs ↔ List.Forall₂ (fun a b => f a = .ok b) as bs := by
  induction as generalizing bs with
  | nil =>
    rw [List.forall₂_nil_left_iff]
    exact ⟨fun h => (Except.ok.inj h).symm, fun h => h ▸ rfl⟩
  | cons a as ih =>
    rw [List.mapM_cons, List.forall₂_cons_left_iff]
    constructor
    · intro h
      obtain ⟨b, hb, h⟩ := Except.bind_eq_ok h
      obtain ⟨cs, hcs, h⟩ := Except.bind_eq_ok h
      exact ⟨b, cs, hb, ih.mp hcs, (Except.ok.inj h).symm⟩
    · rintro ⟨b, cs, hb, hcs, rfl⟩
      rw [hb, ih.mpr hcs]
      rfl

/-- One item may be replaced by another that is related to all that it was related to. -/
theorem forall₂_replace {α β : Type} {R : α → β → Prop} {before after : List α} {a a' : α}
    (h : ∀ b, R a b → R a' b) {bs : List β} (hr : List.Forall₂ R (before ++ a :: after) bs) :
    List.Forall₂ R (before ++ a' :: after) bs := by
  induction before generalizing bs with
  | nil =>
    obtain ⟨b, cs, hb, hcs, rfl⟩ := List.forall₂_cons_left_iff.mp hr
    exact .cons (h b hb) hcs
  | cons x before ih =>
    obtain ⟨b, cs, hb, hcs, rfl⟩ := List.forall₂_cons_left_iff.mp hr
    exact .cons hb (ih hcs)

theorem forall₂_congr_of_iff {α β : Type} {R S : α → β → Prop} (h : ∀ a b, R a b ↔ S a b)
    {as : List α} {bs : List β} : List.Forall₂ R as bs ↔ List.Forall₂ S as bs :=
  ⟨fun hr => hr.imp fun a b => (h a b).mp, fun hs => hs.imp fun a b => (h a b).mpr⟩

/-! ## Plain values -/

/-- A value without items and members has no other order. -/
theorem Reading.Permutes.eq_of_bare {r r' : Reading} (h : r.Permutes r')
    (hr : r = .null ∨ ∃ ending, r = .array [] ending ∨ r = .object [] ending) : r' = r := by
  cases h with
  | here _ h =>
    rcases hr with hr | ⟨ending, hr | hr⟩
    · cases hr
    · cases hr
    · obtain rfl : _ = [] := (Reading.object.inj hr).1
      rw [h.nil_eq]
  | item _ =>
    rcases hr with hr | ⟨ending, hr | hr⟩
    · cases hr
    · simp at hr
    · cases hr
  | member _ =>
    rcases hr with hr | ⟨ending, hr | hr⟩
    · cases hr
    · cases hr
    · simp at hr

theorem Reading.Permutes.ne_null {r r' : Reading} (h : r.Permutes r') : r ≠ .null ∧ r' ≠ .null := by
  cases h <;> simp

/-- Neither is null edited, nor is anything edited into null. -/
theorem Edit.ne_null {depth : Nat} {shape : Shape} {r r' : Reading} (h : Edit depth shape r r') :
    r ≠ .null ∧ r' ≠ .null := by
  cases h with
  | permuted h => exact h.ne_null
  | _ => simp

namespace Decoder

variable {α β : Type}

/-- Nothing that a decoder takes is edited if it takes no containers. -/
theorem ignores_of_refuses {d : Decoder α}
    (harray : ∀ manner items ending a, d manner (.array items ending) ≠ .ok a)
    (hobject : ∀ manner members ending a, d manner (.object members ending) ≠ .ok a) :
    d.Ignores .simple := by
  intro depth manner r r' a hedit h
  cases hedit with
  | permuted hp =>
    cases hp with
    | item _ => exact absurd h (harray _ _ _ _)
    | here _ _ | member _ => exact absurd h (hobject _ _ _ _)

theorem ignores_bool : bool.Ignores .simple := ignores_of_refuses (by simp [bool]) (by simp [bool])

theorem ignores_string : string.Ignores .simple :=
  ignores_of_refuses (by simp [string]) (by simp [string])

theorem ignores_textOf (read? : String → Option α) : (textOf read?).Ignores .simple :=
  ignores_of_refuses (by simp [textOf]) (by simp [textOf])

theorem ignores_natBelow (bound : Nat) : (natBelow bound).Ignores .simple :=
  ignores_of_refuses (by simp [natBelow]) (by simp [natBelow])

theorem ignores_double : double.Ignores .simple :=
  ignores_of_refuses (by simp [double]) (by simp [double])

/-- A word that is the name of a member has no other member beside it, and nothing in its value. -/
theorem word_object {choices : List (String × α)} {manner : Manner}
    {members : List (Option String × Reading)} {ending : Ending} {a : α}
    (h : word choices manner (.object members ending) = .ok a) :
    ∃ name value, members = [(some name, value)] ∧
      (value = .null ∨ ∃ ending, value = .array [] ending ∨ value = .object [] ending) := by
  unfold word at h
  split at h
  · rename_i heq
    cases heq
  · rename_i name value more _ heq
    obtain ⟨hmembers, -⟩ := Reading.object.inj heq
    obtain ⟨b, -, h⟩ := Except.bind_eq_ok h
    split at h
    · exact ⟨name, _, hmembers, .inl rfl⟩
    · cases h
  · rename_i name value _ _ heq
    obtain ⟨hmembers, -⟩ := Reading.object.inj heq
    obtain ⟨b, -, h⟩ := Except.bind_eq_ok h
    refine ⟨name, value, hmembers, ?_⟩
    split at h
    · exact .inr ⟨_, .inr rfl⟩
    · exact .inr ⟨_, .inl rfl⟩
    · cases h
    · exact .inr ⟨_, .inr rfl⟩
    · exact .inl rfl
    · cases h
  · cases h

theorem ignores_word (choices : List (String × α)) : (word choices).Ignores .simple := by
  intro depth manner r r' a hedit h
  cases hedit with
  | permuted hp =>
    cases hp with
    | here _ hp =>
      obtain ⟨name, value, rfl, -⟩ := word_object h
      rw [List.perm_singleton.mp hp.symm]
      exact h
    | item _ => simp [word] at h
    | member hp =>
      obtain ⟨name, value, heq, hvalue⟩ := word_object h
      rcases List.append_eq_singleton_iff.mp heq with ⟨-, heq⟩ | ⟨-, heq⟩
      · obtain ⟨hmember, -⟩ := List.cons.inj heq
        obtain rfl := (Prod.mk.inj hmember).2
        rw [hp.eq_of_bare hvalue]
        exact h
      · cases heq

theorem Ignores.map {d : Decoder α} {shape : Shape} (hd : d.Ignores shape) (f : α → β) :
    (Decoder.map f d).Ignores shape := by
  intro depth manner r r' b hedit h
  obtain ⟨a, ha, h⟩ := Except.bind_eq_ok h
  show f <$> d manner r' = _
  rw [hd hedit ha]
  exact h

theorem optional_of_ne_null (d : Decoder α) (manner : Manner) {r : Reading} (h : r ≠ .null) :
    optional d manner r = some <$> d manner r := by
  cases r with
  | null => exact absurd rfl h
  | _ => rfl

theorem Ignores.optional {d : Decoder α} {shape : Shape} (hd : d.Ignores shape) :
    (Decoder.optional d).Ignores shape := by
  intro depth manner r r' o hedit h
  obtain ⟨hr, hr'⟩ := hedit.ne_null
  rw [optional_of_ne_null d manner hr] at h
  rw [optional_of_ne_null d manner hr']
  exact hd.map some hedit h

/-! ## Lists and maps -/

/-- An answer that is given only if the end of the container was reached. -/
theorem closed_eq_ok_iff {x : Except DecodeError α} {ending : Ending} {a : α} :
    (x >>= fun a => if ending = .closed then .ok a else .error .malformed) = .ok a ↔
      ending = .closed ∧ x = .ok a := by
  constructor
  · intro h
    obtain ⟨b, hb, h⟩ := Except.bind_eq_ok h
    split at h
    · rename_i hending
      exact ⟨hending, hb.trans h⟩
    · cases h
  · rintro ⟨rfl, rfl⟩
    rfl

theorem list_array {d : Decoder α} {manner : Manner} {items : List Reading} {ending : Ending}
    {as : List α} : list d manner (.array items ending) = .ok as ↔
      ending = .closed ∧ List.Forall₂ (fun r a => d manner r = .ok a) items as := by
  rw [← mapM_eq_ok_iff]
  exact closed_eq_ok_iff

theorem Ignores.list {d : Decoder α} {shape : Shape} (hd : d.Ignores shape) :
    (Decoder.list d).Ignores (.list shape) := by
  intro depth manner r r' as hedit h
  cases hedit with
  | permuted hp =>
    cases hp with
    | here _ _ | member _ => cases h
    | item hp =>
      obtain ⟨hending, hitems⟩ := list_array.mp h
      exact list_array.mpr ⟨hending, forall₂_replace (fun _ => hd.permuted hp) hitems⟩
  | item hedit =>
    obtain ⟨hending, hitems⟩ := list_array.mp h
    exact list_array.mpr ⟨hending, forall₂_replace (fun _ => hd hedit) hitems⟩

/-- An entry has the name of a member, and what its value is read as. -/
def IsEntry (d : Decoder α) (manner : Manner) (m : Option String × Reading) (e : String × α) :
    Prop :=
  m.1 = some e.1 ∧ d manner m.2 = .ok e.2

theorem entries_object {d : Decoder α} {manner : Manner} {members : List (Option String × Reading)}
    {ending : Ending} {es : List (String × α)} :
    entries d manner (.object members ending) = .ok es ↔
      ending = .closed ∧ List.Forall₂ (IsEntry d manner) members es := by
  refine closed_eq_ok_iff.trans (and_congr_right fun _ => mapM_eq_ok_iff.trans ?_)
  refine forall₂_congr_of_iff ?_
  rintro ⟨_ | name, value⟩ ⟨key, a⟩
  · simp [IsEntry]
  · constructor
    · intro h
      obtain ⟨b, hb, h⟩ := Except.bind_eq_ok h
      obtain ⟨rfl, rfl⟩ := Prod.mk.inj (Except.ok.inj h)
      exact ⟨rfl, hb⟩
    · rintro ⟨hname, ha⟩
      obtain rfl := Option.some.inj hname
      simp only [ha]
      rfl

theorem names_of_entries {d : Decoder α} {manner : Manner}
    {members : List (Option String × Reading)} {es : List (String × α)}
    (h : List.Forall₂ (IsEntry d manner) members es) :
    members.filterMap Prod.fst = OrderedMap.keys es := by
  induction h with
  | nil => rfl
  | cons hm _ ih =>
    rw [List.filterMap_cons_some hm.1, ih]
    rfl

/-- A map does not know in which order its entries were read. -/
theorem Ignores.entries {d : Decoder α} (hd : d.Ignores .simple) :
    (Decoder.map OrderedMap.ofList (Decoder.entries d)).Ignores .simple := by
  intro depth manner r r' m hedit hmap
  obtain ⟨es, hes, hm⟩ := Except.bind_eq_ok hmap
  cases hedit with
  | permuted hp =>
    cases hp with
    | item _ => cases hes
    | here hnames hp =>
      obtain ⟨hending, hmembers⟩ := entries_object.mp hes
      -- The names of the entries are those of the members, so they are distinct.
      have hkeys : (OrderedMap.keys es).Nodup := names_of_entries hmembers ▸ hnames
      obtain ⟨es', hmembers', hperm⟩ := List.perm_comp_forall₂ hp.symm hmembers
      show OrderedMap.ofList <$> Decoder.entries d manner _ = _
      rw [entries_object.mpr ⟨hending, hmembers'⟩]
      exact (congrArg Except.ok (OrderedMap.ofList_eq_of_perm hkeys hperm.symm).symm).trans hm
    | @member before after name r r' ending hp =>
      obtain ⟨hending, hmembers⟩ := entries_object.mp hes
      have hentry : ∀ e, IsEntry d manner (name, r) e → IsEntry d manner (name, r') e :=
        fun _ he => ⟨he.1, hd.permuted hp he.2⟩
      show OrderedMap.ofList <$> Decoder.entries d manner _ = _
      rw [entries_object.mpr ⟨hending, forall₂_replace hentry hmembers⟩]
      exact hm

end Decoder

end PolicyProbe
