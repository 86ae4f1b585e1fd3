import PolicyProbe.OrderedMap

/-!
Finite maps as lists. What a key is mapped to after `insert` and `erase` does not depend on the
order of the list; that the keys stay in order, so that no key occurs twice, needs that the order of
keys is a strict total one (`LawfulKeyOrder`).
-/
namespace PolicyProbe

/-- The order of keys is a strict total order. -/
class LawfulKeyOrder (κ : Type) [KeyOrder κ] : Prop where
  irrefl : ∀ a : κ, KeyOrder.before a a = false
  trans : ∀ {a b c : κ}, KeyOrder.before a b = true → KeyOrder.before b c = true →
    KeyOrder.before a c = true
  connected : ∀ {a b : κ}, a ≠ b → KeyOrder.before a b = true ∨ KeyOrder.before b a = true

namespace OrderedMap

variable {κ α : Type} [BEq κ] [LawfulBEq κ]

/-! ## What a key is mapped to -/

theorem find?_cons_self (key : κ) (a : α) (m : OrderedMap κ α) :
    find? key ((key, a) :: m) = some a := by
  rw [find?, List.lookup_cons_self]

theorem find?_cons_of_ne {key k : κ} (h : key ≠ k) (a : α) (m : OrderedMap κ α) :
    find? key ((k, a) :: m) = find? key m := by
  rw [find?, List.lookup_cons, beq_eq_false_iff_ne.mpr h]
  rfl

theorem mem_of_find? {key : κ} {a : α} {m : OrderedMap κ α} (h : find? key m = some a) :
    (key, a) ∈ m := by
  induction m with
  | nil => simp [find?] at h
  | cons e m ih =>
    obtain ⟨k, b⟩ := e
    by_cases hk : key = k
    · subst hk
      rw [find?_cons_self, Option.some.injEq] at h
      rw [h]
      exact List.mem_cons_self
    · rw [find?_cons_of_ne hk] at h
      exact List.mem_cons_of_mem _ (ih h)

/-- A key without an entry is mapped to nothing. -/
theorem find?_eq_none_iff {key : κ} {m : OrderedMap κ α} :
    find? key m = none ↔ ∀ e ∈ m, e.1 ≠ key := by
  rw [find?, List.lookup_eq_none_iff]
  constructor
  · intro h e he heq
    exact absurd (h e he) (by simp [heq])
  · intro h e he
    exact bne_iff_ne.mpr (Ne.symm (h e he))

theorem exists_of_mem_keys {key : κ} {m : OrderedMap κ α} (h : key ∈ keys m) :
    ∃ a, find? key m = some a := by
  obtain ⟨e, he, hkey⟩ := List.mem_map.mp h
  cases hfind : find? key m with
  | none => exact absurd hkey (find?_eq_none_iff.mp hfind e he)
  | some a => exact ⟨a, rfl⟩

theorem find?_of_mem {m : OrderedMap κ α} (hn : (keys m).Nodup) {key : κ} {a : α}
    (h : (key, a) ∈ m) : find? key m = some a := by
  induction m with
  | nil => exact absurd h List.not_mem_nil
  | cons e m ih =>
    obtain ⟨k, b⟩ := e
    obtain ⟨hk, hm⟩ := List.nodup_cons.mp hn
    rcases List.mem_cons.mp h with h | h
    · obtain ⟨rfl, rfl⟩ := Prod.mk.inj h
      exact find?_cons_self key a m
    · have hne : key ≠ k := fun heq => hk (List.mem_map.mpr ⟨_, h, heq⟩)
      rw [find?_cons_of_ne hne]
      exact ih hm h

theorem find?_erase_self (key : κ) (m : OrderedMap κ α) : find? key (erase key m) = none := by
  induction m with
  | nil => rfl
  | cons e m ih =>
    obtain ⟨k, b⟩ := e
    by_cases hk : key = k
    · subst hk
      rw [erase, List.filter_cons_of_neg (by simp)]
      exact ih
    · rw [erase, List.filter_cons_of_pos (by simpa using Ne.symm hk), find?_cons_of_ne hk]
      exact ih

theorem find?_erase_of_ne {key k : κ} (h : k ≠ key) (m : OrderedMap κ α) :
    find? k (erase key m) = find? k m := by
  induction m with
  | nil => rfl
  | cons e m ih =>
    obtain ⟨k', b⟩ := e
    by_cases hk : k' = key
    · subst hk
      rw [erase, List.filter_cons_of_neg (by simp), find?_cons_of_ne h]
      exact ih
    · rw [erase, List.filter_cons_of_pos (by simpa using hk)]
      by_cases hkk : k = k'
      · subst hkk
        rw [find?_cons_self, find?_cons_self]
      · rw [find?_cons_of_ne hkk, find?_cons_of_ne hkk]
        exact ih

theorem erase_of_find?_none {key : κ} {m : OrderedMap κ α} (h : find? key m = none) :
    m.erase key = m :=
  List.filter_eq_self.mpr fun e he => by simpa using find?_eq_none_iff.mp h e he

/-- A map that maps nothing is empty. -/
theorem eq_nil_of_find? {m : OrderedMap κ α} (h : ∀ key, find? key m = none) : m = [] := by
  cases m with
  | nil => rfl
  | cons e m => cases (find?_cons_self e.1 e.2 m).symm.trans (h e.1)

/-- Erasing takes out at most the one entry of the key. -/
theorem length_erase {m : OrderedMap κ α} (hn : (keys m).Nodup) (key : κ) :
    (m.erase key).length + (find? key m).toList.length = m.length := by
  induction m with
  | nil => rfl
  | cons e m ih =>
    obtain ⟨k, b⟩ := e
    obtain ⟨hk, hm⟩ := List.nodup_cons.mp hn
    have := ih hm
    by_cases he : key = k
    · subst he
      -- This was the only entry of the key, so nothing more is erased.
      have hnone : find? key m = none :=
        find?_eq_none_iff.mpr fun e hmem heq => hk (List.mem_map.mpr ⟨e, hmem, heq⟩)
      rw [hnone] at this
      rw [find?_cons_self, OrderedMap.erase, List.filter_cons_of_neg (by simp)]
      exact congrArg (· + 1) this
    · rw [find?_cons_of_ne he, OrderedMap.erase,
        List.filter_cons_of_pos (by simpa using Ne.symm he), List.length_cons, List.length_cons]
      rw [OrderedMap.erase] at this
      omega

omit [LawfulBEq κ] in
theorem nodup_keys_erase {m : OrderedMap κ α} (hn : (keys m).Nodup) (key : κ) :
    (keys (m.erase key)).Nodup :=
  hn.sublist (List.filter_sublist.map Prod.fst)

/-- There is one entry of a key that is mapped to something, and none of another. -/
theorem countP_key {m : OrderedMap κ α} (hn : (keys m).Nodup) (key : κ) :
    m.countP (fun e => e.1 == key) = (find? key m).isSome.toNat := by
  have hsplit := List.length_eq_countP_add_countP (fun e : κ × α => e.1 == key) (l := m)
  have herased : (m.erase key).length = m.countP fun e => decide ¬(e.1 == key) = true := by
    rw [erase, ← List.countP_eq_length_filter]
    exact List.countP_congr fun e _ => by simp
  have hcount : (find? key m).toList.length = (find? key m).isSome.toNat := by
    cases find? key m <;> rfl
  have hlength := length_erase hn key
  omega

section Insert

variable [KeyOrder κ]

theorem find?_insert_self (key : κ) (a : α) (m : OrderedMap κ α) :
    find? key (insert key a m) = some a := by
  induction m with
  | nil => exact find?_cons_self key a []
  | cons e m ih =>
    obtain ⟨k, b⟩ := e
    unfold insert
    split
    · exact find?_cons_self key a m
    · rename_i hk
      split
      · exact find?_cons_self key a _
      · rw [find?_cons_of_ne (by simpa using hk)]
        exact ih

theorem find?_insert_of_ne {key k : κ} (h : k ≠ key) (a : α) (m : OrderedMap κ α) :
    find? k (insert key a m) = find? k m := by
  induction m with
  | nil => exact find?_cons_of_ne h a []
  | cons e m ih =>
    obtain ⟨k', b⟩ := e
    unfold insert
    split
    · rename_i hk
      rw [beq_iff_eq] at hk
      subst hk
      rw [find?_cons_of_ne h, find?_cons_of_ne h]
    · split
      · exact find?_cons_of_ne h a _
      · by_cases hkk : k = k'
        · subst hkk
          rw [find?_cons_self, find?_cons_self]
        · rw [find?_cons_of_ne hkk, find?_cons_of_ne hkk]
          exact ih

/-- A key that is new comes as one more entry. -/
theorem insert_perm_of_find?_none {key : κ} {m : OrderedMap κ α} (h : find? key m = none) (a : α) :
    (insert key a m).Perm ((key, a) :: m) := by
  induction m with
  | nil => exact List.Perm.refl _
  | cons e m ih =>
    obtain ⟨k, b⟩ := e
    rw [find?_eq_none_iff] at h
    have hk : key ≠ k := Ne.symm (h _ List.mem_cons_self)
    have hrest : find? key m = none :=
      find?_eq_none_iff.mpr fun e he => h e (List.mem_cons_of_mem _ he)
    unfold insert
    rw [if_neg (by simpa using hk)]
    split
    · exact List.Perm.refl _
    · exact ((ih hrest).cons (k, b)).trans (List.Perm.swap _ _ _)

theorem nodup_keys_insert {key : κ} {m : OrderedMap κ α} (hn : (keys m).Nodup)
    (h : find? key m = none) (a : α) : (keys (insert key a m)).Nodup := by
  have hnew : key ∉ keys m := by
    intro hkey
    obtain ⟨b, hb⟩ := exists_of_mem_keys hkey
    rw [h] at hb
    exact nomatch hb
  have hperm : (keys (insert key a m)).Perm (key :: keys m) :=
    (insert_perm_of_find?_none h a).map Prod.fst
  exact hperm.nodup_iff.mpr (List.nodup_cons.mpr ⟨hnew, hn⟩)

/-! ## The order of the keys -/

/-- The entries stand in the order of their keys. -/
def Sorted (m : OrderedMap κ α) : Prop :=
  m.Pairwise fun x y => KeyOrder.before x.1 y.1 = true

omit [BEq κ] [LawfulBEq κ] in
theorem sorted_nil : Sorted ([] : OrderedMap κ α) := List.Pairwise.nil

omit [LawfulBEq κ] in
theorem Sorted.erase {m : OrderedMap κ α} (h : Sorted m) (key : κ) : Sorted (m.erase key) :=
  h.filter _

omit [LawfulBEq κ] in
theorem mem_insert {key : κ} {a : α} {m : OrderedMap κ α} :
    ∀ e ∈ insert key a m, e = (key, a) ∨ e ∈ m := by
  induction m with
  | nil => intro e he; exact Or.inl (by simpa [insert] using he)
  | cons x m ih =>
    obtain ⟨k, b⟩ := x
    intro e he
    unfold insert at he
    split at he
    · rcases List.mem_cons.mp he with rfl | he
      · exact Or.inl rfl
      · exact Or.inr (List.mem_cons_of_mem _ he)
    · split at he
      · rcases List.mem_cons.mp he with rfl | he
        · exact Or.inl rfl
        · exact Or.inr he
      · rcases List.mem_cons.mp he with rfl | he
        · exact Or.inr List.mem_cons_self
        · rcases ih e he with rfl | he
          · exact Or.inl rfl
          · exact Or.inr (List.mem_cons_of_mem _ he)

variable [LawfulKeyOrder κ]

theorem Sorted.insert {m : OrderedMap κ α} (h : Sorted m) (key : κ) (a : α) :
    Sorted (m.insert key a) := by
  induction m with
  | nil => exact List.pairwise_singleton _ _
  | cons x m ih =>
    obtain ⟨k, b⟩ := x
    obtain ⟨hk, hm⟩ := List.pairwise_cons.mp h
    unfold OrderedMap.insert
    split
    · rename_i he
      rw [beq_iff_eq] at he
      subst he
      exact List.pairwise_cons.mpr ⟨hk, hm⟩
    · rename_i he
      split
      · rename_i hb
        refine List.pairwise_cons.mpr ⟨?_, h⟩
        intro y hy
        rcases List.mem_cons.mp hy with rfl | hy
        · exact hb
        · exact LawfulKeyOrder.trans hb (hk y hy)
      · -- The key is neither that of the first entry nor before it, so it comes behind.
        rename_i hb
        refine List.pairwise_cons.mpr ⟨?_, ih hm⟩
        intro y hy
        rcases mem_insert y hy with rfl | hy
        · rcases LawfulKeyOrder.connected (fun heq => he (beq_iff_eq.mpr heq)) with h1 | h1
          · exact absurd h1 hb
          · exact h1
        · exact hk y hy

omit [BEq κ] [LawfulBEq κ] in
/-- No key occurs twice. -/
theorem Sorted.keys_nodup {m : OrderedMap κ α} (h : Sorted m) : (keys m).Nodup := by
  rw [keys, List.nodup_iff_pairwise_ne, List.pairwise_map]
  refine h.imp ?_
  intro x y hb heq
  rw [heq, LawfulKeyOrder.irrefl] at hb
  exact Bool.noConfusion hb

/-- A key that is there gets its new value in its place. -/
theorem insert_of_find?_some {m : OrderedMap κ α} (h : Sorted m) {key : κ} {b : α}
    (hf : find? key m = some b) (a : α) :
    m.insert key a = m.map fun e => if e.1 == key then (key, a) else e := by
  induction m with
  | nil => exact nomatch hf
  | cons e m ih =>
    obtain ⟨k, c⟩ := e
    obtain ⟨hk, hm⟩ := List.pairwise_cons.mp h
    unfold OrderedMap.insert
    by_cases he : key = k
    · subst he
      have hrest : m.map (fun e => if e.1 == key then (key, a) else e) = m := by
        refine (List.map_congr_left fun e hm => ?_).trans (List.map_id m)
        have hne : e.1 ≠ key := by
          intro heq
          have hb := hk e hm
          rw [heq, LawfulKeyOrder.irrefl] at hb
          exact Bool.noConfusion hb
        rw [if_neg (by simpa using hne)]
        rfl
      simp [hrest]
    · rw [find?_cons_of_ne he] at hf
      have hb : KeyOrder.before k key = true := hk _ (mem_of_find? hf)
      -- The key stands further back, so `insert` does not put it in front of this entry.
      have hnot : ¬KeyOrder.before key k = true := by
        intro hb'
        have := LawfulKeyOrder.trans hb' hb
        rw [LawfulKeyOrder.irrefl] at this
        exact Bool.noConfusion this
      rw [if_neg (by simpa using he), if_neg hnot, List.map_cons,
        if_neg (by simpa using Ne.symm he), ih hm hf]

/-! ## Maps of lists of entries -/

/-- A key behind all others comes at the end. -/
theorem insert_last {m : OrderedMap κ α} {key : κ} {a : α}
    (h : ∀ e ∈ m, KeyOrder.before e.1 key = true) : m.insert key a = m ++ [(key, a)] := by
  induction m with
  | nil => rfl
  | cons e m ih =>
    obtain ⟨k, b⟩ := e
    have hb : KeyOrder.before k key = true := h _ List.mem_cons_self
    have hne : key ≠ k := by
      rintro rfl
      rw [LawfulKeyOrder.irrefl] at hb
      exact Bool.noConfusion hb
    have hnot : ¬KeyOrder.before key k = true := by
      intro hb'
      have := LawfulKeyOrder.trans hb hb'
      rw [LawfulKeyOrder.irrefl] at this
      exact Bool.noConfusion this
    unfold OrderedMap.insert
    rw [if_neg (by simpa using hne), if_neg hnot, ih fun e he => h e (List.mem_cons_of_mem _ he)]
    rfl

theorem sorted_foldl_insert (es : List (κ × α)) {m : OrderedMap κ α} (h : Sorted m) :
    Sorted (es.foldl (fun m (k, a) => OrderedMap.insert k a m) m) := by
  induction es generalizing m with
  | nil => exact h
  | cons e es ih => exact ih (h.insert e.1 e.2)

theorem sorted_ofList (es : List (κ × α)) : Sorted (ofList es) := sorted_foldl_insert es sorted_nil

/-- A map is the map of its entries. -/
theorem Sorted.ofList {m : OrderedMap κ α} (h : Sorted m) : ofList m = m := by
  have hfold : ∀ (es : List (κ × α)) (m : OrderedMap κ α), Sorted (m ++ es) →
      es.foldl (fun m (k, a) => OrderedMap.insert k a m) m = m ++ es := by
    intro es
    induction es with
    | nil => intro m _; exact (List.append_nil m).symm
    | cons e es ih =>
      intro m hs
      obtain ⟨-, -, hcross⟩ := List.pairwise_append.mp hs
      have hlast : m.insert e.1 e.2 = m ++ [e] :=
        insert_last fun x hx => hcross x hx e List.mem_cons_self
      have hassoc : m ++ e :: es = (m ++ [e]) ++ es := by simp
      rw [hassoc] at hs ⊢
      rw [List.foldl_cons]
      show es.foldl _ (m.insert e.1 e.2) = m ++ [e] ++ es
      rw [hlast]
      exact ih (m ++ [e]) hs
  exact hfold m [] h

omit [LawfulKeyOrder κ] in
/-- Entries of new keys all come as they are, in some order. -/
theorem foldl_insert_perm (es : List (κ × α)) {m : OrderedMap κ α}
    (hn : (keys es).Nodup) (hnew : ∀ e ∈ es, find? e.1 m = none) :
    (es.foldl (fun m (k, a) => OrderedMap.insert k a m) m).Perm (es ++ m) := by
  induction es generalizing m with
  | nil => exact List.Perm.refl _
  | cons e es ih =>
    obtain ⟨hkey, hes⟩ := List.nodup_cons.mp hn
    have hrest : ∀ x ∈ es, find? x.1 (m.insert e.1 e.2) = none := by
      intro x hx
      have hne : x.1 ≠ e.1 := fun heq => hkey (heq ▸ List.mem_map_of_mem hx)
      rw [find?_insert_of_ne hne]
      exact hnew x (List.mem_cons_of_mem _ hx)
    refine (ih hes hrest).trans ?_
    have hput := insert_perm_of_find?_none (hnew e List.mem_cons_self) e.2
    exact (hput.append_left es).trans List.perm_middle

/-- The order of entries does not matter to their map if no key comes twice. -/
theorem ofList_eq_of_perm {es es' : List (κ × α)} (hn : (keys es).Nodup) (h : es.Perm es') :
    ofList es = ofList es' := by
  have hn' : (keys es').Nodup := (h.map Prod.fst).nodup_iff.mp hn
  have hperm : (ofList es).Perm (ofList es') := by
    have hleft := foldl_insert_perm (m := []) es hn fun _ _ => rfl
    have hright := foldl_insert_perm (m := []) es' hn' fun _ _ => rfl
    rw [List.append_nil] at hleft hright
    exact hleft.trans (h.trans hright.symm)
  refine hperm.eq_of_pairwise ?_ (sorted_ofList es) (sorted_ofList es')
  -- No two entries stand before each other.
  intro x y _ _ hxy hyx
  have := LawfulKeyOrder.trans hxy hyx
  rw [LawfulKeyOrder.irrefl] at this
  exact Bool.noConfusion this

end Insert

end OrderedMap

instance : LawfulKeyOrder String where
  irrefl a := decide_eq_false (String.lt_irrefl a)
  trans h h' := decide_eq_true (String.lt_trans (of_decide_eq_true h) (of_decide_eq_true h'))
  connected := by
    intro a b hne
    by_cases hlt : a < b
    · exact Or.inl (decide_eq_true hlt)
    · refine Or.inr (decide_eq_true ?_)
      refine Classical.byContradiction fun hnot => hne ?_
      exact String.le_antisymm hnot hlt

end PolicyProbe
