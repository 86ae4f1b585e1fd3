import PolicyProbe.Desired.Entry

/-!
What merging makes of an entry. Servers are added when they are new. Clients keep their places: the
keys that are new come behind the old ones, and a key that was asked for has what the last of its
asks expects (`Merged`). Both orders are that of `newcomers`. So merging the same once more changes
nothing (`merge_again`).
-/
namespace PolicyProbe

section Newcomers

variable {α : Type} [DecidableEq α]

/-- What is new among some things: each once, in the order in which they come first. -/
def newcomers (old asks : List α) : List α := (asks.filter fun a => !old.contains a).eraseDups

/-- Some things with one more, unless it is there. -/
def addNew (old : List α) (a : α) : List α := if old.contains a then old else old ++ [a]

theorem addNew_cons_self (a : α) (old : List α) : addNew (a :: old) a = a :: old := by
  simp [addNew]

theorem addNew_cons_of_ne {a b : α} (h : a ≠ b) (old : List α) :
    addNew (b :: old) a = b :: addNew old a := by
  by_cases hm : a ∈ old <;> simp [addNew, h, hm]

theorem newcomers_cons_of_mem {old : List α} {a : α} (h : a ∈ old) (asks : List α) :
    newcomers old (a :: asks) = newcomers old asks := by
  rw [newcomers, List.filter_cons_of_neg (by simpa using h), newcomers]

theorem newcomers_cons_of_not_mem {old : List α} {a : α} (h : a ∉ old) (asks : List α) :
    newcomers old (a :: asks) = a :: newcomers (old ++ [a]) asks := by
  -- Dropping the repeats of `a` is the same as counting it among the old ones.
  have hfilter : (asks.filter fun b => !old.contains b).filter (fun b => !b == a) =
      asks.filter fun b => !(old ++ [a]).contains b := by
    rw [List.filter_filter]
    refine List.filter_congr fun b _ => ?_
    by_cases hb : b = a <;> simp [hb]
  rw [newcomers, List.filter_cons_of_pos (by simpa using h), List.eraseDups_cons, hfilter,
    newcomers]

theorem foldl_addNew (old asks : List α) : asks.foldl addNew old = old ++ newcomers old asks := by
  induction asks generalizing old with
  | nil => simp [newcomers]
  | cons a asks ih =>
    rw [List.foldl_cons, ih, addNew]
    by_cases h : a ∈ old
    · rw [if_pos (by simpa using h), newcomers_cons_of_mem h]
    · rw [if_neg (by simpa using h), newcomers_cons_of_not_mem h, List.append_assoc]
      rfl

theorem mem_newcomers {old asks : List α} {a : α} :
    a ∈ newcomers old asks ↔ a ∈ asks ∧ a ∉ old := by
  simp [newcomers, List.mem_eraseDups]

theorem nodup_newcomers (old asks : List α) : (newcomers old asks).Nodup := by
  induction asks generalizing old with
  | nil => simp [newcomers]
  | cons a asks ih =>
    by_cases h : a ∈ old
    · rw [newcomers_cons_of_mem h]
      exact ih old
    · rw [newcomers_cons_of_not_mem h, List.nodup_cons, mem_newcomers]
      exact ⟨fun hmem => hmem.2 (List.mem_append_right _ (List.mem_singleton_self a)), ih _⟩

/-- What is asked for once has no newcomers when it is asked for again. -/
theorem newcomers_again (old asks : List α) :
    newcomers (old ++ newcomers old asks) asks = [] := by
  rw [List.eq_nil_iff_forall_not_mem]
  intro a ha
  obtain ⟨hask, hnew⟩ := mem_newcomers.mp ha
  have hold : a ∉ old := fun h => hnew (List.mem_append_left _ h)
  exact hnew (List.mem_append_right _ (mem_newcomers.mpr ⟨hask, hold⟩))

theorem nodup_foldl_addNew (asks : List α) {old : List α} (h : old.Nodup) :
    (asks.foldl addNew old).Nodup := by
  induction asks generalizing old with
  | nil => exact h
  | cons a asks ih =>
    refine ih ?_
    rw [addNew]
    split
    · exact h
    · rename_i hnew
      rw [List.nodup_append]
      refine ⟨h, List.pairwise_singleton _ _, ?_⟩
      rintro b hb c hc rfl
      rw [List.mem_singleton.mp hc] at hb
      exact hnew (by simpa using hb)

end Newcomers

namespace StateEntry

open ClientEntry

/-! ## Servers -/

theorem foldl_addServer (old asks : List ServerEntry) :
    asks.foldl addServer old = old ++ newcomers old asks :=
  foldl_addNew old asks

/-! ## Clients -/

theorem keys_putClient (cs : List ClientEntry) (c : ClientEntry) :
    (putClient cs c).map key = addNew (cs.map key) c.key := by
  induction cs with
  | nil => rfl
  | cons d rest ih =>
    rw [putClient, List.map_cons]
    by_cases h : d.key = c.key
    · rw [if_pos h, List.map_cons, h, addNew_cons_self]
    · rw [if_neg h, List.map_cons, ih, addNew_cons_of_ne (Ne.symm h)]

theorem find?_putClient (cs : List ClientEntry) (c : ClientEntry) (k : Key) :
    (putClient cs c).find? (·.key = k) =
      if c.key = k then some c else cs.find? (·.key = k) := by
  induction cs with
  | nil => by_cases h : c.key = k <;> simp [putClient, h]
  | cons d rest ih =>
    rw [putClient]
    by_cases hd : d.key = c.key
    · rw [if_pos hd, List.find?_cons, List.find?_cons, hd]
      by_cases h : c.key = k <;> simp [h]
    · rw [if_neg hd, List.find?_cons, ih, List.find?_cons]
      by_cases h : c.key = k
      · have hk : d.key ≠ k := fun he => hd (he.trans h.symm)
        simp [h, hk]
      · simp [h]

theorem putClient_of_ne {cs : List ClientEntry} {c d : ClientEntry} {i : Nat} (h : d.key ≠ c.key)
    (hd : cs[i]? = some d) : (putClient cs c)[i]? = some d := by
  induction cs generalizing i with
  | nil => simp at hd
  | cons e rest ih =>
    rw [putClient]
    cases i with
    | zero =>
      obtain rfl : e = d := by simpa using hd
      rw [if_neg h]
      rfl
    | succ i =>
      rw [List.getElem?_cons_succ] at hd
      split
      · exact hd
      · exact ih hd

/-- What stands behind another entry of its key stays. -/
theorem putClient_repeated {cs : List ClientEntry} (c : ClientEntry) {d : ClientEntry} {i : Nat}
    (hd : cs[i]? = some d) (hm : d.key ∈ (cs.take i).map key) :
    (putClient cs c)[i]? = some d := by
  induction cs generalizing i with
  | nil => simp at hd
  | cons e rest ih =>
    cases i with
    | zero => simp at hm
    | succ i =>
      rw [List.getElem?_cons_succ] at hd
      rw [putClient]
      split
      · exact hd
      · rename_i he
        rw [List.getElem?_cons_succ]
        by_cases h : d.key = c.key
        · -- The entry of the key in front is not this one, so it is further back as well.
          refine ih hd ?_
          rw [List.take_succ_cons, List.map_cons, List.mem_cons] at hm
          exact hm.resolve_left fun heq => he (heq.symm.trans h)
        · exact putClient_of_ne h hd

/-- The clients `new` are those of `old` with `asks` merged in: the keys in their order, what the
first entry of a key expects, and that entries behind another of their key stay as they are. -/
structure Merged (old asks new : List ClientEntry) : Prop where
  keys : new.map key = old.map key ++ newcomers (old.map key) (asks.map key)
  expected : ∀ k, new.find? (·.key = k) =
    (asks.findRev? (·.key = k)).or (old.find? (·.key = k))
  repeated : ∀ i c, old[i]? = some c → c.key ∈ (old.take i).map key → new[i]? = some c

theorem find?_foldl_putClient (old asks : List ClientEntry) (k : Key) :
    (asks.foldl putClient old).find? (·.key = k) =
      (asks.findRev? (·.key = k)).or (old.find? (·.key = k)) := by
  induction asks generalizing old with
  | nil => rfl
  | cons a asks ih =>
    rw [List.foldl_cons, ih, find?_putClient, List.findRev?]
    cases asks.findRev? (·.key = k) with
    | some c => rfl
    | none => by_cases h : a.key = k <;> simp [h]

theorem keys_foldl_putClient (old asks : List ClientEntry) :
    (asks.foldl putClient old).map key = (asks.map key).foldl addNew (old.map key) := by
  induction asks generalizing old with
  | nil => rfl
  | cons a asks ih => rw [List.foldl_cons, ih, keys_putClient, List.map_cons, List.foldl_cons]

theorem take_putClient (cs : List ClientEntry) (c : ClientEntry) {i : Nat} (hi : i < cs.length) :
    ((putClient cs c).take i).map key = (cs.take i).map key := by
  rw [List.map_take, List.map_take, keys_putClient, addNew]
  split
  · rfl
  · rw [List.take_append_of_le_length (by simpa using Nat.le_of_lt hi)]

theorem foldl_putClient_repeated (asks : List ClientEntry) {old : List ClientEntry} {i : Nat}
    {c : ClientEntry} (hc : old[i]? = some c) (hm : c.key ∈ (old.take i).map key) :
    (asks.foldl putClient old)[i]? = some c := by
  induction asks generalizing old with
  | nil => exact hc
  | cons a asks ih =>
    have hi : i < old.length := (List.getElem?_eq_some_iff.mp hc).1
    refine ih (putClient_repeated a hc hm) ?_
    rwa [take_putClient old a hi]

/-- Merging clients one by one. -/
theorem merged_foldl (old asks : List ClientEntry) :
    Merged old asks (asks.foldl putClient old) where
  keys := by rw [keys_foldl_putClient, foldl_addNew]
  expected := find?_foldl_putClient old asks
  repeated := fun _ _ hc hm => foldl_putClient_repeated asks hc hm

/-- The first entry of a key is the one that is found for it. -/
theorem find?_of_first {cs : List ClientEntry} {i : Nat} {c : ClientEntry} (hc : cs[i]? = some c)
    (hfirst : c.key ∉ (cs.take i).map key) : cs.find? (·.key = c.key) = some c := by
  obtain ⟨hi, hget⟩ := List.getElem?_eq_some_iff.mp hc
  rw [List.find?_eq_some_iff_getElem]
  refine ⟨by simp, i, hi, hget, fun j hj => ?_⟩
  have hmem : cs[j] ∈ cs.take i := List.mem_take_iff_getElem.mpr ⟨j, by omega, rfl⟩
  simp only [Bool.not_eq_true', decide_eq_false_iff_not]
  exact fun heq => hfirst (List.mem_map.mpr ⟨_, hmem, heq⟩)

/-- Merging that brings no new key, and expects of every key what was expected, changes nothing. -/
theorem Merged.eq_old {old asks new : List ClientEntry} (h : Merged old asks new)
    (hkeys : new.map key = old.map key)
    (hexpected : ∀ k, new.find? (·.key = k) = old.find? (·.key = k)) : new = old := by
  have hlength : new.length = old.length := by
    have hmap := congrArg List.length hkeys
    rwa [List.length_map, List.length_map] at hmap
  refine List.ext_getElem? fun i => ?_
  cases hold : old[i]? with
  | none => exact List.getElem?_eq_none (hlength ▸ List.getElem?_eq_none_iff.mp hold)
  | some c =>
    by_cases hfirst : c.key ∈ (old.take i).map key
    · exact h.repeated i c hold hfirst
    · -- The entry that has taken the place of a first entry is the first one of the same key.
      obtain ⟨hi, hget⟩ := List.getElem?_eq_some_iff.mp hold
      have hnew : new[i]? = some new[i] := List.getElem?_eq_getElem (hlength ▸ hi)
      have hkey : new[i].key = c.key := by
        have hmap := congrArg (·[i]?) hkeys
        simp only [List.getElem?_map, hnew, hold, Option.map_some] at hmap
        exact Option.some.inj hmap
      have hfirst' : new[i].key ∉ (new.take i).map key := by
        rw [hkey, List.map_take, hkeys, ← List.map_take]
        exact hfirst
      have hfind := find?_of_first hnew hfirst'
      rw [hkey, hexpected, find?_of_first hold hfirst] at hfind
      rw [hnew, ← Option.some.inj hfind]

/-- Merging the same clients again changes nothing, also when some of them have the same key. -/
theorem foldl_putClient_again (old asks : List ClientEntry) :
    asks.foldl putClient (asks.foldl putClient old) = asks.foldl putClient old := by
  refine (merged_foldl (asks.foldl putClient old) asks).eq_old ?_ fun k => ?_
  · rw [(merged_foldl _ asks).keys, keys_foldl_putClient old, foldl_addNew, newcomers_again,
      List.append_nil]
  · rw [find?_foldl_putClient, find?_foldl_putClient old]
    cases asks.findRev? (·.key = k) <;> rfl

/-! ## Entries -/

/-- Merging what was merged changes nothing. -/
theorem merge_again (e : StateEntry) (s : List ServerEntry) (c : List ClientEntry) :
    (e.merge s c).merge s c = e.merge s c := by
  have hservers : s.foldl addServer (s.foldl addServer e.servers) =
      s.foldl addServer e.servers := by
    rw [foldl_addServer (s.foldl addServer e.servers), foldl_addServer, newcomers_again,
      List.append_nil]
  simp only [merge, hservers, foldl_putClient_again]

theorem merge_merge (e : StateEntry) (s t : List ServerEntry) (c d : List ClientEntry) :
    (e.merge s c).merge t d = e.merge (s ++ t) (c ++ d) := by
  simp only [merge, List.foldl_append]

theorem merge_servers (e : StateEntry) (s : List ServerEntry) (c : List ClientEntry) :
    (e.merge s c).servers = e.servers ++ newcomers e.servers s :=
  foldl_addServer e.servers s

theorem merge_clients (e : StateEntry) (s : List ServerEntry) (c : List ClientEntry) :
    Merged e.clients c (e.merge s c).clients :=
  merged_foldl e.clients c

/-- No server and no client is in an entry twice. -/
structure Distinct (entry : StateEntry) : Prop where
  servers : entry.servers.Nodup
  clients : (entry.clients.map key).Nodup

theorem distinct_empty (endpoint : Address) : (StateEntry.empty endpoint).Distinct :=
  ⟨List.nodup_nil, List.nodup_nil⟩

theorem Distinct.merge {entry : StateEntry} (h : entry.Distinct) (servers : List ServerEntry)
    (clients : List ClientEntry) : (entry.merge servers clients).Distinct where
  servers := nodup_foldl_addNew servers h.servers
  clients := by
    show ((clients.foldl putClient entry.clients).map key).Nodup
    rw [keys_foldl_putClient]
    exact nodup_foldl_addNew _ h.clients

end StateEntry

end PolicyProbe
