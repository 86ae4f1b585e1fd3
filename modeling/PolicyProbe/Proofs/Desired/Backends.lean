import Mathlib.Data.List.Forall2
import PolicyProbe.Proofs.Desired.Memory
import PolicyProbe.Proofs.Desired.Table

/-!
The table of desired state refines the map in memory. A run is a list of calls, among them closing
the table and opening it again; both backends are taken through the same run from nothing. The table
is the image of the map all along (`Mirrors`): one row for each entry, its columns the texts of the
entry's parts. Since addresses and columns are read back from their texts, both give the same
answers.
-/
namespace PolicyProbe

/-! ## Runs -/

/-- A call of a store of desired state; to open a store again is one of them. -/
inductive StateCall where
  | update (u : StateUpdate)
  | get (endpoint : Address)
  | servers (endpoint : Address)
  | clients (endpoint : Address)
  | list
  | delete (endpoint : Option Address)
  | reopen

/-- The answer to a call. -/
inductive StateAnswer where
  | updated (answer : Except StorageError Unit)
  | entry (answer : Except StorageError (Option StateEntry))
  | servers (answer : Except StorageError (List ServerEntry))
  | clients (answer : Except StorageError (List ClientEntry))
  | entries (answer : Except StorageError (List StateEntry))
  | removed (answer : Except StorageError Nat)
  | reopened

/-- Whether two answers are the same; a list of all entries has no order. -/
def StateAnswer.Agrees : StateAnswer → StateAnswer → Prop
  | .entries (.ok xs), .entries (.ok ys) => xs.Perm ys
  | x, y => x = y

namespace StateCall

/-- Whether the ports of a call are below their bound. -/
def Sound : StateCall → Prop
  | .update u => u.Sound
  | _ => True

variable {σ : Type} [DesiredStore σ]

/-- The answer to a call, and the store after it. -/
def run (reopen : σ → σ) (s : σ) : StateCall → StateAnswer × σ
  | .update u => (.updated (DesiredStore.apply u s).1, (DesiredStore.apply u s).2)
  | .get endpoint => (.entry (DesiredStore.get endpoint s), s)
  | .servers endpoint => (.servers (DesiredStore.servers endpoint s), s)
  | .clients endpoint => (.clients (DesiredStore.clients endpoint s), s)
  | .list => (.entries (DesiredStore.list s), s)
  | .delete endpoint =>
    (.removed (DesiredStore.delete endpoint s).1, (DesiredStore.delete endpoint s).2)
  | .reopen => (.reopened, reopen s)

/-- The answers to some calls in order. -/
def answers (reopen : σ → σ) : List StateCall → σ → List StateAnswer
  | [], _ => []
  | c :: calls, s => (c.run reopen s).1 :: answers reopen calls (c.run reopen s).2

end StateCall

/-! ## The table as an image of the map -/

/-- The rows of some entries. -/
def imageOf (entries : OrderedMap Address StateEntry) : List StateRow :=
  entries.map fun p => StateRow.ofEntry p.2

/-- The rows are those of the entries in some order, every entry is that of its own endpoint, and no
entry has a port out of bound. -/
structure Mirrors (m : MemoryState) (rows : List StateRow) : Prop where
  sorted : m.entries.Sorted
  own : ∀ p ∈ m.entries, p.2.endpoint = p.1
  sound : ∀ p ∈ m.entries, p.2.Sound
  rows : rows.Perm (imageOf m.entries)

namespace Mirrors

variable {m : MemoryState} {rows : List StateRow}

theorem nil : Mirrors .empty [] := ⟨OrderedMap.sorted_nil, by simp [MemoryState.empty],
  by simp [MemoryState.empty], List.Perm.refl _⟩

/-- Every row is that of the entry of an endpoint. -/
theorem exists_of_mem (h : Mirrors m rows) {row : StateRow} (hr : row ∈ rows) :
    ∃ e, m.get? e.endpoint = some e ∧ e.Sound ∧ row = StateRow.ofEntry e := by
  obtain ⟨⟨k, e⟩, hp, rfl⟩ := List.mem_map.mp (h.rows.mem_iff.mp hr)
  obtain rfl : e.endpoint = k := h.own _ hp
  exact ⟨e, OrderedMap.find?_of_mem h.sorted.keys_nodup hp, h.sound _ hp, rfl⟩

/-- The row that is found for an endpoint is that of its entry. -/
theorem find?_eq (h : Mirrors m rows) (endpoint : Address) :
    StateTable.find? endpoint.text rows = (m.get? endpoint).map StateRow.ofEntry := by
  cases hf : StateTable.find? endpoint.text rows with
  | some row =>
    obtain ⟨e, he, -, rfl⟩ := h.exists_of_mem (List.mem_of_find?_eq_some hf)
    have hend : e.endpoint = endpoint :=
      Address.text_injective (StateTable.endpoint_of_find? hf)
    rw [← hend, he]
    rfl
  | none =>
    cases hg : m.get? endpoint with
    | none => rfl
    | some e =>
      have hp : (endpoint, e) ∈ m.entries := OrderedMap.mem_of_find? hg
      have hrow : StateRow.ofEntry e ∈ rows := h.rows.mem_iff.mpr (List.mem_map.mpr ⟨_, hp, rfl⟩)
      have hend : (StateRow.ofEntry e).endpoint = endpoint.text :=
        congrArg Address.text (h.own _ hp)
      exact absurd (beq_iff_eq.mpr hend) (List.find?_eq_none.mp hf _ hrow)

theorem sound_of_get? (h : Mirrors m rows) {endpoint : Address} {e : StateEntry}
    (hg : m.get? endpoint = some e) : e.Sound := h.sound _ (OrderedMap.mem_of_find? hg)

theorem endpoint_of_get? (h : Mirrors m rows) {endpoint : Address} {e : StateEntry}
    (hg : m.get? endpoint = some e) : e.endpoint = endpoint := h.own _ (OrderedMap.mem_of_find? hg)

/-! ## Reading -/

theorem get_eq (h : Mirrors m rows) (endpoint : Address) :
    DesiredStore.get endpoint (⟨some rows⟩ : StateTable) = DesiredStore.get endpoint m := by
  show StateTable.get endpoint ⟨some rows⟩ = .ok (m.get? endpoint)
  rw [StateTable.get_some, h.find?_eq]
  cases hg : m.get? endpoint with
  | none => rfl
  | some e =>
    have hentry := StateRow.entry_of_entry? (StateRow.entry?_ofEntry (h.sound_of_get? hg))
    simp only [Option.map_some, hentry]
    rfl

theorem servers_eq (h : Mirrors m rows) (endpoint : Address) :
    DesiredStore.servers endpoint (⟨some rows⟩ : StateTable) = DesiredStore.servers endpoint m := by
  rw [DesiredStore.servers, h.get_eq, DesiredStore.servers]

theorem clients_eq (h : Mirrors m rows) (endpoint : Address) :
    DesiredStore.clients endpoint (⟨some rows⟩ : StateTable) = DesiredStore.clients endpoint m := by
  rw [DesiredStore.clients, h.get_eq, DesiredStore.clients]

theorem mapM_entry {rows : List StateRow} {f : StateRow → StateEntry}
    (h : ∀ row ∈ rows, row.entry? = some (f row)) :
    rows.mapM StateRow.entry = .ok (rows.map f) := by
  induction rows with
  | nil => rfl
  | cons row rows ih =>
    have hrow := StateRow.entry_of_entry? (h row List.mem_cons_self)
    rw [List.mapM_cons, hrow, ih fun r hr => h r (List.mem_cons_of_mem row hr)]
    rfl

theorem list_perm (h : Mirrors m rows) : ∃ es,
    DesiredStore.list (⟨some rows⟩ : StateTable) = .ok es ∧ m.entries.values.Perm es := by
  let f : StateRow → StateEntry := fun row => row.entry?.getD (.empty .loopback)
  refine ⟨rows.map f, ?_, ?_⟩
  · show rows.mapM StateRow.entry = _
    refine mapM_entry fun row hr => ?_
    obtain ⟨e, -, he, rfl⟩ := h.exists_of_mem hr
    simp only [f, StateRow.entry?_ofEntry he, Option.getD_some]
  · have himage : (imageOf m.entries).map f = m.entries.values := by
      rw [imageOf, List.map_map]
      refine List.map_congr_left fun p hp => ?_
      simp only [f, Function.comp_apply, StateRow.entry?_ofEntry (h.sound p hp), Option.getD_some]
    rw [← himage]
    exact (h.rows.map f).symm

/-! ## Writing -/

/-- Rewriting one row is setting one entry. -/
theorem replace_perm (h : Mirrors m rows) {endpoint : Address} {old e : StateEntry}
    (hg : m.get? endpoint = some old) (he : e.endpoint = endpoint) :
    (StateTable.replace (.ofEntry e) rows).Perm (imageOf (m.entries.insert endpoint e)) := by
  have himage : imageOf (m.entries.insert endpoint e) =
      StateTable.replace (.ofEntry e) (imageOf m.entries) := by
    rw [OrderedMap.insert_of_find?_some h.sorted hg, StateTable.replace, imageOf, imageOf,
      List.map_map, List.map_map]
    refine List.map_congr_left fun p hp => ?_
    have hp' := h.own p hp
    by_cases hk : p.1 = endpoint
    · simp [StateRow.ofEntry, hp', hk, he]
    · have htext : p.1.text ≠ endpoint.text := fun ht => hk (Address.text_injective ht)
      simp [StateRow.ofEntry, hp', hk, he, htext]
  rw [himage]
  exact h.rows.map _

/-- Rows for the entries with one of them set are an image again. -/
theorem insert (h : Mirrors m rows) {endpoint : Address} {e : StateEntry}
    (he : e.endpoint = endpoint) (hs : e.Sound) {rows' : List StateRow}
    (hrows : rows'.Perm (imageOf (m.entries.insert endpoint e))) :
    Mirrors ⟨m.entries.insert endpoint e⟩ rows' where
  sorted := h.sorted.insert endpoint e
  own := by
    intro p hp
    rcases OrderedMap.mem_insert p hp with rfl | hp
    · exact he
    · exact h.own p hp
  sound := by
    intro p hp
    rcases OrderedMap.mem_insert p hp with rfl | hp
    · exact hs
    · exact h.sound p hp
  rows := hrows

/-- An update is accepted by both and leaves one the image of the other. -/
theorem apply (h : Mirrors m rows) {u : StateUpdate} (hu : u.Sound) :
    ∃ rows', DesiredStore.apply u (⟨some rows⟩ : StateTable) = (.ok (), ⟨some rows'⟩) ∧
      Mirrors (DesiredStore.apply u m).2 rows' := by
  have htransact := @StateTable.transact_none u.endpoint u.servers u.clients rows
  have hmemory : (DesiredStore.apply u m).2 = ⟨m.entries.insert u.endpoint
      (((m.get? u.endpoint).getD (.empty u.endpoint)).merge u.servers u.clients)⟩ := rfl
  rw [h.find?_eq] at htransact
  rw [hmemory]
  cases hg : m.get? u.endpoint with
  | none =>
    rw [hg] at htransact
    -- The row comes last, wherever the order of keys puts the entry.
    refine ⟨_, StateTable.apply_of_transact htransact,
      h.insert rfl ((StateEntry.sound_empty u.endpoint).merge hu) ?_⟩
    have hins := OrderedMap.insert_perm_of_find?_none hg
      ((StateEntry.empty u.endpoint).merge u.servers u.clients)
    refine ((h.rows.append_right _).trans List.perm_append_comm).trans ?_
    exact (hins.map fun p => StateRow.ofEntry p.2).symm
  | some old =>
    have hold := h.sound_of_get? hg
    have hold' := h.endpoint_of_get? hg
    have hend : (old.merge u.servers u.clients).endpoint = u.endpoint := hold'
    have hentry := StateRow.entry_of_entry? (StateRow.entry?_ofEntry hold)
    have hrows := h.replace_perm hg hend
    rw [hg] at htransact
    simp only [Option.map_some, hentry] at htransact
    exact ⟨_, StateTable.apply_of_transact htransact, h.insert hend (hold.merge hu) hrows⟩

/-- Taking the row of an endpoint out is erasing its entry. -/
theorem filter_perm (h : Mirrors m rows) (endpoint : Address) :
    (rows.filter fun row => !(row.endpoint == endpoint.text)).Perm
      (imageOf (m.entries.erase endpoint)) := by
  have himage : imageOf (m.entries.erase endpoint) =
      (imageOf m.entries).filter fun row => !(row.endpoint == endpoint.text) := by
    rw [imageOf, imageOf, List.filter_map, OrderedMap.erase]
    refine congrArg _ (List.filter_congr fun p hp => ?_)
    have hp' := h.own p hp
    by_cases hk : p.1 = endpoint
    · simp [StateRow.ofEntry, hp', hk]
    · have htext : p.1.text ≠ endpoint.text := fun ht => hk (Address.text_injective ht)
      simp [StateRow.ofEntry, hp', hk, htext]
  rw [himage]
  exact h.rows.filter _

theorem length_rows (h : Mirrors m rows) : rows.length = m.entries.length := by
  rw [h.rows.length_eq, imageOf, List.length_map]

/-- Deleting takes as many rows out as entries. -/
theorem delete (h : Mirrors m rows) (endpoint : Option Address) :
    ∃ rows', DesiredStore.delete endpoint (⟨some rows⟩ : StateTable) =
        ((DesiredStore.delete endpoint m).1, ⟨some rows'⟩) ∧
      Mirrors (DesiredStore.delete endpoint m).2 rows' := by
  cases endpoint with
  | none =>
    refine ⟨[], ?_, Mirrors.nil⟩
    show (Except.ok (rows.length - 0), (⟨some []⟩ : StateTable)) = (.ok m.entries.length, _)
    rw [h.length_rows]
    rfl
  | some endpoint =>
    have hkept := h.filter_perm endpoint
    have hlength := OrderedMap.length_erase h.sorted.keys_nodup endpoint
    refine ⟨rows.filter fun row => !(row.endpoint == endpoint.text), ?_, h.sorted.erase endpoint,
      fun p hp => h.own p (List.mem_filter.mp hp).1,
      fun p hp => h.sound p (List.mem_filter.mp hp).1, hkept⟩
    have hcount : rows.length - (rows.filter fun row => !(row.endpoint == endpoint.text)).length =
        (m.get? endpoint).toList.length := by
      rw [hkept.length_eq, imageOf, List.length_map, h.length_rows, ← hlength, MemoryState.get?]
      omega
    show (Except.ok (rows.length - _), (⟨some _⟩ : StateTable)) = (.ok _, _)
    rw [hcount]
    rfl

end Mirrors

/-! ## Runs of both -/

theorem StateAnswer.agrees_refl (a : StateAnswer) : a.Agrees a := by
  unfold Agrees
  split
  · exact List.Perm.refl _
  · rfl

namespace StateCall

/-- A call is answered alike, and leaves the rows the image of the entries. -/
theorem run_mirrors {m : MemoryState} {rows : List StateRow} (h : Mirrors m rows) {c : StateCall}
    (hc : c.Sound) :
    ∃ rows', (c.run StateTable.create ⟨some rows⟩).2 = ⟨some rows'⟩ ∧
      Mirrors (c.run id m).2 rows' ∧
      StateAnswer.Agrees (c.run id m).1 (c.run StateTable.create ⟨some rows⟩).1 := by
  cases c with
  | update u =>
    obtain ⟨rows', hrun, hm⟩ := h.apply hc
    refine ⟨rows', by rw [run, hrun], hm, ?_⟩
    show StateAnswer.Agrees _ (.updated (DesiredStore.apply u _).1)
    rw [hrun]
    exact StateAnswer.agrees_refl _
  | get endpoint =>
    refine ⟨rows, rfl, h, ?_⟩
    rw [run, run, h.get_eq]
    exact StateAnswer.agrees_refl _
  | servers endpoint =>
    refine ⟨rows, rfl, h, ?_⟩
    rw [run, run, h.servers_eq]
    exact StateAnswer.agrees_refl _
  | clients endpoint =>
    refine ⟨rows, rfl, h, ?_⟩
    rw [run, run, h.clients_eq]
    exact StateAnswer.agrees_refl _
  | list =>
    obtain ⟨es, hlist, hperm⟩ := h.list_perm
    refine ⟨rows, rfl, h, ?_⟩
    rw [run, run, hlist]
    exact hperm
  | delete endpoint =>
    obtain ⟨rows', hrun, hm⟩ := h.delete endpoint
    refine ⟨rows', by rw [run, hrun], hm, ?_⟩
    rw [run, run, hrun]
    exact StateAnswer.agrees_refl _
  | reopen => exact ⟨rows, rfl, h, StateAnswer.agrees_refl _⟩

theorem answers_mirrors {m : MemoryState} {rows : List StateRow} (h : Mirrors m rows)
    {calls : List StateCall} (hcalls : ∀ c ∈ calls, c.Sound) :
    List.Forall₂ StateAnswer.Agrees (answers id calls m)
      (answers StateTable.create calls ⟨some rows⟩) := by
  induction calls generalizing m rows with
  | nil => exact List.Forall₂.nil
  | cons c calls ih =>
    obtain ⟨rows', hstate, hm, hagree⟩ := run_mirrors h (hcalls c List.mem_cons_self)
    rw [answers, answers, hstate]
    exact List.Forall₂.cons hagree (ih hm fun d hd => hcalls d (List.mem_cons_of_mem c hd))

/-- Every run from nothing is answered alike by the map in memory and by the table, however often
the table is opened again in between. -/
theorem table_refines_memory (calls : List StateCall) (hcalls : ∀ c ∈ calls, c.Sound) :
    List.Forall₂ StateAnswer.Agrees (answers id calls MemoryState.empty)
      (answers StateTable.create calls StateTable.empty) :=
  answers_mirrors Mirrors.nil hcalls

/-- A run that writes, opens the table again, asks for what was written and deletes it. -/
def loopbackRun : List StateCall :=
  [.update ⟨.loopback, [⟨.tcp, 80⟩], []⟩, .reopen, .servers .loopback, .delete (some .loopback),
    .reopen, .delete none, .clients .loopback]

theorem table_refines_memory_loopback :
    List.Forall₂ StateAnswer.Agrees
      [.updated (.ok ()), .reopened, .servers (.ok [⟨.tcp, 80⟩]), .removed (.ok 1), .reopened,
        .removed (.ok 0), .clients (.ok [])]
      (answers StateTable.create loopbackRun StateTable.empty) := by
  refine table_refines_memory loopbackRun fun c hc => ?_
  simp only [loopbackRun, List.mem_cons, List.not_mem_nil, or_false] at hc
  rcases hc with rfl | rfl | rfl | rfl | rfl | rfl | rfl
  · exact ⟨by decide, by simp⟩
  all_goals exact trivial

end StateCall

end PolicyProbe
