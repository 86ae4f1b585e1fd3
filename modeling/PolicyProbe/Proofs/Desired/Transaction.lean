import Mathlib.Data.List.Basic
import PolicyProbe.Desired.Transaction
import PolicyProbe.Proofs.Desired.Lawful

/-!
An update of the table is atomic. Statement by statement it is the same as the update that runs
(`carryOut_eq`), and up to the commit no exit changes what is committed (`Uncommitted`). So whatever
the rows hold and wherever an update stops, it either puts the merged entry into the row of its
endpoint and leaves the other rows alone, or it fails and leaves all of them alone (`Carried`). A
row that cannot be decoded is in the way of its own endpoint and of the list (`Confines`), and
deleting the endpoint makes it usable again (`Mends`).
-/
namespace PolicyProbe

namespace Transaction

variable {α β : Type} (fault : Option TransactionStep)

/-! ## Statements -/

theorem run_look (answer : StateTable → Except StorageError α) (c : Connection) :
    (look answer).run c = (answer c.seen, c) := rfl

theorem run_change (f : Connection → Connection) (c : Connection) :
    (change f).run c = (.ok (), f c) := rfl

theorem run_attempt (current : TransactionStep) (e : StorageError) (c : Connection) :
    (attempt fault current e).run c = (StateTable.step fault current e, c) := rfl

theorem run_bind (x : Work α) (f : α → Work β) (c : Connection) :
    (x >>= f).run c = match x.run c with
      | (.ok a, c') => (f a).run c'
      | (.error e, c') => (.error e, c') := by
  show (ExceptT.bindCont f (x.run c).1).run (x.run c).2 = _
  rcases x.run c with ⟨answer, c'⟩
  cases answer <;> rfl

theorem run_read (endpoint : String) (c : Connection) :
    (read fault endpoint).run c =
      (do StateTable.step fault .read .readFailed
          return StateTable.find? endpoint (← c.seen.rows .readFailed), c) := by
  rw [read, run_bind, run_attempt]
  cases StateTable.step fault .read .readFailed <;> rfl

theorem run_encode (endpoint : String) (e : StateEntry) (c : Connection) :
    (encode fault endpoint e).run c =
      (do StateTable.encoding fault
          return ⟨endpoint, e.serversJson.text, e.clientsJson.text⟩, c) := by
  rw [encode, run_bind, run_attempt, StateTable.encoding]
  cases StateTable.step fault .encodeServers .writeFailed with
  | error e => rfl
  | ok _ =>
    dsimp only
    rw [run_bind, run_attempt]
    cases StateTable.step fault .encodeClients .writeFailed <;> rfl

theorem run_commit (c : Connection) :
    (commit fault).run c = match StateTable.step fault .commit .writeFailed with
      | .ok _ => (.ok (), .on c.seen)
      | .error e => (.error e, c) := by
  rw [commit, run_bind, run_attempt]
  cases StateTable.step fault .commit .writeFailed <;> rfl

theorem run_write (f : List StateRow → List StateRow) (c : Connection) :
    (write fault f).run c = match StateTable.step fault .write .writeFailed with
      | .ok _ => (.ok (), { c with opened := some ⟨c.seen.rows?.map f⟩ })
      | .error e => (.error e, c) := by
  rw [write, run_bind, run_attempt]
  cases StateTable.step fault .write .writeFailed <;> rfl

theorem run_put (u : StateUpdate) (found : Option StateRow) (t : StateTable)
    (rows : List StateRow) :
    (put fault u found).run ⟨t, some ⟨some rows⟩⟩ =
      match StateTable.written fault u.endpoint u.servers u.clients rows found with
      | .ok rows' => (.ok (), ⟨t, some ⟨some rows'⟩⟩)
      | .error e => (.error e, ⟨t, some ⟨some rows⟩⟩) := by
  cases found with
  | none =>
    simp only [put, run_bind, run_encode, run_write, StateTable.written]
    cases StateTable.encoding fault with
    | error e => rfl
    | ok _ => cases StateTable.step fault .write .writeFailed <;> rfl
  | some row =>
    simp only [put, decode, run_bind, run_look, run_encode, run_write, StateTable.written]
    cases row.entry with
    | error e => rfl
    | ok old =>
      cases StateTable.encoding fault with
      | error e => rfl
      | ok _ => cases StateTable.step fault .write .writeFailed <;> rfl

/-- An update that is carried out statement by statement is an update of the table. -/
theorem carryOut_eq (u : StateUpdate) (t : StateTable) :
    carryOut fault u t = t.update fault u.endpoint u.servers u.clients := by
  obtain ⟨rows?⟩ := t
  rw [carryOut, merge, prepare, StateTable.update, StateTable.transact, begin]
  simp only [run_bind, run_attempt, run_change, run_read, run_commit]
  cases StateTable.step fault .begin .writeFailed with
  | error e => rfl
  | ok _ =>
    cases StateTable.step fault .read .readFailed with
    | error e => rfl
    | ok _ =>
      cases rows? with
      | none => rfl
      | some rows =>
        have hput := run_put fault u (StateTable.find? u.endpoint.text rows) ⟨some rows⟩ rows
        simp only [Connection.on, Connection.seen, StateTable.rows, bind, Except.bind, pure,
          Except.pure, Option.getD_some, hput]
        cases StateTable.written fault u.endpoint u.servers u.clients rows
          (StateTable.find? u.endpoint.text rows) with
        | error e => rfl
        | ok rows' => cases StateTable.step fault .commit .writeFailed <;> rfl

/-! ## What is committed -/

/-- Work that leaves what is committed as it was, whether it fails or not. -/
def Uncommitted (x : Work α) : Prop := ∀ c, (x.run c).2.committed = c.committed

theorem uncommitted_look (answer : StateTable → Except StorageError α) :
    Uncommitted (look answer) := fun _ => rfl

theorem uncommitted_change {f : Connection → Connection}
    (hf : ∀ c, (f c).committed = c.committed) : Uncommitted (change f) := hf

theorem Uncommitted.bind {x : Work α} {f : α → Work β} (hx : Uncommitted x)
    (hf : ∀ a, Uncommitted (f a)) : Uncommitted (x >>= f) := by
  intro c
  have hfirst := hx c
  rw [run_bind]
  rcases hrun : x.run c with ⟨answer, c'⟩
  rw [hrun] at hfirst
  cases answer with
  | error e => exact hfirst
  | ok a => exact (hf a c').trans hfirst

theorem uncommitted_attempt (current : TransactionStep) (e : StorageError) :
    Uncommitted (attempt fault current e) := uncommitted_look _

theorem uncommitted_write (f : List StateRow → List StateRow) : Uncommitted (write fault f) :=
  (uncommitted_attempt fault _ _).bind fun _ => uncommitted_change fun _ => rfl

theorem uncommitted_encode (endpoint : String) (e : StateEntry) :
    Uncommitted (encode fault endpoint e) := by
  refine (uncommitted_attempt fault _ _).bind fun _ => ?_
  exact (uncommitted_attempt fault _ _).bind fun _ _ => rfl

theorem uncommitted_put (u : StateUpdate) (found : Option StateRow) :
    Uncommitted (put fault u found) := by
  cases found with
  | some row =>
    refine (uncommitted_look _).bind fun old => ?_
    exact (uncommitted_encode fault _ _).bind fun new => uncommitted_write fault _
  | none => exact (uncommitted_encode fault _ _).bind fun new => uncommitted_write fault _

/-- Up to the commit, every exit leaves what is committed as it was. -/
theorem uncommitted_prepare (u : StateUpdate) : Uncommitted (prepare fault u) := by
  have hbegin : Uncommitted (begin fault) :=
    (uncommitted_attempt fault _ _).bind fun _ => uncommitted_change fun _ => rfl
  have hread : Uncommitted (read fault u.endpoint.text) :=
    (uncommitted_attempt fault _ _).bind fun _ => uncommitted_look _
  exact hbegin.bind fun _ => hread.bind fun found => uncommitted_put fault u found

/-- An update that is refused leaves the table as it was: so do the steps before the commit, and a
commit that is refused does nothing. -/
theorem carryOut_refused {u : StateUpdate} {t : StateTable} {e : StorageError}
    (h : (carryOut fault u t).1 = .error e) : (carryOut fault u t).2 = t := by
  have hprepared := uncommitted_prepare fault u (.on t)
  rw [carryOut, merge, run_bind] at h ⊢
  rcases hrun : (prepare fault u).run (.on t) with ⟨answer, c⟩
  rw [hrun] at hprepared h
  cases answer with
  | error e => exact hprepared
  | ok _ =>
    simp only [run_commit] at h ⊢
    cases hcommit : StateTable.step fault .commit .writeFailed with
    | error e => exact hprepared
    | ok _ =>
      rw [hcommit] at h
      cases h

end Transaction

namespace StateTable

/-! ## Rows -/

/-- Whether there is one row for each endpoint, as the key of the table asks. -/
def Keyed (rows : List StateRow) : Prop := (rows.map StateRow.endpoint).Nodup

/-- Whether the row of an endpoint cannot be decoded. -/
def Damaged (endpoint : Address) (rows : List StateRow) : Prop :=
  ∃ row ∈ rows, row.endpoint = endpoint.text ∧ row.entry? = none

theorem not_mem_of_keyed {row : StateRow} {rows : List StateRow} (h : Keyed (row :: rows)) :
    ∀ r ∈ rows, r.endpoint ≠ row.endpoint := by
  rw [Keyed, List.map_cons, List.nodup_cons] at h
  exact fun r hr he => h.1 (he ▸ List.mem_map_of_mem hr)

theorem find?_of_mem {rows : List StateRow} (h : Keyed rows) {row : StateRow} (hrow : row ∈ rows) :
    find? row.endpoint rows = some row := by
  induction rows with
  | nil => exact absurd hrow List.not_mem_nil
  | cons r rows ih =>
    rcases List.mem_cons.mp hrow with rfl | hmem
    · simp [find?]
    · have hne := not_mem_of_keyed h row hmem
      have hrest := ih (List.nodup_cons.mp h).2 hmem
      rwa [find?, List.find?_cons_of_neg (by simpa using hne.symm)]

theorem damaged_iff {rows : List StateRow} (h : Keyed rows) (endpoint : Address) :
    Damaged endpoint rows ↔ ∃ row, find? endpoint.text rows = some row ∧ row.entry? = none := by
  constructor
  · rintro ⟨row, hrow, hend, hentry⟩
    exact ⟨row, hend ▸ find?_of_mem h hrow, hentry⟩
  · rintro ⟨row, hfind, hentry⟩
    exact ⟨row, List.mem_of_find?_eq_some hfind, endpoint_of_find? hfind, hentry⟩

/-- The rows of other endpoints. -/
def others (endpoint : String) (rows : List StateRow) : List StateRow :=
  rows.filter fun row => !(row.endpoint == endpoint)

/-- The rows of an endpoint. -/
def own (endpoint : String) (rows : List StateRow) : List StateRow :=
  rows.filter (·.endpoint == endpoint)

theorem own_of_find? {rows : List StateRow} (h : Keyed rows) {endpoint : String} {row : StateRow}
    (hfind : find? endpoint rows = some row) : own endpoint rows = [row] := by
  induction rows with
  | nil => exact nomatch hfind
  | cons r rows ih =>
    by_cases hr : r.endpoint = endpoint
    · rw [find?, List.find?_cons_of_pos (by simpa using hr)] at hfind
      obtain rfl := Option.some.inj hfind
      have hrest : own endpoint rows = [] := by
        refine List.filter_eq_nil_iff.mpr fun r' hr' => ?_
        simpa [← hr] using not_mem_of_keyed h r' hr'
      rw [own, List.filter_cons_of_pos (by simpa using hr)]
      exact congrArg (r :: ·) hrest
    · rw [find?, List.find?_cons_of_neg (by simpa using hr)] at hfind
      rw [own, List.filter_cons_of_neg (by simpa using hr)]
      exact ih (List.nodup_cons.mp h).2 hfind

theorem map_endpoint_replace (new : StateRow) (rows : List StateRow) :
    (replace new rows).map StateRow.endpoint = rows.map StateRow.endpoint := by
  rw [replace, List.map_map]
  refine List.map_congr_left fun r _ => ?_
  by_cases hr : r.endpoint = new.endpoint <;> simp [hr]

theorem others_replace (new : StateRow) (rows : List StateRow) :
    others new.endpoint (replace new rows) = others new.endpoint rows := by
  induction rows with
  | nil => rfl
  | cons r rows ih =>
    rw [others, others, replace, List.map_cons] at *
    by_cases hr : r.endpoint = new.endpoint
    · simpa [hr] using ih
    · simpa [hr] using ih

theorem others_append {endpoint : String} {new : StateRow} (hnew : new.endpoint = endpoint)
    (rows : List StateRow) : others endpoint (rows ++ [new]) = others endpoint rows := by
  rw [others, List.filter_append, List.filter_cons_of_neg (by simp [hnew]), List.filter_nil,
    List.append_nil, others]

theorem find?_others (endpoint : String) (rows : List StateRow) :
    find? endpoint (others endpoint rows) = none := by
  refine List.find?_eq_none.mpr fun row hrow => ?_
  have hkept := (List.mem_filter.mp hrow).2
  simpa using hkept

theorem Keyed.others {rows : List StateRow} (h : Keyed rows) (endpoint : String) :
    Keyed (others endpoint rows) :=
  h.sublist (List.filter_sublist.map _)

theorem find?_append_self {endpoint : String} {new : StateRow} {rows : List StateRow}
    (hnew : new.endpoint = endpoint) (hfind : find? endpoint rows = none) :
    find? endpoint (rows ++ [new]) = some new := by
  rw [find?] at hfind
  rw [find?, List.find?_append, hfind, Option.none_or]
  simp [hnew]

theorem Keyed.append {rows : List StateRow} (h : Keyed rows) {new : StateRow}
    (hfind : find? new.endpoint rows = none) : Keyed (rows ++ [new]) := by
  rw [Keyed, List.map_append, List.nodup_append]
  refine ⟨h, by simp, fun a ha b hb => ?_⟩
  obtain ⟨row, hrow, rfl⟩ := List.mem_map.mp ha
  rw [List.map_singleton, List.mem_singleton] at hb
  subst hb
  simpa using List.find?_eq_none.mp hfind row hrow

/-! ## One update -/

/-- What an update that is carried out on some rows comes to: either the row of its endpoint holds
what is merged into the entry that it held, and all other rows are the same, or all rows are. -/
inductive Carried (u : StateUpdate) (rows : List StateRow) :
    Except StorageError Unit × StateTable → Prop where
  | merged {old : Option StateEntry} {new : StateRow} {rows' : List StateRow}
      (hold : get u.endpoint ⟨some rows⟩ = .ok old)
      (hnew : new.entry? = some ((old.getD (.empty u.endpoint)).merge u.servers u.clients))
      (hown : own u.endpoint.text rows' = [new])
      (hothers : others u.endpoint.text rows' = others u.endpoint.text rows)
      (hkeyed : Keyed rows') : Carried u rows (.ok (), ⟨some rows'⟩)
  | refused (e : StorageError) : Carried u rows (.error e, ⟨some rows⟩)

theorem carried_apply {rows : List StateRow} (h : Keyed rows) {u : StateUpdate} (hu : u.Sound) :
    Carried u rows (DesiredStore.apply u (⟨some rows⟩ : StateTable)) := by
  have htransact := @transact_none u.endpoint u.servers u.clients rows
  have hget := get_some u.endpoint rows
  cases hf : find? u.endpoint.text rows with
  | none =>
    rw [hf] at htransact hget
    rw [apply_of_transact htransact]
    refine .merged hget (StateRow.entry?_ofEntry ((StateEntry.sound_empty u.endpoint).merge hu))
      ?_ (others_append (by rfl) rows) (h.append hf)
    exact own_of_find? (h.append hf) (find?_append_self rfl hf)
  | some row =>
    rw [hf] at htransact hget
    dsimp only at htransact hget
    cases he : row.entry with
    | error e =>
      rw [he] at htransact
      rw [apply_of_transact_error htransact]
      exact .refused e
    | ok old =>
      rw [he] at htransact hget
      rw [apply_of_transact htransact]
      have he? := StateRow.entry?_of_entry he
      have hrow := endpoint_of_find? hf
      -- The row keeps its endpoint, so the rows keep theirs.
      let new := rewritten row (old.merge u.servers u.clients)
      have hself : find? new.endpoint (replace new rows) = some new :=
        @find?_replace_self new row rows (by rw [← hf, ← hrow]; rfl)
      have hkeyed : Keyed (replace new rows) := by
        rw [Keyed, map_endpoint_replace]
        exact h
      have hend : old.endpoint = u.endpoint := endpoint_of_entry? hf he?
      have hnew : new.entry? = some (old.merge u.servers u.clients) :=
        entry?_rewritten ((StateRow.sound_of_entry? he?).merge hu) hrow hend
      refine .merged hget hnew ?_ ?_ hkeyed
      · rw [← hrow]
        exact own_of_find? hkeyed hself
      · rw [← hrow]
        exact others_replace new rows

theorem apply_of_damaged {rows : List StateRow} (h : Keyed rows) {u : StateUpdate}
    (hdamaged : Damaged u.endpoint rows) :
    DesiredStore.apply u (⟨some rows⟩ : StateTable) = (.error .readFailed, ⟨some rows⟩) := by
  obtain ⟨row, hfind, hentry⟩ := (damaged_iff h u.endpoint).mp hdamaged
  refine apply_of_transact_error ?_
  rw [transact_none, hfind]
  simp only [StateRow.entry, hentry]
  rfl

theorem apply_of_intact {rows : List StateRow} (h : Keyed rows) {u : StateUpdate}
    (hintact : ¬Damaged u.endpoint rows) :
    (DesiredStore.apply u (⟨some rows⟩ : StateTable)).1 = .ok () := by
  have htransact := @transact_none u.endpoint u.servers u.clients rows
  cases hfind : find? u.endpoint.text rows with
  | none =>
    rw [hfind] at htransact
    rw [apply_of_transact htransact]
  | some row =>
    cases hentry : row.entry? with
    | none => exact absurd ((damaged_iff h u.endpoint).mpr ⟨row, hfind, hentry⟩) hintact
    | some old =>
      rw [hfind] at htransact
      simp only [StateRow.entry_of_entry? hentry] at htransact
      rw [apply_of_transact htransact]

/-! ## Damaged rows -/

/-- A damaged row makes reads and updates of its own endpoint fail, and so does any row that does
not decode with the list of all entries. Nothing else fails. -/
structure Confines (rows : List StateRow) : Prop where
  refusesRead : ∀ endpoint, Damaged endpoint rows →
    get endpoint ⟨some rows⟩ = .error .readFailed
  reads : ∀ endpoint, ¬Damaged endpoint rows → ∃ found, get endpoint ⟨some rows⟩ = .ok found
  refusesUpdate : ∀ u : StateUpdate, Damaged u.endpoint rows →
    DesiredStore.apply u (⟨some rows⟩ : StateTable) = (.error .readFailed, ⟨some rows⟩)
  updates : ∀ u : StateUpdate, ¬Damaged u.endpoint rows →
    (DesiredStore.apply u (⟨some rows⟩ : StateTable)).1 = .ok ()
  refusesList : (∃ row ∈ rows, row.entry? = none) → list ⟨some rows⟩ = .error .readFailed
  lists : (∀ row ∈ rows, row.entry? ≠ none) → ∃ entries, list ⟨some rows⟩ = .ok entries
  deletes : ∀ which, ∃ n, (delete which ⟨some rows⟩).1 = .ok n

theorem mapM_entry_of_none {rows : List StateRow} (h : ∃ row ∈ rows, row.entry? = none) :
    rows.mapM StateRow.entry = .error .readFailed := by
  induction rows with
  | nil => simp at h
  | cons r rows ih =>
    rw [List.mapM_cons]
    cases hr : r.entry? with
    | none =>
      rw [StateRow.entry, hr]
      rfl
    | some e =>
      obtain ⟨row, hrow, hentry⟩ := h
      have hrest : row ∈ rows := by
        refine (List.mem_cons.mp hrow).resolve_left fun heq => ?_
        rw [← heq, hentry] at hr
        cases hr
      rw [StateRow.entry_of_entry? hr, ih ⟨row, hrest, hentry⟩]
      rfl

theorem mapM_entry_of_some {rows : List StateRow} (h : ∀ row ∈ rows, row.entry? ≠ none) :
    ∃ entries, rows.mapM StateRow.entry = .ok entries := by
  induction rows with
  | nil => exact ⟨[], rfl⟩
  | cons r rows ih =>
    obtain ⟨e, he⟩ := Option.ne_none_iff_exists'.mp (h r List.mem_cons_self)
    obtain ⟨entries, hentries⟩ := ih fun row hrow => h row (List.mem_cons_of_mem r hrow)
    refine ⟨e :: entries, ?_⟩
    rw [List.mapM_cons, StateRow.entry_of_entry? he, hentries]
    rfl

theorem confines {rows : List StateRow} (h : Keyed rows) : Confines rows where
  refusesRead := by
    intro endpoint hdamaged
    obtain ⟨row, hfind, hentry⟩ := (damaged_iff h endpoint).mp hdamaged
    rw [get_some, hfind]
    simp only [StateRow.entry, hentry]
    rfl
  reads := by
    intro endpoint hintact
    rw [get_some]
    cases hfind : find? endpoint.text rows with
    | none => exact ⟨none, rfl⟩
    | some row =>
      cases hentry : row.entry? with
      | none => exact absurd ((damaged_iff h endpoint).mpr ⟨row, hfind, hentry⟩) hintact
      | some e =>
        simp only [StateRow.entry_of_entry? hentry]
        exact ⟨some e, rfl⟩
  refusesUpdate := fun _ => apply_of_damaged h
  updates := fun _ => apply_of_intact h
  refusesList := mapM_entry_of_none
  lists := mapM_entry_of_some
  deletes := fun _ => ⟨_, rfl⟩

/-- Deleting an endpoint takes its row away, decodable or not, and no other; from then on the
endpoint is read and updated as one that was never written. -/
structure Mends (endpoint : Address) (rows : List StateRow) : Prop where
  deletes : delete (some endpoint) ⟨some rows⟩ =
    (.ok (own endpoint.text rows).length, ⟨some (others endpoint.text rows)⟩)
  reads : get endpoint (delete (some endpoint) ⟨some rows⟩).2 = .ok none
  updates : ∀ u : StateUpdate, u.Sound → u.endpoint = endpoint →
    (DesiredStore.apply u (delete (some endpoint) ⟨some rows⟩).2).1 = .ok () ∧
      get endpoint (DesiredStore.apply u (delete (some endpoint) ⟨some rows⟩).2).2 =
        .ok (some ((StateEntry.empty endpoint).merge u.servers u.clients))

theorem delete_eq (endpoint : Address) (rows : List StateRow) :
    delete (some endpoint) ⟨some rows⟩ =
      (.ok (own endpoint.text rows).length, ⟨some (others endpoint.text rows)⟩) := by
  have hsplit : rows.length = (own endpoint.text rows).length +
      (others endpoint.text rows).length :=
    List.length_eq_length_filter_add _
  show (Except.ok (rows.length - (others endpoint.text rows).length), _) = _
  rw [hsplit, Nat.add_sub_cancel]
  rfl

theorem mends {rows : List StateRow} (h : Keyed rows) (endpoint : Address) :
    Mends endpoint rows := by
  have hread : get endpoint ⟨some (others endpoint.text rows)⟩ = .ok none := by
    rw [get_some, find?_others]
  refine ⟨delete_eq endpoint rows, by rw [delete_eq, hread], ?_⟩
  rintro u hu rfl
  rw [delete_eq]
  have hintact : ¬Damaged u.endpoint (others u.endpoint.text rows) := by
    rintro hdamaged
    obtain ⟨row, hfind, -⟩ := (damaged_iff (h.others _) u.endpoint).mp hdamaged
    rw [find?_others] at hfind
    cases hfind
  have hok := apply_of_intact (h.others _) hintact
  obtain ⟨old, hold, hnew⟩ := LawfulStore.get_apply hu hok
  obtain rfl : none = old := Except.ok.inj (hread.symm.trans hold)
  exact ⟨hok, hnew⟩

/-! ## Steps that are refused -/

theorem written_faulted {refused : TransactionStep}
    (h : refused = .encodeServers ∨ refused = .encodeClients ∨ refused = .write)
    (endpoint : Address) (servers : List ServerEntry) (clients : List ClientEntry)
    (rows : List StateRow) (found : Option StateRow) :
    ∃ e, written (some refused) endpoint servers clients rows found = .error e := by
  cases found with
  | none => rcases h with rfl | rfl | rfl <;> exact ⟨_, rfl⟩
  | some row =>
    rw [written]
    cases row.entry with
    | error e => exact ⟨e, rfl⟩
    | ok old => rcases h with rfl | rfl | rfl <;> exact ⟨_, rfl⟩

theorem transact_faulted (refused : TransactionStep) (endpoint : Address)
    (servers : List ServerEntry) (clients : List ClientEntry) (t : StateTable) :
    ∃ e, transact (some refused) endpoint servers clients t = .error e := by
  obtain ⟨rows?⟩ := t
  rcases rows? with _ | rows
  · cases refused <;> exact ⟨_, rfl⟩
  -- Before the rows are read the failure is that of the step, after it that of what is written.
  have hwrite (h : refused = .encodeServers ∨ refused = .encodeClients ∨ refused = .write) :
      ∃ e, (do
        let result ← written (some refused) endpoint servers clients rows (find? endpoint.text rows)
        step (some refused) .commit .writeFailed
        return result) = Except.error e := by
    obtain ⟨e, he⟩ := written_faulted h endpoint servers clients rows (find? endpoint.text rows)
    exact ⟨e, by rw [he]; rfl⟩
  cases refused with
  | begin => exact ⟨_, rfl⟩
  | read => exact ⟨_, rfl⟩
  | encodeServers => exact hwrite (by simp)
  | encodeClients => exact hwrite (by simp)
  | write => exact hwrite (by simp)
  | commit =>
    show ∃ e, (written (some .commit) endpoint servers clients rows (find? endpoint.text rows) >>=
      fun _ => Except.error StorageError.writeFailed) = .error e
    cases written (some .commit) endpoint servers clients rows (find? endpoint.text rows) with
    | error e => exact ⟨e, rfl⟩
    | ok _ => exact ⟨_, rfl⟩

end StateTable

namespace Transaction

open StateTable

variable (fault : Option TransactionStep)

/-- A step that is refused makes the update fail. -/
theorem carryOut_faulted (refused : TransactionStep) (u : StateUpdate) (t : StateTable) :
    ∃ e, (carryOut (some refused) u t).1 = .error e := by
  obtain ⟨e, he⟩ := transact_faulted refused u.endpoint u.servers u.clients t
  rw [carryOut_eq, update, he]
  exact ⟨e, rfl⟩

theorem carried_carryOut {rows : List StateRow} (h : Keyed rows) {u : StateUpdate} (hu : u.Sound) :
    Carried u rows (carryOut fault u ⟨some rows⟩) := by
  cases fault with
  | none =>
    rw [carryOut_eq]
    exact carried_apply h hu
  | some refused =>
    obtain ⟨e, he⟩ := carryOut_faulted refused u ⟨some rows⟩
    have hsame := carryOut_refused _ he
    rw [← Prod.eta (carryOut _ u _), he, hsame]
    exact .refused e

theorem carryOut_ok_iff {rows : List StateRow} (h : Keyed rows) (u : StateUpdate) :
    (carryOut fault u ⟨some rows⟩).1 = .ok () ↔ fault = none ∧ ¬Damaged u.endpoint rows := by
  cases fault with
  | none =>
    rw [carryOut_eq]
    refine ⟨fun hok => ⟨rfl, fun hdamaged => ?_⟩, fun hintact => apply_of_intact h hintact.2⟩
    have hfail := congrArg Prod.fst (apply_of_damaged h hdamaged)
    exact absurd (hok.symm.trans hfail) (by simp)
  | some refused =>
    obtain ⟨e, he⟩ := carryOut_faulted refused u ⟨some rows⟩
    simp [he]

/-- An update is carried out as a whole or not at all, wherever it stops; a row that cannot be
decoded is in the way of its own endpoint only, until it is deleted. -/
theorem merge_atomic {rows : List StateRow} (hkeyed : Keyed rows) {u : StateUpdate} (hu : u.Sound) :
    carryOut fault u ⟨some rows⟩ = update fault u.endpoint u.servers u.clients ⟨some rows⟩ ∧
      Uncommitted (prepare fault u) ∧
      Carried u rows (carryOut fault u ⟨some rows⟩) ∧
      ((carryOut fault u ⟨some rows⟩).1 = .ok () ↔
        fault = none ∧ ¬Damaged u.endpoint rows) ∧
      Confines rows ∧ ∀ endpoint, Mends endpoint rows :=
  ⟨carryOut_eq fault u _, uncommitted_prepare fault u, carried_carryOut fault hkeyed hu,
    carryOut_ok_iff fault hkeyed u, confines hkeyed, mends hkeyed⟩

/-- A table with a damaged row. -/
def scarred : List StateRow :=
  [⟨"127.0.0.1", "spoilt", "[]"⟩, ⟨"10.0.0.2", "[]", "[]"⟩]

/-- A server asked for at the endpoint of the other row. -/
def nextDoor : StateUpdate := ⟨.v4 [10, 0, 0, 2] (by decide), [⟨.tcp, 80⟩], []⟩

theorem merge_atomic_scarred :
    Keyed scarred ∧ nextDoor.Sound ∧ Damaged .loopback scarred ∧
      Carried nextDoor scarred (carryOut none nextDoor ⟨some scarred⟩) ∧
      (carryOut none nextDoor ⟨some scarred⟩).1 = .ok () ∧
      get .loopback ⟨some scarred⟩ = .error .readFailed ∧ Mends .loopback scarred := by
  have hkeyed : Keyed scarred := by unfold Keyed; decide
  have hsound : nextDoor.Sound := ⟨by decide, by decide⟩
  have hdamaged : Damaged .loopback scarred :=
    ⟨_, List.mem_cons_self, by decide +kernel, by decide +kernel⟩
  have hintact : ¬Damaged nextDoor.endpoint scarred := by
    rw [damaged_iff hkeyed]
    rintro ⟨row, hfind, hentry⟩
    have hrow : find? nextDoor.endpoint.text scarred = some ⟨"10.0.0.2", "[]", "[]"⟩ := by
      decide +kernel
    obtain rfl := Option.some.inj (hrow.symm.trans hfind)
    exact absurd hentry (by decide +kernel)
  obtain ⟨-, -, hcarried, hok, hconfines, hmends⟩ := merge_atomic none hkeyed hsound
  exact ⟨hkeyed, hsound, hdamaged, hcarried, hok.mpr ⟨rfl, hintact⟩,
    hconfines.refusesRead _ hdamaged, hmends _⟩

end Transaction

end PolicyProbe

