import PolicyProbe.Proofs.Desired.Lawful

/-!
What a store of desired state holds, whether or not it answers. A store may refuse any write and any
read; a refused write changes no entry, an accepted update merges into one, deleting makes none, and
a read that is answered tells the entry that is held (`StoreContent`). Memory, the table, the choice
between the two and a store with limits are such stores, so what is shown of all of them is shown
for every pattern of failures.
-/
namespace PolicyProbe

/-- A store whose entries are known from it, whatever it answers. -/
class StoreContent (σ : Type) [DesiredStore σ] where
  held? : Address → σ → Option StateEntry
  read : ∀ {endpoint : Address} {s : σ} {found : Option StateEntry},
    DesiredStore.get endpoint s = .ok found → found = held? endpoint s
  merged : ∀ {u : StateUpdate} {s : σ}, u.Sound → (DesiredStore.apply u s).1 = .ok () →
    held? u.endpoint (DesiredStore.apply u s).2 =
      some (((held? u.endpoint s).getD (.empty u.endpoint)).merge u.servers u.clients)
  others : ∀ {u : StateUpdate} {s : σ} {endpoint : Address}, endpoint ≠ u.endpoint →
    held? endpoint (DesiredStore.apply u s).2 = held? endpoint s
  refused : ∀ {u : StateUpdate} {s : σ} {e : StorageError} (endpoint : Address),
    (DesiredStore.apply u s).1 = .error e →
      held? endpoint (DesiredStore.apply u s).2 = held? endpoint s
  deleted : ∀ {which : Option Address} {s : σ} {endpoint : Address} {entry : StateEntry},
    held? endpoint (DesiredStore.delete which s).2 = some entry → held? endpoint s = some entry
  readable : ∀ {u : StateUpdate} {s : σ} {endpoint : Address}, u.Sound →
    (DesiredStore.get endpoint s).isOk = true →
      (DesiredStore.get endpoint (DesiredStore.apply u s).2).isOk = true

namespace StoreContent

variable {σ : Type} [DesiredStore σ] [StoreContent σ]

/-- The servers that a store holds for an endpoint. -/
def servers (endpoint : Address) (s : σ) : List ServerEntry :=
  ((held? endpoint s).map (·.servers)).getD []

/-- The clients that a store holds for an endpoint. -/
def clients (endpoint : Address) (s : σ) : List ClientEntry :=
  ((held? endpoint s).map (·.clients)).getD []

theorem servers_read {endpoint : Address} {s : σ} {found : List ServerEntry}
    (h : DesiredStore.servers endpoint s = .ok found) : found = servers endpoint s := by
  rw [DesiredStore.servers] at h
  cases hget : DesiredStore.get endpoint s with
  | error e =>
    rw [hget] at h
    exact nomatch h
  | ok entry =>
    rw [hget] at h
    rw [servers, ← read hget]
    exact (Except.ok.inj h).symm

theorem clients_read {endpoint : Address} {s : σ} {found : List ClientEntry}
    (h : DesiredStore.clients endpoint s = .ok found) : found = clients endpoint s := by
  rw [DesiredStore.clients] at h
  cases hget : DesiredStore.get endpoint s with
  | error e =>
    rw [hget] at h
    exact nomatch h
  | ok entry =>
    rw [hget] at h
    rw [clients, ← read hget]
    exact (Except.ok.inj h).symm

/-- The servers of an endpoint are read when its entry is. -/
theorem exists_servers {endpoint : Address} {s : σ}
    (h : (DesiredStore.get endpoint s).isOk = true) :
    DesiredStore.servers endpoint s = .ok (servers endpoint s) := by
  cases hget : DesiredStore.get endpoint s with
  | error e =>
    rw [hget] at h
    exact nomatch h
  | ok entry =>
    rw [DesiredStore.servers, hget, servers, ← read hget]
    rfl

/-- An update of an endpoint leaves it with its entry as it was, or with what is merged into it. -/
theorem held?_apply {u : StateUpdate} (hu : u.Sound) (s : σ) (endpoint : Address) :
    held? endpoint (DesiredStore.apply u s).2 = held? endpoint s ∨
      endpoint = u.endpoint ∧ held? endpoint (DesiredStore.apply u s).2 =
        some (((held? endpoint s).getD (.empty endpoint)).merge u.servers u.clients) := by
  by_cases he : endpoint = u.endpoint
  · subst he
    cases happly : (DesiredStore.apply u s).1 with
    | error e => exact Or.inl (refused _ happly)
    | ok _ => exact Or.inr ⟨rfl, merged hu happly⟩
  · exact Or.inl (others he)

/-- All entries that a store holds are of some kind. -/
def EveryEntry (kind : Address → StateEntry → Prop) (s : σ) : Prop :=
  ∀ endpoint entry, held? endpoint s = some entry → kind endpoint entry

/-- Entries stay of a kind to which entries of that kind, and an empty one, are merged. -/
theorem EveryEntry.apply {kind : Address → StateEntry → Prop} {u : StateUpdate} {s : σ}
    (h : EveryEntry kind s) (hu : u.Sound)
    (hmerge : ∀ entry, entry = .empty u.endpoint ∨ kind u.endpoint entry →
      kind u.endpoint (entry.merge u.servers u.clients)) :
    EveryEntry kind (DesiredStore.apply u s).2 := by
  intro endpoint entry hentry
  rcases held?_apply hu s endpoint with hsame | ⟨rfl, hmerged⟩
  · exact h endpoint entry (hsame.symm.trans hentry)
  · rw [hmerged] at hentry
    obtain rfl := Option.some.inj hentry
    cases hheld : held? u.endpoint s with
    | none => exact hmerge _ (Or.inl rfl)
    | some old => exact hmerge old (Or.inr (h _ _ hheld))

/-- The ports of all that a store holds are below their bound. -/
def Ported (s : σ) : Prop := EveryEntry (fun _ entry => entry.Sound) s

theorem Ported.servers {s : σ} (h : Ported s) (endpoint : Address) :
    ∀ server ∈ servers endpoint s, server.port < portBound := by
  intro server hserver
  rw [StoreContent.servers] at hserver
  cases hheld : held? endpoint s with
  | none =>
    rw [hheld] at hserver
    exact absurd hserver List.not_mem_nil
  | some entry =>
    rw [hheld] at hserver
    exact (h endpoint entry hheld).servers server hserver

/-- The update that asks for one server. -/
theorem sound_server {server : ServerEntry} (hport : server.port < portBound)
    (endpoint : Address) : StateUpdate.Sound ⟨endpoint, [server], []⟩ :=
  ⟨by simpa using hport, by simp⟩

/-- A store that takes the update of a server holds that server besides those it held. -/
theorem mem_servers_apply {endpoint : Address} (server : ServerEntry)
    (hport : server.port < portBound) {s : σ}
    (hok : (DesiredStore.apply ⟨endpoint, [server], []⟩ s).1 = .ok ()) (e : Address) :
    server ∈ servers e (DesiredStore.apply ⟨endpoint, [server], []⟩ s).2 ↔
      server ∈ servers e s ∨ e = endpoint := by
  by_cases he : e = endpoint
  · subst he
    have hmem : ∀ entry : StateEntry, server ∈ (entry.merge [server] []).servers := by
      intro entry
      show server ∈ StateEntry.addServer entry.servers server
      rw [StateEntry.addServer]
      split
      · rename_i hold
        simpa using hold
      · exact List.mem_append_right _ (List.mem_singleton_self server)
    rw [servers, merged (sound_server hport e) hok]
    exact iff_of_true (hmem _) (Or.inr rfl)
  · rw [servers, others (u := ⟨endpoint, [server], []⟩) he, servers]
    exact ⟨Or.inl, fun h => h.resolve_right he⟩

/-- An update that asks for a server that is held changes nothing. -/
theorem held?_apply_held {endpoint : Address} {server : ServerEntry} {s : σ}
    (hport : server.port < portBound) (h : server ∈ servers endpoint s) (e : Address) :
    held? e (DesiredStore.apply ⟨endpoint, [server], []⟩ s).2 = held? e s := by
  rcases held?_apply (sound_server hport endpoint) s e with heq | ⟨rfl, heq⟩
  · exact heq
  · rw [heq]
    rw [servers] at h
    cases hentry : held? e s with
    | none =>
      rw [hentry] at h
      exact absurd h List.not_mem_nil
    | some entry =>
      rw [hentry] at h
      have hadded : StateEntry.addServer entry.servers server = entry.servers :=
        if_pos (by simpa using h)
      show some { entry with
        servers := StateEntry.addServer entry.servers server, clients := entry.clients } = _
      rw [hadded]

end StoreContent

/-! ## Memory -/

instance : StoreContent MemoryState where
  held? := MemoryState.get?
  read := fun h => (Except.ok.inj h).symm
  merged := fun _ _ => OrderedMap.find?_insert_self _ _ _
  others := fun h => OrderedMap.find?_insert_of_ne h _ _
  refused := fun _ h => nomatch h
  deleted := by
    intro which s endpoint entry h
    cases which with
    | none => exact nomatch h
    | some e =>
      by_cases he : endpoint = e
      · subst he
        have hnone := OrderedMap.find?_erase_self endpoint s.entries
        exact absurd (hnone.symm.trans h) (by nofun)
      · exact (OrderedMap.find?_erase_of_ne he s.entries).symm.trans h
  readable := fun _ _ => rfl

/-! ## The table -/

namespace StateTable

/-- The entry for which the row of an endpoint stands. -/
def held? (endpoint : Address) (t : StateTable) : Option StateEntry :=
  (find? endpoint.text (t.rows?.getD [])).bind StateRow.entry?

theorem held?_eq_of_find? {t t' : StateTable} {endpoint : Address}
    (h : find? endpoint.text (t'.rows?.getD []) = find? endpoint.text (t.rows?.getD [])) :
    t'.held? endpoint = t.held? endpoint := by
  rw [held?, h, held?]

theorem held?_of_get {endpoint : Address} {t : StateTable} {found : Option StateEntry}
    (h : get endpoint t = .ok found) : found = t.held? endpoint := by
  obtain ⟨rows?⟩ := t
  cases rows? with
  | none => exact nomatch h
  | some rows =>
    rw [get_some] at h
    show found = (find? endpoint.text rows).bind StateRow.entry?
    cases hf : find? endpoint.text rows with
    | none =>
      rw [hf] at h
      exact (Except.ok.inj h).symm
    | some row =>
      rw [hf] at h
      dsimp only at h
      cases he : row.entry with
      | error e =>
        rw [he] at h
        exact nomatch h
      | ok entry =>
        rw [he] at h
        rw [Option.bind_some, StateRow.entry?_of_entry he]
        exact (Except.ok.inj h).symm

/-- An update that is refused leaves the table as it was. -/
theorem apply_eq_error {u : StateUpdate} {t : StateTable} {e : StorageError}
    (h : (DesiredStore.apply u t).1 = .error e) : (DesiredStore.apply u t).2 = t := by
  cases htransact : transact none u.endpoint u.servers u.clients t with
  | ok rows =>
    rw [apply_of_transact htransact] at h
    cases h
  | error e => rw [apply_of_transact_error htransact]

theorem find?_filter_of_some {endpoint : String} {p : StateRow → Bool} {rows : List StateRow}
    {row : StateRow} (hp : ∀ r : StateRow, r.endpoint = endpoint → p r = p row)
    (h : find? endpoint (rows.filter p) = some row) : find? endpoint rows = some row := by
  have hkept : p row = true := (List.mem_filter.mp (List.mem_of_find?_eq_some h)).2
  have hsame : (fun r : StateRow => decide (p r = true ∧ (r.endpoint == endpoint) = true)) =
      (·.endpoint == endpoint) := by
    funext r
    by_cases hr : r.endpoint = endpoint
    · simp [hr, hp r hr, hkept]
    · simp [hr]
  rwa [find?, List.find?_filter, hsame] at h

instance : StoreContent StateTable where
  held? := held?
  read := held?_of_get
  merged := by
    intro u t hu hok
    obtain ⟨old, hold, hnew⟩ := LawfulStore.get_apply hu hok
    rw [← held?_of_get hold, ← held?_of_get hnew]
  others := by
    intro u t endpoint hne
    have htext : u.endpoint.text ≠ endpoint.text := fun h => hne (Address.text_injective h).symm
    cases hanswer : (DesiredStore.apply u t).1 with
    | error e => rw [apply_eq_error hanswer]
    | ok _ =>
      obtain ⟨rows, hrows, ⟨row, old, hf, -, happly⟩ | ⟨-, happly⟩⟩ := apply_eq_ok hanswer
      all_goals
        rw [happly]
        refine held?_eq_of_find? ?_
        rw [hrows]
      · refine find?_replace_of_ne ?_ rows
        show row.endpoint ≠ _
        rw [endpoint_of_find? hf]
        exact htext
      · exact find?_append_of_ne htext rows
  refused := fun endpoint h => by rw [apply_eq_error h]
  deleted := by
    intro which t endpoint entry h
    obtain ⟨rows?⟩ := t
    cases rows? with
    | none => exact h
    | some rows =>
      cases which with
      | none => exact nomatch h
      | some e =>
        obtain ⟨row, hrow, hentry⟩ := Option.bind_eq_some_iff.mp h
        have hend := endpoint_of_find? hrow
        have hfind : find? endpoint.text rows = some row :=
          find?_filter_of_some (fun r hr => by rw [hr, hend]) hrow
        exact Option.bind_eq_some_iff.mpr ⟨row, hfind, hentry⟩
  readable := by
    intro u t endpoint hu hok
    cases hanswer : (DesiredStore.apply u t).1 with
    | error e =>
      rw [apply_eq_error hanswer]
      exact hok
    | ok _ =>
      by_cases he : endpoint = u.endpoint
      · subst he
        obtain ⟨old, -, hnew⟩ := LawfulStore.get_apply hu hanswer
        rw [hnew]
        rfl
      · rw [LawfulStore.get_apply_of_ne he hanswer]
        exact hok

end StateTable

/-! ## The choice between the two -/

instance : StoreContent DesiredState where
  held? endpoint
    | .memory s => StoreContent.held? endpoint s
    | .table t => StoreContent.held? endpoint t
  read := by
    intro endpoint s found h
    cases s with
    | memory s => exact StoreContent.read (s := s) h
    | table t => exact StoreContent.read (s := t) h
  merged := by
    intro u s hu hok
    cases s with
    | memory s => exact StoreContent.merged (s := s) hu hok
    | table t => exact StoreContent.merged (s := t) hu hok
  others := by
    intro u s endpoint hne
    cases s with
    | memory s => exact StoreContent.others (s := s) hne
    | table t => exact StoreContent.others (s := t) hne
  refused := by
    intro u s e endpoint h
    cases s with
    | memory s => exact StoreContent.refused (s := s) endpoint h
    | table t => exact StoreContent.refused (s := t) endpoint h
  deleted := by
    intro which s endpoint entry h
    cases s with
    | memory s => exact StoreContent.deleted (s := s) h
    | table t => exact StoreContent.deleted (s := t) h
  readable := by
    intro u s endpoint hu h
    cases s with
    | memory s => exact StoreContent.readable (s := s) hu h
    | table t => exact StoreContent.readable (s := t) hu h

/-! ## Stores with limits -/

namespace LimitedStore

variable {σ : Type} [DesiredStore σ]

/-- An update of a store with limits is one of the store inside, or it is refused. -/
theorem apply_cases (u : StateUpdate) (s : LimitedStore σ) :
    ((DesiredStore.apply u s).1 = (DesiredStore.apply u s.inner).1 ∧
      (DesiredStore.apply u s).2.inner = (DesiredStore.apply u s.inner).2 ∧
      (DesiredStore.apply u s).2.readable = s.readable) ∨
    ((DesiredStore.apply u s).1 = .error .writeFailed ∧ (DesiredStore.apply u s).2 = s) := by
  obtain ⟨inner, writes, readable⟩ := s
  match writes with
  | some 0 => exact Or.inr ⟨rfl, rfl⟩
  | some (n + 1) => exact Or.inl ⟨rfl, rfl, rfl⟩
  | none => exact Or.inl ⟨rfl, rfl, rfl⟩

instance [StoreContent σ] : StoreContent (LimitedStore σ) where
  held? endpoint s := StoreContent.held? endpoint s.inner
  read := by
    intro endpoint s found h
    obtain ⟨inner, writes, readable⟩ := s
    cases readable with
    | true => exact StoreContent.read (s := inner) h
    | false => exact nomatch h
  merged := by
    intro u s hu hok
    rcases apply_cases u s with ⟨hanswer, hinner, -⟩ | ⟨hanswer, -⟩
    · rw [hinner]
      exact StoreContent.merged hu (hanswer.symm.trans hok)
    · exact nomatch hanswer.symm.trans hok
  others := by
    intro u s endpoint hne
    rcases apply_cases u s with ⟨-, hinner, -⟩ | ⟨-, hsame⟩
    · rw [hinner]
      exact StoreContent.others hne
    · rw [hsame]
  refused := by
    intro u s e endpoint h
    rcases apply_cases u s with ⟨hanswer, hinner, -⟩ | ⟨-, hsame⟩
    · rw [hinner]
      exact StoreContent.refused endpoint (hanswer.symm.trans h)
    · rw [hsame]
  deleted := by
    intro which s endpoint entry h
    obtain ⟨inner, writes, readable⟩ := s
    match writes with
    | some 0 => exact h
    | some (n + 1) => exact StoreContent.deleted (s := inner) h
    | none => exact StoreContent.deleted (s := inner) h
  readable := by
    intro u s endpoint hu h
    rcases apply_cases u s with ⟨-, hinner, hreadable⟩ | ⟨-, hsame⟩
    · obtain ⟨inner, writes, readable⟩ := s
      cases readable with
      | false => exact nomatch h
      | true =>
        show (if _ then DesiredStore.get endpoint _ else _).isOk = true
        rw [hreadable, if_pos rfl, hinner]
        exact StoreContent.readable (s := inner) hu h
    · rw [hsame]
      exact h

end LimitedStore

end PolicyProbe
