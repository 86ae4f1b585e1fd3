import PolicyProbe.Desired.Table
import PolicyProbe.Proofs.Policy.Forms

/-!
Rows of the table of desired state. The row of an entry stands for the entry again as long as its
ports are ports (`StateEntry.Sound`), and every entry for which a row stands is of that kind. So an
update can read a row, merge and write it back without losing anything.
-/
namespace PolicyProbe

/-- Whether the ports of an entry are below their bound. -/
structure StateEntry.Sound (e : StateEntry) : Prop where
  servers : ∀ s ∈ e.servers, s.port < portBound
  clients : ∀ c ∈ e.clients, c.port < portBound

/-- Whether the ports of an update are below their bound. -/
structure StateUpdate.Sound (u : StateUpdate) : Prop where
  servers : ∀ s ∈ u.servers, s.port < portBound
  clients : ∀ c ∈ u.clients, c.port < portBound

namespace StateEntry

open Layout in
theorem finds {e : StateEntry} (h : e.Sound) : StateEntry.decoder.Finds e.toJson e := by
  have hservers := ((reads_required "endpoint" e.endpoint.finds).map StateEntry.mk).andThen
    (reads_required "servers" (Decoder.finds_list fun s hs => ServerEntry.finds (h.servers s hs)))
  exact (hservers.andThen (reads_required "clients"
    (Decoder.finds_list fun c hc => ClientEntry.finds (h.clients c hc)))).finds (by decide)

open Layout in
theorem yields : StateEntry.decoder.Yields Sound := by
  refine Yields.decode fun manner value? => ?_
  simp only [layout, built_andThen, built_map]
  intro _ _ servers hservers clients hclients
  exact ⟨yields_required "servers" ServerEntry.yields.list hservers,
    yields_required "clients" ClientEntry.yields.list hclients⟩

instance : WireForm StateEntry where
  Sound := Sound
  finds _ h _ := finds h
  yields := yields

theorem sound_empty (endpoint : Address) : (empty endpoint).Sound := by
  constructor <;> simp [empty]

theorem mem_foldl_addServer {old asks : List ServerEntry} {s : ServerEntry}
    (h : s ∈ asks.foldl addServer old) : s ∈ old ∨ s ∈ asks := by
  induction asks generalizing old with
  | nil => exact Or.inl h
  | cons a asks ih =>
    rcases ih h with h | h
    · unfold addServer at h
      split at h
      · exact Or.inl h
      · rcases List.mem_append.mp h with h | h
        · exact Or.inl h
        · rw [List.mem_singleton.mp h]
          exact Or.inr List.mem_cons_self
    · exact Or.inr (List.mem_cons_of_mem a h)

theorem mem_putClient {cs : List ClientEntry} {c d : ClientEntry} (h : d ∈ putClient cs c) :
    d ∈ cs ∨ d = c := by
  induction cs with
  | nil => exact Or.inr (List.mem_singleton.mp h)
  | cons e rest ih =>
    rw [putClient] at h
    split at h
    · rcases List.mem_cons.mp h with h | h
      · exact Or.inr h
      · exact Or.inl (List.mem_cons_of_mem e h)
    · rcases List.mem_cons.mp h with rfl | h
      · exact Or.inl List.mem_cons_self
      · exact (ih h).imp_left (List.mem_cons_of_mem e)

theorem mem_foldl_putClient {old asks : List ClientEntry} {c : ClientEntry}
    (h : c ∈ asks.foldl putClient old) : c ∈ old ∨ c ∈ asks := by
  induction asks generalizing old with
  | nil => exact Or.inl h
  | cons a asks ih =>
    rcases ih h with h | h
    · rcases mem_putClient h with h | rfl
      · exact Or.inl h
      · exact Or.inr List.mem_cons_self
    · exact Or.inr (List.mem_cons_of_mem a h)

theorem Sound.merge {e : StateEntry} (he : e.Sound) {u : StateUpdate} (hu : u.Sound) :
    (e.merge u.servers u.clients).Sound where
  servers := fun s hs => (mem_foldl_addServer hs).elim (he.servers s) (hu.servers s)
  clients := fun c hc => (mem_foldl_putClient hc).elim (he.clients c) (hu.clients c)

end StateEntry

namespace StateRow

/-- A row with servers and clients of an entry stands for them at the endpoint of the row. -/
theorem entry?_columns {e : StateEntry} (he : e.Sound) {row : StateRow} {endpoint : Address}
    (hr : row.endpoint = endpoint.text) :
    entry? { row with servers := e.serversJson.text, clients := e.clientsJson.text } =
      some ⟨endpoint, e.servers, e.clients⟩ := by
  have hs := (Decoder.finds_list fun s hs => ServerEntry.finds (he.servers s hs)).run
  have hc := (Decoder.finds_list fun c hc => ClientEntry.finds (he.clients c hc)).run
  simp only [ StateRow.entry?, StateEntry.serversJson, StateEntry.clientsJson, hr,
    Address.ofText?_text, hs, hc]
  rfl

theorem entry?_ofEntry {e : StateEntry} (he : e.Sound) : StateRow.entry? (ofEntry e) = some e :=
  @entry?_columns e he (ofEntry e) e.endpoint rfl

theorem entry_of_entry? {row : StateRow} {e : StateEntry} (h : row.entry? = some e) :
    row.entry = .ok e := by
  rw [entry, h]

theorem entry?_of_entry {row : StateRow} {e : StateEntry} (h : row.entry = .ok e) :
    row.entry? = some e := by
  unfold entry at h
  split at h
  · rename_i he
    rw [he, Except.ok.inj h]
  · exact nomatch h

theorem entry?_eq_some {row : StateRow} {e : StateEntry} (h : row.entry? = some e) :
    Address.ofText? row.endpoint = some e.endpoint ∧
      (Decoder.list ServerEntry.decoder).run row.servers = .ok e.servers ∧
      (Decoder.list ClientEntry.decoder).run row.clients = .ok e.clients := by
  unfold entry? at h
  simp only [Option.bind_eq_bind, Option.bind_eq_some_iff] at h
  obtain ⟨endpoint, h1, servers, h2, clients, h3, h⟩ := h
  obtain rfl := Option.some.inj h
  exact ⟨h1, Except.eq_ok_of_toOption h2, Except.eq_ok_of_toOption h3⟩

/-- Whatever a row holds, the entry for which it stands has ports below their bound. -/
theorem sound_of_entry? {row : StateRow} {e : StateEntry} (h : row.entry? = some e) : e.Sound := by
  obtain ⟨-, hs, hc⟩ := entry?_eq_some h
  exact ⟨ServerEntry.yields.list.run hs, ClientEntry.yields.list.run hc⟩

end StateRow

namespace StateTable

/-! ## Rows by their endpoint -/

theorem find?_replace_self {row old : StateRow} {rows : List StateRow}
    (h : find? row.endpoint rows = some old) :
    find? row.endpoint (replace row rows) = some row := by
  induction rows with
  | nil => exact nomatch h
  | cons r rows ih =>
    rw [replace, List.map_cons]
    by_cases hr : r.endpoint = row.endpoint
    · simp [find?, hr]
    · rw [find?, List.find?_cons_of_neg (by simpa using hr)] at h
      rw [if_neg (by simpa using hr), find?, List.find?_cons_of_neg (by simpa using hr)]
      exact ih h

theorem find?_replace_of_ne {row : StateRow} {endpoint : String} (h : row.endpoint ≠ endpoint)
    (rows : List StateRow) : find? endpoint (replace row rows) = find? endpoint rows := by
  induction rows with
  | nil => rfl
  | cons r rows ih =>
    rw [replace, List.map_cons]
    by_cases hr : r.endpoint = row.endpoint
    · have hne : r.endpoint ≠ endpoint := fun he => h (hr.symm.trans he)
      rw [if_pos (by simpa using hr), find?, List.find?_cons_of_neg (by simpa using h), find?,
        List.find?_cons_of_neg (by simpa using hne)]
      exact ih
    · rw [if_neg (by simpa using hr), find?, List.find?_cons, find?, List.find?_cons]
      cases r.endpoint == endpoint with
      | true => rfl
      | false => exact ih

theorem find?_append_of_ne {row : StateRow} {endpoint : String} (h : row.endpoint ≠ endpoint)
    (rows : List StateRow) : find? endpoint (rows ++ [row]) = find? endpoint rows := by
  have hnone : List.find? (·.endpoint == endpoint) [row] = none := by simpa using h
  rw [find?, List.find?_append, hnone, Option.or_none]
  rfl

theorem endpoint_of_find? {endpoint : String} {rows : List StateRow} {row : StateRow}
    (h : find? endpoint rows = some row) : row.endpoint = endpoint := by
  simpa using List.find?_some h

/-! ## Updates -/

/-- A row with the servers and the clients of an entry. -/
def rewritten (row : StateRow) (e : StateEntry) : StateRow :=
  { row with servers := e.serversJson.text, clients := e.clientsJson.text }

/-- What an update does when nothing fails at its steps. -/
theorem transact_none {endpoint : Address} {servers : List ServerEntry}
    {clients : List ClientEntry} {rows : List StateRow} :
    transact none endpoint servers clients ⟨some rows⟩ =
      match find? endpoint.text rows with
      | some row => do
        let old ← row.entry
        return replace (rewritten row (old.merge servers clients)) rows
      | none => .ok (rows ++ [.ofEntry ((StateEntry.empty endpoint).merge servers clients)]) := by
  show (written none endpoint servers clients rows (find? endpoint.text rows) >>= .ok) = _
  cases find? endpoint.text rows with
  | none => rfl
  | some row =>
    dsimp only [written]
    cases row.entry <;> rfl

theorem get_some (endpoint : Address) (rows : List StateRow) :
    get endpoint ⟨some rows⟩ =
      match find? endpoint.text rows with
      | some row => some <$> row.entry
      | none => .ok none := by
  simp only [get, StateTable.rows]
  show (match find? endpoint.text rows with | some row => _ | none => _) = _
  cases find? endpoint.text rows with
  | none => rfl
  | some row => cases h : row.entry <;> rfl

theorem apply_of_transact {u : StateUpdate} {t : StateTable} {rows : List StateRow}
    (h : transact none u.endpoint u.servers u.clients t = .ok rows) :
    DesiredStore.apply u t = (.ok (), ⟨some rows⟩) := by
  show update none u.endpoint u.servers u.clients t = _
  rw [update, h]

theorem apply_of_transact_error {u : StateUpdate} {t : StateTable} {e : StorageError}
    (h : transact none u.endpoint u.servers u.clients t = .error e) :
    DesiredStore.apply u t = (.error e, t) := by
  show update none u.endpoint u.servers u.clients t = _
  rw [update, h]

/-- An accepted update rewrites the row of its endpoint or adds it. -/
theorem apply_eq_ok {u : StateUpdate} {t : StateTable} (h : (DesiredStore.apply u t).1 = .ok ()) :
    ∃ rows, t.rows? = some rows ∧
      ((∃ row old, find? u.endpoint.text rows = some row ∧ row.entry = .ok old ∧
        (DesiredStore.apply u t).2 =
          ⟨some (replace (rewritten row (old.merge u.servers u.clients)) rows)⟩) ∨
      (find? u.endpoint.text rows = none ∧ (DesiredStore.apply u t).2 =
        ⟨some (rows ++
          [.ofEntry ((StateEntry.empty u.endpoint).merge u.servers u.clients)])⟩)) := by
  obtain ⟨rows?⟩ := t
  cases rows? with
  | none => exact nomatch h
  | some rows =>
    refine ⟨rows, rfl, ?_⟩
    -- A row that does not decode makes the update fail, so here the row found has an entry.
    have htransact := @transact_none u.endpoint u.servers u.clients rows
    cases hf : find? u.endpoint.text rows with
    | none =>
      rw [hf] at htransact
      exact Or.inr ⟨rfl, by rw [apply_of_transact htransact]⟩
    | some row =>
      rw [hf] at htransact
      dsimp only at htransact
      cases he : row.entry with
      | error e =>
        rw [he] at htransact
        rw [apply_of_transact_error htransact] at h
        cases h
      | ok old =>
        rw [he] at htransact
        exact Or.inl ⟨row, old, rfl, he, by rw [apply_of_transact htransact]⟩

theorem get_of_find? {endpoint : Address} {rows : List StateRow} {row : StateRow} {e : StateEntry}
    (hf : find? endpoint.text rows = some row) (he : row.entry? = some e) :
    get endpoint ⟨some rows⟩ = .ok (some e) := by
  rw [get_some, hf]
  simp only [StateRow.entry_of_entry? he]
  rfl

/-- The entry of a row that was found for an endpoint is the entry of that endpoint. -/
theorem endpoint_of_entry? {endpoint : Address} {rows : List StateRow} {row : StateRow}
    {e : StateEntry} (hf : find? endpoint.text rows = some row) (he : row.entry? = some e) :
    e.endpoint = endpoint := by
  obtain ⟨h, -, -⟩ := StateRow.entry?_eq_some he
  rw [endpoint_of_find? hf, Address.ofText?_text] at h
  exact (Option.some.inj h).symm

/-- A rewritten row stands for the entry that was written to it. -/
theorem entry?_rewritten {endpoint : Address} {row : StateRow} {e : StateEntry} (he : e.Sound)
    (hr : row.endpoint = endpoint.text) (hend : e.endpoint = endpoint) :
    StateRow.entry? (rewritten row e) = some e := by
  rw [rewritten, StateRow.entry?_columns he hr, ← hend]

end StateTable

end PolicyProbe
