import PolicyProbe.Proofs.Archive.Damage
import PolicyProbe.Proofs.Archive.FanOut
import PolicyProbe.Proofs.Archive.Sessions
import PolicyProbe.Settings

/-!
Stores that share a place. Settings may list a kind of store several times, and every entry is a
store of its own in the same file or table. A record goes to each of them: the file gains a line for
each entry, while the table takes the record from the first entry and refuses it from all others
(`persistAll_known`, `persistAll_new`). So the file has every record as often as the settings list
the file, the table has it once, and a record is refused, although it is stored, exactly when the
table is listed more than once (`stored_per_entry`, `stored_and_refused`).
-/
namespace PolicyProbe

/-- The directory can be used: its file then has some bytes, and its table some rows. -/
structure RecordDirectory.Holds (d : RecordDirectory) (content : List UInt8)
    (rows : List RecordRow) : Prop where
  blocked : d.blocked = none
  file : RecordFile.open? d.file = .ok ⟨.bytes content, true⟩
  table : ∃ t, d.table = .table t ∧ t.create = ⟨some rows⟩

/-- Whether some row has the identifier of a record. -/
def RecordRow.Known (rows : List RecordRow) (r : Record) : Prop :=
  some r.id.text ∈ rows.map (·.id)

instance (rows : List RecordRow) (r : Record) : Decidable (RecordRow.Known rows r) :=
  inferInstanceAs (Decidable (some r.id.text ∈ rows.map (·.id)))

/-- A table refuses a known record and takes any other. -/
theorem RecordTable.persist_rows (r : Record) (rows : List RecordRow) :
    (⟨some rows⟩ : RecordTable).persist r =
      if RecordRow.Known rows r then .error .writeFailed
      else .ok ⟨some (rows ++ [RecordRow.ofRecord r])⟩ := by
  have hany : rows.any (·.id == (RecordRow.ofRecord r).id) = true ↔ RecordRow.Known rows r := by
    rw [List.any_eq_true, RecordRow.Known, List.mem_map]
    simp only [beq_iff_eq, RecordRow.ofRecord]
  by_cases h : RecordRow.Known rows r
  · rw [if_pos h]
    exact if_pos (hany.mpr h)
  · rw [if_neg h]
    exact if_neg (mt hany.mp h)

theorem RecordFile.read_all_ofRecords {rs : List Record} (h : ∀ r ∈ rs, r.Sound) :
    (ofRecords rs).read .all = .ok (rs.map Record.reread) := by
  have hall : rs.filter Filter.all.accepts = rs := List.filter_eq_self.mpr fun _ _ => rfl
  have hread := read_ofRecords h .all
  rwa [hall] at hread

/-- Records behind ended lines are read behind what these lines hold. -/
theorem RecordFile.read_append {content : List UInt8} {attached : Bool} {before rs : List Record}
    (hread : read .all ⟨.bytes content, attached⟩ = .ok before)
    (hended : Lines.unended content = []) (hsound : ∀ r ∈ rs, r.Sound) :
    read .all ⟨.bytes (content ++ rs.flatMap lineOf), attached⟩ =
      .ok (before ++ rs.map Record.reread) := by
  have hnew := read_all_ofRecords hsound
  rw [ofRecords, read_all_bytes] at hnew
  rw [read_all_bytes] at hread ⊢
  rw [Lines.all_append_of_ended hended, List.all_append, List.filterMap_append]
  split at hread
  · split at hnew
    · rename_i hold hlines
      rw [hold, hlines, Except.ok.inj hread, Except.ok.inj hnew]
      rfl
    · cases hnew
  · cases hread

namespace Archive

open RecordStore

/-- The stores of some kinds are open in a directory, and the file and the table hold what is
given, if they are among them; whatever is not is as it was. -/
structure Ready (d : RecordDirectory) (kinds : List RecordBackend) (content : List UInt8)
    (rows : List RecordRow) (a : Archive) : Prop where
  blocked : a.blocked = none
  file : a.file = if .file ∈ kinds then ⟨.bytes content, true⟩ else ⟨d.file, false⟩
  table : a.table = if .sqlite ∈ kinds then .table ⟨some rows⟩ else d.table

section Directory

variable {d : RecordDirectory} {kinds : List RecordBackend} {content : List UInt8}
  {rows : List RecordRow} {a : Archive}

theorem Ready.say (h : a.Ready d kinds content rows) (n : Notice) :
    (a.say n).Ready d kinds content rows := ⟨h.blocked, h.file, h.table⟩

/-! ## Opening -/

/-- One more store is opened, of a kind that is open or of another. -/
theorem openOne_ready (hd : d.Holds content rows) (ha : a.Ready d kinds content rows)
    (backend : RecordBackend) : ∃ b, a.openOne backend = .ok b ∧ b.backends = a.backends ∧
      b.Ready d (kinds ++ [backend]) content rows := by
  obtain ⟨hblocked, hfile, htable⟩ := ha
  cases backend with
  | log => exact ⟨a, rfl, rfl, hblocked, by simpa using hfile, by simpa using htable⟩
  | file =>
    refine ⟨_, openOne_file.mpr ⟨hblocked, ⟨.bytes content, true⟩, ?_, rfl⟩, rfl, hblocked,
      by simp, by simpa using htable⟩
    rw [hfile]
    split
    · rfl
    · exact hd.file
  | sqlite =>
    obtain ⟨t, ht, hcreate⟩ := hd.table
    have hopen : ∃ t, a.table = .table t ∧ t.create = ⟨some rows⟩ := by
      rw [htable]
      split
      · exact ⟨_, rfl, rfl⟩
      · exact ⟨t, ht, hcreate⟩
    obtain ⟨t', ht', hcreate'⟩ := hopen
    refine ⟨_, openOne_table.mpr ⟨hblocked, t', ht', rfl⟩, rfl, hblocked, by simpa using hfile, ?_⟩
    simp [hcreate']

/-- All stores open, whatever settings list. -/
theorem open_ready (settings : RecorderSettings) (hd : d.Holds content rows) :
    ∃ a, open? settings d = .ok a ∧ a.backends = settings.backends ∧
      a.Ready d settings.backends content rows := by
  have hfold : ∀ (rest kinds : List RecordBackend) (a : Archive), a.Ready d kinds content rows →
      ∃ b, rest.foldlM openOne a = .ok b ∧ b.backends = a.backends ∧
        b.Ready d (kinds ++ rest) content rows := by
    intro rest
    induction rest with
    | nil => exact fun kinds a ha => ⟨a, rfl, rfl, by rwa [List.append_nil]⟩
    | cons backend rest ih =>
      intro kinds a ha
      obtain ⟨b, hopen, hsame, hb⟩ := openOne_ready hd ha backend
      obtain ⟨c, hrest, hsame', hc⟩ := ih _ b hb
      rw [List.append_assoc, List.singleton_append] at hc
      refine ⟨c, ?_, hsame'.trans hsame, hc⟩
      rw [List.foldlM_cons, hopen]
      exact hrest
  exact hfold settings.backends [] (closed settings d) ⟨hd.blocked, rfl, rfl⟩

/-! ## One record -/

/-- A store with its notices about refusals. -/
abbrev noting (backend : RecordBackend) : RecordStore Archive :=
  (store backend).onRefusal noteRefusal

/-- Notices aside, a store answers and works as it does without them. -/
theorem persist_noting (backend : RecordBackend) (r : Record) :
    ((noting backend).persist r a).1 = ((store backend).persist r a).1 ∧
      ∀ {content rows}, ((store backend).persist r a).2.Ready d kinds content rows →
        ((noting backend).persist r a).2.Ready d kinds content rows := by
  simp only [noting, onRefusal]
  rcases (store backend).persist r a with ⟨answer | answer, b⟩
  · exact ⟨rfl, fun h => h.say _⟩
  · exact ⟨rfl, id⟩

/-- The lines of some copies of a record. -/
def copies (n : Nat) (r : Record) : List UInt8 := (List.replicate n r).flatMap RecordFile.lineOf

theorem copies_add (m n : Nat) (r : Record) : copies m r ++ copies n r = copies (m + n) r := by
  rw [copies, copies, copies, ← List.flatMap_append, List.replicate_append_replicate]

/-- The lines that one entry adds, and then those that other entries add. -/
theorem append_copies (content : List UInt8) (entry : RecordBackend) (entries : List RecordBackend)
    (r : Record) :
    content ++ copies ([entry].count .file) r ++ copies (entries.count .file) r =
      content ++ copies ((entry :: entries).count .file) r := by
  rw [List.append_assoc, copies_add, ← List.count_append, List.singleton_append]

/-- What one entry does with a record: the file gains a line; the table gains a row if it does not
know the record, and refuses it otherwise. -/
theorem persist_ready (ha : a.Ready d kinds content rows) {entry : RecordBackend}
    (hentry : entry ∈ kinds) (r : Record) :
    ((store entry).persist r a).1 =
        (if entry = .sqlite ∧ RecordRow.Known rows r then .error .writeFailed else .ok ()) ∧
      ((store entry).persist r a).2.Ready d kinds (content ++ copies ([entry].count .file) r)
        (if entry = .sqlite ∧ ¬RecordRow.Known rows r then rows ++ [RecordRow.ofRecord r]
          else rows) := by
  cases entry with
  | log =>
    have hcontent : content ++ copies 0 r = content := List.append_nil content
    exact ⟨rfl, hcontent.symm ▸ ha.say _⟩
  | file =>
    have hfile := ha.file
    rw [if_pos hentry] at hfile
    have hcontent : copies 1 r = RecordFile.lineOf r := List.flatMap_singleton _ r
    have hpersist : (store .file).persist r a =
        (.ok (), { a with file := ⟨.bytes (content ++ copies 1 r), true⟩ }) := by
      show persistFile r a = _
      rw [persistFile, hfile, hcontent]
      rfl
    rw [hpersist]
    exact ⟨rfl, ha.blocked, (if_pos hentry).symm, ha.table⟩
  | sqlite =>
    have htable := ha.table
    rw [if_pos hentry] at htable
    have hcontent : content ++ copies 0 r = content := List.append_nil content
    show (persistTable r a).1 = _ ∧ (persistTable r a).2.Ready d kinds (content ++ copies 0 r) _
    rw [persistTable, htable, hcontent]
    dsimp only
    rw [RecordTable.persist_rows]
    by_cases h : RecordRow.Known rows r
    · simp only [h, if_true, and_self, not_true_eq_false, and_false, if_false]
      exact ⟨trivial, ha⟩
    · simp only [h, if_false, and_false, not_false_eq_true, and_self, if_true]
      exact ⟨trivial, ha.blocked, ha.file, (if_pos hentry).symm⟩

/-- Entries for a known record: each entry of the file adds a line, and each entry of the table is a
refusal. -/
theorem persistAll_known {r : Record} (hknown : RecordRow.Known rows r)
    {entries : List RecordBackend} (hentries : ∀ b ∈ entries, b ∈ kinds)
    (ha : a.Ready d kinds content rows) :
    (persistAll (entries.map noting) r a).1 =
        (if .sqlite ∈ entries then .error .writeFailed else .ok ()) ∧
      (persistAll (entries.map noting) r a).2.Ready d kinds
        (content ++ copies (entries.count .file) r) rows := by
  induction entries generalizing a content with
  | nil => exact ⟨rfl, (List.append_nil content).symm ▸ ha⟩
  | cons entry entries ih =>
    obtain ⟨hanswer, hready⟩ := @persist_noting d kinds a entry r
    obtain ⟨hfirst, hstep⟩ := persist_ready ha (hentries entry List.mem_cons_self) r
    rw [if_neg fun h => h.2 hknown] at hstep
    obtain ⟨hanswers, hall⟩ :=
      ih (fun b hb => hentries b (List.mem_cons_of_mem entry hb)) (hready hstep)
    rw [append_copies] at hall
    rw [List.map_cons, persistAll_cons, hanswer, hfirst, hanswers]
    refine ⟨?_, hall⟩
    cases entry <;> simp [hknown, Except.bind]

/-- Entries for a new record: each entry of the file adds a line, the first entry of the table adds
the row, and each further one is a refusal. -/
theorem persistAll_new {r : Record} (hnew : ¬RecordRow.Known rows r)
    {entries : List RecordBackend} (hentries : ∀ b ∈ entries, b ∈ kinds)
    (ha : a.Ready d kinds content rows) :
    (persistAll (entries.map noting) r a).1 =
        (if entries.count .sqlite ≤ 1 then .ok () else .error .writeFailed) ∧
      (persistAll (entries.map noting) r a).2.Ready d kinds
        (content ++ copies (entries.count .file) r)
        (if .sqlite ∈ entries then rows ++ [RecordRow.ofRecord r] else rows) := by
  induction entries generalizing a content with
  | nil => exact ⟨rfl, (List.append_nil content).symm ▸ ha⟩
  | cons entry entries ih =>
    obtain ⟨hanswer, hready⟩ := @persist_noting d kinds a entry r
    obtain ⟨hfirst, hstep⟩ := persist_ready ha (hentries entry List.mem_cons_self) r
    have hrest := fun b hb => hentries b (List.mem_cons_of_mem entry hb)
    rw [if_neg fun h => hnew h.2] at hfirst
    rw [List.map_cons, persistAll_cons, hanswer, hfirst]
    by_cases htable : entry = .sqlite
    · -- The row is there now, so the entries behind are for a known record.
      rw [if_pos ⟨htable, hnew⟩] at hstep
      have hknown : RecordRow.Known (rows ++ [RecordRow.ofRecord r]) r := by
        rw [RecordRow.Known, List.map_append]
        exact List.mem_append_right _ (List.mem_singleton.mpr rfl)
      obtain ⟨hanswers, hall⟩ := persistAll_known hknown hrest (hready hstep)
      rw [append_copies] at hall
      rw [hanswers, htable, List.count_cons_self, if_pos List.mem_cons_self]
      rw [htable] at hall
      refine ⟨?_, hall⟩
      by_cases hmem : RecordBackend.sqlite ∈ entries
      · have hpos := List.count_pos_iff.mpr hmem
        rw [if_pos hmem, if_neg (by omega)]
        rfl
      · rw [if_neg hmem, List.count_eq_zero.mpr hmem]
        rfl
    · rw [if_neg fun h => htable h.1] at hstep
      obtain ⟨hanswers, hall⟩ := ih hrest (hready hstep)
      rw [append_copies] at hall
      have hmem : RecordBackend.sqlite ∈ entry :: entries ↔ RecordBackend.sqlite ∈ entries := by
        simp [Ne.symm htable]
      rw [hanswers, List.count_cons_of_ne htable]
      simp only [hmem]
      exact ⟨rfl, hall⟩

/-- All stores of an archive, whether they stand alone or in a fan-out. -/
theorem persist_new {r : Record} (hnew : ¬RecordRow.Known rows r)
    (ha : a.Ready d kinds content rows) :
    ((stores kinds).persist r a).1 =
        (if kinds.count .sqlite ≤ 1 then .ok () else .error .writeFailed) ∧
      ((stores kinds).persist r a).2.Ready d kinds (content ++ copies (kinds.count .file) r)
        (if .sqlite ∈ kinds then rows ++ [RecordRow.ofRecord r] else rows) := by
  have hall := persistAll_new hnew (fun b hb => hb) ha
  match kinds, ha, hall with
  | [], _, hall => exact hall
  | _ :: _ :: _, _, hall => exact hall
  | [entry], ha, _ =>
    obtain ⟨hanswer, hready⟩ := persist_ready ha (List.mem_singleton.mpr rfl) r
    rw [if_neg fun h => hnew h.2] at hanswer
    refine ⟨hanswer.trans (if_pos List.count_le_length).symm, ?_⟩
    have hmem : RecordBackend.sqlite ∈ [entry] ↔ entry = .sqlite := by
      rw [List.mem_singleton, eq_comm]
    simp only [hnew, not_false_eq_true, and_true] at hready
    simp only [hmem]
    exact hready

end Directory

/-! ## Many records -/

/-- Every record is new to the table when it comes. -/
theorem persistEach_new {d : RecordDirectory} {kinds : List RecordBackend} {rs : List Record}
    (hdistinct : (rs.map (·.id)).Nodup) {content : List UInt8} {rows : List RecordRow}
    (hnew : ∀ r ∈ rs, ¬RecordRow.Known rows r) {a : Archive} (ha : a.Ready d kinds content rows) :
    ((stores kinds).persistEach rs a).1 = List.replicate rs.length
        (if kinds.count .sqlite ≤ 1 then .ok () else .error .writeFailed) ∧
      ((stores kinds).persistEach rs a).2.Ready d kinds
        (content ++ rs.flatMap (copies (kinds.count .file)))
        (if .sqlite ∈ kinds then rows ++ rs.map RecordRow.ofRecord else rows) := by
  induction rs generalizing content rows a with
  | nil =>
    refine ⟨rfl, ?_⟩
    rw [List.flatMap_nil, List.append_nil, List.map_nil, List.append_nil, ite_self]
    exact ha
  | cons r rs ih =>
    obtain ⟨hr, hrest⟩ := List.nodup_cons.mp hdistinct
    obtain ⟨hanswer, hready⟩ := persist_new (hnew r List.mem_cons_self) ha
    have hstill : ∀ s ∈ rs, ¬RecordRow.Known
        (if .sqlite ∈ kinds then rows ++ [RecordRow.ofRecord r] else rows) s := by
      -- The row that was added has another identifier than any record that is still to come.
      intro s hs hknown
      have hold := hnew s (List.mem_cons_of_mem r hs)
      split at hknown
      · rw [RecordRow.Known, List.map_append, List.mem_append] at hknown
        rcases hknown with h | h
        · exact hold h
        · have hid := Identifier.text_injective (Option.some.inj (List.mem_singleton.mp h))
          exact hr (List.mem_map.mpr ⟨s, hs, hid⟩)
      · exact hold hknown
    obtain ⟨hanswers, hall⟩ := ih hrest hstill hready
    rw [persistEach]
    refine ⟨congrArg₂ List.cons hanswer hanswers, ?_⟩
    rw [List.flatMap_cons, ← List.append_assoc]
    split at hall <;> simpa [*] using hall

/-- New rows of distinct identifiers: each record has exactly one. -/
theorem filter_rows {rs : List Record} (hdistinct : (rs.map (·.id)).Nodup) {rows : List RecordRow}
    (hnew : ∀ r ∈ rs, ¬RecordRow.Known rows r) {r : Record} (hr : r ∈ rs) :
    (rows ++ rs.map RecordRow.ofRecord).filter (·.id == some r.id.text) =
      [RecordRow.ofRecord r] := by
  have hold : rows.filter (·.id == some r.id.text) = [] :=
    List.filter_eq_nil_iff.mpr fun row hrow h =>
      hnew r hr (List.mem_map.mpr ⟨row, hrow, beq_iff_eq.mp h⟩)
  have hothers : ∀ others : List Record, (∀ s ∈ others, s.id ≠ r.id) →
      (others.map RecordRow.ofRecord).filter (·.id == some r.id.text) = [] := by
    intro others hne
    refine List.filter_eq_nil_iff.mpr fun row hrow h => ?_
    obtain ⟨s, hs, rfl⟩ := List.mem_map.mp hrow
    exact hne s hs (Identifier.text_injective (Option.some.inj (beq_iff_eq.mp h)))
  obtain ⟨before, after, rfl⟩ := List.append_of_mem hr
  rw [List.map_append, List.map_cons, List.nodup_append, List.nodup_cons] at hdistinct
  obtain ⟨-, ⟨hafter, -⟩, hbefore⟩ := hdistinct
  rw [List.map_append, List.map_cons, List.filter_append, List.filter_append, hold,
    hothers before fun s hs => hbefore _ (List.mem_map_of_mem hs) _ List.mem_cons_self,
    List.nil_append, List.nil_append, List.filter_cons_of_pos (by exact beq_self_eq_true _),
    hothers after fun s hs h => hafter (List.mem_map.mpr ⟨s, hs, h⟩)]

/-- What becomes of records with distinct identifiers that are new to the table, whatever settings
list. All stores open. The file gains each record as often as the file is listed, and the table
gains one row for each record if it is listed at all. A record is taken if the table is listed at
most once, and refused otherwise. -/
theorem stored_per_entry (settings : RecorderSettings) {d : RecordDirectory} {content : List UInt8}
    {rows : List RecordRow} (hd : d.Holds content rows) {rs : List Record}
    (hdistinct : (rs.map (·.id)).Nodup) (hnew : ∀ r ∈ rs, ¬RecordRow.Known rows r) :
    ∃ a, open? settings d = .ok a ∧
      let run := (stores a.backends).persistEach rs a
      let files := settings.backends.count .file
      let tables := settings.backends.count .sqlite
      let written := rs.flatMap (List.replicate files)
      run.1 = List.replicate rs.length (if tables ≤ 1 then .ok () else .error .writeFailed) ∧
      run.2.file.content =
        (if files = 0 then d.file else .bytes (content ++ written.flatMap RecordFile.lineOf)) ∧
      (∀ before, RecordFile.read .all ⟨.bytes content, true⟩ = .ok before →
        Lines.unended content = [] → (∀ r ∈ rs, r.Sound) → files ≠ 0 →
          run.2.fileRecords .all = .ok (before ++ written.map Record.reread)) ∧
      run.2.table =
        (if tables = 0 then d.table else .table ⟨some (rows ++ rs.map RecordRow.ofRecord)⟩) ∧
      ∀ r ∈ rs, (rows ++ rs.map RecordRow.ofRecord).filter (·.id == some r.id.text) =
        [RecordRow.ofRecord r] := by
  obtain ⟨a, hopen, hsame, hready⟩ := open_ready settings hd
  obtain ⟨hanswers, hafter⟩ := persistEach_new hdistinct hnew hready
  have hwritten : rs.flatMap (copies (settings.backends.count .file)) =
      (rs.flatMap (List.replicate (settings.backends.count .file))).flatMap RecordFile.lineOf :=
    List.flatMap_assoc.symm
  have hfile := hafter.file
  have htable := hafter.table
  rw [hwritten] at hfile
  refine ⟨a, hopen, ?_⟩
  rw [hsame]
  refine ⟨hanswers, ?_, fun before hread hended hsound hlisted => ?_, ?_, fun r hr =>
    filter_rows hdistinct hnew hr⟩
  · rw [hfile, apply_ite RecordFile.content]
    simp only [List.count_eq_zero, ite_not]
  · rw [if_pos (List.count_pos_iff.mp (Nat.pos_of_ne_zero hlisted))] at hfile
    rw [fileRecords, hfile]
    refine RecordFile.read_append hread hended fun r hr => ?_
    obtain ⟨s, hs, hrs⟩ := List.mem_flatMap.mp hr
    exact List.eq_of_mem_replicate hrs ▸ hsound s hs
  · rw [htable]
    simp only [List.count_eq_zero, ite_not]
    split <;> simp [*]

theorem holds_fresh : RecordDirectory.fresh.Holds [] [] := ⟨rfl, rfl, _, rfl, rfl⟩

theorem stored_per_entry_bothStores :
    ∃ a, open? bothStores .fresh = .ok a ∧
      let run := (stores a.backends).persistEach [newYear, lastSecond] a
      run.1 = [.ok (), .ok ()] ∧
      run.2.fileRecords .all = .ok [newYear.reread, lastSecond.reread] ∧
      run.2.tableCount .all = .ok 2 := by
  have hdistinct : ([newYear, lastSecond].map (·.id)).Nodup := by decide +kernel
  have hnew : ∀ r ∈ [newYear, lastSecond], ¬RecordRow.Known [] r := fun _ _ => List.not_mem_nil
  obtain ⟨a, hopen, hanswers, -, hread, htable, -⟩ :=
    stored_per_entry bothStores holds_fresh hdistinct hnew
  have hempty : RecordFile.read .all ⟨.bytes [], true⟩ = .ok [] := by decide +kernel
  refine ⟨a, hopen, hanswers, hread [] hempty rfl (by decide) (by decide), ?_⟩
  rw [tableCount, htable]
  rfl

/-- Settings that list the file and the table twice. -/
def listedTwice : Settings :=
  { Settings.default with
    endpoint := some .loopback
    recorder := { RecorderSettings.default with backends := [.sqlite, .file, .sqlite, .file] } }

/-- Settings that list both twice pass the check, and then a record is refused; the file has it
twice, and the table once. -/
theorem stored_and_refused :
    listedTwice.check = .ok () ∧ ∃ a, open? listedTwice.recorder .fresh = .ok a ∧
      let run := persist newYear a
      run.1 = .error .writeFailed ∧ run.2.fileRecords .all = .ok [newYear, newYear] ∧
        run.2.tableRecords .all = .ok [newYear.stored] := by
  obtain ⟨a, hopen, hsame, hready⟩ := open_ready listedTwice.recorder holds_fresh
  obtain ⟨hanswer, hafter⟩ := @persist_new _ _ _ _ _ newYear List.not_mem_nil hready
  have hread := @RecordFile.read_all_ofRecords [newYear, newYear] (by decide)
  have hreread : [newYear, newYear].map Record.reread = [newYear, newYear] := by decide +kernel
  rw [hreread] at hread
  refine ⟨by decide +kernel, a, hopen, ?_⟩
  rw [persist, hsame]
  refine ⟨hanswer, ?_, ?_⟩
  · rw [fileRecords, hafter.file]
    exact hread
  · rw [tableRecords, hafter.table]
    decide +kernel

end Archive

end PolicyProbe
