import PolicyProbe.Proofs.Archive.File
import PolicyProbe.Proofs.Archive.Table

/-!
What is found of the records that were handed to the two stores that can be asked. In a fresh
directory both are empty (`open_fresh`). The file takes every record; the table takes the first of
each identifier and refuses the others without a change (`persistEach_sqlite`).

The table finds again what it took, in the years of four digits: one record of another year, which
is taken and counted like any other, ends every reading that meets its row (`table_finds_taken`,
`fiveDigits_unread`). Of the same records, the table finds whatever the file finds. It may find
more, since it compares times without their last three digits (`stores_find_alike`,
`newYear_found_by_table`).
-/
namespace PolicyProbe

/-! ## Stores in a fresh directory -/

namespace Archive

/-- In a directory that was fresh, a store is as it was or empty. -/
structure Unused (a : Archive) : Prop where
  blocked : a.blocked = none
  file : a.file = ⟨.absent, false⟩ ∨ a.file = .ofRecords []
  table : a.table = .table ⟨none⟩ ∨ a.table = .table (.ofRecords [])

/-- The archive with an empty store of a kind. -/
def emptied (a : Archive) : RecordBackend → Archive
  | .log => a
  | .file => { a with file := .ofRecords [] }
  | .sqlite => { a with table := .table (.ofRecords []) }

theorem openOne_unused {a : Archive} (ha : a.Unused) (backend : RecordBackend) :
    a.openOne backend = .ok (a.emptied backend) ∧ (a.emptied backend).Unused := by
  obtain ⟨path, backends, blocked, file, table, notices⟩ := a
  obtain ⟨hblocked, hfile, htable⟩ := ha
  dsimp only at hblocked hfile htable
  subst hblocked
  cases backend with
  | log => exact ⟨rfl, rfl, hfile, htable⟩
  | file =>
    refine ⟨?_, rfl, Or.inr rfl, htable⟩
    rcases hfile with rfl | rfl <;> rfl
  | sqlite =>
    refine ⟨?_, rfl, hfile, Or.inr rfl⟩
    rcases htable with rfl | rfl <;> rfl

theorem file_emptied (backends : List RecordBackend) (a : Archive) :
    (backends.foldl emptied a).file = if .file ∈ backends then .ofRecords [] else a.file := by
  induction backends generalizing a with
  | nil => rfl
  | cons backend backends ih =>
    rw [List.foldl_cons, ih]
    cases backend <;> by_cases h : RecordBackend.file ∈ backends <;> simp [emptied, h]

theorem table_emptied (backends : List RecordBackend) (a : Archive) :
    (backends.foldl emptied a).table =
      if .sqlite ∈ backends then .table (.ofRecords []) else a.table := by
  induction backends generalizing a with
  | nil => rfl
  | cons backend backends ih =>
    rw [List.foldl_cons, ih]
    cases backend <;> by_cases h : RecordBackend.sqlite ∈ backends <;> simp [emptied, h]

/-- In a fresh directory every store opens, and it is empty. -/
theorem open_fresh (settings : RecorderSettings) : ∃ a, open? settings .fresh = .ok a ∧
    (.file ∈ settings.backends → a.file = .ofRecords []) ∧
    (.sqlite ∈ settings.backends → a.table = .table (.ofRecords [])) := by
  have hfold : ∀ (backends : List RecordBackend) (a : Archive), a.Unused →
      backends.foldlM openOne a = .ok (backends.foldl emptied a) := by
    intro backends
    induction backends with
    | nil => exact fun a _ => rfl
    | cons backend backends ih =>
      intro a ha
      obtain ⟨hopen, hunused⟩ := openOne_unused ha backend
      rw [List.foldlM_cons, hopen]
      exact ih _ hunused
  refine ⟨settings.backends.foldl emptied (closed settings .fresh),
    hfold _ _ ⟨rfl, Or.inl rfl, Or.inl rfl⟩, fun h => ?_, fun h => ?_⟩
  · rw [file_emptied, if_pos h]
  · rw [table_emptied, if_pos h]

end Archive

/-! ## Handing records to a store -/

namespace RecordStore

/-- The records that a store took, by its answers. -/
def taken (rs : List Record) (answers : List (Except StorageError Unit)) : List Record :=
  ((rs.zip answers).filter fun p => p.2.toOption.isSome).map Prod.fst

theorem taken_cons_ok (r : Record) (rs : List Record) (answers : List (Except StorageError Unit)) :
    taken (r :: rs) (.ok () :: answers) = r :: taken rs answers := rfl

theorem taken_cons_error (r : Record) (rs : List Record) (e : StorageError)
    (answers : List (Except StorageError Unit)) :
    taken (r :: rs) (.error e :: answers) = taken rs answers := rfl

theorem mem_of_mem_taken {r : Record} {rs : List Record} {answers : List (Except StorageError Unit)}
    (h : r ∈ taken rs answers) : r ∈ rs := by
  obtain ⟨⟨s, answer⟩, hs, rfl⟩ := List.mem_map.mp h
  exact (List.of_mem_zip (List.mem_of_mem_filter hs)).1

theorem length_persistEach {σ : Type} (store : RecordStore σ) (rs : List Record) (s : σ) :
    (store.persistEach rs s).1.length = rs.length := by
  induction rs generalizing s with
  | nil => rfl
  | cons r rs ih => exact congrArg (· + 1) (ih _)

theorem taken_replicate (rs : List Record) : taken rs (List.replicate rs.length (.ok ())) = rs := by
  induction rs with
  | nil => rfl
  | cons r rs ih => rw [List.length_cons, List.replicate_succ, taken_cons_ok, ih]

end RecordStore

namespace Archive

open RecordStore

/-- The file takes every record. -/
theorem persistEach_file (rs : List Record) {a : Archive} {kept : List Record}
    (ha : a.file = .ofRecords kept) : (store .file).persistEach rs a =
      (List.replicate rs.length (.ok ()), { a with file := .ofRecords (kept ++ rs) }) := by
  induction rs generalizing a kept with
  | nil =>
    rw [List.append_nil, ← ha]
    rfl
  | cons r rs ih =>
    have hpersist : (store .file).persist r a =
        (.ok (), { a with file := .ofRecords (kept ++ [r]) }) := by
      show persistFile r a = _
      rw [persistFile, ha, RecordFile.write_ofRecords]
    rw [persistEach, hpersist]
    dsimp only
    rw [ih rfl, List.append_assoc]
    rfl

theorem persist_sqlite (r : Record) {a : Archive} {kept : List Record}
    (ha : a.table = .table (.ofRecords kept)) : (store .sqlite).persist r a =
      if r.id ∈ kept.map (·.id) then (.error .writeFailed, a)
      else (.ok (), { a with table := .table (.ofRecords (kept ++ [r])) }) := by
  show persistTable r a = _
  rw [persistTable, ha]
  dsimp only
  rw [RecordTable.persist_ofRecords]
  by_cases h : r.id ∈ kept.map (·.id)
  · rw [if_pos h, if_pos h]
  · rw [if_neg h, if_neg h]

/-- A refused record adds no identifier. -/
theorem mem_ids_of_refused {r : Record} {kept before : List Record} (hr : r.id ∈ kept.map (·.id))
    {id : Identifier} :
    id ∈ (kept ++ r :: before).map (·.id) ↔ id ∈ (kept ++ before).map (·.id) := by
  rw [List.map_append, List.map_append, List.map_cons, List.mem_append, List.mem_append,
    List.mem_cons]
  constructor
  · rintro (hkept | heq | hbefore)
    · exact Or.inl hkept
    · exact Or.inl (heq ▸ hr)
    · exact Or.inr hbefore
  · exact Or.imp_right Or.inr

/-- The table takes the records whose identifiers are new, keeps what it has, and refuses the
others. -/
theorem persistEach_sqlite (rs : List Record) {a : Archive} {kept : List Record}
    (ha : a.table = .table (.ofRecords kept)) :
    ∃ answers, (store .sqlite).persistEach rs a =
        (answers, { a with table := .table (.ofRecords (kept ++ taken rs answers)) }) ∧
      (∀ before r after, rs = before ++ r :: after → answers[before.length]? =
        some (if r.id ∈ (kept ++ before).map (·.id) then .error .writeFailed else .ok ())) ∧
      ((kept.map (·.id)).Nodup → ((kept ++ taken rs answers).map (·.id)).Nodup) := by
  induction rs generalizing a kept with
  | nil =>
    have hnone : taken [] [] = [] := rfl
    refine ⟨[], ?_, fun before r after h => absurd h (by simp), fun h => ?_⟩
    · rw [hnone, List.append_nil, ← ha]
      rfl
    · rwa [hnone, List.append_nil]
  | cons r rs ih =>
    have hpersist := persist_sqlite r ha
    by_cases hr : r.id ∈ kept.map (·.id)
    · rw [if_pos hr] at hpersist
      obtain ⟨answers, heach, hanswers, hnodup⟩ := ih ha
      refine ⟨.error .writeFailed :: answers, ?_, fun before s after h => ?_, hnodup⟩
      · rw [persistEach, hpersist]
        dsimp only
        rw [heach, taken_cons_error]
      · cases before with
        | nil =>
          obtain ⟨rfl, -⟩ := List.cons.inj h
          rw [List.append_nil, if_pos hr]
          rfl
        | cons first before =>
          obtain ⟨rfl, htail⟩ := List.cons.inj h
          rw [List.length_cons, List.getElem?_cons_succ, hanswers before s after htail]
          simp only [mem_ids_of_refused hr]
    · rw [if_neg hr] at hpersist
      obtain ⟨answers, heach, hanswers, hnodup⟩ := @ih { a with table := _ } (kept ++ [r]) rfl
      rw [List.append_assoc] at hnodup
      refine ⟨.ok () :: answers, ?_, fun before s after h => ?_, fun h => hnodup ?_⟩
      · rw [persistEach, hpersist]
        dsimp only
        rw [heach, taken_cons_ok, List.append_assoc]
        rfl
      · cases before with
        | nil =>
          obtain ⟨rfl, -⟩ := List.cons.inj h
          rw [List.append_nil, if_neg hr]
          rfl
        | cons first before =>
          obtain ⟨rfl, htail⟩ := List.cons.inj h
          have hanswer := hanswers before s after htail
          rw [List.append_assoc] at hanswer
          exact hanswer
      · rw [List.map_append, List.map_singleton, ← List.concat_eq_append]
        exact h.concat hr

/-- The table takes records of distinct identifiers, every one. -/
theorem persistEach_sqlite_of_nodup {rs : List Record} (h : (rs.map (·.id)).Nodup) {a : Archive}
    (ha : a.table = .table (.ofRecords [])) : (store .sqlite).persistEach rs a =
      (List.replicate rs.length (.ok ()), { a with table := .table (.ofRecords rs) }) := by
  obtain ⟨answers, heach, hanswers, -⟩ := persistEach_sqlite rs ha
  have hlength : answers.length = rs.length := by
    rw [← length_persistEach (store .sqlite) rs a, heach]
  have hok : answers = List.replicate rs.length (.ok ()) := by
    refine List.eq_replicate_iff.mpr ⟨hlength, fun answer hanswer => ?_⟩
    obtain ⟨i, hi, rfl⟩ := List.getElem_of_mem hanswer
    have hsplit : rs = rs.take i ++ rs[i] :: rs.drop (i + 1) := by
      rw [List.getElem_cons_drop, List.take_append_drop]
    have hnew : rs[i].id ∉ ([] ++ rs.take i).map Record.id := by
      rw [List.nil_append]
      intro hmem
      rw [hsplit, List.map_append, List.map_cons, List.nodup_append] at h
      exact h.2.2 _ hmem _ List.mem_cons_self rfl
    have hanswer := hanswers _ _ _ hsplit
    rw [if_neg hnew, List.length_take, Nat.min_eq_left (by omega), List.getElem?_eq_getElem hi,
      Option.some.injEq] at hanswer
    exact hanswer
  rw [heach, hok, List.nil_append, taken_replicate]

/-! ## What the table holds -/

/-- Settings that ask for both stores. -/
def bothStores : RecorderSettings := { RecorderSettings.default with backends := [.file, .sqlite] }

/-- Both stores of a fresh directory. -/
def bothOpen : Archive where
  path := bothStores.path
  backends := bothStores.backends
  blocked := none
  file := .ofRecords []
  table := .table (.ofRecords [])
  notices := []

theorem open_bothStores : open? bothStores .fresh = .ok bothOpen := rfl

/-- A record of half a microsecond after midnight. -/
def newYear : Record where
  id := .ofNat 1
  src := .loopback
  dst := .loopback
  port := 80
  protocol := .tcp
  latency := .zero true
  error := none
  success := true
  connected := true
  created := ⟨⟨2024, 1, 1, by decide⟩, 0, 500, by decide⟩

/-- A record of the last leap second before the year 10000. -/
def lastSecond : Record :=
  { newYear with
    id := .ofNat 2
    error := some "no\nanswer"
    created := ⟨⟨9999, 12, 31, by decide⟩, 86399, 1999999999, by decide⟩ }

/-- Another record with an identifier that was used. -/
def usedTwice : Record := { lastSecond with id := .ofNat 1 }

/-- Every day begins at midnight. -/
theorem valid_midnight : Instant.Valid 0 0 := by decide

/-- A record of the year 10000. -/
def fiveDigits : Record :=
  { newYear with id := .ofNat 3, created := ⟨⟨10000, 1, 1, by decide⟩, 0, 0, valid_midnight⟩ }

/-- What is found in the table of the records that were handed to it. A record is refused exactly
when its identifier came before, and then nothing changes. The records that were taken are counted.
They are all found, each as the table keeps it, as long as their years have four digits; with one
record of any other year among them, none is found. -/
theorem table_finds_taken {settings : RecorderSettings} (hbackend : .sqlite ∈ settings.backends)
    {a : Archive} (hopen : open? settings .fresh = .ok a) {rs : List Record}
    (hports : ∀ r ∈ rs, r.Sound) :
    let run := (store .sqlite).persistEach rs a
    let kept := taken rs run.1
    (∀ before r after, rs = before ++ r :: after → run.1[before.length]? =
        some (if r.id ∈ before.map (·.id) then .error .writeFailed else .ok ())) ∧
      (∀ r, r.id ∈ kept.map (·.id) →
        (store .sqlite).persist r run.2 = (.error .writeFailed, run.2)) ∧
      (kept.map (·.id)).Nodup ∧ run.2.tableCount .all = .ok kept.length ∧
      ((∀ r ∈ kept, r.InYears) →
        ∃ found, run.2.tableRecords .all = .ok found ∧ found.Perm (kept.map Record.stored)) ∧
      ((∃ r ∈ kept, ¬r.InYears) → run.2.tableRecords .all = .error .readFailed) := by
  obtain ⟨a', ha', -, htable⟩ := open_fresh settings
  obtain rfl : a' = a := Except.ok.inj (ha'.symm.trans hopen)
  obtain ⟨answers, heach, hanswers, hnodup⟩ := persistEach_sqlite rs (htable hbackend)
  rw [List.nil_append] at heach hnodup
  rw [heach]
  intro run kept
  have hall : kept.filter (fun r => (RecordRow.ofRecord r).meets .all) = kept :=
    List.filter_eq_self.mpr fun _ _ => rfl
  have hmem : ∀ r ∈ kept, r ∈ rs := by
    intro r hr
    obtain ⟨⟨s, answer⟩, hs, rfl⟩ := List.mem_map.mp hr
    exact (List.of_mem_zip (List.mem_of_mem_filter hs)).1
  refine ⟨hanswers, fun r hr => ?_, hnodup List.nodup_nil, ?_, fun h => ?_, ?_⟩
  · rw [@persist_sqlite r run.2 kept rfl, if_pos hr]
  · show (RecordTable.ofRecords kept).count .all = _
    rw [RecordTable.count_ofRecords, hall]
  · obtain ⟨found, hfound, hperm⟩ := RecordTable.get_ofRecords (f := .all)
      fun r hr _ => ⟨hports r (hmem r hr), h r hr⟩
    rw [hall] at hperm
    exact ⟨found, hfound, hperm⟩
  · rintro ⟨r, hr, hyear⟩
    exact RecordTable.get_ofRecords_of_signed hr rfl hyear

theorem table_finds_taken_lastSecond :
    (∀ r ∈ [newYear, usedTwice, lastSecond], r.Sound) ∧
      let run := (store .sqlite).persistEach [newYear, usedTwice, lastSecond] bothOpen
      run.1 = [.ok (), .error .writeFailed, .ok ()] ∧ run.2.tableCount .all = .ok 2 ∧
      ∃ found, run.2.tableRecords .all = .ok found ∧
        found.Perm [newYear.stored, lastSecond.stored] := by
  have hports : ∀ r ∈ [newYear, usedTwice, lastSecond], r.Sound := by decide
  have hanswers : ((store .sqlite).persistEach [newYear, usedTwice, lastSecond] bothOpen).1 =
      [.ok (), .error .writeFailed, .ok ()] := by decide +kernel
  obtain ⟨-, -, -, hcount, hfound, -⟩ := table_finds_taken (by decide) open_bothStores hports
  rw [hanswers] at hcount hfound
  exact ⟨hports, hanswers, hcount, hfound (by decide)⟩

/-- The table takes a record of the year 10000 and counts it, and then no record can be read. -/
theorem fiveDigits_unread :
    let run := (store .sqlite).persistEach [newYear, fiveDigits] bothOpen
    run.1 = [.ok (), .ok ()] ∧ run.2.tableCount .all = .ok 2 ∧
      run.2.tableRecords .all = .error .readFailed := by
  decide +kernel

/-! ## Asking both stores -/

/-- What the two stores find of the same records with the same filter. The file goes by exact times
and the table by times cut to microseconds, so the table finds all that the file finds, and both
find the same when no bound is off the time of a record by less than was cut. -/
theorem stores_find_alike {settings : RecorderSettings} (hfile : .file ∈ settings.backends)
    (htable : .sqlite ∈ settings.backends) {a : Archive} (hopen : open? settings .fresh = .ok a)
    {rs : List Record} (hdistinct : (rs.map (·.id)).Nodup) (hports : ∀ r ∈ rs, r.Sound)
    (hyears : ∀ r ∈ rs, r.InYears) {f : Filter} (hf : f.InYears) :
    let written := (store .file).persistEach rs a
    let run := (store .sqlite).persistEach rs written.2
    (∀ answer ∈ written.1 ++ run.1, answer = .ok ()) ∧
      ∃ found got, run.2.fileRecords f = .ok found ∧ run.2.tableRecords f = .ok got ∧
        found.map (·.id) = (rs.filter f.accepts).map (·.id) ∧
        (got.map (·.id)).Perm ((rs.filter fun r => f.inMicros.accepts r.stored).map (·.id)) ∧
        (∀ id ∈ found.map (·.id), id ∈ got.map (·.id)) ∧
        ((∀ r ∈ rs, f.Clear r) → (got.map (·.id)).Perm (found.map (·.id))) := by
  obtain ⟨a', ha', hnofile, hnotable⟩ := open_fresh settings
  obtain rfl : a' = a := Except.ok.inj (ha'.symm.trans hopen)
  have hwritten := persistEach_file rs (hnofile hfile)
  rw [List.nil_append] at hwritten
  rw [hwritten]
  intro written run
  have hrun : run = _ := persistEach_sqlite_of_nodup hdistinct (a := written.2) (hnotable htable)
  rw [hrun]
  obtain ⟨got, hgot, hperm⟩ := RecordTable.get_inMicros hf hports hyears
  have hgotids : (got.map (·.id)).Perm
      ((rs.filter fun r => f.inMicros.accepts r.stored).map (·.id)) := by
    have hmap := hperm.map (·.id)
    rwa [List.map_map] at hmap
  have hfoundids : ((rs.filter f.accepts).map Record.reread).map (·.id) =
      (rs.filter f.accepts).map (·.id) := by
    rw [List.map_map]
    rfl
  refine ⟨fun answer hanswer => ?_, _, got, RecordFile.read_ofRecords hports f, hgot, hfoundids,
    hgotids, fun id hid => ?_, fun hclear => ?_⟩
  · rcases List.mem_append.mp hanswer with h | h <;> exact List.eq_of_mem_replicate h
  · rw [hfoundids] at hid
    obtain ⟨r, hr, rfl⟩ := List.mem_map.mp hid
    obtain ⟨hmem, haccepts⟩ := List.mem_filter.mp hr
    refine hgotids.mem_iff.mpr (List.mem_map.mpr ⟨r, List.mem_filter.mpr ⟨hmem, ?_⟩, rfl⟩)
    exact Filter.accepts_inMicros_of_accepts haccepts
  · have hsame : rs.filter (fun r => f.inMicros.accepts r.stored) = rs.filter f.accepts :=
      List.filter_congr fun r hr => Filter.accepts_inMicros_of_clear (hclear r hr)
    rwa [hfoundids, ← hsame]

/-- Records since a time shortly after midnight. -/
def sinceNanos (nanos : Nat) (h : Instant.Valid 0 nanos) : Filter :=
  { Filter.all with since := some ⟨⟨2024, 1, 1, by decide⟩, 0, nanos, h⟩ }

theorem stores_find_alike_newYear :
    ([newYear, lastSecond].map (·.id)).Nodup ∧ (∀ r ∈ [newYear, lastSecond], r.Sound) ∧
      (∀ r ∈ [newYear, lastSecond], r.InYears) ∧ (sinceNanos 1500 (by decide)).InYears ∧
      let written := (store .file).persistEach [newYear, lastSecond] bothOpen
      let run := (store .sqlite).persistEach [newYear, lastSecond] written.2
      ∃ found got, run.2.fileRecords (sinceNanos 1500 (by decide)) = .ok found ∧
        run.2.tableRecords (sinceNanos 1500 (by decide)) = .ok got ∧
        found.map (·.id) = [lastSecond.id] ∧ (got.map (·.id)).Perm (found.map (·.id)) := by
  have hdistinct : ([newYear, lastSecond].map (·.id)).Nodup := by decide +kernel
  have hports : ∀ r ∈ [newYear, lastSecond], r.Sound := by decide
  have hyears : ∀ r ∈ [newYear, lastSecond], r.InYears := by decide
  have hf : (sinceNanos 1500 (by decide)).InYears :=
    ⟨fun t ht => by cases ht; decide, fun t ht => nomatch ht⟩
  obtain ⟨-, found, got, hfound, hgot, hids, -, -, hsame⟩ :=
    stores_find_alike (by decide) (by decide) open_bothStores hdistinct hports hyears hf
  refine ⟨hdistinct, hports, hyears, hf, found, got, hfound, hgot, ?_, hsame fun r hr => ?_⟩
  · rw [hids]
    decide +kernel
  · rintro t (ht | ht) heq
    · cases ht
      simp only [List.mem_cons, List.not_mem_nil, or_false] at hr
      rcases hr with rfl | rfl <;> exact absurd heq (by decide)
    · exact nomatch ht

/-- A bound later than a record within one microsecond: the file passes over the record and the
table finds it. -/
theorem newYear_found_by_table :
    let written := (store .file).persistEach [newYear] bothOpen
    let run := (store .sqlite).persistEach [newYear] written.2
    written.1 = [.ok ()] ∧ run.1 = [.ok ()] ∧
      run.2.fileRecords (sinceNanos 700 (by decide)) = .ok [] ∧
      run.2.tableRecords (sinceNanos 700 (by decide)) = .ok [newYear.stored] := by
  have hwritten := @persistEach_file [newYear] bothOpen [] rfl
  have hfile := @RecordFile.read_ofRecords [newYear] (by decide) (sinceNanos 700 (by decide))
  have hmissed : [newYear].filter (sinceNanos 700 (by decide)).accepts = [] := by decide
  rw [hmissed] at hfile
  rw [hwritten]
  intro written run
  have hrun : run = _ := persistEach_sqlite_of_nodup (by decide +kernel) (a := written.2) rfl
  rw [hrun]
  exact ⟨rfl, rfl, hfile, by decide +kernel⟩

end Archive

end PolicyProbe
