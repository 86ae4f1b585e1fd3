import PolicyProbe.Proofs.Archive.Queries

/-!
Stores that are closed and opened again. A run goes through some sessions: each of them opens the
store on what is found under its path and hands it some records (`sessions`). Opening a store that
is open changes nothing, and taking a record leaves it so (`openOne_persist`). Hence a run leaves
what a single session with all records leaves, for every kind of store and whatever it had before
(`sessions_eq`).

The file gives back every record that was handed to it, exactly and in the same order, if the texts
of the latencies are read as the latencies (`file_gives_back`). The table finds the records that it
took by their times without the last three digits, and answers in the order of these times
(`table_finds_in_order`).
-/
namespace PolicyProbe

/-! ## Opening again -/

namespace RecordFile

theorem open?_again {content : FileContent} {f : RecordFile} (h : open? content = .ok f) :
    open? f.content = .ok f := by
  cases content <;> cases h <;> rfl

/-- What is written to an open file leaves it open. -/
theorem open?_write {f g : RecordFile} (h : open? f.content = .ok f) {r : Record}
    (hwrite : f.write r = .ok g) : open? g.content = .ok g := by
  obtain ⟨content, attached⟩ := f
  cases content <;> cases h <;> cases hwrite
  rfl

end RecordFile

namespace RecordTable

theorem create_of_persist {t t' : RecordTable} {r : Record} (h : t.persist r = .ok t') :
    t'.create = t' := by
  rw [persist, insert] at h
  split at h
  · cases h
  · split at h <;> cases h
    rfl

end RecordTable

namespace RecordStore

variable {σ : Type}

theorem persistEach_append (store : RecordStore σ) (rs later : List Record) (s : σ) :
    store.persistEach (rs ++ later) s =
      ((store.persistEach rs s).1 ++ (store.persistEach later (store.persistEach rs s).2).1,
        (store.persistEach later (store.persistEach rs s).2).2) := by
  induction rs generalizing s with
  | nil => rfl
  | cons r rs ih =>
    rw [List.cons_append, persistEach, persistEach]
    simp only [ih, List.cons_append]

/-- What every record leaves as it is holds behind all of them. -/
theorem persistEach_preserves {store : RecordStore σ} {P : σ → Prop}
    (h : ∀ r s, P s → P (store.persist r s).2) (rs : List Record) {s : σ} (hs : P s) :
    P (store.persistEach rs s).2 := by
  induction rs generalizing s with
  | nil => exact hs
  | cons r rs ih => exact ih (h r s hs)

end RecordStore

namespace Archive

open RecordStore

theorem openOne_file {a b : Archive} : a.openOne .file = .ok b ↔ a.blocked = none ∧
    ∃ file, RecordFile.open? a.file.content = .ok file ∧ b = { a with file } := by
  rw [openOne, openFile]
  constructor
  · intro h
    split at h
    · cases h
    · split at h <;> cases h
      exact ⟨‹_›, _, ‹_›, rfl⟩
  · rintro ⟨hblocked, file, hfile, rfl⟩
    rw [hblocked]
    dsimp only
    rw [hfile]

theorem openOne_table {a b : Archive} : a.openOne .sqlite = .ok b ↔ a.blocked = none ∧
    ∃ t, a.table = .table t ∧ b = { a with table := .table t.create } := by
  rw [openOne, openTable]
  constructor
  · intro h
    split at h <;> cases h
    exact ⟨‹_›, _, ‹_›, rfl⟩
  · rintro ⟨hblocked, t, ht, rfl⟩
    rw [hblocked, ht]

/-- A store that was opened is found as it is when it is opened again. -/
theorem openOne_again {backend : RecordBackend} {a b : Archive} (h : a.openOne backend = .ok b) :
    b.openOne backend = .ok b := by
  cases backend with
  | log => rfl
  | file =>
    obtain ⟨hblocked, file, hfile, rfl⟩ := openOne_file.mp h
    exact openOne_file.mpr ⟨hblocked, file, RecordFile.open?_again hfile, rfl⟩
  | sqlite =>
    obtain ⟨hblocked, t, -, rfl⟩ := openOne_table.mp h
    exact openOne_table.mpr ⟨hblocked, t.create, rfl, rfl⟩

/-- A record, taken or refused, leaves an open store open. -/
theorem openOne_persist {backend : RecordBackend} (r : Record) (a : Archive)
    (h : a.openOne backend = .ok a) : ((store backend).persist r a).2.openOne backend =
      .ok ((store backend).persist r a).2 := by
  cases backend with
  | log => rfl
  | file =>
    obtain ⟨hblocked, file, hfile, heq⟩ := openOne_file.mp h
    obtain rfl : a.file = file := congrArg Archive.file heq
    show (persistFile r a).2.openOne .file = .ok (persistFile r a).2
    rw [persistFile]
    cases hwrite : a.file.write r with
    | ok file =>
      exact openOne_file.mpr ⟨hblocked, file, RecordFile.open?_write hfile hwrite, rfl⟩
    | error e => exact openOne_file.mpr ⟨hblocked, a.file, hfile, rfl⟩
  | sqlite =>
    obtain ⟨hblocked, t, ht, -⟩ := openOne_table.mp h
    show (persistTable r a).2.openOne .sqlite = .ok (persistTable r a).2
    rw [persistTable, ht]
    dsimp only
    cases hpersist : t.persist r with
    | error e => exact h
    | ok t' =>
      have hcreate := RecordTable.create_of_persist hpersist
      refine openOne_table.mpr ⟨hblocked, t', rfl, ?_⟩
      rw [hcreate]

/-! ## Sessions -/

/-- Sessions with the store of a kind. Each opens it, which ends the session before, and hands it
some records; the answers are in the same order. -/
def sessions (backend : RecordBackend) :
    List (List Record) → Archive → Opening (List (Except StorageError Unit) × Archive)
  | [], a => .ok ([], a)
  | records :: later, a => do
    let opened ← a.openOne backend
    let (answers, a) := (store backend).persistEach records opened
    let (others, a) ← sessions backend later a
    return (answers ++ others, a)

/-- Sessions make no difference: the answers and what is left are those of one session with all
records. -/
theorem sessions_eq {backend : RecordBackend} {a opened : Archive}
    (hopen : a.openOne backend = .ok opened) (first : List Record) (later : List (List Record)) :
    sessions backend (first :: later) a =
      .ok ((store backend).persistEach (first :: later).flatten opened) := by
  have hreopen : ∀ (runs : List (List Record)) (b : Archive), b.openOne backend = .ok b →
      sessions backend runs b = .ok ((store backend).persistEach runs.flatten b) := by
    intro runs
    induction runs with
    | nil => exact fun b _ => rfl
    | cons records runs ih =>
      intro b hb
      have hkept := persistEach_preserves openOne_persist records hb
      rw [sessions, hb, List.flatten_cons, persistEach_append]
      simp only [bind, Except.bind, ih _ hkept]
      rfl
  have hopened := openOne_again hopen
  calc sessions backend (first :: later) a
      = sessions backend (first :: later) opened := by rw [sessions, sessions, hopen, hopened]
    _ = .ok ((store backend).persistEach (first :: later).flatten opened) :=
      hreopen (first :: later) opened hopened

/-! ## What is found -/

/-- The file gives back what was handed to it: however often it was opened again in between, all
records are taken, and reading answers with those that the filter accepts, each as it was and in the
same order, whatever characters are in their errors. -/
theorem file_gives_back {a : Archive} (hblocked : a.blocked = none)
    (hfresh : a.file.content = .absent ∨ a.file.content = .bytes []) (first : List Record)
    (later : List (List Record)) (hports : ∀ r ∈ (first :: later).flatten, r.Sound)
    (hlatencies : ∀ r ∈ (first :: later).flatten, r.Readable) :
    ∃ b, sessions .file (first :: later) a =
        .ok (List.replicate (first :: later).flatten.length (.ok ()), b) ∧
      ∀ f, b.fileRecords f = .ok ((first :: later).flatten.filter f.accepts) := by
  have hopen : a.openOne .file = .ok { a with file := .ofRecords [] } := by
    refine openOne_file.mpr ⟨hblocked, _, ?_, rfl⟩
    rcases hfresh with h | h <;> rw [h] <;> rfl
  have hsessions := sessions_eq hopen first later
  rw [persistEach_file (first :: later).flatten rfl, List.nil_append] at hsessions
  refine ⟨_, hsessions, ?_⟩
  intro f
  have hread := RecordFile.read_ofRecords hports f
  have hsame : ((first :: later).flatten.filter f.accepts).map Record.reread =
      (first :: later).flatten.filter f.accepts := by
    calc ((first :: later).flatten.filter f.accepts).map Record.reread
        = ((first :: later).flatten.filter f.accepts).map id :=
          List.map_congr_left fun r hr =>
            Record.reread_of_readable (hlatencies r (List.mem_of_mem_filter hr))
      _ = (first :: later).flatten.filter f.accepts := List.map_id _
  rw [hsame] at hread
  exact hread

/-- A record whose error has a quote, a backslash, line breaks of each kind, other control
characters, and characters of several bytes. -/
def oddError : Record :=
  { newYear with id := .ofNat 4, error := some "\"\\\r\n\x00\x7f\u2028 \u00e9\n" }

theorem file_gives_back_oddError :
    ∃ b, sessions .file [[oddError], [], [lastSecond, newYear]] (closed bothStores .fresh) =
        .ok ([.ok (), .ok (), .ok ()], b) ∧
      b.fileRecords .all = .ok [oddError, lastSecond, newYear] ∧
      b.fileRecords (sinceNanos 700 (by decide)) = .ok [lastSecond] := by
  have hports : ∀ r ∈ [oddError, lastSecond, newYear], r.Sound := by decide
  have hlatencies : ∀ r ∈ [oddError, lastSecond, newYear], r.latency.ReadsBack := by
    decide +kernel
  obtain ⟨b, hb, hread⟩ := @file_gives_back (closed bothStores .fresh) rfl (Or.inl rfl) [oddError]
    [[], [lastSecond, newYear]] hports hlatencies
  have hlate : [oddError, lastSecond, newYear].filter
      (sinceNanos 700 (by decide)).accepts = [lastSecond] := by decide
  exact ⟨b, hb, hread .all, (hread _).trans (congrArg Except.ok hlate)⟩

/-- The table takes the first record of each identifier, however often it was opened again in
between. It answers with those that the filter accepts once the times of records and bounds are cut
to microseconds, the oldest first, and it counts as many. For it goes by the texts of times, which
are ordered byte by byte as the cut times are. -/
theorem table_finds_in_order {a : Archive} (hblocked : a.blocked = none)
    (hfresh : a.table = .table ⟨none⟩ ∨ a.table = .table .empty) (first : List Record)
    (later : List (List Record)) (hports : ∀ r ∈ (first :: later).flatten, r.Sound) {f : Filter}
    (hf : f.InYears) :
    (∃ answers b, sessions .sqlite (first :: later) a = .ok (answers, b) ∧
      (∀ before r after, (first :: later).flatten = before ++ r :: after →
        answers[before.length]? = some
          (if r.id ∈ before.map (·.id) then .error .writeFailed else .ok ())) ∧
      let kept := taken (first :: later).flatten answers
      (∀ r ∈ kept, r.InYears) → ∃ got, b.tableRecords f = .ok got ∧
        got.Perm ((kept.filter fun r => f.inMicros.accepts r.stored).map Record.stored) ∧
        (got.Pairwise fun r s => r.created.notAfter s.created = true) ∧
        b.tableCount f = .ok got.length) ∧
      ∀ t u : Instant, Instant.FourDigits t.date.year → Instant.FourDigits u.date.year →
        (t.microText.toUTF8.toList < u.microText.toUTF8.toList ↔
          (t.cutTo 1000).before (u.cutTo 1000) = true) := by
  have hopen : a.openOne .sqlite = .ok { a with table := .table (.ofRecords []) } := by
    rcases hfresh with h | h <;> exact openOne_table.mpr ⟨hblocked, _, h, rfl⟩
  obtain ⟨answers, heach, hanswers, -⟩ :=
    @persistEach_sqlite (first :: later).flatten { a with table := .table (.ofRecords []) } [] rfl
  rw [List.nil_append] at heach
  constructor
  · refine ⟨answers, _, (sessions_eq hopen first later).trans (congrArg Except.ok heach),
      hanswers, ?_⟩
    intro kept hyears
    have hkept : ∀ r ∈ kept, r.Sound := fun r hr => hports r (mem_of_mem_taken hr)
    obtain ⟨got, hgot, hperm, hsorted⟩ := @RecordTable.get_sorted f kept
      fun r hr _ => ⟨hkept r hr, hyears r hr⟩
    have hcount := RecordTable.count_ofRecords f kept
    have hlength := hperm.length_eq
    rw [List.length_map] at hlength
    rw [RecordTable.filter_meets hf hyears] at hperm
    refine ⟨got, hgot, hperm, hsorted, ?_⟩
    rw [hlength]
    exact hcount
  · intro t u ht hu
    rw [Lines.bytes_lt, Instant.microText_lt ht hu]

/-- Records from less than a microsecond after a midnight up to a leap second. -/
def upToLastSecond : Filter :=
  { sinceNanos 700 (by decide) with upTo := some lastSecond.created }

theorem table_finds_in_order_lastSecond :
    ∃ answers b got, sessions .sqlite [[lastSecond, newYear], [usedTwice]]
        (closed bothStores .fresh) = .ok (answers, b) ∧
      answers = [.ok (), .ok (), .error .writeFailed] ∧
      b.tableRecords upToLastSecond = .ok got ∧ got = [newYear.stored, lastSecond.stored] ∧
      (got.Pairwise fun r s => r.created.notAfter s.created = true) ∧
      b.tableCount upToLastSecond = .ok 2 := by
  have hports : ∀ r ∈ [lastSecond, newYear, usedTwice], r.Sound := by decide
  have hf : upToLastSecond.InYears :=
    ⟨fun t ht => by cases ht; decide, fun t ht => by cases ht; decide⟩
  have hrun : (sessions .sqlite [[lastSecond, newYear], [usedTwice]]
      (closed bothStores .fresh)).toOption.map
        (fun p => (p.1, (p.2.tableRecords upToLastSecond).toOption)) =
      some ([.ok (), .ok (), .error .writeFailed], some [newYear.stored, lastSecond.stored]) := by
    decide +kernel
  obtain ⟨⟨answers, b, hb, -, hfound⟩, -⟩ := @table_finds_in_order (closed bothStores .fresh)
    rfl (Or.inl rfl) [lastSecond, newYear] [[usedTwice]] hports _ hf
  rw [hb] at hrun
  obtain ⟨rfl, hgot⟩ := Prod.mk.inj (Option.some.inj hrun)
  obtain ⟨got, hfinds, -, hsorted, hcount⟩ := hfound (by decide)
  rw [hfinds] at hgot
  obtain rfl : got = [newYear.stored, lastSecond.stored] := Option.some.inj hgot
  exact ⟨_, b, _, hb, rfl, hfinds, rfl, hsorted, hcount⟩

end Archive

end PolicyProbe
