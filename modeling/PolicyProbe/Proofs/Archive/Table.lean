import Mathlib.Data.List.Basic
import PolicyProbe.Archive
import PolicyProbe.Proofs.Instant.Order
import PolicyProbe.Proofs.Record

/-!
The record table. A row is read as the record it was made of, as the table keeps it
(`Record.stored`): its time cut down to microseconds, a zero latency without its sign. That holds in
the years of four digits only. Every other year is written with a sign, which the reader of rows
does not take, so one such row makes every reading fail that selects it
(`record?_ofRecord_of_signed`).

A query pairs its clauses with values by their places; every criterion meets its own column,
whichever others are set (`meets_eq`). Selection and order compare texts. They come down to the
criteria of the filter, and to the order of times, on times that are cut in the same way
(`meets_ofRecord`, `get_sorted`).
-/
namespace PolicyProbe

/-! ## What a table keeps of a record -/

namespace Record

/-- The record as a table keeps it. -/
def stored (r : Record) : Record :=
  { r with
    latency := if r.latency.significand = 0 then .zero false else r.latency
    created := r.created.cutTo 1000 }

/-- Whether the year of a record has four digits. -/
def InYears (r : Record) : Prop := Instant.FourDigits r.created.date.year

instance (r : Record) : Decidable r.InYears := inferInstanceAs (Decidable (_ ∧ _))

end Record

namespace Filter

/-- Whether the years of both bounds have four digits, if there are any. -/
structure InYears (f : Filter) : Prop where
  since : ∀ t ∈ f.since, Instant.FourDigits t.date.year
  upTo : ∀ t ∈ f.upTo, Instant.FourDigits t.date.year

/-- The filter with its bounds cut down to microseconds. -/
def inMicros (f : Filter) : Filter :=
  { f with since := f.since.map (·.cutTo 1000), upTo := f.upTo.map (·.cutTo 1000) }

theorem holds_congr {α : Type} {o : Option α} {p q : α → Bool} (h : ∀ a ∈ o, p a = q a) :
    holds o p = holds o q := by
  cases o with
  | none => rfl
  | some a => exact h a rfl

theorem holds_map {α β : Type} (o : Option α) (g : α → β) (p : β → Bool) :
    holds (o.map g) p = holds o fun a => p (g a) := by
  cases o <;> rfl

theorem accepts_inMicros (f : Filter) (r : Record) : f.inMicros.accepts r.stored =
    (holds f.src (r.src == ·) && holds f.dst (r.dst == ·) && holds f.port (r.port == ·) &&
      holds f.protocol (r.protocol == ·) && holds f.success (r.success == ·) &&
      holds f.since (fun t => (t.cutTo 1000).notAfter (r.created.cutTo 1000)) &&
      holds f.upTo (fun t => (r.created.cutTo 1000).notAfter (t.cutTo 1000))) := by
  simp only [accepts, inMicros, Record.stored, holds_map]

/-- A bound that differs from the time of a record does so by more than was cut. -/
def Clear (f : Filter) (r : Record) : Prop :=
  ∀ t, t ∈ f.since ∨ t ∈ f.upTo → r.created.cutTo 1000 = t.cutTo 1000 → r.created = t

/-- A record that is accepted still is when times are cut. -/
theorem accepts_inMicros_of_accepts {f : Filter} {r : Record} (h : f.accepts r = true) :
    f.inMicros.accepts r.stored = true := by
  have hholds : ∀ {o : Option Instant} {p q : Instant → Bool},
      (∀ t, p t = true → q t = true) → holds o p = true → holds o q = true := by
    intro o p q hpq ho
    cases o with
    | none => rfl
    | some t => exact hpq t ho
  rw [accepts_inMicros]
  simp only [accepts, Bool.and_eq_true] at h ⊢
  obtain ⟨⟨hrest, hsince⟩, hupTo⟩ := h
  exact ⟨⟨hrest, hholds (fun t => Instant.notAfter_cutTo 1000) hsince⟩,
    hholds (fun t => Instant.notAfter_cutTo 1000) hupTo⟩

/-- Away from the bounds, cutting changes no verdict. -/
theorem accepts_inMicros_of_clear {f : Filter} {r : Record} (h : f.Clear r) :
    f.inMicros.accepts r.stored = f.accepts r := by
  have hsince : holds f.since (fun t => (t.cutTo 1000).notAfter (r.created.cutTo 1000)) =
      holds f.since (·.notAfter r.created) := by
    refine holds_congr fun t ht => ?_
    rw [Bool.eq_iff_iff]
    exact Instant.notAfter_cutTo_iff fun heq => (h t (Or.inl ht) heq.symm).symm
  have hupTo : holds f.upTo (fun t => (r.created.cutTo 1000).notAfter (t.cutTo 1000)) =
      holds f.upTo (r.created.notAfter ·) := by
    refine holds_congr fun t ht => ?_
    rw [Bool.eq_iff_iff]
    exact Instant.notAfter_cutTo_iff (h t (Or.inr ht))
  rw [accepts_inMicros, hsince, hupTo]
  rfl

end Filter

namespace RecordRow

theorem protocol_ofName (p : Protocol) : (Protocol.ofName p.name).toOption = some p := by
  cases p <;> decide +kernel

theorem whole?_ofBool (b : Bool) : (Cell.ofBool b).whole? = some (if b then 1 else 0) := rfl

theorem ofBool_inj {a b : Bool} : Cell.ofBool a = Cell.ofBool b ↔ a = b := by
  cases a <;> cases b <;> decide

theorem whole?_whole (v : Int) : (Cell.whole v).whole? = some v := rfl

theorem real?_latency (r : Record) : (Cell.real r.latency).asReal.real? = some r.stored.latency :=
  rfl

/-- A row stands for the record it was made of, as far as the table keeps it. -/
theorem record?_ofRecord {r : Record} (hport : r.Sound) (hyear : r.InYears) :
    (ofRecord r).record? = some r.stored := by
  have hid : Identifier.ofText? r.id.text = some r.id := r.id.ofText?_text
  have hsrc : Address.ofText? r.src.text = some r.src := r.src.ofText?_text
  have hdst : Address.ofText? r.dst.text = some r.dst := r.dst.ofText?_text
  have hrange : ¬((r.port : Int) < 0 ∨ (portBound : Int) ≤ r.port) := by
    have hlt : r.port < portBound := hport
    omega
  have hcreated : Instant.ofExact? r.created.microText.toList = some (r.created.cutTo 1000) := by
    rw [Instant.microText, String.toList_ofList]
    exact Instant.ofExact?_microChars hyear
  have hbool : ∀ b : Bool, ((if b then (1 : Int) else 0) != 0) = b := by decide
  rw [record?]
  simp only [ofRecord, Option.bind_eq_bind, Option.bind_some, hid, hsrc, hdst, whole?_whole,
    if_neg hrange, protocol_ofName, hcreated, real?_latency, whole?_ofBool, hbool,
    Int.toNat_natCast]
  rfl

/-- No row of a year with a sign stands for a record. -/
theorem record?_ofRecord_of_signed {r : Record} (hyear : ¬r.InYears) :
    (ofRecord r).record? = none := by
  have hid : Identifier.ofText? r.id.text = some r.id := r.id.ofText?_text
  have hsrc : Address.ofText? r.src.text = some r.src := r.src.ofText?_text
  have hdst : Address.ofText? r.dst.text = some r.dst := r.dst.ofText?_text
  have hcreated : Instant.ofExact? r.created.microText.toList = none := by
    rw [Instant.microText, String.toList_ofList]
    exact Instant.ofExact?_signed hyear
  rw [record?]
  simp only [ofRecord, Option.bind_eq_bind, Option.bind_some, hid, hsrc, hdst, whole?_whole,
    protocol_ofName, hcreated, Option.bind_none]
  split <;> rfl

end RecordRow

/-! ## Queries -/

namespace Query

/-- As many values as clauses. -/
def Paired (q : Query) : Prop := q.clauses.length = q.values.length

theorem Paired.ask {q : Query} (h : q.Paired) {α : Type} (clause : Clause) (value : α → Cell)
    (criterion : Option α) : (q.ask clause value criterion).Paired := by
  cases criterion with
  | none => exact h
  | some a =>
    show (q.clauses ++ [clause]).length = (q.values ++ [value a]).length
    rw [List.length_append, List.length_append, h]
    rfl

/-- A clause behind others is met with the value behind theirs. -/
theorem meetsAll_concat (row : RecordRow) {clauses : List Clause} {values : List Cell}
    (h : clauses.length = values.length) (clause : Clause) (value : Cell) :
    meetsAll row (clauses ++ [clause]) (values ++ [value]) =
      (meetsAll row clauses values && clause.holds row value) := by
  induction clauses generalizing values with
  | nil =>
    obtain rfl := List.eq_nil_of_length_eq_zero h.symm
    exact Bool.and_comm _ _
  | cons first clauses ih =>
    cases values with
    | nil => cases h
    | cons firstValue values =>
      have hrest := ih (Nat.succ.inj h)
      show (first.holds row firstValue && meetsAll row (clauses ++ [clause]) (values ++ [value])) =
        (first.holds row firstValue && meetsAll row clauses values && clause.holds row value)
      rw [hrest, Bool.and_assoc]

/-- Asking for one more criterion leaves the values of the others where they were. -/
theorem selects_ask {q : Query} (h : q.Paired) {α : Type} (clause : Clause) (value : α → Cell)
    (criterion : Option α) (row : RecordRow) : (q.ask clause value criterion).selects row =
      (q.selects row && Filter.holds criterion fun a => clause.holds row (value a)) := by
  cases criterion with
  | none => exact (Bool.and_true _).symm
  | some a => exact meetsAll_concat row h clause (value a)

end Query

namespace RecordRow

/-- Every criterion that is set meets its own column, whichever others are set. -/
theorem meets_eq (f : Filter) (row : RecordRow) : row.meets f =
    (Filter.holds f.src (row.src == ·.text) && Filter.holds f.dst (row.dst == ·.text) &&
      Filter.holds f.port (row.port == .whole ·) &&
      Filter.holds f.protocol (row.protocol == ·.name) &&
      Filter.holds f.success (row.success == .ofBool ·) &&
      Filter.holds f.since (fun t => !decide (row.created < t.microText)) &&
      Filter.holds f.upTo (fun t => !decide (t.microText < row.created))) := by
  have hempty : Query.empty.Paired := rfl
  have hsrc := hempty.ask .src (fun src : Address => .text src.text) f.src
  have hdst := hsrc.ask .dst (fun dst : Address => .text dst.text) f.dst
  have hport := hdst.ask .port (fun port : Nat => .whole port) f.port
  have hprotocol := hport.ask .protocol (fun p : Protocol => .text p.name) f.protocol
  have hsuccess := hprotocol.ask .success .ofBool f.success
  have hsince := hsuccess.ask .since (fun t : Instant => .text t.microText) f.since
  rw [meets, Query.ofFilter, Query.selects_ask hsince, Query.selects_ask hsuccess,
    Query.selects_ask hprotocol, Query.selects_ask hport, Query.selects_ask hdst,
    Query.selects_ask hsrc, Query.selects_ask hempty]
  rfl

/-- Rows are selected as their records are accepted once all times are cut to microseconds. -/
theorem meets_ofRecord {f : Filter} (hf : f.InYears) {r : Record} (hr : r.InYears) :
    (ofRecord r).meets f = f.inMicros.accepts r.stored := by
  have hends : ∀ (o : Option Address) (a : Address),
      Filter.holds o (a.text == ·.text) = Filter.holds o fun b => a == b := by
    intro o a
    refine Filter.holds_congr fun b _ => ?_
    rw [Bool.eq_iff_iff, beq_iff_eq, beq_iff_eq]
    exact ⟨fun h => Address.text_injective h, fun h => h ▸ rfl⟩
  have hport : Filter.holds f.port (Cell.whole r.port == .whole ·) =
      Filter.holds f.port fun port => r.port == port := by
    refine Filter.holds_congr fun port _ => ?_
    rw [Bool.eq_iff_iff, beq_iff_eq, beq_iff_eq, Cell.whole.injEq]
    omega
  have hproto : Filter.holds f.protocol (r.protocol.name == ·.name) =
      Filter.holds f.protocol fun p => r.protocol == p := by
    refine Filter.holds_congr fun p _ => ?_
    cases p <;> cases r.protocol <;> decide
  have hsuccess : Filter.holds f.success (Cell.ofBool r.success == .ofBool ·) =
      Filter.holds f.success fun b => r.success == b := by
    refine Filter.holds_congr fun b _ => ?_
    rw [Bool.eq_iff_iff, beq_iff_eq, beq_iff_eq, ofBool_inj]
  have hsince : Filter.holds f.since (fun t => !decide (r.created.microText < t.microText)) =
      Filter.holds f.since fun t => (t.cutTo 1000).notAfter (r.created.cutTo 1000) := by
    refine Filter.holds_congr fun t ht => ?_
    rw [Instant.notAfter, Bool.eq_iff_iff]
    simp [Instant.microText_lt hr (hf.since t ht)]
  have hupTo : Filter.holds f.upTo (fun t => !decide (t.microText < r.created.microText)) =
      Filter.holds f.upTo fun t => (r.created.cutTo 1000).notAfter (t.cutTo 1000) := by
    refine Filter.holds_congr fun t ht => ?_
    rw [Instant.notAfter, Bool.eq_iff_iff]
    simp [Instant.microText_lt (hf.upTo t ht) hr]
  rw [meets_eq, Filter.accepts_inMicros, ← hends, ← hends, ← hport, ← hproto, ← hsuccess,
    ← hsince, ← hupTo]
  rfl

end RecordRow

/-! ## Reading rows -/

section Reading

variable {α β : Type} {f : α → Option β}

theorem mapM_eq_filterMap {as : List α} (h : ∀ a ∈ as, (f a).isSome) :
    as.mapM f = some (as.filterMap f) := by
  induction as with
  | nil => rfl
  | cons a as ih =>
    obtain ⟨b, hb⟩ := Option.isSome_iff_exists.mp (h a List.mem_cons_self)
    have has := ih fun a ha => h a (List.mem_cons_of_mem _ ha)
    rw [List.mapM_cons, hb, has, List.filterMap_cons_some hb]
    rfl

theorem mapM_eq_none {as : List α} {a : α} (hmem : a ∈ as) (h : f a = none) :
    as.mapM f = none := by
  induction as with
  | nil => exact absurd hmem List.not_mem_nil
  | cons b as ih =>
    rw [List.mapM_cons]
    rcases List.mem_cons.mp hmem with rfl | hmem
    · rw [h]
      rfl
    · rw [ih hmem]
      cases f b <;> rfl

end Reading

namespace RecordTable

/-- The table of some records. -/
def ofRecords (rs : List Record) : RecordTable := ⟨some (rs.map RecordRow.ofRecord)⟩

theorem place_perm (row : RecordRow) (rows : List RecordRow) :
    (place row rows).Perm (row :: rows) := by
  induction rows with
  | nil => exact List.Perm.refl _
  | cons first rest ih =>
    unfold place
    split
    · exact List.Perm.refl _
    · exact (ih.cons first).trans (List.Perm.swap row first rest)

theorem ordered_perm (rows : List RecordRow) : (ordered rows).Perm rows := by
  have hfold : ∀ (rows sorted : List RecordRow),
      (rows.foldl (fun sorted row => place row sorted) sorted).Perm (rows ++ sorted) := by
    intro rows
    induction rows with
    | nil => exact fun sorted => List.Perm.refl sorted
    | cons row rows ih =>
      intro sorted
      have hplaced : (rows ++ place row sorted).Perm (rows ++ row :: sorted) :=
        (place_perm row sorted).append_left rows
      exact (ih (place row sorted)).trans (hplaced.trans List.perm_middle)
  have h := hfold rows []
  rwa [List.append_nil] at h

theorem place_sorted (row : RecordRow) {rows : List RecordRow}
    (h : rows.Pairwise fun a b => a.created ≤ b.created) :
    (place row rows).Pairwise fun a b => a.created ≤ b.created := by
  induction rows with
  | nil => exact List.pairwise_singleton _ row
  | cons first rest ih =>
    obtain ⟨hfirst, hrest⟩ := List.pairwise_cons.mp h
    unfold place
    split
    · rename_i hlt
      have hle : row.created ≤ first.created := String.not_lt.mp (String.lt_asymm hlt)
      refine List.pairwise_cons.mpr ⟨fun b hb => ?_, h⟩
      rcases List.mem_cons.mp hb with rfl | hb
      · exact hle
      · exact String.le_trans hle (hfirst b hb)
    · rename_i hle
      refine List.pairwise_cons.mpr ⟨fun b hb => ?_, ih hrest⟩
      rcases List.mem_cons.mp ((place_perm row rest).mem_iff.mp hb) with rfl | hb
      · exact String.not_lt.mp hle
      · exact hfirst b hb

/-- The rows are in the order of their times. -/
theorem ordered_sorted (rows : List RecordRow) :
    (ordered rows).Pairwise fun a b => a.created ≤ b.created := by
  have hfold : ∀ (rows sorted : List RecordRow),
      (sorted.Pairwise fun a b => a.created ≤ b.created) →
        (rows.foldl (fun sorted row => place row sorted) sorted).Pairwise
          fun a b => a.created ≤ b.created := by
    intro rows
    induction rows with
    | nil => exact fun sorted h => h
    | cons row rows ih => exact fun sorted h => ih (place row sorted) (place_sorted row h)
  exact hfold rows [] List.Pairwise.nil

theorem selected_ofRecords (f : Filter) (rs : List Record) : (ofRecords rs).selected f =
    .ok ((rs.filter fun r => (RecordRow.ofRecord r).meets f).map RecordRow.ofRecord) := by
  have hfilter : (rs.map RecordRow.ofRecord).filter (RecordRow.meets f) =
      (rs.filter fun r => (RecordRow.ofRecord r).meets f).map RecordRow.ofRecord :=
    List.filter_map
  exact congrArg Except.ok hfilter

/-- Counting goes by rows. -/
theorem count_ofRecords (f : Filter) (rs : List Record) : (ofRecords rs).count f =
    .ok (rs.filter fun r => (RecordRow.ofRecord r).meets f).length := by
  rw [count, selected_ofRecords]
  show Except.ok (List.map _ _).length = _
  rw [List.length_map]

/-- Reading is all or nothing: what the selected rows are as records, if each is one. -/
theorem get_eq {f : Filter} {rs : List Record} {found : Option (List Record)}
    (h : (ordered ((rs.filter fun r => (RecordRow.ofRecord r).meets f).map
      RecordRow.ofRecord)).mapM RecordRow.record? = found) :
    (ofRecords rs).get f = found.elim (.error .readFailed) .ok := by
  subst h
  rw [get, selected_ofRecords]
  simp only [bind, Except.bind]
  cases (ordered _).mapM RecordRow.record? <;> rfl

/-- Reading answers with the selected records as the table keeps them, the oldest first. -/
theorem get_sorted {f : Filter} {rs : List Record}
    (h : ∀ r ∈ rs, (RecordRow.ofRecord r).meets f = true → r.Sound ∧ r.InYears) :
    ∃ out, (ofRecords rs).get f = .ok out ∧
      out.Perm ((rs.filter fun r => (RecordRow.ofRecord r).meets f).map Record.stored) ∧
      out.Pairwise fun r s => r.created.notAfter s.created = true := by
  let chosen := rs.filter fun r => (RecordRow.ofRecord r).meets f
  let rows := ordered (chosen.map RecordRow.ofRecord)
  have hperm : rows.Perm (chosen.map RecordRow.ofRecord) := ordered_perm _
  have hchosen : ∀ r ∈ chosen, r.InYears ∧ (RecordRow.ofRecord r).record? = some r.stored := by
    intro r hr
    obtain ⟨hmem, hmeets⟩ := List.mem_filter.mp hr
    obtain ⟨hport, hyear⟩ := h r hmem hmeets
    exact ⟨hyear, RecordRow.record?_ofRecord hport hyear⟩
  have hrows : ∀ row ∈ rows, ∃ r ∈ chosen, RecordRow.ofRecord r = row := fun row hrow =>
    List.mem_map.mp (hperm.mem_iff.mp hrow)
  have hsome : ∀ row ∈ rows, row.record?.isSome := by
    intro row hrow
    obtain ⟨r, hr, rfl⟩ := hrows row hrow
    rw [(hchosen r hr).2]
    rfl
  have hstored : (chosen.map RecordRow.ofRecord).filterMap RecordRow.record? =
      chosen.map Record.stored := by
    rw [List.filterMap_map]
    exact List.filterMap_eq_map_iff_forall_eq_some.mpr fun r hr => (hchosen r hr).2
  refine ⟨rows.filterMap RecordRow.record?, get_eq (mapM_eq_filterMap hsome), ?_, ?_⟩
  · rw [← hstored]
    exact hperm.filterMap RecordRow.record?
  · -- Texts of years with four digits are in order as the times that the table keeps.
    rw [List.pairwise_filterMap]
    refine (ordered_sorted (chosen.map RecordRow.ofRecord)).imp_of_mem ?_
    intro row row' hrow hrow' hle s hs s' hs'
    obtain ⟨r, hr, rfl⟩ := hrows row hrow
    obtain ⟨r', hr', rfl⟩ := hrows row' hrow'
    obtain ⟨hyear, hread⟩ := hchosen r hr
    obtain ⟨hyear', hread'⟩ := hchosen r' hr'
    obtain rfl : r.stored = s := Option.some.inj (hread.symm.trans hs)
    obtain rfl : r'.stored = s' := Option.some.inj (hread'.symm.trans hs')
    have hnot : ¬(r'.created.cutTo 1000).before (r.created.cutTo 1000) = true := by
      rw [← Instant.microText_lt hyear' hyear]
      exact String.not_lt.mpr hle
    show (!(r'.created.cutTo 1000).before (r.created.cutTo 1000)) = true
    rw [Bool.eq_false_iff.mpr hnot]
    rfl

theorem get_ofRecords {f : Filter} {rs : List Record}
    (h : ∀ r ∈ rs, (RecordRow.ofRecord r).meets f = true → r.Sound ∧ r.InYears) :
    ∃ out, (ofRecords rs).get f = .ok out ∧
      out.Perm ((rs.filter fun r => (RecordRow.ofRecord r).meets f).map Record.stored) := by
  obtain ⟨out, hget, hperm, -⟩ := get_sorted h
  exact ⟨out, hget, hperm⟩

/-- With bounds in years of four digits, the criteria of the filter select the records, on cut
times. -/
theorem filter_meets {f : Filter} (hf : f.InYears) {rs : List Record}
    (hyears : ∀ r ∈ rs, r.InYears) : rs.filter (fun r => (RecordRow.ofRecord r).meets f) =
      rs.filter fun r => f.inMicros.accepts r.stored :=
  List.filter_congr fun r hr => RecordRow.meets_ofRecord hf (hyears r hr)

theorem get_inMicros {f : Filter} (hf : f.InYears) {rs : List Record} (hports : ∀ r ∈ rs, r.Sound)
    (hyears : ∀ r ∈ rs, r.InYears) : ∃ out, (ofRecords rs).get f = .ok out ∧
      out.Perm ((rs.filter fun r => f.inMicros.accepts r.stored).map Record.stored) := by
  rw [← filter_meets hf hyears]
  exact get_ofRecords fun r hr _ => ⟨hports r hr, hyears r hr⟩

/-- One selected row of a year with a sign makes the whole reading fail. -/
theorem get_ofRecords_of_signed {f : Filter} {rs : List Record} {r : Record} (hr : r ∈ rs)
    (hmeets : (RecordRow.ofRecord r).meets f = true) (hyear : ¬r.InYears) :
    (ofRecords rs).get f = .error .readFailed := by
  have hrow : RecordRow.ofRecord r ∈ ordered ((rs.filter fun r =>
      (RecordRow.ofRecord r).meets f).map RecordRow.ofRecord) :=
    (ordered_perm _).mem_iff.mpr (List.mem_map_of_mem (List.mem_filter.mpr ⟨hr, hmeets⟩))
  exact get_eq (mapM_eq_none hrow (RecordRow.record?_ofRecord_of_signed hyear))

/-! ## Adding records -/

theorem any_id_eq (r : Record) (rs : List Record) :
    (rs.map RecordRow.ofRecord).any (·.id == (RecordRow.ofRecord r).id) = true ↔
      r.id ∈ rs.map (·.id) := by
  rw [List.any_map, List.any_eq_true]
  simp only [List.mem_map, Function.comp, RecordRow.ofRecord, beq_iff_eq, Option.some.injEq]
  constructor
  · rintro ⟨x, hx, h⟩
    exact ⟨x, hx, Identifier.text_injective h⟩
  · rintro ⟨x, hx, h⟩
    exact ⟨x, hx, congrArg Identifier.text h⟩

theorem persist_ofRecords (r : Record) (rs : List Record) : (ofRecords rs).persist r =
    if r.id ∈ rs.map (·.id) then .error .writeFailed else .ok (ofRecords (rs ++ [r])) := by
  have hany := any_id_eq r rs
  show (if (RecordRow.ofRecord r).id.isSome && (rs.map RecordRow.ofRecord).any
    (·.id == (RecordRow.ofRecord r).id) then Except.error StorageError.writeFailed
    else Except.ok (⟨some (rs.map RecordRow.ofRecord ++ [RecordRow.ofRecord r])⟩ : RecordTable)) = _
  have hsome : (RecordRow.ofRecord r).id.isSome = true := rfl
  rw [hsome, Bool.true_and]
  by_cases hid : r.id ∈ rs.map (·.id)
  · rw [if_pos (hany.mpr hid), if_pos hid]
  · rw [if_neg (mt hany.mp hid), if_neg hid, ofRecords, List.map_append]
    rfl

end RecordTable

end PolicyProbe
