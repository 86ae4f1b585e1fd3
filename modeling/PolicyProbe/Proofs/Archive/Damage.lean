import PolicyProbe.Proofs.Archive.Queries

/-!
A record file with damage in it: bytes of any kind before the file was opened, and writes that
failed behind some bytes of their line (`Call.torn`). Reading answers with what each line holds
(`heldBy`), unless some line is no text: then it fails, and no record is read at all. A record that
was taken at the start of a line is among the answer, in the order of the calls
(`taken_found_unless_fault`). One that was taken behind an unended line is a part of that line, so
each piece of an unended line can hide the record after it, and no other. `damage_hides` shows both
kinds of loss.
-/
namespace PolicyProbe.RecordFile

/-! ## What is read -/

theorem read_all_bytes (content : List UInt8) (attached : Bool) :
    read .all ⟨.bytes content, attached⟩ =
      if (Lines.all content).all Lines.isText then .ok ((Lines.all content).filterMap heldBy)
      else .error .readFailed := by
  have hall : ∀ rs : List Record, rs.filter Filter.all.accepts = rs := fun rs =>
    List.filter_eq_self.mpr fun _ _ => rfl
  rw [read]
  simp only [recordsOf_eq]
  split
  · exact congrArg Except.ok (hall _)
  · rfl

/-- The line of a record. -/
theorem all_lineOf (r : Record) : Lines.all (lineOf r) = [r.toJson.text.toUTF8.toList] :=
  Lines.all_ofText (Json.plain_text r.toJson)

/-! ## Calls -/

/-- A call that hands a record to the file: the whole line is written, or the call fails when at
most some number of its bytes were written, and not all. -/
inductive Call where
  | taken (r : Record)
  | torn (r : Record) (most : Nat)

namespace Call

/-- The record that is handed to the file. -/
def record : Call → Record
  | .taken r => r
  | .torn r _ => r

/-- The record, if the call succeeds. -/
def taken? : Call → Option Record
  | .taken r => some r
  | .torn _ _ => none

/-- Whether the call fails. -/
def fails (c : Call) : Bool := c.taken?.isNone

/-- The bytes of a line that a call leaves when it fails. -/
def part (r : Record) (most : Nat) : List UInt8 := (lineOf r).dropLast.take most

theorem part_eq (r : Record) (most : Nat) : part r most = r.toJson.text.toUTF8.toList.take most :=
  congrArg (List.take most) List.dropLast_concat

/-- The bytes that a call adds. -/
def bytes : Call → List UInt8
  | .taken r => lineOf r
  | .torn r most => part r most

/-- What a call makes of the file. -/
def run (f : RecordFile) : Call → Except SystemError RecordFile
  | .taken r => f.write r
  | .torn r most => do return { f with content := ← appendBytes f.content (part r most) }

theorem run_bytes (content : List UInt8) (c : Call) :
    run ⟨.bytes content, true⟩ c = .ok ⟨.bytes (content ++ c.bytes), true⟩ := by
  cases c <;> rfl

/-- A failed call does not end a line. -/
theorem lineFeed_not_mem_part (r : Record) (most : Nat) : Lines.lineFeed ∉ part r most := by
  rw [part_eq]
  intro hmem
  exact (Lines.ne_of_le ((Json.plain_text r.toJson).bytes _ (List.mem_of_mem_take hmem))).1 rfl

end Call

/-- The file that is opened on some bytes, once some calls were made on it. -/
def after (init : List UInt8) (calls : List Call) : Except SystemError RecordFile := do
  calls.foldlM Call.run (← open? (.bytes init))

theorem after_eq (init : List UInt8) (calls : List Call) :
    after init calls = .ok ⟨.bytes (init ++ calls.flatMap Call.bytes), true⟩ := by
  show calls.foldlM Call.run ⟨.bytes init, true⟩ = _
  induction calls generalizing init with
  | nil => rw [List.flatMap_nil, List.append_nil]; rfl
  | cons c calls ih =>
    rw [List.foldlM_cons, Call.run_bytes, List.flatMap_cons, ← List.append_assoc]
    exact ih _

/-! ## Records at the start of a line -/

/-- The records that were taken at the start of a line, where `unended` are the bytes behind the
last line feed before the calls. -/
def intact (unended : List UInt8) : List Call → List Record
  | [] => []
  | .taken r :: calls => (if unended = [] then [r] else []) ++ intact [] calls
  | .torn r most :: calls => intact (unended ++ Call.part r most) calls

/-- They are among the records that were taken, in the order of the calls. -/
theorem intact_sublist_taken (unended : List UInt8) (calls : List Call) :
    (intact unended calls).Sublist (calls.filterMap Call.taken?) := by
  induction calls generalizing unended with
  | nil => exact .slnil
  | cons c calls ih =>
    cases c with
    | torn r most => exact ih _
    | taken r =>
      rw [intact]
      by_cases h : unended = []
      · rw [if_pos h]
        exact (ih []).cons_cons r
      · rw [if_neg h]
        exact (ih []).cons r

/-- All but one for each failed call, and one for an unended line before the calls. -/
theorem length_taken_le (unended : List UInt8) (calls : List Call) :
    (calls.filterMap Call.taken?).length ≤
      (intact unended calls).length + calls.countP Call.fails + min unended.length 1 := by
  induction calls generalizing unended with
  | nil => exact Nat.zero_le _
  | cons c calls ih =>
    cases c with
    | torn r most =>
      have hrest := ih (unended ++ Call.part r most)
      have hcount : (Call.torn r most :: calls).countP Call.fails =
          calls.countP Call.fails + 1 := List.countP_cons_of_pos rfl
      have hone : min (unended ++ Call.part r most).length 1 ≤ 1 := Nat.min_le_right _ 1
      rw [intact, hcount, List.filterMap_cons_none rfl]
      omega
    | taken r =>
      have hrest := ih []
      have hcount : (Call.taken r :: calls).countP Call.fails = calls.countP Call.fails :=
        List.countP_cons_of_neg Bool.false_ne_true
      have hnil : min ([] : List UInt8).length 1 = 0 := rfl
      have htaken : (Call.taken r :: calls).filterMap Call.taken? =
          r :: calls.filterMap Call.taken? := List.filterMap_cons_some rfl
      rw [intact, hcount, htaken, List.length_cons, List.length_append]
      by_cases h : unended = []
      · rw [if_pos h, List.length_singleton]
        omega
      · have hpos : min unended.length 1 = 1 :=
          Nat.min_eq_right (List.length_pos_iff.mpr h)
        rw [if_neg h, List.length_nil]
        omega

/-- What is taken at the start of a line is held by a line of the file. -/
theorem intact_sublist_held {calls : List Call} (h : ∀ c ∈ calls, c.record.Sound)
    (content : List UInt8) :
    ((intact (Lines.unended content) calls).map Record.reread).Sublist
      ((Lines.all (content ++ calls.flatMap Call.bytes)).filterMap heldBy) := by
  induction calls generalizing content with
  | nil => exact List.nil_sublist _
  | cons c calls ih =>
    have hrest := ih fun d hd => h d (List.mem_cons_of_mem c hd)
    rw [List.flatMap_cons, ← List.append_assoc]
    cases c with
    | torn r most =>
      -- The line goes on, so the bytes written are a part of what is unended.
      have hcontent := hrest (content ++ Call.part r most)
      rwa [Lines.unended_append (Call.lineFeed_not_mem_part r most)] at hcontent
    | taken r =>
      have hended : Lines.unended (content ++ lineOf r) = [] :=
        Lines.unended_ofText content r.toJson.text
      have hbehind := hrest []
      rw [Call.bytes, Lines.all_append_of_ended hended, List.filterMap_append, intact,
        List.map_append]
      refine List.Sublist.append ?_ hbehind
      by_cases hstart : Lines.unended content = []
      · have hsound : r.Sound := h _ List.mem_cons_self
        rw [if_pos hstart, Lines.all_append_of_ended hstart, all_lineOf, List.filterMap_append,
          List.filterMap_cons_some (heldBy_text hsound)]
        exact List.sublist_append_right _ _
      · rw [if_neg hstart]
        exact List.nil_sublist _

/-! ## A record behind an unended line -/

/-- A call that fails behind one byte leaves a brace. -/
theorem part_one (r : Record) : Call.part r 1 = [0x7b] := by
  obtain ⟨rest, hrest⟩ := r.exists_text_eq
  rw [Call.part_eq, Lines.bytes_eq, hrest]
  rfl

/-- The line of the next record goes on with that brace. -/
theorem part_append_lineOf (r s : Record) :
    Call.part r 1 ++ lineOf s = Lines.ofText ("\x7b" ++ s.toJson.text) := by
  rw [part_one, lineOf, Lines.ofText, Lines.ofText, Lines.bytes_eq, Lines.bytes_eq,
    String.toList_append, List.flatMap_append, List.append_assoc]
  rfl

theorem plain_brace (s : Record) : Lines.Plain ("\x7b" ++ s.toJson.text).toList := by
  rw [String.toList_append]
  exact (Json.plain_text s.toJson).cons (by decide)

/-- Nothing is held by a line of a record with another brace before it. -/
theorem heldBy_brace (s : Record) : heldBy ("\x7b" ++ s.toJson.text).toUTF8.toList = none := by
  obtain ⟨rest, hrest⟩ := s.exists_text_eq
  have htext : ("\x7b" ++ s.toJson.text).toList = '\x7b' :: '\x7b' :: rest := by
    rw [String.toList_append, hrest]
    rfl
  have hread : Reading.ofText ('\x7b' :: '\x7b' :: rest) = (.object [] .cut, false) := rfl
  have hrun : (Record.decoder.run ("\x7b" ++ s.toJson.text)).toOption = none := by
    rw [Decoder.run, htext, hread]
    rfl
  rw [heldBy, Lines.text?_bytes, Option.bind_some, hrun, ite_self]

/-! ## What is found -/

/-- Whatever the file held before and wherever calls failed: unless some line is no text, all
records that were taken at the start of a line are read, in the order of the calls. All records that
were taken are such, but for one behind each failed call and one behind what the file held before.
When some line is no text, nothing is read. -/
theorem taken_found_unless_fault (init : List UInt8) {calls : List Call}
    (h : ∀ c ∈ calls, c.record.Sound) :
    ∃ content, after init calls = .ok ⟨.bytes content, true⟩ ∧
      ((∀ line ∈ Lines.all content, Lines.isText line) →
        ∃ rs, read .all ⟨.bytes content, true⟩ = .ok rs ∧
          ((intact (Lines.unended init) calls).map Record.reread).Sublist rs) ∧
      ((∃ line ∈ Lines.all content, ¬Lines.isText line) →
        read .all ⟨.bytes content, true⟩ = .error .readFailed) ∧
      (intact (Lines.unended init) calls).Sublist (calls.filterMap Call.taken?) ∧
      (calls.filterMap Call.taken?).length ≤
        (intact (Lines.unended init) calls).length + calls.countP Call.fails +
          min (Lines.unended init).length 1 := by
  refine ⟨_, after_eq init calls, ?_, ?_, intact_sublist_taken _ _, length_taken_le _ _⟩
  · intro htext
    refine ⟨_, ?_, intact_sublist_held h init⟩
    rw [read_all_bytes, if_pos (List.all_eq_true.mpr htext)]
  · rintro ⟨line, hline, hfault⟩
    rw [read_all_bytes, if_neg]
    exact fun htext => hfault (List.all_eq_true.mp htext line hline)

/-- A call that fails, a record behind it, and one more. -/
def mended : List Call :=
  [.torn Archive.newYear 1, .taken Archive.usedTwice, .taken Archive.newYear]

theorem taken_found_unless_fault_mended :
    (∀ c ∈ mended, c.record.Sound) ∧
      ∃ content rs, after [] mended = .ok ⟨.bytes content, true⟩ ∧
        read .all ⟨.bytes content, true⟩ = .ok rs ∧ [Archive.newYear.reread].Sublist rs := by
  have hsound : ∀ c ∈ mended, c.record.Sound := by decide
  have htexts : mended.flatMap Call.bytes =
      ["\x7b" ++ Archive.usedTwice.toJson.text, Archive.newYear.toJson.text].flatMap
        Lines.ofText := by
    rw [List.flatMap_cons, ← part_append_lineOf Archive.newYear, List.append_assoc]
    rfl
  have hplain : ∀ text ∈ ["\x7b" ++ Archive.usedTwice.toJson.text, Archive.newYear.toJson.text],
      Lines.Plain text.toList := by
    intro text htext
    rcases List.mem_cons.mp htext with rfl | htext
    · exact plain_brace _
    · rw [List.mem_singleton.mp htext]
      exact Json.plain_text _
  obtain ⟨content, hafter, hfound, -⟩ := taken_found_unless_fault [] hsound
  have hcontent : content = mended.flatMap Call.bytes := by
    rw [after_eq, List.nil_append, Except.ok.injEq, RecordFile.mk.injEq,
      FileContent.bytes.injEq] at hafter
    exact hafter.1.symm
  have hlines : ∀ line ∈ Lines.all content, Lines.isText line = true := by
    rw [hcontent, htexts, Lines.all_flatMap_ofText hplain]
    intro line hline
    obtain ⟨text, -, rfl⟩ := List.mem_map.mp hline
    exact Lines.isText_bytes text
  have hintact : intact (Lines.unended []) mended = [Archive.newYear] := by
    rw [mended, intact, part_one]
    rfl
  obtain ⟨rs, hread, hsublist⟩ := hfound hlines
  rw [hintact, List.map_singleton] at hsublist
  exact ⟨hsound, content, rs, hafter, hread, hsublist⟩

/-- A line that is no text before every record. -/
def faulty : List UInt8 := Lines.ofLines [[0xFF]]

/-- The record behind a line that is no text is not read, and neither is the one behind a call that
failed. -/
theorem damage_hides :
    (∃ f, after faulty [.taken Archive.newYear] = .ok f ∧ f.read .all = .error .readFailed) ∧
      ∃ f, after [] [.torn Archive.newYear 1, .taken Archive.newYear] = .ok f ∧
        f.read .all = .ok [] := by
  refine ⟨⟨_, after_eq _ _, ?_⟩, ⟨_, after_eq _ _, ?_⟩⟩
  · have hlines : ∀ line ∈ [[(0xFF : UInt8)]], Lines.lineFeed ∉ line := by decide
    rw [read_all_bytes, faulty, Lines.all_ofLines_append hlines]
    rfl
  · have hcontent : [] ++ [Call.torn Archive.newYear 1, .taken Archive.newYear].flatMap Call.bytes =
        Lines.ofText ("\x7b" ++ Archive.newYear.toJson.text) := by
      rw [List.nil_append, List.flatMap_cons, List.flatMap_singleton]
      exact part_append_lineOf Archive.newYear Archive.newYear
    rw [hcontent, read_all_bytes, Lines.all_ofText (plain_brace _), List.all_cons,
      Lines.isText_bytes, List.filterMap_cons_none (heldBy_brace _)]
    rfl

end PolicyProbe.RecordFile
