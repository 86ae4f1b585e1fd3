import PolicyProbe.Archive
import PolicyProbe.Proofs.Json.Plain
import PolicyProbe.Proofs.Record
import PolicyProbe.Proofs.Text.Lines

/-!
The record file. A record is written as one line, since its text has no control character in it, and
that line is read as the record again, with whatever number is read from the text of its latency
(`Record.reread`). The records of a file are what its lines hold (`recordsOf_eq`). No criterion
looks at a latency, so reading answers with the records that the filter accepts, in the order in
which they were written (`read_ofRecords`).
-/
namespace PolicyProbe

/-- The text of a record begins with a brace. -/
theorem Record.exists_text_eq (r : Record) : ∃ rest, r.toJson.text.toList = '\x7b' :: rest := by
  rw [Json.text, String.toList_ofList]
  exact ⟨_, rfl⟩

theorem Record.not_isBlank_text (r : Record) : Blank.isBlank r.toJson.text = false := by
  obtain ⟨rest, hrest⟩ := r.exists_text_eq
  rw [Blank.isBlank, hrest]
  rfl

namespace RecordFile

/-- The file of some records. -/
def ofRecords (rs : List Record) : RecordFile := ⟨.bytes (rs.flatMap lineOf), true⟩

theorem write_ofRecords (r : Record) (rs : List Record) :
    (ofRecords rs).write r = .ok (ofRecords (rs ++ [r])) := by
  have hlines : (rs ++ [r]).flatMap lineOf = rs.flatMap lineOf ++ lineOf r := by
    rw [List.flatMap_append, List.flatMap_singleton]
  rw [ofRecords, ofRecords, hlines]
  rfl

/-- The record that a line holds, if it holds one. -/
def heldBy (line : List UInt8) : Option Record :=
  (Lines.text? line).bind fun text =>
    if Blank.isBlank text then none else (Record.decoder.run text).toOption

/-- Lines are read as what they hold if all are texts, and not at all otherwise. -/
theorem recordsOf_eq (lines : List (List UInt8)) :
    recordsOf lines =
      if lines.all Lines.isText then .ok (lines.filterMap heldBy) else .error .readFailed := by
  induction lines with
  | nil => rfl
  | cons line rest ih =>
    rw [recordsOf, List.all_cons, List.filterMap_cons, Lines.isText, heldBy]
    cases htext : Lines.text? line with
    | none => rfl
    | some text =>
      simp only [Option.isSome_some, Bool.true_and, Option.bind_some, ih]
      cases rest.all Lines.isText with
      | false => rfl
      | true =>
        cases Blank.isBlank text with
        | true => rfl
        | false => cases Record.decoder.run text <;> rfl

theorem heldBy_text {r : Record} (h : r.Sound) :
    heldBy r.toJson.text.toUTF8.toList = some r.reread := by
  have hfound : Record.decoder.run r.toJson.text = .ok r.reread := by
    rw [Json.run_text]
    exact Record.finds_reread h _
  rw [heldBy, Lines.text?_bytes, Option.bind_some, r.not_isBlank_text, hfound]
  rfl

/-- The lines of records are read as these records. -/
theorem recordsOf_lines {rs : List Record} (h : ∀ r ∈ rs, r.Sound) :
    recordsOf (rs.map fun r => r.toJson.text.toUTF8.toList) = .ok (rs.map Record.reread) := by
  have htexts : (rs.map fun r => r.toJson.text.toUTF8.toList).all Lines.isText = true := by
    rw [List.all_map, List.all_eq_true]
    exact fun r _ => Lines.isText_bytes r.toJson.text
  have hheld : (rs.map fun r => r.toJson.text.toUTF8.toList).filterMap heldBy =
      rs.map Record.reread := by
    rw [List.filterMap_map, ← List.filterMap_eq_map]
    exact List.filterMap_congr fun r hr => heldBy_text (h r hr)
  rw [recordsOf_eq, if_pos htexts, hheld]

/-- Reading answers with the records that the filter accepts. -/
theorem read_ofRecords {rs : List Record} (h : ∀ r ∈ rs, r.Sound) (f : Filter) :
    (ofRecords rs).read f = .ok ((rs.filter f.accepts).map Record.reread) := by
  have hlines : Lines.all (rs.flatMap lineOf) = rs.map fun r => r.toJson.text.toUTF8.toList := by
    have htexts : rs.flatMap lineOf = (rs.map fun r => r.toJson.text).flatMap Lines.ofText := by
      rw [List.flatMap_map]
      rfl
    rw [htexts, Lines.all_flatMap_ofText, List.map_map]
    · rfl
    · intro s hs
      obtain ⟨r, -, rfl⟩ := List.mem_map.mp hs
      exact Json.plain_text r.toJson
  have hfilter : (rs.map Record.reread).filter f.accepts =
      (rs.filter f.accepts).map Record.reread := List.filter_map
  rw [read]
  show (do return (← recordsOf (Lines.all (rs.flatMap lineOf))).filter f.accepts) = _
  rw [hlines, recordsOf_lines h, ← hfilter]
  rfl

end RecordFile

end PolicyProbe
