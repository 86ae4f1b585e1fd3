import PolicyProbe.Failure
import PolicyProbe.Record.Filter
import PolicyProbe.Text.Blank
import PolicyProbe.Text.Lines

/-!
The record file: one record a line, as compact JSON. Writing appends a whole line. Reading goes
through the lines in order, passes over blank lines and lines that are no record, and fails at the
first line that is no text.
-/
namespace PolicyProbe

/-- What is found under the path of the record file. -/
inductive FileContent where
  | absent
  | unmakeable
  | bytes (content : List UInt8)
  | directory
  | fullDevice
  deriving DecidableEq

/-- The record file with the handle of the store: the handle is attached unless the file was removed
after it was opened. -/
structure RecordFile where
  content : FileContent
  attached : Bool

namespace RecordFile

/-- Opens the file, and creates it when it is missing. -/
def open? (content : FileContent) : Except SystemError RecordFile :=
  match content with
  | .absent => .ok ⟨.bytes [], true⟩
  | .unmakeable => .error .noSuchFile
  | .directory => .error .isDirectory
  | content => .ok ⟨content, true⟩

/-- The line of a record with its line break. -/
def lineOf (r : Record) : List UInt8 := Lines.ofText r.toJson.text

/-- Adds bytes at the end of what is under the path. -/
def appendBytes (content : FileContent) (bytes : List UInt8) : Except SystemError FileContent :=
  match content with
  | .absent => .ok (.bytes bytes)
  | .unmakeable => .error .noSuchFile
  | .bytes old => .ok (.bytes (old ++ bytes))
  | .directory => .error .isDirectory
  | .fullDevice => .error .noSpace

/-- Writes a record through the handle. What goes to a removed file is not found again. -/
def write (r : Record) (f : RecordFile) : Except SystemError RecordFile :=
  if f.attached then do return { f with content := ← appendBytes f.content (lineOf r) }
  else .ok f

/-- Removes the file; whether it was there. -/
def remove (f : RecordFile) : Bool × RecordFile :=
  match f.content with
  | .absent | .unmakeable | .directory => (false, f)
  | _ => (true, ⟨.absent, false⟩)

/-- The records among some lines. -/
def recordsOf : List (List UInt8) → Except StorageError (List Record)
  | [] => .ok []
  | line :: rest =>
    match Lines.text? line with
    | none => .error .readFailed
    | some text => do
      let records ← recordsOf rest
      if Blank.isBlank text then return records
      match Record.decoder.run text with
      | .ok r => return r :: records
      | .error _ => return records

/-- The records of the file that a filter accepts, in the order in which they were written. -/
def read (filter : Filter) (f : RecordFile) : Except StorageError (List Record) :=
  match f.content with
  | .bytes content => do return (← recordsOf (Lines.all content)).filter filter.accepts
  | _ => .error .readFailed

end RecordFile

end PolicyProbe
