import PolicyProbe.Archive.File
import PolicyProbe.Archive.Store
import PolicyProbe.Archive.Table

/-!
The archive: the stores that settings ask for, in one directory. Records go to the log, to the
record file and to the record table; every kind has a fixed place, so two stores of one kind share
it. Opening goes through the kinds in order and stops at the first that cannot be opened.
-/
namespace PolicyProbe

/-- What is found under the path of the record table. -/
inductive TableContent where
  | table (t : RecordTable)
  | directory
  | garbage

/-- The directory of the archive: why it cannot be made, if so, and what is in it. -/
structure RecordDirectory where
  blocked : Option SystemError
  file : FileContent
  table : TableContent

/-- A directory with nothing in it. -/
def RecordDirectory.fresh : RecordDirectory := ⟨none, .absent, .table ⟨none⟩⟩

/-- The stores of one directory and the notices of their work. -/
structure Archive where
  path : String
  backends : List RecordBackend
  blocked : Option SystemError
  file : RecordFile
  table : TableContent
  notices : List Notice

namespace Archive

/-- The path of the record file in a directory. -/
def filePath (directory : String) : String := Path.join directory "records.jsonl"

/-- The archive of a directory before anything is opened. -/
def closed (settings : RecorderSettings) (d : RecordDirectory) : Archive where
  path := settings.path
  backends := settings.backends
  blocked := d.blocked
  file := ⟨d.file, false⟩
  table := d.table
  notices := []

/-- A result, or a failure to open with what the log says about it. -/
abbrev Opening (α : Type) := Except (StorageError × List Notice) α

/-- Opens the record file. -/
def openFile (a : Archive) : Opening Archive :=
  match a.blocked with
  | some e =>
    .error (.writeFailed, [.recordDirectory ((Path.parent? (filePath a.path)).getD "") e])
  | none =>
    match RecordFile.open? a.file.content with
    | .error e => .error (.connectionFailed, [.recordFile (filePath a.path) e])
    | .ok file => .ok { a with file }

/-- Opens the record table. -/
def openTable (a : Archive) : Opening Archive :=
  match a.blocked, a.table with
  | some _, _ => .error (.writeFailed, [])
  | none, .directory => .error (.connectionFailed, [])
  | none, .garbage => .error (.writeFailed, [])
  | none, .table t => .ok { a with table := .table t.create }

/-- Opens the store of one kind. -/
def openOne (a : Archive) : RecordBackend → Opening Archive
  | .log => .ok a
  | .file => a.openFile
  | .sqlite => a.openTable

/-- Opens the stores that settings ask for. -/
def open? (settings : RecorderSettings) (d : RecordDirectory) : Opening Archive :=
  settings.backends.foldlM openOne (closed settings d)

/-- Adds a notice. -/
def say (n : Notice) (a : Archive) : Archive := { a with notices := a.notices ++ [n] }

/-- Writes a record to the log. -/
def persistLog : Persist Record Archive := fun r a => (.ok (), a.say (.record r))

/-- Writes a record to the record file. -/
def persistFile : Persist Record Archive := fun r a =>
  match a.file.write r with
  | .ok file => (.ok (), { a with file })
  | .error e => (.error .writeFailed, a.say (.recordWrite (filePath a.path) e))

/-- Adds a record to the record table. -/
def persistTable : Persist Record Archive := fun r a =>
  match a.table with
  | .table t =>
    match t.persist r with
    | .ok t => (.ok (), { a with table := .table t })
    | .error e => (.error e, a)
  | _ => (.error .writeFailed, a)

/-- The store of a kind. -/
def store : RecordBackend → RecordStore Archive
  | .log => ⟨"log", persistLog⟩
  | .file => ⟨"file", persistFile⟩
  | .sqlite => ⟨"sqlite", persistTable⟩

/-- What a fan-out says about a store that refused a record. -/
def noteRefusal (name : String) (r : Record) (e : StorageError) (a : Archive) : Archive :=
  a.say (.storeFailed name r.id e)

/-- The stores of some kinds as one. A single store works without a fan-out. -/
def stores : List RecordBackend → RecordStore Archive
  | [backend] => store backend
  | backends => .fanOut (backends.map fun b => (store b).onRefusal noteRefusal)

/-- The name of the store of an archive. -/
def name (a : Archive) : String := (stores a.backends).name

/-- Hands a record to all stores of an archive. -/
def persist : Persist Record Archive := fun r a => (stores a.backends).persist r a

/-- What a recorder says about a record that the archive refused. -/
def noteLoss (_ : String) (r : Record) (e : StorageError) (a : Archive) : Archive :=
  a.say (.persistFailed r.id e)

/-- How a recorder hands a record to an archive. -/
def persistQueued : Persist Record Archive := fun r a =>
  ((stores a.backends).onRefusal noteLoss).persist r a

/-- The records of the record file that a filter accepts. -/
def fileRecords (f : Filter) (a : Archive) : Except StorageError (List Record) := a.file.read f

/-- The records of the record table that meet a filter, oldest first. -/
def tableRecords (f : Filter) (a : Archive) : Except StorageError (List Record) :=
  match a.table with
  | .table t => t.get f
  | _ => .error .readFailed

/-- The number of rows of the record table that meet a filter. -/
def tableCount (f : Filter) (a : Archive) : Except StorageError Nat :=
  match a.table with
  | .table t => t.count f
  | _ => .error .readFailed

/-- What is in the directory when all stores are closed. -/
def directory (a : Archive) : RecordDirectory := ⟨a.blocked, a.file.content, a.table⟩

end Archive

end PolicyProbe
