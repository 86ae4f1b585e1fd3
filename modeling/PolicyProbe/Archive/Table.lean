import PolicyProbe.Archive.Cell
import PolicyProbe.Failure
import PolicyProbe.Record.Filter

/-!
The record table: one row for each record, known by its identifier. A row holds addresses,
identifiers, protocols and times as texts; times have six digits of their fraction, so that the
order of the texts is that of the times, and filters compare texts. A query has a clause for every
criterion that is set, and the values of the criteria are handed over in the same order. One row
that is no record makes reading fail, but rows are counted without being read. A row that does not
come from a record may hold anything in its columns of numbers, and it need not have an identifier.
-/
namespace PolicyProbe

/-- A row of the record table. -/
structure RecordRow where
  id : Option String
  src : String
  dst : String
  port : Cell
  protocol : String
  latency : Cell
  error : Option String
  success : Cell
  connected : Cell
  created : String
  deriving DecidableEq

namespace RecordRow

/-- The row of ten values; nothing may stand only for the identifier and for the error. -/
def ofCells? : List (Option Cell) → Option RecordRow
  | [id, some src, some dst, some port, some protocol, some latency, error, some success,
      some connected, some created] =>
    some ⟨id.map Cell.asText, src.asText, dst.asText, port.asWhole, protocol.asText,
      latency.asReal, error.map Cell.asText, success.asWhole, connected.asWhole, created.asText⟩
  | _ => none

/-- The row of a record. -/
def ofRecord (r : Record) : RecordRow where
  id := some r.id.text
  src := r.src.text
  dst := r.dst.text
  port := .whole r.port
  protocol := r.protocol.name
  latency := (Cell.real r.latency).asReal
  error := r.error
  success := .ofBool r.success
  connected := .ofBool r.connected
  created := r.created.microText

/-- The record that a row stands for. -/
def record? (row : RecordRow) : Option Record := do
  let id ← Identifier.ofText? (← row.id)
  let src ← Address.ofText? row.src
  let dst ← Address.ofText? row.dst
  let port ← row.port.whole?
  if port < 0 ∨ (portBound : Int) ≤ port then none
  let protocol ← (Protocol.ofName row.protocol).toOption
  let created ← Instant.ofExact? row.created.toList
  return ⟨id, src, dst, port.toNat, protocol, ← row.latency.real?, row.error,
    (← row.success.whole?) != 0, (← row.connected.whole?) != 0, created⟩

end RecordRow

/-- What a query asks of a row. Every clause has one place for a value. -/
inductive Clause where
  | src
  | dst
  | port
  | protocol
  | success
  | since
  | upTo
  deriving DecidableEq

/-- Whether a row meets a clause with a value in its place. The value is taken as the column takes
it, and times are compared as texts. -/
def Clause.holds (row : RecordRow) (value : Cell) : Clause → Bool
  | .src => row.src == value.asText
  | .dst => row.dst == value.asText
  | .port => row.port == value.asWhole
  | .protocol => row.protocol == value.asText
  | .success => row.success == value.asWhole
  | .since => !decide (row.created < value.asText)
  | .upTo => !decide (value.asText < row.created)

/-- Clauses and the values that fill their places, one after the other. -/
structure Query where
  clauses : List Clause
  values : List Cell

namespace Query

/-- Asks for nothing. -/
def empty : Query := ⟨[], []⟩

/-- Asks for a criterion as well, if it is set. -/
def ask {α : Type} (clause : Clause) (value : α → Cell) (criterion : Option α) (q : Query) :
    Query :=
  match criterion with
  | none => q
  | some a => ⟨q.clauses ++ [clause], q.values ++ [value a]⟩

/-- Asks for every criterion of a filter that is set. -/
def ofFilter (f : Filter) : Query :=
  empty
    |>.ask .src (fun src => .text src.text) f.src
    |>.ask .dst (fun dst => .text dst.text) f.dst
    |>.ask .port (fun port : Nat => .whole port) f.port
    |>.ask .protocol (fun protocol => .text protocol.name) f.protocol
    |>.ask .success .ofBool f.success
    |>.ask .since (fun t => .text t.microText) f.since
    |>.ask .upTo (fun t => .text t.microText) f.upTo

/-- Whether a row meets some clauses, each with the next value; none is met without a value. -/
def meetsAll (row : RecordRow) : List Clause → List Cell → Bool
  | [], _ => true
  | clause :: clauses, value :: values => clause.holds row value && meetsAll row clauses values
  | _ :: _, [] => false

/-- Whether a row is an answer. -/
def selects (q : Query) (row : RecordRow) : Bool := meetsAll row q.clauses q.values

end Query

/-- Whether a row meets every criterion of a filter. -/
def RecordRow.meets (f : Filter) (row : RecordRow) : Bool := (Query.ofFilter f).selects row

/-- The rows of the record table, or none when there is no table. -/
structure RecordTable where
  rows? : Option (List RecordRow)

namespace RecordTable

/-- The table without rows. -/
def empty : RecordTable := ⟨some []⟩

/-- Makes the table if there is none. -/
def create (t : RecordTable) : RecordTable := ⟨some (t.rows?.getD [])⟩

/-- Adds a row whose identifier is new, if it has one. -/
def insert (row : RecordRow) (t : RecordTable) : Except StorageError RecordTable :=
  match t.rows? with
  | none => .error .writeFailed
  | some rows =>
    if row.id.isSome && rows.any (·.id == row.id) then .error .writeFailed
    else .ok ⟨some (rows ++ [row])⟩

/-- Adds a record. -/
def persist (r : Record) (t : RecordTable) : Except StorageError RecordTable :=
  t.insert (RecordRow.ofRecord r)

/-- The rows that meet a filter. -/
def selected (f : Filter) (t : RecordTable) : Except StorageError (List RecordRow) :=
  match t.rows? with
  | none => .error .readFailed
  | some rows => .ok (rows.filter (RecordRow.meets f))

/-- Puts a row behind all rows that are not later. -/
def place (row : RecordRow) : List RecordRow → List RecordRow
  | [] => [row]
  | first :: rest =>
    if row.created < first.created then row :: first :: rest else first :: place row rest

/-- The rows in the order of their times, rows of one time in the order in which they came. -/
def ordered (rows : List RecordRow) : List RecordRow :=
  rows.foldl (fun sorted row => place row sorted) []

/-- The records of the rows that meet a filter, oldest first. -/
def get (f : Filter) (t : RecordTable) : Except StorageError (List Record) := do
  match (ordered (← t.selected f)).mapM RecordRow.record? with
  | some records => return records
  | none => .error .readFailed

/-- The number of the rows that meet a filter. -/
def count (f : Filter) (t : RecordTable) : Except StorageError Nat := do
  return (← t.selected f).length

/-- Takes the table away; whether there was one. -/
def drop (t : RecordTable) : Bool × RecordTable := (t.rows?.isSome, ⟨none⟩)

end RecordTable

end PolicyProbe
