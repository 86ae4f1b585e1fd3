import PolicyProbe.Desired.Store

/-!
Desired state in a table: one row for each endpoint, known by the text of its address, with
servers and clients as JSON texts. An update is a transaction that reads the row, merges and
writes it back; a transaction that fails at any of its steps leaves the table as it was. A row
that cannot be decoded makes reading its endpoint, merging into it and listing fail.
-/
namespace PolicyProbe

/-- A row of the table. -/
structure StateRow where
  endpoint : String
  servers : String
  clients : String
  deriving DecidableEq

namespace StateRow

/-- The row of an entry. -/
def ofEntry (e : StateEntry) : StateRow := ⟨e.endpoint.text, e.serversJson.text, e.clientsJson.text⟩

/-- The entry that a row stands for. -/
def entry? (row : StateRow) : Option StateEntry := do
  let endpoint ← Address.ofText? row.endpoint
  let servers ← ((Decoder.list ServerEntry.decoder).run row.servers).toOption
  let clients ← ((Decoder.list ClientEntry.decoder).run row.clients).toOption
  return ⟨endpoint, servers, clients⟩

/-- The entry of a row, or a failure to read. -/
def entry (row : StateRow) : Except StorageError StateEntry :=
  match row.entry? with
  | some e => .ok e
  | none => .error .readFailed

end StateRow

/-- The rows of the table, or none when there is no table. -/
structure StateTable where
  rows? : Option (List StateRow)
  deriving DecidableEq

/-- The steps of a transaction that can be refused. -/
inductive TransactionStep where
  | begin
  | read
  | encodeServers
  | encodeClients
  | write
  | commit
  deriving DecidableEq, Repr

namespace StateTable

def empty : StateTable := ⟨some []⟩

/-- Makes the table if there is none. -/
def create (t : StateTable) : StateTable := ⟨some (t.rows?.getD [])⟩

/-- The rows, or a failure of a given kind when there is no table. -/
def rows (t : StateTable) (e : StorageError) : Except StorageError (List StateRow) :=
  match t.rows? with
  | some rows => .ok rows
  | none => .error e

/-- The row of an endpoint. -/
def find? (endpoint : String) (rows : List StateRow) : Option StateRow :=
  rows.find? (·.endpoint == endpoint)

/-- The rows with one of them replaced. -/
def replace (row : StateRow) (rows : List StateRow) : List StateRow :=
  rows.map fun old => if old.endpoint == row.endpoint then row else old

/-- Refuses when a step is the one that fails. -/
def step (fault : Option TransactionStep) (current : TransactionStep) (e : StorageError) :
    Except StorageError Unit :=
  if fault = some current then .error e else .ok ()

/-- The texts of both columns are made before anything is written. -/
def encoding (fault : Option TransactionStep) : Except StorageError Unit := do
  step fault .encodeServers .writeFailed
  step fault .encodeClients .writeFailed

/-- What is written for an update whose row is `found`: that row with what is merged into its entry,
or a row behind the others. -/
def written (fault : Option TransactionStep) (endpoint : Address) (servers : List ServerEntry)
    (clients : List ClientEntry) (rows : List StateRow) :
    Option StateRow → Except StorageError (List StateRow)
  | some row => do
    let merged := (← row.entry).merge servers clients
    encoding fault
    step fault .write .writeFailed
    let text := StateRow.ofEntry merged
    return replace { row with servers := text.servers, clients := text.clients } rows
  | none => do
    encoding fault
    step fault .write .writeFailed
    return rows ++ [StateRow.ofEntry ((StateEntry.empty endpoint).merge servers clients)]

/-- What a transaction makes of the rows. -/
def transact (fault : Option TransactionStep) (endpoint : Address) (servers : List ServerEntry)
    (clients : List ClientEntry) (t : StateTable) : Except StorageError (List StateRow) := do
  step fault .begin .writeFailed
  step fault .read .readFailed
  let rows ← t.rows .readFailed
  let result ← written fault endpoint servers clients rows (find? endpoint.text rows)
  step fault .commit .writeFailed
  return result

/-- Merges servers and clients into the row of an endpoint, unless the transaction fails. -/
def update (fault : Option TransactionStep) (endpoint : Address) (servers : List ServerEntry)
    (clients : List ClientEntry) (t : StateTable) : Except StorageError Unit × StateTable :=
  match t.transact fault endpoint servers clients with
  | .ok rows => (.ok (), ⟨some rows⟩)
  | .error e => (.error e, t)

/-- The entry of an endpoint. -/
def get (endpoint : Address) (t : StateTable) : Except StorageError (Option StateEntry) := do
  match find? endpoint.text (← t.rows .readFailed) with
  | some row => return some (← row.entry)
  | none => return none

/-- All entries. -/
def list (t : StateTable) : Except StorageError (List StateEntry) := do
  (← t.rows .readFailed).mapM StateRow.entry

/-- Deletes one row, or all of them; the number of rows that went. -/
def delete (endpoint : Option Address) (t : StateTable) : Except StorageError Nat × StateTable :=
  match t.rows? with
  | none => (.error .writeFailed, t)
  | some rows =>
    let kept := match endpoint with
      | some endpoint => rows.filter fun row => !(row.endpoint == endpoint.text)
      | none => []
    (.ok (rows.length - kept.length), ⟨some kept⟩)

/-- Adds a row as it is, if its endpoint is new; whether it was added. -/
def insert (row : StateRow) (t : StateTable) : Bool × StateTable :=
  match t.rows? with
  | some rows =>
    if (find? row.endpoint rows).isSome then (false, t) else (true, ⟨some (rows ++ [row])⟩)
  | none => (false, t)

/-- Takes the table away; whether there was one. -/
def drop (t : StateTable) : Bool × StateTable := (t.rows?.isSome, ⟨none⟩)

instance : DesiredStore StateTable where
  update := update none
  get := get
  list := list
  delete := delete

end StateTable

end PolicyProbe
