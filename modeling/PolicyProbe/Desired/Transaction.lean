import PolicyProbe.Desired.Table

/-!
An update of the table as the database carries it out. A transaction is begun on a connection, the
row of the endpoint is read and decoded, both columns of the merged entry are encoded, the row is
written, and the transaction is committed. What is read and written before the commit are the rows
as the transaction sees them. Each step can be refused; the first one that is ends the update. A
transaction that is given up without a commit is rolled back.
-/
namespace PolicyProbe

/-- A connection to the table: what is committed and, while a transaction is open, what that
transaction sees. -/
structure Connection where
  committed : StateTable
  opened : Option StateTable

namespace Connection

/-- A connection without a transaction. -/
def on (t : StateTable) : Connection := ⟨t, none⟩

/-- What statements on a connection see. -/
def seen (c : Connection) : StateTable := c.opened.getD c.committed

/-- The connection after its transaction, if there is one, is given up: it is rolled back. -/
def giveUp (c : Connection) : Connection := on c.committed

end Connection

/-- Work on a connection. A failure ends it, and what was done before stays done. -/
abbrev Work := ExceptT StorageError (StateM Connection)

namespace Transaction

/-- An answer that depends on what the connection sees. -/
def look {α : Type} (answer : StateTable → Except StorageError α) : Work α :=
  ExceptT.mk fun c => (answer c.seen, c)

/-- A change of the connection. -/
def change (f : Connection → Connection) : Work Unit := ExceptT.mk fun c => (.ok (), f c)

variable (fault : Option TransactionStep)

/-- Fails when this step is the one that is refused. -/
def attempt (current : TransactionStep) (e : StorageError) : Work Unit :=
  look fun _ => StateTable.step fault current e

def begin : Work Unit := do
  attempt fault .begin .writeFailed
  change fun c => { c with opened := some c.committed }

/-- The row of an endpoint. -/
def read (endpoint : String) : Work (Option StateRow) := do
  attempt fault .read .readFailed
  look fun t => return StateTable.find? endpoint (← t.rows .readFailed)

/-- The entry that a row stands for. -/
def decode (row : StateRow) : Work StateEntry := look fun _ => row.entry

/-- A row with the columns of an entry. -/
def encode (endpoint : String) (e : StateEntry) : Work StateRow := do
  attempt fault .encodeServers .writeFailed
  let servers := e.serversJson.text
  attempt fault .encodeClients .writeFailed
  return ⟨endpoint, servers, e.clientsJson.text⟩

/-- Changes the rows. -/
def write (f : List StateRow → List StateRow) : Work Unit := do
  attempt fault .write .writeFailed
  change fun c => { c with opened := some ⟨c.seen.rows?.map f⟩ }

/-- Makes what the transaction sees the table. -/
def commit : Work Unit := do
  attempt fault .commit .writeFailed
  change fun c => .on c.seen

/-- Rewrites the row that was read with what is merged into its entry, or adds a row. -/
def put (u : StateUpdate) : Option StateRow → Work Unit
  | some row => do
    let old ← decode row
    let new ← encode fault row.endpoint (old.merge u.servers u.clients)
    write fault (StateTable.replace new)
  | none => do
    let new ← encode fault u.endpoint.text
      ((StateEntry.empty u.endpoint).merge u.servers u.clients)
    write fault (· ++ [new])

/-- What an update does before it commits. -/
def prepare (u : StateUpdate) : Work Unit := do
  begin fault
  let found ← read fault u.endpoint.text
  put fault u found

/-- An update of the table. -/
def merge (u : StateUpdate) : Work Unit := do
  prepare fault u
  commit fault

/-- Carries out an update on a table: the answer, and the table when the connection is given up
after it. -/
def carryOut (u : StateUpdate) (t : StateTable) : Except StorageError Unit × StateTable :=
  match (merge fault u).run (.on t) with
  | (answer, c) => (answer, c.giveUp.seen)

end Transaction

end PolicyProbe
