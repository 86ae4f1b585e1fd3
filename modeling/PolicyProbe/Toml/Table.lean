import PolicyProbe.Toml.Scalar

/-!
Tables of a configuration file and the statements that fill them. A statement opens a table, adds a
table to an array of tables, or sets a key. A table is opened once; one that came about because a
deeper one was opened may still be opened, one that came about from a dotted key may not, and only
such a one takes further values from dotted keys; inline tables and plain arrays are closed.
-/
namespace PolicyProbe.Toml

/-- How a table came about. -/
inductive Origin where
  | header
  | implied
  | dotted
  | inline
  deriving DecidableEq, Repr

/-- A value of a configuration file. -/
inductive Value where
  | scalar (value : Scalar)
  | array (items : List Value)
  | tables (items : List (List (String × Value)))
  | table (origin : Origin) (entries : List (String × Value))
  deriving Inhabited

/-- The entries of a table in the order of their statements. -/
abbrev Entries := List (String × Value)

/-- The entries with the value of one key replaced or added at the end. -/
def put (key : String) (value : Value) : Entries → Entries
  | [] => [(key, value)]
  | (k, v) :: rest => if k = key then (key, value) :: rest else (k, v) :: put key value rest

/-- Replaces the last member of a non-empty list. -/
def updateLast {α : Type} (f : α → Option α) : List α → Option (List α)
  | [] => none
  | [x] => do return [← f x]
  | x :: xs => do return x :: (← updateLast f xs)

/-- Changes the table at the end of a path of headers, going into the last table of an array and
making the tables that are not there. -/
def within (f : Entries → Option Entries) : List String → Entries → Option Entries
  | [], entries => f entries
  | key :: path, entries =>
    match entries.lookup key with
    | none => do return put key (.table .implied (← within f path [])) entries
    | some (.table .inline _) => none
    | some (.table origin inner) => do
      return put key (.table origin (← within f path inner)) entries
    | some (.tables items) => do
      return put key (.tables (← updateLast (within f path) items)) entries
    | some _ => none

/-- Opens a table by its header. -/
def openTable (key : String) (entries : Entries) : Option Entries :=
  match entries.lookup key with
  | none => some (put key (.table .header []) entries)
  | some (.table .implied inner) => some (put key (.table .header inner) entries)
  | some _ => none

/-- Adds a table to an array of tables. -/
def addTable (key : String) (entries : Entries) : Option Entries :=
  match entries.lookup key with
  | none => some (put key (.tables [[]]) entries)
  | some (.tables items) => some (put key (.tables (items ++ [[]])) entries)
  | some _ => none

/-- Sets a dotted key to a value. The table that takes the value has to come from a dotted key
itself; on the way to it there may also be tables that deeper headers brought about, and arrays of
tables, of which the last table is meant. -/
def assign (value : Value) : List String → Entries → Option Entries
  | [], _ => none
  | [key], entries => if (entries.lookup key).isSome then none else some (put key value entries)
  | [part, key], entries =>
    match entries.lookup part with
    | none => some (put part (.table .dotted [(key, value)]) entries)
    | some (.table .dotted inner) => do
      return put part (.table .dotted (← assign value [key] inner)) entries
    | some _ => none
  | part :: path, entries =>
    match entries.lookup part with
    | none => do return put part (.table .dotted (← assign value path [])) entries
    | some (.table .dotted inner) => do
      return put part (.table .dotted (← assign value path inner)) entries
    | some (.table .implied inner) => do
      return put part (.table .implied (← assign value path inner)) entries
    | some (.tables items) => do
      return put part (.tables (← updateLast (assign value path) items)) entries
    | some _ => none

/-- One statement of a file. -/
inductive Statement where
  | header (path : List String)
  | arrayHeader (path : List String)
  | assignment (path : List String) (value : Value)

/-- What the statements so far have made, and the table they are in. -/
structure Progress where
  root : Entries
  current : List String

/-- The effect of one statement. -/
def Progress.step (p : Progress) : Statement → Option Progress
  | .header path => do
    let key ← path.getLast?
    return ⟨← within (openTable key) path.dropLast p.root, path⟩
  | .arrayHeader path => do
    let key ← path.getLast?
    return ⟨← within (addTable key) path.dropLast p.root, path⟩
  | .assignment path value => do
    return ⟨← within (assign value path) p.current p.root, p.current⟩

/-- The table that statements make. -/
def build? (statements : List Statement) : Option Entries := do
  let p ← statements.foldlM Progress.step ⟨[], []⟩
  return p.root

/-- The entries of an inline table. -/
def inlineEntries? (assignments : List (List String × Value)) : Option Entries :=
  assignments.foldlM (fun entries (path, value) => assign value path entries) []

end PolicyProbe.Toml
