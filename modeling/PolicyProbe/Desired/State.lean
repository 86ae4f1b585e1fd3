import PolicyProbe.Desired.Memory
import PolicyProbe.Desired.Table
import PolicyProbe.Notice

/-!
The desired state that settings ask for: in memory, where it starts empty, or in a table, which is
made when it is missing and otherwise kept.
-/
namespace PolicyProbe

/-- Desired state of either kind. -/
inductive DesiredState where
  | memory (s : MemoryState)
  | table (t : StateTable)

/-- What is found under the path of the table: a directory above it that cannot be made, a place
that cannot be opened, a file that is no table, or a table that may still be missing. -/
inductive StatePlace where
  | blocked
  | unopenable (fault : LocationFault)
  | foreign
  | table (t : StateTable)

namespace DesiredState

/-- Opens the desired state that settings ask for. -/
def open? (settings : StateSettings) (place : StatePlace) :
    Except (StorageError × List Notice) DesiredState :=
  match settings.backend, place with
  | .memory, _ => .ok (.memory .empty)
  | .sqlite, .blocked => .error (.writeFailed, [])
  | .sqlite, .unopenable fault => .error (.connectionFailed, [.stateDatabase settings.path fault])
  | .sqlite, .foreign => .error (.writeFailed, [])
  | .sqlite, .table t => .ok (.table t.create)

instance : DesiredStore DesiredState where
  update endpoint servers clients
    | .memory s => ((DesiredStore.update endpoint servers clients s).1,
        .memory (DesiredStore.update endpoint servers clients s).2)
    | .table t => ((DesiredStore.update endpoint servers clients t).1,
        .table (DesiredStore.update endpoint servers clients t).2)
  get endpoint
    | .memory s => DesiredStore.get endpoint s
    | .table t => DesiredStore.get endpoint t
  list
    | .memory s => DesiredStore.list s
    | .table t => DesiredStore.list t
  delete endpoint
    | .memory s => ((DesiredStore.delete endpoint s).1, .memory (DesiredStore.delete endpoint s).2)
    | .table t => ((DesiredStore.delete endpoint t).1, .table (DesiredStore.delete endpoint t).2)

end DesiredState

end PolicyProbe
