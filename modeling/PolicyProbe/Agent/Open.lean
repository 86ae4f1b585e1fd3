import PolicyProbe.Agent.Basic
import PolicyProbe.Desired.State

/-!
An agent from its settings alone: the settings are checked, the desired state and the archive are
opened, in this order, and a recorder with a queue is put in front of the archive.
-/
namespace PolicyProbe.Agent

/-- What is found in the places that settings name. -/
structure Places where
  state : StatePlace
  records : RecordDirectory

/-- The recorder that settings ask for, in front of an archive. -/
def recorderOf (settings : RecorderSettings) (archive : Archive) : ArchiveRecorder :=
  .start (.empty settings.queueCapacity) archive settings.workers

/-- A result of opening a store, as one of the agent. -/
def opened {α : Type} : Except (StorageError × List Notice) α →
    Except (TrafficError × List Notice) α
  | .ok a => .ok a
  | .error (e, notices) => .error (.storage e, notices)

/-- The agent that settings describe, or why there is none with what the log says about it. -/
def open? {η : Type} (settings : Settings) (places : Places) (host : η) :
    Except (TrafficError × List Notice) (Agent DesiredState η) := do
  match settings.check with
  | .error e => .error (.ofConfig e, [])
  | .ok _ =>
    let state ← opened (DesiredState.open? settings.state places.state)
    let archive ← opened (Archive.open? settings.recorder places.records)
    let outlet := Outlet.recorder (recorderOf settings.recorder archive)
    match build settings (.ofSettings settings) (.fresh state host outlet) with
    | .error e => .error (e, [])
    | .ok a => .ok a

end PolicyProbe.Agent
