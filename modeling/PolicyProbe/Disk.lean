import PolicyProbe.Agent.Open
import PolicyProbe.Desired.Location
import PolicyProbe.Path

/-!
What a disk holds, as far as the program asks: files, directories, and tables of desired state by
their places. A path is followed name by name, and only a directory leads on. No file or directory
is a namespace that can be entered. Directories are made with those above them that are missing,
but the directory of processes takes no new entries.
-/
namespace PolicyProbe

/-- The names on the way from the root. -/
abbrev Place := List String

/-- What is found at a place. -/
inductive DiskEntry where
  | file
  | directory
  | table (t : StateTable)

/-- A disk: what is found where. -/
structure Disk where
  entries : List (Place × DiskEntry)

namespace Disk

/-- The directories that every system has. -/
def systemDirectories : List Place :=
  [[], ["bin"], ["boot"], ["dev"], ["dev", "pts"], ["dev", "shm"], ["etc"], ["etc", "ssl"],
    ["home"], ["lib"], ["lib64"], ["media"], ["mnt"], ["opt"], ["proc"], ["proc", "1"],
    ["proc", "net"], ["proc", "self"], ["proc", "self", "fd"], ["proc", "self", "ns"],
    ["proc", "sys"], ["root"], ["run"], ["sbin"], ["srv"], ["sys"], ["sys", "class"],
    ["sys", "class", "net"], ["tmp"], ["usr"], ["usr", "bin"], ["usr", "lib"], ["usr", "local"],
    ["usr", "local", "bin"], ["usr", "sbin"], ["usr", "share"], ["var"], ["var", "cache"],
    ["var", "lib"], ["var", "log"], ["var", "run"], ["var", "tmp"]]

/-- The files that every system has. -/
def systemFiles : List Place :=
  [["bin", "cat"], ["bin", "ls"], ["bin", "sh"], ["bin", "true"], ["dev", "full"], ["dev", "null"],
    ["dev", "random"], ["dev", "urandom"], ["dev", "zero"], ["etc", "fstab"], ["etc", "group"],
    ["etc", "hostname"], ["etc", "hosts"], ["etc", "nsswitch.conf"], ["etc", "os-release"],
    ["etc", "passwd"], ["etc", "profile"], ["etc", "resolv.conf"], ["etc", "shadow"],
    ["proc", "cpuinfo"], ["proc", "meminfo"], ["proc", "mounts"], ["proc", "stat"],
    ["proc", "uptime"], ["proc", "version"], ["proc", "self", "cmdline"], ["proc", "self", "exe"],
    ["proc", "self", "ns", "mnt"], ["proc", "self", "ns", "uts"], ["proc", "self", "status"],
    ["usr", "bin", "env"]]

/-- The disk of a system without anything of its own. -/
def system : Disk :=
  ⟨systemDirectories.map (·, .directory) ++ systemFiles.map (·, .file)⟩

/-- What is found at a place. -/
def find? (d : Disk) (place : Place) : Option DiskEntry := d.entries.lookup place

/-- Whether a name is longer than names of files can be. -/
def isLong (name : String) : Bool := 255 < name.utf8ByteSize

/-- Whether a new entry can be made at a place. -/
def takes (place : Place) : Bool := place.head? != some "proc" && !place.any isLong

/-- The place to which a name leads. -/
def advance (d : Disk) (place : Place) (name : String) : Except SystemError Place :=
  match d.find? place with
  | some .directory =>
    if Path.stays name then .ok place
    else if Path.climbs name then .ok place.dropLast
    else if isLong name then .error .nameTooLong
    else .ok (place ++ [name])
  | some _ => .error .notDirectory
  | none => .error .noSuchFile

/-- Why the system does not follow a path at all, if so. -/
def objection? (path : String) : Option SystemError :=
  if path.toList.contains '\x00' then some .zeroInPath
  else if 4096 ≤ path.utf8ByteSize then some .nameTooLong
  else none

/-- What a path names. -/
def look (d : Disk) (path : String) : Except SystemError DiskEntry := do
  if let some e := objection? path then .error e
  if path.isEmpty then .error .noSuchFile
  let place ← (Path.steps path).foldlM d.advance []
  match d.find? place with
  | some entry => .ok entry
  | none => .error .noSuchFile

/-- Why a namespace cannot be entered. -/
def enter (d : Disk) (path : String) : Except SystemError Unit := do
  let _ ← d.look path
  .error .invalidArgument

/-- Follows a name and makes the directory to which it leads if there is nothing. -/
def make (s : Disk × Place) (name : String) : Except SystemError (Disk × Place) := do
  let (d, place) := s
  let place ← d.advance place name
  match d.find? place with
  | some _ => .ok (d, place)
  | none =>
    if takes place then .ok (⟨(place, .directory) :: d.entries⟩, place) else .error .noSuchFile

/-- Makes the directory of a path and those above it. -/
def makeDirectories (d : Disk) (path : String) : Except SystemError Disk := do
  if let some e := objection? path then .error e
  let (d, place) ← (Path.steps path).foldlM make (d, [])
  match d.find? place with
  | some .directory => .ok d
  | _ => .error .fileExists

/-- Makes the directories above a path. -/
def makeAbove (d : Disk) (path : String) : Except SystemError Disk :=
  (Path.parent? path).elim (.ok d) d.makeDirectories

/-- What is found where desired state is kept. Without a path the table is kept nowhere. -/
def statePlace (d : Disk) (path : String) : StatePlace :=
  match d.makeAbove path, StateLocation.file? path with
  | .error _, _ => .blocked
  | .ok _, .error fault => .unopenable fault
  | .ok d, .ok file =>
    let place := Path.flattened file
    if file.isEmpty then .table ⟨none⟩
    else match d.find? place.dropLast, d.find? place with
    | _, some (.table t) => .table t
    | _, some .file => .foreign
    | some .directory, none =>
      if takes place then .table ⟨none⟩ else .unopenable .cannotOpen
    | _, _ => .unopenable .cannotOpen

/-- The disk after desired state was opened. -/
def withState (d : Disk) (s : StateSettings) : Disk :=
  match s.backend, d.makeAbove s.path, StateLocation.file? s.path with
  | .sqlite, .ok d, .ok file =>
    match d.find? (Path.flattened file) with
    | some _ => d
    | none => ⟨(Path.flattened file, .table ⟨none⟩) :: d.entries⟩
  | _, _, _ => d

/-- What is found under the path of the record file. -/
def fileContent (d : Disk) (place : Place) : FileContent :=
  match d.find? place with
  | some .directory => .directory
  | some _ => .bytes []
  | none => if takes place then .absent else .unmakeable

/-- What is found in the directory of records. -/
def recordDirectory (d : Disk) (path : String) : RecordDirectory :=
  let file := Archive.filePath path
  match d.makeAbove file with
  | .error e => { RecordDirectory.fresh with blocked := some e }
  | .ok d => { RecordDirectory.fresh with file := d.fileContent (Path.flattened file) }

/-- What is found in the places that settings name. -/
def places (d : Disk) (s : Settings) : Agent.Places where
  state := d.statePlace s.state.path
  records := (d.withState s.state).recordDirectory s.recorder.path

end Disk

end PolicyProbe
