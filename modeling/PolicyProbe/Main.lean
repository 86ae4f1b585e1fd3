import PolicyProbe.CommandLine
import PolicyProbe.Program

/-!
The program as it is started from a command line: reading files, printing, and the exit code. It
runs on a host without a network; everything that it decides is decided elsewhere.
-/
namespace PolicyProbe

/-- The failure of the operating system behind a failure of an action. -/
def SystemError.ofIO : IO.Error → SystemError
  | .noFileOrDirectory _ _ _ => .noSuchFile
  | .inappropriateType _ _ _ => .isDirectory
  | .invalidArgument _ _ _ => .invalidArgument
  | _ => .noSuchFile

/-- The content of a file, or why it cannot be read. -/
def fileText (path : String) : IO Program.FileText :=
  try return .ok (← IO.FS.readBinFile path)
  catch e => return .error (SystemError.ofIO e)

/-- Adds what an archive wrote to its record file. -/
def keepRecords (a : Archive) : IO Unit :=
  match a.file.content with
  | .bytes (b :: content) => do
    IO.FS.createDirAll a.path
    IO.FS.withFile (Archive.filePath a.path) .append fun handle =>
      handle.write ⟨(b :: content).toArray⟩
  | _ => pure ()

/-- Runs the agent. -/
def runAgent (settings : String) (rules : Option String) : IO UInt32 := do
  IO.print Program.banner
  let rulesText ← rules.mapM fun path => return (path, ← fileText path)
  let machine := Machine.unrouted Disk.system .worker
  let ended := Program.run (← fileText settings) rulesText Disk.system machine
  for notice in ended.notices do
    IO.eprintln notice.line
  if let some archive := ended.archive then
    keepRecords archive
  return ended.exit.toUInt32

/-- Runs a worker. -/
def runWorker (spec : String) (namespacePath : Option String) : IO UInt32 := do
  let events := (Machine.unrouted Disk.system .worker).workerEvents spec namespacePath
  for event in events do
    IO.println event.line
  return match events with
    | .failed _ _ :: _ => 1
    | _ => 0

end PolicyProbe

def main (args : List String) : IO UInt32 :=
  match PolicyProbe.CommandLine.parse args with
  | .ok (.run settings rules) => PolicyProbe.runAgent settings rules
  | .ok (.worker spec namespacePath) => PolicyProbe.runWorker spec namespacePath
  | .error diversion => return diversion.exitCode.toUInt32
