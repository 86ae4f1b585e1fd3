/-!
The command line. There are two commands, one that runs the agent and one that runs a single
worker, and requests for help and for the version. Arguments are taken from left to right; the
first that asks for help or that is wrong decides.
-/
namespace PolicyProbe

/-- What the command line can ask for. -/
inductive Command where
  | run (settings : String) (rules : Option String)
  | worker (spec : String) (namespacePath : Option String)
  deriving DecidableEq, Repr

/-- Why the command line does not ask for a command. -/
inductive Diversion where
  | help
  | version
  | usage
  deriving DecidableEq, Repr

/-- The exit code of a diversion. -/
def Diversion.exitCode : Diversion → Nat
  | .usage => 2
  | _ => 0

namespace CommandLine

/-- An option with a value, which may be restricted to texts that are not empty. -/
structure OptionRule where
  name : String
  filled : Bool

/-- What the arguments of a command may be: its options, and how many other arguments it takes. -/
structure Grammar where
  options : List OptionRule
  others : Nat

/-- What was found in the arguments of a command. -/
structure Found where
  options : List (String × String)
  others : List String

/-- Whether a text looks like an option where a value is due. -/
def looksLikeOption (text : String) : Bool :=
  match text.toList with
  | '-' :: _ :: _ => true
  | _ => false

/-- Adds the value of an option that was not given before. -/
def addOption (found : Found) (rule : OptionRule) (value : String) : Except Diversion Found :=
  if (found.options.lookup rule.name).isSome || (rule.filled && value.isEmpty) then .error .usage
  else .ok { found with options := found.options ++ [(rule.name, value)] }

/-- Adds an argument that is no option. -/
def addOther (grammar : Grammar) (found : Found) (value : String) : Except Diversion Found :=
  if found.others.length < grammar.others && !value.isEmpty then
    .ok { found with others := found.others ++ [value] }
  else .error .usage

/-- The name of a long option and the value behind an equals sign. -/
def splitLong (text : List Char) : String × Option String :=
  let name := text.takeWhile (· != '=')
  (String.ofList name,
    if name.length = text.length then none else some (String.ofList (text.drop (name.length + 1))))

/-- What a long option turns out to be. -/
inductive Long where
  | complete (found : Found)
  | pending (rule : OptionRule)

/-- Looks at a long option. -/
def readLong (grammar : Grammar) (found : Found) (text : List Char) : Except Diversion Long :=
  match splitLong text with
  | ("help", none) => .error .help
  | (name, value) =>
    match grammar.options.find? (·.name == name), value with
    | none, _ => .error .usage
    | some rule, none => .ok (.pending rule)
    | some rule, some value => do return .complete (← addOption found rule value)

/-- Reads the arguments of a command; `pending` is an option whose value is due. -/
def read (grammar : Grammar) : Option OptionRule → Found → List String → Except Diversion Found
  | none, found, [] => .ok found
  | some _, _, [] => .error .usage
  | some rule, found, arg :: rest =>
    if looksLikeOption arg then .error .usage
    else do read grammar none (← addOption found rule arg) rest
  | none, found, arg :: rest =>
    match arg.toList with
    | ['-', '-'] => rest.foldlM (addOther grammar) found
    | '-' :: '-' :: text => do
      match ← readLong grammar found text with
      | .complete found => read grammar none found rest
      | .pending rule => read grammar (some rule) found rest
    | '-' :: 'h' :: _ => .error .help
    | '-' :: _ :: _ => .error .usage
    | _ => do read grammar none (← addOther grammar found arg) rest

/-- The arguments of the command that runs the agent. -/
def readRun (args : List String) : Except Diversion Command := do
  let found ← read ⟨[⟨"rules", true⟩], 1⟩ none ⟨[], []⟩ args
  match found.others with
  | [settings] => return .run settings (found.options.lookup "rules")
  | _ => .error .usage

/-- The arguments of the command that runs a worker. -/
def readWorker (args : List String) : Except Diversion Command := do
  let found ← read ⟨[⟨"spec", false⟩, ⟨"netns", true⟩], 0⟩ none ⟨[], []⟩ args
  match found.options.lookup "spec" with
  | some spec => return .worker spec (found.options.lookup "netns")
  | none => .error .usage

/-- The arguments that ask for a worker, in a namespace if a path is given. -/
def workerArguments (spec : String) (namespacePath : Option String) : List String :=
  ["worker", "--spec", spec] ++ match namespacePath with
    | some path => ["--netns", path]
    | none => []

/-- Help is given for the program and for each of its commands. -/
def readHelp : List String → Diversion
  | [] => .help
  | [command] => if ["run", "worker", "help"].contains command then .help else .usage
  | _ => .usage

/-- What a command line asks for. -/
def parse : List String → Except Diversion Command
  | "run" :: args => readRun args
  | "worker" :: args => readWorker args
  | "help" :: args => .error (readHelp args)
  | "--help" :: _ => .error .help
  | "--version" :: _ => .error .version
  | arg :: _ =>
    match arg.toList with
    | '-' :: 'h' :: _ => .error .help
    | '-' :: 'V' :: _ => .error .version
    | _ => .error .usage
  | [] => .error .usage

end CommandLine

end PolicyProbe
