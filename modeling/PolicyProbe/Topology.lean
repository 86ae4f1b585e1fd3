import PolicyProbe.Path
import PolicyProbe.Settings

/-!
Where the endpoints of an agent live: one in the agent's own network namespace, or one in each of
several named namespaces. A namespace is entered through a file in a directory, and only a name that
is safe as a file name has such a path. A scope is the place in which workers run.
-/
namespace PolicyProbe

/-- The endpoints of an agent; that of a namespace may be unknown. -/
inductive Places where
  | root (endpoint : Option Address)
  | namespaces (endpoints : OrderedMap String (Option Address))

/-- The endpoints of an agent and the directory of the namespaces. -/
structure Topology where
  directory : String
  places : Places

namespace Topology

/-- The topology of an agent that serves one endpoint in its own namespace. -/
def root (endpoint : Address) : Topology := ⟨"", .root (some endpoint)⟩

/-- The topology of an agent that serves one known endpoint in each namespace. -/
def namespaced (directory : String) (endpoints : OrderedMap String Address) : Topology :=
  ⟨directory, .namespaces (endpoints.map fun (name, a) => (name, some a))⟩

/-- The topology that settings describe. -/
def ofSettings (s : Settings) : Topology :=
  if s.namespaceMode then namespaced s.namespaceDir s.namespaces
  else ⟨s.namespaceDir, .root s.endpoint⟩

variable (t : Topology)

/-- Whether endpoints live in named namespaces. -/
def namespaceMode : Bool :=
  match t.places with
  | .root _ => false
  | .namespaces _ => true

/-- The names of the namespaces in order. -/
def names : List String :=
  match t.places with
  | .root _ => []
  | .namespaces endpoints => endpoints.keys

/-- The endpoint of a namespace, if the namespace exists and its endpoint is known. -/
def endpointOf? (name : String) : Option Address :=
  match t.places with
  | .root _ => none
  | .namespaces endpoints => (endpoints.find? name).join

/-- The path through which a namespace is entered, for a name that is safe. -/
def path? (name : String) : Option String :=
  if Settings.isNamespaceName name then some (Path.join t.directory name) else none

/-- The endpoint of an agent without namespaces. -/
def rootEndpoint? : Option Address :=
  match t.places with
  | .root endpoint => endpoint
  | .namespaces _ => none

/-- Whether an address is an endpoint of this agent. -/
def isLocal (a : Address) : Bool :=
  match t.places with
  | .root endpoint => endpoint == some a
  | .namespaces endpoints => endpoints.values.any (· == some a)

end Topology

/-- The place in which workers run. In the root scope they are tasks of the agent; in a namespace
each is a process that first enters the namespace through its path. -/
inductive Scope where
  | root
  | named (name path : String)
  deriving DecidableEq, Repr, Inhabited

namespace Scope

/-- The name under which the workers of a scope are registered. -/
def name : Scope → String
  | .root => "root"
  | .named name _ => name

/-- The path of the namespace to enter. -/
def path? : Scope → Option String
  | .root => none
  | .named _ path => some path

/-- The description of a scope. -/
def describe : Scope → String
  | .root => "root namespace"
  | .named name _ => "namespace " ++ name

end Scope

end PolicyProbe
