import PolicyProbe.Deployment
import PolicyProbe.Text.Shown

/-!
The agent of one host and the scopes of its requests. A request names one namespace or none: none
means all scopes. A namespace named to an agent without namespaces, and an unknown one, are
refused before anything else.
-/
namespace PolicyProbe

/-- An agent: its settings, where its endpoints live, its scopes in the order of their names, and
what it has deployed. -/
structure Agent (σ η : Type) where
  settings : Settings
  topology : Topology
  scopes : List Scope
  deployment : Deployment σ η

namespace Agent

variable {σ η : Type}

/-- The scopes of a topology; a namespace whose name is no safe file name is refused. -/
def scopesOf (t : Topology) : Except TrafficError (List Scope) :=
  if t.namespaceMode then
    t.names.mapM fun name =>
      match t.path? name with
      | some path => .ok (.named name path)
      | none => .error (.configuration ("invalid namespace name " ++ Shown.quoted name))
  else .ok [.root]

/-- An agent without workers. -/
def build (settings : Settings) (topology : Topology) (deployment : Deployment σ η) :
    Except TrafficError (Agent σ η) := do
  return ⟨settings, topology, ← scopesOf topology, deployment⟩

/-- The endpoint of a scope, if it is known. -/
def endpointOf? (a : Agent σ η) : Scope → Option Address
  | .root => a.topology.rootEndpoint?
  | .named name _ => a.topology.endpointOf? name

/-- The scopes that a request is about, with their endpoints. -/
def resolve (a : Agent σ η) : Option String → Except TrafficError (List (Scope × Option Address))
  | none => .ok (a.scopes.map fun scope => (scope, a.endpointOf? scope))
  | some name =>
    if a.topology.namespaceMode then
      match a.scopes.find? (·.name == name) with
      | some scope => .ok [(scope, a.endpointOf? scope)]
      | none => .error (.unknownNamespace name)
    else
      .error (.configuration ("namespace " ++ name ++ " given but the agent runs in root mode"))

/-- The agent with something else deployed. -/
def put (a : Agent σ η) (d : Deployment σ η) : Agent σ η := { a with deployment := d }

end Agent

end PolicyProbe
