import PolicyProbe.Agent.Basic

/-!
The desired state of an agent. Policy rules are registered one by one: a rule asks for a server on
its destination and for a client on its source, for whichever of the two is an endpoint of the
agent.
-/
namespace PolicyProbe

/-- What became of some rules: how many were registered, and those without an endpoint of this
agent. -/
structure RegisterReport where
  registered : Nat
  rejected : List Rule

def RegisterReport.toJson (r : RegisterReport) : Json :=
  .object [("registered", .nat r.registered), ("rejected", .array (r.rejected.map Rule.toJson))]

namespace Agent

variable {σ η : Type} [DesiredStore σ]

/-- The updates of desired state that a rule asks for: a server on its destination, then a client on
its source, for whichever of the two is an endpoint of this agent. -/
def updatesOf (t : Topology) (rule : Rule) : List StateUpdate :=
  (if t.isLocal rule.dst then [⟨rule.dst, [⟨rule.protocol, rule.port⟩], []⟩] else []) ++
    (if t.isLocal rule.src then
      [⟨rule.src, [], [⟨rule.protocol, rule.port, rule.dst, rule.connected, rule.action⟩]⟩]
    else [])

/-- Makes updates of desired state in order, up to the first that is refused. -/
def updateEach : List StateUpdate → σ → Except StorageError Unit × σ
  | [], s => (.ok (), s)
  | u :: rest, s =>
    match DesiredStore.apply u s with
    | (.ok _, s) => updateEach rest s
    | (.error e, s) => (.error e, s)

/-- Registers rules one by one. An inactive rule is passed over, and one without an endpoint of this
agent is rejected. -/
def registerEach (t : Topology) : List Rule → RegisterReport → Deployment σ η →
    Except TrafficError RegisterReport × Deployment σ η
  | [], report, d => (.ok report, d)
  | rule :: rest, report, d =>
    if rule.state = .inactive then registerEach t rest report d
    else
      match updatesOf t rule with
      | [] =>
        registerEach t rest { report with rejected := report.rejected ++ [rule] }
          (d.say (.ruleRejected rule))
      | updates =>
        match updateEach updates d.state with
        | (.ok _, state) =>
          registerEach t rest { report with registered := report.registered + 1 } { d with state }
        | (.error e, state) => (.error (.storage e), { d with state })

/-- Registers rules in the desired state. -/
def registerTraffic (rules : List Rule) (a : Agent σ η) :
    Except TrafficError RegisterReport × Agent σ η :=
  let (answer, d) := registerEach a.topology rules ⟨0, []⟩ a.deployment
  (answer, a.put d)

/-- A result of a store as one of the agent. -/
def ofStorage {α : Type} : Except StorageError α → Except TrafficError α
  | .ok x => .ok x
  | .error e => .error (.storage e)

/-- Forgets the desired state of one endpoint, or of all; the number of entries that went. Workers
go on running. -/
def unregisterTraffic (endpoint : Option Address) (a : Agent σ η) :
    Except TrafficError Nat × Agent σ η :=
  let (answer, state) := DesiredStore.delete endpoint a.deployment.state
  (ofStorage answer, a.put { a.deployment with state })

/-- The desired state of one endpoint, or of all. -/
def trafficConfig (endpoint : Option Address) (a : Agent σ η) :
    Except TrafficError (List StateEntry) :=
  match endpoint with
  | some endpoint => ofStorage ((·.toList) <$> DesiredStore.get endpoint a.deployment.state)
  | none => ofStorage (DesiredStore.list a.deployment.state)

end Agent

end PolicyProbe
