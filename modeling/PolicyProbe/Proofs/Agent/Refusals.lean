import PolicyProbe.Proofs.Agent.Isolation
import PolicyProbe.Proofs.Agent.Life
import PolicyProbe.Proofs.Manager.Causes

/-!
Requests that are refused. A name that is given without namespaces, a name that is unknown, and an
address that is not the agent's are found out before anything is done, by every call in its own way
(`Agent.Refuses`). And there is hardly another refusal (`Agent.Refusal`): a call that answers one
has left the agent exactly as it was (`Agent.refusal_of_perform`), for what fails later on fails for
other causes (`Servers.isRefusal_start`).
-/
namespace PolicyProbe

open Deployment

variable {σ η : Type}

namespace Agent

/-! ## Names -/

/-- With namespaces a name is resolved exactly if it is that of one. -/
theorem resolve_eq_unknown {a : Agent σ η} (hscopes : scopesOf a.topology = .ok a.scopes)
    (hmode : a.topology.namespaceMode = true) {ns : String} (hns : ns ∉ a.topology.names) :
    a.resolve (some ns) = .error (.unknownNamespace ns) := by
  have hnone : a.scopes.find? (·.name == ns) = none := by
    apply List.find?_eq_none.mpr
    intro scope hscope hname
    apply hns
    rw [← names_of_scopesOf hscopes hmode]
    exact List.mem_map.mpr ⟨scope, hscope, by simpa using hname⟩
  rw [resolve, if_pos hmode, hnone]

theorem resolve_eq_root {a : Agent σ η} (hmode : a.topology.namespaceMode = false) (ns : String) :
    a.resolve (some ns) =
      .error (.configuration ("namespace " ++ ns ++ " given but the agent runs in root mode")) := by
  rw [resolve, if_neg (by simp [hmode])]

variable [DesiredStore σ]

/-- A name is refused by every call that it can be given to, and the agent stays exactly as it
is. -/
structure Refuses (os : Host η) (a : Agent σ η) (name : Option String) (e : TrafficError) :
    Prop where
  call : ∀ c : AgentCall, c.addressee? = some name → a.perform os c = (.error e, a)
  client : a.getClient name = .error e

theorem refuses_of_resolve {a : Agent σ η} {name : Option String} {e : TrafficError}
    (h : a.resolve name = .error e) (os : Host η) : Refuses os a name e where
  call := by
    intro c hc
    cases c with
    | register rules => cases hc
    | unregister endpoint => cases hc
    | shutdown => cases hc
    | addServer protocol port endpoint name' =>
      obtain rfl : name' = name := Option.some.inj hc
      rw [perform, addServer, h]
      rfl
    | startServers name' =>
      obtain rfl : name' = name := Option.some.inj hc
      rw [perform, startServers, h]
      rfl
    | startClients name' =>
      obtain rfl : name' = name := Option.some.inj hc
      rw [perform, startClients, h]
      rfl
    | stopServers name' =>
      obtain rfl : name' = name := Option.some.inj hc
      rw [perform, stopServers, h]
      rfl
    | stopServer protocol port name' =>
      obtain rfl : name' = name := Option.some.inj hc
      rw [perform, stopServer, h]
      rfl
    | stopClients name' =>
      obtain rfl : name' = name := Option.some.inj hc
      rw [perform, stopClients, h]
      rfl
    | stopClient name' =>
      obtain rfl : name' = name := Option.some.inj hc
      rw [perform, stopClient, h]
      rfl
  client := by
    rw [getClient, h]
    rfl

/-! ## What is answered to a request that is not refused -/

/-- In scopes whose endpoints are known, or when none is named, a server is added or fails for a
cause that is no refusal. -/
theorem isRefusal_addEach (os : Host η) (protocol : Protocol) (port : Nat) (isNamed : Bool)
    {scopes : List (Scope × Option Address)}
    (hscopes : isNamed = true → ∀ p ∈ scopes, p.2 ≠ none) {d : Deployment σ η} {e : TrafficError}
    (h : (addEach os protocol port isNamed scopes d).1 = .error e) : e.isRefusal = false := by
  induction scopes generalizing d with
  | nil => cases h
  | cons p rest ih =>
    obtain ⟨scope, endpoint⟩ := p
    have hrest : isNamed = true → ∀ p ∈ rest, p.2 ≠ none :=
      fun hnamed p hp => hscopes hnamed p (List.mem_cons_of_mem _ hp)
    cases endpoint with
    | none =>
      rw [addEach] at h
      split at h
      · rename_i hnamed
        exact absurd rfl (hscopes hnamed _ List.mem_cons_self)
      · exact ih hrest h
    | some endpoint =>
      rw [addEach] at h
      split at h
      · rename_i heq
        cases h
        exact Servers.isRefusal_start os scope protocol port endpoint (congrArg Prod.fst heq)
      · split at h
        · rename_i heq
          cases h
          exact ih hrest (congrArg Prod.fst heq)
        · cases h

/-- Why a call is refused: for the name that it is given, for an address that is not that of an
agent without namespaces, or because the namespace that it names has no endpoint. -/
inductive Refusal (a : Agent σ η) (c : AgentCall) : TrafficError → Prop where
  | name {name : String} {e : TrafficError} (hc : c.addressee? = some (some name))
      (hresolve : a.resolve (some name) = .error e) : Refusal a c e
  | foreign {endpoint : Address} (hforeign : a.topology.isLocal endpoint = false) :
      Refusal a c (.configuration (endpoint.text ++ " is not an endpoint of this agent"))
  | missing {scope : Scope} (hscope : scope ∈ a.scopes) (hmissing : a.endpointOf? scope = none) :
      Refusal a c (.missingEndpoint scope.name)

omit [DesiredStore σ] in
/-- A name that is refused is given. -/
theorem refusal_of_resolve {a : Agent σ η} {c : AgentCall} {name : Option String} {e : TrafficError}
    (hc : c.addressee? = some name) (h : a.resolve name = .error e) : Refusal a c e := by
  cases name with
  | none => cases h
  | some name => exact .name hc h

theorem refusal_addServer {os : Host η} {protocol : Protocol} {port : Nat} {endpoint : Address}
    {name : Option String} {a : Agent σ η} {e : TrafficError}
    (h : (a.addServer os protocol port endpoint name).1 = .error e) (he : e.isRefusal = true) :
    Refusal a (.addServer protocol port endpoint name) e ∧
      (a.addServer os protocol port endpoint name).2 = a := by
  rw [addServer] at h ⊢
  split at h
  · rename_i hresolve
    cases h
    exact ⟨refusal_of_resolve rfl hresolve, rfl⟩
  · rename_i scopes hresolve
    dsimp only
    split at h
    · rename_i hmode
      rw [if_pos hmode]
      cases name with
      | none =>
        have hnamed : (none : Option String).isSome = true → ∀ p ∈ scopes, p.2 ≠ none :=
          fun hnamed => Bool.noConfusion hnamed
        cases he.symm.trans (isRefusal_addEach os protocol port _ hnamed h)
      | some ns =>
        -- The one scope that is named has no endpoint, or its server was started.
        obtain ⟨scope, rfl, hscope, -⟩ := resolve_some hresolve
        cases hendpoint : a.endpointOf? scope with
        | none =>
          rw [hendpoint] at h
          cases h
          exact ⟨.missing hscope hendpoint, rfl⟩
        | some found =>
          rw [hendpoint] at h
          have hcause := isRefusal_addEach os protocol port true (by simp) h
          cases he.symm.trans hcause
    · rename_i hmode
      rw [if_neg hmode]
      split at h
      · have hnamed : ∀ here : List (Scope × Option Address),
            false = true → ∀ p ∈ here, p.2 ≠ none := fun _ hnamed => Bool.noConfusion hnamed
        cases he.symm.trans (isRefusal_addEach os protocol port false (hnamed _) h)
      · rename_i hlocal
        rw [if_neg hlocal]
        cases h
        exact ⟨.foreign (Bool.eq_false_iff.mpr hlocal), rfl⟩

theorem isRefusal_startServersIn (os : Host η) {scopes : List (Scope × Option Address)}
    {d : Deployment σ η} {e : TrafficError} (h : (startServersIn os scopes d).1 = .error e) :
    e.isRefusal = false := by
  induction scopes generalizing d with
  | nil => cases h
  | cons p rest ih =>
    obtain ⟨scope, endpoint⟩ := p
    cases endpoint with
    | none => exact ih h
    | some endpoint =>
      rw [startServersIn] at h
      split at h
      · cases h
        rfl
      · dsimp only at h
        split at h
        · rename_i heq
          cases h
          exact ih (congrArg Prod.fst heq)
        · cases h

omit [DesiredStore σ] in
theorem isRefusal_ofStorage {α : Type} {result : Except StorageError α} {e : TrafficError}
    (h : ofStorage result = .error e) : e.isRefusal = false := by
  cases result with
  | ok x => cases h
  | error cause =>
    cases h
    rfl

theorem isRefusal_registerEach (t : Topology) {rules : List Rule} {report : RegisterReport}
    {d : Deployment σ η} {e : TrafficError} (h : (registerEach t rules report d).1 = .error e) :
    e.isRefusal = false := by
  induction rules generalizing report d with
  | nil => cases h
  | cons rule rest ih =>
    rw [registerEach] at h
    split at h
    · exact ih h
    · split at h
      · exact ih h
      · split at h
        · exact ih h
        · cases h
          rfl

omit [DesiredStore σ] in
theorem error_of_answering {α : Type} {answer : α → AgentAnswer}
    {p : Except TrafficError α × Agent σ η} {e : TrafficError}
    (h : (answering answer p).1 = .error e) : p.1 = .error e := by
  obtain ⟨result, a⟩ := p
  cases result with
  | error e' =>
    cases h
    rfl
  | ok x => cases h

/-- A call that answers a refusal is refused for one of the three reasons, and has done nothing. -/
theorem refusal_of_perform {os : Host η} {a : Agent σ η} {c : AgentCall} {e : TrafficError}
    (h : (a.perform os c).1 = .error e) (he : e.isRefusal = true) :
    Refusal a c e ∧ (a.perform os c).2 = a := by
  have hknown : ∀ {name}, c.addressee? = some name →
      (∀ scopes, a.resolve name = .ok scopes → Refusal a c e ∧ (a.perform os c).2 = a) →
        Refusal a c e ∧ (a.perform os c).2 = a := by
    intro name hc hok
    cases hresolve : a.resolve name with
    | ok scopes => exact hok scopes hresolve
    | error e' =>
      rw [(refuses_of_resolve hresolve os).call c hc] at h ⊢
      cases h
      exact ⟨refusal_of_resolve hc hresolve, rfl⟩
  cases c with
  | register rules =>
    have hcause := isRefusal_registerEach a.topology (error_of_answering h)
    cases he.symm.trans hcause
  | unregister endpoint =>
    cases he.symm.trans (isRefusal_ofStorage (error_of_answering h))
  | addServer protocol port endpoint name => exact refusal_addServer (error_of_answering h) he
  | startServers name =>
    refine hknown rfl fun scopes hresolve => ?_
    have hanswer := error_of_answering h
    rw [startServers, hresolve] at hanswer
    cases he.symm.trans (isRefusal_startServersIn os hanswer)
  | startClients name =>
    refine hknown rfl fun scopes hresolve => ?_
    rw [perform, startClients, hresolve] at h
    cases h
  | stopServers name =>
    refine hknown rfl fun scopes hresolve => ?_
    rw [perform, stopServers, hresolve] at h
    cases h
  | stopServer protocol port name =>
    refine hknown rfl fun scopes hresolve => ?_
    rw [perform, stopServer, hresolve] at h
    cases h
  | stopClients name =>
    refine hknown rfl fun scopes hresolve => ?_
    rw [perform, stopClients, hresolve] at h
    cases h
  | stopClient name =>
    refine hknown rfl fun scopes hresolve => ?_
    rw [perform, stopClient, hresolve] at h
    cases h
  | shutdown => cases h

/-! ## Agents that are reached -/

variable [StoreContent σ]

/-- An agent that is reached has the topology that it was built with, and the scopes of it. -/
theorem topology_of_reachable {settings : Settings} {topology : Topology} {d : Deployment σ η}
    {start a : Agent σ η} (hbuilt : build settings topology d = .ok start)
    (h : Reachable start a) : a.topology = topology ∧ scopesOf a.topology = .ok a.scopes := by
  obtain ⟨d', rfl⟩ := exists_put_of_reachable h
  obtain ⟨scopes, hscopes, hstart⟩ := Except.bind_eq_ok hbuilt
  cases hstart
  exact ⟨rfl, hscopes⟩

/-- Whatever an agent has been asked before, a name that is not to be given, an unknown one, and an
address that is not the agent's are refused by every call, with the agent exactly as it was; and a
call that answers any refusal has left it so. -/
theorem refused_calls_do_nothing {settings : Settings} {topology : Topology} {state : σ} {host : η}
    {outlet : Outlet} {start a : Agent σ η}
    (hbuilt : build settings topology (.fresh state host outlet) = .ok start)
    (h : Reachable start a) (os : Host η) :
    (topology.namespaceMode = false → ∀ ns, Refuses os a (some ns)
      (.configuration ("namespace " ++ ns ++ " given but the agent runs in root mode"))) ∧
    (topology.namespaceMode = true → ∀ ns, ns ∉ topology.names →
      Refuses os a (some ns) (.unknownNamespace ns)) ∧
    (topology.namespaceMode = false → ∀ endpoint, topology.isLocal endpoint = false →
      ∀ protocol port name, ∃ text,
        a.addServer os protocol port endpoint name = (.error (.configuration text), a)) ∧
    ∀ c e, (a.perform os c).1 = .error e → e.isRefusal = true → (a.perform os c).2 = a := by
  obtain ⟨rfl, hscopes⟩ := topology_of_reachable hbuilt h
  refine ⟨fun hmode ns => ?_, fun hmode ns hns => ?_, fun hmode endpoint hforeign => ?_, ?_⟩
  · exact refuses_of_resolve (resolve_eq_root hmode ns) os
  · exact refuses_of_resolve (resolve_eq_unknown hscopes hmode hns) os
  · intro protocol port name
    cases name with
    | some ns =>
      refine ⟨"namespace " ++ ns ++ " given but the agent runs in root mode", ?_⟩
      rw [addServer, resolve_eq_root hmode]
    | none =>
      refine ⟨endpoint.text ++ " is not an endpoint of this agent", ?_⟩
      rw [addServer, resolve]
      simp only [hmode, hforeign, Bool.false_eq_true, if_false]
  · exact fun c e hanswer hrefusal => (refusal_of_perform hanswer hrefusal).2

/-- The agent of one endpoint is asked for a namespace and for a server elsewhere, and the agent of
two namespaces for a third, while workers of theirs run. -/
theorem refused_calls_do_nothing_running :
    let a := loopbackAgent.run Managers.openHost loopbackDay
    let b := pairedAgent.run readyHost pairedDay
    a.deployment.servers.keys.length = 2 ∧ b.deployment.servers.keys.length = 2 ∧
      a.perform Managers.openHost (.stopServers (some "red")) =
        (.error (.configuration "namespace red given but the agent runs in root mode"), a) ∧
      (a.addServer Managers.openHost .tcp 80 .unspecified none).2 = a ∧
      b.perform readyHost (.stopServers (some "green")) = (.error (.unknownNamespace "green"), b) ∧
      b.getClient (some "green") = .error (.unknownNamespace "green") := by
  intro a b
  have hday : ∀ e ∈ loopbackDay, e.Sound := by
    simp [loopbackDay, AgentEvent.Sound, AgentCall.Sound, loopbackRules, portBound]
  have hreached : Reachable loopbackAgent a := reachable_run Managers.openHost hday .start
  obtain ⟨hroot, -, hforeign, -⟩ :=
    refused_calls_do_nothing build_loopback hreached Managers.openHost
  obtain ⟨-, hunknown, -, -⟩ :=
    refused_calls_do_nothing build_paired reachable_pairedDay readyHost
  have hgreen := hunknown (by decide) "green" (by decide)
  obtain ⟨text, htext⟩ := hforeign (by decide) .unspecified (by decide) .tcp 80 none
  refine ⟨by decide, by decide +kernel, (hroot (by decide) "red").call _ rfl, ?_,
    hgreen.call _ rfl, hgreen.client⟩
  rw [htext]

end Agent

end PolicyProbe
