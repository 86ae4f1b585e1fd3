import PolicyProbe.Proofs.Agent.Log
import PolicyProbe.Proofs.Agent.Refusals
import PolicyProbe.Proofs.Path

/-!
What the check of settings is good for. Settings that pass it describe an agent: it has a scope for
each of their namespaces, or the root scope, and every scope has an endpoint of the agent and, in a
namespace, a path of its own directly in the directory of namespaces (`Agent.Housed`). So whatever
happens to the agent, no name of a namespace and no endpoint is ever missing: no call answers so, no
report tells of it, and nothing is passed over in the log (`Agent.Equipped`).
-/
namespace PolicyProbe

open Deployment

/-! ## Settings that pass their check -/

namespace Settings

theorem checkPlaces_of_check {s : Settings} (h : s.check = .ok ()) : s.checkPlaces = .ok () := by
  obtain ⟨⟨⟩, hplaces, -⟩ := Except.bind_eq_ok h
  exact hplaces

theorem isNamespaceName_of_check {s : Settings} (h : s.check = .ok ())
    (hmode : s.namespaceMode = true) {name : String} (hname : name ∈ s.namespaces.keys) :
    isNamespaceName name = true := by
  have hplaces := checkPlaces_of_check h
  rw [checkPlaces, if_pos hmode] at hplaces
  split at hplaces
  · cases hplaces
  · rename_i hnone
    simpa using List.find?_eq_none.mp hnone name hname

theorem endpoint_of_check {s : Settings} (h : s.check = .ok ()) (hmode : s.namespaceMode = false) :
    ∃ endpoint, s.endpoint = some endpoint := by
  have hplaces := checkPlaces_of_check h
  rw [checkPlaces, hmode, if_neg Bool.false_ne_true, ensure] at hplaces
  split at hplaces
  · rename_i hsome
    exact Option.isSome_iff_exists.mp hsome
  · cases hplaces

end Settings

namespace Topology

variable {s : Settings}

theorem ofSettings_namespaces (hmode : s.namespaceMode = true) :
    ofSettings s =
      ⟨s.namespaceDir, .namespaces (s.namespaces.map fun (name, a) => (name, some a))⟩ := by
  rw [ofSettings, if_pos hmode]
  rfl

theorem ofSettings_root (hmode : s.namespaceMode = false) :
    ofSettings s = ⟨s.namespaceDir, .root s.endpoint⟩ := by
  rw [ofSettings, hmode]
  rfl

theorem names_ofSettings (hmode : s.namespaceMode = true) :
    (ofSettings s).names = s.namespaces.keys := by
  rw [ofSettings_namespaces hmode]
  exact List.map_map

/-- A namespace of settings has an endpoint. -/
theorem endpointOf?_ofSettings (hmode : s.namespaceMode = true) {name : String}
    (hname : name ∈ s.namespaces.keys) :
    ∃ endpoint, (ofSettings s).endpointOf? name = some endpoint := by
  rw [← names_ofSettings hmode] at hname
  rw [ofSettings_namespaces hmode] at hname ⊢
  obtain ⟨found, hfound⟩ := OrderedMap.exists_of_mem_keys hname
  obtain ⟨⟨name', endpoint⟩, -, heq⟩ := List.mem_map.mp (OrderedMap.mem_of_find? hfound)
  obtain ⟨-, rfl⟩ := Prod.mk.inj heq
  exact ⟨endpoint, congrArg Option.join hfound⟩

end Topology

variable {σ η : Type}

namespace Agent

/-! ## The agent of settings -/

/-- Names that may be those of namespaces have scopes. -/
theorem scopesOf_of_names {t : Topology} (hmode : t.namespaceMode = true)
    (h : ∀ name ∈ t.names, Settings.isNamespaceName name = true) :
    scopesOf t = .ok (t.names.map fun name => .named name (Path.join t.directory name)) := by
  rw [scopesOf, if_pos hmode]
  generalize t.names = names at h ⊢
  induction names with
  | nil => rfl
  | cons name rest ih =>
    obtain ⟨hname, hrest⟩ := List.forall_mem_cons.mp h
    rw [List.mapM_cons, ih hrest, Topology.path?, if_pos hname]
    rfl

/-- An agent is housed as settings say: in one scope for each namespace, or in the root scope, each
with an endpoint of the agent; and a namespace has a path of its own in the directory of
namespaces. -/
structure Housed (s : Settings) (a : Agent σ η) : Prop where
  names : a.scopes.map Scope.name = if s.namespaceMode then s.namespaces.keys else ["root"]
  root : s.namespaceMode = false → a.scopes = [.root]
  endpoint : ∀ scope ∈ a.scopes, ∃ endpoint,
    a.endpointOf? scope = some endpoint ∧ a.topology.isLocal endpoint = true
  path : s.namespaceMode = true → ∀ scope ∈ a.scopes, ∃ path,
    scope.path? = some path ∧ Path.IsChild s.namespaceDir scope.name path
  distinct : ∀ scope ∈ a.scopes, ∀ other ∈ a.scopes, scope.path? = other.path? →
    scope.name = other.name

theorem build_of_scopesOf {s : Settings} {t : Topology} {scopes : List Scope}
    (h : scopesOf t = .ok scopes) (d : Deployment σ η) : build s t d = .ok ⟨s, t, scopes, d⟩ := by
  rw [build, h]
  rfl

/-- Settings that pass their check describe an agent. -/
theorem exists_housed {s : Settings} (hs : s.check = .ok ()) (d : Deployment σ η) :
    ∃ a, build s (.ofSettings s) d = .ok a ∧ Housed s a := by
  cases hmode : s.namespaceMode with
  | false =>
    have hroot : (Topology.ofSettings s).namespaceMode = false := by
      rw [Topology.ofSettings_root hmode]
      rfl
    have hscopes := scopesOf_root hroot
    obtain ⟨endpoint, hendpoint⟩ := Settings.endpoint_of_check hs hmode
    refine ⟨_, build_of_scopesOf hscopes d, ?_⟩
    constructor
    case names => rw [hmode]; rfl
    case root => exact fun _ => rfl
    case endpoint =>
      intro scope hscope
      obtain rfl := List.mem_singleton.mp hscope
      have hsome : (Topology.ofSettings s).rootEndpoint? = some endpoint := by
        rw [Topology.ofSettings_root hmode]
        exact hendpoint
      refine ⟨endpoint, hsome, ?_⟩
      refine (site_sound (a := ⟨s, .ofSettings s, [.root], d⟩) hscopes).isLocal .root endpoint ?_
      exact mem_site.mpr ⟨List.mem_singleton_self _, hsome⟩
    case path => exact fun h => absurd (hmode.symm.trans h) Bool.false_ne_true
    case distinct =>
      intro scope hscope other hother _
      rw [List.mem_singleton.mp hscope, List.mem_singleton.mp hother]
  | true =>
    have hnames := Topology.names_ofSettings hmode
    have hdirectory : (Topology.ofSettings s).directory = s.namespaceDir := by
      rw [Topology.ofSettings_namespaces hmode]
    have hnamespaces : (Topology.ofSettings s).namespaceMode = true := by
      rw [Topology.ofSettings_namespaces hmode]
      rfl
    have hvalid : ∀ name ∈ s.namespaces.keys, Settings.isNamespaceName name = true :=
      fun name hname => Settings.isNamespaceName_of_check hs hmode hname
    have hscopes := scopesOf_of_names hnamespaces (by rwa [hnames])
    rw [hnames, hdirectory] at hscopes
    have hpath : ∀ scope ∈ s.namespaces.keys.map fun name =>
        Scope.named name (Path.join s.namespaceDir name), ∃ path, scope.path? = some path ∧
          Path.IsChild s.namespaceDir scope.name path := by
      intro scope hscope
      obtain ⟨name, hname, rfl⟩ := List.mem_map.mp hscope
      exact ⟨_, rfl, Path.isChild_join _ (Settings.plain_of_isNamespaceName (hvalid name hname))⟩
    refine ⟨_, build_of_scopesOf hscopes d, ?_⟩
    constructor
    case names =>
      rw [if_pos hmode, List.map_map]
      exact List.map_id _
    case root => exact fun h => absurd (h.symm.trans hmode) Bool.false_ne_true
    case endpoint =>
      intro scope hscope
      obtain ⟨name, hname, rfl⟩ := List.mem_map.mp hscope
      obtain ⟨endpoint, hendpoint⟩ := Topology.endpointOf?_ofSettings hmode hname
      refine ⟨endpoint, hendpoint, ?_⟩
      refine (site_sound (a := ⟨s, .ofSettings s, _, d⟩) hscopes).isLocal
        (.named name (Path.join s.namespaceDir name)) endpoint ?_
      exact mem_site.mpr ⟨hscope, hendpoint⟩
    case path => exact fun _ => hpath
    case distinct =>
      intro scope hscope other hother hsame
      obtain ⟨path, hscopePath, hchild⟩ := hpath scope hscope
      obtain ⟨path', hotherPath, hchild'⟩ := hpath other hother
      obtain rfl := Option.some.inj (hscopePath.symm.trans (hsame.trans hotherPath))
      exact hchild.unique hchild'

end Agent

/-! ## What can no more be missing -/

/-- The failure that a line of a report tells of. -/
def StartFailure.cause : StartFailure → TrafficError
  | .server _ _ _ e => e
  | .client _ _ e => e

/-- What is said of a namespace whose name cannot be that of a file. -/
def TrafficError.invalidName (name : String) : TrafficError :=
  .configuration ("invalid namespace name " ++ Shown.quoted name)

/-- A failure that says that something is missing which the settings should have: a name of a
namespace that can be that of a file, or an endpoint. -/
def TrafficError.IsLack (e : TrafficError) : Prop :=
  (∃ name, e = .invalidName name) ∨ ∃ name, e = .missingEndpoint name

theorem TrafficError.not_isLack_of_isRefusal {e : TrafficError} (h : e.isRefusal = false) :
    ¬e.IsLack := by
  rintro (⟨name, rfl⟩ | ⟨name, rfl⟩) <;> cases h

theorem getLast?_toList_append {more : String} {c : Char} (h : more.toList.getLast? = some c)
    (text : String) : (text ++ more).toList.getLast? = some c := by
  rw [String.toList_append, List.getLast?_append, h]
  rfl

/-- The text about an invalid name ends in a quote. -/
theorem TrafficError.configuration_ne_invalidName {text : String} {c : Char}
    (hlast : text.toList.getLast? = some c) (hc : c ≠ '"') (name : String) :
    TrafficError.configuration text ≠ .invalidName name := by
  intro heq
  have htext : text = "invalid namespace name " ++ Shown.quoted name :=
    TrafficError.configuration.inj heq
  have hquote : text.toList.getLast? = some '"' := by
    rw [htext, Shown.quoted]
    exact getLast?_toList_append (getLast?_toList_append (by decide) _) _
  exact hc (Option.some.inj (hlast.symm.trans hquote))

namespace Agent

/-- A name that is given is refused for other reasons than that it cannot be that of a file. -/
theorem not_isLack_of_resolve {a : Agent σ η} {name : Option String} {e : TrafficError}
    (h : a.resolve name = .error e) : ¬e.IsLack := by
  have hroot : ∀ ns, ¬(TrafficError.configuration
      ("namespace " ++ ns ++ " given but the agent runs in root mode")).IsLack := by
    rintro ns (⟨name', heq⟩ | ⟨name', heq⟩)
    · exact TrafficError.configuration_ne_invalidName (c := 'e')
        (getLast?_toList_append (by decide) _) (by decide) _ heq
    · cases heq
  cases name with
  | none => cases h
  | some ns =>
    rw [resolve] at h
    split at h
    · split at h
      · cases h
      · cases h
        rintro (⟨name', heq⟩ | ⟨name', heq⟩) <;> cases heq
    · cases h
      exact hroot ns

variable [DesiredStore σ]

/-- An agent whose scopes have endpoints lacks nothing for a call. -/
theorem HasEndpoints.not_isLack {a : Agent σ η} (h : HasEndpoints a) {os : Host η} {c : AgentCall}
    {e : TrafficError} (hanswer : (a.perform os c).1 = .error e) : ¬e.IsLack := by
  cases he : e.isRefusal with
  | false => exact TrafficError.not_isLack_of_isRefusal he
  | true =>
    cases (refusal_of_perform hanswer he).1 with
    | name _ hresolve => exact not_isLack_of_resolve hresolve
    | foreign _ =>
      rintro (⟨name, heq⟩ | ⟨name, heq⟩)
      · exact TrafficError.configuration_ne_invalidName (c := 't')
          (getLast?_toList_append (by decide) _) (by decide) _ heq
      · cases heq
    | missing hscope hmissing => exact absurd hmissing (h _ hscope)

/-! ## Reports -/

theorem isRefusal_startListed {os : Host η} {scope : Scope} {endpoint : Address}
    {entries : List ServerEntry} {d : Deployment σ η} :
    ∀ f ∈ (startListed os scope endpoint entries d).1.failed, f.cause.isRefusal = false := by
  induction entries generalizing d with
  | nil => exact fun f hf => absurd hf List.not_mem_nil
  | cons entry rest ih =>
    intro f hf
    rw [startListed_cons] at hf
    rcases List.mem_append.mp hf with hf | hf
    · rcases hanswer : (Servers.start os scope entry.protocol entry.port endpoint d).1 with e | w
      · rw [hanswer] at hf
        rw [List.mem_singleton.mp hf]
        exact Servers.isRefusal_start os scope entry.protocol entry.port endpoint hanswer
      · rw [hanswer] at hf
        exact absurd hf List.not_mem_nil
    · exact ih f hf

theorem isRefusal_startServersReport {os : Host η} {scopes : List (Scope × Option Address)}
    {d : Deployment σ η} {report : StartReport} (h : (startServersIn os scopes d).1 = .ok report) :
    ∀ f ∈ report.failed, f.cause.isRefusal = false := by
  induction scopes generalizing d report with
  | nil =>
    cases h
    exact fun f hf => absurd hf List.not_mem_nil
  | cons p rest ih =>
    obtain ⟨scope, endpoint⟩ := p
    cases endpoint with
    | none => exact ih h
    | some endpoint =>
      rw [startServersIn] at h
      split at h
      · cases h
      · rename_i servers _
        dsimp only at h
        split at h
        · cases h
        · rename_i later d' heq
          cases h
          intro f hf
          rcases List.mem_append.mp hf with hf | hf
          · exact isRefusal_startListed f hf
          · exact ih (congrArg Prod.fst heq) f hf

theorem isRefusal_startClientsReport {os : Host η} {settings : TrafficSettings}
    {scopes : List (Scope × Option Address)} {d : Deployment σ η} :
    ∀ f ∈ (startClientsIn os settings scopes d).1.failed, f.cause.isRefusal = false := by
  rw [startClientsIn_eq]
  induction scopes generalizing d with
  | nil => exact fun f hf => absurd hf List.not_mem_nil
  | cons p rest ih =>
    obtain ⟨scope, endpoint⟩ := p
    cases endpoint with
    | none => exact ih
    | some endpoint =>
      intro f hf
      rw [attemptEach] at hf
      rcases List.mem_append.mp hf with hf | hf
      · obtain ⟨e, hanswer, rfl⟩ := mem_clientAttempt.mp hf
        exact Clients.isRefusal_start os settings scope endpoint hanswer
      · exact ih f hf

omit [DesiredStore σ] in
theorem ok_of_answering {α : Type} {answer : α → AgentAnswer}
    {p : Except TrafficError α × Agent σ η} {b : AgentAnswer} (h : (answering answer p).1 = .ok b) :
    ∃ x, p.1 = .ok x ∧ answer x = b := by
  obtain ⟨result, a⟩ := p
  cases result with
  | error e => cases h
  | ok x => exact ⟨x, rfl, Except.ok.inj h⟩

/-- No line of a report is about a refusal. -/
theorem isRefusal_of_report {os : Host η} {a : Agent σ η} {c : AgentCall} {report : StartReport}
    (h : (a.perform os c).1 = .ok (.started report)) :
    ∀ f ∈ report.failed, f.cause.isRefusal = false := by
  cases c with
  | startServers name =>
    obtain ⟨x, hx, heq⟩ := ok_of_answering h
    obtain rfl := AgentAnswer.started.inj heq
    rw [startServers] at hx
    split at hx
    · cases hx
    · exact isRefusal_startServersReport hx
  | startClients name =>
    obtain ⟨x, hx, heq⟩ := ok_of_answering h
    obtain rfl := AgentAnswer.started.inj heq
    rw [startClients] at hx
    split at hx
    · cases hx
    · cases hx
      exact isRefusal_startClientsReport
  | shutdown => cases h
  | _ =>
    obtain ⟨x, -, heq⟩ := ok_of_answering h
    cases heq

/-! ## Agents that are reached -/

variable [StoreContent σ]

/-- An agent that lacks nothing: neither a call nor a report on one says that a name or an endpoint
is missing, and the log does not say that a scope was passed over. -/
structure Equipped (os : Host η) (a : Agent σ η) : Prop where
  answer : ∀ c e, (a.perform os c).1 = .error e → ¬e.IsLack
  client : ∀ name e, a.getClient name = .error e → ¬e.IsLack
  traffic : ∀ endpoint e, a.trafficConfig endpoint = .error e → ¬e.IsLack
  report : ∀ c report, (a.perform os c).1 = .ok (.started report) →
    ∀ f ∈ report.failed, ¬f.cause.IsLack
  log : ∀ n ∈ a.deployment.notices, n.isSkip = false
  later : ∀ c, ∀ n ∈ (a.perform os c).2.deployment.notices, n.isSkip = false

omit [StoreContent σ] in
theorem equipped_of_logs {start a : Agent σ η} (hempty : start.deployment.notices = [])
    (hendpoints : HasEndpoints a) (hlogs : Logs start.deployment a.deployment) (os : Host η) :
    Equipped os a := by
  have hkind : ∀ {d : Deployment σ η}, Logs start.deployment d →
      ∀ n ∈ d.notices, n.isSkip = false := by
    intro d hd n hn
    refine (hd.mem hn).resolve_left fun hold => ?_
    rw [hempty] at hold
    exact absurd hold List.not_mem_nil
  constructor
  case answer => exact fun c e hanswer => hendpoints.not_isLack hanswer
  case client =>
    intro name e h
    cases hresolve : a.resolve name with
    | error e' =>
      rw [getClient, hresolve] at h
      cases h
      exact not_isLack_of_resolve hresolve
    | ok scopes =>
      rw [getClient, hresolve] at h
      cases h
  case traffic =>
    intro endpoint e h
    cases endpoint <;> exact TrafficError.not_isLack_of_isRefusal (isRefusal_ofStorage h)
  case report =>
    intro c report h f hf
    exact TrafficError.not_isLack_of_isRefusal (isRefusal_of_report h f hf)
  case log => exact hkind hlogs
  case later => exact fun c => hkind (hlogs.trans (logs_perform hendpoints os c))

omit [DesiredStore σ] [StoreContent σ] in
theorem Housed.hasEndpoints {s : Settings} {a : Agent σ η} (h : Housed s a) : HasEndpoints a := by
  intro scope hscope hnone
  obtain ⟨endpoint, hendpoint, -⟩ := h.endpoint scope hscope
  cases hnone.symm.trans hendpoint

omit [DesiredStore σ] [StoreContent σ] in
theorem Housed.put {s : Settings} {a : Agent σ η} (h : Housed s a) (d : Deployment σ η) :
    Housed s (a.put d) :=
  ⟨h.names, h.root, h.endpoint, h.path, h.distinct⟩

/-- Settings that pass their check describe an agent that is housed as they say and never lacks a
name or an endpoint, whatever it is asked and whatever happens to it. And whatever the settings, a
text has the path of that name directly in the directory of namespaces, or none. -/
theorem checked_settings_suffice {s : Settings} (hs : s.check = .ok ()) (state : σ) (host : η)
    (outlet : Outlet) :
    (∃ start, build s (.ofSettings s) (.fresh state host outlet) = .ok start ∧
      ∀ a, Reachable start a → ∀ os, Housed s a ∧ Equipped os a) ∧
    ∀ (t : Topology) (name : String), t.path? name = none ∨
      ∃ path, t.path? name = some path ∧ Path.IsChild t.directory name path := by
  constructor
  · obtain ⟨start, hbuilt, hhoused⟩ := exists_housed hs (.fresh state host outlet)
    refine ⟨start, hbuilt, fun a hreachable os => ?_⟩
    obtain ⟨hendpoints, hlogs⟩ := logs_of_reachable hhoused.hasEndpoints hreachable
    have hempty : start.deployment.notices = [] := by
      rw [(build_eq_ok hbuilt).2]
      rfl
    obtain ⟨d, rfl⟩ := exists_put_of_reachable hreachable
    exact ⟨hhoused.put d, equipped_of_logs hempty hendpoints hlogs os⟩
  · intro t name
    cases hpath : t.path? name with
    | none => exact Or.inl rfl
    | some path => exact Or.inr ⟨path, rfl, Topology.isChild_path? hpath⟩

/-- Settings with two namespaces. -/
def pairedSettings : Settings :=
  { Settings.default with
    namespaceMode := true
    namespaceDir := "/run/netns"
    namespaces := [("blue", .loopback), ("red", .unspecified)] }

theorem checked_settings_suffice_paired :
    pairedSettings.check = .ok () ∧ ∃ start : Agent DesiredState Unit,
      build pairedSettings (.ofSettings pairedSettings)
        (.fresh (.memory .empty) () (.collected [])) = .ok start ∧
      Housed pairedSettings start ∧ Equipped readyHost (start.run readyHost pairedDay) := by
  have hcheck : pairedSettings.check = .ok () := rfl
  obtain ⟨⟨start, hbuilt, hall⟩, -⟩ :=
    checked_settings_suffice hcheck (DesiredState.memory .empty) () (.collected [])
  exact ⟨hcheck, start, hbuilt, (hall start .start readyHost).1,
    (hall _ (reachable_run readyHost sound_pairedDay .start) readyHost).2⟩

end Agent

end PolicyProbe
