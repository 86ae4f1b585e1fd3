import PolicyProbe.Proofs.Agent.Consistency
import PolicyProbe.Proofs.Agent.Scopes
import PolicyProbe.Proofs.Manager.Stops

/-!
Namespaces do not touch each other. A call that is addressed to one namespace is confined to its
keys and its endpoint; as no worker of an agent that is reached is registered under two keys, the
workers of the other namespaces go on as they were (`Agent.Isolated`). The calls that stop take out
what they are addressed to and nothing else (`Agent.StopsExactly`).
-/
namespace PolicyProbe

open Deployment

namespace Agent

variable {σ η : Type}

/-! ## Scopes by name -/

/-- A request with a name is about one scope of that name. -/
theorem resolve_some {a : Agent σ η} {name : String} {scopes : List (Scope × Option Address)}
    (h : a.resolve (some name) = .ok scopes) :
    ∃ scope, scopes = [(scope, a.endpointOf? scope)] ∧ scope ∈ a.scopes ∧ scope.name = name := by
  rw [resolve] at h
  split at h
  · split at h
    · rename_i scope hfind
      refine ⟨scope, (Except.ok.inj h).symm, List.mem_of_find?_eq_some hfind, ?_⟩
      simpa using List.find?_some hfind
    · cases h
  · cases h

/-- A request that names a namespace is about that namespace and its endpoint. -/
theorem within_of_resolve {a : Agent σ η} (hscopes : scopesOf a.topology = .ok a.scopes)
    (hmode : a.topology.namespaceMode = true) {ns : String}
    {scopes : List (Scope × Option Address)} (h : a.resolve (some ns) = .ok scopes) :
    Within (· = ns) (fun endpoint => a.topology.endpointOf? ns = some endpoint) scopes := by
  obtain ⟨scope, rfl, hscope, hname⟩ := resolve_some h
  obtain ⟨name, path, rfl⟩ := named_of_mem_scopesOf hscopes hmode hscope
  obtain rfl : name = ns := hname
  intro p hp
  rw [List.mem_singleton.mp hp]
  exact ⟨rfl, fun endpoint hendpoint => hendpoint⟩

/-! ## What is stopped -/

/-- Whether a name is that of a scope; none stands for all. -/
def addresses (name : Option String) (scope : String) : Bool := name.all (· == scope)

theorem takesOut_stopServersIn (os : Host η) (scopes : List (Scope × Option Address))
    {d : Deployment σ η} (hd : d.Keyed) :
    TakesOut (fun key => key.isServer && (scopes.map (·.1.name)).contains key.scope)
      (stopServersIn os scopes d).1 d (stopServersIn os scopes d).2 := by
  induction scopes generalizing d with
  | nil => exact (takesOut_nothing d).congr (fun _ _ => rfl) fun _ _ => rfl
  | cons p rest ih =>
    have hfirst := Servers.takesOut_stopAll os p.1 hd
    refine (hfirst.trans (ih (hfirst.keyed hd))).congr (fun key _ => ?_) fun _ _ => rfl
    rw [List.map_cons, List.contains_cons, Bool.and_or_distrib_left]

/-- The key of a server in a scope is that of its protocol and port with the name of the scope. -/
theorem beq_key (key : ServerKey) (scope : Scope) (protocol : Protocol) (port : Nat) :
    (key == Servers.key scope protocol port) =
      (key == ⟨key.scope, port, protocol⟩ && key.scope == scope.name) := by
  obtain ⟨name, port', protocol'⟩ := key
  rw [Bool.eq_iff_iff, Bool.and_eq_true, beq_iff_eq, beq_iff_eq, beq_iff_eq, Servers.key]
  simp only [ServerKey.mk.injEq, true_and]
  exact and_comm

theorem takesOut_stopServerIn (os : Host η) (protocol : Protocol) (port : Nat)
    (scopes : List (Scope × Option Address)) {d : Deployment σ η} (hd : d.Keyed) :
    ∃ n, (stopServerIn os protocol port scopes d).1 = (n != 0) ∧
      TakesOut (fun key => key == .server ⟨key.scope, port, protocol⟩ &&
        (scopes.map (·.1.name)).contains key.scope) n d
        (stopServerIn os protocol port scopes d).2 := by
  induction scopes generalizing d with
  | nil =>
    refine ⟨0, rfl, (takesOut_nothing d).congr (fun _ _ => ?_) fun _ _ => ?_⟩
    · exact (Bool.and_false _).symm
    · exact (Bool.and_false _).symm
  | cons p rest ih =>
    have hfirst := Servers.takesOut_stop os p.1 protocol port hd
    obtain ⟨n, hanswer, hrest⟩ := ih (hfirst.keyed hd)
    refine ⟨_ + n, ?_, (hfirst.trans hrest).congr (fun key _ => ?_) fun scope _ => ?_⟩
    · rw [stopServerIn]
      dsimp only
      rw [hanswer]
      cases (Servers.stop os p.1 protocol port d).1 <;> cases n <;> rfl
    · rw [List.map_cons, List.contains_cons, Bool.and_or_distrib_left,
        WorkerKey.server_beq_server, WorkerKey.server_beq_server, beq_key]
      rfl
    · rw [WorkerKey.client_beq_server, WorkerKey.client_beq_server]
      rfl

theorem takesOut_stopClientsIn (os : Host η) (scopes : List (Scope × Option Address))
    {d : Deployment σ η} (hd : d.Keyed) :
    TakesOut (fun key => !key.isServer && (scopes.map (·.1.name)).contains key.scope)
      (stopClientsIn os scopes d).1 d (stopClientsIn os scopes d).2 := by
  rw [stopClientsIn_eq]
  refine (takesOut_dismissEach os _ hd).congr (fun key _ => ?_) fun name _ => ?_
  · simp [WorkerKey.isServer]
  · simp [WorkerKey.isServer, WorkerKey.scope]

/-- What the calls that stop take out: all servers, the server of a protocol and a port, and the
clients, of the scopes that a name addresses. The number of what was taken out is the answer, or
whether it was anything. -/
structure StopsExactly (os : Host η) (name : Option String) (a : Agent σ η) : Prop where
  servers : ∃ n d, a.stopServers os name = (.ok n, a.put d) ∧
    TakesOut (fun key => key.isServer && addresses name key.scope) n a.deployment d
  server : ∀ protocol port, ∃ n d, a.stopServer os protocol port name = (.ok (n != 0), a.put d) ∧
    TakesOut (fun key => key == .server ⟨key.scope, port, protocol⟩ && addresses name key.scope) n
      a.deployment d
  clients : ∃ n d, a.stopClients os name = (.ok n, a.put d) ∧
    TakesOut (fun key => !key.isServer && addresses name key.scope) n a.deployment d
  client : ∃ n d, a.stopClient os name = (.ok (n != 0), a.put d) ∧
    TakesOut (fun key => !key.isServer && addresses name key.scope) n a.deployment d

/-- Every worker is registered in a scope of the agent. -/
def Sited (a : Agent σ η) : Prop :=
  ∀ (key : WorkerKey) w, key.registered? a.deployment = some w →
    key.scope ∈ a.scopes.map Scope.name

/-- A name that is known is resolved to the scopes that it addresses. -/
theorem resolve_known {a : Agent σ η} (hscopes : scopesOf a.topology = .ok a.scopes)
    (hmode : a.topology.namespaceMode = true) {name : Option String}
    (hknown : ∀ ns ∈ name, ns ∈ a.topology.names) :
    ∃ scopes, a.resolve name = .ok scopes ∧ ∀ scope ∈ a.scopes.map Scope.name,
      (scopes.map (·.1.name)).contains scope = addresses name scope := by
  cases name with
  | none =>
    refine ⟨_, rfl, fun scope hscope => ?_⟩
    have hmap : (a.scopes.map fun scope => (scope, a.endpointOf? scope)).map (·.1.name) =
        a.scopes.map Scope.name := List.map_map
    rw [hmap]
    exact List.contains_iff_mem.mpr hscope
  | some ns =>
    have hmem := hknown ns rfl
    rw [← names_of_scopesOf hscopes hmode] at hmem
    obtain ⟨scope, hscope, hname⟩ := List.mem_map.mp hmem
    cases hresolve : a.resolve (some ns) with
    | error e =>
      -- The scope of that name is found.
      rw [resolve, if_pos hmode] at hresolve
      split at hresolve
      · cases hresolve
      · rename_i hnone
        exact absurd hname (by simpa using List.find?_eq_none.mp hnone scope hscope)
    | ok scopes =>
      obtain ⟨found, rfl, -, hfound⟩ := resolve_some hresolve
      refine ⟨_, rfl, fun scope _ => ?_⟩
      rw [List.map_singleton, hfound, List.contains_cons]
      simp [addresses, Bool.beq_comm]

theorem stopsExactly_of_sited {a : Agent σ η} (hscopes : scopesOf a.topology = .ok a.scopes)
    (hmode : a.topology.namespaceMode = true) (hd : a.deployment.Keyed) (hsited : Sited a)
    {name : Option String} (hknown : ∀ ns ∈ name, ns ∈ a.topology.names) (os : Host η) :
    StopsExactly os name a := by
  obtain ⟨scopes, hresolve, hnames⟩ := resolve_known hscopes hmode hknown
  have hserver : ∀ key ∈ a.deployment.servers.keys,
      (scopes.map (·.1.name)).contains key.scope = addresses name key.scope := by
    intro key hkey
    obtain ⟨w, hw⟩ := OrderedMap.exists_of_mem_keys hkey
    exact hnames _ (hsited (.server key) w hw)
  have hclient : ∀ scope ∈ a.deployment.clients.keys, scope ∈ a.scopes.map Scope.name := by
    intro scope hkey
    obtain ⟨w, hw⟩ := OrderedMap.exists_of_mem_keys hkey
    exact hsited (.client scope) w hw
  have hclients : TakesOut (fun key => !key.isServer && addresses name key.scope)
      (stopClientsIn os scopes a.deployment).1 a.deployment
      (stopClientsIn os scopes a.deployment).2 := by
    refine (takesOut_stopClientsIn os scopes hd).congr (fun _ _ => rfl) fun scope hkey => ?_
    exact congrArg (true && ·) (hnames scope (hclient scope hkey))
  constructor
  case servers =>
    refine ⟨_, _, by rw [stopServers, hresolve], ?_⟩
    refine (takesOut_stopServersIn os scopes hd).congr (fun key hkey => ?_) fun _ _ => rfl
    exact congrArg (true && ·) (hserver key hkey)
  case server =>
    intro protocol port
    obtain ⟨n, hanswer, hstopped⟩ := takesOut_stopServerIn os protocol port scopes hd
    refine ⟨n, _, by rw [stopServer, hresolve, ← hanswer], ?_⟩
    refine hstopped.congr (fun key hkey => ?_) fun scope _ => ?_
    · exact congrArg _ (hserver key hkey)
    · rw [WorkerKey.client_beq_server]
      rfl
  case clients =>
    cases name with
    | some ns => exact ⟨_, _, by rw [stopClients, hresolve]; rfl, hclients⟩
    | none =>
      cases scopes with
      | cons p rest =>
        refine ⟨_, _, by rw [stopClients, hresolve], ?_⟩
        exact (Clients.takesOut_stopAll os hd).congr (fun _ _ => rfl) fun _ _ => rfl
      | nil =>
        -- Without scopes nothing is stopped, and there is no client.
        refine ⟨_, _, by rw [stopClients, hresolve], ?_⟩
        have hempty : a.scopes = [] := List.map_eq_nil_iff.mp (Except.ok.inj hresolve)
        refine (takesOut_nothing _).congr (fun _ _ => rfl) fun scope hkey => ?_
        have hscope := hclient scope hkey
        rw [hempty] at hscope
        exact absurd hscope List.not_mem_nil
  case client =>
    exact ⟨_, _, by rw [stopClient, hresolve], hclients⟩

/-! ## Other namespaces -/

variable [DesiredStore σ] [StoreContent σ]

/-- What is of other namespaces than one is the same: what is registered, the workers registered
there, and the desired state of all endpoints but that of the namespace. -/
structure Isolated (ns : String) (a a' : Agent σ η) : Prop where
  registered : ∀ key : WorkerKey, key.scope ≠ ns →
    key.registered? a'.deployment = key.registered? a.deployment
  workers : ∀ key : WorkerKey, key.scope ≠ ns → ∀ w, key.registered? a.deployment = some w →
    a'.deployment.workers.find? w = a.deployment.workers.find? w
  held : ∀ endpoint, a.topology.endpointOf? ns ≠ some endpoint →
    StoreContent.held? endpoint a'.deployment.state = StoreContent.held? endpoint a.deployment.state

theorem isolated_of_confined {ns : String} {a a' : Agent σ η} (hd : a.deployment.Rostered)
    (h : Confined (· = ns) (fun endpoint => a.topology.endpointOf? ns = some endpoint)
      a.deployment a'.deployment) : Isolated ns a a' where
  registered := h.others
  workers key hkey w hw := by
    -- The worker is registered under this key only, so under none of the namespace.
    refine h.workers w (hd.employed key w hw) fun k hk hreg => hkey ?_
    rwa [hd.unshared key k w hw hreg] at hk
  held := h.held

/-! ## Agents that are reached -/

/-- The workers of an agent that is reached are of its scopes, as starts are. -/
theorem sited_of_reachable {settings : Settings} {topology : Topology} {state : σ} {host : η}
    {outlet : Outlet} {start a : Agent σ η}
    (hbuilt : build settings topology (.fresh state host outlet) = .ok start)
    (hports : StoreContent.Ported state) (h : Reachable start a) : Sited a := by
  have hstaffed : Staffed (fun key _ => key.scope ∈ a.scopes.map Scope.name) a.deployment := by
    refine staffed_of_reachable hbuilt hports h fun s key r hplan => ?_
    cases hplan with
    | server hscope => exact List.mem_map_of_mem (mem_site.mp hscope).1
    | client hscope => exact List.mem_map_of_mem (mem_site.mp hscope).1
  intro key w hw
  obtain ⟨_, -, hmem⟩ := hstaffed key w hw
  exact hmem

/-- Whatever an agent with namespaces has been asked before, a call that starts or stops workers and
names a namespace leaves the others alone, however it turns out, and what a call stops is what it is
addressed to. -/
theorem namespaces_isolated {settings : Settings} {topology : Topology} {state : σ} {host : η}
    {outlet : Outlet} {start a : Agent σ η}
    (hbuilt : build settings topology (.fresh state host outlet) = .ok start)
    (hports : StoreContent.Ported state) (h : Reachable start a)
    (hmode : a.topology.namespaceMode = true) (os : Host η) :
    (∀ c ns, AgentCall.addressee? c = some (some ns) → Isolated ns a (a.perform os c).2) ∧
      ∀ name, (∀ ns ∈ name, ns ∈ a.topology.names) → StopsExactly os name a := by
  obtain ⟨hscopes, -, -⟩ := standing_of_reachable hbuilt hports h
  have hrostered : a.deployment.Rostered := by
    refine rostered_of_reachable ?_ h
    rw [(build_eq_ok hbuilt).2]
    exact rostered_fresh state host outlet
  constructor
  · intro c ns hc
    refine isolated_of_confined hrostered (confined_perform hc ?_ nofun ?_ os)
    · exact fun scopes hresolve => within_of_resolve hscopes hmode hresolve
    · exact fun hroot => absurd hmode hroot
  · intro name hknown
    exact stopsExactly_of_sited hscopes hmode hrostered.toKeyed
      (sited_of_reachable hbuilt hports h) hknown os

/-- A host on which every worker process reports that it is ready. -/
def readyHost : Host Unit :=
  { Managers.openHost with
    spawn := fun _ _ _ => (.ok ⟨Lines.ofText WorkerEvent.ready.line, none⟩, ()) }

/-- An agent of two namespaces, without desired state. -/
def pairedAgent : Agent DesiredState Unit where
  settings := .default
  topology := .namespaced "/run/netns" [("blue", .loopback), ("red", .unspecified)]
  scopes := [.named "blue" "/run/netns/blue", .named "red" "/run/netns/red"]
  deployment := .fresh (.memory .empty) () (.collected [])

/-- A server in each namespace; the worker of one dies. -/
def pairedDay : List AgentEvent :=
  [.call (.addServer .tcp 80 .loopback (some "blue")),
    .call (.addServer .udp 53 .unspecified (some "red")), .exit 0 1]

theorem build_paired : build .default pairedAgent.topology
    (.fresh (.memory .empty) () (.collected [])) = .ok pairedAgent := rfl

theorem sound_pairedDay : ∀ e ∈ pairedDay, e.Sound := by
  simp [pairedDay, AgentEvent.Sound, AgentCall.Sound, portBound]

theorem reachable_pairedDay : Reachable pairedAgent (pairedAgent.run readyHost pairedDay) :=
  reachable_run readyHost sound_pairedDay .start

theorem namespaces_isolated_paired :
    let a := pairedAgent.run readyHost pairedDay
    a.deployment.servers.keys = [⟨"blue", 80, .tcp⟩, ⟨"red", 53, .udp⟩] ∧
      Isolated "blue" a (a.perform readyHost (.startServers (some "blue"))).2 ∧
      StopsExactly readyHost (some "red") a := by
  intro a
  obtain ⟨hisolated, hstops⟩ :=
    namespaces_isolated build_paired ported_loopback reachable_pairedDay (by decide +kernel)
      readyHost
  refine ⟨by decide +kernel, hisolated _ _ rfl, hstops _ fun ns hns => ?_⟩
  obtain rfl := Option.some.inj hns
  decide +kernel

end Agent

end PolicyProbe
