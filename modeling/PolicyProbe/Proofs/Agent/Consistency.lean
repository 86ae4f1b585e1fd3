import PolicyProbe.Proofs.Agent.Reachable
import PolicyProbe.Proofs.Manager.Workers

/-!
An agent that started without desired state is consistent ever after (`consistent_of_reachable`):
its entries are of its own endpoints and repeat nothing, and its registered workers are where their
keys say. That a client has no destination twice follows from the entry that it was started for, so
the two parts of the invariant go together: entries stay distinct (`distinct_moves`), and what is
planned for a client of distinct entries pings distinct destinations (`pings_of_plans`).
-/
namespace PolicyProbe

/-! ## Distinct entries -/

/-- What a client knows a destination by. -/
def Destination.key (d : Destination) : ClientEntry.Key := (d.protocol, d.port, d.address)

variable {σ η : Type} [DesiredStore σ] [StoreContent σ] {site : Site}

theorem distinct_moves {d d' : Deployment σ η} (h : Moves site d d')
    (hd : StoreContent.EveryEntry (fun _ entry => entry.Distinct) d.state) :
    StoreContent.EveryEntry (fun _ entry => entry.Distinct) d'.state := by
  refine everyEntry_moves (fun u _ _ entry hentry => ?_) h hd
  rcases hentry with rfl | hentry
  · exact (StateEntry.distinct_empty u.endpoint).merge u.servers u.clients
  · exact hentry.merge u.servers u.clients

theorem local_moves {d d' : Deployment σ η} (h : Moves site d d')
    (hd : StoreContent.EveryEntry (fun endpoint _ => site.isLocal endpoint = true) d.state) :
    StoreContent.EveryEntry (fun endpoint _ => site.isLocal endpoint = true) d'.state :=
  everyEntry_moves (fun _ _ hlocal _ _ => hlocal) h hd

/-! ## Workers that fit their keys -/

/-- A server that is registered under a key is that of its protocol and port, on the endpoint of the
scope that the key names. -/
def Site.Serves (site : Site) (key : WorkerKey) (r : Runnable) : Prop :=
  ∀ k, key = .server k → ∃ scope endpoint, (scope, some endpoint) ∈ site.scopes ∧
    scope.name = k.scope ∧ r = .server ⟨k.protocol, k.port, endpoint⟩

/-- A client that is registered under a name pings distinct destinations from the endpoint of the
scope of that name. -/
def Site.Pings (site : Site) (key : WorkerKey) (r : Runnable) : Prop :=
  ∀ name, key = .client name → ∃ scope endpoint destinations,
    (scope, some endpoint) ∈ site.scopes ∧ scope.name = name ∧
      r = .client ⟨endpoint, destinations, site.traffic⟩ ∧ destinations ≠ [] ∧
        (destinations.map Destination.key).Nodup

theorem serves_of_plans {s : σ} {key : WorkerKey} {r : Runnable} (h : site.Plans s key r) :
    site.Serves key r := by
  intro k hk
  cases h with
  | server hscope protocol port =>
    obtain rfl := WorkerKey.server.inj hk
    exact ⟨_, _, hscope, rfl, rfl⟩
  | client => exact nomatch hk

theorem pings_of_plans {s : σ} (hs : StoreContent.EveryEntry (fun _ entry => entry.Distinct) s)
    {key : WorkerKey} {r : Runnable} (h : site.Plans s key r) : site.Pings key r := by
  intro name hname
  cases h with
  | server => exact nomatch hname
  | @client scope endpoint hscope hclients =>
    refine ⟨scope, endpoint, _, hscope, WorkerKey.client.inj hname, rfl, ?_, ?_⟩
    · exact fun hnil => hclients (List.map_eq_nil_iff.mp hnil)
    · -- The destinations are known by what the entries are known by.
      rw [List.map_map]
      show ((StoreContent.clients endpoint s).map ClientEntry.key).Nodup
      rw [StoreContent.clients]
      cases hheld : StoreContent.held? endpoint s with
      | none => exact List.nodup_nil
      | some entry => exact (hs endpoint entry hheld).clients

theorem staffed_serves {d d' : Deployment σ η} (h : Moves site d d') (hd : Staffed site.Serves d) :
    Staffed site.Serves d' :=
  staffed_moves (fun _ _ _ _ => serves_of_plans) h hd

theorem staffed_pings {d d' : Deployment σ η} (h : Moves site d d')
    (hdistinct : StoreContent.EveryEntry (fun _ entry => entry.Distinct) d.state)
    (hd : Staffed site.Pings d) : Staffed site.Pings d' :=
  staffed_moves (fun _ hmoves _ _ => pings_of_plans (distinct_moves hmoves hdistinct)) h hd

omit [DesiredStore σ] [StoreContent σ] in
theorem staffed_fresh (fits : WorkerKey → Runnable → Prop) (state : σ) (host : η)
    (outlet : Outlet) : Staffed fits (.fresh state host outlet) := by
  intro key w hw
  cases key <;> exact nomatch hw

/-! ## Consistent agents -/

namespace Agent

/-- Desired state and registered workers of an agent agree with its scopes and its settings. -/
structure Consistent (a : Agent σ η) : Prop where
  isLocal : ∀ endpoint entry, StoreContent.held? endpoint a.deployment.state = some entry →
    a.topology.isLocal endpoint = true
  servers_distinct : ∀ endpoint entry,
    StoreContent.held? endpoint a.deployment.state = some entry → entry.servers.Nodup
  clients_distinct : ∀ endpoint entry,
    StoreContent.held? endpoint a.deployment.state = some entry →
      (entry.clients.map ClientEntry.key).Nodup
  server : ∀ key ∈ a.deployment.servers.keys, ∃ w scope endpoint,
    a.deployment.servers.find? key = some w ∧ scope ∈ a.scopes ∧ scope.name = key.scope ∧
      a.endpointOf? scope = some endpoint ∧
        a.deployment.workers.runnable? w = some (.server ⟨key.protocol, key.port, endpoint⟩)
  client : ∀ name ∈ a.deployment.clients.keys, ∃ w scope endpoint destinations,
    a.deployment.clients.find? name = some w ∧ scope ∈ a.scopes ∧ scope.name = name ∧
      a.endpointOf? scope = some endpoint ∧
        a.deployment.workers.runnable? w =
          some (.client ⟨endpoint, destinations, a.settings.traffic⟩) ∧
        destinations ≠ [] ∧ (destinations.map Destination.key).Nodup

theorem consistent_of_staffed {a : Agent σ η}
    (hlocal : StoreContent.EveryEntry (fun endpoint _ => a.site.isLocal endpoint = true)
      a.deployment.state)
    (hdistinct : StoreContent.EveryEntry (fun _ entry => entry.Distinct) a.deployment.state)
    (hserves : Staffed a.site.Serves a.deployment) (hpings : Staffed a.site.Pings a.deployment) :
    Consistent a where
  isLocal := hlocal
  servers_distinct endpoint entry h := (hdistinct endpoint entry h).servers
  clients_distinct endpoint entry h := (hdistinct endpoint entry h).clients
  server key hkey := by
    obtain ⟨w, hw⟩ := OrderedMap.exists_of_mem_keys hkey
    obtain ⟨r, hr, hfits⟩ := hserves (.server key) w hw
    obtain ⟨scope, endpoint, hscope, hname, rfl⟩ := hfits key rfl
    obtain ⟨hmem, hendpoint⟩ := mem_site.mp hscope
    exact ⟨w, scope, endpoint, hw, hmem, hname, hendpoint, hr⟩
  client name hname := by
    obtain ⟨w, hw⟩ := OrderedMap.exists_of_mem_keys hname
    obtain ⟨r, hr, hfits⟩ := hpings (.client name) w hw
    obtain ⟨scope, endpoint, destinations, hscope, hname, rfl, hne, hdistinct⟩ := hfits name rfl
    obtain ⟨hmem, hendpoint⟩ := mem_site.mp hscope
    exact ⟨w, scope, endpoint, destinations, hw, hmem, hname, hendpoint, hr, hne, hdistinct⟩

/-- The registered workers of an agent that is reached fit their keys when all that is planned
fits. -/
theorem staffed_of_reachable {settings : Settings} {topology : Topology} {state : σ} {host : η}
    {outlet : Outlet} {start a : Agent σ η}
    (hbuilt : build settings topology (.fresh state host outlet) = .ok start)
    (hports : StoreContent.Ported state) (h : Reachable start a)
    {fits : WorkerKey → Runnable → Prop}
    (hplans : ∀ (s : σ) key r, a.site.Plans s key r → fits key r) :
    Staffed fits a.deployment := by
  obtain ⟨hscopes, hfresh⟩ := build_eq_ok hbuilt
  obtain ⟨d, rfl, hmoves⟩ := h.becomes hscopes (by rwa [hfresh])
  refine staffed_moves (fun d _ => hplans d.state) hmoves ?_
  rw [hfresh]
  exact staffed_fresh fits state host outlet

/-- What is so of every agent, whatever its desired state was when it started. -/
structure Standing (a : Agent σ η) : Prop where
  scopes : scopesOf a.topology = .ok a.scopes
  ported : StoreContent.Ported a.deployment.state
  serves : Staffed a.site.Serves a.deployment

theorem standing_of_reachable {settings : Settings} {topology : Topology} {state : σ} {host : η}
    {outlet : Outlet} {start a : Agent σ η}
    (hbuilt : build settings topology (.fresh state host outlet) = .ok start)
    (hports : StoreContent.Ported state) (h : Reachable start a) : Standing a := by
  obtain ⟨hscopes, hfresh⟩ := build_eq_ok hbuilt
  have hstart : StoreContent.Ported start.deployment.state := by rwa [hfresh]
  have hserves : Staffed a.site.Serves a.deployment :=
    staffed_of_reachable hbuilt hports h fun _ _ _ => serves_of_plans
  obtain ⟨d, rfl, hmoves⟩ := h.becomes hscopes hstart
  exact ⟨hscopes, ported_moves hmoves hstart, hserves⟩

/-- Whatever an agent that started without desired state is asked, and whatever happens to its
workers and its store, it is consistent. -/
theorem consistent_of_reachable {settings : Settings} {topology : Topology} {state : σ} {host : η}
    {outlet : Outlet} {start a : Agent σ η}
    (hbuilt : build settings topology (.fresh state host outlet) = .ok start)
    (hempty : ∀ endpoint, StoreContent.held? endpoint state = none)
    (h : Reachable start a) : Consistent a := by
  obtain ⟨hscopes, hfresh⟩ := build_eq_ok hbuilt
  have hentries : ∀ kind, StoreContent.EveryEntry kind start.deployment.state := by
    intro kind endpoint entry hentry
    rw [hfresh] at hentry
    cases (hempty endpoint).symm.trans hentry
  have hstaffed : ∀ fits, Staffed fits start.deployment := by
    intro fits
    rw [hfresh]
    exact staffed_fresh fits state host outlet
  obtain ⟨d, rfl, hmoves⟩ := h.becomes hscopes (hentries _)
  exact consistent_of_staffed (local_moves hmoves (hentries _)) (distinct_moves hmoves (hentries _))
    (staffed_serves hmoves (hstaffed _)) (staffed_pings hmoves (hentries _) (hstaffed _))

theorem build_loopback :
    build .default (.root .loopback) loopbackAgent.deployment = .ok loopbackAgent := rfl

theorem ported_loopback : StoreContent.Ported loopbackAgent.deployment.state := by
  intro endpoint entry hentry
  have hnone : StoreContent.held? endpoint loopbackAgent.deployment.state = none := rfl
  cases hnone.symm.trans hentry

/-- A day of the agent of one endpoint: rules come, its workers are started, the server dies and is
started again, and a server is added. -/
def loopbackDay : List AgentEvent :=
  [.call (.register loopbackRules), .call (.startServers none), .call (.startClients none),
    .exit 0 1, .call (.startServers none), .call (.addServer .udp 53 .loopback none)]

theorem consistent_of_reachable_loopback :
    (loopbackAgent.run Managers.openHost loopbackDay).deployment.servers.keys.length = 2 ∧
      (loopbackAgent.run Managers.openHost loopbackDay).deployment.clients.keys = ["root"] ∧
      Consistent (loopbackAgent.run Managers.openHost loopbackDay) := by
  have hsound : ∀ e ∈ loopbackDay, e.Sound := by
    simp [loopbackDay, AgentEvent.Sound, AgentCall.Sound, loopbackRules, portBound]
  exact ⟨by decide, by decide,
    consistent_of_reachable build_loopback (fun _ => rfl) (reachable_run _ hsound .start)⟩

end Agent

end PolicyProbe
