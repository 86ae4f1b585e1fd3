import PolicyProbe.Proofs.Agent.Consistency

/-!
What adding a server does to the desired state. A server that does not run yet is started and
recorded for the endpoint of its scope; one that runs is returned as it is, and nothing is recorded
for it, also when nothing was (`added_server_recorded`). So after its entry was deleted, a server
that was never stopped can be added with success and still be missing (`added_server_missing`).
-/
namespace PolicyProbe

open Deployment

namespace StoreContent

variable {σ : Type} [DesiredStore σ]

/-- A store that takes all writes that come. -/
def TakesWrites (s : σ) : Prop :=
  ∀ us : List StateUpdate, (∀ u ∈ us, u.Sound) → (Agent.updateEach us s).1 = .ok ()

theorem TakesWrites.apply {s : σ} (h : TakesWrites s) {u : StateUpdate} (hu : u.Sound) :
    (DesiredStore.apply u s).1 = .ok () ∧ TakesWrites (DesiredStore.apply u s).2 := by
  have hcons : ∀ us : List StateUpdate, (∀ v ∈ us, v.Sound) →
      (Agent.updateEach (u :: us) s).1 = .ok () :=
    fun us hus => h (u :: us) (List.forall_mem_cons.mpr ⟨hu, hus⟩)
  refine ⟨(Agent.updateEach_cons (hcons [] (by simp))).1, ?_⟩
  intro us hus
  rw [← (Agent.updateEach_cons (hcons us hus)).2]
  exact hcons us hus

theorem takesWrites_memory (s : MemoryState) : TakesWrites (DesiredState.memory s) := by
  intro us hus
  induction us generalizing s with
  | nil => rfl
  | cons u us ih =>
    exact ih (s.update u.endpoint u.servers u.clients) (List.forall_mem_cons.mp hus).2

end StoreContent

namespace Agent

variable {σ η : Type} [DesiredStore σ] [StoreContent σ] {site : Site}

/-- What the start of a server does when it succeeds, as far as the server is concerned. -/
structure ServerAdded (key : ServerKey) (endpoint : Address) (d d' : Deployment σ η) : Prop where
  writes : StoreContent.TakesWrites d'.state
  held : ∀ e, ⟨key.protocol, key.port⟩ ∈ StoreContent.servers e d'.state ↔
    ⟨key.protocol, key.port⟩ ∈ StoreContent.servers e d.state ∨
      e = endpoint ∧ ¬d.Runs (.server key)
  runs : ∀ k, d.Runs k → d'.Runs k
  others : ∀ k, k ≠ .server key → d'.Runs k → d.Runs k

theorem serverAdded_of_outcome {key : ServerKey} (hport : key.port < portBound)
    {endpoint : Address} {d d' : Deployment σ η} (hd : Staffed site.Serves d)
    (hwrites : StoreContent.TakesWrites d.state) {w : Nat}
    (h : Servers.Outcome key endpoint d (.ok w) d') : ServerAdded key endpoint d d' := by
  cases h with
  | running hregistered hrunning =>
    have hruns : d.Runs (.server key) := ⟨w, hregistered, hrunning⟩
    exact {
      writes := hwrites
      held := fun e => ⟨Or.inl, fun h => h.resolve_right fun h => h.2 hruns⟩
      runs := fun _ h => h
      others := fun _ _ h => h }
  | launched hdead h hstate =>
    have hu : (Servers.update key endpoint).Sound := StoreContent.sound_server hport endpoint
    obtain ⟨htaken, hmore⟩ := hwrites.apply hu
    constructor
    case writes => rwa [hstate]
    case held =>
      intro e
      rw [hstate]
      have hmem := StoreContent.mem_servers_apply ⟨key.protocol, key.port⟩ hport htaken e
      rw [and_iff_left hdead]
      exact hmem
    case runs =>
      rintro k ⟨v, hv, hrun⟩
      refine ⟨v, h.toTouches.kept hdead k v hv hrun, ?_⟩
      rwa [h.workers.isRunning (Workforce.lt_next_of_isRunning hrun)]
    case others =>
      -- A worker that is registered elsewhere is no new one, for it is known what it runs.
      rintro k hk ⟨v, hv, hrun⟩
      rw [h.others k hk] at hv
      obtain ⟨r, hr, -⟩ := hd k v hv
      rw [h.workers.isRunning (Workforce.lt_next_of_runnable? hr)] at hrun
      exact ⟨v, hv, hrun⟩

/-- Where the server is recorded after its start in one scope and then in others. -/
theorem ServerAdded.cons (hsite : site.Sound) {scope : Scope} {endpoint e : Address}
    {rest : List (Scope × Option Address)} (hp : (scope, some endpoint) ∈ site.scopes)
    (hrest : rest ⊆ site.scopes) {protocol : Protocol} {port : Nat} {d d' : Deployment σ η}
    (h : ServerAdded (Servers.key scope protocol port) endpoint d d') :
    (⟨protocol, port⟩ ∈ StoreContent.servers e d'.state ∨
      ∃ s, (s, some e) ∈ rest ∧ ¬d'.Runs (.server (Servers.key s protocol port))) ↔
    ⟨protocol, port⟩ ∈ StoreContent.servers e d.state ∨
      ∃ s, (s, some e) ∈ (scope, some endpoint) :: rest ∧
        ¬d.Runs (.server (Servers.key s protocol port)) := by
  have hheld := h.held e
  constructor
  · rintro (hmem | ⟨s, hs, hdead⟩)
    · rcases hheld.mp hmem with hold | ⟨rfl, hdead⟩
      · exact Or.inl hold
      · exact Or.inr ⟨scope, List.mem_cons_self, hdead⟩
    · exact Or.inr ⟨s, List.mem_cons_of_mem _ hs, fun hruns => hdead (h.runs _ hruns)⟩
  · rintro (hold | ⟨s, hs, hdead⟩)
    · exact Or.inl (hheld.mpr (Or.inl hold))
    · rcases List.mem_cons.mp hs with hs | hs
      · obtain ⟨rfl, hendpoint⟩ := Prod.mk.inj hs
        exact Or.inl (hheld.mpr (Or.inr ⟨Option.some.inj hendpoint, hdead⟩))
      · by_cases hkey : WorkerKey.server (Servers.key s protocol port) =
            .server (Servers.key scope protocol port)
        · -- Another scope of the same name has the same endpoint.
          have hname : s.name = scope.name := congrArg ServerKey.scope (WorkerKey.server.inj hkey)
          have hendpoint := hsite.named _ (hrest hs) _ hp hname
          rw [hkey] at hdead
          exact Or.inl (hheld.mpr (Or.inr ⟨Option.some.inj hendpoint, hdead⟩))
        · exact Or.inr ⟨s, hs, fun hruns => hdead (h.others _ hkey hruns)⟩

/-- After a server was added in some scopes, it is recorded for an endpoint if it was before, or if
it did not run in a scope with that endpoint. -/
theorem mem_servers_addEach (hsite : site.Sound) (os : Host η) {protocol : Protocol} {port : Nat}
    (hport : port < portBound) {isNamed : Bool} {scopes : List (Scope × Option Address)}
    (hscopes : scopes ⊆ site.scopes) {d : Deployment σ η} (hd : Staffed site.Serves d)
    (hwrites : StoreContent.TakesWrites d.state) {workers : List Nat}
    (hok : (addEach os protocol port isNamed scopes d).1 = .ok workers) (e : Address) :
    ⟨protocol, port⟩ ∈ StoreContent.servers e (addEach os protocol port isNamed scopes d).2.state ↔
      ⟨protocol, port⟩ ∈ StoreContent.servers e d.state ∨
        ∃ s, (s, some e) ∈ scopes ∧ ¬d.Runs (.server (Servers.key s protocol port)) := by
  induction scopes generalizing d workers with
  | nil => simp [addEach]
  | cons p rest ih =>
    obtain ⟨hp, hrest⟩ := List.cons_subset.mp hscopes
    obtain ⟨scope, endpoint⟩ := p
    cases endpoint with
    | none =>
      -- A scope without an endpoint is passed over, or it is the failure of the request.
      rw [addEach] at hok ⊢
      split at hok
      · cases hok
      · rename_i hnamed
        rw [if_neg hnamed]
        have hlater := ih hrest (d := d.say (.scopeSkipped scope)) hd hwrites hok
        refine hlater.trans (or_congr_right (exists_congr fun s => and_congr_left fun _ => ?_))
        simp
    | some endpoint =>
      have houtcome := Servers.start_outcome os scope protocol port endpoint d
      have hmoves := Servers.moves_start hsite hp os protocol hport d
      rcases hstart : Servers.start os scope protocol port endpoint d with ⟨answer, d₁⟩
      rw [hstart] at houtcome hmoves
      rw [addEach, hstart] at hok ⊢
      cases answer with
      | error => cases hok
      | ok w =>
        dsimp only at hok ⊢
        have hadded := serverAdded_of_outcome hport hd hwrites houtcome
        rcases hnext : addEach os protocol port isNamed rest d₁ with ⟨answer, d₂⟩
        rw [hnext] at hok
        cases answer with
        | error => cases hok
        | ok more =>
          have hlater := ih hrest (staffed_serves hmoves hd) hadded.writes (by rw [hnext])
          rw [hnext] at hlater
          exact hlater.trans (hadded.cons hsite hp hrest)

/-- When a server was added and the store took all writes, the server is recorded for exactly those
endpoints for which it was recorded before, and those of the scopes of the request in which it did
not run. Without namespaces, the endpoint is the one of the request. -/
theorem added_server_recorded {settings : Settings} {topology : Topology} {state : σ} {host : η}
    {outlet : Outlet} {start a : Agent σ η}
    (hbuilt : build settings topology (.fresh state host outlet) = .ok start)
    (hports : StoreContent.Ported state) (h : Reachable start a) (os : Host η)
    {protocol : Protocol} {port : Nat} (hport : port < portBound) {endpoint : Address}
    {name : Option String} (hwrites : StoreContent.TakesWrites a.deployment.state)
    {workers : List Nat} (hok : (a.addServer os protocol port endpoint name).1 = .ok workers) :
    ∃ scopes, a.resolve name = .ok scopes ∧
      (a.topology.namespaceMode = false → ∀ p ∈ scopes, p.2 = some endpoint) ∧
      ∀ e, ⟨protocol, port⟩ ∈ StoreContent.servers e
          (a.addServer os protocol port endpoint name).2.deployment.state ↔
        ⟨protocol, port⟩ ∈ StoreContent.servers e a.deployment.state ∨
          ∃ scope, (scope, some e) ∈ scopes ∧
            ¬a.deployment.Runs (.server (Servers.key scope protocol port)) := by
  obtain ⟨hscopes, -, hserves⟩ := standing_of_reachable hbuilt hports h
  have hsite := site_sound hscopes
  rw [addServer] at hok ⊢
  split at hok
  · cases hok
  · rename_i scopes hresolve
    have hsubset := resolve_subset hresolve
    refine ⟨scopes, hresolve, ?_⟩
    dsimp only
    split at hok
    · rename_i hmode
      rw [if_pos hmode]
      refine ⟨fun h => absurd hmode (by simp [h]), ?_⟩
      exact mem_servers_addEach hsite os hport hsubset hserves hwrites hok
    · rename_i hmode
      rw [if_neg hmode]
      split at hok
      · rename_i hlocal
        -- The one scope has the endpoint that the request names.
        have hhere := map_endpoint hscopes hresolve hmode hlocal
        rw [if_pos hlocal]
        rw [hhere] at hok ⊢
        refine ⟨fun _ p hp => ?_, mem_servers_addEach hsite os hport hsubset hserves hwrites hok⟩
        rw [← hhere] at hp
        obtain ⟨q, -, rfl⟩ := List.mem_map.mp hp
        rfl
      · cases hok

/-- An agent that runs a server of which its desired state was deleted. -/
def forgetfulAgent : Agent DesiredState Unit :=
  loopbackAgent.run Managers.openHost
    [.call (.addServer .tcp 80 .loopback none), .call (.unregister none)]

theorem reachable_forgetful : Reachable loopbackAgent forgetfulAgent := by
  refine reachable_run Managers.openHost ?_ .start
  simp [AgentEvent.Sound, AgentCall.Sound, portBound]

theorem takesWrites_forgetful : StoreContent.TakesWrites forgetfulAgent.deployment.state := by
  have hstate : forgetfulAgent.deployment.state = .memory .empty := by rfl
  rw [hstate]
  exact StoreContent.takesWrites_memory .empty

theorem added_server_recorded_forgetful :
    (forgetfulAgent.addServer Managers.openHost .udp 53 .loopback none).1 = .ok [1] ∧
      ⟨.udp, 53⟩ ∈ StoreContent.servers .loopback
        (forgetfulAgent.addServer Managers.openHost .udp 53 .loopback none).2.deployment.state := by
  have hok : (forgetfulAgent.addServer Managers.openHost .udp 53 .loopback none).1 = .ok [1] := by
    rfl
  obtain ⟨scopes, hresolve, -, hheld⟩ := added_server_recorded build_loopback ported_loopback
    reachable_forgetful Managers.openHost (by decide) takesWrites_forgetful hok
  have hscopes : scopes = [(.root, some .loopback)] := (Except.ok.inj hresolve).symm
  refine ⟨hok, (hheld .loopback).mpr (Or.inr ⟨.root, ?_, ?_⟩)⟩
  · rw [hscopes]
    exact List.mem_singleton_self _
  · rintro ⟨w, hw, -⟩
    exact nomatch hw

/-- The server that runs is added again with success, and it is still missing. -/
theorem added_server_missing :
    Reachable loopbackAgent forgetfulAgent ∧
      StoreContent.TakesWrites forgetfulAgent.deployment.state ∧
      forgetfulAgent.resolve none = .ok [(.root, some .loopback)] ∧
      (forgetfulAgent.addServer Managers.openHost .tcp 80 .loopback none).1 = .ok [0] ∧
      ⟨.tcp, 80⟩ ∉ StoreContent.servers .loopback
        (forgetfulAgent.addServer Managers.openHost .tcp 80 .loopback none).2.deployment.state :=
  ⟨reachable_forgetful, takesWrites_forgetful, by rfl, by rfl, by decide⟩

end Agent

end PolicyProbe
