import PolicyProbe.Proofs.Agent.Moves

/-!
Everything that can happen to an agent is a run of moves. There is one lemma for each loop of the
calls: those that stop workers only reduce what is deployed, a start plans for the scope that it is
made in, and registering rules updates local endpoints. An agent is reached by calls and ends of
workers in any order, on hosts that answer anything, while its clients ping, and while the store,
the host and the way of records become others as long as no entry changes.
-/
namespace PolicyProbe

open Deployment

variable {σ η : Type}

/-! ## Stopping -/

section Stopping

variable [DesiredStore σ] [StoreContent σ]

theorem Servers.reduced_remove (os : Host η) (key : ServerKey) (d : Deployment σ η) :
    Reduced d (Servers.remove os key d).2 := by
  have herase : Reduced d { d with servers := d.servers.erase key } :=
    reduced_erase (.server key) d
  unfold Servers.remove Registry.remove
  dsimp only
  split
  · exact herase.trans (reduced_stop os _ _)
  · exact herase

theorem Servers.reduced_stop (os : Host η) (scope : Scope) (protocol : Protocol) (port : Nat)
    (d : Deployment σ η) : Reduced d (Servers.stop os scope protocol port d).2 := by
  have hremove := Servers.reduced_remove os (Servers.key scope protocol port) d
  rw [Servers.stop]
  split <;> rename_i heq <;> rw [heq] at hremove
  · exact hremove
  · exact hremove.trans (reduced_of_keeps (keeps_say _ _) fun _ _ h => h)

theorem Servers.reduced_stopKeys (os : Host η) (keys : List ServerKey) (d : Deployment σ η) :
    Reduced d (Servers.stopKeys os keys d).2 := by
  induction keys generalizing d with
  | nil => exact .refl d
  | cons key rest ih => exact (Servers.reduced_remove os key d).trans (ih _)

theorem Clients.reduced_stop (os : Host η) (scope : String) (d : Deployment σ η) :
    Reduced d (Clients.stop os scope d).2 := by
  have herase : Reduced d { d with clients := d.clients.erase scope } :=
    reduced_erase (.client scope) d
  unfold Clients.stop Registry.remove
  dsimp only
  split
  · exact herase.trans (Deployment.reduced_stop os _ _)
  · exact herase

theorem Clients.reduced_stopEach (os : Host η) (scopes : List String) (d : Deployment σ η) :
    Reduced d (Clients.stopEach os scopes d).2 := by
  induction scopes generalizing d with
  | nil => exact .refl d
  | cons scope rest ih => exact (Clients.reduced_stop os scope d).trans (ih _)

namespace Agent

theorem reduced_stopServersIn (os : Host η) (scopes : List (Scope × Option Address))
    (d : Deployment σ η) : Reduced d (stopServersIn os scopes d).2 := by
  induction scopes generalizing d with
  | nil => exact .refl d
  | cons p rest ih => exact (Servers.reduced_stopKeys os _ d).trans (ih _)

theorem reduced_stopServerIn (os : Host η) (protocol : Protocol) (port : Nat)
    (scopes : List (Scope × Option Address)) (d : Deployment σ η) :
    Reduced d (stopServerIn os protocol port scopes d).2 := by
  induction scopes generalizing d with
  | nil => exact .refl d
  | cons p rest ih => exact (Servers.reduced_stop os p.1 protocol port d).trans (ih _)

theorem reduced_stopClientsIn (os : Host η) (scopes : List (Scope × Option Address))
    (d : Deployment σ η) : Reduced d (stopClientsIn os scopes d).2 := by
  induction scopes generalizing d with
  | nil => exact .refl d
  | cons p rest ih => exact (Clients.reduced_stop os p.1.name d).trans (ih _)

theorem reduced_stopScopes (os : Host η) (scopes : List Scope) (d : Deployment σ η) :
    Reduced d (stopScopes os scopes d) := by
  induction scopes generalizing d with
  | nil => exact .refl d
  | cons scope rest ih =>
    have hclient := Clients.reduced_stop os scope.name d
    exact (hclient.trans (Servers.reduced_stopKeys os _ _)).trans (ih _)

end Agent

/-- The cycle of a client that is a task goes on in its circle, and hands over records. -/
theorem reduced_cycle (ping : Nat → Destination → Except PingError Unit × Stamp)
    (ended : List Record → List Record) (w : Nat) (d : Deployment σ η) :
    Reduced d (d.cycle ping ended w) := by
  rw [Deployment.cycle]
  split
  · rename_i client _
    let records := client.nextBatch.1.mapIdx fun i destination =>
      Client.record client.source destination (ping i destination).1 (ping i destination).2
    have hdelivered : Reduced d (Client.deliver submit (ended records) d).2 := by
      refine reduced_of_keeps (keeps_deliver (ended records) d) fun endpoint entry hentry => ?_
      rwa [state_deliver] at hentry
    refine hdelivered.trans ⟨fun _ _ h => h, fun v r hr => ?_, fun _ _ h => h⟩
    exact (Workforce.runnable?_change (fun _ => by rfl) w v _).trans hr
  · exact .refl d

end Stopping

/-! ## Starting -/

section Starting

variable [DesiredStore σ] [StoreContent σ] {site : Site}

theorem Servers.moves_start (hsite : site.Sound) {scope : Scope} {endpoint : Address}
    (hscope : (scope, some endpoint) ∈ site.scopes) (os : Host η) (protocol : Protocol) {port : Nat}
    (hport : port < portBound) (d : Deployment σ η) :
    Moves site d (Servers.start os scope protocol port endpoint d).2 := by
  have houtcome := Servers.start_outcome os scope protocol port endpoint d
  generalize Servers.start os scope protocol port endpoint d = r at houtcome ⊢
  obtain ⟨answer, d'⟩ := r
  cases houtcome with
  | running => exact .refl
  | failed _ _ h => exact moves_of_reduced (reduced_of_vacated h)
  | launched _ h hstate =>
    -- The server is registered first; its endpoint is updated when it has been.
    have hkeeps : d'.Keeps { d' with state := d.state } := ⟨rfl, rfl, rfl⟩
    have hhired : Move site d { d' with state := d.state } :=
      .hired (.server hscope protocol port) (h.keeps hkeeps) rfl
    refine (Relation.ReflTransGen.single hhired).tail ?_
    exact .updated (hsite.isLocal scope endpoint hscope) (StoreContent.sound_server hport endpoint)
      ⟨rfl, rfl, rfl⟩ hstate

theorem Clients.moves_start {scope : Scope} {endpoint : Address}
    (hscope : (scope, some endpoint) ∈ site.scopes) (os : Host η) (d : Deployment σ η) :
    Moves site d (Clients.start os site.traffic scope endpoint d).2 := by
  have houtcome := Clients.start_outcome os site.traffic scope endpoint d
  generalize Clients.start os site.traffic scope endpoint d = r at houtcome ⊢
  obtain ⟨answer, d'⟩ := r
  cases houtcome with
  | running => exact .refl
  | idle _ h => exact moves_of_reduced (reduced_of_vacated h)
  | failed _ h => exact moves_of_reduced (reduced_of_vacated h)
  | launched hread hne h hstate =>
    obtain rfl := StoreContent.clients_read hread
    exact .single (.hired (.client hscope hne) h hstate)

theorem moves_say (n : Notice) (d : Deployment σ η) : Moves site d (d.say n) :=
  moves_of_reduced (reduced_of_keeps (keeps_say n d) fun _ _ h => h)

namespace Agent

theorem moves_addEach (hsite : site.Sound) (os : Host η) (protocol : Protocol) {port : Nat}
    (hport : port < portBound) (isNamed : Bool) {scopes : List (Scope × Option Address)}
    (hscopes : scopes ⊆ site.scopes) (d : Deployment σ η) :
    Moves site d (addEach os protocol port isNamed scopes d).2 := by
  induction scopes generalizing d with
  | nil => exact .refl
  | cons p rest ih =>
    obtain ⟨hp, hrest⟩ := List.cons_subset.mp hscopes
    obtain ⟨scope, endpoint⟩ := p
    cases endpoint with
    | none =>
      rw [addEach]
      split
      · exact .refl
      · exact (moves_say _ d).trans (ih hrest _)
    | some endpoint =>
      have hstart := Servers.moves_start hsite hp os protocol hport d
      rw [addEach]
      split <;> rename_i heq <;> rw [heq] at hstart
      · exact hstart
      · have hlater := hstart.trans (ih hrest _)
        split <;> rename_i hadded <;> rwa [hadded] at hlater

theorem moves_startListed (hsite : site.Sound) (os : Host η) {scope : Scope} {endpoint : Address}
    (hscope : (scope, some endpoint) ∈ site.scopes) {entries : List ServerEntry}
    (hports : ∀ entry ∈ entries, entry.port < portBound) (d : Deployment σ η) :
    Moves site d (startListed os scope endpoint entries d).2 := by
  induction entries generalizing d with
  | nil => exact .refl
  | cons entry rest ih =>
    obtain ⟨hport, hrest⟩ := List.forall_mem_cons.mp hports
    have hstart := Servers.moves_start hsite hscope os entry.protocol hport d
    rw [startListed]
    dsimp only
    have hlater := hstart.trans (ih hrest _)
    split <;> exact hlater

theorem moves_startServersIn (hsite : site.Sound) (os : Host η)
    {scopes : List (Scope × Option Address)} (hscopes : scopes ⊆ site.scopes)
    {d : Deployment σ η} (hports : StoreContent.Ported d.state) :
    Moves site d (startServersIn os scopes d).2 := by
  induction scopes generalizing d with
  | nil => exact .refl
  | cons p rest ih =>
    obtain ⟨hp, hrest⟩ := List.cons_subset.mp hscopes
    obtain ⟨scope, endpoint⟩ := p
    cases endpoint with
    | none => exact (moves_say _ d).trans (ih hrest hports)
    | some endpoint =>
      rw [startServersIn]
      split
      · exact .refl
      · rename_i servers hread
        -- What is read has ports that are ports, which the starts need to record it again.
        obtain rfl := StoreContent.servers_read hread
        have hstart := moves_startListed hsite os hp (hports.servers endpoint) d
        have hlater := hstart.trans (ih hrest (ported_moves hstart hports))
        dsimp only
        split <;> rename_i heq <;> rwa [heq] at hlater

theorem moves_startClientsIn (os : Host η) {scopes : List (Scope × Option Address)}
    (hscopes : scopes ⊆ site.scopes) (d : Deployment σ η) :
    Moves site d (startClientsIn os site.traffic scopes d).2 := by
  induction scopes generalizing d with
  | nil => exact .refl
  | cons p rest ih =>
    obtain ⟨hp, hrest⟩ := List.cons_subset.mp hscopes
    obtain ⟨scope, endpoint⟩ := p
    cases endpoint with
    | none => exact (moves_say _ d).trans (ih hrest _)
    | some endpoint =>
      have hlater := (Clients.moves_start hp os d).trans (ih hrest _)
      rw [startClientsIn]
      dsimp only
      split <;> exact hlater

/-! ## Desired state -/

theorem moves_updateEach {us : List StateUpdate}
    (hus : ∀ u ∈ us, u.Sound ∧ site.isLocal u.endpoint = true) (d : Deployment σ η) :
    Moves site d { d with state := (updateEach us d.state).2 } := by
  induction us generalizing d with
  | nil => exact .refl
  | cons u us ih =>
    obtain ⟨⟨hu, hlocal⟩, hus⟩ := List.forall_mem_cons.mp hus
    have hfirst : Moves site d { d with state := (DesiredStore.apply u d.state).2 } :=
      .single (.updated hlocal hu ⟨rfl, rfl, rfl⟩ rfl)
    have hlater := hfirst.trans (ih hus _)
    rw [updateEach]
    split <;> rename_i heq <;> rw [heq] at hfirst hlater
    · exact hlater
    · exact hfirst

theorem moves_registerEach {t : Topology} (ht : site.isLocal = t.isLocal) {rules : List Rule}
    (hports : ∀ r ∈ rules, r.port < portBound) (report : RegisterReport) (d : Deployment σ η) :
    Moves site d (registerEach t rules report d).2 := by
  induction rules generalizing report d with
  | nil => exact .refl
  | cons rule rules ih =>
    obtain ⟨hport, hports⟩ := List.forall_mem_cons.mp hports
    rw [registerEach]
    split
    · exact ih hports report d
    · split
      · exact (moves_say _ d).trans (ih hports _ _)
      · -- Some of the updates may be made although a later one is refused.
        have hus : ∀ u ∈ updatesOf t rule, u.Sound ∧ site.isLocal u.endpoint = true := by
          intro u hu
          rw [ht]
          exact ⟨sound_of_mem_updatesOf hport u hu, (isLocal_of_mem_updatesOf u hu).1⟩
        have hupdates := moves_updateEach hus d
        split <;> rename_i heq <;> rw [heq] at hupdates
        · exact hupdates.trans (ih hports _ _)
        · exact hupdates

theorem reduced_delete (which : Option Address) (d : Deployment σ η) :
    Reduced d { d with state := (DesiredStore.delete which d.state).2 } :=
  reduced_of_keeps ⟨rfl, rfl, rfl⟩ fun _ _ h => StoreContent.deleted h

end Agent

end Starting

/-! ## Calls -/

/-- The ports of a call are below their bound. -/
def AgentCall.Sound : AgentCall → Prop
  | .register rules => ∀ r ∈ rules, r.port < portBound
  | .addServer _ port _ _ => port < portBound
  | _ => True

/-- The ports of an event are below their bound. -/
def AgentEvent.Sound : AgentEvent → Prop
  | .call c => c.Sound
  | .exit _ _ => True

namespace Agent

/-- Without namespaces a request is about the one endpoint of the agent. -/
theorem map_endpoint {a : Agent σ η} (hbuilt : scopesOf a.topology = .ok a.scopes)
    {name : Option String} {scopes : List (Scope × Option Address)}
    (hresolve : a.resolve name = .ok scopes) (hmode : a.topology.namespaceMode ≠ true)
    {endpoint : Address} (hlocal : a.topology.isLocal endpoint = true) :
    (scopes.map fun (scope, _) => (scope, some endpoint)) = scopes := by
  have hsame : ∀ p ∈ scopes, (p.1, some endpoint) = p := by
    rintro ⟨scope, found⟩ hp
    obtain ⟨hscope, rfl⟩ := mem_site.mp (resolve_subset hresolve hp)
    rw [scopesOf, if_neg hmode] at hbuilt
    rw [← Except.ok.inj hbuilt] at hscope
    obtain rfl := List.mem_singleton.mp hscope
    cases hplaces : a.topology.places with
    | root found =>
      rw [Topology.isLocal, hplaces] at hlocal
      have hfound : found = some endpoint := by simpa using hlocal
      show (_, some endpoint) = (_, a.topology.rootEndpoint?)
      rw [Topology.rootEndpoint?, hplaces, hfound]
    | namespaces endpoints =>
      rw [Topology.namespaceMode, hplaces] at hmode
      exact absurd rfl hmode
  exact (List.map_congr_left hsame).trans (List.map_id scopes)

variable [DesiredStore σ] [StoreContent σ]

/-- An agent becomes another by moves of what it has deployed. -/
def Becomes (a a' : Agent σ η) : Prop := ∃ d, a' = a.put d ∧ Moves a.site a.deployment d

theorem Becomes.refl (a : Agent σ η) : a.Becomes a := ⟨a.deployment, rfl, .refl⟩

theorem Becomes.trans {a a' a'' : Agent σ η} (h : a.Becomes a') (h' : a'.Becomes a'') :
    a.Becomes a'' := by
  obtain ⟨d, rfl, hmoves⟩ := h
  obtain ⟨d', rfl, hmoves'⟩ := h'
  exact ⟨d', rfl, hmoves.trans hmoves'⟩

variable {a : Agent σ η}

theorem becomes_addServer (hbuilt : scopesOf a.topology = .ok a.scopes) (os : Host η)
    (protocol : Protocol) {port : Nat} (hport : port < portBound) (endpoint : Address)
    (name : Option String) : a.Becomes (a.addServer os protocol port endpoint name).2 := by
  have hsite := site_sound hbuilt
  rw [addServer]
  split
  · exact .refl a
  · rename_i scopes hresolve
    have hscopes := resolve_subset hresolve
    split
    · exact ⟨_, rfl, moves_addEach hsite os protocol hport _ hscopes _⟩
    · rename_i hmode
      split
      · rename_i hlocal
        dsimp only
        rw [map_endpoint hbuilt hresolve hmode hlocal]
        exact ⟨_, rfl, moves_addEach hsite os protocol hport _ hscopes _⟩
      · exact .refl a

theorem becomes_startServers (hbuilt : scopesOf a.topology = .ok a.scopes)
    (hports : StoreContent.Ported a.deployment.state) (os : Host η) (name : Option String) :
    a.Becomes (a.startServers os name).2 := by
  rw [startServers]
  split
  · exact .refl a
  · rename_i scopes hresolve
    exact ⟨_, rfl, moves_startServersIn (site_sound hbuilt) os (resolve_subset hresolve) hports⟩

theorem becomes_startClients (os : Host η) (name : Option String) :
    a.Becomes (a.startClients os name).2 := by
  rw [startClients]
  split
  · exact .refl a
  · rename_i scopes hresolve
    exact ⟨_, rfl, moves_startClientsIn os (resolve_subset hresolve) a.deployment⟩

/-- A call that only reduces what is deployed, if anything, does so by moves. -/
theorem becomes_put {d : Deployment σ η} (h : Reduced a.deployment d) : a.Becomes (a.put d) :=
  ⟨d, rfl, moves_of_reduced h⟩

theorem becomes_stopClients (os : Host η) (name : Option String) :
    a.Becomes (a.stopClients os name).2 := by
  rw [stopClients]
  split
  · exact .refl a
  · refine becomes_put ?_
    split
    · exact reduced_stopClientsIn os _ _
    · split
      · exact .refl _
      · exact Clients.reduced_stopEach os _ _

theorem becomes_shutdown (os : Host η) : a.Becomes (a.shutdown os) := by
  refine becomes_put ((reduced_stopScopes os a.scopes a.deployment).trans ?_)
  split
  · exact reduced_of_keeps ⟨rfl, rfl, rfl⟩ fun _ _ h => h
  · exact .refl _

theorem becomes_perform (hbuilt : scopesOf a.topology = .ok a.scopes)
    (hports : StoreContent.Ported a.deployment.state) (os : Host η) {c : AgentCall}
    (hc : c.Sound) : a.Becomes (a.perform os c).2 := by
  cases c with
  | register rules => exact ⟨_, rfl, moves_registerEach rfl hc _ _⟩
  | unregister endpoint => exact becomes_put (reduced_delete endpoint a.deployment)
  | addServer protocol port endpoint name =>
    exact becomes_addServer hbuilt os protocol hc endpoint name
  | startServers name => exact becomes_startServers hbuilt hports os name
  | startClients name => exact becomes_startClients os name
  | stopServers name =>
    show a.Becomes (a.stopServers os name).2
    rw [stopServers]
    split
    · exact .refl a
    · exact becomes_put (reduced_stopServersIn os _ _)
  | stopServer protocol port name =>
    show a.Becomes (a.stopServer os protocol port name).2
    rw [stopServer]
    split
    · exact .refl a
    · exact becomes_put (reduced_stopServerIn os protocol port _ _)
  | stopClients name => exact becomes_stopClients os name
  | stopClient name =>
    show a.Becomes (a.stopClient os name).2
    rw [stopClient]
    split
    · exact .refl a
    · exact becomes_put (reduced_stopClientsIn os _ _)
  | shutdown => exact becomes_shutdown os

theorem becomes_handle (hbuilt : scopesOf a.topology = .ok a.scopes)
    (hports : StoreContent.Ported a.deployment.state) (os : Host η) {e : AgentEvent}
    (he : e.Sound) : a.Becomes (a.handle os e) := by
  cases e with
  | call c => exact becomes_perform hbuilt hports os he
  | exit w code => exact becomes_put (reduced_exit os w code a.deployment)

/-! ## Reachable agents -/

/-- The agents that one can become. Between events, a client may ping its destinations, and the
store, the host and the way of records may become others as long as no entry changes. -/
inductive Reachable (start : Agent σ η) : Agent σ η → Prop where
  | start : Reachable start start
  | event {a : Agent σ η} (h : Reachable start a) (os : Host η) {e : AgentEvent} (he : e.Sound) :
      Reachable start (a.handle os e)
  | cycle {a : Agent σ η} (h : Reachable start a)
      (ping : Nat → Destination → Except PingError Unit × Stamp)
      (ended : List Record → List Record) (w : Nat) :
      Reachable start (a.put (a.deployment.cycle ping ended w))
  | elsewhere {a : Agent σ η} (h : Reachable start a) {state : σ} (host : η) (outlet : Outlet)
      (hheld : ∀ endpoint, StoreContent.held? endpoint state =
        StoreContent.held? endpoint a.deployment.state) :
      Reachable start (a.put { a.deployment with state, host, outlet })

theorem reachable_run (os : Host η) {start : Agent σ η} {events : List AgentEvent}
    (hevents : ∀ e ∈ events, e.Sound) {a : Agent σ η} (h : Reachable start a) :
    Reachable start (a.run os events) := by
  induction events generalizing a with
  | nil => exact h
  | cons e rest ih =>
    obtain ⟨he, hrest⟩ := List.forall_mem_cons.mp hevents
    exact ih hrest (h.event os he)

/-- An agent that is reached has the settings and scopes of the one at the start, and its ports are
ports as they were then. -/
theorem Reachable.becomes {start a : Agent σ η}
    (hbuilt : scopesOf start.topology = .ok start.scopes)
    (hports : StoreContent.Ported start.deployment.state) (h : Reachable start a) :
    start.Becomes a := by
  have hstep : ∀ {a a' : Agent σ η}, start.Becomes a →
      (scopesOf a.topology = .ok a.scopes → StoreContent.Ported a.deployment.state →
        a.Becomes a') → start.Becomes a' := by
    intro a a' hbecomes hmore
    obtain ⟨d, rfl, hmoves⟩ := hbecomes
    have hnext := hmore hbuilt (ported_moves hmoves hports)
    exact Becomes.trans ⟨d, rfl, hmoves⟩ hnext
  induction h with
  | start => exact .refl start
  | event _ os he ih => exact hstep ih fun hb hp => becomes_handle hb hp os he
  | cycle _ ping ended w ih =>
    exact hstep ih fun _ _ => becomes_put (reduced_cycle ping ended w _)
  | elsewhere _ host outlet hheld ih =>
    refine hstep ih fun _ _ => becomes_put (reduced_of_keeps ⟨rfl, rfl, rfl⟩ ?_)
    intro endpoint entry hentry
    rwa [hheld] at hentry

end Agent

end PolicyProbe
