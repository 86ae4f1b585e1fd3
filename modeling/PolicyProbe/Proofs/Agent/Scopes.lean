import PolicyProbe.Proofs.Agent.Reachable
import PolicyProbe.Proofs.Manager.Confined

/-!
The calls of an agent that start or stop workers, scope by scope. Whatever they answer, they are
confined to the scopes to which they are addressed (`Agent.confined_perform`), and the registries of
an agent that is reached are in order (`Agent.rostered_of_reachable`).
-/
namespace PolicyProbe

open Deployment

/-- Scopes of some names, with endpoints that are among some addresses. -/
def Within (names : String → Prop) (own : Address → Prop)
    (scopes : List (Scope × Option Address)) : Prop :=
  ∀ p ∈ scopes, names p.1.name ∧ ∀ endpoint, p.2 = some endpoint → own endpoint

/-- The name to which a call is addressed that starts or stops workers; none stands for all. -/
def AgentCall.addressee? : AgentCall → Option (Option String)
  | .addServer _ _ _ name => some name
  | .startServers name => some name
  | .startClients name => some name
  | .stopServers name => some name
  | .stopServer _ _ name => some name
  | .stopClients name => some name
  | .stopClient name => some name
  | .register _ | .unregister _ | .shutdown => none

namespace Agent

variable {σ η : Type}

theorem stopClientsIn_eq (os : Host η) (scopes : List (Scope × Option Address))
    (d : Deployment σ η) :
    stopClientsIn os scopes d = dismissEach os (scopes.map fun p => .client p.1.name) d := by
  induction scopes generalizing d with
  | nil => rfl
  | cons p rest ih => simp only [stopClientsIn, List.map_cons, dismissEach, Clients.stop_eq, ih]

section Confined

variable [DesiredStore σ] [StoreContent σ] {names : String → Prop} {own : Address → Prop}
  {scopes : List (Scope × Option Address)}

/-! ## Calls are confined -/

theorem confined_addEach (h : Within names own scopes) (os : Host η) (protocol : Protocol)
    (port : Nat) (isNamed : Bool) (d : Deployment σ η) :
    Confined names own d (addEach os protocol port isNamed scopes d).2 := by
  induction scopes generalizing d with
  | nil => exact .refl names own d
  | cons p rest ih =>
    obtain ⟨⟨hname, hown⟩, hrest⟩ := List.forall_mem_cons.mp h
    obtain ⟨scope, endpoint⟩ := p
    cases endpoint with
    | none =>
      rw [addEach]
      split
      · exact .refl names own d
      · exact (confined_say _ d).trans (ih hrest _)
    | some endpoint =>
      have hstart := Servers.confined_start hname (hown endpoint rfl) os protocol port d
      rw [addEach]
      split <;> rename_i heq <;> rw [heq] at hstart
      · exact hstart
      · have hlater := hstart.trans (ih hrest _)
        split <;> rename_i hadded <;> rwa [hadded] at hlater

theorem confined_startListed {scope : Scope} (hname : names scope.name) {endpoint : Address}
    (hown : own endpoint) (os : Host η) (entries : List ServerEntry) (d : Deployment σ η) :
    Confined names own d (startListed os scope endpoint entries d).2 := by
  induction entries generalizing d with
  | nil => exact .refl names own d
  | cons entry rest ih =>
    have hstart := Servers.confined_start hname hown os entry.protocol entry.port d
    rw [startListed]
    dsimp only
    have hlater := hstart.trans (ih _)
    split <;> exact hlater

theorem confined_startServersIn (h : Within names own scopes) (os : Host η)
    (d : Deployment σ η) : Confined names own d (startServersIn os scopes d).2 := by
  induction scopes generalizing d with
  | nil => exact .refl names own d
  | cons p rest ih =>
    obtain ⟨⟨hname, hown⟩, hrest⟩ := List.forall_mem_cons.mp h
    obtain ⟨scope, endpoint⟩ := p
    cases endpoint with
    | none => exact (confined_say _ d).trans (ih hrest _)
    | some endpoint =>
      rw [startServersIn]
      split
      · exact .refl names own d
      · rename_i servers _
        have hstart := confined_startListed hname (hown endpoint rfl) os servers d
        have hlater := hstart.trans (ih hrest _)
        dsimp only
        split <;> rename_i heq <;> rwa [heq] at hlater

theorem confined_startClientsIn (h : Within names own scopes) (os : Host η)
    (settings : TrafficSettings) (d : Deployment σ η) :
    Confined names own d (startClientsIn os settings scopes d).2 := by
  induction scopes generalizing d with
  | nil => exact .refl names own d
  | cons p rest ih =>
    obtain ⟨⟨hname, -⟩, hrest⟩ := List.forall_mem_cons.mp h
    obtain ⟨scope, endpoint⟩ := p
    cases endpoint with
    | none => exact (confined_say _ d).trans (ih hrest _)
    | some endpoint =>
      have hlater := (Clients.confined_start hname os settings endpoint d).trans (ih hrest _)
      rw [startClientsIn]
      dsimp only
      split <;> exact hlater

theorem confined_stopServersIn (h : Within names own scopes) (os : Host η)
    (d : Deployment σ η) : Confined names own d (stopServersIn os scopes d).2 := by
  induction scopes generalizing d with
  | nil => exact .refl names own d
  | cons p rest ih =>
    obtain ⟨⟨hname, -⟩, hrest⟩ := List.forall_mem_cons.mp h
    exact (Servers.confined_stopAll os hname d).trans (ih hrest _)

theorem confined_stopServerIn (h : Within names own scopes) (os : Host η) (protocol : Protocol)
    (port : Nat) (d : Deployment σ η) :
    Confined names own d (stopServerIn os protocol port scopes d).2 := by
  induction scopes generalizing d with
  | nil => exact .refl names own d
  | cons p rest ih =>
    obtain ⟨⟨hname, -⟩, hrest⟩ := List.forall_mem_cons.mp h
    exact (Servers.confined_stop os hname protocol port d).trans (ih hrest _)

theorem confined_stopClientsIn (h : Within names own scopes) (os : Host η)
    (d : Deployment σ η) : Confined names own d (stopClientsIn os scopes d).2 := by
  rw [stopClientsIn_eq]
  refine confined_dismissEach os (fun key hkey => ?_) d
  obtain ⟨p, hp, rfl⟩ := List.mem_map.mp hkey
  exact (h p hp).1

theorem confined_stopAllClients (h : ∀ name, names name) (os : Host η) (d : Deployment σ η) :
    Confined names own d (Clients.stopAll os d).2 := by
  rw [Clients.stopAll, Clients.stopEach_eq]
  exact confined_dismissEach os (fun key _ => h key.scope) d

/-- Without namespaces a server is added to the endpoint that is asked for. -/
theorem confined_addServer {a : Agent σ η} {name : Option String}
    (hscopes : ∀ scopes, a.resolve name = .ok scopes → Within names own scopes)
    (hroot : a.topology.namespaceMode ≠ true → ∀ endpoint, own endpoint) (os : Host η)
    (protocol : Protocol) (port : Nat) (endpoint : Address) :
    Confined names own a.deployment
      (a.addServer os protocol port endpoint name).2.deployment := by
  have hnothing : Confined names own a.deployment a.deployment := .refl names own _
  rw [addServer]
  split
  · exact hnothing
  · rename_i scopes hresolve
    have hwithin := hscopes scopes hresolve
    split
    · exact confined_addEach hwithin os protocol port _ _
    · rename_i hmode
      split
      · refine confined_addEach (fun p hp => ?_) os protocol port _ _
        obtain ⟨q, hq, rfl⟩ := List.mem_map.mp hp
        exact ⟨(hwithin q hq).1, fun e _ => hroot hmode e⟩
      · exact hnothing

/-- Without a name all clients are stopped, whatever their scopes. -/
theorem confined_stopClients {a : Agent σ η} {name : Option String}
    (hscopes : ∀ scopes, a.resolve name = .ok scopes → Within names own scopes)
    (hall : name = none → ∀ name, names name) (os : Host η) :
    Confined names own a.deployment (a.stopClients os name).2.deployment := by
  have hnothing : Confined names own a.deployment a.deployment := .refl names own _
  rw [stopClients]
  split
  · exact hnothing
  · rename_i scopes hresolve
    dsimp only
    split
    · exact confined_stopClientsIn (hscopes scopes hresolve) os _
    · rename_i hname
      have hnone : name = none := by simpa using hname
      split
      · exact hnothing
      · exact confined_stopAllClients (hall hnone) os _

/-- A call that starts or stops workers is confined to the scopes to which it is addressed. -/
theorem confined_perform {a : Agent σ η} {c : AgentCall} {name : Option String}
    (hc : c.addressee? = some name)
    (hscopes : ∀ scopes, a.resolve name = .ok scopes → Within names own scopes)
    (hall : name = none → ∀ name, names name)
    (hroot : a.topology.namespaceMode ≠ true → ∀ endpoint, own endpoint) (os : Host η) :
    Confined names own a.deployment (a.perform os c).2.deployment := by
  have hnothing : Confined names own a.deployment a.deployment := .refl names own _
  cases c with
  | register rules => exact nomatch hc
  | unregister endpoint => exact nomatch hc
  | shutdown => exact nomatch hc
  | addServer protocol port endpoint name' =>
    obtain rfl : name' = name := Option.some.inj hc
    exact confined_addServer hscopes hroot os protocol port endpoint
  | startServers name' =>
    obtain rfl : name' = name := Option.some.inj hc
    show Confined names own _ (a.startServers os name').2.deployment
    rw [startServers]
    split
    · exact hnothing
    · rename_i scopes hresolve
      exact confined_startServersIn (hscopes scopes hresolve) os _
  | startClients name' =>
    obtain rfl : name' = name := Option.some.inj hc
    show Confined names own _ (a.startClients os name').2.deployment
    rw [startClients]
    split
    · exact hnothing
    · rename_i scopes hresolve
      exact confined_startClientsIn (hscopes scopes hresolve) os _ _
  | stopServers name' =>
    obtain rfl : name' = name := Option.some.inj hc
    show Confined names own _ (a.stopServers os name').2.deployment
    rw [stopServers]
    split
    · exact hnothing
    · rename_i scopes hresolve
      exact confined_stopServersIn (hscopes scopes hresolve) os _
  | stopServer protocol port name' =>
    obtain rfl : name' = name := Option.some.inj hc
    show Confined names own _ (a.stopServer os protocol port name').2.deployment
    rw [stopServer]
    split
    · exact hnothing
    · rename_i scopes hresolve
      exact confined_stopServerIn (hscopes scopes hresolve) os protocol port _
  | stopClients name' =>
    obtain rfl : name' = name := Option.some.inj hc
    exact confined_stopClients hscopes hall os
  | stopClient name' =>
    obtain rfl : name' = name := Option.some.inj hc
    show Confined names own _ (a.stopClient os name').2.deployment
    rw [stopClient]
    split
    · exact hnothing
    · rename_i scopes hresolve
      exact confined_stopClientsIn (hscopes scopes hresolve) os _

/-! ## Registries of agents that are reached -/

omit [StoreContent σ] in
theorem keeps_registerEach (t : Topology) (rules : List Rule) (report : RegisterReport)
    (d : Deployment σ η) : d.Keeps (registerEach t rules report d).2 := by
  induction rules generalizing report d with
  | nil => exact .refl d
  | cons rule rules ih =>
    rw [registerEach]
    split
    · exact ih report d
    · split
      · exact (keeps_say _ d).trans (ih _ _)
      · split
        · rename_i state _
          have hstate : d.Keeps { d with state } := ⟨rfl, rfl, rfl⟩
          exact hstate.trans (ih _ _)
        · exact ⟨rfl, rfl, rfl⟩

theorem rostered_stopScopes (os : Host η) (scopes : List Scope) {d : Deployment σ η}
    (hd : d.Rostered) : (stopScopes os scopes d).Rostered := by
  induction scopes generalizing d with
  | nil => exact hd
  | cons scope rest ih =>
    have hclient : Confined (fun _ => True) (fun _ => True) d
        (WorkerKey.dismiss os (.client scope.name) d).2 := confined_dismiss os trivial d
    have hservers : Confined (fun _ => True) (fun _ => True) (Clients.stop os scope.name d).2
        (Servers.stopAll os scope (Clients.stop os scope.name d).2).2 :=
      Servers.confined_stopAll os trivial _
    exact ih ((hclient.trans hservers).rostered hd)

theorem rostered_perform {a : Agent σ η} (hd : a.deployment.Rostered) (os : Host η)
    (c : AgentCall) : (a.perform os c).2.deployment.Rostered := by
  cases hc : c.addressee? with
  | some name =>
    have hconfined : Confined (fun _ => True) (fun _ => True) a.deployment
        (a.perform os c).2.deployment :=
      confined_perform hc (fun _ _ _ _ => ⟨trivial, fun _ _ => trivial⟩) (fun _ _ => trivial)
        (fun _ _ => trivial) os
    exact hconfined.rostered hd
  | none =>
    cases c with
    | register rules =>
      have hkeeps := keeps_registerEach a.topology rules ⟨0, []⟩ a.deployment
      have hnext := congrArg Workforce.next hkeeps.workers
      exact hd.congr hkeeps.servers hkeeps.clients (Nat.le_of_eq hnext.symm)
    | unregister endpoint => exact hd.congr rfl rfl (Nat.le_refl _)
    | shutdown =>
      have hstopped := rostered_stopScopes os a.scopes hd
      show (a.shutdown os).deployment.Rostered
      simp only [shutdown, put]
      split
      · exact hstopped.congr rfl rfl (Nat.le_refl _)
      · exact hstopped
    | _ => exact nomatch hc

theorem rostered_of_reachable {start a : Agent σ η} (hstart : start.deployment.Rostered)
    (h : Reachable start a) : a.deployment.Rostered := by
  induction h with
  | start => exact hstart
  | @event a _ os e _ ih =>
    cases e with
    | call c => exact rostered_perform ih os c
    | exit w code =>
      have hkeeps := keeps_closeSocket os w a.deployment
      refine ih.congr hkeeps.servers hkeeps.clients (Nat.le_of_eq ?_)
      exact ((congrArg Workforce.next (Managers.workers_exit os w code a.deployment)).trans
        (Workforce.next_exit w code _)).symm
  | @cycle a _ ping ended w ih =>
    show (a.deployment.cycle ping ended w).Rostered
    rw [Deployment.cycle]
    split
    · rename_i client _
      let records := client.nextBatch.1.mapIdx fun i destination =>
        Client.record client.source destination (ping i destination).1 (ping i destination).2
      have hkeeps := keeps_deliver (ended records) a.deployment
      have hnext := congrArg Workforce.next hkeeps.workers
      refine ih.congr hkeeps.servers hkeeps.clients (Nat.le_of_eq ?_)
      exact ((Workforce.next_change w _ _).trans hnext).symm
    · exact ih
  | elsewhere _ host outlet _ ih => exact ih.congr rfl rfl (Nat.le_refl _)

end Confined

end Agent

end PolicyProbe
