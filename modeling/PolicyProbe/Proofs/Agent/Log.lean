import PolicyProbe.Proofs.Agent.Faults
import PolicyProbe.Proofs.Agent.Life
import PolicyProbe.Proofs.Manager.Log

/-!
What the calls of an agent write into its log. A scope is passed over only for want of an endpoint:
while every scope of an agent has one (`Agent.HasEndpoints`), nothing that happens to the agent puts
down that one was passed over (`Agent.logs_of_reachable`).
-/
namespace PolicyProbe

open Deployment

variable {σ η : Type}

namespace Agent

/-! ## Scope by scope -/

variable [DesiredStore σ] {scopes : List (Scope × Option Address)}

theorem logs_addEach (hscopes : ∀ p ∈ scopes, p.2 ≠ none) (os : Host η) (protocol : Protocol)
    (port : Nat) (isNamed : Bool) (d : Deployment σ η) :
    Logs d (addEach os protocol port isNamed scopes d).2 := by
  induction scopes generalizing d with
  | nil => exact .refl d
  | cons p rest ih =>
    obtain ⟨hp, hrest⟩ := List.forall_mem_cons.mp hscopes
    obtain ⟨scope, endpoint⟩ := p
    cases endpoint with
    | none => exact absurd rfl hp
    | some endpoint =>
      have hstart := Servers.logs_start os scope protocol port endpoint d
      rw [addEach]
      split <;> rename_i heq <;> rw [heq] at hstart
      · exact hstart
      · have hlater := hstart.trans (ih hrest _)
        split <;> rename_i hadded <;> rwa [hadded] at hlater

theorem logs_startListed (os : Host η) (scope : Scope) (endpoint : Address)
    (entries : List ServerEntry) (d : Deployment σ η) :
    Logs d (startListed os scope endpoint entries d).2 := by
  induction entries generalizing d with
  | nil => exact .refl d
  | cons entry rest ih =>
    have hstart := Servers.logs_start os scope entry.protocol entry.port endpoint d
    rw [startListed_cons]
    exact hstart.trans (ih _)

theorem logs_startServersIn (hscopes : ∀ p ∈ scopes, p.2 ≠ none) (os : Host η)
    (d : Deployment σ η) : Logs d (startServersIn os scopes d).2 := by
  induction scopes generalizing d with
  | nil => exact .refl d
  | cons p rest ih =>
    obtain ⟨hp, hrest⟩ := List.forall_mem_cons.mp hscopes
    obtain ⟨scope, endpoint⟩ := p
    cases endpoint with
    | none => exact absurd rfl hp
    | some endpoint =>
      rw [startServersIn]
      split
      · exact .refl d
      · rename_i servers _
        have hlater := (logs_startListed os scope endpoint servers d).trans (ih hrest _)
        dsimp only
        split <;> rename_i heq <;> rwa [heq] at hlater

theorem logs_startClientsIn (hscopes : ∀ p ∈ scopes, p.2 ≠ none) (os : Host η)
    (settings : TrafficSettings) (d : Deployment σ η) :
    Logs d (startClientsIn os settings scopes d).2 := by
  induction scopes generalizing d with
  | nil => exact .refl d
  | cons p rest ih =>
    obtain ⟨hp, hrest⟩ := List.forall_mem_cons.mp hscopes
    obtain ⟨scope, endpoint⟩ := p
    cases endpoint with
    | none => exact absurd rfl hp
    | some endpoint =>
      have hlater := (Clients.logs_start os settings scope endpoint d).trans (ih hrest _)
      rw [startClientsIn]
      dsimp only
      split <;> exact hlater

theorem logs_registerEach (t : Topology) (rules : List Rule) (report : RegisterReport)
    (d : Deployment σ η) : Logs d (registerEach t rules report d).2 := by
  induction rules generalizing report d with
  | nil => exact .refl d
  | cons rule rules ih =>
    rw [registerEach]
    split
    · exact ih report d
    · split
      · exact ((Logs.refl d).say rfl).trans (ih _ _)
      · split
        · rename_i state _
          have hstate : Logs d { d with state } := .of_eq rfl
          exact hstate.trans (ih _ _)
        · exact .of_eq rfl

omit [DesiredStore σ] in
theorem logs_stopServersIn (os : Host η) (scopes : List (Scope × Option Address))
    (d : Deployment σ η) : Logs d (stopServersIn os scopes d).2 := by
  induction scopes generalizing d with
  | nil => exact .refl d
  | cons p rest ih =>
    have hfirst : Logs d (Servers.stopAll os p.1 d).2 := by
      rw [Servers.stopAll, Servers.stopKeys_eq]
      exact logs_dismissEach os _ d
    exact hfirst.trans (ih _)

omit [DesiredStore σ] in
theorem logs_stopServerIn (os : Host η) (protocol : Protocol) (port : Nat)
    (scopes : List (Scope × Option Address)) (d : Deployment σ η) :
    Logs d (stopServerIn os protocol port scopes d).2 := by
  induction scopes generalizing d with
  | nil => exact .refl d
  | cons p rest ih => exact (Servers.logs_stop os p.1 protocol port d).trans (ih _)

omit [DesiredStore σ] in
theorem logs_shutdown (os : Host η) (a : Agent σ η) :
    Logs a.deployment (a.shutdown os).deployment := by
  obtain ⟨keys, hstopped⟩ := exists_stopScopes os a.scopes a.deployment
  have hstop := logs_dismissEach os keys a.deployment
  rw [← hstopped] at hstop
  rw [shutdown_eq]
  exact hstop.trans (.of_eq rfl)

/-! ## Calls -/

/-- Whether every scope of an agent has an endpoint. -/
def HasEndpoints (a : Agent σ η) : Prop := ∀ scope ∈ a.scopes, a.endpointOf? scope ≠ none

omit [DesiredStore σ] in
theorem HasEndpoints.resolve {a : Agent σ η} (h : HasEndpoints a) {name : Option String}
    (hresolve : a.resolve name = .ok scopes) : ∀ p ∈ scopes, p.2 ≠ none := by
  rintro ⟨scope, endpoint⟩ hp
  obtain ⟨hscope, rfl⟩ := mem_site.mp (resolve_subset hresolve hp)
  exact h scope hscope

theorem logs_addServer {a : Agent σ η} (h : HasEndpoints a) (os : Host η) (protocol : Protocol)
    (port : Nat) (endpoint : Address) (name : Option String) :
    Logs a.deployment (a.addServer os protocol port endpoint name).2.deployment := by
  have hnothing : Logs a.deployment a.deployment := .refl _
  rw [addServer]
  split
  · exact hnothing
  · rename_i scopes hresolve
    split
    · exact logs_addEach (h.resolve hresolve) os protocol port _ _
    · split
      · refine logs_addEach (fun p hp => ?_) os protocol port _ _
        obtain ⟨q, -, rfl⟩ := List.mem_map.mp hp
        exact Option.some_ne_none _
      · exact hnothing

omit [DesiredStore σ] in
theorem logs_stopClients (os : Host η) (name : Option String) (a : Agent σ η) :
    Logs a.deployment (a.stopClients os name).2.deployment := by
  have hnothing : Logs a.deployment a.deployment := .refl _
  rw [stopClients]
  split
  · exact hnothing
  · dsimp only
    split
    · rw [stopClientsIn_eq]
      exact logs_dismissEach os _ _
    · split
      · exact hnothing
      · rw [Clients.stopAll, Clients.stopEach_eq]
        exact logs_dismissEach os _ _

/-- When every scope has an endpoint, no call passes one over. -/
theorem logs_perform {a : Agent σ η} (h : HasEndpoints a) (os : Host η) (c : AgentCall) :
    Logs a.deployment (a.perform os c).2.deployment := by
  have hnothing : Logs a.deployment a.deployment := .refl _
  cases c with
  | register rules => exact logs_registerEach _ _ _ _
  | unregister endpoint => exact .of_eq rfl
  | addServer protocol port endpoint name => exact logs_addServer h os protocol port endpoint name
  | startServers name =>
    show Logs _ (a.startServers os name).2.deployment
    rw [startServers]
    split
    · exact hnothing
    · rename_i scopes hresolve
      exact logs_startServersIn (h.resolve hresolve) os _
  | startClients name =>
    show Logs _ (a.startClients os name).2.deployment
    rw [startClients]
    split
    · exact hnothing
    · rename_i scopes hresolve
      exact logs_startClientsIn (h.resolve hresolve) os _ _
  | stopServers name =>
    show Logs _ (a.stopServers os name).2.deployment
    rw [stopServers]
    split
    · exact hnothing
    · exact logs_stopServersIn os _ _
  | stopServer protocol port name =>
    show Logs _ (a.stopServer os protocol port name).2.deployment
    rw [stopServer]
    split
    · exact hnothing
    · exact logs_stopServerIn os protocol port _ _
  | stopClients name => exact logs_stopClients os name a
  | stopClient name =>
    show Logs _ (a.stopClient os name).2.deployment
    rw [stopClient]
    split
    · exact hnothing
    · rw [stopClientsIn_eq]
      exact logs_dismissEach os _ _
  | shutdown => exact logs_shutdown os a

/-- What happens to an agent leaves its endpoints and passes no scope over. -/
theorem logs_of_reachable [StoreContent σ] {start a : Agent σ η} (hstart : HasEndpoints start)
    (h : Reachable start a) : HasEndpoints a ∧ Logs start.deployment a.deployment := by
  induction h with
  | start => exact ⟨hstart, .refl _⟩
  | @event a _ os e _ ih =>
    obtain ⟨hendpoints, hlogs⟩ := ih
    have hmore : Logs a.deployment (a.handle os e).deployment := by
      cases e with
      | call c => exact logs_perform hendpoints os c
      | exit w code => exact logs_exit os w code a.deployment
    obtain ⟨d, hput⟩ := exists_put_handle os a e
    rw [hput] at hmore ⊢
    exact ⟨hendpoints, hlogs.trans hmore⟩
  | cycle _ ping ended w ih => exact ⟨ih.1, ih.2.trans (logs_cycle ping ended w _)⟩
  | elsewhere _ host outlet _ ih => exact ⟨ih.1, ih.2.trans (.of_eq rfl)⟩

end Agent

end PolicyProbe
