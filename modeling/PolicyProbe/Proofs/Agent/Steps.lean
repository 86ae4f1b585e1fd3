import Mathlib.Logic.Relation
import PolicyProbe.Proofs.Agent.Scopes
import PolicyProbe.Proofs.Manager.Tended

/-!
What an agent does, piece by piece. Every call but the shutdown is a sequence of starts of single
servers and clients in the scopes of the agent, of keys that are taken out with their workers, and
of changes that leave the workers alone (`Agent.steps_perform`). So registries stay in order, all
workers that run stay registered, and all of them in scopes of the agent (`Deployment.Tidy`); and
without namespaces no call touches the way of records (`Deployment.Steps.outlet`).
-/
namespace PolicyProbe

open Deployment

variable {σ η : Type}

/-! ## Steps -/

namespace Deployment

section Steps

variable [DesiredStore σ]

/-- A piece of what an agent with some scopes does: a single start, a key that is taken out with its
worker, or a change that touches neither workers nor the way of records. -/
inductive Step (scopes : List Scope) (d : Deployment σ η) : Deployment σ η → Prop where
  | kept {d' : Deployment σ η} (h : d.Keeps d') (houtlet : d'.outlet = d.outlet) : Step scopes d d'
  | server (os : Host η) {scope : Scope} (hscope : scope ∈ scopes) (protocol : Protocol)
      (port : Nat) (endpoint : Address) :
      Step scopes d (Servers.start os scope protocol port endpoint d).2
  | client (os : Host η) (settings : TrafficSettings) {scope : Scope} (hscope : scope ∈ scopes)
      (endpoint : Address) : Step scopes d (Clients.start os settings scope endpoint d).2
  | dismissed (os : Host η) (key : WorkerKey) : Step scopes d (key.dismiss os d).2

/-- Any number of steps. -/
abbrev Steps (scopes : List Scope) : Deployment σ η → Deployment σ η → Prop :=
  Relation.ReflTransGen (Step scopes)

variable {scopes : List Scope}

theorem steps_say (n : Notice) (d : Deployment σ η) : Steps scopes d (d.say n) :=
  .single (.kept (keeps_say n d) rfl)

/-- Without namespaces no step touches the way of records. -/
theorem Steps.outlet {d d' : Deployment σ η} (hroot : ∀ scope ∈ scopes, scope.path? = none)
    (h : Steps scopes d d') : d'.outlet = d.outlet := by
  induction h with
  | refl => rfl
  | tail _ hstep ih =>
    refine Eq.trans ?_ ih
    cases hstep with
    | kept _ houtlet => exact houtlet
    | server os hscope => exact Servers.outlet_start (hroot _ hscope) os _ _ _ _
    | client os _ hscope => exact Clients.outlet_start (hroot _ hscope) os _ _ _
    | dismissed os key => exact outlet_dismiss os key _

variable [StoreContent σ]

/-- Registries are in order, what is registered is of some scopes, and every worker that runs is
registered. -/
structure Tidy (scopes : List Scope) (d : Deployment σ η) : Prop where
  rostered : d.Rostered
  sited : ∀ (key : WorkerKey) w, key.registered? d = some w → key.scope ∈ scopes.map Scope.name
  tended : d.Tended

omit [DesiredStore σ] [StoreContent σ] in
theorem Tidy.congr {d d' : Deployment σ η} (h : Tidy scopes d) (hservers : d'.servers = d.servers)
    (hclients : d'.clients = d.clients) (hnext : d.workers.next ≤ d'.workers.next)
    (hrunning : ∀ w, d'.workers.isRunning w = true → d.workers.isRunning w = true) :
    Tidy scopes d' where
  rostered := h.rostered.congr hservers hclients hnext
  sited key w hw :=
    h.sited key w ((WorkerKey.registered?_congr hservers hclients key).symm.trans hw)
  tended := h.tended.congr hservers hclients hrunning

omit [DesiredStore σ] [StoreContent σ] in
theorem Tidy.keeps {d d' : Deployment σ η} (h : Tidy scopes d) (hkeeps : d.Keeps d') :
    Tidy scopes d' :=
  h.congr hkeeps.servers hkeeps.clients (Nat.le_of_eq (by rw [hkeeps.workers]))
    fun w hw => by rwa [hkeeps.workers] at hw

/-- What is confined to the scopes registers nothing elsewhere. -/
theorem Tidy.confined {d d' : Deployment σ η} (h : Tidy scopes d)
    (hconfined : Confined (· ∈ scopes.map Scope.name) (fun _ => True) d d') (htended : d'.Tended) :
    Tidy scopes d' where
  rostered := hconfined.rostered h.rostered
  sited key w hw := by
    refine Classical.byContradiction fun hother => hother ?_
    rw [hconfined.others key hother] at hw
    exact h.sited key w hw
  tended := htended

theorem Tidy.step {d d' : Deployment σ η} (h : Tidy scopes d) (hstep : Step scopes d d') :
    Tidy scopes d' := by
  cases hstep with
  | kept hkeeps _ => exact h.keeps hkeeps
  | server os hscope =>
    have hname := List.mem_map_of_mem (f := Scope.name) hscope
    exact h.confined (Servers.confined_start hname trivial os _ _ d)
      (Servers.tended_start os _ _ _ _ h.tended)
  | client os settings hscope =>
    have hname := List.mem_map_of_mem (f := Scope.name) hscope
    exact h.confined (Clients.confined_start hname os settings _ d)
      (Clients.tended_start os settings _ _ h.tended)
  | dismissed os key =>
    have hconfined : Confined (fun _ => True) (fun _ => True) d (key.dismiss os d).2 :=
      confined_dismiss os trivial d
    refine ⟨hconfined.rostered h.rostered, fun k w hw => ?_, tended_dismiss os key h.tended⟩
    have hreduced : Reduced d (key.dismiss os d).2 := by
      cases key with
      | server key => exact Servers.reduced_remove os key d
      | client scope => exact Clients.reduced_stop os scope d
    exact h.sited k w (hreduced.registered k w hw)

theorem Tidy.steps {d d' : Deployment σ η} (h : Tidy scopes d) (hsteps : Steps scopes d d') :
    Tidy scopes d' := by
  induction hsteps with
  | refl => exact h
  | tail _ hstep ih => exact ih.step hstep

end Steps

end Deployment

/-! ## Calls -/

namespace Agent

variable [DesiredStore σ] {scopes : List Scope} {pairs : List (Scope × Option Address)}

theorem steps_addEach (hpairs : ∀ p ∈ pairs, p.1 ∈ scopes) (os : Host η) (protocol : Protocol)
    (port : Nat) (isNamed : Bool) (d : Deployment σ η) :
    Steps scopes d (addEach os protocol port isNamed pairs d).2 := by
  induction pairs generalizing d with
  | nil => exact .refl
  | cons p rest ih =>
    obtain ⟨hscope, hrest⟩ := List.forall_mem_cons.mp hpairs
    obtain ⟨scope, endpoint⟩ := p
    cases endpoint with
    | none =>
      rw [addEach]
      split
      · exact .refl
      · exact (steps_say _ d).trans (ih hrest _)
    | some endpoint =>
      have hstart : Step scopes d (Servers.start os scope protocol port endpoint d).2 :=
        .server os hscope protocol port endpoint
      rw [addEach]
      split <;> rename_i heq <;> rw [heq] at hstart
      · exact .single hstart
      · have hlater := (Relation.ReflTransGen.single hstart).trans (ih hrest _)
        split <;> rename_i hadded <;> rwa [hadded] at hlater

theorem steps_startListed (os : Host η) {scope : Scope} (hscope : scope ∈ scopes)
    (endpoint : Address) (entries : List ServerEntry) (d : Deployment σ η) :
    Steps scopes d (startListed os scope endpoint entries d).2 := by
  induction entries generalizing d with
  | nil => exact .refl
  | cons entry rest ih =>
    have hstart : Step scopes d
        (Servers.start os scope entry.protocol entry.port endpoint d).2 :=
      .server os hscope entry.protocol entry.port endpoint
    rw [startListed]
    dsimp only
    have hlater := (Relation.ReflTransGen.single hstart).trans (ih _)
    split <;> exact hlater

theorem steps_startServersIn (hpairs : ∀ p ∈ pairs, p.1 ∈ scopes) (os : Host η)
    (d : Deployment σ η) : Steps scopes d (startServersIn os pairs d).2 := by
  induction pairs generalizing d with
  | nil => exact .refl
  | cons p rest ih =>
    obtain ⟨hscope, hrest⟩ := List.forall_mem_cons.mp hpairs
    obtain ⟨scope, endpoint⟩ := p
    cases endpoint with
    | none => exact (steps_say _ d).trans (ih hrest _)
    | some endpoint =>
      rw [startServersIn]
      split
      · exact .refl
      · rename_i servers _
        have hlater := (steps_startListed os hscope endpoint servers d).trans (ih hrest _)
        dsimp only
        split <;> rename_i heq <;> rwa [heq] at hlater

theorem steps_startClientsIn (hpairs : ∀ p ∈ pairs, p.1 ∈ scopes) (os : Host η)
    (settings : TrafficSettings) (d : Deployment σ η) :
    Steps scopes d (startClientsIn os settings pairs d).2 := by
  induction pairs generalizing d with
  | nil => exact .refl
  | cons p rest ih =>
    obtain ⟨hscope, hrest⟩ := List.forall_mem_cons.mp hpairs
    obtain ⟨scope, endpoint⟩ := p
    cases endpoint with
    | none => exact (steps_say _ d).trans (ih hrest _)
    | some endpoint =>
      have hstart : Step scopes d (Clients.start os settings scope endpoint d).2 :=
        .client os settings hscope endpoint
      have hlater := (Relation.ReflTransGen.single hstart).trans (ih hrest _)
      rw [startClientsIn]
      dsimp only
      split <;> exact hlater

theorem steps_dismissEach (os : Host η) (keys : List WorkerKey) (d : Deployment σ η) :
    Steps scopes d (dismissEach os keys d).2 := by
  induction keys generalizing d with
  | nil => exact .refl
  | cons key rest ih => exact (Relation.ReflTransGen.single (.dismissed os key)).trans (ih _)

theorem steps_stopServersIn (os : Host η) (pairs : List (Scope × Option Address))
    (d : Deployment σ η) : Steps scopes d (stopServersIn os pairs d).2 := by
  induction pairs generalizing d with
  | nil => exact .refl
  | cons p rest ih =>
    have hfirst : Steps scopes d (Servers.stopAll os p.1 d).2 := by
      rw [Servers.stopAll, Servers.stopKeys_eq]
      exact steps_dismissEach os _ d
    exact hfirst.trans (ih _)

omit [DesiredStore σ] in
/-- A stop of scopes takes out one key after another. -/
theorem exists_stopScopes (os : Host η) (stopped : List Scope) (d : Deployment σ η) :
    ∃ keys, stopScopes os stopped d = (dismissEach os keys d).2 := by
  induction stopped generalizing d with
  | nil => exact ⟨[], rfl⟩
  | cons scope rest ih =>
    let d' := (Clients.stop os scope.name d).2
    let serverKeys := (Registry.keysIn scope.name d'.servers).map WorkerKey.server
    obtain ⟨keys, hrest⟩ := ih (Servers.stopAll os scope d').2
    have hservers : Servers.stopAll os scope d' = dismissEach os serverKeys d' := by
      rw [Servers.stopAll, Servers.stopKeys_eq]
    refine ⟨.client scope.name :: (serverKeys ++ keys), ?_⟩
    calc stopScopes os (scope :: rest) d
        = (dismissEach os keys (Servers.stopAll os scope d').2).2 := hrest
      _ = (dismissEach os (serverKeys ++ keys) d').2 := by rw [hservers, dismissEach_append]

theorem steps_stopScopes (os : Host η) (stopped : List Scope) (d : Deployment σ η) :
    Steps scopes d (stopScopes os stopped d) := by
  obtain ⟨keys, hstopped⟩ := exists_stopScopes os stopped d
  rw [hstopped]
  exact steps_dismissEach os keys d

theorem steps_stopServerIn (os : Host η) (protocol : Protocol) (port : Nat)
    (pairs : List (Scope × Option Address)) (d : Deployment σ η) :
    Steps scopes d (stopServerIn os protocol port pairs d).2 := by
  induction pairs generalizing d with
  | nil => exact .refl
  | cons p rest ih =>
    have hfirst : Steps scopes d (Servers.stop os p.1 protocol port d).2 := by
      have hremove : Step scopes d
          (WorkerKey.dismiss os (.server (Servers.key p.1 protocol port)) d).2 := .dismissed os _
      rw [Servers.stop, Servers.remove_eq]
      split <;> rename_i heq <;> rw [heq] at hremove
      · exact .single hremove
      · exact (Relation.ReflTransGen.single hremove).trans (steps_say _ _)
    exact hfirst.trans (ih _)

theorem steps_stopClients (os : Host η) (name : Option String) (a : Agent σ η) :
    ∃ d, (a.stopClients os name).2 = a.put d ∧ Steps scopes a.deployment d := by
  rw [stopClients]
  split
  · exact ⟨_, rfl, .refl⟩
  · refine ⟨_, rfl, ?_⟩
    split
    · rw [stopClientsIn_eq]
      exact steps_dismissEach os _ _
    · split
      · exact .refl
      · rw [Clients.stopAll, Clients.stopEach_eq]
        exact steps_dismissEach os _ _

theorem outlet_registerEach (t : Topology) (rules : List Rule) (report : RegisterReport)
    (d : Deployment σ η) : (registerEach t rules report d).2.outlet = d.outlet := by
  induction rules generalizing report d with
  | nil => rfl
  | cons rule rules ih =>
    rw [registerEach]
    split
    · exact ih report d
    · split
      · exact ih _ _
      · split
        · exact ih _ _
        · rfl

theorem steps_addServer (os : Host η) (protocol : Protocol) (port : Nat) (endpoint : Address)
    (name : Option String) (a : Agent σ η) :
    ∃ d, (a.addServer os protocol port endpoint name).2 = a.put d ∧
      Steps a.scopes a.deployment d := by
  rw [addServer]
  split
  · exact ⟨_, rfl, .refl⟩
  · rename_i scopes hresolve
    have hscopes : ∀ p ∈ scopes, p.1 ∈ a.scopes :=
      fun p hp => (mem_site.mp (resolve_subset hresolve hp)).1
    split
    · exact ⟨_, rfl, steps_addEach hscopes os protocol port _ _⟩
    · split
      · refine ⟨_, rfl, steps_addEach (fun p hp => ?_) os protocol port _ _⟩
        obtain ⟨q, hq, rfl⟩ := List.mem_map.mp hp
        exact hscopes q hq
      · exact ⟨_, rfl, .refl⟩

/-- Every call but the shutdown is a sequence of steps. -/
theorem steps_perform (os : Host η) (a : Agent σ η) {c : AgentCall} (hc : c ≠ .shutdown) :
    ∃ d, (a.perform os c).2 = a.put d ∧ Steps a.scopes a.deployment d := by
  have hscopes : ∀ name scopes, a.resolve name = .ok scopes → ∀ p ∈ scopes, p.1 ∈ a.scopes :=
    fun name scopes hresolve p hp => (mem_site.mp (resolve_subset hresolve hp)).1
  cases c with
  | register rules =>
    exact ⟨_, rfl, .single (.kept (keeps_registerEach _ _ _ _) (outlet_registerEach _ _ _ _))⟩
  | unregister endpoint => exact ⟨_, rfl, .single (.kept ⟨rfl, rfl, rfl⟩ rfl)⟩
  | addServer protocol port endpoint name => exact steps_addServer os protocol port endpoint name a
  | startServers name =>
    show ∃ d, (a.startServers os name).2 = a.put d ∧ _
    rw [startServers]
    split
    · exact ⟨_, rfl, .refl⟩
    · rename_i scopes hresolve
      exact ⟨_, rfl, steps_startServersIn (hscopes name scopes hresolve) os _⟩
  | startClients name =>
    show ∃ d, (a.startClients os name).2 = a.put d ∧ _
    rw [startClients]
    split
    · exact ⟨_, rfl, .refl⟩
    · rename_i scopes hresolve
      exact ⟨_, rfl, steps_startClientsIn (hscopes name scopes hresolve) os _ _⟩
  | stopServers name =>
    show ∃ d, (a.stopServers os name).2 = a.put d ∧ _
    rw [stopServers]
    split
    · exact ⟨_, rfl, .refl⟩
    · exact ⟨_, rfl, steps_stopServersIn os _ _⟩
  | stopServer protocol port name =>
    show ∃ d, (a.stopServer os protocol port name).2 = a.put d ∧ _
    rw [stopServer]
    split
    · exact ⟨_, rfl, .refl⟩
    · exact ⟨_, rfl, steps_stopServerIn os protocol port _ _⟩
  | stopClients name => exact steps_stopClients os name a
  | stopClient name =>
    show ∃ d, (a.stopClient os name).2 = a.put d ∧ _
    rw [stopClient]
    split
    · exact ⟨_, rfl, .refl⟩
    · refine ⟨_, rfl, ?_⟩
      rw [stopClientsIn_eq]
      exact steps_dismissEach os _ _
  | shutdown => exact absurd rfl hc

end Agent

end PolicyProbe
