import PolicyProbe.Agent.Closing
import PolicyProbe.Proofs.Agent.Steps
import PolicyProbe.Proofs.Recorder.Draining

/-!
The life of an agent: the calls that are made, what happens by itself meanwhile, and what others do.
Whatever it is, registries stay in order, and all workers that run stay registered, in scopes of the
agent (`Agent.tidy_lived`), for what happens by itself leaves registries alone
(`Deployment.Undergoes`). Without namespaces nothing but the clients hands records over, so what
came to the recorder is what they submitted (`Outlet.Received`, `Agent.received_lived`).
-/
namespace PolicyProbe

open Deployment

variable {σ η : Type}

/-! ## Lives -/

/-- The records of the next cycle of a client. -/
def Client.records (ping : Nat → Destination → Except PingError Unit × Stamp)
    (ended : List Record → List Record) (c : Client) : List Record :=
  ended (c.nextBatch.1.mapIdx fun i d => record c.source d (ping i d).1 (ping i d).2)

theorem Deployment.cycle_of_task {d : Deployment σ η} {w : Nat} {client : Client}
    (h : d.task? w = some client) (ping : Nat → Destination → Except PingError Unit × Stamp)
    (ended : List Record → List Record) :
    d.cycle ping ended w =
      let d := (Client.deliver submit (client.records ping ended) d).2
      { d with workers := d.workers.change w fun worker =>
        { worker with client := some client.nextBatch.2 } } := by
  rw [task?] at h
  split at h <;> cases h
  rename_i hfind
  rw [cycle, hfind]
  rfl

theorem Deployment.cycle_of_none {d : Deployment σ η} {w : Nat} (h : d.task? w = none)
    (ping : Nat → Destination → Except PingError Unit × Stamp)
    (ended : List Record → List Record) : d.cycle ping ended w = d := by
  rw [task?] at h
  rw [cycle]
  cases hfind : d.workers.find? w with
  | none => rfl
  | some worker =>
    obtain ⟨runnable, kind, state, client⟩ := worker
    rw [hfind] at h
    cases client with
    | none => cases kind <;> cases state <;> rfl
    | some client =>
      cases kind with
      | process => cases state <;> rfl
      | task =>
        cases state with
        | running => cases h
        | stopped => rfl
        | exited code => rfl

/-- The way of records behind a shutdown. -/
def Outlet.close : Outlet → Outlet
  | .recorder r => .stopped (r.stop Archive.persistQueued)
  | outlet => outlet

/-- The records that clients submit in an incident. -/
def Incident.records (d : Deployment σ η) : Incident η → List Record
  | .cycle ping ended w => match d.task? w with
    | some client => client.records ping ended
    | none => []
  | .submit w r => if (d.task? w).isSome then [r] else []
  | .exit _ _ _ => []
  | .work _ => []
  | .elsewhere _ => []

/-- What can happen in the life of an agent: a call is made, something happens by itself, or others
change the desired state. -/
inductive LifeEvent (σ η : Type) where
  | call (os : Host η) (c : AgentCall)
  | incident (i : Incident η)
  | elsewhere (state : σ)

/-- The records that clients submit in an event. -/
def LifeEvent.records (d : Deployment σ η) : LifeEvent σ η → List Record
  | .incident i => i.records d
  | .call _ _ => []
  | .elsewhere _ => []

namespace Agent

variable [DesiredStore σ]

/-- An agent after an event of its life. -/
def lives (a : Agent σ η) : LifeEvent σ η → Agent σ η
  | .call os c => (a.perform os c).2
  | .incident i => a.put (i.apply a.deployment)
  | .elsewhere state => a.put { a.deployment with state }

/-- An agent after some events of its life. -/
def lived (a : Agent σ η) (life : List (LifeEvent σ η)) : Agent σ η := life.foldl lives a

/-- The records that clients submit in the course of some events, in their order. -/
def submitted (a : Agent σ η) : List (LifeEvent σ η) → List Record
  | [] => []
  | e :: life => e.records a.deployment ++ (a.lives e).submitted life

end Agent

/-! ## What an incident leaves -/

namespace Deployment

/-- What nothing that happens by itself changes: what is registered, which workers there are, and
the desired state. No worker comes to run, and one that was stopped stays so. -/
structure Undergoes (d d' : Deployment σ η) : Prop where
  servers : d'.servers = d.servers
  clients : d'.clients = d.clients
  state : d'.state = d.state
  next : d'.workers.next = d.workers.next
  running : ∀ w, d'.workers.isRunning w = true → d.workers.isRunning w = true
  stopped : ∀ w, d.workers.IsStopped w → d'.workers.IsStopped w

theorem undergoes_of_keeps {d d' : Deployment σ η} (h : d.Keeps d') (hstate : d'.state = d.state) :
    Undergoes d d' where
  servers := h.servers
  clients := h.clients
  state := hstate
  next := by rw [h.workers]
  running w hw := by rwa [h.workers] at hw
  stopped w hw := by rwa [h.workers]

theorem undergoes_exit (os : Host η) (w code : Nat) (d : Deployment σ η) :
    Undergoes d (d.exit os w code) := by
  have hkeeps := keeps_closeSocket os w d
  have hworkers := Managers.workers_exit os w code d
  constructor
  case servers => exact hkeeps.servers
  case clients => exact hkeeps.clients
  case state => exact state_exit os w code d
  case next => rw [hworkers, Workforce.next_exit]
  case running =>
    intro v hv
    rw [hworkers] at hv
    exact Workforce.isRunning_exit hv
  case stopped =>
    intro v hv
    rw [hworkers]
    exact hv.exit w code

theorem undergoes_cycle (ping : Nat → Destination → Except PingError Unit × Stamp)
    (ended : List Record → List Record) (w : Nat) (d : Deployment σ η) :
    Undergoes d (d.cycle ping ended w) := by
  cases htask : d.task? w with
  | none =>
    rw [cycle_of_none htask]
    exact undergoes_of_keeps (.refl d) rfl
  | some client =>
    rw [cycle_of_task htask]
    have hkeeps := keeps_deliver (client.records ping ended) d
    -- The worker goes on with its next destinations, and in the state that it was in.
    let goOn : Worker → Worker := fun worker => { worker with client := some client.nextBatch.2 }
    have hsame : ∀ worker, (goOn worker).state = worker.state := fun _ => rfl
    constructor
    case servers => exact hkeeps.servers
    case clients => exact hkeeps.clients
    case state => exact state_deliver (client.records ping ended) d
    case next =>
      exact (Workforce.next_change w goOn _).trans (congrArg Workforce.next hkeeps.workers)
    case running =>
      intro v hv
      rw [← Workforce.isRunning_change_eq hsame w v d.workers, ← hkeeps.workers]
      exact hv
    case stopped =>
      intro v hv
      rw [← Workforce.isStopped_change_eq hsame w v d.workers, ← hkeeps.workers] at hv
      exact hv

theorem undergoes_apply (d : Deployment σ η) (i : Incident η) : Undergoes d (i.apply d) := by
  cases i with
  | exit os w code => exact undergoes_exit os w code d
  | cycle ping ended w => exact undergoes_cycle ping ended w d
  | submit w r =>
    rw [Incident.apply]
    split
    · exact undergoes_of_keeps (keeps_submit r d) (state_submit r d)
    · exact undergoes_of_keeps (.refl d) rfl
  | work i => exact undergoes_of_keeps ⟨rfl, rfl, rfl⟩ rfl
  | elsewhere host => exact undergoes_of_keeps ⟨rfl, rfl, rfl⟩ rfl

end Deployment

/-! ## What a stop of scopes leaves -/

theorem Deployment.outlet_dismissEach (os : Host η) (keys : List WorkerKey) (d : Deployment σ η) :
    (dismissEach os keys d).2.outlet = d.outlet := by
  induction keys generalizing d with
  | nil => rfl
  | cons key rest ih => exact (ih _).trans (outlet_dismiss os key d)

namespace Agent

theorem outlet_stopScopes (os : Host η) (scopes : List Scope) (d : Deployment σ η) :
    (stopScopes os scopes d).outlet = d.outlet := by
  obtain ⟨keys, hstopped⟩ := exists_stopScopes os scopes d
  rw [hstopped]
  exact outlet_dismissEach os keys d

theorem shutdown_eq (os : Host η) (a : Agent σ η) :
    a.shutdown os = a.put { stopScopes os a.scopes a.deployment with
      outlet := a.deployment.outlet.close } := by
  rw [shutdown, ← outlet_stopScopes os a.scopes a.deployment]
  generalize stopScopes os a.scopes a.deployment = d
  obtain ⟨_, _, _, _, _, outlet, _⟩ := d
  cases outlet <;> rfl

variable [DesiredStore σ] [StoreContent σ]

/-! ## Whole lives -/

omit [StoreContent σ] in
/-- An agent keeps its settings, its topology and its scopes in all calls. -/
theorem exists_put_perform (os : Host η) (a : Agent σ η) (c : AgentCall) :
    ∃ d, (a.perform os c).2 = a.put d := by
  by_cases hc : c = .shutdown
  · exact ⟨_, by rw [hc]; exact shutdown_eq os a⟩
  · obtain ⟨d, heq, -⟩ := steps_perform os a hc
    exact ⟨d, heq⟩

omit [StoreContent σ] in
theorem exists_put_handle (os : Host η) (a : Agent σ η) (e : AgentEvent) :
    ∃ d, a.handle os e = a.put d := by
  cases e with
  | call c => exact exists_put_perform os a c
  | exit w code => exact ⟨_, rfl⟩

omit [StoreContent σ] in
theorem exists_put_lives (a : Agent σ η) (e : LifeEvent σ η) : ∃ d, a.lives e = a.put d := by
  cases e with
  | call os c => exact exists_put_perform os a c
  | incident i => exact ⟨_, rfl⟩
  | elsewhere state => exact ⟨_, rfl⟩

/-- An agent that is reached is the one at the start with something else deployed. -/
theorem exists_put_of_reachable {start a : Agent σ η} (h : Reachable start a) :
    ∃ d, a = start.put d := by
  induction h with
  | start => exact ⟨_, rfl⟩
  | @event a _ os e _ ih =>
    obtain ⟨d, rfl⟩ := ih
    exact exists_put_handle os (start.put d) e
  | cycle _ ping ended w ih =>
    obtain ⟨d, rfl⟩ := ih
    exact ⟨_, rfl⟩
  | elsewhere _ host outlet _ ih =>
    obtain ⟨d, rfl⟩ := ih
    exact ⟨_, rfl⟩

omit [DesiredStore σ] [StoreContent σ] in
theorem tidy_apply {scopes : List Scope} {d : Deployment σ η} (h : Tidy scopes d)
    (i : Incident η) : Tidy scopes (i.apply d) := by
  have hundergoes := undergoes_apply d i
  exact h.congr hundergoes.servers hundergoes.clients (Nat.le_of_eq hundergoes.next.symm)
    hundergoes.running

theorem tidy_perform {a : Agent σ η} (h : Tidy a.scopes a.deployment) (os : Host η)
    (c : AgentCall) : Tidy a.scopes (a.perform os c).2.deployment := by
  by_cases hc : c = .shutdown
  · subst hc
    have hstopped := h.steps (steps_stopScopes os a.scopes a.deployment)
    show Tidy a.scopes (a.shutdown os).deployment
    rw [shutdown_eq]
    exact hstopped.congr rfl rfl (Nat.le_refl _) fun _ hw => hw
  · obtain ⟨d, heq, hsteps⟩ := steps_perform os a hc
    rw [heq]
    exact h.steps hsteps

theorem tidy_handle {a : Agent σ η} (h : Tidy a.scopes a.deployment) (os : Host η)
    (e : AgentEvent) : Tidy a.scopes (a.handle os e).deployment := by
  cases e with
  | call c => exact tidy_perform h os c
  | exit w code => exact tidy_apply h (.exit os w code)

theorem tidy_lives {a : Agent σ η} (h : Tidy a.scopes a.deployment) (e : LifeEvent σ η) :
    Tidy a.scopes (a.lives e).deployment := by
  cases e with
  | call os c => exact tidy_perform h os c
  | incident i => exact tidy_apply h i
  | elsewhere state => exact h.keeps ⟨rfl, rfl, rfl⟩

/-- An agent is tidy all its life. -/
theorem tidy_lived {a : Agent σ η} (h : Tidy a.scopes a.deployment)
    (life : List (LifeEvent σ η)) :
    (a.lived life).scopes = a.scopes ∧ (a.lived life).topology = a.topology ∧
      Tidy a.scopes (a.lived life).deployment := by
  induction life generalizing a with
  | nil => exact ⟨rfl, rfl, h⟩
  | cons e life ih =>
    have hnext := tidy_lives h e
    obtain ⟨d, heq⟩ := exists_put_lives a e
    rw [heq] at hnext
    have hlived : a.lived (e :: life) = (a.put d).lived life := congrArg (lived · life) heq
    rw [hlived]
    exact ih (a := a.put d) hnext

omit [DesiredStore σ] [StoreContent σ] in
theorem tidy_fresh (scopes : List Scope) (state : σ) (host : η) (outlet : Outlet) :
    Tidy scopes (.fresh state host outlet) where
  rostered := rostered_fresh state host outlet
  sited key w hw := by cases key <;> cases hw
  tended w hw := by cases hw

end Agent

/-! ## What came to the recorder -/

namespace Outlet

variable {capacity threads : Nat} {archive : Archive} {submitted : List Record}

/-- The recorder of an outlet is one that started on an empty queue, was offered some records in
their order, and whose workers have been going on since. -/
def Received (capacity : Nat) (archive : Archive) (threads : Nat) (submitted : List Record)
    (outlet : Outlet) : Prop :=
  ∀ r, outlet = .recorder r → ∃ events : List (Recorder.Event Record),
    (∀ e ∈ events, e.isUsual = true) ∧ events.filterMap Recorder.Event.item? = submitted ∧
      r = (Recorder.start (.empty capacity) archive threads).run Archive.persistQueued events

theorem received_start :
    (recorder (.start (.empty capacity) archive threads)).Received capacity archive threads [] := by
  intro r hr
  cases hr
  exact ⟨[], by simp, rfl, rfl⟩

theorem Received.producers {r : ArchiveRecorder}
    (h : (recorder r).Received capacity archive threads submitted) :
    r.queue.producers = true := by
  obtain ⟨events, he, -, rfl⟩ := h r rfl
  exact (Recorder.offered_run Archive.persistQueued he rfl rfl).1

theorem Received.event {r : ArchiveRecorder}
    (h : (recorder r).Received capacity archive threads submitted) {e : Recorder.Event Record}
    (he : e.isUsual = true) :
    (recorder (r.handle Archive.persistQueued e)).Received capacity archive threads
      (submitted ++ e.item?.toList) := by
  intro r' hr'
  obtain ⟨events, hevents, hitems, rfl⟩ := h r rfl
  cases hr'
  refine ⟨events ++ [e], ?_, ?_, ?_⟩
  · rw [List.forall_mem_append, List.forall_mem_singleton]
    exact ⟨hevents, he⟩
  · rw [List.filterMap_append, hitems]
    cases h : e.item? <;> simp [h]
  · rw [Recorder.run, Recorder.run, List.foldl_append]
    rfl

theorem Received.work {outlet : Outlet}
    (h : outlet.Received capacity archive threads submitted) (i : Nat) :
    (outlet.work i).Received capacity archive threads submitted := by
  cases outlet with
  | recorder r =>
    have hstep : (recorder (r.handle Archive.persistQueued (.work i))).Received capacity archive
        threads (submitted ++ []) := h.event rfl
    rwa [List.append_nil] at hstep
  | _ => exact h

end Outlet

namespace Deployment

variable {capacity threads : Nat} {archive : Archive} {submitted : List Record}

theorem received_submit (r : Record) {d : Deployment σ η}
    (h : d.outlet.Received capacity archive threads submitted) :
    (submit r d).2.outlet.Received capacity archive threads (submitted ++ [r]) := by
  cases houtlet : d.outlet with
  | recorder recorder =>
    rw [houtlet] at h
    have hoffer : (enqueue r recorder).2 = (recorder.offer r).2 := by
      rw [enqueue, Recorder.offer, if_pos h.producers]
    have hafter : (submit r d).2.outlet = .recorder (recorder.offer r).2 := by
      rw [submit, houtlet, ← hoffer]
      dsimp only
      split <;> rfl
    rw [hafter]
    exact h.event (e := .push r) rfl
  | collected records =>
    have hafter : (submit r d).2.outlet = .collected (records ++ [r]) := by rw [submit, houtlet]
    rw [hafter]
    rintro _ ⟨⟩
  | stopped recorder =>
    have hafter : (submit r d).2.outlet = .stopped recorder := by
      rw [submit, houtlet]
      exact houtlet
    rw [hafter]
    rintro _ ⟨⟩

theorem received_deliver (records : List Record) {d : Deployment σ η}
    (h : d.outlet.Received capacity archive threads submitted) :
    (Client.deliver submit records d).2.outlet.Received capacity archive threads
      (submitted ++ records) := by
  induction records generalizing d submitted with
  | nil => rwa [List.append_nil]
  | cons r records ih =>
    have hrest := ih (received_submit r h)
    rwa [List.append_assoc] at hrest

theorem outlet_exit (os : Host η) (w code : Nat) (d : Deployment σ η) :
    (d.exit os w code).outlet = d.outlet := by
  unfold exit closeSocket
  split <;> rfl

theorem received_apply {d : Deployment σ η}
    (h : d.outlet.Received capacity archive threads submitted) (i : Incident η) :
    (i.apply d).outlet.Received capacity archive threads (submitted ++ i.records d) := by
  cases i with
  | exit os w code =>
    rw [Incident.records, List.append_nil, Incident.apply, outlet_exit]
    exact h
  | cycle ping ended w =>
    rw [Incident.records, Incident.apply]
    cases htask : d.task? w with
    | none => rwa [cycle_of_none htask, List.append_nil]
    | some client =>
      rw [cycle_of_task htask]
      exact received_deliver (client.records ping ended) h
  | submit w r =>
    rw [Incident.records, Incident.apply]
    split
    · exact received_submit r h
    · rwa [List.append_nil]
  | work i =>
    rw [Incident.records, List.append_nil]
    exact h.work i
  | elsewhere host =>
    rw [Incident.records, List.append_nil]
    exact h

end Deployment

namespace Agent

variable [DesiredStore σ]
  {capacity threads : Nat} {archive : Archive} {submitted : List Record}

/-- Without namespaces only the clients hand records over. -/
theorem received_perform {a : Agent σ η} (hroot : ∀ scope ∈ a.scopes, scope.path? = none)
    (h : a.deployment.outlet.Received capacity archive threads submitted) (os : Host η)
    (c : AgentCall) :
    (a.perform os c).2.deployment.outlet.Received capacity archive threads submitted := by
  by_cases hc : c = .shutdown
  · -- No recorder goes on behind a shutdown.
    subst hc
    show (a.shutdown os).deployment.outlet.Received _ _ _ _
    rw [shutdown_eq]
    show a.deployment.outlet.close.Received _ _ _ _
    cases a.deployment.outlet <;> rintro _ ⟨⟩
  · obtain ⟨d, heq, hsteps⟩ := steps_perform os a hc
    rw [heq]
    show d.outlet.Received _ _ _ _
    rwa [hsteps.outlet hroot]

theorem received_lives {a : Agent σ η} (hroot : ∀ scope ∈ a.scopes, scope.path? = none)
    (h : a.deployment.outlet.Received capacity archive threads submitted) (e : LifeEvent σ η) :
    (a.lives e).deployment.outlet.Received capacity archive threads
      (submitted ++ e.records a.deployment) := by
  cases e with
  | call os c =>
    rw [LifeEvent.records, List.append_nil]
    exact received_perform hroot h os c
  | incident i => exact received_apply h i
  | elsewhere state =>
    rw [LifeEvent.records, List.append_nil]
    exact h

theorem received_lived {a : Agent σ η} (hroot : ∀ scope ∈ a.scopes, scope.path? = none)
    (h : a.deployment.outlet.Received capacity archive threads submitted)
    (life : List (LifeEvent σ η)) :
    (a.lived life).deployment.outlet.Received capacity archive threads
      (submitted ++ a.submitted life) := by
  induction life generalizing a submitted with
  | nil => rwa [Agent.submitted, List.append_nil]
  | cons e life ih =>
    obtain ⟨d, heq⟩ := exists_put_lives a e
    have hscopes : ∀ scope ∈ (a.lives e).scopes, scope.path? = none := by rwa [heq]
    have hrest := ih hscopes (received_lives hroot h e)
    rwa [List.append_assoc] at hrest

end Agent

end PolicyProbe
