import PolicyProbe.Proofs.Agent.Isolation
import PolicyProbe.Proofs.Agent.Shutdown
import PolicyProbe.Proofs.Manager.Stops

/-!
What the registries tell about workers that run. A worker that is stopped is taken out first, so
what is registered runs or has ended by itself (`Deployment.Manned`), and what runs is registered.
Looking a server up and stopping it do not look at this: they find every registered server, also one
that ended by itself (`Agent.registered_servers_live`). So their answers are about servers that run
exactly as long as no process has ended under its key; `Agent.ended_server_found` is an agent that
hands out a server that does not run, and says that it stopped one.
-/
namespace PolicyProbe

open Deployment

variable {σ η : Type}

/-! ## Workers that ended by themselves -/

namespace Workforce

/-- Whether a worker ended by itself and was not stopped since. -/
def Ended (w : Nat) (f : Workforce) : Prop :=
  ∃ worker code, f.find? w = some worker ∧ worker.state = .exited code

theorem isStopped_congr {w : Nat} {f f' : Workforce} (h : f'.find? w = f.find? w) :
    f'.IsStopped w ↔ f.IsStopped w := by
  rw [IsStopped, IsStopped, h]

/-- A worker that was not stopped runs or ended by itself. -/
theorem isRunning_or_ended {w : Nat} {f : Workforce} (hw : w < f.next) (h : ¬f.IsStopped w) :
    f.isRunning w = true ∨ f.Ended w := by
  have hfind : f.find? w = some f.members[w] := List.getElem?_eq_getElem hw
  cases hstate : f.members[w].state with
  | running =>
    left
    rw [isRunning, hfind]
    simp [hstate]
  | exited code => exact Or.inr ⟨_, code, hfind, hstate⟩
  | stopped => exact absurd ⟨_, hfind, hstate⟩ h

/-- A worker that runs unless it exited was not stopped. -/
theorem not_isStopped_of_alive {w : Nat} {f : Workforce}
    (h : f.exitCode? w = none → f.isRunning w = true) : ¬f.IsStopped w := by
  rintro ⟨worker, hfind, hstate⟩
  obtain ⟨runnable, kind, state, client⟩ := worker
  obtain rfl : state = .stopped := hstate
  have hexit : f.exitCode? w = none := by
    rw [exitCode?, hfind]
    cases kind <;> rfl
  have hrunning := h hexit
  rw [isRunning, hfind] at hrunning
  cases hrunning

/-- What ends by itself has not been stopped. -/
theorem isStopped_exit {w code v : Nat} {f : Workforce} (h : (f.exit w code).IsStopped v) :
    f.IsStopped v := by
  rw [exit] at h
  split at h
  · obtain ⟨worker, hfind, hstate⟩ := h
    rw [find?_change] at hfind
    split at hfind
    · obtain ⟨old, -, rfl⟩ := Option.map_eq_some_iff.mp hfind
      cases hstate
    · exact ⟨worker, hfind, hstate⟩
  · exact h

end Workforce

/-! ## Registered workers -/

namespace Deployment

/-- Registries are in order and know every worker that runs, and no registered worker has been
stopped. -/
structure Manned (scopes : List Scope) (d : Deployment σ η) : Prop extends Tidy scopes d where
  unstopped : ∀ (key : WorkerKey) w, key.registered? d = some w → ¬d.workers.IsStopped w

variable {scopes : List Scope} {d d' : Deployment σ η}

theorem manned_fresh (state : σ) (host : η) (outlet : Outlet) :
    Manned scopes (.fresh state host outlet) where
  toTidy := Agent.tidy_fresh scopes state host outlet
  unstopped key w hw := by cases key <;> cases hw

theorem Manned.congr (h : Manned scopes d) (htidy : Tidy scopes d')
    (hservers : d'.servers = d.servers) (hclients : d'.clients = d.clients)
    (hstopped : ∀ w, d'.workers.IsStopped w → d.workers.IsStopped w) : Manned scopes d' where
  toTidy := htidy
  unstopped key w hw hgone := by
    rw [WorkerKey.registered?_congr hservers hclients] at hw
    exact h.unstopped key w hw (hstopped w hgone)

/-- A start leaves what is registered under other keys, and a worker that it registers was not
stopped. -/
theorem Manned.touches (h : Manned scopes d) (htidy : Tidy scopes d') {key : WorkerKey}
    (htouches : Touches key d d')
    (hkey : ∀ w, key.registered? d' = some w → ¬d'.workers.IsStopped w) : Manned scopes d' where
  toTidy := htidy
  unstopped k w hw := by
    by_cases hk : k = key
    · subst hk
      exact hkey w hw
    · rw [htouches.others k hk] at hw
      have hold := htouches.workers.same w (h.rostered.employed k w hw)
      rw [Workforce.isStopped_congr hold]
      exact h.unstopped k w hw

theorem Manned.vacated (h : Manned scopes d) (htidy : Tidy scopes d') {key : WorkerKey}
    (hvacated : Vacated key d d') : Manned scopes d' := by
  refine h.touches htidy hvacated.toTouches fun w hw => ?_
  cases hvacated.free.symm.trans hw

theorem Manned.launched (h : Manned scopes d) (htidy : Tidy scopes d') {key : WorkerKey}
    {runnable : Runnable} {w : Nat} (hlaunched : Launched key runnable w d d') :
    Manned scopes d' := by
  refine h.touches htidy hlaunched.toTouches fun v hv => ?_
  obtain rfl := Option.some.inj (hlaunched.registered.symm.trans hv)
  exact Workforce.not_isStopped_of_alive hlaunched.alive

/-- The worker that is stopped is the one that is taken out, and it is registered nowhere else. -/
theorem Manned.dismiss (h : Manned scopes d) (os : Host η) (key : WorkerKey)
    (htidy : Tidy scopes (key.dismiss os d).2) : Manned scopes (key.dismiss os d).2 := by
  refine ⟨htidy, fun k v hv => ?_⟩
  rw [WorkerKey.dismiss] at hv ⊢
  split at hv
  · rename_i w hfound
    have hw : key.registered? d = some w := hfound
    dsimp only at hv ⊢
    rw [Managers.registered?_stop] at hv
    have hk : k ≠ key := by
      rintro rfl
      rw [WorkerKey.registered?_erase_self] at hv
      cases hv
    rw [WorkerKey.registered?_erase_of_ne hk] at hv
    have hne : v ≠ w := by
      rintro rfl
      exact hk (h.rostered.unshared key k v hw hv)
    rw [Managers.workers_stop, WorkerKey.workers_erase,
      Workforce.isStopped_congr (Workforce.find?_stop_of_ne hne _)]
    exact h.unstopped k v hv
  · rename_i hfree
    have hk : k ≠ key := by
      rintro rfl
      rw [WorkerKey.registered?_erase_self] at hv
      cases hv
    rw [WorkerKey.registered?_erase_of_ne hk] at hv
    rw [WorkerKey.workers_erase]
    exact h.unstopped k v hv

variable [DesiredStore σ] [StoreContent σ]

theorem Manned.step (h : Manned scopes d) (hstep : Step scopes d d') : Manned scopes d' := by
  have htidy := h.toTidy.step hstep
  cases hstep with
  | kept hkeeps _ =>
    refine h.congr htidy hkeeps.servers hkeeps.clients fun w hw => ?_
    rwa [hkeeps.workers] at hw
  | server os _ protocol port endpoint =>
    rename_i scope _
    have houtcome := Servers.start_outcome os scope protocol port endpoint d
    generalize Servers.start os scope protocol port endpoint d = r at houtcome htidy ⊢
    obtain ⟨answer, d'⟩ := r
    cases houtcome with
    | running => exact h
    | failed _ _ hvacated => exact h.vacated htidy hvacated
    | launched _ hlaunched _ => exact h.launched htidy hlaunched
  | client os settings _ endpoint =>
    rename_i scope _
    have houtcome := Clients.start_outcome os settings scope endpoint d
    generalize Clients.start os settings scope endpoint d = r at houtcome htidy ⊢
    obtain ⟨answer, d'⟩ := r
    cases houtcome with
    | running => exact h
    | idle _ hvacated => exact h.vacated htidy hvacated
    | failed _ hvacated => exact h.vacated htidy hvacated
    | launched _ _ hlaunched _ => exact h.launched htidy hlaunched
  | dismissed os key => exact h.dismiss os key htidy

theorem Manned.steps (h : Manned scopes d) (hsteps : Steps scopes d d') : Manned scopes d' := by
  induction hsteps with
  | refl => exact h
  | tail _ hstep ih => exact ih.step hstep

omit [DesiredStore σ] [StoreContent σ] in
theorem Manned.cycle (h : Manned scopes d)
    (ping : Nat → Destination → Except PingError Unit × Stamp)
    (ended : List Record → List Record) (w : Nat) : Manned scopes (d.cycle ping ended w) := by
  have htidy : Tidy scopes (d.cycle ping ended w) :=
    Agent.tidy_apply h.toTidy (.cycle ping ended w)
  cases htask : d.task? w with
  | none => rwa [cycle_of_none htask]
  | some client =>
    rw [cycle_of_task htask] at htidy ⊢
    have hkeeps := keeps_deliver (client.records ping ended) d
    refine h.congr htidy hkeeps.servers hkeeps.clients fun v hv => ?_
    have hsame := (Workforce.isStopped_change_eq (g := fun worker =>
      { worker with client := some client.nextBatch.2 }) (fun _ => rfl) w v _).mp hv
    rwa [hkeeps.workers] at hsame

end Deployment

namespace Agent

variable [DesiredStore σ] [StoreContent σ]

theorem manned_handle {a : Agent σ η} (h : Manned a.scopes a.deployment) (os : Host η)
    (e : AgentEvent) : Manned a.scopes (a.handle os e).deployment := by
  have htidy := tidy_handle h.toTidy os e
  cases e with
  | exit w code =>
    have hkeeps := keeps_closeSocket os w a.deployment
    refine h.congr htidy hkeeps.servers hkeeps.clients fun v hv => ?_
    have hstopped : (a.deployment.exit os w code).workers.IsStopped v := hv
    rw [Managers.workers_exit] at hstopped
    exact Workforce.isStopped_exit hstopped
  | call c =>
    by_cases hc : c = .shutdown
    · -- Nothing is registered any more.
      subst hc
      have hempty := shutDown_of_tidy h.toTidy os
      refine ⟨htidy, fun key w hw => ?_⟩
      have hw' : key.registered? (a.shutdown os).deployment = some w := hw
      cases key with
      | server key =>
        rw [WorkerKey.registered?, hempty.servers] at hw'
        cases hw'
      | client name =>
        rw [WorkerKey.registered?, hempty.clients] at hw'
        cases hw'
    · obtain ⟨d, hd, hsteps⟩ := steps_perform os a hc
      rw [handle, hd]
      exact h.steps hsteps

theorem manned_of_reachable {start a : Agent σ η} (hstart : Manned start.scopes start.deployment)
    (h : Reachable start a) : Manned a.scopes a.deployment := by
  induction h with
  | start => exact hstart
  | @event a _ os e _ ih =>
    obtain ⟨d, hput⟩ := exists_put_handle os a e
    have hmanned := manned_handle ih os e
    rw [hput] at hmanned ⊢
    exact hmanned
  | cycle _ ping ended w ih => exact ih.cycle ping ended w
  | elsewhere _ host outlet _ ih =>
    exact ih.congr (ih.toTidy.congr rfl rfl (Nat.le_refl _) fun _ hw => hw) rfl rfl fun _ hw => hw

theorem manned_of_build {settings : Settings} {topology : Topology} {state : σ} {host : η}
    {outlet : Outlet} {start a : Agent σ η}
    (hbuilt : build settings topology (.fresh state host outlet) = .ok start)
    (h : Reachable start a) : Manned a.scopes a.deployment := by
  refine manned_of_reachable ?_ h
  rw [(build_eq_ok hbuilt).2]
  exact manned_fresh state host outlet

/-! ## What looking up and stopping find -/

/-- A registered client is no server. -/
theorem staffed_clients {settings : Settings} {topology : Topology} {state : σ} {host : η}
    {outlet : Outlet} {start a : Agent σ η}
    (hbuilt : build settings topology (.fresh state host outlet) = .ok start)
    (hports : StoreContent.Ported state) (h : Reachable start a) :
    Staffed (fun key r => ∀ name, key = .client name → ∃ spec, r = .client spec) a.deployment := by
  refine staffed_of_reachable hbuilt hports h fun _ key r hplan name hname => ?_
  cases hplan with
  | server => cases hname
  | client => exact ⟨_, rfl⟩

/-- How an agent finds the servers of a protocol and a port. All that run are found; what is found
is such a server that runs or ended by itself; and a stop answers that it found one exactly if one
of the scopes to which it is addressed has a server that runs, or one that ended by itself. -/
structure FindsServers (os : Host η) (a : Agent σ η) (protocol : Protocol) (port : Nat) : Prop where
  running : ∀ w endpoint, a.deployment.workers.isRunning w = true →
    a.deployment.workers.runnable? w = some (.server ⟨protocol, port, endpoint⟩) →
      w ∈ a.getServer protocol port
  found : ∀ w ∈ a.getServer protocol port,
    (∃ endpoint, a.deployment.workers.runnable? w = some (.server ⟨protocol, port, endpoint⟩)) ∧
      (a.deployment.workers.isRunning w = true ∨ a.deployment.workers.Ended w)
  stopped : ∀ name scopes, a.resolve name = .ok scopes →
    ∃ found d, a.stopServer os protocol port name = (.ok found, a.put d) ∧
      (found = true ↔ ∃ p ∈ scopes, a.deployment.Runs (.server (Servers.key p.1 protocol port)) ∨
        ∃ w, WorkerKey.registered? (.server (Servers.key p.1 protocol port)) a.deployment = some w ∧
          a.deployment.workers.Ended w)

omit [DesiredStore σ] [StoreContent σ] in
/-- A worker is found under a protocol and a port exactly if a scope of the agent has it there. -/
theorem mem_getServer {a : Agent σ η} {protocol : Protocol} {port w : Nat} :
    w ∈ a.getServer protocol port ↔ ∃ scope ∈ a.scopes,
      WorkerKey.registered? (.server (Servers.key scope protocol port)) a.deployment = some w :=
  List.mem_filterMap

omit [DesiredStore σ] [StoreContent σ] in
/-- A stop of one server in some scopes finds what is registered in one of them. -/
theorem stopServerIn_eq_true (os : Host η) (protocol : Protocol) (port : Nat)
    (scopes : List (Scope × Option Address)) {d : Deployment σ η} (hd : d.Keyed) :
    (stopServerIn os protocol port scopes d).1 = true ↔ ∃ p ∈ scopes, ∃ w,
      WorkerKey.registered? (.server (Servers.key p.1 protocol port)) d = some w := by
  obtain ⟨n, hanswer, htakes⟩ := takesOut_stopServerIn os protocol port scopes hd
  have hclients : d.clients.countP (fun e =>
      WorkerKey.client e.1 == .server ⟨WorkerKey.scope (.client e.1), port, protocol⟩ &&
        (scopes.map (·.1.name)).contains (WorkerKey.scope (.client e.1))) = 0 :=
    List.countP_eq_zero.mpr fun e _ => by simp
  rw [hanswer, bne_iff_ne, htakes.count, hclients, Nat.add_zero, ← Nat.pos_iff_ne_zero,
    List.countP_pos_iff]
  constructor
  · rintro ⟨⟨key, v⟩, hmem, hgone⟩
    rw [Bool.and_eq_true, WorkerKey.server_beq_server, beq_iff_eq, List.contains_iff_mem] at hgone
    obtain ⟨hkey, hscope⟩ := hgone
    obtain ⟨p, hp, hname⟩ := List.mem_map.mp hscope
    obtain ⟨w, hw⟩ := OrderedMap.exists_of_mem_keys (List.mem_map_of_mem (f := Prod.fst) hmem)
    refine ⟨p, hp, w, ?_⟩
    have hsame : Servers.key p.1 protocol port = key := by
      rw [Servers.key, hname]
      exact hkey.symm
    rw [hsame]
    exact hw
  · rintro ⟨p, hp, w, hw⟩
    refine ⟨_, OrderedMap.mem_of_find? hw, ?_⟩
    rw [Bool.and_eq_true, List.contains_iff_mem]
    exact ⟨beq_self_eq_true _, List.mem_map_of_mem hp⟩

/-- Whatever has been asked of an agent and whichever processes have ended, its servers are found as
long as they are registered, whether they run or ended by themselves. -/
theorem registered_servers_live {settings : Settings} {topology : Topology} {state : σ} {host : η}
    {outlet : Outlet} {start a : Agent σ η}
    (hbuilt : build settings topology (.fresh state host outlet) = .ok start)
    (hports : StoreContent.Ported state) (h : Reachable start a) (os : Host η)
    (protocol : Protocol) (port : Nat) : FindsServers os a protocol port := by
  obtain ⟨-, -, hserves⟩ := standing_of_reachable hbuilt hports h
  have hclients := staffed_clients hbuilt hports h
  have hmanned := manned_of_build hbuilt h
  have halive : ∀ (key : WorkerKey) w, key.registered? a.deployment = some w →
      a.deployment.workers.isRunning w = true ∨ a.deployment.workers.Ended w :=
    fun key w hw => Workforce.isRunning_or_ended (hmanned.rostered.employed key w hw)
      (hmanned.unstopped key w hw)
  constructor
  case running =>
    intro w endpoint hrunning hrunnable
    obtain ⟨key, hw⟩ := hmanned.tended w hrunning
    cases key with
    | client name =>
      obtain ⟨r, hr, hfits⟩ := hclients (.client name) w hw
      obtain ⟨spec, rfl⟩ := hfits name rfl
      cases hr.symm.trans hrunnable
    | server k =>
      -- What the server runs says under which protocol and port it is registered.
      obtain ⟨r, hr, hfits⟩ := hserves (.server k) w hw
      obtain ⟨scope, own, hscope, hname, rfl⟩ := hfits k rfl
      obtain ⟨rfl, rfl, rfl⟩ : k.protocol = protocol ∧ k.port = port ∧ own = endpoint := by
        simpa using Option.some.inj (hr.symm.trans hrunnable)
      refine mem_getServer.mpr ⟨scope, (mem_site.mp hscope).1, ?_⟩
      rw [Servers.key, hname]
      exact hw
  case found =>
    intro w hw
    obtain ⟨scope, hscope, hregistered⟩ := mem_getServer.mp hw
    obtain ⟨r, hr, hfits⟩ := hserves _ w hregistered
    obtain ⟨-, endpoint, -, -, rfl⟩ := hfits _ rfl
    exact ⟨⟨endpoint, hr⟩, halive _ w hregistered⟩
  case stopped =>
    intro name scopes hresolve
    refine ⟨_, _, by rw [stopServer, hresolve], ?_⟩
    rw [stopServerIn_eq_true os protocol port scopes hmanned.rostered.toKeyed]
    refine exists_congr fun p => and_congr_right fun _ => ⟨?_, ?_⟩
    · rintro ⟨w, hw⟩
      exact (halive _ w hw).imp (fun hrunning => ⟨w, hw, hrunning⟩) fun hended => ⟨w, hw, hended⟩
    · rintro (⟨w, hw, -⟩ | ⟨w, hw, -⟩) <;> exact ⟨w, hw⟩

theorem registered_servers_live_paired :
    let a := pairedAgent.run readyHost pairedDay
    a.getServer .udp 53 = [1] ∧ FindsServers readyHost a .udp 53 := by
  intro a
  exact ⟨by decide +kernel,
    registered_servers_live build_paired ported_loopback reachable_pairedDay readyHost .udp 53⟩

/-- The server of the first namespace has died. It is handed out all the same, and stopping it
answers that there was one, though no server runs there. -/
theorem ended_server_found :
    let a := pairedAgent.run readyHost pairedDay
    Reachable pairedAgent a ∧ a.getServer .tcp 80 = [0] ∧
      a.deployment.workers.isRunning 0 = false ∧
      (a.stopServer readyHost .tcp 80 none).1.toOption = some true ∧
      ∀ scope ∈ a.scopes, ¬a.deployment.Runs (.server (Servers.key scope .tcp 80)) := by
  intro a
  have hget : a.getServer .tcp 80 = [0] := by decide +kernel
  have hdead : a.deployment.workers.isRunning 0 = false := by decide +kernel
  refine ⟨reachable_pairedDay, hget, hdead, by decide +kernel, ?_⟩
  rintro scope hscope ⟨w, hw, hrunning⟩
  have hfound : w ∈ a.getServer .tcp 80 := mem_getServer.mpr ⟨scope, hscope, hw⟩
  rw [hget, List.mem_singleton] at hfound
  rw [hfound, hdead] at hrunning
  cases hrunning

end Agent

end PolicyProbe
