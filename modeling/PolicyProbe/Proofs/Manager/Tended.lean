import PolicyProbe.Proofs.Manager.Confined

/-!
What single starts and stops do to workers that run, and to the way of records. A worker that runs
stays registered, for a start registers the worker that it started, and a key goes only with its
worker (`Deployment.Tended`). Without a namespace a worker is a task, which hands no records over
while it is started.
-/
namespace PolicyProbe

open Deployment

variable {σ η : Type}

/-! ## Workers that run are registered -/

namespace Deployment

/-- Every worker that runs is registered. -/
def Tended (d : Deployment σ η) : Prop :=
  ∀ w, d.workers.isRunning w = true → ∃ key : WorkerKey, key.registered? d = some w

theorem Tended.congr {d d' : Deployment σ η} (h : d.Tended) (hservers : d'.servers = d.servers)
    (hclients : d'.clients = d.clients)
    (hrunning : ∀ w, d'.workers.isRunning w = true → d.workers.isRunning w = true) :
    d'.Tended := by
  intro w hw
  obtain ⟨key, hkey⟩ := h w (hrunning w hw)
  exact ⟨key, (WorkerKey.registered?_congr hservers hclients key).trans hkey⟩

theorem Tended.keeps {d d' : Deployment σ η} (h : d.Tended) (hkeeps : d.Keeps d') : d'.Tended :=
  h.congr hkeeps.servers hkeeps.clients fun w hw => by rwa [hkeeps.workers] at hw

/-- A key may go when its worker does not run. -/
theorem Tended.erase {d : Deployment σ η} (h : d.Tended) (key : WorkerKey) {w : Nat}
    (hw : key.registered? d = some w) (hdead : d.workers.isRunning w = false) :
    (key.erase d).Tended := by
  intro v hv
  rw [WorkerKey.workers_erase] at hv
  obtain ⟨k, hk⟩ := h v hv
  have hne : k ≠ key := by
    rintro rfl
    obtain rfl := Option.some.inj (hk.symm.trans hw)
    cases hdead.symm.trans hv
  exact ⟨k, (WorkerKey.registered?_erase_of_ne hne d).trans hk⟩

/-- When a worker has been started, it is the only one that may be unregistered. -/
theorem Tended.started {d d' : Deployment σ η} (h : d.Tended) {runnable : Runnable}
    {answer : Except TrafficError Nat} (hstart : Started runnable d answer d') {w : Nat}
    (hw : d'.workers.isRunning w = true) :
    answer = .ok w ∨ ∃ key : WorkerKey, key.registered? d' = some w := by
  obtain ⟨hservers, hclients⟩ := hstart.registries
  have hold : d.workers.isRunning w = true → ∃ key : WorkerKey, key.registered? d' = some w := by
    intro hrunning
    obtain ⟨key, hkey⟩ := h w hrunning
    exact ⟨key, (WorkerKey.registered?_congr hservers hclients key).trans hkey⟩
  cases hstart with
  | employed worker _ _ _ _ _ hworkers =>
    rw [hworkers] at hw
    rcases Workforce.isRunning_add hw with hw | ⟨rfl, -⟩
    · exact Or.inr (hold hw)
    · exact Or.inl rfl
  | failed _ _ hkeeps =>
    rw [hkeeps.workers] at hw
    exact Or.inr (hold hw)
  | refused _ worker hstopped _ _ _ hworkers =>
    rw [hworkers] at hw
    rcases Workforce.isRunning_add hw with hw | ⟨-, hrunning⟩
    · exact Or.inr (hold hw)
    · cases hstopped.symm.trans hrunning

theorem Tended.error {d d' : Deployment σ η} (h : d.Tended) {runnable : Runnable}
    {e : TrafficError} (hstart : Started runnable d (.error e) d') : d'.Tended := by
  intro w hw
  rcases h.started hstart hw with heq | hregistered
  · cases heq
  · exact hregistered

/-- A worker that has been started is registered under a key that was free. -/
theorem Tended.ok {d d' : Deployment σ η} (h : d.Tended) {runnable : Runnable} {w : Nat}
    (hstart : Started runnable d (.ok w) d') {key : WorkerKey}
    (hfree : key.registered? d = none) : (key.put w d').Tended := by
  intro v hv
  rw [WorkerKey.workers_put] at hv
  rcases h.started hstart hv with heq | ⟨k, hk⟩
  · obtain rfl := Except.ok.inj heq
    exact ⟨key, WorkerKey.registered?_put_self key _ d'⟩
  · obtain ⟨hservers, hclients⟩ := hstart.registries
    have hne : k ≠ key := by
      rintro rfl
      rw [WorkerKey.registered?_congr hservers hclients, hfree] at hk
      cases hk
    exact ⟨k, (WorkerKey.registered?_put_of_ne hne w d').trans hk⟩

theorem tended_dismiss (os : Host η) (key : WorkerKey) {d : Deployment σ η} (h : d.Tended) :
    (key.dismiss os d).2.Tended := by
  rw [WorkerKey.dismiss]
  split
  · rename_i w hw
    intro v hv
    rw [Managers.workers_stop, WorkerKey.workers_erase] at hv
    obtain ⟨hrunning, hne⟩ := Workforce.isRunning_stop hv
    obtain ⟨k, hk⟩ := h v hrunning
    have hother : k ≠ key := by
      rintro rfl
      exact hne (Option.some.inj (hk.symm.trans hw))
    refine ⟨k, ?_⟩
    rw [Managers.registered?_stop, WorkerKey.registered?_erase_of_ne hother, hk]
  · rename_i hfree
    intro v hv
    rw [WorkerKey.workers_erase] at hv
    obtain ⟨k, hk⟩ := h v hv
    have hother : k ≠ key := by
      rintro rfl
      cases hfree.symm.trans hk
    exact ⟨k, (WorkerKey.registered?_erase_of_ne hother d).trans hk⟩

end Deployment

/-! ## Starts -/

section Starts

variable [DesiredStore σ]

theorem Servers.tended_launch (os : Host η) (scope : Scope) {key : ServerKey}
    (bindAddress : Address) {d : Deployment σ η} (h : d.Tended)
    (hfree : WorkerKey.registered? (.server key) d = none) :
    (launch os scope key bindAddress d).2.Tended := by
  have hstart := started_start os scope (.server ⟨key.protocol, key.port, bindAddress⟩) d
  rw [launch]
  split <;> rename_i heq <;> rw [heq] at hstart
  · exact (h.error hstart).keeps (keeps_say _ _)
  · have hfree' := (WorkerKey.registered?_congr hstart.registries.1 hstart.registries.2
      (.server key)).trans hfree
    rw [register_of_free hfree']
    exact (h.ok hstart hfree).keeps (keeps_record key bindAddress _).1

theorem Servers.tended_start (os : Host η) (scope : Scope) (protocol : Protocol) (port : Nat)
    (bindAddress : Address) {d : Deployment σ η} (h : d.Tended) :
    (start os scope protocol port bindAddress d).2.Tended := by
  let key : WorkerKey := .server (key scope protocol port)
  rw [start]
  cases hfind : d.servers.find? (Servers.key scope protocol port) with
  | none => exact tended_launch os scope bindAddress h hfind
  | some w =>
    dsimp only
    split
    · exact h
    · rename_i hdead
      have herased := h.erase key hfind (Bool.eq_false_iff.mpr hdead)
      exact tended_launch os scope bindAddress (herased.keeps (keeps_say _ _))
        (key.registered?_erase_self d)

theorem Clients.tended_launch (os : Host η) (settings : TrafficSettings) {scope : Scope}
    (endpoint : Address) {d : Deployment σ η} (h : d.Tended)
    (hfree : WorkerKey.registered? (.client scope.name) d = none) :
    (launch os settings scope endpoint d).2.Tended := by
  rw [launch]
  split
  · exact h
  · exact h
  · rename_i clients _ _
    have hstart := started_start os scope (.client (spec settings endpoint clients)) d
    split <;> rename_i heq <;> rw [heq] at hstart
    · exact (h.error hstart).keeps (keeps_say _ _)
    · have hfree' := (WorkerKey.registered?_congr hstart.registries.1 hstart.registries.2
        (.client scope.name)).trans hfree
      rw [register_of_free hfree']
      exact h.ok hstart hfree

theorem Clients.tended_start (os : Host η) (settings : TrafficSettings) (scope : Scope)
    (endpoint : Address) {d : Deployment σ η} (h : d.Tended) :
    (start os settings scope endpoint d).2.Tended := by
  let key : WorkerKey := .client scope.name
  rw [start]
  cases hfind : d.clients.find? scope.name with
  | none => exact tended_launch os settings endpoint h hfind
  | some w =>
    dsimp only
    split
    · exact h
    · rename_i hdead
      have herased := h.erase key hfind (Bool.eq_false_iff.mpr hdead)
      exact tended_launch os settings endpoint (herased.keeps (keeps_say _ _))
        (key.registered?_erase_self d)

/-! ## Starts without namespaces -/

omit [DesiredStore σ] in
/-- A worker that is started without a namespace hands no records over. -/
theorem Deployment.outlet_start {scope : Scope} (hroot : scope.path? = none) (os : Host η)
    (runnable : Runnable) (d : Deployment σ η) :
    (d.start os scope runnable).2.outlet = d.outlet := by
  rw [Deployment.start, hroot]
  show (d.startTask os runnable).2.outlet = d.outlet
  unfold startTask
  split
  · split <;> rfl
  · rfl

theorem Servers.outlet_launch {scope : Scope} (hroot : scope.path? = none) (os : Host η)
    (key : ServerKey) (bindAddress : Address) (d : Deployment σ η) :
    (launch os scope key bindAddress d).2.outlet = d.outlet := by
  have hstart := outlet_start hroot os (.server ⟨key.protocol, key.port, bindAddress⟩) d
  rw [launch]
  split <;> rename_i heq <;> rw [heq] at hstart
  · exact hstart
  · dsimp only
    rw [record]
    split <;> exact hstart

theorem Servers.outlet_start {scope : Scope} (hroot : scope.path? = none) (os : Host η)
    (protocol : Protocol) (port : Nat) (bindAddress : Address) (d : Deployment σ η) :
    (start os scope protocol port bindAddress d).2.outlet = d.outlet := by
  rw [start]
  split
  · split
    · rfl
    · exact outlet_launch hroot os _ bindAddress _
  · exact outlet_launch hroot os _ bindAddress d

theorem Clients.outlet_launch {scope : Scope} (hroot : scope.path? = none) (os : Host η)
    (settings : TrafficSettings) (endpoint : Address) (d : Deployment σ η) :
    (launch os settings scope endpoint d).2.outlet = d.outlet := by
  rw [launch]
  split
  · rfl
  · rfl
  · rename_i clients _ _
    have hstart := Deployment.outlet_start hroot os (.client (spec settings endpoint clients)) d
    split <;> rename_i heq <;> rw [heq] at hstart <;> exact hstart

theorem Clients.outlet_start {scope : Scope} (hroot : scope.path? = none) (os : Host η)
    (settings : TrafficSettings) (endpoint : Address) (d : Deployment σ η) :
    (start os settings scope endpoint d).2.outlet = d.outlet := by
  rw [start]
  split
  · split
    · rfl
    · exact outlet_launch hroot os settings endpoint _
  · exact outlet_launch hroot os settings endpoint d

end Starts

theorem Deployment.outlet_stop (os : Host η) (w : Nat) (d : Deployment σ η) :
    (d.stop os w).2.outlet = d.outlet := by
  show (d.closeSocket os w).outlet = d.outlet
  rw [closeSocket]
  split <;> rfl

theorem Deployment.outlet_dismiss (os : Host η) (key : WorkerKey) (d : Deployment σ η) :
    (key.dismiss os d).2.outlet = d.outlet := by
  have herase : (key.erase d).outlet = d.outlet := by cases key <;> rfl
  rw [WorkerKey.dismiss]
  split
  · exact (outlet_stop os _ _).trans herase
  · exact herase

end PolicyProbe
