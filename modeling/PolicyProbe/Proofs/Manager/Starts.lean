import PolicyProbe.Proofs.Manager.Places

/-!
What a start under a key can do, when nothing else goes on. Either the worker of the key runs and
nothing happens; or there is none that runs, and then the key is free afterwards
(`Deployment.Vacated`) or has a new worker (`Deployment.Launched`). In no case is anything else
registered or taken out, and the workers that there were go on as they were
(`Deployment.Touches`). A server that was launched has been handed to the desired state; a client
pings what the desired state had when it was launched.
-/
namespace PolicyProbe

namespace Deployment

variable {σ η : Type}

/-- Whether a worker that runs is registered under a key. -/
def Runs (key : WorkerKey) (d : Deployment σ η) : Prop :=
  ∃ w, key.registered? d = some w ∧ d.workers.isRunning w = true

/-! ## What is not touched -/

/-- At most what is registered under one key has changed, and workers may have come. -/
structure Touches (key : WorkerKey) (d d' : Deployment σ η) : Prop where
  others : ∀ k, k ≠ key → k.registered? d' = k.registered? d
  workers : d.workers.Grows d'.workers

theorem Touches.trans {key : WorkerKey} {d d' d'' : Deployment σ η} (h : Touches key d d')
    (h' : Touches key d' d'') : Touches key d d'' where
  others k hk := (h'.others k hk).trans (h.others k hk)
  workers := h.workers.trans h'.workers

/-- A worker that runs goes on when its key is touched only if it has none that runs. -/
theorem Touches.kept {key : WorkerKey} {d d' : Deployment σ η} (h : Touches key d d')
    (hdead : ¬d.Runs key) (k : WorkerKey) (w : Nat) (hw : k.registered? d = some w)
    (hrun : d.workers.isRunning w = true) : k.registered? d' = some w := by
  by_cases hk : k = key
  · subst hk
    exact absurd ⟨w, hw, hrun⟩ hdead
  · exact (h.others k hk).trans hw

theorem touches_of_keeps {d d' : Deployment σ η} (h : d.Keeps d') (key : WorkerKey) :
    Touches key d d' where
  others k _ := WorkerKey.registered?_keeps h k
  workers := .of_eq h.workers

theorem touches_erase (key : WorkerKey) (d : Deployment σ η) : Touches key d (key.erase d) where
  others _ hk := WorkerKey.registered?_erase_of_ne hk d
  workers := .of_eq (WorkerKey.workers_erase key d)

theorem touches_put (key : WorkerKey) (w : Nat) (d : Deployment σ η) :
    Touches key d (key.put w d) where
  others _ hk := WorkerKey.registered?_put_of_ne hk w d
  workers := .of_eq (WorkerKey.workers_put key w d)

theorem touches_add {d d' : Deployment σ η} {worker : Worker} (hservers : d'.servers = d.servers)
    (hclients : d'.clients = d.clients) (hworkers : d'.workers = d.workers.add worker)
    (key : WorkerKey) : Touches key d d' where
  others k _ := WorkerKey.registered?_congr hservers hclients k
  workers := by
    rw [hworkers]
    exact Workforce.grows_add worker d.workers

/-! ## Free keys and new workers -/

/-- A key is free. -/
structure Vacated (key : WorkerKey) (d d' : Deployment σ η) : Prop extends Touches key d d' where
  free : key.registered? d' = none
  state : d'.state = d.state

/-- A new worker is registered under a key. It is for a runnable, and runs unless it exited. -/
structure Launched (key : WorkerKey) (runnable : Runnable) (w : Nat) (d d' : Deployment σ η) : Prop
    extends Touches key d d' where
  registered : key.registered? d' = some w
  new : d.workers.next ≤ w
  runs : d'.workers.runnable? w = some runnable
  alive : d'.workers.exitCode? w = none → d'.workers.isRunning w = true

theorem vacated_of_free {key : WorkerKey} {d : Deployment σ η} (h : key.registered? d = none) :
    Vacated key d d where
  toTouches := touches_of_keeps (.refl d) key
  free := h
  state := rfl

theorem Vacated.keeps {key : WorkerKey} {d d₁ d₂ : Deployment σ η} (h : Vacated key d d₁)
    (hkeeps : d₁.Keeps d₂) (hstate : d₂.state = d₁.state) : Vacated key d d₂ where
  toTouches := h.toTouches.trans (touches_of_keeps hkeeps key)
  free := (WorkerKey.registered?_keeps hkeeps key).trans h.free
  state := hstate.trans h.state

theorem Launched.keeps {key : WorkerKey} {runnable : Runnable} {w : Nat}
    {d d₁ d₂ : Deployment σ η} (h : Launched key runnable w d d₁) (hkeeps : d₁.Keeps d₂) :
    Launched key runnable w d d₂ where
  toTouches := h.toTouches.trans (touches_of_keeps hkeeps key)
  registered := (WorkerKey.registered?_keeps hkeeps key).trans h.registered
  new := h.new
  runs := by
    rw [hkeeps.workers]
    exact h.runs
  alive hexit := by
    rw [hkeeps.workers] at hexit ⊢
    exact h.alive hexit

theorem vacated_erase (key : WorkerKey) (d : Deployment σ η) : Vacated key d (key.erase d) where
  toTouches := touches_erase key d
  free := WorkerKey.registered?_erase_self key d
  state := by cases key <;> rfl

theorem vacated_discard (s : WorkerStart) (w : Nat) (d : Deployment σ η) :
    Vacated s.key d (s.discard w d) :=
  (vacated_erase s.key d).keeps (s.keeps_discard w d) (by cases s <;> rfl)

/-- A start that fails leaves a key free that was free. -/
theorem Vacated.error {key : WorkerKey} {runnable : Runnable} {e : TrafficError}
    {d d₁ d₂ : Deployment σ η} (h : Vacated key d d₁)
    (hstart : Started runnable d₁ (.error e) d₂) : Vacated key d d₂ := by
  cases hstart with
  | failed _ hstate hkeeps => exact h.keeps hkeeps hstate
  | refused _ worker _ hstate hservers hclients hworkers =>
    exact {
      toTouches := h.toTouches.trans (touches_add hservers hclients hworkers key)
      free := (WorkerKey.registered?_congr hservers hclients key).trans h.free
      state := hstate.trans h.state }

/-- A start that succeeds is followed by a registration under the key that is free. -/
theorem Vacated.ok {key : WorkerKey} {runnable : Runnable} {w : Nat} {d d₁ d₂ : Deployment σ η}
    (h : Vacated key d d₁) (hstart : Started runnable d₁ (.ok w) d₂) :
    Launched key runnable w d (key.put w d₂) ∧ key.registered? d₂ = none ∧ d₂.state = d.state := by
  cases hstart with
  | employed worker hrunnable hrunning hstate hservers hclients hworkers =>
    have hfind : d₂.workers.find? d₁.workers.next = some worker := by
      rw [hworkers]
      exact Workforce.find?_add_next worker d₁.workers
    refine ⟨?_, (WorkerKey.registered?_congr hservers hclients key).trans h.free,
      hstate.trans h.state⟩
    constructor
    case toTouches =>
      exact h.toTouches.trans
        ((touches_add hservers hclients hworkers key).trans (touches_put key _ d₂))
    case registered => exact WorkerKey.registered?_put_self key _ d₂
    case new => exact h.workers.next
    case runs =>
      rw [WorkerKey.workers_put, Workforce.runnable?, hfind, ← hrunnable]
      rfl
    case alive =>
      rw [WorkerKey.workers_put]
      exact Workforce.isRunning_of_exitCode? hfind hrunning

end Deployment

open Deployment

/-! ## Servers -/

namespace Servers

variable {σ η : Type} [DesiredStore σ]

/-- What the start of a server hands to the desired state. -/
def update (key : ServerKey) (bindAddress : Address) : StateUpdate :=
  ⟨bindAddress, [⟨key.protocol, key.port⟩], []⟩

/-- What the start of a server can do. -/
inductive Outcome (key : ServerKey) (bindAddress : Address) (d : Deployment σ η) :
    Except TrafficError Nat → Deployment σ η → Prop where
  | running {w : Nat} (hregistered : WorkerKey.registered? (.server key) d = some w)
      (hrunning : d.workers.isRunning w = true) : Outcome key bindAddress d (.ok w) d
  | failed {d' : Deployment σ η} (e : TrafficError) (hdead : ¬d.Runs (.server key))
      (h : Vacated (.server key) d d') : Outcome key bindAddress d (.error e) d'
  | launched {w : Nat} {d' : Deployment σ η} (hdead : ¬d.Runs (.server key))
      (h : Launched (.server key) (.server ⟨key.protocol, key.port, bindAddress⟩) w d d')
      (hstate : d'.state = (DesiredStore.apply (update key bindAddress) d.state).2) :
      Outcome key bindAddress d (.ok w) d'

theorem keeps_record (key : ServerKey) (bindAddress : Address) (d : Deployment σ η) :
    d.Keeps (record key bindAddress d) ∧
      (record key bindAddress d).state =
        (DesiredStore.apply (update key bindAddress) d.state).2 := by
  have happly : DesiredStore.apply (update key bindAddress) d.state =
      DesiredStore.update bindAddress [⟨key.protocol, key.port⟩] [] d.state := rfl
  rw [happly]
  unfold record
  split <;> rename_i heq <;> rw [heq] <;> exact ⟨⟨rfl, rfl, rfl⟩, rfl⟩

omit [DesiredStore σ] in
/-- A worker is registered under a key that is free. -/
theorem register_of_free {key : ServerKey} {d : Deployment σ η}
    (hfree : WorkerKey.registered? (.server key) d = none) (w : Nat) :
    register key w d = (w, WorkerKey.put (.server key) w d) := by
  have hfind : d.servers.find? key = none := hfree
  simp only [register, Registry.add, hfind]
  rfl

theorem launch_outcome (os : Host η) (scope : Scope) {key : ServerKey} (bindAddress : Address)
    {d d₁ : Deployment σ η} (hdead : ¬d.Runs (.server key)) (h : Vacated (.server key) d d₁) :
    Outcome key bindAddress d (launch os scope key bindAddress d₁).1
      (launch os scope key bindAddress d₁).2 := by
  have hstart := started_start os scope (.server ⟨key.protocol, key.port, bindAddress⟩) d₁
  unfold launch
  split
  · rename_i e d₂ heq
    rw [heq] at hstart
    exact .failed e hdead ((h.error hstart).keeps (keeps_say _ d₂) rfl)
  · rename_i w d₂ heq
    rw [heq] at hstart
    obtain ⟨hlaunched, hfree, hstate⟩ := h.ok hstart
    obtain ⟨hkeeps, hrecorded⟩ := keeps_record key bindAddress (WorkerKey.put (.server key) w d₂)
    rw [register_of_free hfree]
    refine .launched hdead (hlaunched.keeps hkeeps) ?_
    rw [← hstate]
    exact hrecorded

theorem start_outcome (os : Host η) (scope : Scope) (protocol : Protocol) (port : Nat)
    (bindAddress : Address) (d : Deployment σ η) :
    Outcome (key scope protocol port) bindAddress d
      (start os scope protocol port bindAddress d).1
      (start os scope protocol port bindAddress d).2 := by
  rw [start]
  cases hfind : d.servers.find? (key scope protocol port) with
  | none =>
    have hfree : WorkerKey.registered? (.server (key scope protocol port)) d = none := hfind
    have hdead : ¬d.Runs (.server (key scope protocol port)) := by
      rintro ⟨w, hw, -⟩
      rw [hfree] at hw
      exact nomatch hw
    exact launch_outcome os scope bindAddress hdead (vacated_of_free hfree)
  | some w =>
    have hregistered : WorkerKey.registered? (.server (key scope protocol port)) d = some w := hfind
    by_cases hrun : d.workers.isRunning w = true
    · simp only [hrun, if_true]
      exact .running hregistered hrun
    · have hdead : ¬d.Runs (.server (key scope protocol port)) := by
        rintro ⟨v, hv, hrunning⟩
        rw [hregistered] at hv
        exact hrun (Option.some.inj hv ▸ hrunning)
      simp only [hrun]
      exact launch_outcome os scope bindAddress hdead
        (vacated_discard (.server scope protocol port bindAddress) w d)

end Servers

/-! ## Clients -/

namespace Clients

variable {σ η : Type} [DesiredStore σ]

/-- What the start of a client can do. -/
inductive Outcome (settings : TrafficSettings) (scope : Scope) (endpoint : Address)
    (d : Deployment σ η) : Except TrafficError (Option Nat) → Deployment σ η → Prop where
  | running {w : Nat} (hregistered : WorkerKey.registered? (.client scope.name) d = some w)
      (hrunning : d.workers.isRunning w = true) : Outcome settings scope endpoint d (.ok (some w)) d
  | idle {d' : Deployment σ η} (hread : DesiredStore.clients endpoint d.state = .ok [])
      (h : Vacated (.client scope.name) d d') : Outcome settings scope endpoint d (.ok none) d'
  | failed {d' : Deployment σ η} (e : TrafficError) (h : Vacated (.client scope.name) d d') :
      Outcome settings scope endpoint d (.error e) d'
  | launched {w : Nat} {d' : Deployment σ η} {clients : List ClientEntry}
      (hread : DesiredStore.clients endpoint d.state = .ok clients) (hne : clients ≠ [])
      (h : Launched (.client scope.name) (.client (spec settings endpoint clients)) w d d')
      (hstate : d'.state = d.state) : Outcome settings scope endpoint d (.ok (some w)) d'

omit [DesiredStore σ] in
theorem register_of_free {scope : Scope} {d : Deployment σ η}
    (hfree : WorkerKey.registered? (.client scope.name) d = none) (w : Nat) :
    register scope w d = (w, WorkerKey.put (.client scope.name) w d) := by
  have hfind : d.clients.find? scope.name = none := hfree
  simp only [register, Registry.add, hfind]
  rfl

theorem launch_outcome (os : Host η) (settings : TrafficSettings) (scope : Scope)
    (endpoint : Address) {d d₁ : Deployment σ η} (h : Vacated (.client scope.name) d d₁) :
    Outcome settings scope endpoint d (launch os settings scope endpoint d₁).1
      (launch os settings scope endpoint d₁).2 := by
  unfold launch
  rw [h.state]
  split
  · exact .failed _ h
  · rename_i hread
    exact .idle hread h
  · rename_i clients hne hread
    have hstart := started_start os scope (.client (spec settings endpoint clients)) d₁
    split
    · rename_i e d₂ heq
      rw [heq] at hstart
      exact .failed e ((h.error hstart).keeps (keeps_say _ d₂) rfl)
    · rename_i w d₂ heq
      rw [heq] at hstart
      obtain ⟨hlaunched, hfree, hstate⟩ := h.ok hstart
      rw [register_of_free hfree]
      exact .launched hread hne hlaunched hstate

/-- A start of a client finds one that runs. Otherwise one that ended is taken out, and the start
comes down to a launch. -/
theorem start_cases (os : Host η) (settings : TrafficSettings) (scope : Scope)
    (endpoint : Address) (d : Deployment σ η) :
    (∃ w, WorkerKey.registered? (.client scope.name) d = some w ∧ d.workers.isRunning w = true ∧
      start os settings scope endpoint d = (.ok (some w), d)) ∨
    ¬d.Runs (.client scope.name) ∧ ∃ d₁ : Deployment σ η, Vacated (.client scope.name) d d₁ ∧
      d₁.servers = d.servers ∧ d₁.workers = d.workers ∧ d₁.host = d.host ∧
        start os settings scope endpoint d = launch os settings scope endpoint d₁ := by
  rw [start]
  cases hfind : d.clients.find? scope.name with
  | none =>
    have hfree : WorkerKey.registered? (.client scope.name) d = none := hfind
    refine Or.inr ⟨?_, d, vacated_of_free hfree, rfl, rfl, rfl, rfl⟩
    rintro ⟨w, hw, -⟩
    cases hfree.symm.trans hw
  | some w =>
    have hregistered : WorkerKey.registered? (.client scope.name) d = some w := hfind
    dsimp only
    cases hrunning : d.workers.isRunning w with
    | true => exact Or.inl ⟨w, hregistered, hrunning, rfl⟩
    | false =>
      refine Or.inr ⟨?_, discard scope w d, vacated_discard (.client scope endpoint) w d,
        rfl, rfl, rfl, rfl⟩
      rintro ⟨v, hv, hruns⟩
      obtain rfl := Option.some.inj (hregistered.symm.trans hv)
      cases hrunning.symm.trans hruns

theorem start_outcome (os : Host η) (settings : TrafficSettings) (scope : Scope)
    (endpoint : Address) (d : Deployment σ η) :
    Outcome settings scope endpoint d (start os settings scope endpoint d).1
      (start os settings scope endpoint d).2 := by
  rcases start_cases os settings scope endpoint d with
    ⟨w, hregistered, hrunning, heq⟩ | ⟨-, d₁, hvacated, -, -, -, heq⟩
  · rw [heq]
    exact .running hregistered hrunning
  · rw [heq]
    exact launch_outcome os settings scope endpoint hvacated

end Clients

end PolicyProbe
