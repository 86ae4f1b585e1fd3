import PolicyProbe.Proofs.Manager.Confined
import PolicyProbe.Proofs.Worker.Launch

/-!
Two deployments that are alike in some scopes (`Deployment.Alike`): the same workers are registered
there, though their numbers may differ, and processes of these scopes see the same of the host. A
start in one of these scopes turns out the same in both and leaves them alike. A start in another
scope, made in one of them only, leaves them alike as well, when it does not change what the host
shows to these scopes (`Host.Separates`).
-/
namespace PolicyProbe

/-- Processes of the scopes that are kept see no more of a host than `view`, and starting processes
in the other scopes does not change that. -/
structure Host.Separates {η β : Type} (os : Host η) (scopes : List Scope) (kept : String → Bool)
    (view : η → β) : Prop where
  alike : ∀ scope ∈ scopes, kept scope.name = true → ∀ text h h', view h = view h' →
    (os.spawn text scope.path? h).1 = (os.spawn text scope.path? h').1 ∧
      view (os.spawn text scope.path? h).2 = view (os.spawn text scope.path? h').2
  apart : ∀ scope ∈ scopes, kept scope.name = false → ∀ text h,
    view (os.spawn text scope.path? h).2 = view h

/-! ## Starting a process -/

/-- A launch ends with the first line, or with the exit or the end of the time if there is none. -/
theorem Child.launch_eq (l : Launcher) (c : Child) :
    c.launch l =
      match Lines.cut? c.output, c.exit with
      | some (line, rest), _ => (l.judge (Lines.trimReturn line)).map fun _ => rest
      | none, some code =>
        if c.output.isEmpty then .error (l.exitedEarly (Launcher.statusOfCode code))
        else (l.judge c.output).map fun _ => []
      | none, none => .error l.tooLate := by
  obtain ⟨output, exit⟩ := c
  cases hcut : Lines.cut? output with
  | some p =>
    obtain ⟨line, rest⟩ := p
    cases exit <;> cases hjudge : l.judge (Lines.trimReturn line) <;>
      simp [launch, events, Launcher.run, Launcher.begin, Launcher.step, Launcher.reap,
        Launcher.look, hcut, hjudge, Launcher.settle, Except.map]
  | none =>
    cases exit with
    | none =>
      simp [launch, events, Launcher.run, Launcher.begin, Launcher.step, Launcher.look, hcut,
        Launcher.settle]
    | some code =>
      cases output with
      | nil =>
        simp [launch, events, Launcher.run, Launcher.begin, Launcher.step, Launcher.reap,
          Launcher.look, hcut, Launcher.close, Launcher.settle]
      | cons b output =>
        cases hjudge : l.judge (b :: output) <;>
          simp [launch, events, Launcher.run, Launcher.begin, Launcher.step, Launcher.reap,
            Launcher.look, hcut, Launcher.close, Launcher.settle, hjudge, Except.map]

/-- Whether a first line starts a worker does not depend on who the worker is. -/
theorem Launcher.judge_worker (w w' : Identifier) (readyMs : Nat) (line : List UInt8) :
    (judge ⟨w, readyMs⟩ line).toOption = (judge ⟨w', readyMs⟩ line).toOption := by
  rw [judge, judge]
  cases Lines.text? line with
  | none => rfl
  | some text =>
    dsimp only
    rw [verdict, verdict]
    cases WorkerEvent.ofLine text with
    | error e => rfl
    | ok event => cases event <;> rfl

theorem Child.launch_worker (w w' : Identifier) (readyMs : Nat) (c : Child) :
    (c.launch ⟨w, readyMs⟩).toOption = (c.launch ⟨w', readyMs⟩).toOption := by
  have htoOption : ∀ (answer : Except TrafficError Unit) (rest : List UInt8),
      (answer.map fun _ => rest).toOption = answer.toOption.map fun _ => rest := by
    intro answer rest
    cases answer <;> rfl
  have hmap : ∀ line rest, ((Launcher.judge ⟨w, readyMs⟩ line).map fun _ => rest).toOption =
      (((Launcher.judge ⟨w', readyMs⟩ line).map fun _ => rest).toOption : Option (List UInt8)) := by
    intro line rest
    rw [htoOption, htoOption, Launcher.judge_worker w w']
  rw [launch_eq, launch_eq]
  split
  · exact hmap _ _
  · split
    · rfl
    · exact hmap _ _
  · rfl

namespace Deployment

variable {σ η : Type}

theorem host_submit (r : Record) (d : Deployment σ η) : (submit r d).2.host = d.host := by
  unfold submit
  split
  · rfl
  · split
    dsimp only
    split <;> rfl
  · rfl

theorem host_deliver (rs : List Record) (d : Deployment σ η) :
    (Client.deliver submit rs d).2.host = d.host := by
  induction rs generalizing d with
  | nil => rfl
  | cons r rs ih => exact (ih _).trans (host_submit r d)

theorem host_noteFailure (worker : Identifier) (child : Child) (d : Deployment σ η) :
    (d.noteFailure worker child).host = d.host := by
  unfold noteFailure
  split <;> rfl

/-- The worker of a process that was not refused. -/
def processWorker (runnable : Runnable) (child : Child) : Worker where
  runnable := runnable
  kind := .process
  state := match child.exit with
    | some code => .exited code
    | none => .running
  client := none

/-- The worker that comes of what the host answers, if any does. -/
def accepted? (readyMs : Nat) (runnable : Runnable) : Except SystemError Child → Option Worker
  | .error _ => none
  | .ok child => (child.launch ⟨.ofNat 0, readyMs⟩).toOption.map fun _ =>
    processWorker runnable child

/-- What is made of a process depends on what the host answers, and on nothing else. -/
theorem startProcess_cases (os : Host η) (path : Option String) (runnable : Runnable)
    (d : Deployment σ η) :
    let spawned := os.spawn runnable.toJson.text path d.host
    let r := d.startProcess os path runnable
    r.2.host = spawned.2 ∧
      ((∃ e, r.1 = .error e ∧ accepted? os.readyMs runnable spawned.1 = none) ∨
        ∃ w worker, r.1 = .ok w ∧ accepted? os.readyMs runnable spawned.1 = some worker ∧
          r.2.workers.find? w = some worker) := by
  intro spawned r
  have hr : r = d.startProcess os path runnable := rfl
  rw [startProcess] at hr
  rcases hspawned : os.spawn runnable.toJson.text path d.host with ⟨answer, host⟩
  have hs : spawned = (answer, host) := hspawned
  rw [hspawned] at hr
  rw [hs]
  cases answer with
  | error e =>
    rw [hr]
    exact ⟨rfl, Or.inl ⟨_, rfl, rfl⟩⟩
  | ok child =>
    have hworker := Child.launch_worker (Workforce.identifier d.workers.next) (.ofNat 0) os.readyMs
      child
    dsimp only at hr
    cases hlaunch : child.launch ⟨Workforce.identifier d.workers.next, os.readyMs⟩ with
    | error e =>
      rw [hlaunch] at hr hworker
      rw [hr]
      refine ⟨host_noteFailure _ _ _, Or.inl ⟨_, rfl, ?_⟩⟩
      rw [accepted?, ← hworker]
      rfl
    | ok rest =>
      rw [hlaunch] at hr hworker
      rw [hr]
      refine ⟨host_deliver _ _, Or.inr ⟨_, processWorker runnable child, rfl, ?_, ?_⟩⟩
      · rw [accepted?, ← hworker]
        rfl
      · rw [(keeps_deliver _ _).workers]
        exact Workforce.find?_add_next _ _

end Deployment

/-! ## Alike in some scopes -/

/-- The worker that is registered under a key, whatever its number is. -/
def WorkerKey.worker? {σ η : Type} (key : WorkerKey) (d : Deployment σ η) : Option Worker :=
  (key.registered? d).bind d.workers.find?

namespace Deployment

variable {σ η β : Type}

/-- What is registered are workers. -/
def Employed (d : Deployment σ η) : Prop :=
  ∀ key w, WorkerKey.registered? key d = some w → w < d.workers.next

theorem Employed.exists_worker {d : Deployment σ η} (h : d.Employed) {key : WorkerKey} {w : Nat}
    (hw : key.registered? d = some w) : ∃ worker, d.workers.find? w = some worker :=
  ⟨_, List.getElem?_eq_getElem (h key w hw)⟩

theorem Employed.worker?_eq_none {d : Deployment σ η} (h : d.Employed) {key : WorkerKey} :
    key.worker? d = none ↔ key.registered? d = none := by
  rw [WorkerKey.worker?]
  cases hw : key.registered? d with
  | none => simp
  | some w =>
    obtain ⟨worker, hworker⟩ := h.exists_worker hw
    simp [hworker]

theorem Employed.grow {d d' : Deployment σ η} (h : d.Employed)
    (hold : ∀ key w, WorkerKey.registered? key d' = some w →
      WorkerKey.registered? key d = some w ∨ w < d'.workers.next)
    (hnext : d.workers.next ≤ d'.workers.next) : d'.Employed := by
  intro key w hw
  exact (hold key w hw).elim (fun hw => Nat.lt_of_lt_of_le (h key w hw) hnext) id

/-- In the scopes that are kept, the same workers are registered in both, and both hosts show the
same. -/
structure Alike (kept : String → Bool) (view : η → β) (d d' : Deployment σ η) : Prop where
  employed : d.Employed
  employed' : d'.Employed
  worker : ∀ key : WorkerKey, kept key.scope = true → key.worker? d = key.worker? d'
  host : view d.host = view d'.host

variable {kept : String → Bool} {view : η → β} {d d' d₁ d₁' : Deployment σ η}

theorem Alike.refl (h : d.Employed) : Alike kept view d d := ⟨h, h, fun _ _ => rfl, rfl⟩

theorem Alike.symm (h : Alike kept view d d') : Alike kept view d' d :=
  ⟨h.employed', h.employed, fun key hkey => (h.worker key hkey).symm, h.host.symm⟩

/-- What is registered under a key that is kept is a worker in the same state in both. -/
theorem Alike.registered (h : Alike kept view d d') (key : WorkerKey)
    (hkey : kept key.scope = true) {w : Nat} (hw : key.registered? d = some w) :
    ∃ w', key.registered? d' = some w' ∧ d.workers.isRunning w = d'.workers.isRunning w' := by
  obtain ⟨worker, hworker⟩ := h.employed.exists_worker hw
  have hsame := h.worker key hkey
  rw [WorkerKey.worker?, hw, Option.bind_some, hworker] at hsame
  obtain ⟨w', hw', hworker'⟩ := Option.bind_eq_some_iff.mp hsame.symm
  refine ⟨w', hw', ?_⟩
  rw [Workforce.isRunning, hworker, Workforce.isRunning, hworker']

theorem Alike.free (h : Alike kept view d d') (key : WorkerKey) (hkey : kept key.scope = true)
    (hfree : key.registered? d = none) : key.registered? d' = none := by
  rwa [← h.employed'.worker?_eq_none, ← h.worker key hkey, h.employed.worker?_eq_none]

/-- One of two deployments that are alike becomes another. -/
theorem Alike.left (h : Alike kept view d d') (hemployed : d₁.Employed)
    (hworker : ∀ key : WorkerKey, kept key.scope = true → key.worker? d₁ = key.worker? d)
    (hhost : view d₁.host = view d.host) : Alike kept view d₁ d' where
  employed := hemployed
  employed' := h.employed'
  worker key hkey := (hworker key hkey).trans (h.worker key hkey)
  host := hhost.trans h.host

theorem Alike.keeps (h : Alike kept view d d') (hkeeps : d.Keeps d₁) (hhost : d₁.host = d.host) :
    Alike kept view d₁ d' := by
  have hregistered := WorkerKey.registered?_keeps hkeeps
  refine h.left (h.employed.grow (fun key w hw => Or.inl ?_) ?_) (fun key _ => ?_) (by rw [hhost])
  · rwa [hregistered] at hw
  · rw [hkeeps.workers]
  · rw [WorkerKey.worker?, WorkerKey.worker?, hregistered, hkeeps.workers]

/-- Both become others in which nothing of this has changed. -/
theorem Alike.both (h : Alike kept view d d') (hkeeps : d.Keeps d₁) (hhost : d₁.host = d.host)
    (hkeeps' : d'.Keeps d₁') (hhost' : d₁'.host = d'.host) : Alike kept view d₁ d₁' :=
  ((h.keeps hkeeps hhost).symm.keeps hkeeps' hhost').symm

/-- The same key is taken out of both. -/
theorem Alike.erase (h : Alike kept view d d') (key : WorkerKey) :
    Alike kept view (key.erase d) (key.erase d') := by
  have hemployed : ∀ e : Deployment σ η, e.Employed → (key.erase e).Employed := by
    intro e he
    refine he.grow (fun k w hw => Or.inl ?_) (Nat.le_of_eq (by rw [WorkerKey.workers_erase]))
    by_cases hk : k = key
    · rw [hk, WorkerKey.registered?_erase_self] at hw
      cases hw
    · rwa [WorkerKey.registered?_erase_of_ne hk] at hw
  have hhost : ∀ e : Deployment σ η, (key.erase e).host = e.host := fun e => by cases key <;> rfl
  constructor
  case employed => exact hemployed d h.employed
  case employed' => exact hemployed d' h.employed'
  case worker =>
    intro k hkept
    by_cases hk : k = key
    · rw [WorkerKey.worker?, WorkerKey.worker?, hk, WorkerKey.registered?_erase_self,
        WorkerKey.registered?_erase_self]
      rfl
    · have hsame := h.worker k hkept
      rwa [WorkerKey.worker?, WorkerKey.worker?, WorkerKey.registered?_erase_of_ne hk,
        WorkerKey.registered?_erase_of_ne hk, WorkerKey.workers_erase, WorkerKey.workers_erase]
  case host => rw [hhost, hhost, h.host]

/-- The same worker is registered in both. -/
theorem Alike.put (h : Alike kept view d d') (key : WorkerKey) {w w' : Nat} {worker : Worker}
    (hw : d.workers.find? w = some worker) (hw' : d'.workers.find? w' = some worker) :
    Alike kept view (key.put w d) (key.put w' d') := by
  have hemployed : ∀ (e : Deployment σ η) v, e.Employed → e.workers.find? v = some worker →
      (key.put v e).Employed := by
    intro e v he hv
    refine he.grow (fun k x hx => ?_) (Nat.le_of_eq (by rw [WorkerKey.workers_put]))
    by_cases hk : k = key
    · rw [hk, WorkerKey.registered?_put_self] at hx
      obtain rfl := Option.some.inj hx
      rw [WorkerKey.workers_put]
      exact Or.inr (List.getElem?_eq_some_iff.mp hv).1
    · rw [WorkerKey.registered?_put_of_ne hk] at hx
      exact Or.inl hx
  have hhost : ∀ (e : Deployment σ η) v, (key.put v e).host = e.host :=
    fun e v => by cases key <;> rfl
  constructor
  case employed => exact hemployed d w h.employed hw
  case employed' => exact hemployed d' w' h.employed' hw'
  case worker =>
    intro k hkept
    by_cases hk : k = key
    · rw [WorkerKey.worker?, WorkerKey.worker?, hk, WorkerKey.registered?_put_self,
        WorkerKey.registered?_put_self, WorkerKey.workers_put, WorkerKey.workers_put]
      exact hw.trans hw'.symm
    · have hsame := h.worker k hkept
      rwa [WorkerKey.worker?, WorkerKey.worker?, WorkerKey.registered?_put_of_ne hk,
        WorkerKey.registered?_put_of_ne hk, WorkerKey.workers_put, WorkerKey.workers_put]
  case host => rw [hhost, hhost, h.host]

/-- The workers of other scopes than those in which something happens are as they were. -/
theorem Confined.worker? [DesiredStore σ] [StoreContent σ] {names : String → Prop}
    {own : Address → Prop} (h : Confined names own d d₁) (hd : d.Rostered) {key : WorkerKey}
    (hkey : ¬names key.scope) : key.worker? d₁ = key.worker? d := by
  rw [WorkerKey.worker?, WorkerKey.worker?, h.others key hkey]
  cases hw : key.registered? d with
  | none => rfl
  | some w =>
    -- The worker is registered under no key of these scopes.
    refine h.workers w (hd.employed key w hw) fun k hk hreg => hkey ?_
    rwa [hd.unshared key k w hw hreg] at hk

/-- What happens in the other scopes of one of them leaves both alike. -/
theorem Alike.confined [DesiredStore σ] [StoreContent σ] {own : Address → Prop}
    (h : Alike kept view d d') (hd : d.Rostered)
    (hconfined : Confined (fun name => kept name = false) own d d₁)
    (hhost : view d₁.host = view d.host) : Alike kept view d₁ d' := by
  refine h.left (hconfined.rostered hd).employed (fun key hkey => ?_) hhost
  refine hconfined.worker? hd ?_
  rw [hkey]
  exact Bool.noConfusion

/-! ## Starts in scopes that are kept -/

theorem Started.grows {runnable : Runnable} {answer : Except TrafficError Nat}
    (h : Started runnable d answer d₁) : d.workers.Grows d₁.workers := by
  cases h with
  | employed worker _ _ _ _ _ hworkers =>
    rw [hworkers]
    exact Workforce.grows_add worker _
  | failed _ _ hkeeps => exact .of_eq hkeeps.workers
  | refused _ worker _ _ _ _ hworkers =>
    rw [hworkers]
    exact Workforce.grows_add worker _

theorem Alike.started (h : Alike kept view d d') {runnable : Runnable}
    {answer : Except TrafficError Nat} (hstart : Started runnable d answer d₁) :
    d₁.Employed ∧ ∀ key : WorkerKey, key.worker? d₁ = key.worker? d := by
  obtain ⟨hservers, hclients⟩ := hstart.registries
  have hregistered := WorkerKey.registered?_congr hservers hclients
  refine ⟨h.employed.grow (fun key w hw => Or.inl ?_) hstart.grows.next, fun key => ?_⟩
  · rwa [hregistered] at hw
  · rw [WorkerKey.worker?, WorkerKey.worker?, hregistered]
    cases hw : key.registered? d with
    | none => rfl
    | some w => exact hstart.grows.same w (h.employed key w hw)

variable {os : Host η} {scopes : List Scope} {scope : Scope}

/-- A process that is started in a scope that is kept comes to the same in both. -/
theorem Alike.start (h : Alike kept view d d') (hos : os.Separates scopes kept view)
    (hscope : scope ∈ scopes) (hpath : scope.path?.isSome = true) (hkept : kept scope.name = true)
    (runnable : Runnable) :
    Alike kept view (d.start os scope runnable).2 (d'.start os scope runnable).2 ∧
      ((∃ e e', (d.start os scope runnable).1 = .error e ∧
          (d'.start os scope runnable).1 = .error e') ∨
        ∃ w w' worker, (d.start os scope runnable).1 = .ok w ∧
          (d'.start os scope runnable).1 = .ok w' ∧
          (d.start os scope runnable).2.workers.find? w = some worker ∧
          (d'.start os scope runnable).2.workers.find? w' = some worker) := by
  obtain ⟨path, hpath⟩ := Option.isSome_iff_exists.mp hpath
  have hprocess : ∀ e : Deployment σ η, e.start os scope runnable =
      e.startProcess os scope.path? runnable := by
    intro e
    rw [Deployment.start, hpath]
  obtain ⟨hspawn, hview⟩ := hos.alike scope hscope hkept runnable.toJson.text _ _ h.host
  obtain ⟨hhost, hanswer⟩ := startProcess_cases os scope.path? runnable d
  obtain ⟨hhost', hanswer'⟩ := startProcess_cases os scope.path? runnable d'
  have hstarted := h.started (started_start os scope runnable d)
  have hstarted' := h.symm.started (started_start os scope runnable d')
  rw [hprocess] at hstarted hstarted' ⊢
  rw [hprocess]
  constructor
  · constructor
    case employed => exact hstarted.1
    case employed' => exact hstarted'.1
    case worker =>
      intro key hkey
      rw [hstarted.2, hstarted'.2]
      exact h.worker key hkey
    case host => rw [hhost, hhost', hview]
  · rw [hspawn] at hanswer
    rcases hanswer with ⟨e, he, hnone⟩ | ⟨w, worker, hw, hsome, hfind⟩ <;>
      rcases hanswer' with ⟨e', he', hnone'⟩ | ⟨w', worker', hw', hsome', hfind'⟩
    · exact Or.inl ⟨e, e', he, he'⟩
    · cases hnone.symm.trans hsome'
    · cases hsome.symm.trans hnone'
    · obtain rfl := Option.some.inj (hsome.symm.trans hsome')
      exact Or.inr ⟨w, w', worker, hw, hw', hfind, hfind'⟩

/-- A start under a free key fails in both, or its worker comes to be registered in both. -/
theorem Alike.startAt (h : Alike kept view d d') (hos : os.Separates scopes kept view)
    (hscope : scope ∈ scopes) (hpath : scope.path?.isSome = true) (hkept : kept scope.name = true)
    (runnable : Runnable) {key : WorkerKey} (hfree : key.registered? d = none)
    (hfree' : key.registered? d' = none) :
    (∃ e e' d₁ d₁', d.start os scope runnable = (.error e, d₁) ∧
        d'.start os scope runnable = (.error e', d₁') ∧ Alike kept view d₁ d₁') ∨
      ∃ w w' d₁ d₁', d.start os scope runnable = (.ok w, d₁) ∧
        d'.start os scope runnable = (.ok w', d₁') ∧ key.registered? d₁ = none ∧
        key.registered? d₁' = none ∧ Alike kept view (key.put w d₁) (key.put w' d₁') := by
  obtain ⟨halike, hanswers⟩ := h.start hos hscope hpath hkept runnable
  obtain ⟨hservers, hclients⟩ := (started_start os scope runnable d).registries
  obtain ⟨hservers', hclients'⟩ := (started_start os scope runnable d').registries
  rcases hanswers with ⟨e, e', he, he'⟩ | ⟨w, w', worker, hw, hw', hfind, hfind'⟩
  · exact Or.inl ⟨e, e', _, _, Prod.ext he rfl, Prod.ext he' rfl, halike⟩
  · exact Or.inr ⟨w, w', _, _, Prod.ext hw rfl, Prod.ext hw' rfl,
      (WorkerKey.registered?_congr hservers hclients key).trans hfree,
      (WorkerKey.registered?_congr hservers' hclients' key).trans hfree',
      halike.put key hfind hfind'⟩

end Deployment

open Deployment

section Starts

variable {σ η β : Type} [DesiredStore σ] {kept : String → Bool} {view : η → β}
  {d d' : Deployment σ η} {os : Host η} {scopes : List Scope} {scope : Scope}

theorem Servers.host_record (key : ServerKey) (bindAddress : Address) (d : Deployment σ η) :
    (record key bindAddress d).host = d.host := by
  rw [record]
  split <;> rfl

theorem Servers.alike_launch (h : Alike kept view d d') (hos : os.Separates scopes kept view)
    (hscope : scope ∈ scopes) (hpath : scope.path?.isSome = true) (hkept : kept scope.name = true)
    {key : ServerKey} (hfree : WorkerKey.registered? (.server key) d = none)
    (hfree' : WorkerKey.registered? (.server key) d' = none) (bindAddress : Address) :
    Alike kept view (launch os scope key bindAddress d).2 (launch os scope key bindAddress d').2 ∧
      (launch os scope key bindAddress d).1.isOk =
        (launch os scope key bindAddress d').1.isOk := by
  rw [launch, launch]
  rcases h.startAt hos hscope hpath hkept (.server ⟨key.protocol, key.port, bindAddress⟩) hfree
      hfree' with ⟨e, e', d₁, d₁', heq, heq', halike⟩ |
    ⟨w, w', d₁, d₁', heq, heq', hkey, hkey', halike⟩
  · rw [heq, heq']
    exact ⟨halike.both (keeps_say _ d₁) rfl (keeps_say _ d₁') rfl, rfl⟩
  · rw [heq, heq']
    dsimp only
    rw [register_of_free hkey, register_of_free hkey']
    exact ⟨halike.both (keeps_record key bindAddress _).1 (host_record _ _ _)
      (keeps_record key bindAddress _).1 (host_record _ _ _), rfl⟩

/-- A server is started alike in a scope that is kept. -/
theorem Servers.alike_start (h : Alike kept view d d') (hos : os.Separates scopes kept view)
    (hscope : scope ∈ scopes) (hpath : scope.path?.isSome = true) (hkept : kept scope.name = true)
    (protocol : Protocol) (port : Nat) (bindAddress : Address) :
    Alike kept view (start os scope protocol port bindAddress d).2
        (start os scope protocol port bindAddress d').2 ∧
      (start os scope protocol port bindAddress d).1.isOk =
        (start os scope protocol port bindAddress d').1.isOk := by
  let key : WorkerKey := .server (key scope protocol port)
  have hkey : kept key.scope = true := hkept
  rw [start, start]
  cases hfind : d.servers.find? (Servers.key scope protocol port) with
  | none =>
    have hfree' : d'.servers.find? (Servers.key scope protocol port) = none :=
      h.free key hkey hfind
    rw [hfree']
    exact alike_launch h hos hscope hpath hkept hfind hfree' bindAddress
  | some w =>
    obtain ⟨w', hfind', hrunning⟩ := h.registered key hkey hfind
    have hfind'' : d'.servers.find? (Servers.key scope protocol port) = some w' := hfind'
    rw [hfind'']
    dsimp only
    rw [← hrunning]
    cases d.workers.isRunning w with
    | true => exact ⟨h, rfl⟩
    | false =>
      refine alike_launch ((h.erase key).both (keeps_say _ _) rfl (keeps_say _ _) rfl) hos hscope
        hpath hkept ?_ ?_ bindAddress
      · exact key.registered?_erase_self d
      · exact key.registered?_erase_self d'

theorem Clients.alike_launch (h : Alike kept view d d') (hos : os.Separates scopes kept view)
    (hscope : scope ∈ scopes) (hpath : scope.path?.isSome = true) (hkept : kept scope.name = true)
    (hfree : WorkerKey.registered? (.client scope.name) d = none)
    (hfree' : WorkerKey.registered? (.client scope.name) d' = none) (settings : TrafficSettings)
    {endpoint : Address}
    (hread : DesiredStore.clients endpoint d.state = DesiredStore.clients endpoint d'.state) :
    Alike kept view (launch os settings scope endpoint d).2
        (launch os settings scope endpoint d').2 ∧
      (launch os settings scope endpoint d).1.toOption.map Option.isSome =
        (launch os settings scope endpoint d').1.toOption.map Option.isSome := by
  rw [launch, launch, hread]
  cases hfound : DesiredStore.clients endpoint d'.state with
  | error e => exact ⟨h, rfl⟩
  | ok clients => cases clients with
    | nil => exact ⟨h, rfl⟩
    | cons first rest =>
      dsimp only
      rcases h.startAt hos hscope hpath hkept (.client (spec settings endpoint (first :: rest)))
          hfree hfree' with ⟨e, e', d₁, d₁', heq, heq', halike⟩ |
        ⟨w, w', d₁, d₁', heq, heq', hkey, hkey', halike⟩
      · rw [heq, heq']
        exact ⟨halike.both (keeps_say _ d₁) rfl (keeps_say _ d₁') rfl, rfl⟩
      · rw [heq, heq']
        dsimp only
        rw [register_of_free hkey, register_of_free hkey']
        exact ⟨halike, rfl⟩

/-- The client of an endpoint is started alike in a scope that is kept, when both desired states
have the same for it to ping. -/
theorem Clients.alike_start (h : Alike kept view d d') (hos : os.Separates scopes kept view)
    (hscope : scope ∈ scopes) (hpath : scope.path?.isSome = true) (hkept : kept scope.name = true)
    (settings : TrafficSettings) {endpoint : Address}
    (hread : DesiredStore.clients endpoint d.state = DesiredStore.clients endpoint d'.state) :
    Alike kept view (start os settings scope endpoint d).2
        (start os settings scope endpoint d').2 ∧
      (start os settings scope endpoint d).1.toOption.map Option.isSome =
        (start os settings scope endpoint d').1.toOption.map Option.isSome := by
  let key : WorkerKey := .client scope.name
  rw [start, start]
  cases hfind : d.clients.find? scope.name with
  | none =>
    have hfree' : d'.clients.find? scope.name = none := h.free key hkept hfind
    rw [hfree']
    exact alike_launch h hos hscope hpath hkept hfind hfree' settings hread
  | some w =>
    obtain ⟨w', hfind', hrunning⟩ := h.registered key hkept hfind
    have hfind'' : d'.clients.find? scope.name = some w' := hfind'
    rw [hfind'']
    dsimp only
    rw [← hrunning]
    cases d.workers.isRunning w with
    | true => exact ⟨h, rfl⟩
    | false =>
      refine alike_launch ((h.erase key).both (keeps_say _ _) rfl (keeps_say _ _) rfl) hos hscope
        hpath hkept ?_ ?_ settings hread
      · exact key.registered?_erase_self d
      · exact key.registered?_erase_self d'

/-! ## Starts in other scopes -/

omit [DesiredStore σ] in
theorem Deployment.view_start (hos : os.Separates scopes kept view) (hscope : scope ∈ scopes)
    (hpath : scope.path?.isSome = true) (hother : kept scope.name = false) (runnable : Runnable)
    (d : Deployment σ η) : view (d.start os scope runnable).2.host = view d.host := by
  obtain ⟨path, hpath⟩ := Option.isSome_iff_exists.mp hpath
  have hprocess : d.start os scope runnable = d.startProcess os scope.path? runnable := by
    rw [Deployment.start, hpath]
  rw [hprocess, (startProcess_cases os scope.path? runnable d).1]
  exact hos.apart scope hscope hother _ _

theorem Servers.view_start (hos : os.Separates scopes kept view) (hscope : scope ∈ scopes)
    (hpath : scope.path?.isSome = true) (hother : kept scope.name = false) (protocol : Protocol)
    (port : Nat) (bindAddress : Address) (d : Deployment σ η) :
    view (start os scope protocol port bindAddress d).2.host = view d.host := by
  have hlaunch : ∀ (key : ServerKey) (e : Deployment σ η), e.host = d.host →
      view (launch os scope key bindAddress e).2.host = view d.host := by
    intro key e he
    have hstart := Deployment.view_start hos hscope hpath hother
      (.server ⟨key.protocol, key.port, bindAddress⟩) e
    rw [he] at hstart
    rw [launch]
    split <;> rename_i heq <;> rw [heq] at hstart
    · exact hstart
    · dsimp only
      rw [host_record]
      exact hstart
  rw [start]
  split
  · split
    · rfl
    · exact hlaunch _ _ rfl
  · exact hlaunch _ _ rfl

theorem Clients.view_start (hos : os.Separates scopes kept view) (hscope : scope ∈ scopes)
    (hpath : scope.path?.isSome = true) (hother : kept scope.name = false)
    (settings : TrafficSettings) (endpoint : Address) (d : Deployment σ η) :
    view (start os settings scope endpoint d).2.host = view d.host := by
  have hlaunch : ∀ e : Deployment σ η, e.host = d.host →
      view (launch os settings scope endpoint e).2.host = view d.host := by
    intro e he
    rw [launch]
    split
    · exact congrArg view he
    · exact congrArg view he
    · rename_i clients _ _
      have hstart := Deployment.view_start hos hscope hpath hother
        (.client (spec settings endpoint clients)) e
      rw [he] at hstart
      split <;> rename_i heq <;> rw [heq] at hstart
      · exact hstart
      · exact hstart
  rw [start]
  split
  · split
    · rfl
    · exact hlaunch _ rfl
  · exact hlaunch _ rfl

end Starts

end PolicyProbe
