import PolicyProbe.Proofs.Agent.Life

/-!
A shutdown step by step. What it is still going to stop is registered under keys that the rest of
its stops covers, and what it has taken out it is stopping or has stopped (`Deployment.Closes`,
`Closing.Sound`). So when the stops are through, no worker runs (`Deployment.Closes.idle`), whatever
happened in between. From wherever it is, a shutdown can go on to its end by itself
(`Closing.Sound.exists_over`), and one that nothing interrupts does what `Agent.shutdown` says
(`Closing.leads_shutdown`).
-/
namespace PolicyProbe

open Deployment

variable {σ η : Type}

/-! ## The stops of a shutdown -/

namespace CallPhase

/-- The keys that a stop has still before it. -/
def keys : CallPhase → List WorkerKey
  | .removed _ rest _ => rest
  | .stopping _ rest _ => rest
  | _ => []

/-- Whether a call is a stop. -/
def isStop : CallPhase → Bool
  | .removed _ _ _ => true
  | .stopping _ _ _ => true
  | .stopped _ => true
  | _ => false

end CallPhase

namespace ManagerCall

/-- Whether a call is one that a shutdown makes. -/
def isClosing : ManagerCall → Bool
  | .stopClient _ => true
  | .stopAllServers _ => true
  | _ => false

/-- Whether a call of a shutdown stops what is registered under a key. -/
def covers (key : WorkerKey) : ManagerCall → Bool
  | .stopClient scope => key == .client scope.name
  | .stopAllServers scope => key.isServer && key.scope == scope.name
  | _ => false

/-- The keys of a call of a shutdown. -/
def keys (d : Deployment σ η) : ManagerCall → List WorkerKey
  | .stopClient scope => [.client scope.name]
  | .stopAllServers scope => (Registry.keysIn scope.name d.servers).map .server
  | _ => []

theorem begin_eq {c : ManagerCall} (h : c.isClosing = true) (d : Deployment σ η) :
    Managers.begin d c = Managers.sweep (c.keys d) 0 d := by
  cases c with
  | stopClient scope => rfl
  | stopAllServers scope => rfl
  | _ => cases h

theorem mem_keys {c : ManagerCall} {key : WorkerKey} (h : c.covers key = true)
    {d : Deployment σ η} {w : Nat} (hw : key.registered? d = some w) : key ∈ c.keys d := by
  cases c with
  | stopClient scope => simpa [covers, keys] using h
  | stopAllServers scope =>
    cases key with
    | client name => cases h
    | server key =>
      have hmem : key ∈ d.servers.keys :=
        List.mem_map_of_mem (f := Prod.fst) (OrderedMap.mem_of_find? hw)
      have hscope : key.scope = scope.name := by
        simpa [covers, WorkerKey.isServer, WorkerKey.scope] using h
      exact List.mem_map_of_mem (List.mem_filter.mpr ⟨hmem, beq_iff_eq.mpr hscope⟩)
  | _ => cases h

end ManagerCall

/-- The stops of a shutdown cover every key of its scopes. -/
theorem Closing.exists_covers {scopes : List Scope} {key : WorkerKey}
    (h : key.scope ∈ scopes.map Scope.name) : ∃ c ∈ plan scopes, c.covers key = true := by
  obtain ⟨scope, hscope, hname⟩ := List.mem_map.mp h
  have hplan : ∀ c ∈ [ManagerCall.stopClient scope, .stopAllServers scope], c ∈ plan scopes :=
    fun c hc => List.mem_flatMap.mpr ⟨scope, hscope, hc⟩
  cases key with
  | server key =>
    refine ⟨.stopAllServers scope, hplan _ (by simp), ?_⟩
    simp [ManagerCall.covers, WorkerKey.isServer, hname]
  | client name =>
    refine ⟨.stopClient scope, hplan _ (by simp), ?_⟩
    have hname : scope.name = name := hname
    simp [ManagerCall.covers, hname]

theorem Closing.isClosing_plan (scopes : List Scope) :
    ∀ c ∈ plan scopes, c.isClosing = true := by
  intro c hc
  obtain ⟨scope, -, hc⟩ := List.mem_flatMap.mp hc
  simp only [List.mem_cons, List.not_mem_nil, or_false] at hc
  rcases hc with rfl | rfl <;> rfl

namespace Managers

/-- What a sweep finds: none of its keys, or the first that is registered, which it takes out. -/
inductive Sweeps (keys : List WorkerKey) (n : Nat) (d : Deployment σ η) :
    CallPhase × Deployment σ η → Prop where
  | nothing (hfree : ∀ key ∈ keys, key.registered? d = none) : Sweeps keys n d (.stopped n, d)
  | found (before : List WorkerKey) {key : WorkerKey} {rest : List WorkerKey} {w : Nat}
      (hkeys : keys = before ++ key :: rest) (hfree : ∀ k ∈ before, k.registered? d = none)
      (hw : key.registered? d = some w) : Sweeps keys n d (.removed w rest n, key.erase d)

theorem sweeps_sweep (keys : List WorkerKey) (n : Nat) (d : Deployment σ η) :
    Sweeps keys n d (sweep keys n d) := by
  induction keys with
  | nil => exact .nothing (by simp)
  | cons key rest ih =>
    rw [sweep]
    split
    · rename_i w hw
      exact .found [] rfl (by simp) hw
    · rename_i hfree
      generalize sweep rest n d = r at ih ⊢
      cases ih with
      | nothing hrest => exact .nothing (List.forall_mem_cons.mpr ⟨hfree, hrest⟩)
      | found before hkeys hbefore hw =>
        exact .found (key :: before) (congrArg _ hkeys)
          (List.forall_mem_cons.mpr ⟨hfree, hbefore⟩) hw

end Managers

/-! ## How far a shutdown has come -/

namespace Deployment

/-- How far a shutdown has come that began with `d₀`. It is stopping `taken`, and is still going to
stop what is registered under the keys that are `due`. -/
structure Closes (d₀ : Deployment σ η) (taken : Option Nat) (due : WorkerKey → Prop)
    (d : Deployment σ η) : Prop where
  next : d.workers.next = d₀.workers.next
  running : ∀ w, d.workers.isRunning w = true → d₀.workers.isRunning w = true
  state : d.state = d₀.state
  held : ∀ (key : WorkerKey) w, key.registered? d₀ = some w →
    key.registered? d = some w ∨ taken = some w ∨ d.workers.IsStopped w
  known : ∀ (key : WorkerKey) w, key.registered? d = some w → due key

variable {d₀ d : Deployment σ η} {taken : Option Nat} {due due' : WorkerKey → Prop}

/-- Only what is said of registered keys matters. -/
theorem Closes.congr (h : Closes d₀ taken due d)
    (hdue : ∀ (key : WorkerKey) w, key.registered? d = some w → due key → due' key) :
    Closes d₀ taken due' d :=
  { h with known := fun key w hw => hdue key w hw (h.known key w hw) }

theorem Closes.undergoes {d' : Deployment σ η} (h : Closes d₀ taken due d)
    (hundergoes : Undergoes d d') : Closes d₀ taken due d' where
  next := hundergoes.next.trans h.next
  running w hw := h.running w (hundergoes.running w hw)
  state := hundergoes.state.trans h.state
  held key w hw := by
    rw [WorkerKey.registered?_congr hundergoes.servers hundergoes.clients]
    exact (h.held key w hw).imp_right (Or.imp_right (hundergoes.stopped w))
  known key w hw := by
    rw [WorkerKey.registered?_congr hundergoes.servers hundergoes.clients] at hw
    exact h.known key w hw

theorem Closes.stop {w : Nat} (h : Closes d₀ (some w) due d) (hd₀ : d₀.Rostered) (os : Host η) :
    Closes d₀ none due (d.stop os w).2 where
  next := by rw [Managers.workers_stop, Workforce.next_stop, h.next]
  running v hv := by
    rw [Managers.workers_stop] at hv
    exact h.running v (Workforce.isRunning_stop hv).1
  state := (state_stop os w d).trans h.state
  held key v hv := by
    rw [Managers.registered?_stop, Managers.workers_stop]
    rcases h.held key v hv with hkept | htaken | hstopped
    · exact Or.inl hkept
    · -- What was registered is one of the workers that there are.
      obtain rfl := Option.some.inj htaken
      have hlt : w < d.workers.next := by
        rw [h.next]
        exact hd₀.employed key w hv
      exact Or.inr (Or.inr (Workforce.isStopped_stop_self hlt))
    · exact Or.inr (Or.inr (hstopped.stop w))
  known key v hv := by
    rw [Managers.registered?_stop] at hv
    exact h.known key v hv

/-- What a sweep takes out it goes on to stop, and the keys that it has not come to are due. -/
theorem Closes.sweep {keys : List WorkerKey}
    (h : Closes d₀ none (fun key => key ∈ keys ∨ due key) d) (n : Nat) :
    let (call, d') := Managers.sweep keys n d
    call.isStop = true ∧
      Closes d₀ call.stopping? (fun key => key ∈ call.keys ∨ due key) d' := by
  have hsweeps := Managers.sweeps_sweep keys n d
  generalize Managers.sweep keys n d = r at hsweeps ⊢
  cases hsweeps with
  | nothing hfree =>
    refine ⟨rfl, h.congr fun key w hw hdue => Or.inr (hdue.resolve_left fun hmem => ?_)⟩
    cases (hfree key hmem).symm.trans hw
  | @found before key rest w hkeys hfree hw =>
    refine ⟨rfl, ?_⟩
    have hworkers := WorkerKey.workers_erase key d
    have hstate : (key.erase d).state = d.state := by cases key <;> rfl
    -- Only the key that is taken out changes: its worker is the one that is being stopped now.
    constructor
    case next => rw [hworkers, h.next]
    case running => exact fun v hv => h.running v (by rwa [hworkers] at hv)
    case state => exact hstate.trans h.state
    case held =>
      intro k v hv
      rw [hworkers]
      rcases h.held k v hv with hkept | htaken | hstopped
      · by_cases hk : k = key
        · subst hk
          exact Or.inr (Or.inl (hw.symm.trans hkept))
        · rw [WorkerKey.registered?_erase_of_ne hk]
          exact Or.inl hkept
      · cases htaken
      · exact Or.inr (Or.inr hstopped)
    case known =>
      intro k v hv
      have hk : k ≠ key := by
        rintro rfl
        rw [WorkerKey.registered?_erase_self] at hv
        cases hv
      rw [WorkerKey.registered?_erase_of_ne hk] at hv
      refine (h.known k v hv).imp_left fun hmem => ?_
      rw [hkeys] at hmem
      rcases List.mem_append.mp hmem with hbefore | hafter
      · cases (hfree k hbefore).symm.trans hv
      · exact (List.mem_cons.mp hafter).resolve_left hk

/-- When nothing is due, nothing is registered, and what was has been stopped. -/
theorem Closes.isStopped (h : Closes d₀ none (fun _ => False) d) {key : WorkerKey} {w : Nat}
    (hw : key.registered? d₀ = some w) : d.workers.IsStopped w := by
  rcases h.held key w hw with hkept | htaken | hstopped
  · exact (h.known key w hkept).elim
  · cases htaken
  · exact hstopped

/-- A worker that ran was registered, so none runs when nothing is due. -/
theorem Closes.idle (h : Closes d₀ none (fun _ => False) d) (hd₀ : d₀.Tended) (w : Nat) :
    d.workers.isRunning w = false := by
  refine Bool.eq_false_iff.mpr fun hrunning => ?_
  obtain ⟨key, hkey⟩ := hd₀ w (h.running w hrunning)
  obtain ⟨worker, hfind, hstate⟩ := h.isStopped hkey
  rw [Workforce.isRunning, hfind] at hrunning
  simp [hstate] at hrunning

theorem Closes.free (h : Closes d₀ none (fun _ => False) d) (key : WorkerKey) :
    key.registered? d = none :=
  Option.eq_none_iff_forall_ne_some.mpr fun w hw => h.known key w hw

end Deployment

namespace ClosingPhase

/-- The worker that a shutdown is stopping. -/
def taken : ClosingPhase → Option Nat
  | .stopping call _ => call.stopping?
  | _ => none

/-- Whether a shutdown is still going to stop what is registered under a key. -/
def IsDue : ClosingPhase → WorkerKey → Prop
  | .stopping call rest, key => key ∈ call.keys ∨ ∃ c ∈ rest, c.covers key = true
  | .draining, _ => False
  | .ended, _ => False

/-- Whether what a shutdown has still before it are stops. -/
def Planned : ClosingPhase → Prop
  | .stopping call rest => call.isStop = true ∧ ∀ c ∈ rest, c.isClosing = true
  | _ => True

theorem isOver_iff {phase : ClosingPhase} : phase.isOver = true ↔ phase = .ended := by
  cases phase <;> simp [isOver]

/-- Whether the stops of a shutdown are through. -/
def IsThrough : ClosingPhase → Prop
  | .stopping _ _ => False
  | _ => True

end ClosingPhase

namespace Incident

/-- The workers of the recorder that take a turn in an incident. -/
def turns : Incident η → List Nat
  | .work i => [i]
  | _ => []

/-- While no worker runs, nothing is submitted, and only turns touch the way of records. -/
theorem apply_of_idle {d : Deployment σ η} (hidle : ∀ w, d.workers.isRunning w = false)
    (i : Incident η) : i.records d = [] ∧
      (i.apply d).outlet = i.turns.foldl (fun outlet k => outlet.work k) d.outlet := by
  have hnone : ∀ w, d.task? w = none := by
    intro w
    have hw := hidle w
    rw [Workforce.isRunning] at hw
    rw [task?]
    split
    · rename_i hfind
      rw [hfind] at hw
      cases hw
    · rfl
  cases i with
  | exit os w code => exact ⟨rfl, outlet_exit os w code d⟩
  | cycle ping ended w =>
    rw [records, apply, hnone, cycle_of_none (hnone w)]
    exact ⟨rfl, rfl⟩
  | submit w r =>
    rw [records, apply, hnone]
    exact ⟨rfl, rfl⟩
  | work k => exact ⟨rfl, rfl⟩
  | elsewhere host => exact ⟨rfl, rfl⟩

end Incident

/-- Whether an event is a step of the shutdown itself or of a worker of the recorder. -/
def ClosingEvent.isOwn : ClosingEvent η → Bool
  | .proceed => true
  | .incident (.work _) => true
  | _ => false

namespace Closing

/-- What is true of a shutdown of an agent on its way: its stops are as far as its phase says, and
a recorder with whose workers it waits has been told to stop. -/
structure Sound (a : Agent σ η) (s : Closing σ η) : Prop where
  agent : s.agent = a.put s.agent.deployment
  planned : s.phase.Planned
  closes : Closes a.deployment s.phase.taken s.phase.IsDue s.agent.deployment
  told : s.phase = .draining →
    ∃ r, s.agent.deployment.outlet = .recorder r ∧ r.stopping = true

variable {a : Agent σ η} {s : Closing σ η}

theorem sound_begin (h : Tidy a.scopes a.deployment) : Sound a (begin a) where
  agent := rfl
  planned := ⟨rfl, isClosing_plan a.scopes⟩
  closes := {
    next := rfl
    running := fun _ hw => hw
    state := rfl
    held := fun _ _ hw => Or.inl hw
    known := fun key w hw => Or.inr (exists_covers (h.sited key w hw)) }
  told := by rintro ⟨⟩

/-- When its stops are through, nothing is due. -/
theorem Sound.through (h : Sound a s) (hthrough : s.phase.IsThrough) :
    Closes a.deployment none (fun _ => False) s.agent.deployment := by
  have hcloses := h.closes
  cases hphase : s.phase <;> rw [hphase] at hthrough hcloses
  · exact hthrough.elim
  · exact hcloses
  · exact hcloses

theorem Sound.incident (h : Sound a s) (ha : Tidy a.scopes a.deployment) (i : Incident η) :
    Sound a (s.moved s.phase (i.apply s.agent.deployment)) where
  agent := by
    rw [moved, h.agent]
    rfl
  planned := h.planned
  closes := h.closes.undergoes (undergoes_apply s.agent.deployment i)
  told hphase := by
    obtain ⟨r, hr, hstopping⟩ := h.told hphase
    have hphase : s.phase = .draining := hphase
    have hidle := (h.through (by rw [hphase]; trivial)).idle ha.tended
    -- No worker runs, so nothing but a turn of its own workers touches the recorder.
    show ∃ r, (i.apply s.agent.deployment).outlet = .recorder r ∧ r.stopping = true
    rw [(i.apply_of_idle hidle).2, hr]
    cases i with
    | work k =>
      exact ⟨r.step Archive.persistQueued k, rfl,
        (Recorder.drains_step Archive.persistQueued hstopping k).stopping⟩
    | _ => exact ⟨r, rfl, hstopping⟩

/-- The last stop of a shutdown has ended. -/
theorem Sound.stopRecorder (h : Sound a s)
    (hcloses : Closes a.deployment none (fun _ => False) s.agent.deployment) :
    Sound a s.stopRecorder := by
  rw [Closing.stopRecorder]
  split
  · rename_i r hr
    exact {
      agent := by rw [moved, h.agent]; rfl
      planned := trivial
      closes := hcloses.undergoes (undergoes_of_keeps ⟨rfl, rfl, rfl⟩ rfl)
      told := fun _ => ⟨_, rfl, rfl⟩ }
  · exact ⟨h.agent, trivial, hcloses, by rintro ⟨⟩⟩

theorem Sound.awaitRecorder (h : Sound a s) (hphase : s.phase = .draining) :
    Sound a s.awaitRecorder := by
  have hcloses := h.through (by rw [hphase]; trivial)
  rw [Closing.awaitRecorder]
  split
  · split
    · exact {
        agent := by rw [moved, h.agent]; rfl
        planned := trivial
        closes := hcloses.undergoes (undergoes_of_keeps ⟨rfl, rfl, rfl⟩ rfl)
        told := by rintro ⟨⟩ }
    · exact h
  · exact ⟨h.agent, trivial, hcloses, by rintro ⟨⟩⟩

variable [DesiredStore σ]

/-- A stop goes on to its next pause, or the next stop begins. -/
theorem Sound.stopping (h : Sound a s) (ha : Tidy a.scopes a.deployment) (os : Host η)
    {call : CallPhase} {rest : List ManagerCall} (hphase : s.phase = .stopping call rest) :
    Sound a (s.proceed os) := by
  obtain ⟨hagent, hplanned, hcloses, -⟩ := h
  rw [hphase] at hplanned hcloses
  obtain ⟨hstop, hrest⟩ := hplanned
  have hput : ∀ d, s.agent.put d = a.put d := fun d => by rw [hagent]; rfl
  have hmoved : ∀ phase d, phase.Planned → Closes a.deployment phase.taken phase.IsDue d →
      phase ≠ .draining → Sound a (s.moved phase d) := fun phase d hplanned hcloses hne =>
    ⟨hput d, hplanned, hcloses, fun heq => absurd heq hne⟩
  rw [proceed, hphase]
  cases call with
  | removed w keys n =>
    -- The handle of the worker is taken.
    exact hmoved _ _ ⟨rfl, hrest⟩ hcloses (by rintro ⟨⟩)
  | stopping w keys n =>
    -- The worker has stopped, and the sweep goes on behind its key.
    obtain ⟨hstop, hswept⟩ := (hcloses.stop ha.rostered os).sweep (n + 1)
    exact hmoved _ _ ⟨hstop, hrest⟩ hswept (by rintro ⟨⟩)
  | stopped n =>
    cases rest with
    | nil =>
      -- No stop is left, so nothing is due any more.
      refine Sound.stopRecorder ⟨hagent, hphase ▸ ⟨hstop, hrest⟩, hphase ▸ hcloses, ?_⟩
        (hcloses.congr fun key w hw hdue => ?_)
      · rw [hphase]
        rintro ⟨⟩
      · rcases hdue with hmem | ⟨c, hmem, -⟩
        · cases hmem
        · cases hmem
    | cons c rest =>
      obtain ⟨hc, hrest⟩ := List.forall_mem_cons.mp hrest
      -- What the next stop covers is registered under one of its keys.
      have hdue : Closes a.deployment none (fun key => key ∈ c.keys s.agent.deployment ∨
          ∃ c ∈ rest, c.covers key = true) s.agent.deployment := by
        refine hcloses.congr fun key w hw hdue => ?_
        rcases hdue with hmem | ⟨c', hmem, hcovers⟩
        · cases hmem
        · rcases List.mem_cons.mp hmem with rfl | hmem
          · exact Or.inl (ManagerCall.mem_keys hcovers hw)
          · exact Or.inr ⟨c', hmem, hcovers⟩
      obtain ⟨hstop, hswept⟩ := hdue.sweep 0
      simp only [CallPhase.isOver, if_true, ManagerCall.begin_eq hc]
      exact hmoved _ _ ⟨hstop, hrest⟩ hswept (by rintro ⟨⟩)
  | _ => cases hstop

theorem Sound.step (h : Sound a s) (ha : Tidy a.scopes a.deployment) (os : Host η)
    (e : ClosingEvent η) : Sound a (s.step os e) := by
  cases e with
  | incident i => exact h.incident ha i
  | proceed =>
    show Sound a (s.proceed os)
    cases hphase : s.phase with
    | stopping call rest => exact h.stopping ha os hphase
    | draining =>
      rw [proceed, hphase]
      exact h.awaitRecorder hphase
    | ended =>
      rw [proceed, hphase]
      exact h

theorem sound_run (h : Tidy a.scopes a.deployment) (os : Host η)
    (events : List (ClosingEvent η)) : Sound a ((begin a).run os events) := by
  suffices hrun : ∀ s : Closing σ η, Sound a s → Sound a (s.run os events) from
    hrun _ (sound_begin h)
  induction events with
  | nil => exact fun s hs => hs
  | cons e rest ih => exact fun s hs => ih _ (hs.step h os e)

/-! ## A shutdown comes to its end -/

/-- A shutdown can go on by itself from one place to another. -/
def Leads (os : Host η) (s s' : Closing σ η) : Prop :=
  ∃ own : List (ClosingEvent η), (∀ e ∈ own, e.isOwn = true) ∧ s.run os own = s'

variable {os : Host η} {s' s'' : Closing σ η}

theorem Leads.refl (os : Host η) (s : Closing σ η) : Leads os s s := ⟨[], by simp, rfl⟩

theorem Leads.trans (h : Leads os s s') (h' : Leads os s' s'') : Leads os s s'' := by
  obtain ⟨own, hown, rfl⟩ := h
  obtain ⟨own', hown', rfl⟩ := h'
  exact ⟨own ++ own', List.forall_mem_append.mpr ⟨hown, hown'⟩, List.foldl_append⟩

/-- What an own event leads to. -/
theorem Leads.step {e : ClosingEvent η} (he : e.isOwn = true) (h : Leads os (s.step os e) s') :
    Leads os s s' := by
  obtain ⟨own, hown, hrun⟩ := h
  exact ⟨e :: own, List.forall_mem_cons.mpr ⟨he, hown⟩, hrun⟩

/-- A stop goes through its keys. -/
theorem leads_sweep (os : Host η) (a : Agent σ η) (keys : List WorkerKey) (n : Nat)
    (d : Deployment σ η) (rest : List ManagerCall) :
    ∃ m, Leads os ⟨a.put (Managers.sweep keys n d).2, .stopping (Managers.sweep keys n d).1 rest⟩
      ⟨a.put (dismissEach os keys d).2, .stopping (.stopped m) rest⟩ := by
  induction keys generalizing n d with
  | nil => exact ⟨n, .refl os _⟩
  | cons key keys ih =>
    rw [Managers.sweep, dismissEach, WorkerKey.dismiss]
    cases hw : key.registered? d with
    | none =>
      obtain ⟨m, hrest⟩ := ih n d
      refine ⟨m, ?_⟩
      dsimp only
      rw [WorkerKey.erase_of_free hw]
      exact hrest
    | some w =>
      -- It pauses before it takes the handle and until the worker has stopped.
      obtain ⟨m, hrest⟩ := ih (n + 1) ((key.erase d).stop os w).2
      exact ⟨m, .step (e := .proceed) rfl (.step (e := .proceed) rfl hrest)⟩

/-- What some stops leave. -/
def stopEach (os : Host η) (calls : List ManagerCall) (d : Deployment σ η) : Deployment σ η :=
  calls.foldl (fun d c => (dismissEach os (c.keys d) d).2) d

theorem leads_stops (os : Host η) (a : Agent σ η) {calls : List ManagerCall}
    (hcalls : ∀ c ∈ calls, c.isClosing = true) (n : Nat) (d : Deployment σ η) :
    ∃ m, Leads os ⟨a.put d, .stopping (.stopped n) calls⟩
      ⟨a.put (stopEach os calls d), .stopping (.stopped m) []⟩ := by
  induction calls generalizing n d with
  | nil => exact ⟨n, .refl os _⟩
  | cons c calls ih =>
    obtain ⟨hc, hrest⟩ := List.forall_mem_cons.mp hcalls
    obtain ⟨k, hfirst⟩ := leads_sweep os a (c.keys d) 0 d calls
    obtain ⟨m, hlater⟩ := ih hrest k (dismissEach os (c.keys d) d).2
    refine ⟨m, .step (e := .proceed) rfl ?_⟩
    have hbegin : step os ⟨a.put d, .stopping (.stopped n) (c :: calls)⟩ .proceed =
        ⟨a.put (Managers.sweep (c.keys d) 0 d).2,
          .stopping (Managers.sweep (c.keys d) 0 d).1 calls⟩ := by
      rw [← ManagerCall.begin_eq hc]
      rfl
    rw [hbegin]
    exact hfirst.trans hlater

omit [DesiredStore σ] in
theorem stopEach_plan (os : Host η) (scopes : List Scope) (d : Deployment σ η) :
    stopEach os (plan scopes) d = Agent.stopScopes os scopes d := by
  induction scopes generalizing d with
  | nil => rfl
  | cons scope rest ih =>
    have hservers : ∀ d : Deployment σ η, Servers.stopAll os scope d =
        dismissEach os ((ManagerCall.stopAllServers scope).keys d) d := by
      intro d
      rw [Servers.stopAll, Servers.stopKeys_eq]
      rfl
    calc stopEach os (plan (scope :: rest)) d
        = stopEach os (plan rest) (dismissEach os ((ManagerCall.stopAllServers scope).keys
            (Clients.stop os scope.name d).2) (Clients.stop os scope.name d).2).2 := rfl
      _ = Agent.stopScopes os rest
            (Servers.stopAll os scope (Clients.stop os scope.name d).2).2 := by
        rw [hservers, ih]
      _ = Agent.stopScopes os (scope :: rest) d := rfl

/-- The workers of the recorder take some turns. -/
theorem leads_turns (os : Host η) (a : Agent σ η) (d : Deployment σ η) (r : ArchiveRecorder)
    (turns : List Nat) :
    Leads os ⟨a.put { d with outlet := .recorder r }, .draining⟩
      ⟨a.put { d with outlet := .recorder (r.run Archive.persistQueued (turns.map .work)) },
        .draining⟩ := by
  induction turns generalizing r with
  | nil => exact .refl os _
  | cons k turns ih => exact .step (e := .incident (.work k)) rfl (ih _)

/-- A recorder that has been told to stop comes to its end. -/
theorem leads_drained (os : Host η) (a : Agent σ η) (d : Deployment σ η) (r : ArchiveRecorder) :
    Leads os ⟨a.put { d with outlet := .recorder { r with stopping := true } }, .draining⟩
      ⟨a.put { d with outlet := .stopped (r.stop Archive.persistQueued) }, .ended⟩ := by
  let ended := Recorder.rounds Archive.persistQueued r.enough { r with stopping := true }
  obtain ⟨turns, hturns⟩ :=
    Recorder.exists_turns Archive.persistQueued r.enough { r with stopping := true }
  have hdrained := leads_turns os a d { r with stopping := true } turns
  rw [← hturns] at hdrained
  refine hdrained.trans (.step (e := .proceed) rfl ?_)
  have hover : step os ⟨a.put { d with outlet := .recorder ended }, .draining⟩ .proceed =
      ⟨a.put { d with outlet := .stopped ended.finish }, .ended⟩ := by
    rw [step, proceed, awaitRecorder]
    dsimp only [Agent.put]
    rw [if_pos (Recorder.isOver_stop Archive.persistQueued r)]
    rfl
  rw [hover]
  exact .refl os _

theorem leads_close (os : Host η) (a : Agent σ η) (n : Nat) (d : Deployment σ η) :
    Leads os ⟨a.put d, .stopping (.stopped n) []⟩
      ⟨a.put { d with outlet := d.outlet.close }, .ended⟩ := by
  obtain ⟨state, servers, clients, workers, host, outlet, notices⟩ := d
  refine .step (e := .proceed) rfl ?_
  cases outlet with
  | recorder r => exact leads_drained os a ⟨state, servers, clients, workers, host, _, notices⟩ r
  | _ => exact .refl os _

/-- A shutdown that nothing interrupts. -/
theorem leads_shutdown (os : Host η) (a : Agent σ η) :
    Leads os (begin a) ⟨a.shutdown os, .ended⟩ := by
  obtain ⟨m, hstops⟩ := leads_stops os a (isClosing_plan a.scopes) 0 a.deployment
  rw [stopEach_plan] at hstops
  have hclosed := hstops.trans (leads_close os a m _)
  rw [Agent.outlet_stopScopes, ← Agent.shutdown_eq] at hclosed
  exact hclosed

/-- A stop in progress goes on to its end. -/
theorem leads_stopped (os : Host η) (a : Agent σ η) {call : CallPhase} (hstop : call.isStop = true)
    (d : Deployment σ η) (rest : List ManagerCall) :
    ∃ m d', Leads os ⟨a.put d, .stopping call rest⟩ ⟨a.put d', .stopping (.stopped m) rest⟩ := by
  cases call with
  | removed w keys n =>
    obtain ⟨m, hrest⟩ := leads_sweep os a keys (n + 1) (d.stop os w).2 rest
    exact ⟨m, _, .step (e := .proceed) rfl (.step (e := .proceed) rfl hrest)⟩
  | stopping w keys n =>
    obtain ⟨m, hrest⟩ := leads_sweep os a keys (n + 1) (d.stop os w).2 rest
    exact ⟨m, _, .step (e := .proceed) rfl hrest⟩
  | stopped n => exact ⟨n, d, .refl os _⟩
  | _ => cases hstop

/-- From wherever it is, a shutdown can go on to its end. -/
theorem Sound.exists_over (h : Sound a s) (os : Host η) :
    ∃ s', Leads os s s' ∧ s'.phase.isOver = true := by
  obtain ⟨agent, phase⟩ := s
  obtain ⟨hagent, hplanned, -, htold⟩ := h
  obtain ⟨d, rfl⟩ : ∃ d, agent = a.put d := ⟨_, hagent⟩
  cases phase with
  | stopping call rest =>
    obtain ⟨hstop, hrest⟩ := hplanned
    obtain ⟨n, d', hcall⟩ := leads_stopped os a hstop d rest
    obtain ⟨m, hcalls⟩ := leads_stops os a hrest n d'
    exact ⟨_, hcall.trans (hcalls.trans (leads_close os a m _)), rfl⟩
  | draining =>
    -- The recorder was told to stop, so it is where its own stop would have it.
    obtain ⟨r, hr, hstopping⟩ := htold rfl
    have hsame : { d with outlet := .recorder { r with stopping := true } } = d := by
      obtain ⟨state, servers, clients, workers, host, outlet, notices⟩ := d
      obtain rfl : outlet = .recorder r := hr
      rw [← hstopping]
    have hdrained := leads_drained os a d r
    rw [hsame] at hdrained
    exact ⟨_, hdrained, rfl⟩
  | ended => exact ⟨_, .refl os _, rfl⟩

end Closing

end PolicyProbe
