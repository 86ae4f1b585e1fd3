import PolicyProbe.Deployment

/-!
What the operations of a deployment leave as it is. Starting a worker adds at most one worker and
registers none; a worker that is stopped or ends by itself does not run again, and no worker ever
runs something else. Logging, records and sockets touch neither workers nor registries
(`Deployment.Keeps`), and of all this nothing touches the desired state.
-/
namespace PolicyProbe

namespace Workforce

/-- What a worker runs, or ran. -/
def runnable? (w : Nat) (f : Workforce) : Option Runnable := (f.find? w).map (·.runnable)

theorem lt_next_of_runnable? {w : Nat} {f : Workforce} {r : Runnable}
    (h : f.runnable? w = some r) : w < f.next := by
  obtain ⟨worker, hw, -⟩ := Option.map_eq_some_iff.mp h
  exact (List.getElem?_eq_some_iff.mp hw).1

theorem lt_next_of_isRunning {w : Nat} {f : Workforce} (h : f.isRunning w = true) : w < f.next := by
  refine Classical.byContradiction fun hlt => ?_
  have hnone : f.find? w = none := List.getElem?_eq_none (Nat.le_of_not_lt hlt)
  rw [isRunning, hnone] at h
  exact Bool.noConfusion h

theorem exitCode?_of_next_le {w : Nat} {f : Workforce} (h : f.next ≤ w) : f.exitCode? w = none := by
  have hnone : f.find? w = none := List.getElem?_eq_none h
  rw [exitCode?, hnone]

theorem next_add (worker : Worker) (f : Workforce) : (f.add worker).next = f.next + 1 := by
  simp [add, next]

theorem find?_add_of_lt {w : Nat} {f : Workforce} (h : w < f.next) (worker : Worker) :
    (f.add worker).find? w = f.find? w := List.getElem?_append_left h

theorem find?_add_next (worker : Worker) (f : Workforce) :
    (f.add worker).find? f.next = some worker := by
  simp [add, find?, next]

theorem isRunning_add {w : Nat} {worker : Worker} {f : Workforce}
    (h : (f.add worker).isRunning w = true) :
    f.isRunning w = true ∨ w = f.next ∧ worker.state = .running := by
  have hlt := lt_next_of_isRunning h
  rw [next_add] at hlt
  rcases Nat.lt_succ_iff_lt_or_eq.mp hlt with hw | rfl
  · left
    rwa [isRunning, find?_add_of_lt hw] at h
  · right
    rw [isRunning, find?_add_next] at h
    exact ⟨rfl, by simpa using h⟩

/-- Workers may have come, and those that there were are the same. -/
structure Grows (f f' : Workforce) : Prop where
  next : f.next ≤ f'.next
  same : ∀ w, w < f.next → f'.find? w = f.find? w

namespace Grows

theorem of_eq {f f' : Workforce} (h : f' = f) : Grows f f' := by
  subst h
  exact ⟨Nat.le_refl _, fun _ _ => rfl⟩

theorem trans {f f' f'' : Workforce} (h : Grows f f') (h' : Grows f' f'') : Grows f f'' where
  next := Nat.le_trans h.next h'.next
  same w hw := (h'.same w (Nat.lt_of_lt_of_le hw h.next)).trans (h.same w hw)

theorem runnable? {f f' : Workforce} (h : Grows f f') {w : Nat} {r : Runnable}
    (hr : f.runnable? w = some r) : f'.runnable? w = some r := by
  rwa [Workforce.runnable?, h.same w (lt_next_of_runnable? hr)]

theorem isRunning {f f' : Workforce} (h : Grows f f') {w : Nat} (hw : w < f.next) :
    f'.isRunning w = f.isRunning w := by
  rw [Workforce.isRunning, h.same w hw, Workforce.isRunning]

theorem exitCode? {f f' : Workforce} (h : Grows f f') {w : Nat} (hw : w < f.next) :
    f'.exitCode? w = f.exitCode? w := by
  rw [Workforce.exitCode?, h.same w hw, Workforce.exitCode?]

end Grows

theorem grows_add (worker : Worker) (f : Workforce) : Grows f (f.add worker) where
  next := by
    rw [next_add]
    exact Nat.le_succ _
  same w hw := find?_add_of_lt hw worker

/-- A worker that was not stopped runs, or it is a process that exited. -/
theorem isRunning_of_exitCode? {w : Nat} {worker : Worker} {f : Workforce}
    (hfind : f.find? w = some worker)
    (hrunning : worker.state = .running ∨
      worker.kind = .process ∧ ∃ code, worker.state = .exited code)
    (hexit : f.exitCode? w = none) : f.isRunning w = true := by
  obtain ⟨runnable, kind, state, client⟩ := worker
  rcases hrunning with rfl | ⟨rfl, code, rfl⟩
  · rw [isRunning, hfind]
    rfl
  · rw [exitCode?, hfind] at hexit
    exact nomatch hexit

theorem next_change (w : Nat) (g : Worker → Worker) (f : Workforce) :
    (f.change w g).next = f.next := by
  simp [change, next]

theorem find?_change (w v : Nat) (g : Worker → Worker) (f : Workforce) :
    (f.change w g).find? v = if w = v then (f.find? v).map g else f.find? v := by
  rw [change, find?, List.getElem?_modify, find?]
  by_cases h : w = v <;> simp [h]

/-- A change of a worker that leaves what it runs leaves what all workers run. -/
theorem runnable?_change {g : Worker → Worker}
    (hg : ∀ worker, (g worker).runnable = worker.runnable) (w v : Nat) (f : Workforce) :
    (f.change w g).runnable? v = f.runnable? v := by
  rw [runnable?, find?_change, runnable?]
  split
  · rw [Option.map_map]
    exact congrArg (Option.map · _) (funext hg)
  · rfl

/-- A worker that is put into another state than running does not run. -/
theorem isRunning_change {w v : Nat} {state : WorkerState} (hs : state ≠ .running) {f : Workforce}
    (h : (f.change w fun worker => { worker with state }).isRunning v = true) :
    f.isRunning v = true ∧ v ≠ w := by
  rw [isRunning, find?_change] at h
  by_cases hv : w = v
  · rw [if_pos hv] at h
    cases hf : f.find? v with
    | none =>
      rw [hf] at h
      exact Bool.noConfusion h
    | some worker =>
      -- The worker itself is in its new state, so it is not the one that runs.
      rw [hf] at h
      exact absurd (by simpa using h) hs
  · rw [if_neg hv] at h
    exact ⟨h, Ne.symm hv⟩

/-- A change of a worker that leaves its state leaves which workers run. -/
theorem isRunning_change_eq {g : Worker → Worker} (hg : ∀ worker, (g worker).state = worker.state)
    (w v : Nat) (f : Workforce) : (f.change w g).isRunning v = f.isRunning v := by
  rw [isRunning, find?_change, isRunning]
  by_cases hv : w = v
  · rw [if_pos hv]
    cases f.find? v with
    | none => rfl
    | some worker => exact congrArg (· == .running) (hg worker)
  · rw [if_neg hv]

theorem next_stop (w : Nat) (f : Workforce) : (f.stop w).2.next = f.next := by
  unfold stop
  split
  · split
    · rfl
    · exact next_change w _ f
  · rfl

theorem isRunning_stop {w v : Nat} {f : Workforce} (h : (f.stop w).2.isRunning v = true) :
    f.isRunning v = true ∧ v ≠ w := by
  unfold stop at h
  split at h
  · rename_i worker hw
    split at h
    · rename_i hstopped
      refine ⟨h, ?_⟩
      rintro rfl
      rw [isRunning, hw] at h
      rw [beq_iff_eq] at hstopped
      dsimp only at h
      rw [hstopped] at h
      exact Bool.noConfusion h
    · exact isRunning_change (by nofun) h
  · rename_i hw
    refine ⟨h, ?_⟩
    rintro rfl
    rw [isRunning, hw] at h
    exact Bool.noConfusion h

theorem runnable?_stop (w v : Nat) (f : Workforce) :
    (f.stop w).2.runnable? v = f.runnable? v := by
  unfold stop
  split
  · split
    · rfl
    · exact runnable?_change (fun _ => by rfl) w v f
  · rfl

theorem find?_stop_of_ne {w v : Nat} (h : v ≠ w) (f : Workforce) :
    (f.stop w).2.find? v = f.find? v := by
  unfold stop
  split
  · split
    · rfl
    · rw [find?_change, if_neg (Ne.symm h)]
  · rfl

/-- Whether a worker has been stopped. -/
def IsStopped (w : Nat) (f : Workforce) : Prop :=
  ∃ worker, f.find? w = some worker ∧ worker.state = .stopped

theorem isStopped_stop_self {w : Nat} {f : Workforce} (h : w < f.next) :
    (f.stop w).2.IsStopped w := by
  have hfind : f.find? w = some f.members[w] := List.getElem?_eq_getElem h
  unfold stop
  rw [hfind]
  dsimp only
  split
  · rename_i hstopped
    exact ⟨_, hfind, by simpa using hstopped⟩
  · exact ⟨_, by rw [find?_change, if_pos rfl, hfind]; rfl, rfl⟩

theorem IsStopped.stop {v : Nat} {f : Workforce} (h : f.IsStopped v) (w : Nat) :
    (f.stop w).2.IsStopped v := by
  obtain ⟨worker, hfind, hstopped⟩ := h
  by_cases hv : v = w
  · subst hv
    exact isStopped_stop_self (List.getElem?_eq_some_iff.mp hfind).1
  · exact ⟨worker, (find?_stop_of_ne hv f).trans hfind, hstopped⟩

/-- A change of a worker that leaves its state leaves which workers have been stopped. -/
theorem isStopped_change_eq {g : Worker → Worker} (hg : ∀ worker, (g worker).state = worker.state)
    (w v : Nat) (f : Workforce) : (f.change w g).IsStopped v ↔ f.IsStopped v := by
  rw [IsStopped, find?_change]
  split
  · constructor
    · rintro ⟨worker, hfind, hstate⟩
      obtain ⟨old, hold, rfl⟩ := Option.map_eq_some_iff.mp hfind
      exact ⟨old, hold, (hg old).symm.trans hstate⟩
    · rintro ⟨old, hold, hstate⟩
      exact ⟨g old, Option.map_eq_some_iff.mpr ⟨old, hold, rfl⟩, (hg old).trans hstate⟩
  · exact Iff.rfl

theorem IsStopped.exit {v : Nat} {f : Workforce} (h : f.IsStopped v) (w code : Nat) :
    (f.exit w code).IsStopped v := by
  rw [Workforce.exit]
  split
  · rename_i hrunning
    obtain ⟨worker, hfind, hstopped⟩ := h
    have hne : w ≠ v := by
      rintro rfl
      rw [isRunning, hfind] at hrunning
      simp [hstopped] at hrunning
    exact ⟨worker, by rw [find?_change, if_neg hne, hfind], hstopped⟩
  · exact h

theorem next_exit (w code : Nat) (f : Workforce) : (f.exit w code).next = f.next := by
  unfold exit
  split
  · exact next_change w _ f
  · rfl

theorem isRunning_exit {w code v : Nat} {f : Workforce}
    (h : (f.exit w code).isRunning v = true) : f.isRunning v = true := by
  unfold exit at h
  split at h
  · exact (isRunning_change (by nofun) h).1
  · exact h

theorem runnable?_exit (w code v : Nat) (f : Workforce) :
    (f.exit w code).runnable? v = f.runnable? v := by
  unfold exit
  split
  · exact runnable?_change (fun _ => by rfl) w v f
  · rfl

end Workforce

namespace Deployment

variable {σ η : Type}

/-- Workers and registries are the same. -/
structure Keeps (d d' : Deployment σ η) : Prop where
  servers : d'.servers = d.servers
  clients : d'.clients = d.clients
  workers : d'.workers = d.workers

theorem Keeps.refl (d : Deployment σ η) : Keeps d d := ⟨rfl, rfl, rfl⟩

theorem Keeps.trans {d d' d'' : Deployment σ η} (h : Keeps d d') (h' : Keeps d' d'') :
    Keeps d d'' :=
  ⟨h'.servers.trans h.servers, h'.clients.trans h.clients, h'.workers.trans h.workers⟩

theorem keeps_say (n : Notice) (d : Deployment σ η) : Keeps d (d.say n) := ⟨rfl, rfl, rfl⟩

theorem keeps_submit (r : Record) (d : Deployment σ η) : Keeps d (submit r d).2 := by
  unfold submit
  split
  · exact ⟨rfl, rfl, rfl⟩
  · split
    rename_i answer recorder _
    dsimp only
    split <;> exact ⟨rfl, rfl, rfl⟩
  · exact Keeps.refl d

theorem keeps_deliver (rs : List Record) (d : Deployment σ η) :
    Keeps d (Client.deliver submit rs d).2 := by
  induction rs generalizing d with
  | nil => exact Keeps.refl d
  | cons r rs ih => exact (keeps_submit r d).trans (ih _)

theorem keeps_noteFailure (worker : Identifier) (child : Child) (d : Deployment σ η) :
    Keeps d (d.noteFailure worker child) := by
  unfold noteFailure
  split
  · exact keeps_say _ d
  · exact Keeps.refl d

theorem keeps_closeSocket (os : Host η) (w : Nat) (d : Deployment σ η) :
    Keeps d (d.closeSocket os w) := by
  unfold closeSocket
  split
  · exact ⟨rfl, rfl, rfl⟩
  · exact Keeps.refl d

/-! ## Desired state -/

theorem state_submit (r : Record) (d : Deployment σ η) : (submit r d).2.state = d.state := by
  unfold submit
  split
  · rfl
  · split
    dsimp only
    split <;> rfl
  · rfl

theorem state_deliver (rs : List Record) (d : Deployment σ η) :
    (Client.deliver submit rs d).2.state = d.state := by
  induction rs generalizing d with
  | nil => rfl
  | cons r rs ih => exact (ih _).trans (state_submit r d)

theorem state_noteFailure (worker : Identifier) (child : Child) (d : Deployment σ η) :
    (d.noteFailure worker child).state = d.state := by
  unfold noteFailure
  split <;> rfl

theorem state_closeSocket (os : Host η) (w : Nat) (d : Deployment σ η) :
    (d.closeSocket os w).state = d.state := by
  unfold closeSocket
  split <;> rfl

theorem state_stop (os : Host η) (w : Nat) (d : Deployment σ η) : (d.stop os w).2.state = d.state :=
  state_closeSocket os w d

theorem state_exit (os : Host η) (w code : Nat) (d : Deployment σ η) :
    (d.exit os w code).state = d.state :=
  state_closeSocket os w d

/-! ## Starting -/

/-- What starting a worker can do: the new worker is the next one, is for what it was started for,
and runs unless it is a process that exited; or there is none that runs. -/
inductive Started (runnable : Runnable) (d : Deployment σ η) :
    Except TrafficError Nat → Deployment σ η → Prop where
  | employed {d' : Deployment σ η} (worker : Worker) (hrunnable : worker.runnable = runnable)
      (hrunning : worker.state = .running ∨
        worker.kind = .process ∧ ∃ code, worker.state = .exited code) (hstate : d'.state = d.state)
      (hservers : d'.servers = d.servers) (hclients : d'.clients = d.clients)
      (hworkers : d'.workers = d.workers.add worker) :
      Started runnable d (.ok d.workers.next) d'
  | failed {d' : Deployment σ η} (e : TrafficError) (hstate : d'.state = d.state)
      (h : Keeps d d') : Started runnable d (.error e) d'
  | refused {d' : Deployment σ η} (e : TrafficError) (worker : Worker)
      (hstopped : worker.state = .stopped) (hstate : d'.state = d.state)
      (hservers : d'.servers = d.servers) (hclients : d'.clients = d.clients)
      (hworkers : d'.workers = d.workers.add worker) : Started runnable d (.error e) d'

/-- A start registers nothing. -/
theorem Started.registries {runnable : Runnable} {d d' : Deployment σ η}
    {answer : Except TrafficError Nat} (h : Started runnable d answer d') :
    d'.servers = d.servers ∧ d'.clients = d.clients := by
  cases h with
  | employed _ _ _ _ hservers hclients _ => exact ⟨hservers, hclients⟩
  | failed _ _ h => exact ⟨h.servers, h.clients⟩
  | refused _ _ _ _ hservers hclients _ => exact ⟨hservers, hclients⟩

theorem started_startTask (os : Host η) (runnable : Runnable) (d : Deployment σ η) :
    Started runnable d (d.startTask os runnable).1 (d.startTask os runnable).2 := by
  unfold startTask
  split
  · split
    · exact .failed _ rfl ⟨rfl, rfl, rfl⟩
    · exact .employed _ rfl (.inl rfl) rfl rfl rfl rfl
  · exact .employed _ rfl (.inl rfl) rfl rfl rfl rfl

theorem started_startProcess (os : Host η) (path : Option String) (runnable : Runnable)
    (d : Deployment σ η) :
    Started runnable d (d.startProcess os path runnable).1
      (d.startProcess os path runnable).2 := by
  unfold startProcess
  split
  · exact .failed _ rfl ⟨rfl, rfl, rfl⟩
  · rename_i child host _
    dsimp only
    split
    · have hkeeps := keeps_noteFailure (Workforce.identifier d.workers.next) child
        (employ ⟨runnable, .process, .stopped, none⟩ { d with host }).2
      exact .refused _ _ rfl (state_noteFailure _ _ _) hkeeps.servers hkeeps.clients hkeeps.workers
    · rename_i rest _
      have hkeeps := fun worker => keeps_deliver (forwarded (Lines.all rest))
        (employ worker { d with host }).2
      refine .employed _ rfl ?_ (state_deliver _ _) (hkeeps _).servers (hkeeps _).clients
        (hkeeps _).workers
      cases child.exit with
      | none => exact .inl rfl
      | some code => exact .inr ⟨rfl, code, rfl⟩

theorem started_start (os : Host η) (scope : Scope) (runnable : Runnable) (d : Deployment σ η) :
    Started runnable d (d.start os scope runnable).1 (d.start os scope runnable).2 := by
  unfold start
  split
  · exact started_startTask os runnable d
  · exact started_startProcess os _ runnable d

end Deployment

end PolicyProbe
