import PolicyProbe.Manager.Clients
import PolicyProbe.Manager.Servers

/-!
Why a start fails. What a request says about places is checked before anything is done, and a
failure of this kind is a refusal (`TrafficError.isRefusal`). The start of a worker never fails so:
its causes are the host, the worker and the store. This goes from the first line of a process up to
the starts of single servers and clients, one lemma for each layer.
-/
namespace PolicyProbe

/-- Whether a failure is about what a request names: the configuration, a namespace that is unknown,
or an endpoint that is. -/
def TrafficError.isRefusal : TrafficError → Bool
  | .configuration _ | .unknownNamespace _ | .missingEndpoint _ => true
  | _ => false

/-! ## Processes -/

namespace Launcher

/-- A launch that has come to its end with a failure did so for no refusal. -/
def NoRefusal (s : Launch) : Prop := ∀ e, s.phase = .returned (.error e) → e.isRefusal = false

theorem isRefusal_reported (stage : FailureStage) (message : String) :
    (reported stage message).isRefusal = false := by
  cases stage <;> rfl

theorem isRefusal_verdict (l : Launcher) {line : String} {e : TrafficError}
    (h : l.verdict line = .error e) : e.isRefusal = false := by
  rw [verdict] at h
  split at h
  · cases h
  · rename_i stage message _
    cases h
    exact isRefusal_reported stage message
  · cases h
    rfl
  · cases h
    rfl

theorem isRefusal_judge (l : Launcher) {line : List UInt8} {e : TrafficError}
    (h : l.judge line = .error e) : e.isRefusal = false := by
  rw [judge] at h
  split at h
  · exact l.isRefusal_verdict h
  · cases h
    rfl

theorem noRefusal_settle {verdict : Except TrafficError Unit}
    (h : ∀ e, verdict = .error e → e.isRefusal = false) (s : Launch) :
    NoRefusal (settle verdict s) :=
  fun e he => h e (LaunchPhase.returned.inj he)

theorem NoRefusal.look {s : Launch} (h : NoRefusal s) (l : Launcher) : NoRefusal (l.look s) := by
  rw [Launcher.look]
  split
  · exact noRefusal_settle (fun _ => l.isRefusal_judge) _
  · exact h

theorem noRefusal_close (l : Launcher) (s : Launch) : NoRefusal (l.close s) := by
  rw [Launcher.close]
  split
  · split
    · refine noRefusal_settle (fun e he => ?_) _
      cases he
      rfl
    · intro e he
      cases he
  · exact noRefusal_settle (fun _ => l.isRefusal_judge) _

theorem NoRefusal.reap {s : Launch} (h : NoRefusal s) (l : Launcher) (status : Nat) :
    NoRefusal (l.reap status s) := by
  rw [Launcher.reap]
  dsimp only
  split
  · refine noRefusal_settle (fun e he => ?_) _
    cases he
    rfl
  · exact h

theorem NoRefusal.step {s : Launch} (h : NoRefusal s) (l : Launcher) (event : ChildEvent) :
    NoRefusal (l.step s event) := by
  have hsettled : ∀ (before after : String) t,
      NoRefusal (settle (.error (l.refusal before after)) t) := by
    intro before after t
    refine noRefusal_settle (fun e he => ?_) t
    cases he
    rfl
  cases event with
  | output bytes =>
    have hread : NoRefusal { s with unread := s.unread ++ bytes } := h
    rw [Launcher.step]
    dsimp only
    split
    · exact hread.look l
    · exact hread
  | closed =>
    rw [Launcher.step]
    split
    · exact noRefusal_close l s
    · exact h
  | faulted text =>
    rw [Launcher.step]
    split
    · exact hsettled _ _ s
    · exact h
  | exited code => exact h.reap l _
  | signalled signal => exact h.reap l signal
  | expired =>
    rw [Launcher.step]
    split
    · exact hsettled _ _ s
    · exact h

theorem noRefusal_run (l : Launcher) (events : List ChildEvent) : NoRefusal (l.run events) := by
  have hfold : ∀ s, NoRefusal s → NoRefusal (events.foldl l.step s) := by
    induction events with
    | nil => exact fun _ hs => hs
    | cons event rest ih => exact fun s hs => ih _ (hs.step l event)
  refine hfold begin fun e he => ?_
  cases he

end Launcher

theorem Child.isRefusal_launch (c : Child) {l : Launcher} {e : TrafficError}
    (h : c.launch l = .error e) : e.isRefusal = false := by
  rw [Child.launch] at h
  split at h
  · cases h
  · rename_i hphase
    cases h
    exact l.noRefusal_run c.events _ hphase
  · cases h
    rfl

/-! ## Starts -/

variable {σ η : Type}

theorem Deployment.isRefusal_startTask (os : Host η) (runnable : Runnable) {d : Deployment σ η}
    {e : TrafficError} (h : (d.startTask os runnable).1 = .error e) : e.isRefusal = false := by
  unfold startTask at h
  split at h
  · split at h
    · cases h
      rfl
    · cases h
  · cases h

theorem Deployment.isRefusal_startProcess (os : Host η) (path : Option String)
    (runnable : Runnable) {d : Deployment σ η} {e : TrafficError}
    (h : (d.startProcess os path runnable).1 = .error e) : e.isRefusal = false := by
  rw [startProcess] at h
  split at h
  · cases h
    rfl
  · rename_i child host _
    dsimp only at h
    split at h
    · rename_i hlaunch
      cases h
      exact child.isRefusal_launch hlaunch
    · cases h

theorem Deployment.isRefusal_start (os : Host η) (scope : Scope) (runnable : Runnable)
    {d : Deployment σ η} {e : TrafficError} (h : (d.start os scope runnable).1 = .error e) :
    e.isRefusal = false := by
  rw [start] at h
  split at h
  · exact isRefusal_startTask os runnable h
  · exact isRefusal_startProcess os _ runnable h

variable [DesiredStore σ]

theorem Servers.isRefusal_launch (os : Host η) (scope : Scope) (key : ServerKey)
    (bindAddress : Address) {d : Deployment σ η} {e : TrafficError}
    (h : (launch os scope key bindAddress d).1 = .error e) : e.isRefusal = false := by
  rw [launch] at h
  split at h
  · rename_i heq
    have hstart := congrArg Prod.fst heq
    cases h
    exact d.isRefusal_start os scope _ hstart
  · cases h

theorem Servers.isRefusal_start (os : Host η) (scope : Scope) (protocol : Protocol) (port : Nat)
    (bindAddress : Address) {d : Deployment σ η} {e : TrafficError}
    (h : (start os scope protocol port bindAddress d).1 = .error e) : e.isRefusal = false := by
  rw [start] at h
  split at h
  · split at h
    · cases h
    · exact isRefusal_launch os scope _ bindAddress h
  · exact isRefusal_launch os scope _ bindAddress h

theorem Clients.isRefusal_launch (os : Host η) (settings : TrafficSettings) (scope : Scope)
    (endpoint : Address) {d : Deployment σ η} {e : TrafficError}
    (h : (launch os settings scope endpoint d).1 = .error e) : e.isRefusal = false := by
  rw [launch] at h
  split at h
  · cases h
    rfl
  · cases h
  · split at h
    · rename_i heq
      have hstart := congrArg Prod.fst heq
      cases h
      exact d.isRefusal_start os scope _ hstart
    · cases h

theorem Clients.isRefusal_start (os : Host η) (settings : TrafficSettings) (scope : Scope)
    (endpoint : Address) {d : Deployment σ η} {e : TrafficError}
    (h : (start os settings scope endpoint d).1 = .error e) : e.isRefusal = false := by
  rw [start] at h
  split at h
  · split at h
    · cases h
    · exact isRefusal_launch os settings scope endpoint h
  · exact isRefusal_launch os settings scope endpoint h

end PolicyProbe
