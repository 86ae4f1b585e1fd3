import PolicyProbe.Proofs.Manager.Confined

/-!
What single starts and stops write into the log. The log only grows (`Deployment.Logs`), and no
operation on a worker says that a scope was passed over: this is said by the calls of an agent
alone, for a scope whose endpoint is not known.
-/
namespace PolicyProbe

/-- Whether a notice says that a scope without an endpoint was passed over. -/
def Notice.isSkip : Notice → Bool
  | .scopeSkipped _ | .serversNotStarted _ | .clientNotStarted _ => true
  | _ => false

variable {σ η : Type}

namespace Deployment

/-- The log has grown, and nothing in it tells of a scope that was passed over. -/
def Logs (d d' : Deployment σ η) : Prop :=
  ∃ added, d'.notices = d.notices ++ added ∧ ∀ n ∈ added, n.isSkip = false

variable {d d' d'' : Deployment σ η}

theorem Logs.of_eq (h : d'.notices = d.notices) : Logs d d' :=
  ⟨[], by rw [h, List.append_nil], fun _ hn => absurd hn List.not_mem_nil⟩

theorem Logs.refl (d : Deployment σ η) : Logs d d := .of_eq rfl

theorem Logs.trans (h : Logs d d') (h' : Logs d' d'') : Logs d d'' := by
  obtain ⟨added, hadded, hkind⟩ := h
  obtain ⟨more, hmore, hkind'⟩ := h'
  refine ⟨added ++ more, ?_, fun n hn => ?_⟩
  · rw [hmore, hadded, List.append_assoc]
  · exact (List.mem_append.mp hn).elim (hkind n) (hkind' n)

theorem Logs.say (h : Logs d d') {n : Notice} (hn : n.isSkip = false) : Logs d (d'.say n) :=
  h.trans ⟨[n], rfl, fun m hm => by rwa [List.mem_singleton.mp hm]⟩

theorem Logs.mem (h : Logs d d') {n : Notice} (hn : n ∈ d'.notices) :
    n ∈ d.notices ∨ n.isSkip = false := by
  obtain ⟨added, hadded, hkind⟩ := h
  rw [hadded] at hn
  exact (List.mem_append.mp hn).imp_right (hkind n)

/-! ## Records -/

theorem logs_submit (r : Record) (d : Deployment σ η) : Logs d (submit r d).2 := by
  unfold submit
  split
  · exact .of_eq rfl
  · split
    rename_i answer recorder _
    have hrecorder : Logs d { d with outlet := .recorder recorder } := .of_eq rfl
    dsimp only
    split
    · exact hrecorder.say rfl
    · exact hrecorder
  · exact .refl d

theorem logs_deliver (rs : List Record) (d : Deployment σ η) :
    Logs d (Client.deliver submit rs d).2 := by
  induction rs generalizing d with
  | nil => exact .refl d
  | cons r rs ih => exact (logs_submit r d).trans (ih _)

theorem logs_cycle (ping : Nat → Destination → Except PingError Unit × Stamp)
    (ended : List Record → List Record) (w : Nat) (d : Deployment σ η) :
    Logs d (d.cycle ping ended w) := by
  rw [Deployment.cycle]
  split
  · exact (logs_deliver _ d).trans (.of_eq rfl)
  · exact .refl d

/-! ## Workers -/

theorem logs_startTask (os : Host η) (runnable : Runnable) (d : Deployment σ η) :
    Logs d (d.startTask os runnable).2 := by
  unfold startTask
  split
  · split <;> exact .of_eq rfl
  · exact .of_eq rfl

theorem logs_noteFailure (worker : Identifier) (child : Child) (d : Deployment σ η) :
    Logs d (d.noteFailure worker child) := by
  unfold noteFailure
  split
  · exact (Logs.refl d).say rfl
  · exact .refl d

theorem logs_startProcess (os : Host η) (path : Option String) (runnable : Runnable)
    (d : Deployment σ η) : Logs d (d.startProcess os path runnable).2 := by
  unfold startProcess
  split
  · rename_i host _
    have hhost : Logs d { d with host } := .of_eq rfl
    exact hhost.say rfl
  · rename_i child host _
    have hemployed : ∀ worker, Logs d (employ worker { d with host }).2 := fun _ => .of_eq rfl
    dsimp only
    split
    · exact (hemployed _).trans (logs_noteFailure _ child _)
    · exact (hemployed _).trans (logs_deliver _ _)

theorem logs_start (os : Host η) (scope : Scope) (runnable : Runnable) (d : Deployment σ η) :
    Logs d (d.start os scope runnable).2 := by
  unfold start
  split
  · exact logs_startTask os runnable d
  · exact logs_startProcess os _ runnable d

theorem logs_closeSocket (os : Host η) (w : Nat) (d : Deployment σ η) :
    Logs d (d.closeSocket os w) := by
  unfold closeSocket
  split <;> exact .of_eq rfl

theorem logs_stop (os : Host η) (w : Nat) (d : Deployment σ η) : Logs d (d.stop os w).2 :=
  (logs_closeSocket os w d).trans (.of_eq rfl)

theorem logs_exit (os : Host η) (w code : Nat) (d : Deployment σ η) :
    Logs d (d.exit os w code) :=
  (logs_closeSocket os w d).trans (.of_eq rfl)

theorem logs_dismiss (os : Host η) (key : WorkerKey) (d : Deployment σ η) :
    Logs d (key.dismiss os d).2 := by
  have herased : Logs d (key.erase d) := .of_eq (by cases key <;> rfl)
  rw [WorkerKey.dismiss]
  split
  · exact herased.trans (logs_stop os _ _)
  · exact herased

theorem logs_dismissEach (os : Host η) (keys : List WorkerKey) (d : Deployment σ η) :
    Logs d (dismissEach os keys d).2 := by
  induction keys generalizing d with
  | nil => exact .refl d
  | cons key rest ih => exact (logs_dismiss os key d).trans (ih _)

end Deployment

open Deployment

/-! ## Servers and clients -/

theorem Servers.logs_stop (os : Host η) (scope : Scope) (protocol : Protocol) (port : Nat)
    (d : Deployment σ η) : Logs d (Servers.stop os scope protocol port d).2 := by
  have hremove := logs_dismiss os (.server (key scope protocol port)) d
  rw [Servers.stop, remove_eq]
  split <;> rename_i heq <;> rw [heq] at hremove
  · exact hremove
  · exact hremove.say rfl

variable [DesiredStore σ]

theorem Servers.logs_record (key : ServerKey) (bindAddress : Address) (d : Deployment σ η) :
    Logs d (record key bindAddress d) := by
  unfold record
  split
  · exact .of_eq rfl
  · rename_i state _
    have hstate : Logs d { d with state } := .of_eq rfl
    exact hstate.say rfl

theorem Servers.logs_launch (os : Host η) (scope : Scope) (key : ServerKey)
    (bindAddress : Address) (d : Deployment σ η) :
    Logs d (launch os scope key bindAddress d).2 := by
  have hstart := logs_start os scope (.server ⟨key.protocol, key.port, bindAddress⟩) d
  unfold launch
  split <;> rename_i heq <;> rw [heq] at hstart
  · exact hstart.say rfl
  · exact (hstart.trans (.of_eq rfl)).trans (logs_record key bindAddress _)

theorem Servers.logs_start (os : Host η) (scope : Scope) (protocol : Protocol) (port : Nat)
    (bindAddress : Address) (d : Deployment σ η) :
    Logs d (start os scope protocol port bindAddress d).2 := by
  rw [start]
  split
  · split
    · exact .refl d
    · rename_i w _ _
      have hdiscarded : Logs d (discard (key scope protocol port) w d) :=
        (Logs.of_eq rfl).say rfl
      exact hdiscarded.trans (logs_launch os scope _ bindAddress _)
  · exact logs_launch os scope _ bindAddress d

theorem Clients.logs_launch (os : Host η) (settings : TrafficSettings) (scope : Scope)
    (endpoint : Address) (d : Deployment σ η) :
    Logs d (launch os settings scope endpoint d).2 := by
  unfold launch
  split
  · exact .refl d
  · exact .refl d
  · rename_i clients _ _
    have hstart := Deployment.logs_start os scope (.client (spec settings endpoint clients)) d
    split <;> rename_i heq <;> rw [heq] at hstart
    · exact hstart.say rfl
    · exact hstart.trans (.of_eq rfl)

theorem Clients.logs_start (os : Host η) (settings : TrafficSettings) (scope : Scope)
    (endpoint : Address) (d : Deployment σ η) :
    Logs d (start os settings scope endpoint d).2 := by
  rw [start]
  split
  · split
    · exact .refl d
    · rename_i w _ _
      have hdiscarded : Logs d (discard scope w d) := (Logs.of_eq rfl).say rfl
      exact hdiscarded.trans (logs_launch os settings scope endpoint _)
  · exact logs_launch os settings scope endpoint d

end PolicyProbe
