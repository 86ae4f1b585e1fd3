import PolicyProbe.Proofs.Manager.Starts
import PolicyProbe.Proofs.Manager.Workers

/-!
A start of a server does not depend on the desired state. No part of a start of a worker looks at
it or writes to it, so a start goes the same way over any two stores (`start_withState`). The server
is recorded when it runs and is registered, and a refusal of the store is only logged. Hence the
answer, the registries and the workers are the same whatever the store is and does; and a start that
fails has made no write at all and leaves its key free (`Servers.start_indifferent`).
-/
namespace PolicyProbe

namespace Deployment

variable {σ τ η : Type}

/-- All is the same but for the desired state and what the log says. -/
structure Matches (d : Deployment σ η) (d' : Deployment τ η) : Prop where
  servers : d'.servers = d.servers
  clients : d'.clients = d.clients
  workers : d'.workers = d.workers
  host : d'.host = d.host
  outlet : d'.outlet = d.outlet

/-! ## Starting a worker over another store -/

theorem submit_withState (s : τ) (r : Record) (d : Deployment σ η) :
    submit r (d.withState s) = ((submit r d).1, (submit r d).2.withState s) := by
  obtain ⟨state, servers, clients, workers, host, outlet, notices⟩ := d
  cases outlet with
  | collected records => rfl
  | stopped recorder => rfl
  | recorder recorder =>
    show submit r ⟨s, servers, clients, workers, host, .recorder recorder, notices⟩ = _
    rw [submit, submit]
    dsimp only
    split <;> rfl

theorem deliver_withState (s : τ) (rs : List Record) (d : Deployment σ η) :
    Client.deliver submit rs (d.withState s) =
      ((Client.deliver submit rs d).1, (Client.deliver submit rs d).2.withState s) := by
  induction rs generalizing d with
  | nil => rfl
  | cons r rs ih =>
    rw [Client.deliver, submit_withState, ih]
    rfl

theorem noteFailure_withState (s : τ) (worker : Identifier) (child : Child) (d : Deployment σ η) :
    (d.withState s).noteFailure worker child = (d.noteFailure worker child).withState s := by
  unfold noteFailure
  split <;> rfl

theorem startTask_withState (s : τ) (os : Host η) (runnable : Runnable) (d : Deployment σ η) :
    (d.withState s).startTask os runnable =
      ((d.startTask os runnable).1, (d.startTask os runnable).2.withState s) := by
  cases runnable with
  | client spec => rfl
  | server spec =>
    unfold startTask withState
    dsimp only
    split <;> rfl

theorem startProcess_withState (s : τ) (os : Host η) (path : Option String) (runnable : Runnable)
    (d : Deployment σ η) : (d.withState s).startProcess os path runnable =
      ((d.startProcess os path runnable).1, (d.startProcess os path runnable).2.withState s) := by
  have hnext : (d.withState s).workers.next = d.workers.next := rfl
  have hhost : (d.withState s).host = d.host := rfl
  unfold startProcess
  rw [hnext, hhost]
  rcases os.spawn runnable.toJson.text path d.host with ⟨answer | child, host⟩
  · rfl
  · dsimp only
    split
    · let refused := (employ ⟨runnable, .process, .stopped, none⟩ { d with host }).2
      exact congrArg (Prod.mk _) (noteFailure_withState s _ child refused)
    · rename_i rest _
      let employed := fun state => (employ ⟨runnable, .process, state, none⟩ { d with host }).2
      have hdeliver := fun state =>
        deliver_withState s (forwarded (Lines.all rest)) (employed state)
      exact congrArg (Prod.mk _) (congrArg Prod.snd (hdeliver _))

/-- A start of a worker goes the same way over any store. -/
theorem start_withState (s : τ) (os : Host η) (scope : Scope) (runnable : Runnable)
    (d : Deployment σ η) : (d.withState s).start os scope runnable =
      ((d.start os scope runnable).1, (d.start os scope runnable).2.withState s) := by
  unfold start
  split
  · exact startTask_withState s os runnable d
  · exact startProcess_withState s os _ runnable d

end Deployment

open Deployment

namespace Servers

variable {σ τ η : Type} [DesiredStore σ] [DesiredStore τ]

omit [DesiredStore τ] in
/-- Recording touches nothing but the desired state and the log. -/
theorem matches_record (key : ServerKey) (bindAddress : Address) (d : Deployment σ η) :
    d.Matches (record key bindAddress d) := by
  unfold record
  split <;> exact ⟨rfl, rfl, rfl, rfl, rfl⟩

/-- Two starts under a free key, over two stores: if one fails, so does the other, and it leaves its
store as it was. -/
theorem launch_withState (s : τ) (os : Host η) (scope : Scope) (key : ServerKey)
    (bindAddress : Address) (d : Deployment σ η) :
    let one := launch os scope key bindAddress d
    let other := launch os scope key bindAddress (d.withState s)
    other.1 = one.1 ∧ one.2.Matches other.2 ∧
      ∀ e, one.1 = .error e → other.2 = one.2.withState s := by
  unfold launch
  rw [start_withState]
  rcases d.start os scope (.server ⟨key.protocol, key.port, bindAddress⟩) with ⟨e | w, d₁⟩
  · exact ⟨rfl, ⟨rfl, rfl, rfl, rfl, rfl⟩, fun _ _ => rfl⟩
  · -- The stores differ in what is written to them, and nothing else looks at that.
    have hone := matches_record key bindAddress (register key w d₁).2
    have hother := matches_record key bindAddress (register key w (d₁.withState s)).2
    refine ⟨rfl, ⟨?_, ?_, ?_, ?_, ?_⟩, ?_⟩
    · exact hother.servers.trans hone.servers.symm
    · exact hother.clients.trans hone.clients.symm
    · exact hother.workers.trans hone.workers.symm
    · exact hother.host.trans hone.host.symm
    · exact hother.outlet.trans hone.outlet.symm
    · intro e he
      cases he

theorem start_withState (s : τ) (os : Host η) (scope : Scope) (protocol : Protocol) (port : Nat)
    (bindAddress : Address) (d : Deployment σ η) :
    let one := start os scope protocol port bindAddress d
    let other := start os scope protocol port bindAddress (d.withState s)
    other.1 = one.1 ∧ one.2.Matches other.2 ∧
      ∀ e, one.1 = .error e → other.2 = one.2.withState s := by
  have hservers : (d.withState s).servers = d.servers := rfl
  have hworkers : (d.withState s).workers = d.workers := rfl
  rw [start, start, hservers, hworkers]
  cases d.servers.find? (key scope protocol port) with
  | none => exact launch_withState s os scope (key scope protocol port) bindAddress d
  | some w =>
    dsimp only
    cases d.workers.isRunning w with
    | true =>
      refine ⟨rfl, ⟨rfl, rfl, rfl, rfl, rfl⟩, fun e he => ?_⟩
      cases he
    | false =>
      exact launch_withState s os scope (key scope protocol port) bindAddress
        (discard (key scope protocol port) w d)

/-- A start over two stores, whatever each of them holds and refuses: the answer, the registries,
the workers, the host and the records are the same. A start that fails writes to neither and leaves
its key free: whatever was registered under it had ended, and is gone. All other keys are as they
were. -/
theorem start_indifferent (s : τ) (os : Host η) (scope : Scope) (protocol : Protocol) (port : Nat)
    (bindAddress : Address) (d : Deployment σ η) :
    let key := key scope protocol port
    let one := start os scope protocol port bindAddress d
    let other := start os scope protocol port bindAddress (d.withState s)
    other.1 = one.1 ∧ one.2.Matches other.2 ∧
      ∀ e, one.1 = .error e →
        other.2 = one.2.withState s ∧ one.2.state = d.state ∧
          (∀ w, d.servers.find? key = some w → d.workers.isRunning w = false) ∧
          one.2.servers.find? key = none ∧
          (∀ k, k ≠ key → one.2.servers.find? k = d.servers.find? k) ∧
          ∀ name, one.2.clients.find? name = d.clients.find? name := by
  intro key one other
  obtain ⟨hanswer, hmatches, hfailed⟩ := start_withState s os scope protocol port bindAddress d
  refine ⟨hanswer, hmatches, fun e he => ?_⟩
  have houtcome : Outcome key bindAddress d one.1 one.2 :=
    start_outcome os scope protocol port bindAddress d
  rw [he] at houtcome
  cases houtcome with
  | failed _ hdead hvacated =>
    refine ⟨hfailed e he, hvacated.state, fun w hw => ?_, hvacated.free, fun k hk => ?_,
      fun name => hvacated.others (.client name) (by simp)⟩
    · exact Bool.eq_false_iff.mpr fun hrunning => hdead ⟨w, hw, hrunning⟩
    · exact hvacated.others (.server k) fun h => hk (WorkerKey.server.inj h)

/-- A deployment with one server, whose process has exited. -/
def oneExited : Deployment MemoryState Unit :=
  { Deployment.fresh ⟨[]⟩ () (.collected []) with
    servers := [(⟨"red", 53, .udp⟩, 0)]
    workers := ⟨[⟨.server ⟨.udp, 53, .loopback⟩, .process, .exited 0, none⟩]⟩ }

/-- The server cannot be started again, and no store is written: one that refuses every write makes
no difference. -/
theorem start_indifferent_oneExited :
    let refusing : LimitedStore MemoryState := ⟨⟨[]⟩, some 0, true⟩
    let one := start Managers.openHost (.named "red" "/run/netns/red") .udp 53 .loopback oneExited
    let other := start Managers.openHost (.named "red" "/run/netns/red") .udp 53 .loopback
      (oneExited.withState refusing)
    one.1 = .error (.workerSpawn SystemError.noSuchFile.message) ∧ other.1 = one.1 ∧
      other.2 = one.2.withState refusing ∧ one.2.state = ⟨[]⟩ ∧
      one.2.servers.find? ⟨"red", 53, .udp⟩ = none := by
  intro refusing one other
  obtain ⟨hanswer, -, hfailed⟩ := start_indifferent refusing Managers.openHost
    (.named "red" "/run/netns/red") .udp 53 .loopback oneExited
  have herror : one.1 = .error (.workerSpawn SystemError.noSuchFile.message) := rfl
  obtain ⟨hother, hstate, -, hfree, -⟩ := hfailed _ herror
  exact ⟨herror, hanswer, hother, hstate, hfree⟩

end Servers

end PolicyProbe
