import PolicyProbe.Proofs.Agent.Closing
import PolicyProbe.Proofs.Archive.Queries
import PolicyProbe.Proofs.Manager.Workers

/-!
What is left behind a shutdown during which clients go on submitting until they are stopped and the
workers of the recorder take their turns. The recorder is told to stop when no worker runs any more,
so from then on nothing is submitted, and what it was offered is in its queue, with its workers or
in the store (`Closing.Accounts`). `Agent.shutdown_complete` puts this together with what the stops
do.
-/
namespace PolicyProbe

open Deployment

variable {σ η : Type}

/-! ## What is submitted meanwhile -/

namespace Outlet

/-- Whether there is a recorder that has not been stopped. -/
def takes : Outlet → Bool
  | .recorder _ => true
  | _ => false

theorem takes_iff {outlet : Outlet} : outlet.takes = true ↔ ∃ r, outlet = .recorder r := by
  cases outlet <;> simp [takes]

end Outlet

namespace Deployment

theorem takes_submit (r : Record) (d : Deployment σ η) :
    (submit r d).2.outlet.takes = d.outlet.takes := by
  rw [submit]
  split <;> rename_i houtlet
  · rw [houtlet]
    rfl
  · rw [houtlet]
    dsimp only
    split <;> rfl
  · rfl

theorem takes_deliver (rs : List Record) (d : Deployment σ η) :
    (Client.deliver submit rs d).2.outlet.takes = d.outlet.takes := by
  induction rs generalizing d with
  | nil => rfl
  | cons r rs ih => exact (ih _).trans (takes_submit r d)

/-- Nothing that happens by itself stops a recorder. -/
theorem takes_apply (d : Deployment σ η) (i : Incident η) :
    (i.apply d).outlet.takes = d.outlet.takes := by
  cases i with
  | exit os w code => rw [Incident.apply, outlet_exit]
  | cycle ping ended w =>
    rw [Incident.apply]
    cases htask : d.task? w with
    | none => rw [cycle_of_none htask]
    | some client =>
      rw [cycle_of_task htask]
      exact takes_deliver (client.records ping ended) d
  | submit w r =>
    rw [Incident.apply]
    split
    · exact takes_submit r d
    · rfl
  | work k =>
    show (d.outlet.work k).takes = d.outlet.takes
    cases d.outlet <;> rfl
  | elsewhere host => rfl

end Deployment

/-- A sweep leaves the way of records alone. -/
theorem Managers.outlet_sweep (keys : List WorkerKey) (n : Nat) (d : Deployment σ η) :
    (sweep keys n d).2.outlet = d.outlet := by
  have hsweeps := sweeps_sweep keys n d
  generalize sweep keys n d = r at hsweeps ⊢
  cases hsweeps with
  | nothing => rfl
  | @found _ key => cases key <;> rfl

namespace Closing

variable {a : Agent σ η} {s : Closing σ η} [DesiredStore σ]

/-- The records that clients submit in an event. -/
def records (s : Closing σ η) : ClosingEvent η → List Record
  | .proceed => []
  | .incident i => i.records s.agent.deployment

/-- The records that clients submit in the course of some events, in their order. -/
def submitted (os : Host η) (s : Closing σ η) : List (ClosingEvent η) → List Record
  | [] => []
  | e :: events => s.records e ++ (s.step os e).submitted os events

variable {capacity threads : Nat} {archive : Archive} {submitted : List Record}

/-- A recorder that started on an empty queue was offered some records and then told to stop, and
its workers have taken some turns since. -/
def Empties (capacity : Nat) (archive : Archive) (threads : Nat) (submitted : List Record)
    (r : ArchiveRecorder) : Prop :=
  ∃ (events : List (Recorder.Event Record)) (turns : List Nat),
    (∀ e ∈ events, e.isUsual = true) ∧ events.filterMap Recorder.Event.item? = submitted ∧
      r = ((Recorder.start (.empty capacity) archive threads).run Archive.persistQueued
        events).stopped Archive.persistQueued turns

omit [DesiredStore σ] in
theorem Empties.turn {r : ArchiveRecorder} (h : Empties capacity archive threads submitted r)
    (k : Nat) : Empties capacity archive threads submitted (r.step Archive.persistQueued k) := by
  obtain ⟨events, turns, he, hitems, rfl⟩ := h
  exact ⟨events, turns ++ [k], he, hitems, (Recorder.stopped_concat _ _ turns k).symm⟩

/-- When its workers have ended, all that it was offered is accounted for. -/
theorem Empties.accounted {r : ArchiveRecorder} (h : Empties capacity archive threads submitted r)
    (hover : r.isOver = true) : ∃ handed dropped, Recorder.Accounted Archive.persistQueued archive
      submitted handed dropped r.finish := by
  obtain ⟨events, turns, he, rfl, hr⟩ := h
  obtain ⟨handed, dropped, haccounted⟩ :=
    Recorder.accounted_of_isOver Archive.persistQueued capacity archive threads he hr hover
  exact ⟨handed, dropped, haccounted.finish⟩

/-- Where the records are that the recorder of an agent was given by the time it is shut down. -/
def Accounts (capacity : Nat) (archive : Archive) (threads : Nat) (submitted : List Record)
    (s : Closing σ η) : Prop :=
  match s.phase with
  | .stopping _ _ => s.agent.deployment.outlet.takes = true ∧
    s.agent.deployment.outlet.Received capacity archive threads submitted
  | .draining => ∃ r, s.agent.deployment.outlet = .recorder r ∧
    Empties capacity archive threads submitted r
  | .ended => ∃ r, s.agent.deployment.outlet = .stopped r.finish ∧
    Empties capacity archive threads submitted r ∧ r.isOver = true

omit [DesiredStore σ] in
/-- The recorder is told to stop. -/
theorem Accounts.stopRecorder {call : CallPhase} {rest : List ManagerCall}
    (h : Accounts capacity archive threads submitted s) (hphase : s.phase = .stopping call rest) :
    Accounts capacity archive threads submitted s.stopRecorder := by
  rw [Accounts, hphase] at h
  obtain ⟨htakes, hreceived⟩ := h
  rw [Closing.stopRecorder]
  split
  · rename_i r hr
    obtain ⟨events, he, hitems, rfl⟩ := hreceived r hr
    exact ⟨_, rfl, events, [], he, hitems, rfl⟩
  · rename_i hnone
    obtain ⟨r, hr⟩ := Outlet.takes_iff.mp htakes
    exact absurd hr (hnone r)

omit [DesiredStore σ] in
theorem Accounts.awaitRecorder (h : Accounts capacity archive threads submitted s)
    (hphase : s.phase = .draining) :
    Accounts capacity archive threads submitted s.awaitRecorder := by
  have hbefore := h
  rw [Accounts, hphase] at h
  obtain ⟨r, hr, hempties⟩ := h
  rw [Closing.awaitRecorder, hr]
  dsimp only
  split
  · rename_i hover
    exact ⟨r, rfl, hempties, hover⟩
  · exact hbefore

/-- The stops of a shutdown leave the way of records alone. -/
theorem Accounts.stopping {call : CallPhase} {rest : List ManagerCall}
    (h : Accounts capacity archive threads submitted s) (hphase : s.phase = .stopping call rest)
    (hplanned : s.phase.Planned) (os : Host η) :
    Accounts capacity archive threads submitted (s.proceed os) := by
  rw [hphase] at hplanned
  obtain ⟨hstop, hrest⟩ := hplanned
  have hmoved : ∀ call rest d, d.outlet = s.agent.deployment.outlet →
      Accounts capacity archive threads submitted (s.moved (.stopping call rest) d) := by
    intro call' rest' d houtlet
    rw [Accounts, hphase] at h
    show d.outlet.takes = true ∧ d.outlet.Received capacity archive threads submitted
    rwa [houtlet]
  rw [proceed, hphase]
  cases call with
  | removed w keys n => exact hmoved _ _ _ rfl
  | stopping w keys n =>
    exact hmoved _ _ _ ((Managers.outlet_sweep keys (n + 1) _).trans (outlet_stop os w _))
  | stopped n =>
    cases rest with
    | nil => exact h.stopRecorder hphase
    | cons c rest =>
      simp only [CallPhase.isOver, if_true, ManagerCall.begin_eq (hrest c List.mem_cons_self)]
      exact hmoved _ _ _ (Managers.outlet_sweep _ 0 _)
  | _ => cases hstop

theorem Accounts.step (h : Accounts capacity archive threads submitted s) (hs : Sound a s)
    (ha : Tidy a.scopes a.deployment) (os : Host η) (e : ClosingEvent η) :
    Accounts capacity archive threads (submitted ++ s.records e) (s.step os e) := by
  cases e with
  | proceed =>
    rw [records, List.append_nil]
    show Accounts capacity archive threads submitted (s.proceed os)
    cases hphase : s.phase with
    | stopping call rest => exact h.stopping hphase hs.planned os
    | draining =>
      rw [proceed, hphase]
      exact h.awaitRecorder hphase
    | ended =>
      rw [proceed, hphase]
      exact h
  | incident i =>
    have hidle := fun hthrough => i.apply_of_idle ((hs.through hthrough).idle ha.tended)
    show Accounts capacity archive threads _ (s.moved s.phase (i.apply s.agent.deployment))
    rw [Accounts] at h ⊢
    dsimp only [moved, Agent.put, records]
    cases hphase : s.phase with
    | stopping call rest =>
      rw [hphase] at h
      exact ⟨(takes_apply s.agent.deployment i).trans h.1, received_apply h.2 i⟩
    | draining =>
      -- Nothing is submitted here, for the clients were stopped before the recorder.
      rw [hphase] at h hidle
      obtain ⟨r, hr, hempties⟩ := h
      obtain ⟨hrecords, houtlet⟩ := hidle trivial
      rw [hrecords, List.append_nil, houtlet, hr]
      cases i with
      | work k => exact ⟨_, rfl, hempties.turn k⟩
      | _ => exact ⟨r, rfl, hempties⟩
    | ended =>
      rw [hphase] at h hidle
      obtain ⟨r, hr, hended⟩ := h
      obtain ⟨hrecords, houtlet⟩ := hidle trivial
      rw [hrecords, List.append_nil, houtlet, hr]
      cases i <;> exact ⟨r, rfl, hended⟩

theorem accounts_run (h : Accounts capacity archive threads submitted s) (hs : Sound a s)
    (ha : Tidy a.scopes a.deployment) (os : Host η) (events : List (ClosingEvent η)) :
    Accounts capacity archive threads (submitted ++ s.submitted os events) (s.run os events) := by
  induction events generalizing s submitted with
  | nil => rwa [Closing.submitted, List.append_nil]
  | cons e events ih =>
    have hrest := ih (h.step hs ha os e) (hs.step ha os e)
    rwa [List.append_assoc] at hrest

end Closing

/-! ## What is left behind -/

namespace Agent

/-- How an agent is behind a shutdown: nothing is registered, every worker that was has been
stopped, none runs, and the desired state is what it was. -/
structure ShutDown (a a' : Agent σ η) : Prop where
  servers : a'.deployment.servers = []
  clients : a'.deployment.clients = []
  stopped : ∀ (key : WorkerKey) w, key.registered? a.deployment = some w →
    a'.deployment.workers.IsStopped w
  running : ∀ w, a'.deployment.workers.isRunning w = false
  state : a'.deployment.state = a.deployment.state

theorem shutDown_of_closes {a a' : Agent σ η} (ha : a.deployment.Tended)
    (h : Closes a.deployment none (fun _ => False) a'.deployment) : ShutDown a a' where
  servers := OrderedMap.eq_nil_of_find? fun key => h.free (.server key)
  clients := OrderedMap.eq_nil_of_find? fun name => h.free (.client name)
  stopped _ _ hw := h.isStopped hw
  running := h.idle ha
  state := h.state

variable [DesiredStore σ]

/-- A shutdown that nothing interrupts is one of those that go step by step. -/
theorem shutDown_of_tidy {a : Agent σ η} (h : Tidy a.scopes a.deployment) (os : Host η) :
    ShutDown a (a.shutdown os) := by
  obtain ⟨own, -, hrun⟩ := Closing.leads_shutdown os a
  have hsound := Closing.sound_run h os own
  rw [hrun] at hsound
  exact shutDown_of_closes h.tended (hsound.through trivial)

variable [StoreContent σ] {capacity threads : Nat} {archive : Archive}

omit [StoreContent σ] in
/-- Without namespaces, all that clients submitted to an agent has come to the recorder that it
started with, when its shutdown begins. -/
theorem accounts_begin {settings : Settings} {topology : Topology} {state : σ} {host : η}
    {start : Agent σ η}
    (hbuilt : build settings topology (.fresh state host
      (.recorder (.start (.empty capacity) archive threads))) = .ok start)
    (hmode : start.topology.namespaceMode = false) (life : List (LifeEvent σ η))
    {r : ArchiveRecorder} (hr : (start.lived life).deployment.outlet = .recorder r) :
    Closing.Accounts capacity archive threads (start.submitted life)
      (Closing.begin (start.lived life)) := by
  obtain ⟨hscopes, hfresh⟩ := build_eq_ok hbuilt
  have hroot : ∀ scope ∈ start.scopes, scope.path? = none := by
    rw [scopesOf_root hmode] at hscopes
    rw [← Except.ok.inj hscopes]
    exact List.forall_mem_singleton.mpr rfl
  have hstart : start.deployment.outlet.Received capacity archive threads [] := by
    rw [hfresh]
    exact Outlet.received_start
  exact ⟨Outlet.takes_iff.mpr ⟨r, hr⟩, received_lived hroot hstart life⟩

/-- A shutdown is complete. Whatever the life of an agent with a recorder was, and whatever happens
while it is shut down: when the stops are through, no worker runs and nothing is submitted any more.
Behind the shutdown nothing is registered, every worker that was registered has been stopped, and
the desired state is what it was; and without namespaces every record that a client ever submitted,
before the shutdown or during it, is accounted for. From wherever it is the shutdown can go on to
its end by itself, and when nothing interrupts it, it does what `shutdown` says. -/
theorem shutdown_complete {settings : Settings} {topology : Topology} {state : σ} {host : η}
    {start : Agent σ η}
    (hbuilt : build settings topology (.fresh state host
      (.recorder (.start (.empty capacity) archive threads))) = .ok start)
    (life : List (LifeEvent σ η)) (os : Host η) (events : List (ClosingEvent η)) :
    let a := start.lived life
    let s := (Closing.begin a).run os events
    (s.phase.IsThrough →
      (∀ w, s.agent.deployment.workers.isRunning w = false) ∧ ∀ e, s.records e = []) ∧
    (s.phase.isOver = true →
      ShutDown a s.agent ∧
      (a.topology.namespaceMode = false → ∀ r, a.deployment.outlet = .recorder r →
        ∃ r' handed dropped, s.agent.deployment.outlet = .stopped r' ∧
          Recorder.Accounted Archive.persistQueued archive
            (start.submitted life ++ (Closing.begin a).submitted os events) handed dropped r')) ∧
    (∃ s', s.Leads os s' ∧ s'.phase.isOver = true) ∧
    (Closing.begin a).Leads os ⟨a.shutdown os, .ended⟩ := by
  intro a s
  have hstart : Tidy start.scopes start.deployment := by
    rw [(build_eq_ok hbuilt).2]
    exact tidy_fresh _ state host _
  obtain ⟨hkept, htopology, hlived⟩ := tidy_lived hstart life
  have htidy : Tidy a.scopes a.deployment := hkept ▸ hlived
  have hsound : Closing.Sound a s := Closing.sound_run htidy os events
  refine ⟨fun hthrough => ?_, fun hover => ?_, hsound.exists_over os,
    Closing.leads_shutdown os a⟩
  · have hidle := (hsound.through hthrough).idle htidy.tended
    refine ⟨hidle, fun e => ?_⟩
    cases e with
    | proceed => rfl
    | incident i => exact (i.apply_of_idle hidle).1
  · have hphase : s.phase = .ended := ClosingPhase.isOver_iff.mp hover
    refine ⟨shutDown_of_closes htidy.tended (hsound.through (by rw [hphase]; trivial)),
      fun hmode r hr => ?_⟩
    have hbegin := accounts_begin hbuilt (htopology ▸ hmode) life hr
    have haccounts := Closing.accounts_run hbegin (Closing.sound_begin htidy) htidy os events
    have hended : ((Closing.begin a).run os events).phase = .ended := hphase
    rw [Closing.Accounts, hended] at haccounts
    obtain ⟨r', hr', hempties, hworkers⟩ := haccounts
    obtain ⟨handed, dropped, haccounted⟩ := hempties.accounted hworkers
    exact ⟨_, handed, dropped, hr', haccounted⟩

/-- The agent of one endpoint with a recorder in front of a record table. One record can wait. -/
def recordingAgent : Agent DesiredState Unit :=
  loopbackAgent.put (.fresh (.memory .empty) ()
    (.recorder (.start (.empty 1) { Archive.bothOpen with backends := [.sqlite] } 1)))

/-- A life of that agent. Its client hands over a record that a worker of the recorder takes, one
with the same identifier that has to wait, and one for which there is no room. -/
def recordingLife : List (LifeEvent DesiredState Unit) :=
  [.call Managers.openHost (.register loopbackRules),
    .call Managers.openHost (.startServers none), .call Managers.openHost (.startClients none),
    .incident (.submit 1 Archive.newYear), .incident (.work 0), .incident (.work 0),
    .incident (.submit 1 Archive.usedTwice), .incident (.submit 1 Archive.lastSecond)]

/-- The shutdown of that agent. While the client is being stopped, the worker of the recorder takes
the record that waits, and the client hands over another one. -/
def recordingEnd : List (ClosingEvent Unit) :=
  [.proceed, .incident (.work 0), .incident (.work 0), .incident (.work 0), .proceed,
    .incident (.submit 1 Archive.fiveDigits), .proceed, .proceed, .proceed, .proceed, .proceed,
    .incident (.work 0), .incident (.work 0), .incident (.work 0), .incident (.work 0), .proceed]

theorem shutdown_complete_recording :
    let a := recordingAgent.lived recordingLife
    let s := (Closing.begin a).run Managers.openHost recordingEnd
    build .default (.root .loopback) recordingAgent.deployment = .ok recordingAgent ∧
      a.topology.namespaceMode = false ∧ (∃ r, a.deployment.outlet = .recorder r) ∧
      a.deployment.workers.isRunning 0 = true ∧ a.deployment.workers.isRunning 1 = true ∧
      recordingAgent.submitted recordingLife =
        [Archive.newYear, Archive.usedTwice, Archive.lastSecond] ∧
      (Closing.begin a).submitted Managers.openHost recordingEnd = [Archive.fiveDigits] ∧
      s.phase.isOver = true ∧
      (s.agent.deployment.outlet.recorder?.map Recorder.stats) = some ⟨2, 1, 1⟩ ∧
      ShutDown a s.agent ∧
      ∃ r' handed dropped, s.agent.deployment.outlet = .stopped r' ∧
        Recorder.Accounted Archive.persistQueued { Archive.bothOpen with backends := [.sqlite] }
          ([Archive.newYear, Archive.usedTwice, Archive.lastSecond] ++ [Archive.fiveDigits])
          handed dropped r' := by
  have hbuilt : build .default (.root .loopback) recordingAgent.deployment = .ok recordingAgent :=
    rfl
  have hrecorder : ∃ r, (recordingAgent.lived recordingLife).deployment.outlet = .recorder r :=
    Outlet.takes_iff.mp (by decide +kernel)
  have hbefore : recordingAgent.submitted recordingLife =
      [Archive.newYear, Archive.usedTwice, Archive.lastSecond] := by decide +kernel
  have hmeanwhile : (Closing.begin (recordingAgent.lived recordingLife)).submitted
      Managers.openHost recordingEnd = [Archive.fiveDigits] := by decide +kernel
  have hover : ((Closing.begin (recordingAgent.lived recordingLife)).run Managers.openHost
      recordingEnd).phase.isOver = true := by decide +kernel
  obtain ⟨-, hended, -, -⟩ :=
    shutdown_complete hbuilt recordingLife Managers.openHost recordingEnd
  obtain ⟨hshutDown, haccounted⟩ := hended hover
  obtain ⟨r, hr⟩ := hrecorder
  have hall := haccounted rfl r hr
  rw [hbefore, hmeanwhile] at hall
  exact ⟨hbuilt, rfl, ⟨r, hr⟩, by decide +kernel, by decide +kernel, hbefore, hmeanwhile, hover,
    by decide +kernel, hshutDown, hall⟩

end Agent

end PolicyProbe
