import PolicyProbe.Proofs.Worker.Verdict

/-!
A worker that is a process does what one that is a task does. What the process reports is what
starting the same runnable as a task returns for the same answers of the operating system
(`WorkerProcess.reports_as_task`), and its launch returns it. A process that is ready has its
records handed on by a forwarder, whose turns come as they will; when it has nothing left to do, the
sink has been given the records that the sink of the task would get, in the same order, and it comes
to that point (`Supervision.HandsOn`). A process that was refused gives the sink nothing.
-/
namespace PolicyProbe

/-! ## Reports -/

namespace WorkerProcess

/-- The bytes that the worker program writes when it is started with some arguments and its client,
if it comes to run one, submits some records; none if the arguments ask for no worker. -/
def output? (os : Surroundings) (arguments : List String) (records : List Record) :
    Option (List UInt8) :=
  match CommandLine.parse arguments with
  | .ok (.worker spec path) => some (transcript (events (begin os spec path) records))
  | _ => none

theorem begin_text {os : Surroundings} (hprepare : os.prepare = .ok ()) {r : Runnable}
    (hr : r.Sound) : begin os r.toJson.text none = (do openSocket os r; return r) := by
  have hdecoded : Runnable.decoder.run r.toJson.text = .ok r := (Runnable.finds hr).run
  rw [begin, hdecoded]
  simp only [enterNamespace, hprepare]
  rfl

end WorkerProcess

/-- The text of a runnable is that of an object, so it does not look like an option. -/
theorem Runnable.looksLikeOption_text (r : Runnable) :
    CommandLine.looksLikeOption r.toJson.text = false := by
  cases r with
  | server spec =>
    rw [CommandLine.looksLikeOption, Json.text, String.toList_ofList]
    rfl
  | client spec =>
    rw [CommandLine.looksLikeOption, Json.text, String.toList_ofList]
    rfl

/-- The records that reach the sink of a task out of those that a client submits: a server submits
none. -/
def Runnable.submits : Runnable → List Record → List Record
  | .server _, _ => []
  | .client _, records => records

namespace WorkerProcess

/-- A process reports that it is ready, and then the records of a client, when a task would start,
and else the text with which the task would fail. -/
theorem reports_as_task {σ η : Type} (os : Host η) (d : Deployment σ η) {child : Surroundings}
    (hprepare : child.prepare = .ok ()) (hbind : ∀ spec, child.bind spec = (os.bind spec d.host).1)
    {runnable : Runnable} (hrunnable : runnable.Sound) (records : List Record) :
    (∃ w, (d.startTask os runnable).1 = .ok w ∧
      events (begin child runnable.toJson.text none) records =
        .ready :: (runnable.submits records).map .record) ∨
    ∃ text, (d.startTask os runnable).1 = .error (.bind text) ∧
      events (begin child runnable.toJson.text none) records = [.failed .bind text] := by
  rw [begin_text hprepare hrunnable]
  cases runnable with
  | client spec => exact Or.inl ⟨_, rfl, rfl⟩
  | server spec =>
    have hopen := hbind spec
    rcases hb : os.bind spec d.host with ⟨answer, host⟩
    rw [hb] at hopen
    cases answer with
    | ok u =>
      have hopened : openSocket child (.server spec) = .ok () := by
        simp only [openSocket, hopen]
      refine Or.inl ⟨d.workers.next, ?_, by rw [hopened]; rfl⟩
      simp only [Deployment.startTask, hb]
      rfl
    | error text =>
      have hopened : openSocket child (.server spec) = .error (.bind, text) := by
        simp only [openSocket, hopen]
      refine Or.inr ⟨text, ?_, by rw [hopened]; rfl⟩
      simp only [Deployment.startTask, hb]

/-- What a process writes ends with a line feed. -/
theorem unended_transcript (es : List WorkerEvent) : Lines.unended (transcript es) = [] := by
  cases es using List.reverseRecOn with
  | nil => rfl
  | append_singleton es e =>
    rw [transcript, List.flatMap_append, List.flatMap_singleton]
    exact Lines.unended_ofText _ e.line

end WorkerProcess

/-! ## The forwarder comes to its end -/

/-- What a launch leaves unread is the end of what there was. -/
theorem Launcher.unread_step (l : Launcher) (s : Launch) (event : ChildEvent) :
    (l.step s event).unread <:+ s.unread ++ event.bytes := by
  cases event with
  | output bytes =>
    rw [step]
    dsimp only
    split
    · rw [look]
      split
      · rename_i line rest hcut
        exact Lines.cut?_suffix hcut
      · exact List.suffix_rfl
    · exact List.suffix_rfl
  | closed =>
    simp only [ChildEvent.bytes, List.append_nil, step]
    split
    · rw [close]
      split
      · split <;> exact List.suffix_rfl
      · exact List.nil_suffix
    · exact List.suffix_rfl
  | faulted text =>
    simp only [ChildEvent.bytes, List.append_nil, step]
    split <;> exact List.suffix_rfl
  | expired =>
    simp only [ChildEvent.bytes, List.append_nil, step]
    split <;> exact List.suffix_rfl
  | exited code =>
    simp only [ChildEvent.bytes, List.append_nil, step, reap]
    split <;> exact List.suffix_rfl
  | signalled signal =>
    simp only [ChildEvent.bytes, List.append_nil, step, reap]
    split <;> exact List.suffix_rfl

namespace Supervision

variable {σ : Type} (l : Launcher) (sink : Sink σ)

theorem unread_forward (s : Supervision σ) :
    (s.forward sink).launch.unread <:+ s.launch.unread := by
  rw [forward]
  split
  · rename_i line rest hcut
    obtain ⟨deaf, state, htake⟩ := exists_take sink (Lines.trimReturn line) (s.leaving rest)
    rw [htake]
    exact Lines.cut?_suffix hcut
  · split
    · exact List.suffix_rfl
    · exact List.suffix_rfl
    · split
      · exact List.suffix_rfl
      · obtain ⟨deaf, state, htake⟩ := exists_take sink s.launch.unread (s.leaving [])
        rw [htake]
        exact List.nil_suffix

/-- What is unread is the end of what the process has written. -/
theorem unread_run {events : List SupervisionEvent} {bytes : List UInt8}
    (h : Delivers bytes (SupervisionEvent.seenAmong events)) (s : Supervision σ) :
    (events.foldl (step l sink) s).launch.unread <:+ s.launch.unread ++ bytes := by
  induction events generalizing s bytes with
  | nil =>
    rw [SupervisionEvent.seenAmong, List.filterMap_nil] at h
    cases h
    rw [List.append_nil]
    exact List.suffix_rfl
  | cons event events ih =>
    cases event with
    | turn =>
      have hrest : Delivers bytes (SupervisionEvent.seenAmong events) := h
      refine (ih hrest _).trans ?_
      rw [step]
      split
      · obtain ⟨front, hfront⟩ := unread_forward sink s
        exact ⟨front, by rw [← List.append_assoc, hfront]⟩
      · exact List.suffix_rfl
    | seen event =>
      obtain ⟨more, rfl, hrest, -⟩ := Delivers.uncons h
      refine (ih hrest _).trans ?_
      obtain ⟨front, hfront⟩ := l.unread_step s.launch event
      exact ⟨front, by rw [← List.append_assoc, ← List.append_assoc, ← hfront]; rfl⟩

/-- A forwarder that has only whole lines before it comes to its end. -/
theorem exists_drained {s : Supervision σ} (hready : s.isReady = true)
    (hwhole : Lines.unended s.launch.unread = []) :
    ∃ n, ((List.replicate n SupervisionEvent.turn).foldl (step l sink) s).Drained := by
  induction hlength : s.launch.unread.length using Nat.strongRecOn generalizing s with
  | ind k ih =>
    by_cases hdeaf : s.deaf = true
    · exact ⟨0, Or.inl hdeaf⟩
    by_cases hnone : s.launch.unread = []
    · exact ⟨0, Or.inr hnone⟩
    -- A turn takes the next line.
    obtain ⟨line, rest, hcut⟩ := Lines.exists_cut hwhole hnone
    have hstep : step l sink s .turn = (s.leaving rest).take sink (Lines.trimReturn line) := by
      rw [step, hready, forward, hcut]
      simp [hdeaf]
    have hnext := isReady_step l sink hready .turn
    obtain ⟨deaf, state, htake⟩ := exists_take sink (Lines.trimReturn line) (s.leaving rest)
    have hunread : (step l sink s .turn).launch.unread = rest := by
      rw [hstep, htake]
      rfl
    have hshorter := Lines.cut?_length hcut
    obtain ⟨n, hdrained⟩ := ih _ (by rw [hunread]; omega) hnext
      (by rw [hunread]; exact Lines.unended_of_suffix (Lines.cut?_suffix hcut) hwhole) rfl
    exact ⟨n + 1, hdrained⟩

end Supervision

/-! ## Processes and tasks -/

namespace Supervision

/-- A process hands some records on: when its forwarder has nothing left to do, the sink has been
given all of them in their order, and with enough turns it has nothing left to do. -/
structure HandsOn {σ : Type} (l : Launcher) (sink : Sink σ) (records : List Record) (start : σ)
    (events : List SupervisionEvent) : Prop where
  given : (run l sink start events).Drained →
    (run l sink start events).sink = (Client.deliver sink records start).2
  drains : ∃ n, (run l sink start (events ++ List.replicate n .turn)).Drained

variable {σ : Type} {l : Launcher} (sink : Sink σ) {events : List SupervisionEvent}

/-- A process that reports that it is ready and then some records hands them on. -/
theorem handsOn_transcript {records : List Record} (hsound : ∀ r ∈ records, r.Sound)
    (hreadable : ∀ r ∈ records, r.Readable)
    (h : Delivers (WorkerProcess.transcript (.ready :: records.map .record))
      (SupervisionEvent.seenAmong events)) (start : σ) :
    HandsOn l sink records start events := by
  have hcut := WorkerProcess.cut?_transcript .ready (records.map .record)
  constructor
  case given =>
    intro hdrained
    have hready := Launcher.judge_line (e := .ready) trivial trivial l.verdict_ready
    rw [sink_of_drained l sink h hcut hready hdrained, forwarded_transcript hsound hreadable]
  case drains =>
    obtain ⟨hphase, -⟩ := @Launcher.run_transcript l .ready trivial trivial _ _ h _ l.verdict_ready
    have hready : (run l sink start events).isReady = true := by
      rw [isReady_iff, (alike_run l sink start events).phase]
      exact hphase
    have hwhole : Lines.unended (run l sink start events).launch.unread = [] :=
      Lines.unended_of_suffix (unread_run l sink h (begin start))
        (WorkerProcess.unended_transcript _)
    obtain ⟨n, hdrained⟩ := exists_drained l sink hready hwhole
    refine ⟨n, ?_⟩
    rw [run, List.foldl_append]
    exact hdrained

/-- A process that is refused gives the sink nothing. -/
theorem sink_of_refused {e : WorkerEvent} (hs : e.Sound) (hr : e.Readable) {es : List WorkerEvent}
    (h : Delivers (WorkerProcess.transcript (e :: es)) (SupervisionEvent.seenAmong events))
    {refusal : TrafficError}
    (hverdict : ∀ line, WorkerEvent.ofLine line = .ok e → l.verdict line = .error refusal)
    (start : σ) : (run l sink start events).sink = start := by
  obtain ⟨hphase, -⟩ := Launcher.run_transcript hs hr h hverdict
  refine sink_of_not_ready l sink start events (Bool.eq_false_iff.mpr fun hready => ?_)
  rw [isReady_iff, (alike_run l sink start events).phase, hphase] at hready
  cases hready

end Supervision

/-- A launch of a process, without a namespace, returns what starting the runnable as a task would
return, for every answer of the operating system to opening the socket; and if the worker was
started, the records that are handed on are those that the sink of the task would get, in the same
order. They are given to the sink of the parent by a forwarder that takes its turns at any time;
when the worker could not be started, that sink is given nothing. -/
theorem Launcher.process_as_task {σ η : Type} (os : Host η) (d : Deployment σ η) (l : Launcher)
    {child : WorkerProcess.Surroundings} (hprepare : child.prepare = .ok ())
    (hbind : ∀ spec, child.bind spec = (os.bind spec d.host).1) {runnable : Runnable}
    (hrunnable : runnable.Sound) {records : List Record}
    (hsound : ∀ r ∈ records, r.Sound) (hreadable : ∀ r ∈ records, r.Readable) :
    ∃ bytes, WorkerProcess.output? child
        (CommandLine.workerArguments runnable.toJson.text none) records = some bytes ∧
      (∀ events, Delivers bytes events →
        (l.run events).phase = .returned ((d.startTask os runnable).1.map fun _ => ()) ∧
          ((d.startTask os runnable).1.isOk →
            forwarded (Lines.all (l.run events).unread) = runnable.submits records)) ∧
      ∀ {τ : Type} (sink : Sink τ) (start : τ) (events : List SupervisionEvent),
        Delivers bytes (SupervisionEvent.seenAmong events) →
          if (d.startTask os runnable).1.isOk then
            Supervision.HandsOn l sink (runnable.submits records) start events
          else (Supervision.run l sink start events).sink = start := by
  have hparse := CommandLine.parse_workerArguments runnable.looksLikeOption_text
  have hsubmits : ∀ r ∈ runnable.submits records, r ∈ records := by
    cases runnable <;> simp [Runnable.submits]
  have hsound' := fun r hr => hsound r (hsubmits r hr)
  have hreadable' := fun r hr => hreadable r (hsubmits r hr)
  refine ⟨_, by simp only [WorkerProcess.output?, hparse]; rfl, ?_⟩
  rcases WorkerProcess.reports_as_task os d hprepare hbind hrunnable records with
    ⟨w, hstart, hevents⟩ | ⟨text, hstart, hevents⟩ <;> rw [hstart, hevents]
  · refine ⟨fun events h => ?_, fun sink start events h => ?_⟩
    · obtain ⟨hphase, hunread⟩ := @run_transcript l .ready trivial trivial _ _ h _ l.verdict_ready
      refine ⟨hphase, fun _ => ?_⟩
      rw [hunread]
      exact forwarded_transcript hsound' hreadable'
    · exact Supervision.handsOn_transcript sink hsound' hreadable' h start
  · -- What the process says of the socket is the text that the task would report.
    have hfailed : ∀ line, WorkerEvent.ofLine line = .ok (.failed .bind text) →
        l.verdict line = .error (.bind text) := fun line hline => by rw [verdict, hline]; rfl
    refine ⟨fun events h => ?_, fun sink start events h => ?_⟩
    · obtain ⟨hphase, -⟩ := @run_transcript l (.failed .bind text) trivial trivial _ _ h _ hfailed
      exact ⟨hphase, by rintro ⟨⟩⟩
    · exact Supervision.sink_of_refused (e := .failed .bind text) sink trivial trivial h hfailed
        start

/-- A worker process on a machine gets the answers that a task on it would get. -/
theorem Machine.bind_surroundings (m : Machine) (readyMs : Nat) (spec : ServerSpec) :
    m.surroundings.bind spec = ((host readyMs).bind spec m).1 := by
  show (m.bind spec).1.mapError SystemError.message = _
  rcases hb : m.bind spec with ⟨answer, m'⟩
  cases answer <;> simp only [host, hb, Except.mapError]

namespace Launcher

/-- A server, and a machine on which its port is taken. -/
def busyServer : ServerSpec := ⟨.tcp, 80, .loopback⟩

def busyMachine : Machine where
  sockets := [busyServer]
  network := .unrouted
  enter _ := .ok ()
  program := .worker
  cycles := 1
  serial := 0

def idleClient : ClientSpec := ⟨.loopback, [], .default⟩

/-- A sink that keeps what it is given. -/
def keeping : Sink (List Record) := fun r kept => (.ok (), kept ++ [r])

/-- On that machine the server is refused as a process, too, and the record of a client comes
through. -/
theorem process_as_task_busy :
    (∃ bytes, WorkerProcess.output? busyMachine.surroundings
        (CommandLine.workerArguments (Runnable.server busyServer).toJson.text none) [] =
          some bytes ∧
      ∀ events, Delivers bytes events → ((⟨.nil, 1000⟩ : Launcher).run events).phase =
        .returned (.error (.bind SystemError.addressInUse.message))) ∧
    ∃ bytes, WorkerProcess.output? busyMachine.surroundings
        (CommandLine.workerArguments (Runnable.client idleClient).toJson.text none)
          [twoLineRecord] = some bytes ∧
      (∀ events, Delivers bytes events →
        forwarded (Lines.all ((⟨.nil, 1000⟩ : Launcher).run events).unread) = [twoLineRecord]) ∧
      ∀ events, Delivers bytes (SupervisionEvent.seenAmong events) →
        Supervision.HandsOn ⟨.nil, 1000⟩ keeping [twoLineRecord] [] events := by
  have hbind := busyMachine.bind_surroundings 1000
  have hport : (Runnable.server busyServer).Sound := by
    show busyServer.port < portBound
    decide
  have hclient : (Runnable.client idleClient).Sound :=
    ⟨List.forall_mem_nil Destination.Sound, TrafficSettings.sound_default⟩
  have hsound : ∀ r ∈ [twoLineRecord], r.Sound := by
    rw [List.forall_mem_singleton]
    show twoLineRecord.port < portBound
    decide
  have hreadable : ∀ r ∈ [twoLineRecord], r.Readable := by
    rw [List.forall_mem_singleton]
    show twoLineRecord.latency.ReadsBack
    decide +kernel
  obtain ⟨refused, hrefused, hserver, -⟩ := process_as_task (Machine.host 1000)
    (Deployment.fresh () busyMachine (.collected [])) ⟨.nil, 1000⟩ rfl hbind hport
    (List.forall_mem_nil Record.Sound) (List.forall_mem_nil Record.Readable)
  obtain ⟨written, hwritten, hrecords, hgiven⟩ := process_as_task (Machine.host 1000)
    (Deployment.fresh () busyMachine (.collected [])) ⟨.nil, 1000⟩ rfl hbind hclient hsound
    hreadable
  exact ⟨⟨refused, hrefused, fun events h => (hserver events h).1⟩,
    ⟨written, hwritten, fun events h => (hrecords events h).2 rfl, hgiven keeping []⟩⟩

end Launcher

end PolicyProbe
