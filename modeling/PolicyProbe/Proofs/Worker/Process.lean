import PolicyProbe.Proofs.Worker.Launch

/-!
A worker process keeps to the protocol. `act` is the process as it goes on in time: it asks the
operating system and writes events, and all of this is noted. It ends and reports as `begin` and
`events` tell (`run_act`), and what it asks it asks before its first event, the socket of a server
last (`opened_of_attempts`). So its lines are one failure, or `ready` and then records, and a launch
that reads them, in whatever pieces, comes to what the first of them says (`Spoken`, `Heard`).
-/
namespace PolicyProbe

namespace WorkerProcess

/-! ## The process in time -/

/-- What a worker process does, with the answer that it gets. -/
inductive Deed where
  | entered (path : String) (answer : Except SystemError Unit)
  | prepared (answer : Except String Unit)
  | opened (server : ServerSpec) (answer : Except String Unit)
  | wrote (event : WorkerEvent)

namespace Deed

/-- The event that was written, if one was. -/
def event? : Deed → Option WorkerEvent
  | .wrote event => some event
  | _ => none

end Deed

/-- A part of the process, with all that it does noted. -/
abbrev Acting := StateM (List Deed)

/-- Does something that is answered. -/
def doing {α : Type} (deed : α → Deed) (answer : α) : Acting α := do
  modify (· ++ [deed answer])
  return answer

/-- Writes an event. -/
def emit (event : WorkerEvent) : Acting Unit := modify (· ++ [.wrote event])

/-- Reports a failure; the exit code is one. -/
def fail (stage : FailureStage) (message : String) : Acting (Option Nat) := do
  emit (.failed stage message)
  return some 1

/-- Runs a worker: a server, which opens its socket first, or a client with the records of its
pings. -/
def serve (os : Surroundings) (records : List Record) : Runnable → Acting (Option Nat)
  | .server spec => do
    match ← doing (.opened spec) (os.bind spec) with
    | .error text => fail .bind text
    | .ok _ =>
      emit .ready
      return none
  | .client _ => do
    emit .ready
    records.forM fun r => emit (.record r)
    return none

/-- Prepares the process and runs what it has to run. -/
def prepareAndServe (os : Surroundings) (records : List Record) (runnable : Runnable) :
    Acting (Option Nat) := do
  match ← doing .prepared os.prepare with
  | .error text => fail .setup text
  | .ok _ => serve os records runnable

/-- The process from its specification to its exit code, if it ends by itself. -/
def act (os : Surroundings) (spec : String) (path : Option String) (records : List Record) :
    Acting (Option Nat) :=
  match Runnable.decoder.run spec with
  | .error e => fail .setup (invalidSpec e)
  | .ok runnable =>
    match path with
    | none => prepareAndServe os records runnable
    | some path => do
      match ← doing (.entered path) (os.enter path) with
      | .error e => fail .namespaceEntry (cannotEnter path e)
      | .ok _ => prepareAndServe os records runnable

/-! ## What it does before its first event -/

/-- What is done to open the socket of a server. -/
def openings (os : Surroundings) : Runnable → List Deed
  | .server spec => [.opened spec (os.bind spec)]
  | .client _ => []

/-- What is done behind the namespace. -/
def preparations (os : Surroundings) (runnable : Runnable) : List Deed :=
  .prepared os.prepare :: match os.prepare with
    | .error _ => []
    | .ok _ => openings os runnable

/-- What is done before the first event. -/
def attempts (os : Surroundings) (spec : String) (path : Option String) : List Deed :=
  match Runnable.decoder.run spec with
  | .error _ => []
  | .ok runnable =>
    match path with
    | none => preparations os runnable
    | some path => .entered path (os.enter path) :: match os.enter path with
      | .error _ => []
      | .ok _ => preparations os runnable

/-- What comes to run once the process is prepared, or what failed. -/
def opened (os : Surroundings) (runnable : Runnable) : Except (FailureStage × String) Runnable := do
  openSocket os runnable
  return runnable

/-- What comes to run behind the namespace, or what failed. -/
def prepared (os : Surroundings) (runnable : Runnable) : Except (FailureStage × String) Runnable :=
  match os.prepare with
  | .error text => .error (.setup, text)
  | .ok _ => opened os runnable

theorem forM_emit (records : List Record) (log : List Deed) :
    (records.forM fun r => emit (.record r)).run log =
      ((), log ++ (records.map WorkerEvent.record).map .wrote) := by
  induction records generalizing log with
  | nil => rw [List.map_nil, List.map_nil, List.append_nil]; rfl
  | cons r records ih =>
    show (records.forM fun r => emit (.record r)).run (log ++ [.wrote (.record r)]) = _
    rw [ih, List.append_assoc]
    rfl

theorem run_serve (os : Surroundings) (records : List Record) (runnable : Runnable)
    (log : List Deed) :
    (serve os records runnable).run log = (exitCode? (opened os runnable),
      log ++ openings os runnable ++ (events (opened os runnable) records).map .wrote) := by
  cases runnable with
  | server spec =>
    rw [serve, openings, opened, openSocket]
    rcases os.bind spec with text | ⟨⟩ <;> rfl
  | client spec =>
    rw [openings, List.append_nil]
    show (none, ((records.forM fun r => emit (.record r)).run (log ++ [.wrote .ready])).2) = _
    rw [forM_emit, List.append_assoc]
    rfl

theorem run_prepareAndServe (os : Surroundings) (records : List Record) (runnable : Runnable)
    (log : List Deed) :
    (prepareAndServe os records runnable).run log = (exitCode? (prepared os runnable),
      log ++ preparations os runnable ++ (events (prepared os runnable) records).map .wrote) := by
  rw [prepareAndServe, preparations, prepared]
  rcases os.prepare with text | ⟨⟩
  · rfl
  · show (serve os records runnable).run (log ++ [.prepared (.ok ())]) = _
    rw [run_serve, List.append_assoc log]
    rfl

/-- The process ends and reports as it is told without time, behind what it does first. -/
theorem run_act (os : Surroundings) (spec : String) (path : Option String)
    (records : List Record) :
    (act os spec path records).run [] = (exitCode? (begin os spec path),
      attempts os spec path ++ (events (begin os spec path) records).map .wrote) := by
  rw [act, attempts, begin]
  rcases Runnable.decoder.run spec with e | runnable
  · rfl
  · cases path with
    | none => exact run_prepareAndServe os records runnable []
    | some path =>
      dsimp only
      rw [enterNamespace]
      rcases os.enter path with e | ⟨⟩
      · rfl
      · exact run_prepareAndServe os records runnable [.entered path (.ok ())]

/-! ## What it does before it opens a socket -/

theorem event?_of_mem_preparations {os : Surroundings} {runnable : Runnable} :
    ∀ deed ∈ preparations os runnable, deed.event? = none := by
  rw [preparations, List.forall_mem_cons]
  refine ⟨rfl, ?_⟩
  split
  · exact List.forall_mem_nil _
  · cases runnable with
    | server spec => exact List.forall_mem_singleton.mpr rfl
    | client spec => exact List.forall_mem_nil _

/-- Before its first event the process writes nothing. -/
theorem event?_of_mem_attempts {os : Surroundings} {spec : String} {path : Option String} :
    ∀ deed ∈ attempts os spec path, deed.event? = none := by
  rw [attempts]
  split
  · exact List.forall_mem_nil _
  · split
    · exact event?_of_mem_preparations
    · rw [List.forall_mem_cons]
      refine ⟨rfl, ?_⟩
      split
      · exact List.forall_mem_nil _
      · exact event?_of_mem_preparations

theorem opened_of_mem_preparations {os : Surroundings} {runnable : Runnable} {server : ServerSpec}
    {answer : Except String Unit} (h : .opened server answer ∈ preparations os runnable) :
    runnable = .server server ∧ answer = os.bind server ∧ os.prepare = .ok () := by
  rw [preparations, List.mem_cons] at h
  rcases h with h | h
  · exact nomatch h
  · split at h
    · exact absurd h List.not_mem_nil
    · rename_i hprepare
      cases runnable with
      | server spec =>
        obtain ⟨rfl, rfl⟩ := Deed.opened.inj (List.mem_singleton.mp h)
        exact ⟨rfl, rfl, hprepare⟩
      | client spec => exact absurd h List.not_mem_nil

/-- When the socket of a server is opened, the specification was decoded to it, and the namespace,
if there is one, was entered. -/
theorem opened_of_attempts {os : Surroundings} {spec : String} {path : Option String}
    {before after : List Deed} {server : ServerSpec} {answer : Except String Unit}
    (h : attempts os spec path = before ++ .opened server answer :: after) :
    Runnable.decoder.run spec = .ok (.server server) ∧
      (∀ p, path = some p → .entered p (.ok ()) ∈ before) ∧
      begin os spec path = opened os (.server server) ∧ answer = os.bind server := by
  have hmem : .opened server answer ∈ attempts os spec path :=
    h ▸ List.mem_append_right before List.mem_cons_self
  rw [attempts] at h hmem
  rw [begin]
  rcases hdecoded : Runnable.decoder.run spec with e | runnable
  · rw [hdecoded] at hmem
    exact absurd hmem List.not_mem_nil
  rw [hdecoded] at h hmem
  dsimp only at h hmem ⊢
  cases path with
  | none =>
    obtain ⟨rfl, hanswer, hprepare⟩ := opened_of_mem_preparations hmem
    rw [hprepare]
    exact ⟨rfl, by rintro _ ⟨⟩, rfl, hanswer⟩
  | some path =>
    dsimp only at h hmem
    rw [enterNamespace]
    -- Entering is noted first, so it stands before the opening, which is not noted when it fails.
    rcases hentered : os.enter path with e | ⟨⟩
    · rw [hentered] at hmem
      cases List.mem_singleton.mp hmem
    · rw [hentered] at h hmem
      have hne : Deed.opened server answer ≠ .entered path (.ok ()) := by rintro ⟨⟩
      have hrest := List.mem_of_ne_of_mem hne hmem
      obtain ⟨rfl, hanswer, hprepare⟩ := opened_of_mem_preparations hrest
      rw [hprepare]
      refine ⟨rfl, fun p hp => ?_, rfl, hanswer⟩
      obtain rfl := Option.some.inj hp
      cases before with
      | nil => cases (List.cons.inj h).1
      | cons deed before =>
        rw [(List.cons.inj h).1]
        exact List.mem_cons_self

/-- What is opened is opened before the first event. -/
theorem opened_before_events {os : Surroundings} {spec : String} {path : Option String}
    {records : List Record} {before after : List Deed} {server : ServerSpec}
    {answer : Except String Unit}
    (h : ((act os spec path records).run []).2 = before ++ .opened server answer :: after) :
    ∃ rest, attempts os spec path = before ++ .opened server answer :: rest := by
  have hwrite : ∀ {ds : List Deed} {es : List WorkerEvent},
      es.map Deed.wrote ≠ ds ++ .opened server answer :: after := by
    intro ds es heq
    have hmem : .opened server answer ∈ es.map Deed.wrote :=
      heq ▸ List.mem_append_right ds List.mem_cons_self
    obtain ⟨e, -, he⟩ := List.mem_map.mp hmem
    exact nomatch he
  rw [run_act] at h
  rcases List.append_eq_append_iff.mp h with ⟨ds, -, hevents⟩ | ⟨ds, hattempts, hevents⟩
  · exact absurd hevents hwrite
  · cases ds with
    | nil => exact absurd hevents.symm (@hwrite [] _)
    | cons deed ds =>
      rw [List.cons_append] at hevents
      obtain ⟨rfl, -⟩ := List.cons.inj hevents
      exact ⟨ds, hattempts⟩

/-- What the process writes is what it reports. -/
theorem written_act (os : Surroundings) (spec : String) (path : Option String)
    (records : List Record) :
    ((act os spec path records).run []).2.filterMap Deed.event? =
      events (begin os spec path) records := by
  have hnone : (attempts os spec path).filterMap Deed.event? = [] :=
    List.filterMap_eq_nil_iff.mpr event?_of_mem_attempts
  have hall : ∀ es : List WorkerEvent, (es.map Deed.wrote).filterMap Deed.event? = es := by
    intro es
    rw [List.filterMap_map]
    exact List.filterMap_some
  rw [run_act, List.filterMap_append, hnone, List.nil_append, hall]

end WorkerProcess

/-! ## A launch that has seen a part -/

namespace Launcher

variable {l : Launcher}

/-- A launch that has returned stays so. -/
theorem phase_returned {s : Launch} {verdict : Except TrafficError Unit}
    (hs : s.phase = .returned verdict) (events : List ChildEvent) :
    (events.foldl l.step s).phase = .returned verdict := by
  induction events generalizing s with
  | nil => exact hs
  | cons event events ih =>
    refine ih ?_
    cases event <;> simp only [step, reap, hs]

/-- As long as a launch has not seen the whole first line it reads, and then that line decides. -/
theorem run_part {bytes : List UInt8} {events : List ChildEvent} (h : Delivers bytes events)
    {seen : List ChildEvent} (hseen : seen <+: events) {s : Launch} (hs : s.phase = .reading)
    (hunread : Lines.cut? s.unread = none) {line rest : List UInt8}
    (hcut : Lines.cut? (s.unread ++ bytes) = some (line, rest)) :
    (seen.foldl l.step s).phase = .reading ∨
      (seen.foldl l.step s).phase = .returned (l.judge (Lines.trimReturn line)) := by
  induction h generalizing s seen with
  | done =>
    rw [List.append_nil, hunread] at hcut
    exact nomatch hcut
  | closed h ih =>
    rw [List.append_nil, hunread] at hcut
    exact nomatch hcut
  | @piece bytes more events h ih =>
    rcases List.prefix_cons_iff.mp hseen with rfl | ⟨seen, rfl, hrest⟩
    · exact Or.inl hs
    · rw [List.foldl_cons]
      rcases step_reading hs hcut with ⟨hstep, hnone⟩ | ⟨behind, rfl, hstep⟩
      · rw [hstep]
        exact ih hrest hs hnone (by rwa [← List.append_assoc] at hcut)
      · rw [hstep]
        exact Or.inr (phase_returned rfl seen)
  | exited code h ih =>
    rcases List.prefix_cons_iff.mp hseen with rfl | ⟨seen, rfl, hrest⟩
    · exact Or.inl hs
    · have hstep : l.step s (.exited code) = { s with exit := some (statusOfCode code) } := by
        simp only [step, reap, hs]
      rw [List.foldl_cons, hstep]
      exact ih hrest hs hunread hcut

theorem run_expired {s : Launch} (hs : s.phase = .reading) :
    (l.step s .expired).phase = .returned (.error l.tooLate) := by
  simp only [step, hs]
  rfl

end Launcher

/-! ## The protocol -/

namespace WorkerProcess

/-- What a process writes, with its exit code and with what that means to a launch: one failure and
the exit code one, or that it is ready, and then only records. -/
inductive Spoken : List WorkerEvent → Option Nat → Except TrafficError Unit → Prop where
  | failed (stage : FailureStage) (message : String) :
    Spoken [.failed stage message] (some 1) (.error (Launcher.reported stage message))
  | ready (records : List Record) : Spoken (.ready :: records.map .record) none (.ok ())

/-- What every launch comes to that reads some bytes, in whatever pieces. When it has seen a part of
them, it has come to it, or it reads on, until its time ends. -/
def Heard (bytes : List UInt8) (verdict : Except TrafficError Unit) : Prop :=
  ∀ (l : Launcher) (events : List ChildEvent), Delivers bytes events →
    (l.run events).phase = .returned verdict ∧ ∀ seen, seen <+: events →
      (l.run seen).phase = .returned verdict ∨
        (l.run seen).phase = .reading ∧
          (l.run (seen ++ [.expired])).phase = .returned (.error l.tooLate)

theorem heard_transcript {e : WorkerEvent} (hs : e.Sound) (hr : e.Readable)
    (es : List WorkerEvent) {verdict : Except TrafficError Unit}
    (hverdict : ∀ (l : Launcher) line, WorkerEvent.ofLine line = .ok e → l.verdict line = verdict) :
    Heard (transcript (e :: es)) verdict := by
  intro l events h
  refine ⟨(Launcher.run_transcript hs hr h (hverdict l)).1, fun seen hseen => ?_⟩
  have hpart := Launcher.run_part h hseen (l := l) (s := Launcher.begin) rfl rfl
    (cut?_transcript e es)
  rw [Launcher.judge_line hs hr (hverdict l)] at hpart
  rcases hpart with hreading | hreturned
  · refine Or.inr ⟨hreading, ?_⟩
    rw [Launcher.run, List.foldl_append]
    exact Launcher.run_expired hreading
  · exact Or.inl hreturned

/-- What a process reports, whatever it comes to. -/
theorem spoken_events (begun : Except (FailureStage × String) Runnable) (records : List Record) :
    ∃ verdict, Spoken (events begun records) (exitCode? begun) verdict ∧
      Heard (transcript (events begun records)) verdict := by
  cases begun with
  | error failure =>
    obtain ⟨stage, message⟩ := failure
    refine ⟨_, .failed stage message, @heard_transcript (.failed stage message) trivial trivial [] _
      fun l line hline => ?_⟩
    rw [Launcher.verdict, hline]
  | ok runnable => cases runnable with
    | server spec =>
      exact ⟨_, .ready [], @heard_transcript .ready trivial trivial _ _ Launcher.verdict_ready⟩
    | client spec =>
      exact ⟨_, .ready records, @heard_transcript .ready trivial trivial _ _ Launcher.verdict_ready⟩

/-- How a process keeps to the protocol, given its exit code and what it has done. -/
structure Protocol (os : Surroundings) (spec : String) (path : Option String)
    (records : List Record) (exit : Option Nat) (log : List Deed) : Prop where
  exit_eq : exit = exitCode? (begin os spec path)
  written : log.filterMap Deed.event? = events (begin os spec path) records
  lines : Lines.all (transcript (log.filterMap Deed.event?)) =
    (log.filterMap Deed.event?).map fun e => e.line.toUTF8.toList
  spoken : ∃ verdict, Spoken (log.filterMap Deed.event?) exit verdict ∧
    Heard (transcript (log.filterMap Deed.event?)) verdict
  opened : ∀ before server answer after, log = before ++ .opened server answer :: after →
    Runnable.decoder.run spec = .ok (.server server) ∧
      ∀ p, path = some p → .entered p (.ok ()) ∈ before
  refused : ∀ server text, .opened server (.error text) ∈ log → .wrote .ready ∉ log

/-- Whatever a worker process is given and however the operating system answers it, it keeps to the
protocol. -/
theorem protocol_act (os : Surroundings) (spec : String) (path : Option String)
    (records : List Record) :
    Protocol os spec path records ((act os spec path records).run []).1
      ((act os spec path records).run []).2 := by
  have hwritten := written_act os spec path records
  have hexit : ((act os spec path records).run []).1 = exitCode? (begin os spec path) := by
    rw [run_act]
  constructor
  case exit_eq => exact hexit
  case written => exact hwritten
  case lines =>
    have hplain : ∀ s ∈ (events (begin os spec path) records).map WorkerEvent.line,
        Lines.Plain s.toList := by
      intro s hs
      obtain ⟨e, -, rfl⟩ := List.mem_map.mp hs
      exact e.plain_line
    have hlines := Lines.all_flatMap_ofText hplain
    rw [List.flatMap_map, List.map_map] at hlines
    rw [hwritten]
    exact hlines
  case spoken =>
    rw [hwritten, hexit]
    exact spoken_events _ records
  case opened =>
    intro before server answer after h
    obtain ⟨rest, hattempts⟩ := opened_before_events h
    obtain ⟨hdecoded, hentered, -⟩ := opened_of_attempts hattempts
    exact ⟨hdecoded, hentered⟩
  case refused =>
    intro server text hmem hready
    obtain ⟨before, after, hsplit⟩ := List.append_of_mem hmem
    obtain ⟨rest, hattempts⟩ := opened_before_events hsplit
    obtain ⟨-, -, hbegin, hanswer⟩ := opened_of_attempts hattempts
    -- The refusal of the socket is all that is reported.
    have hfailed : begin os spec path = .error (.bind, text) := by
      rw [hbegin, WorkerProcess.opened, openSocket, ← hanswer]
      rfl
    have hevent : .ready ∈ events (begin os spec path) records := by
      rw [← hwritten]
      exact List.mem_filterMap.mpr ⟨_, hready, rfl⟩
    rw [hfailed] at hevent
    cases List.mem_singleton.mp hevent

end WorkerProcess

end PolicyProbe
