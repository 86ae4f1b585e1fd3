import PolicyProbe.Proofs.Worker.Process
import PolicyProbe.Worker.Supervision

/-!
The verdict on a process that was spawned. What a launch comes to is read off from what was written
in time alone (`FirstLine`): the bytes before its output ends, a read of it fails or the time is
over, and which of these came first. `comes_run` says so for every sequence of events; the rest
looks only at the first line. A process that is refused has been killed (`killed_iff`), and nothing
of it reaches the sink (`sink_of_not_ready`), whatever comes behind its first line and whenever a
forwarder would take a turn. A process that is ready has its records handed on in full
(`sink_of_drained`).
-/
namespace PolicyProbe

/-! ## The first line -/

namespace ChildEvent

/-- The bytes of an event. -/
def bytes : ChildEvent → List UInt8
  | .output bytes => bytes
  | _ => []

/-- Whether an event ends the wait for a first line. -/
def ends : ChildEvent → Bool
  | .closed | .faulted _ | .expired => true
  | _ => false

/-- The wait status of a process that an event ends. -/
def status? : ChildEvent → Option Nat
  | .exited code => some (Launcher.statusOfCode code)
  | .signalled signal => some signal
  | _ => none

end ChildEvent

/-- What comes of the wait for a first line: a line, an output that ends without a byte, a read that
fails, the end of the time, or nothing so far. -/
inductive FirstLine where
  | line (bytes : List UInt8)
  | nothing
  | faulted (text : String)
  | late
  | awaited
  deriving DecidableEq

namespace FirstLine

/-- What comes of bytes without a line feed. -/
def ofEnd (bytes : List UInt8) : Option ChildEvent → FirstLine
  | some .closed => if bytes.isEmpty then .nothing else .line bytes
  | some (.faulted text) => .faulted text
  | some .expired => .late
  | _ => .awaited

/-- What comes of bytes that were written before the wait ended. -/
def ofBytes (bytes : List UInt8) (last : Option ChildEvent) : FirstLine :=
  match Lines.cut? bytes with
  | some (first, _) => .line (Lines.trimReturn first)
  | none => ofEnd bytes last

/-- The bytes that were written before the wait ended. -/
def inTime (events : List ChildEvent) : List UInt8 :=
  (events.takeWhile (!·.ends)).flatMap ChildEvent.bytes

/-- What comes of some events. -/
def among (events : List ChildEvent) : FirstLine :=
  ofBytes (inTime events) (events.find? (·.ends))

/-- Whether a first line came in time and is that of an event. -/
def Reports (first : FirstLine) (e : WorkerEvent) : Prop :=
  ∃ line text, first = .line line ∧ Lines.text? line = some text ∧ WorkerEvent.ofLine text = .ok e

theorem ofBytes_of_none {bytes : List UInt8} (h : Lines.cut? bytes = none)
    (last : Option ChildEvent) : ofBytes bytes last = ofEnd bytes last := by
  rw [ofBytes, h]

theorem ofBytes_of_some {bytes first rest : List UInt8}
    (h : Lines.cut? bytes = some (first, rest)) (more : List UInt8) (last : Option ChildEvent) :
    ofBytes (bytes ++ more) last = .line (Lines.trimReturn first) := by
  rw [ofBytes, Lines.cut?_append_of_some h more]

theorem inTime_cons_of_ends {event : ChildEvent} (h : event.ends = true)
    (events : List ChildEvent) : inTime (event :: events) = [] := by
  rw [inTime, List.takeWhile_cons_of_neg (by simp [h])]
  rfl

theorem inTime_cons {event : ChildEvent} (h : event.ends = false) (events : List ChildEvent) :
    inTime (event :: events) = event.bytes ++ inTime events := by
  rw [inTime, List.takeWhile_cons_of_pos (by simp [h]), List.flatMap_cons, inTime]

end FirstLine

/-- What is seen first of a process whose bytes are all seen. -/
theorem Delivers.uncons {bytes : List UInt8} {event : ChildEvent} {events : List ChildEvent}
    (h : Delivers bytes (event :: events)) :
    ∃ more, bytes = event.bytes ++ more ∧ Delivers more events ∧
      (event.ends = true → event = .closed ∧ more = []) := by
  cases h with
  | piece written h => exact ⟨_, rfl, h, fun hends => by cases hends⟩
  | closed h => exact ⟨[], rfl, h, fun _ => ⟨rfl, rfl⟩⟩
  | exited code h => exact ⟨bytes, rfl, h, fun hends => by cases hends⟩

namespace Launcher

variable {l : Launcher}

/-! ## What a launch comes to -/

/-- What a first line makes of a launch that knows some wait statuses of its process. -/
inductive Comes (l : Launcher) (statuses : List Nat) : FirstLine → LaunchPhase → Prop where
  | line (bytes : List UInt8) : Comes l statuses (.line bytes) (.returned (l.judge bytes))
  | ended {status : Nat} (h : status ∈ statuses) :
    Comes l statuses .nothing (.returned (.error (l.exitedEarly status)))
  | reaping (h : statuses = []) : Comes l statuses .nothing .reaping
  | faulted (text : String) :
    Comes l statuses (.faulted text) (.returned (.error (l.failedRead text)))
  | late : Comes l statuses .late (.returned (.error l.tooLate))
  | awaited : Comes l statuses .awaited .reading

/-- A launch that waits for the exit of its process goes on with the first one. -/
theorem comes_reaping {s : Launch} (hs : s.phase = .reaping) (events : List ChildEvent) :
    Comes l (events.filterMap ChildEvent.status?) .nothing (events.foldl l.step s).phase := by
  induction events generalizing s with
  | nil =>
    rw [List.foldl_nil, hs]
    exact .reaping rfl
  | cons event events ih =>
    have hpasses (hstatus : event.status? = none) (hstep : (l.step s event).phase = .reaping) :
        Comes l ((event :: events).filterMap ChildEvent.status?) .nothing
          ((event :: events).foldl l.step s).phase := by
      rw [List.filterMap_cons_none hstatus]
      exact ih hstep
    have hends {status : Nat} (hstatus : event.status? = some status)
        (hstep : (l.step s event).phase = .returned (.error (l.exitedEarly status))) :
        Comes l ((event :: events).filterMap ChildEvent.status?) .nothing
          ((event :: events).foldl l.step s).phase := by
      rw [List.filterMap_cons_some hstatus, List.foldl_cons, phase_returned hstep]
      exact .ended List.mem_cons_self
    cases event with
    | output bytes => exact hpasses rfl (by simp only [step, hs])
    | closed => exact hpasses rfl (by simp only [step, hs])
    | faulted text => exact hpasses rfl (by simp only [step, hs])
    | expired => exact hpasses rfl (by simp only [step, hs])
    | exited code => exact hends rfl (by simp only [step, reap, hs]; rfl)
    | signalled signal => exact hends rfl (by simp only [step, reap, hs]; rfl)

theorem step_exited {s : Launch} (hs : s.phase = .reading) (code : Nat) :
    l.step s (.exited code) = { s with exit := some (statusOfCode code) } := by
  simp only [step, reap, hs]

theorem step_signalled {s : Launch} (hs : s.phase = .reading) (signal : Nat) :
    l.step s (.signalled signal) = { s with exit := some signal } := by
  simp only [step, reap, hs]

/-- A launch that reads comes to what its unused bytes and those written in time make a first line.
The statuses that it knows are those of `known`. -/
theorem comes_reading {s : Launch} (hs : s.phase = .reading) (hunread : Lines.cut? s.unread = none)
    {known : List Nat} (hsome : ∀ status, s.exit = some status → status ∈ known)
    (hnone : s.exit = none → known = []) (events : List ChildEvent) :
    Comes l (known ++ events.filterMap ChildEvent.status?)
      (.ofBytes (s.unread ++ FirstLine.inTime events) (events.find? (·.ends)))
      (events.foldl l.step s).phase := by
  induction events generalizing s known with
  | nil =>
    have hfirst : FirstLine.ofBytes (s.unread ++ FirstLine.inTime []) none = .awaited := by
      rw [show FirstLine.inTime [] = [] from rfl, List.append_nil,
        FirstLine.ofBytes_of_none hunread]
      rfl
    rw [List.find?_nil, hfirst, List.foldl_nil, hs]
    exact .awaited
  | cons event events ih =>
    -- An event that ends the wait leaves the bytes as they are.
    have hlast (hends : event.ends = true) :
        FirstLine.ofBytes (s.unread ++ FirstLine.inTime (event :: events))
          ((event :: events).find? (·.ends)) = .ofEnd s.unread (some event) := by
      rw [FirstLine.inTime_cons_of_ends hends, List.append_nil, List.find?_cons_of_pos hends,
        FirstLine.ofBytes_of_none hunread]
    have hdied {status : Nat} (hstatus : event.status? = some status) (hends : event.ends = false)
        (hbytes : event.bytes = []) (hstep : l.step s event = { s with exit := some status }) :
        Comes l (known ++ (event :: events).filterMap ChildEvent.status?)
          (.ofBytes (s.unread ++ FirstLine.inTime (event :: events))
            ((event :: events).find? (·.ends))) ((event :: events).foldl l.step s).phase := by
      rw [List.filterMap_cons_some hstatus, FirstLine.inTime_cons hends, hbytes, List.nil_append,
        List.find?_cons_of_neg (by simp [hends]), List.foldl_cons, hstep, List.append_cons]
      exact ih (s := { s with exit := some status }) hs hunread
        (fun _ h => Option.some.inj h ▸ List.mem_append_right _ (List.mem_singleton_self _))
        (fun h => nomatch h)
    rw [List.foldl_cons]
    cases event with
    | output bytes =>
      have hstep : l.step s (.output bytes) = l.look { s with unread := s.unread ++ bytes } := by
        simp only [step, hs]
      rw [List.filterMap_cons_none rfl, FirstLine.inTime_cons rfl,
        List.find?_cons_of_neg (by simp [ChildEvent.ends]), ← List.append_assoc, hstep, look]
      cases hcut : Lines.cut? (s.unread ++ bytes) with
      | none => exact ih (s := { s with unread := s.unread ++ bytes }) hs hcut hsome hnone
      | some p =>
        obtain ⟨first, rest⟩ := p
        have hsettled : (settle (l.judge (Lines.trimReturn first))
            { s with unread := rest }).phase = .returned (l.judge (Lines.trimReturn first)) := rfl
        show Comes l _ (.ofBytes (s.unread ++ bytes ++ _) _)
          (events.foldl l.step (settle _ _)).phase
        rw [FirstLine.ofBytes_of_some hcut, phase_returned hsettled]
        exact .line _
    | closed =>
      have hstep : l.step s .closed = l.close s := by simp only [step, hs]
      rw [hlast rfl, hstep, close, List.filterMap_cons_none rfl]
      by_cases hempty : s.unread.isEmpty = true
      · rw [if_pos hempty]
        have hfirst : FirstLine.ofEnd s.unread (some .closed) = .nothing := if_pos hempty
        rw [hfirst]
        cases hexit : s.exit with
        | some status =>
          have hsettled : (settle (.error (l.exitedEarly status)) s).phase =
            .returned (.error (l.exitedEarly status)) := rfl
          rw [phase_returned hsettled]
          exact .ended (List.mem_append_left _ (hsome status hexit))
        | none =>
          rw [hnone hexit, List.nil_append]
          exact comes_reaping rfl events
      · rw [if_neg hempty]
        have hfirst : FirstLine.ofEnd s.unread (some .closed) = .line s.unread := if_neg hempty
        have hsettled : (settle (l.judge s.unread) { s with unread := [] }).phase =
          .returned (l.judge s.unread) := rfl
        rw [hfirst, phase_returned hsettled]
        exact .line _
    | faulted text =>
      have hstep : (l.step s (.faulted text)).phase = .returned (.error (l.failedRead text)) := by
        simp only [step, hs]
        rfl
      rw [hlast rfl, phase_returned hstep]
      exact .faulted text
    | expired =>
      rw [hlast rfl, phase_returned (run_expired hs)]
      exact .late
    | exited code => exact hdied rfl rfl rfl (step_exited hs code)
    | signalled signal => exact hdied rfl rfl rfl (step_signalled hs signal)

theorem comes_run (l : Launcher) (events : List ChildEvent) :
    Comes l (events.filterMap ChildEvent.status?) (.among events) (l.run events).phase :=
  @comes_reading l begin rfl rfl [] (fun _ h => nomatch h) (fun _ => rfl) events

example : FirstLine.among [.output [65], .exited 0, .output [13, 10, 66], .closed] =
    .line [65] := by
  decide

/-! ## The death of a process -/

theorem reading_open (before : Except TrafficError Unit) :
    LaunchPhase.reading ≠ .returned before := by
  rintro ⟨⟩

theorem reaping_open (before : Except TrafficError Unit) :
    LaunchPhase.reaping ≠ .returned before := by
  rintro ⟨⟩

/-- What a step makes of the phase of a launch and of whether its process was killed: both stay, or
the launch waits for the exit, or it returns, and then it kills a process that it refuses. -/
inductive Stepped : LaunchPhase → Bool → LaunchPhase → Bool → Prop where
  | same (phase : LaunchPhase) (killed : Bool) : Stepped phase killed phase killed
  | reaping (killed : Bool) : Stepped .reading killed .reaping killed
  | settled {phase : LaunchPhase} (killed : Bool) (verdict : Except TrafficError Unit)
      (hopen : ∀ before, phase ≠ .returned before) :
    Stepped phase killed (.returned verdict) (killed || !verdict.isOk)

theorem stepped_look (l : Launcher) {s : Launch} (hs : s.phase = .reading) :
    Stepped .reading s.killed (l.look s).phase (l.look s).killed := by
  rw [look]
  cases Lines.cut? s.unread with
  | none =>
    rw [hs]
    exact .same _ _
  | some p => exact .settled _ _ reading_open

theorem stepped_close (l : Launcher) (s : Launch) :
    Stepped .reading s.killed (l.close s).phase (l.close s).killed := by
  rw [close]
  split
  · cases s.exit with
    | none => exact .reaping _
    | some status => exact .settled _ _ reading_open
  · exact .settled _ _ reading_open

theorem stepped_reap (l : Launcher) (status : Nat) (s : Launch) :
    Stepped s.phase s.killed (l.reap status s).phase (l.reap status s).killed := by
  obtain ⟨phase, unread, exit, killed⟩ := s
  cases phase with
  | reaping => exact .settled _ _ reaping_open
  | reading => exact .same _ _
  | returned verdict => exact .same _ _

theorem stepped_step (l : Launcher) (s : Launch) (event : ChildEvent) :
    Stepped s.phase s.killed (l.step s event).phase (l.step s event).killed := by
  obtain ⟨phase, unread, exit, killed⟩ := s
  cases event with
  | exited code => exact stepped_reap l _ _
  | signalled signal => exact stepped_reap l _ _
  | output bytes =>
    cases phase with
    | reading => exact @stepped_look l ⟨.reading, unread ++ bytes, exit, killed⟩ rfl
    | reaping => exact .same _ _
    | returned verdict => exact .same _ _
  | closed =>
    cases phase with
    | reading => exact stepped_close l ⟨.reading, unread, exit, killed⟩
    | reaping => exact .same _ _
    | returned verdict => exact .same _ _
  | faulted text =>
    cases phase with
    | reading => exact .settled _ _ reading_open
    | reaping => exact .same _ _
    | returned verdict => exact .same _ _
  | expired =>
    cases phase with
    | reading => exact .settled _ _ reading_open
    | reaping => exact .same _ _
    | returned verdict => exact .same _ _

/-- A process is killed exactly when its launch refuses it. -/
def KilledIfRefused (phase : LaunchPhase) (killed : Bool) : Prop :=
  killed = true ↔ ∃ e, phase = .returned (.error e)

theorem Stepped.killedIfRefused {phase phase' : LaunchPhase} {killed killed' : Bool}
    (h : Stepped phase killed phase' killed') (hbefore : KilledIfRefused phase killed) :
    KilledIfRefused phase' killed' := by
  cases h with
  | same => exact hbefore
  | reaping => simpa [KilledIfRefused] using hbefore
  | settled _ verdict hopen =>
    have halive : killed = false := by
      rw [← Bool.not_eq_true]
      exact fun hkilled => (hbefore.mp hkilled).elim fun e he => hopen _ he
    subst halive
    cases verdict <;> simp [KilledIfRefused, Except.isOk, Except.toBool]

theorem killed_iff (l : Launcher) (events : List ChildEvent) :
    (l.run events).killed = true ↔ ∃ e, (l.run events).phase = .returned (.error e) := by
  have hfold : ∀ s : Launch, KilledIfRefused s.phase s.killed →
      KilledIfRefused (events.foldl l.step s).phase (events.foldl l.step s).killed := by
    induction events with
    | nil => exact fun s hs => hs
    | cons event events ih => exact fun s hs => ih _ ((stepped_step l s event).killedIfRefused hs)
  exact hfold begin (by simp [KilledIfRefused, begin])

theorem exit_look (l : Launcher) (s : Launch) : (l.look s).exit = s.exit := by
  rw [look]
  split <;> rfl

theorem exit_close (l : Launcher) (s : Launch) : (l.close s).exit = s.exit := by
  rw [close]
  split
  · split <;> rfl
  · rfl

theorem exit_reap (l : Launcher) (status : Nat) (s : Launch) :
    (l.reap status s).exit = some status := by
  rw [reap]
  split <;> rfl

theorem exit_step (l : Launcher) (s : Launch) (event : ChildEvent) :
    (l.step s event).exit = event.status?.or s.exit := by
  cases event with
  | exited code => exact exit_reap l _ s
  | signalled signal => exact exit_reap l _ s
  | output bytes =>
    rw [step]
    split
    · exact exit_look l _
    · rfl
  | closed =>
    rw [step]
    split
    · exact exit_close l s
    · rfl
  | faulted text =>
    rw [step]
    split <;> rfl
  | expired =>
    rw [step]
    split <;> rfl

/-- The wait status of a process is known once it has ended. -/
theorem exit_isSome_iff (l : Launcher) (events : List ChildEvent) :
    (l.run events).exit.isSome = true ↔ events.filterMap ChildEvent.status? ≠ [] := by
  have hfold : ∀ s : Launch, (events.foldl l.step s).exit.isSome = true ↔
      s.exit.isSome = true ∨ events.filterMap ChildEvent.status? ≠ [] := by
    induction events with
    | nil => simp
    | cons event events ih =>
      intro s
      rw [List.foldl_cons, ih, exit_step]
      cases hstatus : event.status? with
      | none => rw [List.filterMap_cons_none hstatus, Option.none_or]
      | some status => simp [List.filterMap_cons_some hstatus]
  exact (hfold begin).trans (by simp [begin])

end Launcher

/-! ## The verdict -/

/-- Whether what came of the wait for a first line decides a launch. An output that ends without a
byte decides once the process has ended, too. -/
def FirstLine.Decides (statuses : List Nat) : FirstLine → Prop
  | .awaited => False
  | .nothing => statuses ≠ []
  | _ => True

theorem FirstLine.Reports.unique {first : FirstLine} {e e' : WorkerEvent} (h : first.Reports e)
    (h' : first.Reports e') : e = e' := by
  obtain ⟨line, text, rfl, htext, hevent⟩ := h
  obtain ⟨line', text', hline, htext', hevent'⟩ := h'
  obtain rfl := FirstLine.line.inj hline
  obtain rfl := Option.some.inj (htext.symm.trans htext')
  exact Except.ok.inj (hevent.symm.trans hevent')

/-- Whether what came of the wait for a first line is neither that the process is ready nor a
failure that it reports. -/
def FirstLine.Strange (first : FirstLine) : Prop :=
  ¬first.Reports .ready ∧ ∀ stage message, ¬first.Reports (.failed stage message)

/-- The phase of a launch as its caller may expect it, by what came of the wait for a first line and
the wait statuses of the process: it has returned as soon as that decides. A process that reports
that it is ready is the only one to be started, a failure that it reports is told by its stage with
the message as it is, and all else is a breach of the protocol. -/
structure Verdict (statuses : List Nat) (first : FirstLine) (phase : LaunchPhase) : Prop where
  returns : (∃ verdict, phase = .returned verdict) ↔ first.Decides statuses
  ready : phase = .returned (.ok ()) ↔ first.Reports .ready
  bind : ∀ message, phase = .returned (.error (.bind message)) ↔
    first.Reports (.failed .bind message)
  namespaceEntry : ∀ message, phase = .returned (.error (.namespaceEntry message)) ↔
    first.Reports (.failed .namespaceEntry message)
  setup : ∀ message, first.Reports (.failed .setup message) →
    phase = .returned (.error (.workerProtocol message))
  breach : first.Decides statuses → first.Strange →
    ∃ text, phase = .returned (.error (.workerProtocol text))

namespace Verdict

variable {statuses : List Nat} {first : FirstLine}

theorem of_ready (hdecides : first.Decides statuses) (h : first.Reports .ready) :
    Verdict statuses first (.returned (.ok ())) where
  returns := iff_of_true ⟨_, rfl⟩ hdecides
  ready := iff_of_true rfl h
  bind message := iff_of_false (by simp) fun h' => by cases h.unique h'
  namespaceEntry message := iff_of_false (by simp) fun h' => by cases h.unique h'
  setup message h' := by cases h.unique h'
  breach _ hstrange := absurd h hstrange.1

theorem of_failed (hdecides : first.Decides statuses) {stage : FailureStage} {message : String}
    (h : first.Reports (.failed stage message)) :
    Verdict statuses first (.returned (.error (Launcher.reported stage message))) where
  returns := iff_of_true ⟨_, rfl⟩ hdecides
  ready := iff_of_false (by simp) fun h' => by cases h.unique h'
  bind message' := by
    constructor
    · intro hphase
      cases stage <;> cases hphase
      exact h
    · intro h'
      cases h.unique h'
      rfl
  namespaceEntry message' := by
    constructor
    · intro hphase
      cases stage <;> cases hphase
      exact h
    · intro h'
      cases h.unique h'
      rfl
  setup message' h' := by
    cases h.unique h'
    rfl
  breach _ hstrange := absurd h (hstrange.2 _ _)

theorem of_strange (hdecides : first.Decides statuses) (h : first.Strange) (text : String) :
    Verdict statuses first (.returned (.error (.workerProtocol text))) where
  returns := iff_of_true ⟨_, rfl⟩ hdecides
  ready := iff_of_false (by simp) h.1
  bind message := iff_of_false (by simp) (h.2 _ message)
  namespaceEntry message := iff_of_false (by simp) (h.2 _ message)
  setup message h' := absurd h' (h.2 _ message)
  breach _ _ := ⟨text, rfl⟩

theorem of_open {phase : LaunchPhase} (hopen : ∀ verdict, phase ≠ .returned verdict)
    (hdecides : ¬first.Decides statuses) (h : first.Strange) : Verdict statuses first phase where
  returns := iff_of_false (fun ⟨_, hphase⟩ => hopen _ hphase) hdecides
  ready := iff_of_false (hopen _) h.1
  bind message := iff_of_false (hopen _) (h.2 _ message)
  namespaceEntry message := iff_of_false (hopen _) (h.2 _ message)
  setup message h' := absurd h' (h.2 _ message)
  breach hdecides' := absurd hdecides' hdecides

end Verdict

theorem FirstLine.strange_of_silent {first : FirstLine} (h : ∀ e, ¬first.Reports e) :
    first.Strange := ⟨h _, fun _ _ => h _⟩

theorem FirstLine.strange_of_ne {first : FirstLine} (h : ∀ bytes, first ≠ .line bytes) :
    first.Strange :=
  strange_of_silent fun _ ⟨bytes, _, hline, _⟩ => h bytes hline

theorem FirstLine.strange_of_record {first : FirstLine} {r : Record}
    (h : first.Reports (.record r)) : first.Strange := by
  constructor
  · intro h'
    cases h.unique h'
  · intro stage message h'
    cases h.unique h'

/-- A first line decides by what it says. -/
theorem Launcher.verdict_judge (l : Launcher) (statuses : List Nat) (bytes : List UInt8) :
    Verdict statuses (.line bytes) (.returned (l.judge bytes)) := by
  have hdecides : (FirstLine.line bytes).Decides statuses := trivial
  rw [judge]
  cases htext : Lines.text? bytes with
  | none =>
    refine .of_strange hdecides (FirstLine.strange_of_silent ?_) _
    rintro e ⟨bytes', text, hline, htext', -⟩
    obtain rfl := FirstLine.line.inj hline
    rw [htext] at htext'
    cases htext'
  | some text =>
    have hreports {e : WorkerEvent} (hevent : WorkerEvent.ofLine text = .ok e) :
        (FirstLine.line bytes).Reports e := ⟨bytes, text, rfl, htext, hevent⟩
    dsimp only
    rw [verdict]
    cases hevent : WorkerEvent.ofLine text with
    | error fault =>
      refine .of_strange hdecides (FirstLine.strange_of_silent ?_) _
      rintro e ⟨bytes', text', hline, htext', hevent'⟩
      obtain rfl := FirstLine.line.inj hline
      obtain rfl := Option.some.inj (htext.symm.trans htext')
      rw [hevent] at hevent'
      cases hevent'
    | ok event =>
      cases event with
      | ready => exact .of_ready hdecides (hreports hevent)
      | failed stage message => exact .of_failed hdecides (hreports hevent)
      | record r => exact .of_strange hdecides (FirstLine.strange_of_record (hreports hevent)) _

theorem Launcher.Comes.verdict {l : Launcher} {statuses : List Nat} {first : FirstLine}
    {phase : LaunchPhase} (h : l.Comes statuses first phase) : Verdict statuses first phase := by
  cases h with
  | line bytes => exact l.verdict_judge statuses bytes
  | ended h =>
    have hdecides : FirstLine.nothing.Decides statuses := List.ne_nil_of_mem h
    exact .of_strange hdecides (FirstLine.strange_of_ne (by simp)) _
  | reaping h =>
    have hdecides : ¬FirstLine.nothing.Decides statuses := fun hdecides => hdecides h
    exact .of_open reaping_open hdecides (FirstLine.strange_of_ne (by simp))
  | faulted text =>
    have hdecides : (FirstLine.faulted text).Decides statuses := trivial
    exact .of_strange hdecides (FirstLine.strange_of_ne (by simp)) _
  | late =>
    have hdecides : FirstLine.late.Decides statuses := trivial
    exact .of_strange hdecides (FirstLine.strange_of_ne (by simp)) _
  | awaited =>
    have hdecides : ¬FirstLine.awaited.Decides statuses := id
    exact .of_open reading_open hdecides (FirstLine.strange_of_ne (by simp))

namespace Supervision

variable {σ : Type} (l : Launcher) (sink : Sink σ)

/-! ## The launch of a supervised process -/

/-- Two launches that agree in all but what is left to read, if they have returned. -/
def Alike (s t : Launch) : Prop :=
  s = t ∨ (∃ verdict, s.phase = .returned verdict) ∧
    s.phase = t.phase ∧ s.exit = t.exit ∧ s.killed = t.killed

theorem Alike.phase {s t : Launch} (h : Alike s t) : s.phase = t.phase :=
  h.elim (congrArg _) (·.2.1)

theorem Alike.exit {s t : Launch} (h : Alike s t) : s.exit = t.exit :=
  h.elim (congrArg _) (·.2.2.1)

theorem Alike.killed {s t : Launch} (h : Alike s t) : s.killed = t.killed :=
  h.elim (congrArg _) (·.2.2.2)

theorem step_of_returned {s : Launch} {verdict : Except TrafficError Unit}
    (hs : s.phase = .returned verdict) (event : ChildEvent) :
    (l.step s event).phase = .returned verdict ∧ (l.step s event).killed = s.killed := by
  cases event <;> simp only [Launcher.step, Launcher.reap, hs, and_self]

theorem unread_of_returned {s : Launch} {verdict : Except TrafficError Unit}
    (hs : s.phase = .returned verdict) (event : ChildEvent) :
    (l.step s event).unread = s.unread ++ event.bytes := by
  cases event <;> simp [Launcher.step, Launcher.reap, ChildEvent.bytes, hs]

theorem Alike.step {s t : Launch} (h : Alike s t) (event : ChildEvent) :
    Alike (l.step s event) (l.step t event) := by
  rcases h with rfl | ⟨⟨verdict, hs⟩, hphase, hexit, hkilled⟩
  · exact .inl rfl
  · obtain ⟨hphase₁, hkilled₁⟩ := step_of_returned l hs event
    obtain ⟨hphase₂, hkilled₂⟩ := step_of_returned l (hphase ▸ hs) event
    refine .inr ⟨⟨verdict, hphase₁⟩, hphase₁.trans hphase₂.symm, ?_, ?_⟩
    · rw [Launcher.exit_step, Launcher.exit_step, hexit]
    · rw [hkilled₁, hkilled₂, hkilled]

theorem exists_take (line : List UInt8) (s : Supervision σ) :
    ∃ deaf state, s.take sink line = { s with deaf := deaf, sink := state } := by
  rw [take]
  split
  · exact ⟨_, _, rfl⟩
  · split <;> exact ⟨_, _, rfl⟩

/-- A forwarder reads, submits and may end. -/
theorem exists_forward (s : Supervision σ) :
    ∃ rest deaf state, s.forward sink = { s.leaving rest with deaf := deaf, sink := state } := by
  rw [forward]
  split
  · exact ⟨_, exists_take sink _ _⟩
  · split
    · exact ⟨s.launch.unread, s.deaf, s.sink, rfl⟩
    · exact ⟨s.launch.unread, true, s.sink, rfl⟩
    · split
      · exact ⟨s.launch.unread, true, s.sink, rfl⟩
      · exact ⟨[], exists_take sink _ _⟩

theorem isReady_iff (s : Supervision σ) :
    s.isReady = true ↔ s.launch.phase = .returned (.ok ()) := by
  rw [isReady]
  split
  · rename_i hphase
    simp [hphase]
  · rename_i hphase
    simpa using hphase ()

/-- The launch of a supervised process is the launch that sees the same of it. -/
theorem alike_run (start : σ) (events : List SupervisionEvent) :
    Alike (run l sink start events).launch (l.run (SupervisionEvent.seenAmong events)) := by
  have hfold : ∀ (s : Supervision σ) (t : Launch), Alike s.launch t →
      Alike (events.foldl (step l sink) s).launch
        ((SupervisionEvent.seenAmong events).foldl l.step t) := by
    induction events with
    | nil => exact fun _ _ h => h
    | cons event events ih =>
      intro s t h
      cases event with
      | seen event => exact ih _ _ (h.step l event)
      | turn =>
        refine ih _ _ ?_
        rw [step]
        split
        · rename_i hturn
          have hready := (isReady_iff s).mp (Bool.and_eq_true_iff.mp hturn).1
          obtain ⟨rest, deaf, state, hforward⟩ := exists_forward sink s
          rw [hforward]
          exact .inr ⟨⟨_, hready⟩, h.phase, h.exit, h.killed⟩
        · exact h
  exact hfold _ _ (.inl rfl)

/-! ## The sink -/

theorem isReady_step {s : Supervision σ} (hs : s.isReady = true) (event : SupervisionEvent) :
    (s.step l sink event).isReady = true := by
  rw [isReady_iff] at hs ⊢
  cases event with
  | seen event => exact (step_of_returned l hs event).1
  | turn =>
    rw [step]
    split
    · obtain ⟨rest, deaf, state, hforward⟩ := exists_forward sink s
      rw [hforward]
      exact hs
    · exact hs

/-- As long as the launch has not returned that the process is ready, nothing is submitted. -/
theorem sink_of_not_ready (start : σ) (events : List SupervisionEvent)
    (h : (run l sink start events).isReady = false) : (run l sink start events).sink = start := by
  have hfold : ∀ s : Supervision σ, (s.isReady = false → s.sink = start) →
      (events.foldl (step l sink) s).isReady = false →
        (events.foldl (step l sink) s).sink = start := by
    clear h
    induction events with
    | nil => exact fun _ hs => hs
    | cons event events ih =>
      intro s hs
      refine ih _ fun hafter => ?_
      have hbefore : s.isReady = false := by
        rw [← Bool.not_eq_true]
        exact fun hready => absurd (isReady_step l sink hready event) (by simp [hafter])
      cases event with
      | seen event => exact hs hbefore
      | turn =>
        rw [step, hbefore]
        exact hs hbefore
  exact hfold _ (fun _ => rfl) h

/-- Where a sink gets when a forwarder reads some lines. -/
def onward (sink : Sink σ) (lines : List (List UInt8)) (s : Supervision σ) : σ :=
  if s.deaf then s.sink else (Client.deliver sink (forwarded lines) s.sink).2

theorem onward_take {s : Supervision σ} (hs : s.deaf = false) (line : List UInt8)
    (lines : List (List UInt8)) :
    (s.take sink line).onward sink lines = s.onward sink (line :: lines) := by
  cases htext : Lines.text? line with
  | none => simp [onward, take, forwarded, htext, hs, Client.deliver]
  | some text =>
    cases hline : WorkerEvent.ofLine text with
    | error e => simp [onward, take, forwarded, htext, hline, hs]
    | ok event => cases event <;> simp [onward, take, forwarded, htext, hline, hs, Client.deliver]

/-- A turn of a forwarder does not change where it gets with what it has read and what is to come.
-/
theorem onward_forward {s : Supervision σ} (hs : s.deaf = false) {bytes : List UInt8}
    (hclosed : s.ended = some .closed → bytes = []) (hsound : s.ended ≠ some .faulted) :
    (s.forward sink).onward sink (Lines.all ((s.forward sink).launch.unread ++ bytes)) =
      s.onward sink (Lines.all (s.launch.unread ++ bytes)) := by
  rw [forward]
  cases hcut : Lines.cut? s.launch.unread with
  | some p =>
    obtain ⟨line, rest⟩ := p
    have hunread : ((s.leaving rest).take sink (Lines.trimReturn line)).launch.unread = rest := by
      obtain ⟨deaf, state, htake⟩ := exists_take sink (Lines.trimReturn line) (s.leaving rest)
      rw [htake]
      rfl
    dsimp only
    rw [hunread, Lines.all_cut (Lines.cut?_append_of_some hcut bytes)]
    exact @onward_take _ sink (s.leaving rest) hs _ _
  | none =>
    cases hended : s.ended with
    | none => rfl
    | some reason =>
      cases reason with
      | faulted => exact absurd hended hsound
      | closed =>
        obtain rfl := hclosed hended
        dsimp only
        split
        · rename_i hempty
          have hnil : s.launch.unread = [] := List.isEmpty_iff.mp hempty
          rw [hnil, List.append_nil, Lines.all_nil, onward, onward, hs]
          rfl
        · rename_i hmore
          have hunread : ((s.leaving []).take sink s.launch.unread).launch.unread = [] := by
            obtain ⟨deaf, state, htake⟩ := exists_take sink s.launch.unread (s.leaving [])
            rw [htake]
            rfl
          rw [hunread, List.append_nil, List.append_nil,
            Lines.all_uncut hcut (by simpa using hmore), Lines.all_nil]
          exact @onward_take _ sink (s.leaving []) hs s.launch.unread []

theorem endedBy_of_not_ends {event : ChildEvent} (h : event.ends = false)
    (before : Option OutputEnd) : endedBy event before = before := by
  cases event with
  | closed => cases h
  | faulted text => cases h
  | _ => rfl

theorem onward_nil (s : Supervision σ) : s.onward sink [] = s.sink := by
  rw [onward]
  split <;> rfl

/-- Whether a forwarder has nothing left to do. -/
def Drained (s : Supervision σ) : Prop := s.deaf = true ∨ s.launch.unread = []

theorem onward_of_drained {s : Supervision σ} (h : s.Drained) :
    s.onward sink (Lines.all s.launch.unread) = s.sink := by
  rcases h with hdeaf | hunread
  · rw [onward, if_pos hdeaf]
  · rw [hunread, Lines.all_nil, onward_nil]

/-- The forwarder of a process that is ready hands on what it finds left and what comes. -/
theorem sink_of_ready {events : List SupervisionEvent} {bytes : List UInt8}
    (h : Delivers bytes (SupervisionEvent.seenAmong events)) {s : Supervision σ}
    (hready : s.isReady = true) (hclosed : s.ended = some .closed → bytes = [])
    (hsound : s.ended ≠ some .faulted) (hdrained : Drained (events.foldl (step l sink) s)) :
    (events.foldl (step l sink) s).sink = s.onward sink (Lines.all (s.launch.unread ++ bytes)) := by
  have hphase := (isReady_iff s).mp hready
  induction events generalizing s bytes with
  | nil =>
    have hnil : bytes = [] := by
      rw [SupervisionEvent.seenAmong, List.filterMap_nil] at h
      cases h
      rfl
    rw [hnil, List.append_nil]
    exact (onward_of_drained sink hdrained).symm
  | cons event events ih =>
    have hnext := isReady_step l sink hready event
    have hphase' := (isReady_iff _).mp hnext
    cases event with
    | turn =>
      have hrest : Delivers bytes (SupervisionEvent.seenAmong events) := h
      by_cases hdeaf : s.deaf = true
      · have hstep : step l sink s .turn = s := by simp [step, hdeaf]
        rw [List.foldl_cons, hstep] at hdrained ⊢
        exact ih hrest hready hclosed hsound hdrained hphase
      · have hstep : step l sink s .turn = s.forward sink := by simp [step, hdeaf, hready]
        rw [List.foldl_cons, hstep] at hdrained ⊢
        rw [hstep] at hnext hphase'
        have hended : (s.forward sink).ended = s.ended := by
          obtain ⟨rest, deaf, state, hforward⟩ := exists_forward sink s
          rw [hforward]
          rfl
        rw [ih hrest hnext (hended ▸ hclosed) (hended ▸ hsound) hdrained hphase',
          onward_forward sink (by simpa using hdeaf) hclosed hsound]
    | seen event =>
      obtain ⟨more, rfl, hrest, hlast⟩ := Delivers.uncons h
      have hunread : (l.step s.launch event).unread ++ more =
          s.launch.unread ++ (event.bytes ++ more) := by
        rw [unread_of_returned l hphase, List.append_assoc]
      rw [List.foldl_cons] at hdrained ⊢
      have hgoal := fun hclosed hsound => ih hrest hnext hclosed hsound hdrained hphase'
      rw [← hunread]
      cases hends : event.ends with
      | false =>
        have hended : endedBy event s.ended = s.ended := endedBy_of_not_ends hends _
        refine hgoal (fun h => ?_) fun h => hsound (hended.symm.trans h)
        exact (List.append_eq_nil_iff.mp (hclosed (hended.symm.trans h))).2
      | true =>
        obtain ⟨rfl, rfl⟩ := hlast hends
        refine hgoal (fun _ => rfl) ?_
        show s.ended.or (some .closed) ≠ some .faulted
        cases hended : s.ended with
        | none => simp
        | some reason => simpa [hended] using hsound

/-- The same of a process whose launch is still to read the first line. -/
theorem sink_of_reading {events : List SupervisionEvent} {bytes : List UInt8}
    (h : Delivers bytes (SupervisionEvent.seenAmong events)) {s : Supervision σ}
    (hphase : s.launch.phase = .reading) (hunread : Lines.cut? s.launch.unread = none)
    {first rest : List UInt8} (hcut : Lines.cut? (s.launch.unread ++ bytes) = some (first, rest))
    (hready : l.judge (Lines.trimReturn first) = .ok ()) (hended : s.ended = none)
    (hdeaf : s.deaf = false) (hdrained : Drained (events.foldl (step l sink) s)) :
    (events.foldl (step l sink) s).sink =
      (Client.deliver sink (forwarded (Lines.all rest)) s.sink).2 := by
  induction events generalizing s bytes with
  | nil =>
    rw [SupervisionEvent.seenAmong, List.filterMap_nil] at h
    cases h
    rw [List.append_nil, hunread] at hcut
    cases hcut
  | cons event events ih =>
    rw [List.foldl_cons] at hdrained ⊢
    cases event with
    | turn =>
      have hrest : Delivers bytes (SupervisionEvent.seenAmong events) := h
      have hstep : step l sink s .turn = s := by simp [step, isReady, hphase]
      rw [hstep] at hdrained ⊢
      exact ih hrest hphase hunread hcut hended hdeaf hdrained
    | seen event =>
      obtain ⟨more, rfl, hrest, hlast⟩ := Delivers.uncons h
      have hreading : event.ends = false := by
        rw [← Bool.not_eq_true]
        rintro hends
        obtain ⟨rfl, rfl⟩ := hlast hends
        rw [show ChildEvent.closed.bytes = [] from rfl, List.append_nil, List.append_nil,
          hunread] at hcut
        cases hcut
      have hended' : endedBy event s.ended = none :=
        (endedBy_of_not_ends hreading _).trans hended
      have hdied {status : Nat} (hbytes : event.bytes = [])
          (hstep : l.step s.launch event = { s.launch with exit := some status }) :
          (events.foldl (step l sink) (step l sink s (.seen event))).sink =
            (Client.deliver sink (forwarded (Lines.all rest)) s.sink).2 := by
        rw [hbytes, List.nil_append] at hcut
        rw [step, hstep] at hdrained ⊢
        exact ih hrest (s := ⟨{ s.launch with exit := some status }, _, s.deaf, s.sink⟩) hphase
          hunread hcut hended' hdeaf hdrained
      cases event with
      | closed => cases hreading
      | faulted text => cases hreading
      | expired => cases hreading
      | exited code => exact hdied rfl (Launcher.step_exited hphase code)
      | signalled signal => exact hdied rfl (Launcher.step_signalled hphase signal)
      | output written =>
        have hcut' : Lines.cut? (s.launch.unread ++ (written ++ more)) = some (first, rest) := hcut
        rcases Launcher.step_reading (l := l) hphase hcut' with
          ⟨hstep, hnone⟩ | ⟨behind, rfl, hstep⟩
        · rw [step, hstep] at hdrained ⊢
          exact ih hrest (s := ⟨{ s.launch with unread := _ }, _, s.deaf, s.sink⟩) hphase hnone
            (by rwa [← List.append_assoc] at hcut') hended' hdeaf hdrained
        · rw [step, hstep, hready] at hdrained ⊢
          rw [sink_of_ready l sink hrest rfl (by simp [hended']) (by simp [hended']) hdrained,
            onward, hdeaf]
          rfl

/-- The records among the lines behind a first line that reports that the process is ready have all
been submitted when the output has been read. -/
theorem sink_of_drained {events : List SupervisionEvent} {bytes first rest : List UInt8}
    (h : Delivers bytes (SupervisionEvent.seenAmong events))
    (hcut : Lines.cut? bytes = some (first, rest))
    (hready : l.judge (Lines.trimReturn first) = .ok ()) {start : σ}
    (hdrained : Drained (run l sink start events)) :
    (run l sink start events).sink =
      (Client.deliver sink (forwarded (Lines.all rest)) start).2 :=
  sink_of_reading l sink h (s := begin start) rfl rfl hcut hready rfl rfl hdrained

/-! ## The call -/

theorem answer?_eq_ok_iff (s : Supervision σ) :
    s.answer? = some (.ok ()) ↔ s.launch.phase = .returned (.ok ()) := by
  rw [answer?]
  split
  · rename_i hphase
    simp [hphase]
  · rename_i e hphase
    rw [hphase]
    split <;> simp
  · rename_i hok herror
    exact iff_of_false (by simp) fun hphase => hok () hphase

theorem answer?_eq_error_iff (s : Supervision σ) (e : TrafficError) :
    s.answer? = some (.error e) ↔
      s.launch.phase = .returned (.error e) ∧ s.launch.exit.isSome = true := by
  rw [answer?]
  split
  · rename_i hphase
    simp [hphase]
  · rename_i e' hphase
    rw [hphase]
    split <;> simp_all
  · rename_i hok herror
    exact iff_of_false (by simp) fun h => herror e h.1

/-- The launch of a process that was spawned, for all that it may do and for all turns that a
forwarder may take: the verdict on its first line; a call that returns success at once, and a
refusal when the process is dead; and of a process that is refused, that it has been killed and that
nothing of it was submitted. -/
theorem launch_verdict (start : σ) (events : List SupervisionEvent) :
    let seen := SupervisionEvent.seenAmong events
    let statuses := seen.filterMap ChildEvent.status?
    let s := run l sink start events
    Verdict statuses (.among seen) s.launch.phase ∧
      (s.answer? = some (.ok ()) ↔ (FirstLine.among seen).Reports .ready) ∧
      (∀ e, s.answer? = some (.error e) ↔
        s.launch.phase = .returned (.error e) ∧ statuses ≠ []) ∧
      ∀ e, s.launch.phase = .returned (.error e) → s.launch.killed = true ∧ s.sink = start := by
  intro seen statuses s
  have halike : Alike s.launch (l.run seen) := alike_run l sink start events
  have hverdict : Verdict statuses (.among seen) s.launch.phase := by
    rw [halike.phase]
    exact (Launcher.comes_run l seen).verdict
  refine ⟨hverdict, ?_, fun e => ?_, fun e hphase => ⟨?_, ?_⟩⟩
  · rw [answer?_eq_ok_iff, hverdict.ready]
  · rw [answer?_eq_error_iff, halike.exit, Launcher.exit_isSome_iff]
  · rw [halike.killed, Launcher.killed_iff]
    exact ⟨e, halike.phase ▸ hphase⟩
  · refine sink_of_not_ready l sink start events ?_
    show s.isReady = false
    rw [isReady, hphase]

end Supervision

/-- A start that is refused leaves the records of a deployment as they were. -/
theorem Deployment.outlet_startProcess {σ η : Type} (os : Host η) (path : Option String)
    (runnable : Runnable) {d : Deployment σ η} {e : TrafficError}
    (h : (d.startProcess os path runnable).1 = .error e) :
    (d.startProcess os path runnable).2.outlet = d.outlet := by
  rcases hspawn : os.spawn runnable.toJson.text path d.host with ⟨_ | child, host⟩
  · simp only [startProcess, hspawn]
    rfl
  · cases hlaunch : child.launch ⟨Workforce.identifier d.workers.next, os.readyMs⟩ with
    | error e' =>
      simp only [startProcess, hspawn, hlaunch, noteFailure]
      split <;> rfl
    | ok rest =>
      simp only [startProcess, hspawn, hlaunch] at h
      cases h

end PolicyProbe
