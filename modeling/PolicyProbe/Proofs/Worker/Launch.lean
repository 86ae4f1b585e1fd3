import PolicyProbe.CommandLine
import PolicyProbe.Deployment
import PolicyProbe.Machine
import PolicyProbe.Proofs.Json.Plain
import PolicyProbe.Proofs.Worker.Forms
import PolicyProbe.Worker.Process

/-!
What a launch reads from a process that writes events. The arguments of the process hold what it has
to run; the process writes its events, one a line; the launch reads them back from however many
pieces the output comes in (`Delivers`). Lines are cut at the same places, since no event has a line
feed in its text, and the first line alone decides (`Launcher.run_transcript`); the records behind
it are handed on (`forwarded_transcript`).
-/
namespace PolicyProbe

/-! ## The arguments of a worker -/

namespace CommandLine

/-- A specification that does not look like an option is found in the arguments. -/
theorem parse_workerArguments {spec : String} (h : looksLikeOption spec = false) :
    parse (workerArguments spec none) = .ok (.worker spec none) := by
  have hlong : readLong ⟨[⟨"spec", false⟩, ⟨"netns", true⟩], 0⟩ ⟨[], []⟩ "spec".toList =
      .ok (.pending ⟨"spec", false⟩) := by rfl
  have hvalue : read ⟨[⟨"spec", false⟩, ⟨"netns", true⟩], 0⟩ (some ⟨"spec", false⟩) ⟨[], []⟩
      [spec] = .ok ⟨[("spec", spec)], []⟩ := by
    rw [read, h]
    rfl
  have hread : read ⟨[⟨"spec", false⟩, ⟨"netns", true⟩], 0⟩ none ⟨[], []⟩ ["--spec", spec] =
      .ok ⟨[("spec", spec)], []⟩ := by
    show (readLong _ _ "spec".toList >>= _) = _
    rw [hlong]
    exact hvalue
  show readWorker ["--spec", spec] = _
  rw [readWorker, hread]
  rfl

end CommandLine

/-! ## What a launch reads -/

namespace Lines

theorem cut?_append_of_some {bytes line rest : List UInt8} (h : cut? bytes = some (line, rest))
    (more : List UInt8) : cut? (bytes ++ more) = some (line, rest ++ more) := by
  induction bytes generalizing line with
  | nil => exact nomatch h
  | cons b bytes ih =>
    rw [cut?] at h
    rw [List.cons_append, cut?]
    split at h
    · rename_i hb
      obtain ⟨rfl, rfl⟩ := Prod.mk.inj (Option.some.inj h)
      rw [if_pos hb]
    · rename_i hb
      obtain ⟨⟨l, r⟩, hc, he⟩ := Option.map_eq_some_iff.mp h
      obtain ⟨rfl, rfl⟩ := Prod.mk.inj he
      rw [if_neg hb, ih hc]
      rfl

end Lines

/-- What a launch may see of a process that writes some bytes: all of them in order, in pieces of
any size, the end of the output behind them, the exit at any time, and no end of the time. -/
inductive Delivers : List UInt8 → List ChildEvent → Prop where
  | done : Delivers [] []
  | piece (bytes : List UInt8) {rest : List UInt8} {events : List ChildEvent}
      (h : Delivers rest events) : Delivers (bytes ++ rest) (.output bytes :: events)
  | closed {events : List ChildEvent} (h : Delivers [] events) : Delivers [] (.closed :: events)
  | exited (code : Nat) {bytes : List UInt8} {events : List ChildEvent}
      (h : Delivers bytes events) : Delivers bytes (.exited code :: events)

namespace Launcher

variable {l : Launcher}

/-- Once a launch has returned, bytes only wait to be read. -/
theorem run_returned {bytes : List UInt8} {events : List ChildEvent} (h : Delivers bytes events)
    {s : Launch} {verdict : Except TrafficError Unit} (hs : s.phase = .returned verdict) :
    (events.foldl l.step s).phase = .returned verdict ∧
      (events.foldl l.step s).unread = s.unread ++ bytes := by
  induction h generalizing s with
  | done => exact ⟨hs, (List.append_nil _).symm⟩
  | piece bytes h ih =>
    have hstep : l.step s (.output bytes) = { s with unread := s.unread ++ bytes } := by
      simp only [step, hs]
    rw [List.foldl_cons, hstep, ← List.append_assoc]
    exact ih hs
  | closed h ih =>
    have hstep : l.step s .closed = s := by simp only [step, hs]
    rw [List.foldl_cons, hstep]
    exact ih hs
  | exited code h ih =>
    have hstep : l.step s (.exited code) = { s with exit := some (statusOfCode code) } := by
      simp only [step, reap, hs]
    rw [List.foldl_cons, hstep]
    exact ih hs

/-- A piece of output leaves a launch that reads without a line, or it ends the first line, which
decides. -/
theorem step_reading {s : Launch} (hs : s.phase = .reading) {bytes more line rest : List UInt8}
    (hcut : Lines.cut? (s.unread ++ (bytes ++ more)) = some (line, rest)) :
    (l.step s (.output bytes) = { s with unread := s.unread ++ bytes } ∧
        Lines.cut? (s.unread ++ bytes) = none) ∨
      ∃ behind, rest = behind ++ more ∧ l.step s (.output bytes) =
        settle (l.judge (Lines.trimReturn line)) { s with unread := behind } := by
  have hstep : l.step s (.output bytes) = l.look { s with unread := s.unread ++ bytes } := by
    simp only [step, hs]
  rw [hstep]
  cases hfirst : Lines.cut? (s.unread ++ bytes) with
  | none => exact Or.inl ⟨by simp only [look, hfirst], rfl⟩
  | some p =>
    -- The line feed is in this piece; what is behind it waits with the pieces to come.
    obtain ⟨first, behind⟩ := p
    rw [← List.append_assoc, Lines.cut?_append_of_some hfirst, Option.some.injEq,
      Prod.mk.injEq] at hcut
    obtain ⟨rfl, rfl⟩ := hcut
    exact Or.inr ⟨behind, rfl, by simp only [look, hfirst]⟩

/-- A launch that reads comes to the first line, and that line decides. -/
theorem run_reading {bytes : List UInt8} {events : List ChildEvent} (h : Delivers bytes events)
    {s : Launch} (hs : s.phase = .reading) (hunread : Lines.cut? s.unread = none)
    {line rest : List UInt8} (hcut : Lines.cut? (s.unread ++ bytes) = some (line, rest)) :
    (events.foldl l.step s).phase = .returned (l.judge (Lines.trimReturn line)) ∧
      (events.foldl l.step s).unread = rest := by
  induction h generalizing s with
  | done =>
    rw [List.append_nil, hunread] at hcut
    exact nomatch hcut
  | @piece bytes more events h ih =>
    rw [List.foldl_cons]
    rcases step_reading hs hcut with ⟨hstep, hnone⟩ | ⟨behind, rfl, hstep⟩
    · rw [hstep]
      exact ih hs hnone (by rwa [← List.append_assoc] at hcut)
    · rw [hstep]
      exact run_returned h rfl
  | closed h ih =>
    rw [List.append_nil, hunread] at hcut
    exact nomatch hcut
  | exited code h ih =>
    have hstep : l.step s (.exited code) = { s with exit := some (statusOfCode code) } := by
      simp only [step, reap, hs]
    rw [List.foldl_cons, hstep]
    exact ih hs hunread hcut

theorem run_delivered {bytes : List UInt8} {events : List ChildEvent} (h : Delivers bytes events)
    {line rest : List UInt8} (hcut : Lines.cut? bytes = some (line, rest)) :
    (l.run events).phase = .returned (l.judge (Lines.trimReturn line)) ∧
      (l.run events).unread = rest :=
  run_reading h rfl rfl hcut

end Launcher

/-! ## Lines of events -/

namespace WorkerEvent

theorem plain_line (e : WorkerEvent) : Lines.Plain e.line.toList := Json.plain_text e.toJson

theorem ofLine_line {e : WorkerEvent} (hs : e.Sound) (hr : e.Readable) : ofLine e.line = .ok e :=
  (finds hs hr).run

end WorkerEvent

/-- The bytes of events are cut into the line of the first and the bytes of the others. -/
theorem WorkerProcess.cut?_transcript (e : WorkerEvent) (es : List WorkerEvent) :
    Lines.cut? (transcript (e :: es)) = some (e.line.toUTF8.toList, transcript es) :=
  Lines.cut?_ofText e.plain_line (transcript es)

/-- Of the lines of some records, all records are handed on. -/
theorem forwarded_transcript {records : List Record} (hs : ∀ r ∈ records, r.Sound)
    (hr : ∀ r ∈ records, r.Readable) :
    forwarded (Lines.all (WorkerProcess.transcript (records.map .record))) = records := by
  induction records with
  | nil =>
    show forwarded (Lines.all []) = []
    rw [Lines.all_nil]
    rfl
  | cons r records ih =>
    have hline : WorkerEvent.ofLine (WorkerEvent.record r).line = .ok (.record r) :=
      WorkerEvent.ofLine_line (hs r List.mem_cons_self) (hr r List.mem_cons_self)
    have hrest := ih (fun r hm => hs r (List.mem_cons_of_mem _ hm))
      fun r hm => hr r (List.mem_cons_of_mem _ hm)
    rw [List.map_cons, Lines.all_cut (WorkerProcess.cut?_transcript _ _),
      Lines.trimReturn_bytes (WorkerEvent.plain_line _), forwarded, Lines.text?_bytes]
    simp only [hline, hrest]

theorem Launcher.verdict_ready (l : Launcher) (line : String)
    (h : WorkerEvent.ofLine line = .ok .ready) : l.verdict line = .ok () := by
  rw [verdict, h]

/-- What the first line decides is what its event means. -/
theorem Launcher.judge_line {l : Launcher} {e : WorkerEvent} (hs : e.Sound) (hr : e.Readable)
    {verdict : Except TrafficError Unit}
    (hverdict : ∀ line, WorkerEvent.ofLine line = .ok e → l.verdict line = verdict) :
    l.judge (Lines.trimReturn e.line.toUTF8.toList) = verdict := by
  rw [Lines.trimReturn_bytes e.plain_line, judge, Lines.text?_bytes]
  exact hverdict e.line (WorkerEvent.ofLine_line hs hr)

/-- The first event of a process decides its launch; the bytes of the others wait. -/
theorem Launcher.run_transcript {l : Launcher} {e : WorkerEvent} (hs : e.Sound) (hr : e.Readable)
    {es : List WorkerEvent} {events : List ChildEvent}
    (h : Delivers (WorkerProcess.transcript (e :: es)) events) {verdict : Except TrafficError Unit}
    (hverdict : ∀ line, WorkerEvent.ofLine line = .ok e → l.verdict line = verdict) :
    (l.run events).phase = .returned verdict ∧
      (l.run events).unread = WorkerProcess.transcript es := by
  rw [← judge_line hs hr hverdict]
  exact run_delivered h (WorkerProcess.cut?_transcript e es)

namespace Launcher

/-- A record whose error has two lines. -/
def twoLineRecord : Record where
  id := .ofNat 1
  src := .loopback
  dst := .loopback
  port := 80
  protocol := .tcp
  latency := .zero false
  error := some "no\nanswer"
  success := true
  connected := false
  created := Machine.epoch

end Launcher

end PolicyProbe
