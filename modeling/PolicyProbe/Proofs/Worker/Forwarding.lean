import PolicyProbe.Proofs.Worker.Launch

/-!
What reaches the sink of a worker process that has reported that it is ready. The process goes on
to write lines, and the records among them are handed over in order, whatever the sink answers and
whatever the other lines are, as long as they are texts. A line whose bytes are no UTF-8 ends the
forwarding: `handed_over_until_fault` says so for all lines, and that records are lost exactly when
there is one behind such a line; `silenced_by_fault` is a process of which one is lost.
-/
namespace PolicyProbe

/-! ## Lines and their records -/

/-- The record that a line of a worker process reports, if it reports one. -/
def recordOf? (line : List UInt8) : Option Record :=
  match (Lines.text? line).map WorkerEvent.ofLine with
  | some (.ok (.record r)) => some r
  | _ => none

theorem forwarded_eq (lines : List (List UInt8)) :
    forwarded lines = (lines.takeWhile Lines.isText).filterMap recordOf? := by
  induction lines with
  | nil => rfl
  | cons line rest ih =>
    rw [forwarded, List.takeWhile_cons, Lines.isText]
    cases htext : Lines.text? line with
    | none => rfl
    | some text =>
      simp only [Option.isSome_some, if_true, List.filterMap_cons, recordOf?, htext,
        Option.map_some]
      -- Of the readable lines, those that are records come through and the others are passed over.
      cases WorkerEvent.ofLine text with
      | error e => exact ih
      | ok event => cases event with
        | record r => exact congrArg (r :: ·) ih
        | ready => exact ih
        | failed stage message => exact ih

/-! ## Sinks -/

namespace Client

variable {σ : Type}

/-- A sink that also notes all that is handed to it, and answers as before. -/
def noting (sink : Sink σ) : Sink (List Record × σ) := fun r (noted, s) =>
  ((sink r s).1, (noted ++ [r], (sink r s).2))

/-- Everything is handed over once and in order, whatever the sink answers. -/
theorem deliver_noting (sink : Sink σ) (rs noted : List Record) (s : σ) :
    deliver (noting sink) rs (noted, s) = (rs.length, (noted ++ rs, (deliver sink rs s).2)) := by
  induction rs generalizing noted s with
  | nil => rw [List.append_nil]; rfl
  | cons r rs ih =>
    have hstep : deliver (noting sink) (r :: rs) (noted, s) =
        ((deliver (noting sink) rs (noted ++ [r], (sink r s).2)).1 + 1,
          (deliver (noting sink) rs (noted ++ [r], (sink r s).2)).2) := rfl
    rw [hstep, ih, List.append_assoc]
    rfl

end Client

/-! ## Forwarding -/

namespace Launcher

/-- The records that a sink is handed of a worker process, once its launch has seen some events. -/
def handedOver {σ : Type} (l : Launcher) (events : List ChildEvent) (sink : Sink σ) (s : σ) :
    List Record :=
  (Client.deliver (Client.noting sink) (forwarded (Lines.all (l.run events).unread)) ([], s)).2.1

theorem handedOver_eq {σ : Type} (l : Launcher) (events : List ChildEvent) (sink : Sink σ) (s : σ) :
    l.handedOver events sink s = forwarded (Lines.all (l.run events).unread) := by
  rw [handedOver, Client.deliver_noting, List.nil_append]

/-- A process whose first line reports that it is ready is started; its other lines are left to be
read. -/
theorem run_ofLines {l : Launcher} {first : List UInt8} {lines : List (List UInt8)}
    (hfirst : Lines.lineFeed ∉ first) (hready : l.judge (Lines.trimReturn first) = .ok ())
    {events : List ChildEvent} (h : Delivers (Lines.ofLines (first :: lines)) events) :
    (l.run events).phase = .returned (.ok ()) ∧ (l.run events).unread = Lines.ofLines lines := by
  obtain ⟨hphase, hunread⟩ := run_delivered (l := l) h (Lines.cut?_ofLines hfirst lines)
  exact ⟨by rw [hphase, hready], hunread⟩

/-- Behind the first line of a process that is ready, the sink is handed the records of all lines up
to the first that is no text, and so those of all lines unless there is a record behind that one. -/
theorem handed_over_until_fault {σ : Type} (l : Launcher) (sink : Sink σ) (s : σ)
    {first : List UInt8} {lines : List (List UInt8)} (hfirst : Lines.lineFeed ∉ first)
    (hlines : ∀ line ∈ lines, Lines.lineFeed ∉ line)
    (hready : l.judge (Lines.trimReturn first) = .ok ()) {events : List ChildEvent}
    (h : Delivers (Lines.ofLines (first :: lines)) events) :
    let read := lines.map Lines.trimReturn
    (l.run events).phase = .returned (.ok ()) ∧
      l.handedOver events sink s = (read.takeWhile Lines.isText).filterMap recordOf? ∧
      (l.handedOver events sink s = read.filterMap recordOf? ↔
        (read.dropWhile Lines.isText).filterMap recordOf? = []) := by
  intro read
  obtain ⟨hphase, hunread⟩ := run_ofLines hfirst hready h
  have hhanded : l.handedOver events sink s =
      (read.takeWhile Lines.isText).filterMap recordOf? := by
    rw [handedOver_eq, hunread, Lines.all_ofLines hlines, forwarded_eq]
  have hsplit : read.filterMap recordOf? =
      (read.takeWhile Lines.isText).filterMap recordOf? ++
        (read.dropWhile Lines.isText).filterMap recordOf? := by
    rw [← List.filterMap_append, List.takeWhile_append_dropWhile]
  refine ⟨hphase, hhanded, ?_⟩
  rw [hhanded, hsplit]
  exact List.self_eq_append_right

/-! ## A process that is silenced -/

/-- The bytes of the line of an event. -/
def eventLine (e : WorkerEvent) : List UInt8 := e.line.toUTF8.toList

theorem lineFeed_not_mem_eventLine (e : WorkerEvent) : Lines.lineFeed ∉ eventLine e :=
  fun hb => (Lines.ne_of_le (Lines.Plain.bytes e.plain_line _ hb)).1 rfl

theorem trimReturn_eventLine (e : WorkerEvent) :
    Lines.trimReturn (eventLine e) = eventLine e := Lines.trimReturn_bytes e.plain_line

theorem isText_eventLine (e : WorkerEvent) : Lines.isText (eventLine e) = true :=
  Lines.isText_bytes e.line

theorem recordOf?_eventLine {r : Record} (hs : r.Sound) (hr : r.Readable) :
    recordOf? (eventLine (.record r)) = some r := by
  have hline : WorkerEvent.ofLine (WorkerEvent.record r).line = .ok (.record r) :=
    WorkerEvent.ofLine_line hs hr
  rw [eventLine, recordOf?, Lines.text?_bytes]
  simp only [Option.map_some, hline]

theorem judge_ready (l : Launcher) :
    l.judge (Lines.trimReturn (eventLine .ready)) = .ok () :=
  @judge_line l .ready trivial trivial _ l.verdict_ready

theorem recordOf?_twoLineRecord : recordOf? (eventLine (.record twoLineRecord)) =
    some twoLineRecord := by
  have hsound : twoLineRecord.Sound := by
    show twoLineRecord.port < portBound
    decide
  have hreadable : twoLineRecord.Readable := by
    show twoLineRecord.latency.ReadsBack
    decide +kernel
  exact recordOf?_eventLine hsound hreadable

/-- A line of one byte that is no UTF-8. -/
def faultyLine : List UInt8 := [0xFF]

theorem isText_faultyLine : Lines.isText faultyLine = false := by decide

/-- The line of a record before and behind a line that is no text. -/
def interrupted : List (List UInt8) :=
  [eventLine (.record twoLineRecord), faultyLine, eventLine (.record twoLineRecord)]

theorem lineFeed_not_mem_interrupted : ∀ line ∈ interrupted, Lines.lineFeed ∉ line := by
  intro line hline
  simp only [interrupted, List.mem_cons, List.not_mem_nil, or_false] at hline
  rcases hline with rfl | rfl | rfl
  · exact lineFeed_not_mem_eventLine _
  · decide
  · exact lineFeed_not_mem_eventLine _

theorem trimReturn_interrupted : interrupted.map Lines.trimReturn = interrupted := by
  have hfault : Lines.trimReturn faultyLine = faultyLine := by decide
  rw [interrupted, List.map_cons, List.map_cons, List.map_singleton, trimReturn_eventLine, hfault]

/-- Up to the line that is no text there is one record. -/
theorem records_interrupted :
    ((interrupted.map Lines.trimReturn).takeWhile Lines.isText).filterMap recordOf? =
      [twoLineRecord] := by
  have hfault : ¬Lines.isText faultyLine = true := by
    rw [isText_faultyLine]
    exact Bool.false_ne_true
  rw [trimReturn_interrupted, interrupted, List.takeWhile_cons_of_pos (isText_eventLine _),
    List.takeWhile_cons_of_neg hfault, List.filterMap_cons_some recordOf?_twoLineRecord,
    List.filterMap_nil]

/-- What is seen of a process that reports that it is ready and goes on with these lines. -/
def interruptedEvents : List ChildEvent :=
  [.output (Lines.ofLines (eventLine .ready :: interrupted))]

theorem delivers_interrupted :
    Delivers (Lines.ofLines (eventLine .ready :: interrupted)) interruptedEvents := by
  have hpiece := Delivers.piece (Lines.ofLines (eventLine .ready :: interrupted)) .done
  rwa [List.append_nil] at hpiece

/-- A sink that refuses every record. -/
def refusing : Sink Unit := fun _ s => (.error .full, s)

theorem handed_over_until_fault_interrupted :
    ((⟨.nil, 1000⟩ : Launcher).run interruptedEvents).phase = .returned (.ok ()) ∧
      (⟨.nil, 1000⟩ : Launcher).handedOver interruptedEvents refusing () = [twoLineRecord] := by
  obtain ⟨hphase, hhanded, -⟩ := handed_over_until_fault ⟨.nil, 1000⟩ refusing ()
    (lineFeed_not_mem_eventLine .ready) lineFeed_not_mem_interrupted (judge_ready _)
    delivers_interrupted
  exact ⟨hphase, hhanded.trans records_interrupted⟩

/-- A line that is no text silences the process: the record behind it is one, and is not handed
over. -/
theorem silenced_by_fault :
    (interrupted.map Lines.trimReturn).filterMap recordOf? = [twoLineRecord, twoLineRecord] ∧
      (⟨.nil, 1000⟩ : Launcher).handedOver interruptedEvents refusing () ≠
        (interrupted.map Lines.trimReturn).filterMap recordOf? := by
  have hnone : recordOf? faultyLine = none := by
    have htext : Lines.text? faultyLine = none := by decide
    rw [recordOf?, htext]
    rfl
  have hall : (interrupted.map Lines.trimReturn).filterMap recordOf? =
      [twoLineRecord, twoLineRecord] := by
    rw [trimReturn_interrupted, interrupted, List.filterMap_cons_some recordOf?_twoLineRecord,
      List.filterMap_cons_none hnone, List.filterMap_cons_some recordOf?_twoLineRecord,
      List.filterMap_nil]
  have hhanded : (⟨.nil, 1000⟩ : Launcher).handedOver interruptedEvents refusing () =
      [twoLineRecord] := by
    obtain ⟨-, hunread⟩ := run_ofLines (l := ⟨.nil, 1000⟩) (lineFeed_not_mem_eventLine .ready)
      (judge_ready _) delivers_interrupted
    rw [handedOver_eq, hunread, Lines.all_ofLines lineFeed_not_mem_interrupted, forwarded_eq]
    exact records_interrupted
  refine ⟨hall, ?_⟩
  rw [hall, hhanded]
  exact fun h => nomatch congrArg List.length h

end Launcher

end PolicyProbe
