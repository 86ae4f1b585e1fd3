import Mathlib.Data.List.Induction
import PolicyProbe.Client.Pings
import PolicyProbe.Proofs.Lists
import PolicyProbe.Proofs.Worker.Forwarding

/-!
The pings of a cycle make one record each. The events of a cycle come in any order. What becomes of
a ping depends on the ends of its own steps alone (`Tracks.phases`), and what the sink was handed
are at any time the records of the pings that were taken (`Tracks.noted`), so nothing is lost,
doubled or mixed up between destinations. When all pings were taken, the cycle is one of
`Client.cycle` with some order of the records (`one_record_per_ping`). Every event brings a cycle
nearer to that or changes nothing, and until then there is a ping that can go on.
-/
namespace PolicyProbe

/-- What the record of a ping says: where it went, what was expected, whether it was answered, and
the verdict. -/
structure Reports (source : Address) (d : Destination) (answered : Bool) (r : Record) : Prop where
  src : r.src = source
  dst : r.dst = d.address
  port : r.port = d.port
  protocol : r.protocol = d.protocol
  connected : r.connected = d.connected
  error : r.error = none ↔ answered = true
  success : r.success = true ↔ d.connected = true ∧ answered = d.action.allows ∨
    d.connected = false ∧ answered = false

theorem Client.reports_record (source : Address) (d : Destination)
    (outcome : Except PingError Unit) (stamp : Stamp) :
    Reports source d outcome.isOk (Client.record source d outcome stamp) where
  src := rfl
  dst := rfl
  port := rfl
  protocol := rfl
  connected := rfl
  error := by cases outcome <;> simp [Client.record, Except.isOk, Except.toBool]
  success := by
    show verdict outcome.isOk d.connected d.action = true ↔ _
    cases d.connected <;> simp [verdict]

/-! ## One ping -/

/-- How the steps of the ping of a destination end in a network. -/
def Network.attempts (net : Network) (d : Destination) : List Attempt :=
  match d.protocol with
  | .tcp =>
    let x := net.tcp d.address d.port
    [x.connect, x.send, x.receive]
  | .udp =>
    let x := net.udp d.address d.port
    match x.socket with
    | some text => [.failed text]
    | none => [x.send, x.receive]

namespace PingPhase

/-- A ping after its next steps ended one after another, each in its own way. -/
def continued (phase : PingPhase) (ends : List (Attempt × Stamp)) : PingPhase :=
  ends.foldl (fun phase e => phase.advance e.1 e.2) phase

/-- A ping of a protocol after steps that ended in some ways. -/
def after (protocol : Protocol) (ends : List (Attempt × Stamp)) : PingPhase :=
  (start protocol).continued ends

/-- How the steps of a ping that is answered end. -/
def allDone : Protocol → List Attempt
  | .tcp => [.done, .done, .done]
  | .udp => [.done, .done]

/-- Whether a ping is answered when its steps end in some ways: all of them are done. -/
def answered (protocol : Protocol) (ends : List (Attempt × Stamp)) : Bool :=
  (allDone protocol).isPrefixOf (ends.map Prod.fst)

theorem after_concat (protocol : Protocol) (ends : List (Attempt × Stamp)) (attempt : Attempt)
    (stamp : Stamp) :
    after protocol (ends ++ [(attempt, stamp)]) = (after protocol ends).advance attempt stamp := by
  simp [after, continued]

theorem continued_ended (outcome : Except PingError Unit) (stamp : Stamp)
    (ends : List (Attempt × Stamp)) :
    (ended outcome stamp).continued ends = ended outcome stamp := by
  induction ends with
  | nil => rfl
  | cons e ends ih => exact ih

/-- A ping is at its end with an answer if every step was done, and without one if some was not. -/
theorem isOk_of_ended {step : PingStep} {later : List PingStep} {ends : List (Attempt × Stamp)}
    {outcome : Except PingError Unit} {stamp : Stamp}
    (h : (running step later).continued ends = ended outcome stamp) :
    outcome.isOk =
      (List.replicate (later.length + 1) Attempt.done).isPrefixOf (ends.map Prod.fst) := by
  induction ends generalizing step later with
  | nil => cases h
  | cons e ends ih =>
    obtain ⟨attempt, made⟩ := e
    -- The first step that is not done ends the ping, and so does the last one.
    cases attempt with
    | done =>
      cases later with
      | nil =>
        have hend := (continued_ended (.ok ()) made ends).symm.trans h
        cases hend
        rfl
      | cons next later => exact ih h
    | late =>
      have hend := (continued_ended (.error (.timeout step)) made ends).symm.trans h
      cases hend
      rfl
    | failed text =>
      have hend := (continued_ended (.error (.io text)) made ends).symm.trans h
      cases hend
      rfl

theorem isOk_of_after {protocol : Protocol} {ends : List (Attempt × Stamp)}
    {outcome : Except PingError Unit} {stamp : Stamp}
    (h : after protocol ends = ended outcome stamp) :
    outcome.isOk = answered protocol ends := by
  cases protocol <;> exact isOk_of_ended h

/-- With steps that end as a network says, a ping ends with the outcome that the network gives it.
-/
theorem after_network (net : Network) (d : Destination) (stamp : Stamp) :
    after d.protocol ((net.attempts d).map fun attempt => (attempt, stamp)) =
      ended (net.outcome d) stamp := by
  obtain ⟨protocol, port, address, _, _⟩ := d
  cases protocol with
  | tcp =>
    rcases htcp : net.tcp address port with ⟨connect, send, receive⟩
    simp only [Network.attempts, Network.outcome, htcp]
    cases connect <;> cases send <;> cases receive <;> rfl
  | udp =>
    rcases hudp : net.udp address port with ⟨socket, send, arrivals⟩
    simp only [Network.attempts, Network.outcome, hudp]
    cases socket with
    | some text => rfl
    | none =>
      simp only [UdpExchange.outcome]
      generalize UdpExchange.receive _ = receive
      cases send <;> cases receive <;> rfl

/-- A ping that may have been taken is where it would be without that, but for its submission. -/
def Follows (alone phase : PingPhase) : Prop :=
  phase = alone ∨ ∃ outcome stamp, alone = ended outcome stamp ∧ phase = submitted outcome stamp

theorem Follows.advance {alone phase : PingPhase} (h : Follows alone phase) (attempt : Attempt)
    (stamp : Stamp) : Follows (alone.advance attempt stamp) (phase.advance attempt stamp) := by
  rcases h with rfl | ⟨outcome, made, rfl, rfl⟩
  · exact Or.inl rfl
  · exact Or.inr ⟨outcome, made, rfl, rfl⟩

theorem submitted_of_continued {phase : PingPhase} {ends : List (Attempt × Stamp)}
    {outcome : Except PingError Unit} {stamp : Stamp}
    (h : phase.continued ends = submitted outcome stamp) : phase = submitted outcome stamp := by
  induction ends generalizing phase with
  | nil => exact h
  | cons e ends ih =>
    have hnext := ih h
    obtain ⟨attempt, made⟩ := e
    cases phase with
    | running step later =>
      cases attempt with
      | done => cases later <;> cases hnext
      | late => cases hnext
      | failed text => cases hnext
    | ended outcome made => cases hnext
    | submitted outcome made => exact hnext

/-- No ping submits its record itself. -/
theorem after_ne_submitted (protocol : Protocol) (ends : List (Attempt × Stamp))
    (outcome : Except PingError Unit) (stamp : Stamp) :
    after protocol ends ≠ submitted outcome stamp := by
  intro h
  have hstart := submitted_of_continued h
  cases protocol <;> cases hstart

/-- The end of a step brings a ping nearer to its end, unless it is there. -/
theorem advance_nearer (phase : PingPhase) (attempt : Attempt) (stamp : Stamp) :
    phase.advance attempt stamp = phase ∧ phase.left ≤ 1 ∨
      (phase.advance attempt stamp).left < phase.left := by
  cases phase with
  | ended outcome made => exact Or.inl ⟨rfl, Nat.le_refl 1⟩
  | submitted outcome made => exact Or.inl ⟨rfl, Nat.zero_le 1⟩
  | running step later =>
    right
    cases attempt with
    | done => cases later <;> simp [advance, Attempt.outcome, left]
    | late => simp [advance, Attempt.outcome, left]
    | failed text => simp [advance, Attempt.outcome, left]

end PingPhase

namespace Client

variable {σ : Type}

theorem deliver_fst (sink : Sink σ) (rs : List Record) (s : σ) :
    (deliver sink rs s).1 = rs.length := by
  induction rs generalizing s with
  | nil => rfl
  | cons r rs ih => exact congrArg (· + 1) (ih _)

theorem deliver_concat (sink : Sink σ) (rs : List Record) (r : Record) (s : σ) :
    (deliver sink (rs ++ [r]) s).2 = (sink r (deliver sink rs s).2).2 := by
  induction rs generalizing s with
  | nil => rfl
  | cons first rs ih => exact ih _

end Client

/-! ## All pings of a cycle -/

/-- The record of a ping that was taken. -/
def PingTask.records (source : Address) (t : PingTask) : List Record :=
  match t.phase with
  | .submitted outcome stamp => [Client.record source t.destination outcome stamp]
  | _ => []

/-- A step of a ping submits nothing. -/
theorem PingTask.records_advance (source : Address) (t : PingTask) (attempt : Attempt)
    (stamp : Stamp) :
    PingTask.records source ⟨t.destination, t.phase.advance attempt stamp⟩ = t.records source := by
  obtain ⟨d, phase⟩ := t
  cases phase with
  | running step later =>
    cases attempt with
    | done => cases later <;> rfl
    | late => rfl
    | failed text => rfl
  | ended outcome made => rfl
  | submitted outcome made => rfl

namespace Pings

variable {σ : Type}

/-- The ends of the steps of one ping in the course of some events. -/
def endsOf (i : Nat) (events : List PingsEvent) : List (Attempt × Stamp) :=
  events.filterMap fun e => match e with
    | .step j attempt stamp => if j = i then some (attempt, stamp) else none
    | .take _ => none

theorem endsOf_step_self (i : Nat) (events : List PingsEvent) (attempt : Attempt) (stamp : Stamp) :
    endsOf i (events ++ [.step i attempt stamp]) = endsOf i events ++ [(attempt, stamp)] := by
  simp [endsOf]

theorem endsOf_step_of_ne {i j : Nat} (h : j ≠ i) (events : List PingsEvent) (attempt : Attempt)
    (stamp : Stamp) : endsOf i (events ++ [.step j attempt stamp]) = endsOf i events := by
  simp [endsOf, h]

theorem endsOf_take (i j : Nat) (events : List PingsEvent) :
    endsOf i (events ++ [.take j]) = endsOf i events := by
  simp [endsOf]

/-- What can come of an event: nothing, a ping that goes on, or a record that is taken. -/
inductive Handled (sink : Sink σ) (p : Pings σ) : PingsEvent → Pings σ → Prop where
  | missed {i : Nat} {attempt : Attempt} {stamp : Stamp} (hnone : p.tasks[i]? = none) :
      Handled sink p (.step i attempt stamp) p
  | step {i : Nat} {t : PingTask} {attempt : Attempt} {stamp : Stamp}
      (ht : p.tasks[i]? = some t) :
      Handled sink p (.step i attempt stamp)
        (p.move i t.destination (t.phase.advance attempt stamp))
  | idle {i : Nat} (hidle : ∀ d outcome stamp, p.tasks[i]? ≠ some ⟨d, .ended outcome stamp⟩) :
      Handled sink p (.take i) p
  | take {i : Nat} {d : Destination} {outcome : Except PingError Unit} {stamp : Stamp}
      (ht : p.tasks[i]? = some ⟨d, .ended outcome stamp⟩) :
      Handled sink p (.take i)
        { p.move i d (.submitted outcome stamp) with
          produced := p.produced + 1
          sink := (sink (Client.record p.source d outcome stamp) p.sink).2 }

theorem handled_handle (sink : Sink σ) (p : Pings σ) (e : PingsEvent) :
    Handled sink p e (p.handle sink e) := by
  cases e with
  | step i attempt stamp =>
    rw [handle]
    split
    · rename_i d phase ht
      exact .step ht
    · rename_i hnone
      exact .missed hnone
  | take i =>
    rw [handle]
    split
    · rename_i d outcome stamp ht
      exact .take ht
    · rename_i hother
      exact .idle hother

/-! ## What an event leaves -/

/-- The pings of a cycle of `c` after some events, with a sink that notes what it is handed. Every
ping is where the ends of its own steps lead it. The records of those that were taken are what was
handed to the sink, and they are counted. -/
structure Tracks (c : Client) (sink : Sink σ) (s : σ) (events : List PingsEvent)
    (p : Pings (List Record × σ)) : Prop where
  source : p.source = c.source
  destinations : p.tasks.map (·.destination) = c.nextBatch.1
  phases : ∀ i t, p.tasks[i]? = some t →
    (PingPhase.after t.destination.protocol (endsOf i events)).Follows t.phase
  noted : p.sink.1.Perm (p.tasks.flatMap (·.records c.source))
  produced : p.produced = p.sink.1.length
  handed : p.sink.2 = (Client.deliver sink p.sink.1 s).2

theorem tracks_start (c : Client) (sink : Sink σ) (s : σ) :
    Tracks c sink s [] (start c ([], s)) where
  source := rfl
  destinations := by simp [start, Function.comp_def]
  phases := by
    intro i t ht
    obtain ⟨d, -, rfl⟩ := List.mem_map.mp (List.mem_of_getElem? ht)
    exact Or.inl rfl
  noted := by
    have hnone : ∀ d : Destination, (PingTask.mk d (.start d.protocol)).records c.source = [] := by
      rintro ⟨_ | _, _, _, _, _⟩ <;> rfl
    simp [start, List.flatMap_map, hnone]
  produced := rfl
  handed := rfl

/-- A ping that changes its phase keeps its destination. -/
theorem destinations_move (p : Pings σ) {i : Nat} {t : PingTask} (ht : p.tasks[i]? = some t)
    (phase : PingPhase) :
    (p.move i t.destination phase).tasks.map (·.destination) = p.tasks.map (·.destination) := by
  rw [move, List.map_set]
  apply set_getElem?
  rw [List.getElem?_map, ht, Option.map_some]

/-- The pings after one of them changed its phase: that one, and the others as they were. -/
theorem getElem?_move {p : Pings σ} {i j : Nat} {d : Destination} {phase : PingPhase}
    {t : PingTask} (h : (p.move i d phase).tasks[j]? = some t) :
    i = j ∧ t = ⟨d, phase⟩ ∨ i ≠ j ∧ p.tasks[j]? = some t := by
  rw [move, List.getElem?_set] at h
  by_cases hij : i = j
  · rw [if_pos hij] at h
    split at h
    · exact Or.inl ⟨hij, (Option.some.inj h).symm⟩
    · cases h
  · rw [if_neg hij] at h
    exact Or.inr ⟨hij, h⟩

variable {c : Client} {sink : Sink σ} {s : σ} {events : List PingsEvent}
  {p : Pings (List Record × σ)}

theorem Tracks.step (h : Tracks c sink s events p) {i : Nat} {t : PingTask}
    (ht : p.tasks[i]? = some t) (attempt : Attempt) (stamp : Stamp) :
    Tracks c sink s (events ++ [.step i attempt stamp])
      (p.move i t.destination (t.phase.advance attempt stamp)) where
  source := h.source
  destinations := (destinations_move p ht _).trans h.destinations
  phases := by
    intro j u hu
    rcases getElem?_move hu with ⟨rfl, rfl⟩ | ⟨hne, hu⟩
    · rw [endsOf_step_self, PingPhase.after_concat]
      exact (h.phases i t ht).advance attempt stamp
    · rw [endsOf_step_of_ne hne]
      exact h.phases j u hu
  noted := by
    have hset := flatMap_set ht ⟨t.destination, t.phase.advance attempt stamp⟩
      (·.records c.source)
    rw [PingTask.records_advance, List.perm_append_right_iff] at hset
    exact h.noted.trans hset.symm
  produced := h.produced
  handed := h.handed

theorem Tracks.take (h : Tracks c sink s events p) {i : Nat} {d : Destination}
    {outcome : Except PingError Unit} {stamp : Stamp}
    (ht : p.tasks[i]? = some ⟨d, .ended outcome stamp⟩) :
    Tracks c sink s (events ++ [.take i])
      { p.move i d (.submitted outcome stamp) with
        produced := p.produced + 1
        sink := (Client.noting sink (Client.record p.source d outcome stamp) p.sink).2 } where
  source := h.source
  destinations := (destinations_move p ht _).trans h.destinations
  phases := by
    intro j u hu
    rw [endsOf_take]
    rcases getElem?_move hu with ⟨rfl, rfl⟩ | ⟨-, hu⟩
    · rcases h.phases i _ ht with hended | ⟨_, _, -, hsubmitted⟩
      · exact Or.inr ⟨outcome, stamp, hended.symm, rfl⟩
      · cases hsubmitted
    · exact h.phases j u hu
  noted := by
    have hset := flatMap_set ht ⟨d, .submitted outcome stamp⟩ (·.records c.source)
    rw [show PingTask.records c.source ⟨d, .ended outcome stamp⟩ = [] from rfl,
      List.append_nil] at hset
    rw [h.source]
    exact (h.noted.append_right _).trans hset.symm
  produced := by
    show p.produced + 1 = (p.sink.1 ++ [_]).length
    rw [List.length_append, List.length_singleton, h.produced]
  handed := by
    show (sink _ p.sink.2).2 = (Client.deliver sink (p.sink.1 ++ [_]) s).2
    rw [Client.deliver_concat, h.handed]

theorem Tracks.handle (h : Tracks c sink s events p) (e : PingsEvent) :
    Tracks c sink s (events ++ [e]) (p.handle (Client.noting sink) e) := by
  have hhandled := handled_handle (Client.noting sink) p e
  generalize p.handle (Client.noting sink) e = after at hhandled ⊢
  cases hhandled with
  | missed hnone =>
    refine ⟨h.source, h.destinations, ?_, h.noted, h.produced, h.handed⟩
    intro j t ht
    rw [endsOf_step_of_ne]
    · exact h.phases j t ht
    · rintro rfl
      rw [hnone] at ht
      cases ht
  | step ht => exact h.step ht _ _
  | idle hidle =>
    refine ⟨h.source, h.destinations, ?_, h.noted, h.produced, h.handed⟩
    intro j t ht
    rw [endsOf_take]
    exact h.phases j t ht
  | take ht => exact h.take ht

theorem tracks_run (c : Client) (sink : Sink σ) (s : σ) (events : List PingsEvent) :
    Tracks c sink s events ((start c ([], s)).run (Client.noting sink) events) := by
  induction events using List.reverseRecOn with
  | nil => exact tracks_start c sink s
  | append_singleton events e ih =>
    rw [run, List.foldl_append]
    exact ih.handle e

/-! ## The end of a cycle -/

section Progress

variable {σ : Type} {p : Pings σ}

theorem isOver_iff :
    p.isOver = true ↔ ∀ t ∈ p.tasks, ∃ outcome stamp, t.phase = .submitted outcome stamp := by
  rw [isOver, List.all_eq_true]
  constructor
  · intro h t ht
    have hthis := h t ht
    split at hthis
    · rename_i outcome stamp hphase
      exact ⟨outcome, stamp, hphase⟩
    · cases hthis
  · intro h t ht
    obtain ⟨outcome, stamp, hphase⟩ := h t ht
    rw [hphase]

/-- A ping that has less left to do leaves less to be done. -/
theorem left_move {i : Nat} {t : PingTask} (ht : p.tasks[i]? = some t) {phase : PingPhase}
    (h : phase.left < t.phase.left) : (p.move i t.destination phase).left < p.left := by
  have hsum := foldr_add_set ht ⟨t.destination, phase⟩ (·.phase.left)
  simp only [left, move] at hsum ⊢
  omega

/-- Whatever happens brings the cycle nearer to its end or changes nothing. -/
theorem handle_nearer (sink : Sink σ) (p : Pings σ) (e : PingsEvent) :
    p.handle sink e = p ∨ (p.handle sink e).left < p.left := by
  have hhandled := handled_handle sink p e
  generalize p.handle sink e = p' at hhandled ⊢
  cases hhandled with
  | missed _ => exact Or.inl rfl
  | idle _ => exact Or.inl rfl
  | take ht => exact Or.inr (left_move ht Nat.zero_lt_one)
  | @step i t attempt stamp ht =>
    rcases t.phase.advance_nearer attempt stamp with ⟨hsame, -⟩ | hless
    · left
      rw [hsame, move, set_getElem? ht]
    · exact Or.inr (left_move ht hless)

/-- Until the cycle is over, there is a ping of which the next step may end in any way, or one that
may be taken. -/
theorem exists_nearer (sink : Sink σ) (h : p.isOver = false) :
    ∃ i, (∀ attempt stamp, (p.handle sink (.step i attempt stamp)).left < p.left) ∨
      (p.handle sink (.take i)).left < p.left := by
  have hnot : ¬∀ t ∈ p.tasks, ∃ outcome stamp, t.phase = .submitted outcome stamp := by
    rw [← isOver_iff, h]
    exact Bool.false_ne_true
  push Not at hnot
  obtain ⟨⟨d, phase⟩, hmem, hphase⟩ := hnot
  obtain ⟨i, ht⟩ := List.getElem?_of_mem hmem
  refine ⟨i, ?_⟩
  cases phase with
  | submitted outcome stamp => exact absurd rfl (hphase outcome stamp)
  | ended outcome stamp =>
    right
    simp only [handle, ht]
    exact left_move ht Nat.zero_lt_one
  | running step later =>
    left
    intro attempt stamp
    simp only [handle, ht]
    rcases (PingPhase.running step later).advance_nearer attempt stamp with ⟨-, hle⟩ | hless
    · simp [PingPhase.left] at hle
    · exact left_move ht hless

end Progress

/-- The records of pings that all were taken, by their places. -/
theorem flatMap_records {source : Address} {tasks : List PingTask}
    {ping : Nat → Except PingError Unit × Stamp}
    (h : ∀ i (t : PingTask), tasks[i]? = some t → t.phase = .submitted (ping i).1 (ping i).2) :
    tasks.flatMap (·.records source) =
      (tasks.map (·.destination)).mapIdx fun i d =>
        Client.record source d (ping i).1 (ping i).2 := by
  induction tasks generalizing ping with
  | nil => rfl
  | cons t tasks ih =>
    have hfirst : t.records source =
        [Client.record source t.destination (ping 0).1 (ping 0).2] := by
      rw [PingTask.records, h 0 t rfl]
    have hrest := ih fun i u hu => h (i + 1) u hu
    rw [List.flatMap_cons, hfirst, hrest, List.map_cons, List.mapIdx_cons]
    rfl

variable {σ : Type}

/-- Every cycle makes one record for each destination of its window. Whatever happens in it, however
the steps of its pings end and whatever the sink answers, it comes nearer to its end, and then the
number it answers with is that of the window. The sink was handed the records of all pings, each
once, in the order in which they were taken, as in `Client.cycle`; the record at a place reports on
the destination at that place, and on the ends of the steps of that ping alone. -/
theorem one_record_per_ping (c : Client) (sink : Sink σ) (s : σ) (events : List PingsEvent) :
    let p := (start c ([], s)).run (Client.noting sink) events
    (p.isOver = true → p.produced = c.nextBatch.1.length ∧
      ∃ (ping : Nat → Except PingError Unit × Stamp) (ended : List Record → List Record),
        let made := c.nextBatch.1.mapIdx fun i d => Client.record c.source d (ping i).1 (ping i).2
        p.sink.1.Perm made ∧ ended made = p.sink.1 ∧
        c.cycle (fun i _ => ping i) ended sink s = (p.produced, c.nextBatch.2, p.sink.2) ∧
        ∀ i d, c.nextBatch.1[i]? = some d → ∃ r, made[i]? = some r ∧
          Reports c.source d (PingPhase.answered d.protocol (endsOf i events)) r) ∧
    (∀ e, p.handle (Client.noting sink) e = p ∨
      (p.handle (Client.noting sink) e).left < p.left) ∧
    (p.isOver = false → ∃ i,
      (∀ attempt stamp, (p.handle (Client.noting sink) (.step i attempt stamp)).left < p.left) ∨
        (p.handle (Client.noting sink) (.take i)).left < p.left) := by
  intro p
  have htracks : Tracks c sink s events p := tracks_run c sink s events
  refine ⟨fun hover => ?_, handle_nearer _ p, exists_nearer _⟩
  -- Each place has the outcome and the stamp of its own ping; other places do not matter.
  have hends : ∀ i : Nat, ∃ result : Except PingError Unit × Stamp, ∀ t : PingTask,
      p.tasks[i]? = some t → t.phase = .submitted result.1 result.2 := by
    intro i
    cases ht : p.tasks[i]? with
    | none =>
      refine ⟨(.ok (), Machine.stamp 0), ?_⟩
      intro u hu
      cases hu
    | some t =>
      obtain ⟨outcome, stamp, hphase⟩ := isOver_iff.mp hover t (List.mem_of_getElem? ht)
      refine ⟨(outcome, stamp), ?_⟩
      rintro u ⟨rfl⟩
      exact hphase
  obtain ⟨ping, hping⟩ := Classical.skolem.mp hends
  have hperm := htracks.noted
  rw [flatMap_records hping, htracks.destinations] at hperm
  have hlength : p.sink.1.length = c.nextBatch.1.length := by
    rw [hperm.length_eq, List.length_mapIdx]
  refine ⟨htracks.produced.trans hlength, ping, fun _ => p.sink.1, hperm, rfl, ?_, ?_⟩
  · rw [Client.cycle]
    dsimp only
    rw [htracks.produced, htracks.handed, ← Client.deliver_fst sink p.sink.1 s]
  · intro i d hd
    refine ⟨Client.record c.source d (ping i).1 (ping i).2, ?_, ?_⟩
    · rw [List.getElem?_mapIdx, hd, Option.map_some]
    · rw [← htracks.destinations, List.getElem?_map, Option.map_eq_some_iff] at hd
      obtain ⟨t, ht, rfl⟩ := hd
      have hfollows := htracks.phases i t ht
      rw [hping i t ht] at hfollows
      rcases hfollows with hsame | ⟨outcome, stamp, hended, hsubmitted⟩
      · exact absurd hsame.symm (PingPhase.after_ne_submitted _ _ _ _)
      · cases hsubmitted
        rw [← PingPhase.isOk_of_after hended]
        exact Client.reports_record _ _ _ _

/-- A client that expects two contrary things of one destination. -/
def contrary : Client where
  source := .loopback
  destinations := [⟨.tcp, 80, .loopback, true, .allow⟩, ⟨.tcp, 80, .loopback, true, .reject⟩]
  rate := 2
  cursor := 0

/-- A sink that refuses every record and counts them. -/
def refusing : Sink Nat := fun _ n => (.error .full, n + 1)

/-- The second ping is late and is taken first, and then the first one is answered. -/
def overtaken : List PingsEvent :=
  [.step 0 .done (Machine.stamp 0), .step 1 .late (Machine.stamp 1), .take 1,
    .step 0 .done (Machine.stamp 2), .step 0 .done (Machine.stamp 3), .take 0]

theorem one_record_per_ping_overtaken :
    let p := (start contrary ([], 0)).run (Client.noting refusing) overtaken
    p.isOver = true ∧ p.produced = 2 ∧ p.sink.2 = 2 ∧
      p.sink.1.map (fun r => (r.error, r.success)) =
        [(some "timed out during connect", true), (none, true)] ∧
      ∃ (ping : Nat → Except PingError Unit × Stamp) (ended : List Record → List Record),
        contrary.cycle (fun i _ => ping i) ended refusing 0 = (2, contrary, 2) := by
  intro p
  have hover : p.isOver = true := by decide +kernel
  have hproduced : p.produced = 2 := by decide +kernel
  have hcounted : p.sink.2 = 2 := by decide +kernel
  obtain ⟨-, ping, ended, -, -, hcycle, -⟩ :=
    (one_record_per_ping contrary refusing 0 overtaken).1 hover
  have hresult : (p.produced, contrary.nextBatch.2, p.sink.2) = (2, contrary, 2) := by
    rw [hproduced, hcounted]
    rfl
  exact ⟨hover, hproduced, hcounted, by decide +kernel, ping, ended, hcycle.trans hresult⟩

end Pings

end PolicyProbe
