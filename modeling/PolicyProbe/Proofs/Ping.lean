import PolicyProbe.Machine
import PolicyProbe.Ping.Socket

/-!
What a ping over UDP takes for an answer. However its events are ordered, its outcome is that of one
exchange with all that reached the socket (`UdpPing.outcome_of_ended`). So the first arrival alone
decides (`UdpPing.answered_iff`), and nobody looks at its sender: a stranger's datagram counts as an
answer of the destination (`UdpPing.stranger_answers`).
-/
namespace PolicyProbe

/-- Whether something that arrived was sent from an address and port. -/
def Arrival.IsFrom (a : Address) (port : Nat) : Arrival → Prop
  | .datagram sender senderPort _ => sender = a ∧ senderPort = port
  | .failure _ => False

/-- An exchange is an answer when a datagram comes first, whoever sent it. -/
theorem UdpExchange.outcome_eq_ok_iff {x : UdpExchange} : x.outcome = .ok () ↔
    x.socket = none ∧ x.send = .done ∧ ∃ sender port payload later,
      x.arrivals = .datagram sender port payload :: later := by
  obtain ⟨socket, send, arrivals⟩ := x
  cases socket with
  | some text => exact ⟨fun h => (by cases h), fun h => (by cases h.1)⟩
  | none =>
    cases send with
    | late | failed text => exact ⟨fun h => (by cases h), fun h => (by cases h.2.1)⟩
    | done =>
      constructor
      · intro h
        refine ⟨rfl, rfl, ?_⟩
        cases arrivals with
        | nil => cases h
        | cons a later =>
          cases a with
          | datagram sender port payload => exact ⟨sender, port, payload, later, rfl⟩
          | failure text => cases h
      · rintro ⟨-, -, sender, port, payload, later, harrivals⟩
        dsimp only at harrivals
        subst harrivals
        rfl

theorem Client.error_eq_none_iff {source : Address} {d : Destination}
    {outcome : Except PingError Unit} {stamp : Stamp} :
    (Client.record source d outcome stamp).error = none ↔ outcome = .ok () := by
  cases outcome with
  | ok u => exact ⟨fun _ => rfl, fun _ => rfl⟩
  | error e => exact ⟨fun h => (by cases h), fun h => (by cases h)⟩

/-- How sending ended, if an event tells it. -/
def UdpEvent.sent? : UdpEvent → Option Attempt
  | .sent attempt => some attempt
  | _ => none

namespace UdpPing

variable {p : UdpPing} {socket : Option String} {sent : Option Attempt} {log : List Arrival}

/-- What an event brings to a socket that is open. -/
def reaches (p : UdpPing) (e : UdpEvent) : List Arrival :=
  match p.phase, e with
  | .ended _, _ => []
  | _, .arrives a => [a]
  | _, _ => []

/-- What some events bring to a socket as long as it is open. -/
def reached (p : UdpPing) : List UdpEvent → List Arrival
  | [] => []
  | e :: events => p.reaches e ++ (p.step e).reached events

/-- How sending ended among some events. -/
def sentAs (events : List UdpEvent) : Option Attempt := events.findSome? UdpEvent.sent?

/-- The exchange that some events amount to. -/
def exchange (socket : Option String) (events : List UdpEvent) : UdpExchange :=
  ⟨socket, (sentAs events).getD .late, (start socket).reached events⟩

/-- Where a ping is after its sending ended in some way, if it did, and some things reached its
socket. -/
def Consistent (socket : Option String) (sent : Option Attempt) (log : List Arrival)
    (p : UdpPing) : Prop :=
  match p.phase with
  | .sending => socket = none ∧ sent = none ∧ p.inbox = log
  | .receiving => socket = none ∧ sent = some .done ∧ p.inbox = log
  | .ended outcome => outcome = (UdpExchange.mk socket (sent.getD .late) log).outcome ∧
      (socket = none → sent.isSome = true)

theorem consistent_start (socket : Option String) :
    (start socket).Consistent socket none [] := by
  cases socket with
  | none => exact ⟨rfl, rfl, rfl⟩
  | some text => exact ⟨rfl, fun h => by cases h⟩

/-- Nothing that happens to a ping that ended changes it. -/
theorem step_of_ended {outcome : Except PingError Unit} (hp : p.phase = .ended outcome)
    (e : UdpEvent) : p.step e = p := by
  cases e with
  | arrives a => rw [step, arrive, hp]
  | sent attempt => rw [step, send, hp]
  | looks => rw [step, take, hp]
  | expires => rw [step, take, hp]

theorem Consistent.of_ended {outcome : Except PingError Unit} (hp : p.phase = .ended outcome)
    (h : p.Consistent socket sent log) (more : Option Attempt) :
    p.Consistent socket (sent.or more) log := by
  simp only [Consistent, hp] at h ⊢
  obtain ⟨houtcome, hsent⟩ := h
  cases socket with
  | some text => exact ⟨houtcome, fun hnone => by cases hnone⟩
  | none =>
    rw [Option.or_of_isSome (hsent rfl)]
    exact ⟨houtcome, hsent⟩

theorem Consistent.sending (hp : p.phase = .sending) (h : p.Consistent socket sent log)
    (e : UdpEvent) : (p.step e).Consistent socket (sent.or e.sent?) (log ++ p.reaches e) := by
  obtain ⟨inbox, phase⟩ := p
  subst hp
  obtain ⟨rfl, rfl, rfl⟩ := h
  cases e with
  | arrives a => exact ⟨rfl, rfl, rfl⟩
  | sent attempt =>
    cases attempt with
    | done => exact ⟨rfl, rfl, (List.append_nil _).symm⟩
    | late | failed text => exact ⟨rfl, fun _ => rfl⟩
  | looks | expires => exact ⟨rfl, rfl, (List.append_nil _).symm⟩

theorem Consistent.receiving (hp : p.phase = .receiving) (h : p.Consistent socket sent log)
    (e : UdpEvent) : (p.step e).Consistent socket (sent.or e.sent?) (log ++ p.reaches e) := by
  obtain ⟨inbox, phase⟩ := p
  subst hp
  obtain ⟨rfl, rfl, rfl⟩ := h
  cases e with
  | arrives a => exact ⟨rfl, rfl, rfl⟩
  | sent attempt => exact ⟨rfl, rfl, (List.append_nil _).symm⟩
  | looks =>
    cases inbox with
    | nil => exact ⟨rfl, rfl, rfl⟩
    | cons a rest => cases a <;> exact ⟨rfl, fun _ => rfl⟩
  | expires =>
    cases inbox with
    | nil => exact ⟨rfl, fun _ => rfl⟩
    | cons a rest => cases a <;> exact ⟨rfl, fun _ => rfl⟩

/-- One step, with what it brings and how it ends sending. -/
theorem Consistent.step (h : p.Consistent socket sent log) (e : UdpEvent) :
    (p.step e).Consistent socket (sent.or e.sent?) (log ++ p.reaches e) := by
  cases hp : p.phase with
  | sending => exact h.sending hp e
  | receiving => exact h.receiving hp e
  | ended outcome =>
    have hnone : p.reaches e = [] := by simp only [reaches, hp]
    rw [step_of_ended hp, hnone, List.append_nil]
    exact h.of_ended hp _

/-- A whole run. -/
theorem Consistent.run (h : p.Consistent socket sent log) (events : List UdpEvent) :
    (p.run events).Consistent socket (sent.or (sentAs events)) (log ++ p.reached events) := by
  induction events generalizing p sent log with
  | nil => simpa [sentAs, reached, UdpPing.run] using h
  | cons e events ih =>
    have hrest := ih (h.step e)
    have hsent : sentAs (e :: events) = e.sent?.or (sentAs events) := by
      rw [sentAs, List.findSome?_cons]
      cases e.sent? <;> rfl
    rw [hsent, reached, ← Option.or_assoc, ← List.append_assoc]
    exact hrest

/-- The outcome of a ping is that of the exchange that its events amount to. -/
theorem outcome_of_ended {events : List UdpEvent} {outcome : Except PingError Unit}
    (h : ((start socket).run events).phase = .ended outcome) :
    outcome = (exchange socket events).outcome ∧
      (socket = none → (sentAs events).isSome = true) := by
  have hrun := (consistent_start socket).run events
  rw [Consistent, h] at hrun
  exact hrun

/-- The record of a ping over UDP has no error exactly when the first thing that reached the socket
is a datagram. Its sender does not matter: if it is a stranger, and nothing comes from the
destination itself, the destination counts as answered all the same. -/
theorem answered_iff (net : Network) (source : Address) (d : Destination) (stamp : Stamp)
    (socket : Option String) (events : List UdpEvent) (outcome : Except PingError Unit)
    (hd : d.protocol = .udp) (hnet : net.udp d.address d.port = exchange socket events)
    (hended : ((start socket).run events).phase = .ended outcome) :
    net.outcome d = outcome ∧
      ((Client.record source d outcome stamp).error = none ↔
        socket = none ∧ sentAs events = some .done ∧ ∃ sender port payload later,
          (start socket).reached events = .datagram sender port payload :: later) := by
  obtain ⟨houtcome, hsent⟩ := outcome_of_ended hended
  refine ⟨?_, ?_⟩
  · rw [Network.outcome, hd, houtcome, ← hnet]
  · rw [Client.error_eq_none_iff, houtcome, UdpExchange.outcome_eq_ok_iff]
    refine and_congr_right fun hsocket => and_congr_left fun _ => ?_
    obtain ⟨attempt, hattempt⟩ := Option.isSome_iff_exists.mp (hsent hsocket)
    simp [exchange, hattempt]

/-- A destination on another host. -/
def farDestination : Destination := ⟨.udp, 53, .v4 [10, 0, 0, 7] (by decide), true, .allow⟩

/-- The destination answers before the ping looks for it. -/
def answering : List UdpEvent :=
  [.sent .done, .arrives (.datagram farDestination.address 53 [1]), .expires]

/-- A network in which it does. -/
def answeringNetwork : Network :=
  { Network.unrouted with udp := fun _ _ => exchange none answering }

theorem answered_iff_answering :
    answeringNetwork.outcome farDestination = .ok () ∧
      (Client.record .loopback farDestination (.ok ()) (Machine.stamp 0)).error = none := by
  obtain ⟨houtcome, hanswered⟩ := answered_iff answeringNetwork .loopback farDestination
    (Machine.stamp 0) none answering (.ok ()) rfl rfl rfl
  exact ⟨houtcome, hanswered.mpr ⟨rfl, rfl, _, _, _, _, rfl⟩⟩

/-- Somebody else sends a datagram to the socket. -/
def straying : List UdpEvent := [.sent .done, .arrives (.datagram .loopback 40000 []), .looks]

/-- The destination counts as answered by a datagram of a stranger, and by nothing else. -/
theorem stranger_answers :
    ((start none).run straying).phase = .ended (.ok ()) ∧
      (∀ a ∈ (start none).reached straying, ¬a.IsFrom farDestination.address farDestination.port) ∧
      (Client.record .loopback farDestination (.ok ()) (Machine.stamp 0)).error = none := by
  refine ⟨rfl, fun a ha hfrom => ?_, rfl⟩
  obtain rfl : a = .datagram .loopback 40000 [] := List.mem_singleton.mp ha
  exact absurd hfrom.2 (by decide)

end UdpPing

end PolicyProbe
