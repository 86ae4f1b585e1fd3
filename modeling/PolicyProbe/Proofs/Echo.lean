import PolicyProbe.Echo
import PolicyProbe.Proofs.Lists

/-!
What echo servers do, whatever happens to their sockets. The answers of a datagram server, with
those it still owes, are the datagrams that reached it, in order, each cut to a packet and for its
own sender; nothing but the flag ends the server, and then it is silent
(`DatagramServer.Serves`). A stream server accepts every connection as long as it serves. From its
acceptance on a connection goes its own way: its single read takes what is there, all of that is
written in as many pieces as it takes, and then it is closed for good. Nothing but the flag ends the
server, which then accepts no more (`StreamServer.Serves`). Both hold of every run
(`servers_serve`).
-/
namespace PolicyProbe

/-- What does not hold at first and holds in the end comes to hold at some step. -/
theorem exists_step_of_foldl {σ ε : Type} {step : σ → ε → σ} {P : σ → Prop} {s : σ}
    {events : List ε} (hs : ¬P s) (h : P (events.foldl step s)) :
    ∃ before e after, events = before ++ e :: after ∧ ¬P (before.foldl step s) ∧
      P (step (before.foldl step s) e) := by
  induction events generalizing s with
  | nil => exact absurd h hs
  | cons e events ih =>
    by_cases he : P (step s e)
    · exact ⟨[], e, events, rfl, hs, he⟩
    · obtain ⟨before, e', after, rfl, hbefore, hstep⟩ := ih he h
      exact ⟨e :: before, e', after, rfl, hbefore, hstep⟩

namespace Echo

/-! ## The flag -/

/-- Two signals make a flag stop a server. -/
theorem Shutdown.stops_after {w : Shutdown} {x : Signal} (hw : w.stops = false)
    (h : (w.after x).stops = true) : x = .set true ∨ x = .dropped := by
  cases x with
  | dropped => exact .inr rfl
  | set value =>
    cases value with
    | true => exact .inl rfl
    | false =>
      unfold after at h
      dsimp only at h
      split at h
      · rename_i hheld
        simp [stops, hheld] at h
      · rw [hw] at h
        cases h

/-- A flag that follows the signals among some events and comes to stop a server was set or let go
by one of them. -/
theorem Shutdown.exists_cause {σ ε : Type} {step : σ → ε → σ} {flag : σ → Shutdown}
    {signal? : ε → Option Signal}
    (hstep : ∀ s e, flag (step s e) = (signal? e).elim (flag s) (flag s).after)
    {s : σ} {events : List ε} (hs : (flag s).stops = false)
    (h : (flag (events.foldl step s)).stops = true) :
    ∃ e ∈ events, signal? e = some (.set true) ∨ signal? e = some .dropped := by
  obtain ⟨before, e, after, rfl, hbefore, hafter⟩ :=
    exists_step_of_foldl (P := fun s => (flag s).stops = true) (by rw [hs]; decide) h
  refine ⟨e, List.mem_append_right _ List.mem_cons_self, ?_⟩
  rw [hstep] at hafter
  cases hx : signal? e with
  | none =>
    rw [hx] at hafter
    exact absurd hafter hbefore
  | some x =>
    rw [hx] at hafter
    rcases stops_after (by simpa using hbefore) hafter with rfl | rfl
    · exact .inl rfl
    · exact .inr rfl

/-- A flag that follows the signals among some events is what these make of it. -/
theorem Shutdown.foldl_signals {σ ε : Type} {step : σ → ε → σ} {flag : σ → Shutdown}
    {signal? : ε → Option Signal}
    (hstep : ∀ s e, flag (step s e) = (signal? e).elim (flag s) (flag s).after) (s : σ)
    (events : List ε) :
    flag (events.foldl step s) = (events.filterMap signal?).foldl Shutdown.after (flag s) := by
  induction events generalizing s with
  | nil => rfl
  | cons e events ih =>
    rw [List.foldl_cons, ih, hstep]
    cases hx : signal? e with
    | none => rw [List.filterMap_cons_none hx, Option.elim_none]
    | some x => rw [List.filterMap_cons_some hx, Option.elim_some, List.foldl_cons]

/-! ## Datagrams -/

/-- What is owed for a delivery: the front of the datagram, to its sender. -/
def Delivery.reply? : Delivery → Option (Peer × List UInt8)
  | .datagram peer bytes => some (peer, bytes.take packetSize)
  | .failure => none

/-- An answer, whether the network took it or not. -/
def Reply.message (r : Reply) : Peer × List UInt8 := (r.peer, r.bytes)

/-- The change of the flag, if an event is one. -/
def DatagramEvent.signal? : DatagramEvent → Option Signal
  | .signal x => some x
  | _ => none

theorem DatagramEvent.eq_of_signal? {e : DatagramEvent} {x : Signal} (h : e.signal? = some x) :
    e = .signal x := by
  cases e with
  | signal y => rw [Option.some.inj h]
  | arrives | receives | sends | ends => cases h

namespace DatagramServer

variable {s : DatagramServer}

/-- The answer that is on its way. -/
def pending (s : DatagramServer) : List (Peer × List UInt8) :=
  match s.phase with
  | .sending peer count => [(peer, s.buffer.take count)]
  | _ => []

/-- The answers of a server, the one on its way and those it still owes. -/
def answers (s : DatagramServer) : List (Peer × List UInt8) :=
  s.replies.map Reply.message ++ (s.pending ++ s.inbox.filterMap Delivery.reply?)

/-- What an event brings to a socket that is open. -/
def reaches (s : DatagramServer) : DatagramEvent → List Delivery
  | .arrives d => if s.phase = .ended then [] else [d]
  | _ => []

/-- What some events bring to a socket as long as it is open. -/
def reached (s : DatagramServer) : List DatagramEvent → List Delivery
  | [] => []
  | e :: events => s.reaches e ++ (s.step e).reached events

/-- The front of a buffer that was filled is the front of the datagram, whatever was in the buffer
before. -/
theorem take_fill (buffer bytes : List UInt8) :
    (fill buffer bytes).1.take (fill buffer bytes).2 = bytes.take buffer.length := by
  rw [fill, List.take_left]

theorem length_fill (buffer bytes : List UInt8) :
    (fill buffer bytes).1.length = buffer.length := by
  simp only [fill, List.length_append, List.length_drop, List.length_take]
  omega

theorem length_buffer_step (hs : s.buffer.length = packetSize) (e : DatagramEvent) :
    (s.step e).buffer.length = packetSize := by
  cases e with
  | arrives d =>
    rw [step]
    split <;> exact hs
  | receives =>
    rw [step, receive]
    split
    · exact (length_fill _ _).trans hs
    · exact hs
    · exact hs
  | sends sent =>
    rw [step, reply]
    split <;> exact hs
  | signal x => exact hs
  | ends =>
    rw [step]
    split <;> exact hs

/-- Receiving owes what it takes out of the socket. -/
theorem answers_receive (hs : s.buffer.length = packetSize) : s.receive.answers = s.answers := by
  unfold receive
  split
  · rename_i peer bytes rest hphase hinbox
    simp only [answers, pending, hphase, hinbox, take_fill, hs, List.filterMap_cons,
      Delivery.reply?, List.nil_append, List.singleton_append]
  · rename_i rest hphase hinbox
    simp only [answers, pending, hphase, hinbox, List.filterMap_cons, Delivery.reply?]
  · rfl

theorem answers_reply (sent : Bool) : (s.reply sent).answers = s.answers := by
  unfold reply
  split
  · rename_i peer count hphase
    simp only [answers, pending, hphase, List.map_append, List.map_cons, List.map_nil,
      Reply.message, List.nil_append, List.append_assoc]
  · rfl

/-- One step owes what it brings to the socket, and nothing else. -/
theorem answers_step (hs : s.buffer.length = packetSize) (e : DatagramEvent) :
    (s.step e).answers = s.answers ++ (s.reaches e).filterMap Delivery.reply? := by
  cases e with
  | arrives d =>
    rw [step, reaches]
    split
    · exact (List.append_nil _).symm
    · simp only [answers, pending, List.filterMap_append, List.append_assoc]
  | receives => exact (answers_receive hs).trans (List.append_nil _).symm
  | sends sent => exact (answers_reply sent).trans (List.append_nil _).symm
  | signal x => exact (List.append_nil _).symm
  | ends =>
    rw [step]
    split
    · rename_i hphase
      simp only [answers, pending, hphase.1, reaches, List.filterMap_nil, List.append_nil]
    · exact (List.append_nil _).symm

/-- A whole run owes what reaches the socket. -/
theorem answers_run (hs : s.buffer.length = packetSize) (events : List DatagramEvent) :
    (s.run events).answers = s.answers ++ (s.reached events).filterMap Delivery.reply? := by
  induction events generalizing s with
  | nil => exact (List.append_nil _).symm
  | cons e events ih =>
    rw [run, List.foldl_cons, ← run, ih (length_buffer_step hs e), answers_step hs, reached,
      List.filterMap_append, List.append_assoc]

theorem shutdown_step (s : DatagramServer) (e : DatagramEvent) :
    (s.step e).shutdown = e.signal?.elim s.shutdown s.shutdown.after := by
  cases e with
  | arrives d =>
    rw [step]
    split <;> rfl
  | receives =>
    rw [step, receive]
    split <;> rfl
  | sends sent =>
    rw [step, reply]
    split <;> rfl
  | signal x => rfl
  | ends =>
    rw [step]
    split <;> rfl

/-- Only its look at a flag that stops it ends a server, and only between two datagrams. -/
theorem ended_step {e : DatagramEvent} (hs : s.phase ≠ .ended) (h : (s.step e).phase = .ended) :
    e = .ends ∧ s.phase = .receiving ∧ s.shutdown.stops = true := by
  cases e with
  | arrives d =>
    rw [step, if_neg hs] at h
    exact absurd h hs
  | receives =>
    rw [step, receive] at h
    split at h
    · cases h
    · exact absurd h hs
    · exact absurd h hs
  | sends sent =>
    rw [step, reply] at h
    split at h
    · cases h
    · exact absurd h hs
  | signal x => exact absurd h hs
  | ends =>
    rw [step] at h
    split at h
    · rename_i hstops
      exact ⟨rfl, hstops⟩
    · exact absurd h hs

/-- A server that has ended does nothing. -/
theorem silent_step (hs : s.phase = .ended) (e : DatagramEvent) :
    (s.step e).phase = .ended ∧ (s.step e).replies = s.replies := by
  cases e with
  | arrives d =>
    rw [step, if_pos hs]
    exact ⟨hs, rfl⟩
  | receives =>
    rw [step, receive, hs]
    exact ⟨hs, rfl⟩
  | sends sent =>
    rw [step, reply, hs]
    exact ⟨hs, rfl⟩
  | signal x => exact ⟨hs, rfl⟩
  | ends =>
    rw [step, hs]
    exact ⟨hs, rfl⟩

theorem silent_run (hs : s.phase = .ended) (events : List DatagramEvent) :
    (s.run events).phase = .ended ∧ (s.run events).replies = s.replies := by
  induction events generalizing s with
  | nil => exact ⟨hs, rfl⟩
  | cons e events ih =>
    obtain ⟨hphase, hreplies⟩ := silent_step hs e
    obtain ⟨hended, hrest⟩ := ih hphase
    exact ⟨hended, hrest.trans hreplies⟩

/-- What a server does by itself: it receives, and the network takes its answers. -/
def Working (events : List DatagramEvent) : Prop := ∀ e ∈ events, e = .receives ∨ e = .sends true

theorem Working.cons {e : DatagramEvent} {events : List DatagramEvent}
    (he : e = .receives ∨ e = .sends true) (h : Working events) : Working (e :: events) :=
  List.forall_mem_cons.mpr ⟨he, h⟩

/-- Nothing comes to the socket meanwhile. -/
theorem Working.reached {events : List DatagramEvent} (h : Working events) :
    s.reached events = [] := by
  induction events generalizing s with
  | nil => rfl
  | cons e events ih =>
    obtain ⟨he, h⟩ := List.forall_mem_cons.mp h
    rw [DatagramServer.reached, ih h]
    rcases he with rfl | rfl <;> rfl

/-- A server that receives can work off all that waits, one delivery after the other. -/
theorem exists_working {inbox : List Delivery} (hphase : s.phase = .receiving)
    (hinbox : s.inbox = inbox) :
    ∃ events, Working events ∧ (s.run events).phase = .receiving ∧ (s.run events).inbox = [] := by
  induction inbox generalizing s with
  | nil => exact ⟨[], by simp [Working], hphase, hinbox⟩
  | cons d inbox ih =>
    cases d with
    | datagram peer bytes =>
      have hnext : ((s.step .receives).step (.sends true)).phase = .receiving ∧
          ((s.step .receives).step (.sends true)).inbox = inbox := by
        simp [step, receive, reply, hphase, hinbox]
      obtain ⟨events, hworking, hend⟩ := ih hnext.1 hnext.2
      exact ⟨.receives :: .sends true :: events, (hworking.cons (.inr rfl)).cons (.inl rfl), hend⟩
    | failure =>
      have hnext : (s.step .receives).phase = .receiving ∧ (s.step .receives).inbox = inbox := by
        simp [step, receive, hphase, hinbox]
      obtain ⟨events, hworking, hend⟩ := ih hnext.1 hnext.2
      exact ⟨.receives :: events, hworking.cons (.inl rfl), hend⟩

/-- A server that has not ended can give all answers that it owes. -/
theorem exists_answered (hs : s.phase ≠ .ended) (hbuffer : s.buffer.length = packetSize) :
    ∃ events, Working events ∧ (s.run events).replies.map Reply.message = s.answers := by
  have hdone : ∀ {t : DatagramServer}, t.phase = .receiving → t.inbox = [] →
      t.answers = t.replies.map Reply.message := by
    intro t hphase hinbox
    simp [answers, pending, hphase, hinbox]
  have hworks : ∃ events, Working events ∧ (s.run events).phase = .receiving ∧
      (s.run events).inbox = [] := by
    cases hphase : s.phase with
    | receiving => exact exists_working hphase rfl
    | sending peer count =>
      have hnext : (s.step (.sends true)).phase = .receiving := by simp [step, reply, hphase]
      obtain ⟨events, hworking, hend⟩ := exists_working hnext rfl
      exact ⟨.sends true :: events, hworking.cons (.inr rfl), hend⟩
    | ended => exact absurd hphase hs
  obtain ⟨events, hworking, hphase, hinbox⟩ := hworks
  refine ⟨events, hworking, ?_⟩
  rw [← hdone hphase hinbox, answers_run hbuffer, hworking.reached, List.filterMap_nil,
    List.append_nil]

/-- What a datagram server does in a run. -/
structure Serves (events : List DatagramEvent) : Prop where
  /-- The answers, and those still owed, are the fronts of what reached the socket, in order. -/
  answered : (fresh.run events).answers = (fresh.reached events).filterMap Delivery.reply?
  /-- As long as the server has not ended, it can give all of them. -/
  answerable : (fresh.run events).phase ≠ .ended → ∃ more, Working more ∧
    ((fresh.run events).run more).replies.map Reply.message =
      (fresh.reached events).filterMap Delivery.reply?
  /-- The server ends only when it looks at its flag, after that was set or let go. -/
  told : (fresh.run events).phase = .ended → ∃ before after, events = before ++ .ends :: after ∧
    (fresh.run before).shutdown.stops = true ∧
      (.signal (.set true) ∈ before ∨ .signal .dropped ∈ before)
  /-- Its flag is what the signals make of it. -/
  flag : (fresh.run events).shutdown =
    (events.filterMap DatagramEvent.signal?).foldl Shutdown.after .fresh
  /-- A look at a flag that stops it ends a server that has nothing to send. -/
  stopped : ∀ before after, events = before ++ .ends :: after →
    (fresh.run before).phase = .receiving → (fresh.run before).shutdown.stops = true →
      (fresh.run events).phase = .ended
  /-- Once it has ended, it answers nothing more. -/
  silent : (fresh.run events).phase = .ended →
    ∀ more, ((fresh.run events).run more).replies = (fresh.run events).replies

theorem length_buffer_run (hs : s.buffer.length = packetSize) (events : List DatagramEvent) :
    (s.run events).buffer.length = packetSize := by
  induction events generalizing s with
  | nil => exact hs
  | cons e events ih => exact ih (length_buffer_step hs e)

theorem serves (events : List DatagramEvent) : Serves events where
  answered := answers_run List.length_replicate events
  answerable hphase := by
    have hbuffer := length_buffer_run (s := fresh) List.length_replicate events
    obtain ⟨more, hworking, hmore⟩ := exists_answered hphase hbuffer
    exact ⟨more, hworking, hmore.trans (answers_run List.length_replicate events)⟩
  told hphase := by
    obtain ⟨before, e, after, rfl, hbefore, hstep⟩ :=
      exists_step_of_foldl (P := fun s : DatagramServer => s.phase = .ended) (s := fresh)
        (by decide) hphase
    obtain ⟨rfl, -, hstops⟩ := ended_step hbefore hstep
    refine ⟨before, after, rfl, hstops, ?_⟩
    obtain ⟨e, he, hset | hdropped⟩ := Shutdown.exists_cause shutdown_step rfl hstops
    · exact .inl (DatagramEvent.eq_of_signal? hset ▸ he)
    · exact .inr (DatagramEvent.eq_of_signal? hdropped ▸ he)
  flag := Shutdown.foldl_signals shutdown_step fresh events
  stopped before after hevents hphase hstops := by
    have hended : ((fresh.run before).step .ends).phase = .ended := by
      rw [step, if_pos ⟨hphase, hstops⟩]
    have hrun : fresh.run events = ((fresh.run before).step .ends).run after := by
      rw [hevents]
      exact List.foldl_append
    rw [hrun]
    exact (silent_run hended after).1
  silent hphase more := (silent_run hphase more).2

end DatagramServer

/-! ## Connections -/

/-- What the peer sends in an event. -/
def ConnectionEvent.bytes : ConnectionEvent → List UInt8
  | .arrives bytes => bytes
  | _ => []

namespace Connection

variable {c : Connection}

/-- What holds of every connection: what the read took is the front of what the peer sent, and what
has been written is what the read took, up to what is left or to a failure. -/
structure Sound (c : Connection) : Prop where
  taken : ∀ t, c.taken = some t → t <+: c.sent ∧ t.length ≤ packetSize
  waiting : c.phase = .waiting → c.taken = none ∧ c.written = []
  echoing : ∀ rest, c.phase = .echoing rest → rest ≠ [] ∧ c.taken = some (c.written ++ rest)
  closed : c.phase = .closed → c.written <+: c.taken.getD [] ∧
    (c.broken = false → c.written = c.taken.getD [])

theorem sound_fresh : fresh.Sound where
  taken t h := by cases h
  waiting _ := ⟨rfl, rfl⟩
  echoing rest h := by cases h
  closed h := by cases h

/-- Going on with the rest of what the read took. -/
theorem sound_echo {rest : List UInt8} (htaken : c.taken = some (c.written ++ rest))
    (hsent : c.written ++ rest <+: c.sent ∧ (c.written ++ rest).length ≤ packetSize) :
    (c.echo rest).Sound where
  taken t h := by
    rw [← Option.some.inj (htaken.symm.trans h)]
    exact hsent
  waiting h := by
    rw [echo] at h
    dsimp only at h
    split at h <;> cases h
  echoing rest' h := by
    rw [echo] at h
    dsimp only at h
    split at h
    · cases h
    · rename_i hrest
      obtain rfl := ConnectionPhase.echoing.inj h
      exact ⟨fun hnil => hrest (List.isEmpty_iff.mpr hnil), htaken⟩
  closed h := by
    rw [echo] at h ⊢
    dsimp only at h ⊢
    split at h
    · rename_i hrest
      rw [List.isEmpty_iff.mp hrest, List.append_nil] at htaken
      rw [htaken]
      exact ⟨List.prefix_rfl, fun _ => rfl⟩
    · cases h

theorem Sound.read (hc : c.Sound) (count : Nat) : (c.read count).Sound := by
  rw [Connection.read]
  split
  · rename_i hread
    obtain ⟨-, hwritten⟩ := hc.waiting hread.1
    have hcount : count ≤ packetSize := by
      have hmay := hread.2
      simp only [mayRead, Bool.and_eq_true, decide_eq_true_eq] at hmay
      exact hmay.1.1
    have hlength : (c.sent.take count).length ≤ packetSize := by
      rw [List.length_take]
      omega
    refine sound_echo ?_ ?_
    · rw [hwritten, List.nil_append]
    · rw [hwritten, List.nil_append]
      exact ⟨List.take_prefix _ _, hlength⟩
  · exact hc

theorem Sound.drop (hc : c.Sound) : c.drop.Sound := by
  rw [Connection.drop]
  split
  · rename_i hwaiting
    obtain ⟨htaken, hwritten⟩ := hc.waiting hwaiting
    refine ⟨hc.taken, fun h => (by cases h), fun _ h => (by cases h), fun _ => ?_⟩
    rw [htaken, hwritten]
    exact ⟨List.prefix_rfl, fun _ => rfl⟩
  · exact hc

theorem Sound.write (hc : c.Sound) (count : Nat) : (c.write count).Sound := by
  rw [Connection.write]
  split
  · rename_i rest hphase
    split
    · obtain ⟨-, htaken⟩ := hc.echoing rest hphase
      have hall : (c.written ++ rest.take count) ++ rest.drop count = c.written ++ rest := by
        rw [List.append_assoc, List.take_append_drop]
      refine sound_echo (htaken.trans (congrArg some hall.symm)) ?_
      rw [hall]
      exact hc.taken _ htaken
    · exact hc
  · exact hc

theorem Sound.fail (hc : c.Sound) : c.fail.Sound := by
  rw [Connection.fail]
  split
  · rename_i rest hphase
    obtain ⟨-, htaken⟩ := hc.echoing rest hphase
    have hfront : c.written <+: c.taken.getD [] := by
      rw [htaken]
      exact List.prefix_append _ _
    exact ⟨hc.taken, fun h => (by cases h), fun _ h => (by cases h),
      fun _ => ⟨hfront, fun h => (by cases h)⟩⟩
  · exact hc

/-- One step keeps what holds of every connection. -/
theorem Sound.step (hc : c.Sound) (e : ConnectionEvent) : (c.step e).Sound := by
  cases e with
  | arrives bytes =>
    rw [Connection.step]
    split
    · exact hc
    · refine ⟨fun t ht => ?_, hc.waiting, hc.echoing, hc.closed⟩
      obtain ⟨hfront, hlength⟩ := hc.taken t ht
      exact ⟨hfront.trans (List.prefix_append _ _), hlength⟩
  | finishes => exact ⟨hc.taken, hc.waiting, hc.echoing, hc.closed⟩
  | reads count => exact hc.read count
  | readFails => exact hc.drop
  | expires => exact hc.drop
  | writes count => exact hc.write count
  | writeFails => exact hc.fail

theorem Sound.run (hc : c.Sound) (events : List ConnectionEvent) : (c.run events).Sound := by
  induction events generalizing c with
  | nil => exact hc
  | cons e events ih => exact ih (hc.step e)

/-- What one connection has read and written stays: there is no second read, and nothing is written
after the end. -/
structure Extends (c c' : Connection) : Prop where
  taken : ∀ t, c.taken = some t → c'.taken = some t
  closed : c.phase = .closed → c'.phase = .closed ∧ c'.taken = c.taken ∧ c'.written = c.written

theorem Sound.extends_step (hc : c.Sound) (e : ConnectionEvent) : c.Extends (c.step e) := by
  cases e with
  | arrives bytes =>
    rw [Connection.step]
    split <;> exact ⟨fun _ h => h, fun h => ⟨h, rfl, rfl⟩⟩
  | finishes => exact ⟨fun _ h => h, fun h => ⟨h, rfl, rfl⟩⟩
  | reads count =>
    rw [Connection.step, Connection.read]
    split
    · rename_i hread
      obtain ⟨htaken, -⟩ := hc.waiting hread.1
      refine ⟨fun t h => ?_, fun h => ?_⟩
      · rw [htaken] at h
        cases h
      · rw [hread.1] at h
        cases h
    · exact ⟨fun _ h => h, fun h => ⟨h, rfl, rfl⟩⟩
  | readFails | expires =>
    rw [Connection.step, Connection.drop]
    split
    · exact ⟨fun _ h => h, fun _ => ⟨rfl, rfl, rfl⟩⟩
    · exact ⟨fun _ h => h, fun h => ⟨h, rfl, rfl⟩⟩
  | writes count =>
    rw [Connection.step, Connection.write]
    split
    · rename_i rest hphase
      split
      · refine ⟨fun _ h => h, fun h => ?_⟩
        rw [hphase] at h
        cases h
      · exact ⟨fun _ h => h, fun h => ⟨h, rfl, rfl⟩⟩
    · exact ⟨fun _ h => h, fun h => ⟨h, rfl, rfl⟩⟩
  | writeFails =>
    rw [Connection.step, Connection.fail]
    split
    · rename_i rest hphase
      refine ⟨fun _ h => h, fun h => ?_⟩
      rw [hphase] at h
      cases h
    · exact ⟨fun _ h => h, fun h => ⟨h, rfl, rfl⟩⟩

theorem Sound.extends_run (hc : c.Sound) (events : List ConnectionEvent) :
    c.Extends (c.run events) := by
  induction events generalizing c with
  | nil => exact ⟨fun _ h => h, fun h => ⟨h, rfl, rfl⟩⟩
  | cons e events ih =>
    have hstep := hc.extends_step e
    have hrest := ih (hc.step e)
    refine ⟨fun t ht => hrest.taken t (hstep.taken t ht), fun hclosed => ?_⟩
    obtain ⟨hphase, htaken, hwritten⟩ := hstep.closed hclosed
    obtain ⟨hphase', htaken', hwritten'⟩ := hrest.closed hphase
    exact ⟨hphase', htaken'.trans htaken, hwritten'.trans hwritten⟩

/-- What the peer of a connection sends before it closes its side. -/
def arrivals : List ConnectionEvent → List UInt8
  | [] => []
  | e :: events => if e = .finishes then [] else e.bytes ++ arrivals events

/-- Only its peer changes what a connection has to read. -/
theorem sent_step (c : Connection) (e : ConnectionEvent) :
    (c.step e).sent = c.sent ++ (if c.finished then [] else e.bytes) ∧
      (c.step e).finished = (c.finished || decide (e = .finishes)) := by
  cases e with
  | arrives bytes =>
    rw [Connection.step]
    split <;> simp [*, ConnectionEvent.bytes]
  | finishes => simp [Connection.step, ConnectionEvent.bytes]
  | reads count =>
    rw [Connection.step, Connection.read]
    split <;> simp [Connection.echo, ConnectionEvent.bytes]
  | readFails | expires =>
    rw [Connection.step, Connection.drop]
    split <;> simp [ConnectionEvent.bytes]
  | writes count =>
    rw [Connection.step, Connection.write]
    split
    · split <;> simp [Connection.echo, ConnectionEvent.bytes]
    · simp [ConnectionEvent.bytes]
  | writeFails =>
    rw [Connection.step, Connection.fail]
    split <;> simp [ConnectionEvent.bytes]

/-- A connection has to read what its peer sent. -/
theorem sent_run (c : Connection) (events : List ConnectionEvent) :
    (c.run events).sent = c.sent ++ if c.finished then [] else arrivals events := by
  induction events generalizing c with
  | nil => simp [Connection.run, arrivals]
  | cons e events ih =>
    obtain ⟨hsent, hfinished⟩ := c.sent_step e
    refine (ih (c.step e)).trans ?_
    rw [hsent, hfinished, arrivals]
    by_cases he : e = .finishes <;> cases c.finished <;> simp [he, ConnectionEvent.bytes]

/-- An echo is written in as many pieces as it takes, and then the connection is closed. -/
theorem run_echo (c : Connection) (rest : List UInt8) {pieces : List Nat}
    (hpieces : ∀ n ∈ pieces, 0 < n) (htotal : pieces.foldr (· + ·) 0 = rest.length) :
    ((c.echo rest).run (pieces.map .writes)).phase = .closed ∧
      ((c.echo rest).run (pieces.map .writes)).written = c.written ++ rest ∧
      ((c.echo rest).run (pieces.map .writes)).taken = c.taken := by
  induction pieces generalizing c rest with
  | nil =>
    obtain rfl : rest = [] := List.length_eq_zero_iff.mp htotal.symm
    exact ⟨rfl, (List.append_nil _).symm, rfl⟩
  | cons n pieces ih =>
    obtain ⟨hn, hlater⟩ := List.forall_mem_cons.mp hpieces
    rw [List.foldr_cons] at htotal
    have hsome : rest.isEmpty = false := by
      rw [List.isEmpty_eq_false_iff, ← List.length_pos_iff]
      omega
    have hstep : (c.echo rest).step (.writes n) =
        { c.echo rest with written := c.written ++ rest.take n }.echo (rest.drop n) := by
      have hphase : (c.echo rest).phase = .echoing rest := by
        rw [Connection.echo, hsome]
        rfl
      rw [Connection.step, Connection.write, hphase]
      exact if_pos ⟨hn, by omega⟩
    have hleft : pieces.foldr (· + ·) 0 = (rest.drop n).length := by
      rw [List.length_drop]
      omega
    rw [List.map_cons, Connection.run, List.foldl_cons, hstep, ← Connection.run]
    obtain ⟨hclosed, hwritten, htaken⟩ := ih _ (rest.drop n) hlater hleft
    refine ⟨hclosed, hwritten.trans ?_, htaken⟩
    rw [List.append_assoc, List.take_append_drop]

/-- A connection that echoes writes what is left of what it took. -/
theorem Sound.written (hc : c.Sound) {rest : List UInt8} (hphase : c.phase = .echoing rest)
    {pieces : List Nat} (hpieces : ∀ n ∈ pieces, 0 < n)
    (htotal : pieces.foldr (· + ·) 0 = rest.length) :
    (c.run (pieces.map .writes)).phase = .closed ∧
      c.taken = some (c.run (pieces.map .writes)).written := by
  obtain ⟨hsome, htaken⟩ := hc.echoing rest hphase
  have hsame : c.echo rest = c := by
    rw [Connection.echo, List.isEmpty_eq_false_iff.mpr hsome, ← hphase]
    rfl
  obtain ⟨hclosed, hwritten, -⟩ := run_echo c rest hpieces htotal
  rw [hsame] at hclosed hwritten
  exact ⟨hclosed, by rw [hwritten, htaken]⟩

/-- A connection that waits takes what is there by one read, and writes all of it. -/
theorem Sound.echoed (hc : c.Sound) (hphase : c.phase = .waiting) {count : Nat}
    (hpacket : count ≤ packetSize) (hcount : count ≤ c.sent.length)
    (hsome : 0 < count ∨ c.finished = true ∧ c.sent = []) {pieces : List Nat}
    (hpieces : ∀ n ∈ pieces, 0 < n) (htotal : pieces.foldr (· + ·) 0 = count) :
    (c.run (.reads count :: pieces.map .writes)).phase = .closed ∧
      (c.run (.reads count :: pieces.map .writes)).written = c.sent.take count ∧
      (c.run (.reads count :: pieces.map .writes)).taken = some (c.sent.take count) := by
  obtain ⟨-, hwritten⟩ := hc.waiting hphase
  have hread : c.mayRead count = true := by
    rcases hsome with hpos | ⟨hfinished, hnone⟩
    · simp [mayRead, hpacket, hcount, hpos]
    · obtain rfl : count = 0 := by
        rw [hnone] at hcount
        exact Nat.le_zero.mp hcount
      simp [mayRead, hfinished, hnone]
  have hfirst : c.step (.reads count) =
      { c with taken := some (c.sent.take count) }.echo (c.sent.take count) := by
    rw [Connection.step, Connection.read, if_pos ⟨hphase, hread⟩]
  rw [← List.length_take_of_le hcount] at htotal
  rw [Connection.run, List.foldl_cons, hfirst, ← Connection.run]
  obtain ⟨hclosed, hechoed, htaken⟩ :=
    run_echo { c with taken := some (c.sent.take count) } (c.sent.take count) hpieces htotal
  refine ⟨hclosed, hechoed.trans ?_, htaken⟩
  show c.written ++ c.sent.take count = c.sent.take count
  rw [hwritten, List.nil_append]

end Connection

namespace StreamServer

variable {s : StreamServer}

/-- The change of the flag, if an event is one. -/
def signal? : StreamEvent → Option Signal
  | .signal x => some x
  | _ => none

theorem eq_of_signal? {e : StreamEvent} {x : Signal} (h : signal? e = some x) : e = .signal x := by
  cases e with
  | signal y => rw [Option.some.inj h]
  | accepted | acceptFailed | connection | ends => cases h

/-- What happens to one connection. -/
def own? (i : Nat) : StreamEvent → Option ConnectionEvent
  | .connection j e => if j = i then some e else none
  | _ => none

theorem connection_step {i : Nat} {c : Connection} (hi : s.connections[i]? = some c)
    (e : StreamEvent) : (s.step e).connections[i]? = some (c.run ([e].filterMap (own? i))) := by
  cases e with
  | accepted =>
    rw [step]
    split
    · obtain ⟨hlt, -⟩ := List.getElem?_eq_some_iff.mp hi
      exact (List.getElem?_append_left hlt).trans hi
    · exact hi
  | acceptFailed | signal x => exact hi
  | connection j e =>
    by_cases hj : j = i
    · subst hj
      simp [step, own?, hi, Connection.run]
    · simp [step, own?, hi, hj, Connection.run]
  | ends =>
    rw [step]
    split <;> exact hi

/-- A connection goes its own way, whatever happens to the server and to the others. -/
theorem connection_run {i : Nat} {c : Connection} (hi : s.connections[i]? = some c)
    (events : List StreamEvent) :
    (s.run events).connections[i]? = some (c.run (events.filterMap (own? i))) := by
  induction events generalizing s c with
  | nil => exact hi
  | cons e events ih =>
    have hsplit : (e :: events).filterMap (own? i) =
        [e].filterMap (own? i) ++ events.filterMap (own? i) :=
      List.filterMap_append (l := [e])
    rw [run, List.foldl_cons, ← run, ih (connection_step hi e), hsplit, Connection.run,
      Connection.run, Connection.run, List.foldl_append]

/-- Connections come by being accepted, with the next number, by a server that serves. -/
theorem accepted_of_step {i : Nat} {e : StreamEvent} (hi : ¬i < s.connections.length)
    (h : i < (s.step e).connections.length) :
    e = .accepted ∧ s.serving = true ∧ s.connections.length = i ∧
      (s.step e).connections[i]? = some .fresh := by
  cases e with
  | accepted =>
    rw [step] at h ⊢
    split at h
    · rename_i hserving
      rw [if_pos hserving]
      have hlast : i = s.connections.length := by
        rw [List.length_append, List.length_singleton] at h
        omega
      subst hlast
      exact ⟨rfl, hserving, rfl, by simp⟩
    · exact absurd h hi
  | acceptFailed | signal x => exact absurd h hi
  | connection j e =>
    rw [step, List.length_modify] at h
    exact absurd h hi
  | ends =>
    rw [step] at h
    split at h <;> exact absurd h hi

/-- Only its look at a flag that stops it ends a server. -/
theorem ended_step {e : StreamEvent} (hs : s.serving = true) (h : (s.step e).serving = false) :
    e = .ends ∧ s.shutdown.stops = true := by
  cases e with
  | accepted =>
    rw [step, if_pos hs] at h
    rw [hs] at h
    cases h
  | acceptFailed | signal x | connection i e =>
    have hserving : s.serving = false := h
    rw [hs] at hserving
    cases hserving
  | ends =>
    rw [step] at h
    split at h
    · rename_i hstops
      exact ⟨rfl, hstops⟩
    · rw [hs] at h
      cases h

/-- A server that has ended accepts nothing. -/
theorem closed_step (hs : s.serving = false) (e : StreamEvent) :
    (s.step e).serving = false ∧ (s.step e).connections.length = s.connections.length := by
  cases e with
  | accepted =>
    rw [step, hs]
    exact ⟨hs, rfl⟩
  | acceptFailed | signal x => exact ⟨hs, rfl⟩
  | connection i e => exact ⟨hs, List.length_modify _ _ _⟩
  | ends =>
    rw [step]
    split
    · exact ⟨rfl, rfl⟩
    · exact ⟨hs, rfl⟩

theorem closed_run (hs : s.serving = false) (events : List StreamEvent) :
    (s.run events).serving = false ∧
      (s.run events).connections.length = s.connections.length := by
  induction events generalizing s with
  | nil => exact ⟨hs, rfl⟩
  | cons e events ih =>
    obtain ⟨hserving, hlength⟩ := closed_step hs e
    obtain ⟨hend, hrest⟩ := ih hserving
    exact ⟨hend, hrest.trans hlength⟩

theorem shutdown_step (s : StreamServer) (e : StreamEvent) :
    (s.step e).shutdown = (signal? e).elim s.shutdown s.shutdown.after := by
  cases e with
  | accepted | ends =>
    rw [step]
    split <;> rfl
  | acceptFailed | connection | signal => rfl

/-- A server that serves accepts, and the connection goes its own way from there. -/
theorem connection_accepted {before after : List StreamEvent}
    (hserving : (fresh.run before).serving = true) :
    (fresh.run (before ++ .accepted :: after)).connections[(fresh.run before).connections.length]? =
      some (Connection.fresh.run
        (after.filterMap (own? (fresh.run before).connections.length))) := by
  have hnew : ((fresh.run before).step .accepted).connections[
      (fresh.run before).connections.length]? = some .fresh := by
    rw [step, if_pos hserving]
    exact List.getElem?_concat_length
  have hrun : fresh.run (before ++ .accepted :: after) =
      ((fresh.run before).step .accepted).run after := List.foldl_append
  rw [hrun]
  exact connection_run hnew after

theorem own?_self (i : Nat) (e : ConnectionEvent) : own? i (.connection i e) = some e := if_pos rfl

theorem own?_map {β : Type} (i : Nat) (f : β → ConnectionEvent) (xs : List β) :
    (xs.map fun x => StreamEvent.connection i (f x)).filterMap (own? i) = xs.map f := by
  induction xs with
  | nil => rfl
  | cons x xs ih =>
    rw [List.map_cons, List.filterMap_cons_some (own?_self i (f x)), ih, List.map_cons]

/-- Every connection was accepted at some time, and has gone its own way since. -/
theorem exists_accepted {i : Nat} {c : Connection} {events : List StreamEvent}
    (hi : (fresh.run events).connections[i]? = some c) :
    ∃ before after, events = before ++ .accepted :: after ∧ (fresh.run before).serving = true ∧
      (fresh.run before).connections.length = i ∧
      c = Connection.fresh.run (after.filterMap (own? i)) := by
  obtain ⟨hlt, -⟩ := List.getElem?_eq_some_iff.mp hi
  obtain ⟨before, e, after, rfl, hbefore, hstep⟩ :=
    exists_step_of_foldl (P := fun s : StreamServer => i < s.connections.length) (s := fresh)
      (Nat.not_lt_zero i) hlt
  obtain ⟨rfl, hserving, hlast, hfresh⟩ := accepted_of_step hbefore hstep
  refine ⟨before, after, rfl, hserving, hlast, ?_⟩
  have hrun := connection_run hfresh after
  rw [run, List.foldl_append, List.foldl_cons] at hi
  exact Option.some.inj (hi.symm.trans hrun)

/-- What a stream server and its connections do in a run. -/
structure Serves (events : List StreamEvent) : Prop where
  /-- As long as the server serves, it accepts every connection, which then depends on nothing but
  what happens to it. -/
  admitted : ∀ before after, events = before ++ .accepted :: after →
    (fresh.run before).serving = true →
      (fresh.run events).connections[(fresh.run before).connections.length]? =
        some (Connection.fresh.run
          (after.filterMap (own? (fresh.run before).connections.length)))
  /-- There are no other connections. -/
  accepted : ∀ i c, (fresh.run events).connections[i]? = some c →
    ∃ before after, events = before ++ .accepted :: after ∧ (fresh.run before).serving = true ∧
      (fresh.run before).connections.length = i ∧
      c = Connection.fresh.run (after.filterMap (own? i)) ∧
      c.sent = Connection.arrivals (after.filterMap (own? i))
  /-- A connection writes what its read took, if writing does not fail, and is closed. -/
  sound : ∀ c ∈ (fresh.run events).connections, c.Sound
  /-- It reads once, and does nothing after its end. -/
  final : ∀ c ∈ (fresh.run events).connections, ∀ more, c.Extends (c.run more)
  /-- If it still waits, it gets its echo, whether the server has ended or not: a read takes what
  is there, which is written in some pieces. -/
  echoed : ∀ i c, (fresh.run events).connections[i]? = some c → c.phase = .waiting →
    ∀ count, count ≤ packetSize → count ≤ c.sent.length →
      (0 < count ∨ c.finished = true ∧ c.sent = []) → ∀ pieces : List Nat, (∀ n ∈ pieces, 0 < n) →
        pieces.foldr (· + ·) 0 = count → ∃ c', ((fresh.run events).run (.connection i (.reads count)
          :: pieces.map fun n => .connection i (.writes n))).connections[i]? = some c' ∧
          c'.phase = .closed ∧ c'.written = c.sent.take count ∧
          c'.taken = some (c.sent.take count)
  /-- If it is at its echo, it writes the rest. -/
  written : ∀ i c rest, (fresh.run events).connections[i]? = some c → c.phase = .echoing rest →
    ∀ pieces : List Nat, (∀ n ∈ pieces, 0 < n) → pieces.foldr (· + ·) 0 = rest.length →
      ∃ c', ((fresh.run events).run
          (pieces.map fun n => .connection i (.writes n))).connections[i]? = some c' ∧
        c'.phase = .closed ∧ c.taken = some c'.written
  /-- The server ends only when it looks at its flag, after that was set or let go. -/
  told : (fresh.run events).serving = false → ∃ before after, events = before ++ .ends :: after ∧
    (fresh.run before).shutdown.stops = true ∧
      (.signal (.set true) ∈ before ∨ .signal .dropped ∈ before)
  /-- Its flag is what the signals make of it. -/
  flag : (fresh.run events).shutdown = (events.filterMap signal?).foldl Shutdown.after .fresh
  /-- A look at a flag that stops it ends the server. -/
  stopped : ∀ before after, events = before ++ .ends :: after →
    (fresh.run before).shutdown.stops = true → (fresh.run events).serving = false
  /-- Once it has ended, it accepts nothing more. -/
  closed : (fresh.run events).serving = false → ∀ more,
    ((fresh.run events).run more).connections.length = (fresh.run events).connections.length

theorem sound_of_mem {events : List StreamEvent} {c : Connection}
    (hc : c ∈ (fresh.run events).connections) : c.Sound := by
  obtain ⟨i, hi⟩ := List.getElem?_of_mem hc
  obtain ⟨before, after, -, -, -, rfl⟩ := exists_accepted hi
  exact Connection.sound_fresh.run _

theorem serves (events : List StreamEvent) : Serves events where
  admitted before after hevents hserving := by
    rw [hevents]
    exact connection_accepted hserving
  accepted i c hi := by
    obtain ⟨before, after, hevents, hserving, hlast, hc⟩ := exists_accepted hi
    refine ⟨before, after, hevents, hserving, hlast, hc, ?_⟩
    rw [hc, Connection.sent_run]
    rfl
  sound c hc := sound_of_mem hc
  final c hc more := (sound_of_mem hc).extends_run more
  echoed i c hi hphase count hpacket hcount hsome pieces hpieces htotal := by
    refine ⟨_, connection_run hi _, ?_⟩
    rw [List.filterMap_cons_some (own?_self i _), own?_map]
    exact (sound_of_mem (List.mem_of_getElem? hi)).echoed hphase hpacket hcount hsome hpieces htotal
  written i c rest hi hphase pieces hpieces htotal := by
    refine ⟨_, connection_run hi _, ?_⟩
    rw [own?_map]
    exact (sound_of_mem (List.mem_of_getElem? hi)).written hphase hpieces htotal
  told hserving := by
    obtain ⟨before, e, after, rfl, hbefore, hstep⟩ :=
      exists_step_of_foldl (P := fun s : StreamServer => s.serving = false) (s := fresh)
        (by decide) hserving
    obtain ⟨rfl, hstops⟩ := ended_step (by simpa using hbefore) hstep
    refine ⟨before, after, rfl, hstops, ?_⟩
    obtain ⟨e, he, hset | hdropped⟩ := Shutdown.exists_cause shutdown_step rfl hstops
    · exact .inl (eq_of_signal? hset ▸ he)
    · exact .inr (eq_of_signal? hdropped ▸ he)
  flag := Shutdown.foldl_signals shutdown_step fresh events
  stopped before after hevents hstops := by
    have hended : ((fresh.run before).step .ends).serving = false := by
      rw [step, if_pos hstops]
    have hrun : fresh.run events = ((fresh.run before).step .ends).run after := by
      rw [hevents]
      exact List.foldl_append
    rw [hrun]
    exact (closed_run hended after).1
  closed hserving more := (closed_run hserving more).2

end StreamServer

/-- Echo servers of both kinds serve through every run. -/
theorem servers_serve : (∀ events, DatagramServer.Serves events) ∧
    ∀ events, StreamServer.Serves events :=
  ⟨DatagramServer.serves, StreamServer.serves⟩

/-- A run in which a connection is accepted and read, the server ends at its flag and refuses
another connection, and the first one gets the rest of its echo. -/
def helloRun : List StreamEvent :=
  [.accepted, .connection 0 (.arrives [104, 105, 33]), .connection 0 (.reads 3),
    .connection 0 (.writes 2), .signal (.set true), .ends, .accepted, .connection 0 (.writes 1)]

theorem servers_serve_hello :
    StreamServer.fresh.run helloRun =
        ⟨[⟨[104, 105, 33], false, some [104, 105, 33], [104, 105, 33], false, .closed⟩], false,
          ⟨true, true⟩⟩ ∧
      (StreamServer.fresh.run helloRun).connections[0]? = some (Connection.fresh.run
        [.arrives [104, 105, 33], .reads 3, .writes 2, .writes 1]) ∧
      ∀ more, ((StreamServer.fresh.run helloRun).run more).connections.length = 1 := by
  obtain ⟨-, hserves⟩ := servers_serve
  refine ⟨by decide, (hserves helloRun).admitted [] _ rfl rfl, fun more => ?_⟩
  exact (hserves helloRun).closed (by decide) more

end Echo

end PolicyProbe
