import Mathlib.Data.List.Induction
import PolicyProbe.Proofs.Recorder.Conservation
import PolicyProbe.Recorder.Channel

/-!
The law of a shared queue, for every order in which pushes through its clones, takes at its
receiving end and the end of either take their turns. What was received is the beginning of what was
accepted, and as long as the receiving end is there the rest is queued, at most as much as fits
(`Ledger`). So a recorder with one worker hands items to its store in the order in which they were
accepted. An offer is answered by what is queued at that moment (`Offered`), and the number of drops
is the number of pushes that were told so, from wherever it is read. No push waits: after two turns
of its own it has the answer that its offer was decided to be, whatever happens in between
(`Ledger.settles`), and one that nobody interrupts is that of the queue by itself (`push_at_once`).
Nor does the receiving end wait in front of an item: who has its turn takes the oldest (`Served`).
-/
namespace PolicyProbe

variable {α σ : Type}

namespace Queue

/-- A push is an offer whose drop is counted at once. -/
theorem push_eq_send (a : α) (q : Queue α) :
    q.push a = match q.send a with
      | (.error .full, q) => (.error .full, q.countDrop)
      | answered => answered := by
  rw [push, send]
  split
  · rfl
  · split <;> rfl

/-- What an offer comes to. -/
theorem send_cases (a : α) (q : Queue α) :
    (q.consumer = false ∧ q.send a = (.error .closed, q)) ∨
    (q.consumer = true ∧ q.capacity ≤ q.items.length ∧ q.send a = (.error .full, q)) ∨
    (q.consumer = true ∧ q.items.length < q.capacity ∧
      q.send a = (.ok (), { q with items := q.items ++ [a] })) := by
  rw [send]
  cases hconsumer : q.consumer with
  | false => exact .inl ⟨rfl, rfl⟩
  | true =>
    by_cases hfull : q.capacity ≤ q.items.length
    · exact .inr (.inl ⟨rfl, hfull, if_pos hfull⟩)
    · exact .inr (.inr ⟨rfl, Nat.lt_of_not_le hfull, if_neg hfull⟩)

/-- What is taken was at the front. -/
theorem pop_split (q : Queue α) :
    q.items = q.pop.1.toList ++ q.pop.2.items ∧ q.pop.2 = { q with items := q.pop.2.items } := by
  obtain ⟨capacity, items, dropped, consumer, producers⟩ := q
  cases items <;> exact ⟨rfl, rfl⟩

end Queue

/-! ## What goes in and what comes out -/

/-- Where a push is right behind its offer: a full queue leaves it the drop to count. -/
def PushPhase.behind : Except QueueError Unit → PushPhase
  | .error .full => .counting
  | answer => .answered answer

namespace PushCall

/-- The item of a push that was answered with success. -/
def accepted (call : PushCall α) : List α :=
  match call.phase with
  | .answered (.ok _) => [call.item]
  | _ => []

/-- Whether a push was answered that the queue is full. -/
def isDropped (call : PushCall α) : Bool :=
  match call.phase with
  | .answered (.error .full) => true
  | _ => false

end PushCall

namespace Recorder

/-- The item that a worker takes on the way from one recorder to another. -/
def takenBetween (i : Nat) (r r' : Recorder α σ) : List α :=
  match r.workers[i]?, r'.workers[i]? with
  | some before, some after => if before.item.isEmpty then after.item else []
  | _, _ => []

theorem takenBetween_self (i : Nat) (r : Recorder α σ) : takenBetween i r r = [] := by
  rw [takenBetween]
  split
  · rename_i before after hbefore hafter
    obtain rfl := Option.some.inj (hbefore.symm.trans hafter)
    split
    · rename_i hempty
      exact List.isEmpty_iff.mp hempty
    · rfl
  · rfl

theorem takenBetween_set {i : Nat} {r r' : Recorder α σ} {w w' : RecorderWorker α}
    (hw : r.workers[i]? = some w) (hset : r'.workers = r.workers.set i w') :
    takenBetween i r r' = if w.item.isEmpty then w'.item else [] := by
  have hi : i < r.workers.length := (List.getElem?_eq_some_iff.mp hw).1
  rw [takenBetween, hw, hset, List.getElem?_set_self hi]

theorem workers_hand (persist : Persist α σ) (r : Recorder α σ) (i : Nat) (a : α) :
    (r.hand persist i a).workers = r.workers.set i .free := by
  rw [hand]
  dsimp only
  split <;> rfl

theorem queue_hand (persist : Persist α σ) (r : Recorder α σ) (i : Nat) (a : α) :
    (r.hand persist i a).queue = r.queue := by
  rw [hand]
  dsimp only
  split <;> rfl

/-- What a worker takes was at the front of the queue, and that is all that a step does to it. -/
theorem taken_of_stepped {persist : Persist α σ} {r r' : Recorder α σ} {i : Nat}
    (h : Stepped persist r i r') :
    r.queue.items = takenBetween i r r' ++ r'.queue.items ∧
      r'.queue = { r.queue with items := r'.queue.items } := by
  cases h with
  | rest => exact ⟨by rw [takenBetween_self]; rfl, rfl⟩
  | turn hw hne hitem hne' hitem' =>
    rw [takenBetween_set hw rfl, hitem, hitem']
    exact ⟨rfl, rfl⟩
  | take hw hne hitem hitems =>
    rw [takenBetween_set hw rfl, hitem, hitems]
    exact ⟨rfl, rfl⟩
  | finish hw hne hitem hitems hwhy =>
    rw [takenBetween_set hw rfl, hitem]
    exact ⟨rfl, rfl⟩
  | hand hw =>
    rw [takenBetween_set hw (workers_hand _ _ _ _), queue_hand]
    exact ⟨rfl, rfl⟩

/-- The items that a recorder has taken: those that it handed to its store, and those that its
workers hold. -/
def taken (r : Recorder α (σ × HandLog α)) : List α := r.store.2.map Prod.fst ++ r.held

theorem held_of_singleton {r : Recorder α σ} {w : RecorderWorker α} (h : r.workers = [w]) :
    r.held = w.item := by
  rw [held, h, List.flatMap_singleton]

/-- A worker of a recorder with one worker is that one. -/
theorem worker_of_alone {r : Recorder α σ} (halone : r.workers.length = 1) {i : Nat}
    {w : RecorderWorker α} (hw : r.workers[i]? = some w) :
    r.workers = [w] ∧ ∀ w', r.workers.set i w' = [w'] := by
  obtain ⟨w₀, hworkers⟩ := List.length_eq_one_iff.mp halone
  rw [hworkers] at hw ⊢
  obtain rfl : i = 0 := by
    have hi := (List.getElem?_eq_some_iff.mp hw).1
    simpa using hi
  obtain rfl : w₀ = w := by simpa using hw
  exact ⟨rfl, fun _ => rfl⟩

theorem store_hand (persist : Persist α σ) (r : Recorder α (σ × HandLog α)) (i : Nat) (a : α) :
    (r.hand persist.logged i a).store.2.map Prod.fst = r.store.2.map Prod.fst ++ [a] := by
  have hstore : (r.hand persist.logged i a).store = (persist.logged a r.store).2 := by
    rw [hand]
    dsimp only
    split <;> rfl
  rw [hstore, Persist.logged, List.map_append]
  rfl

/-- What a recorder with one worker has taken goes by what was handed over and that worker. -/
theorem taken_of_set {r r' : Recorder α (σ × HandLog α)} (halone : r.workers.length = 1) {i : Nat}
    {w w' : RecorderWorker α} (hw : r.workers[i]? = some w)
    (hset : r'.workers = r.workers.set i w')
    (h : r'.store.2.map Prod.fst ++ w'.item =
      r.store.2.map Prod.fst ++ (w.item ++ if w.item.isEmpty then w'.item else [])) :
    r'.taken = r.taken ++ takenBetween i r r' := by
  obtain ⟨hworkers, hafter⟩ := worker_of_alone halone hw
  have hworkers' : r'.workers = [w'] := hset.trans (hafter w')
  rw [taken, taken, held_of_singleton hworkers, held_of_singleton hworkers',
    takenBetween_set hw hset, List.append_assoc]
  exact h

/-- The only worker of a recorder hands over what it took before it takes the next item. -/
theorem taken_of_alone {persist : Persist α σ} {r r' : Recorder α (σ × HandLog α)} {i : Nat}
    (h : Stepped persist.logged r i r') (halone : r.workers.length = 1) :
    r'.taken = r.taken ++ takenBetween i r r' := by
  cases h with
  | rest => rw [takenBetween_self, List.append_nil]
  | turn hw hne hitem hne' hitem' =>
    refine taken_of_set halone hw rfl ?_
    rw [hitem, hitem']
    rfl
  | take hw hne hitem hitems =>
    refine taken_of_set halone hw rfl ?_
    rw [hitem]
    rfl
  | finish hw hne hitem hitems hwhy =>
    refine taken_of_set halone hw rfl ?_
    rw [hitem]
    rfl
  | hand hw =>
    refine taken_of_set halone hw (workers_hand _ _ _ _) ?_
    rw [store_hand, List.append_assoc]
    rfl

/-- Whether a worker looks for an item in its next step: it waits for one, or the recorder is being
stopped and the receiving end is free for it. -/
def Looks (r : Recorder α σ) (i : Nat) : Prop :=
  r.workers[i]? = some .waiting ∨
    r.workers[i]? = some .free ∧ r.occupied = false ∧ r.stopping = true

/-- A worker that looks for an item takes the oldest. -/
theorem step_of_looks (persist : Persist α σ) {r : Recorder α σ} {i : Nat} (h : r.Looks i) {a : α}
    {rest : List α} (hitems : r.queue.items = a :: rest) :
    r.step persist i = { r with
      queue := { r.queue with items := rest }, workers := r.workers.set i (.holding a) } := by
  have htake (w : RecorderWorker α) : r.take i w = { r with
      queue := { r.queue with items := rest }, workers := r.workers.set i (.holding a) } := by
    rw [take, Queue.pop, hitems]
  rcases h with hwaiting | ⟨hfree, halone, hstopping⟩
  · rw [step, hwaiting]
    exact htake _
  · rw [step, hfree]
    dsimp only
    rw [if_neg (Bool.eq_false_iff.mp halone), if_pos hstopping]
    exact htake _

theorem length_workers_of_stepped {persist : Persist α σ} {r r' : Recorder α σ} {i : Nat}
    (h : Stepped persist r i r') : r'.workers.length = r.workers.length := by
  cases h with
  | rest => rfl
  | hand hw => rw [workers_hand, List.length_set]
  | _ => exact List.length_set

end Recorder

namespace Channel

/-! ## What goes in and what comes out of a shared queue -/

/-- The item that is accepted in an event. -/
def acceptedBy (s : Channel α σ) : ChannelEvent α → List α
  | .advance k =>
    match s.calls[k]? with
    | some ⟨_, item, .offering⟩ =>
      match (s.queue.send item).1 with
      | .ok _ => [item]
      | .error _ => []
    | _ => []
  | _ => []

/-- The item that the receiver takes in an event. -/
def receivedBy (s : Channel α σ) : ChannelEvent α → List α
  | .receive =>
    match s.receiving with
    | .receiver q => q.pop.1.toList
    | .recorder _ => []
  | _ => []

/-- The item that a worker of the recorder takes in an event. -/
def workedBy (persist : Persist α σ) (s : Channel α σ) : ChannelEvent α → List α
  | .work i =>
    match s.receiving with
    | .receiver _ => []
    | .recorder r => Recorder.takenBetween i r (r.step persist i)
  | _ => []

/-- What goes over a queue in the course of some events: what is accepted, what the receiver and the
workers of the recorder take, and what the workers take. -/
structure Traffic (α : Type) where
  accepted : List α
  received : List α
  worked : List α

/-- The traffic behind an event. -/
def Traffic.after (persist : Persist α σ) (s : Channel α σ) (e : ChannelEvent α)
    (t : Traffic α) : Traffic α where
  accepted := t.accepted ++ s.acceptedBy e
  received := t.received ++ (s.receivedBy e ++ s.workedBy persist e)
  worked := t.worked ++ s.workedBy persist e

/-- The traffic of a queue in the course of some events. -/
def traffic (persist : Persist α σ) (store : σ) :
    Channel α σ → Traffic α → List (ChannelEvent α) → Traffic α
  | _, t, [] => t
  | s, t, e :: events => traffic persist store (s.step persist store e) (t.after persist s e) events

/-! ## The ledger -/

/-- What is known of a receiving end by what workers took: nothing as long as there is no recorder,
and all that its worker took if it has only one. -/
def Attended (worked : List α) : Receiving α (σ × HandLog α) → Prop
  | .receiver _ => worked = []
  | .recorder r => r.workers.length = 1 → r.taken = worked

/-- The ledger of a queue for some capacity, with its traffic so far. -/
structure Ledger (capacity : Nat) (t : Traffic α) (s : Channel α (σ × HandLog α)) : Prop where
  capacity_eq : s.queue.capacity = capacity
  bound : s.queue.items.length ≤ capacity
  inOrder : t.received <+: t.accepted
  whole : s.queue.consumer = true → t.accepted = t.received ++ s.queue.items
  gone : s.queue.consumer = false → s.queue.items = []
  answers : t.accepted.Perm (s.calls.flatMap PushCall.accepted)
  dropped : s.queue.dropped = s.calls.countP PushCall.isDropped
  behind : t.worked <:+ t.received
  attended : Attended t.worked s.receiving

theorem queue_onQueue (f : Queue α → Queue α) (s : Channel α σ) :
    (s.onQueue f).queue = f s.queue := by
  obtain ⟨receiving, clones, calls⟩ := s
  cases receiving <;> rfl

theorem attended_onQueue {worked : List α} {receiving : Receiving α (σ × HandLog α)}
    (h : Attended worked receiving) (f : Queue α → Queue α) :
    Attended worked (receiving.onQueue f) := by
  cases receiving with
  | receiver q => exact h
  | recorder r => exact h

variable {capacity : Nat} {t : Traffic α} {s s' : Channel α (σ × HandLog α)}

/-- The ledger goes by what is queued, how it was answered and what the workers took. -/
theorem Ledger.alike (h : Ledger capacity t s)
    (hqueue : s'.queue = { s.queue with producers := s'.queue.producers })
    (hcalls : s'.calls = s.calls) (hattended : Attended t.worked s'.receiving) :
    Ledger capacity t s' where
  capacity_eq := by
    rw [hqueue]
    exact h.capacity_eq
  bound := by
    rw [hqueue]
    exact h.bound
  inOrder := h.inOrder
  whole := by
    rw [hqueue]
    exact h.whole
  gone := by
    rw [hqueue]
    exact h.gone
  answers := hcalls ▸ h.answers
  dropped := by
    rw [hqueue, hcalls]
    exact h.dropped
  behind := h.behind
  attended := hattended

/-- The receiving end goes away with all that is queued. -/
theorem Ledger.close (h : Ledger capacity t s) (hqueue : s'.queue = s.queue.dropConsumer)
    (hcalls : s'.calls = s.calls) (hattended : Attended t.worked s'.receiving) :
    Ledger capacity t s' where
  capacity_eq := by
    rw [hqueue]
    exact h.capacity_eq
  bound := by
    rw [hqueue]
    exact Nat.zero_le _
  inOrder := h.inOrder
  whole := by
    rw [hqueue]
    exact fun hconsumer => nomatch hconsumer
  gone := by
    rw [hqueue]
    exact fun _ => rfl
  answers := hcalls ▸ h.answers
  dropped := by
    rw [hqueue, hcalls]
    exact h.dropped
  behind := h.behind
  attended := hattended

/-- Items are taken from the front. -/
theorem Ledger.take (h : Ledger capacity t s) {direct worked rest : List α}
    (hitems : s.queue.items = direct ++ worked ++ rest)
    (hqueue : s'.queue = { s.queue with items := rest }) (hcalls : s'.calls = s.calls)
    (hdirect : direct = [] ∨ t.worked = [] ∧ worked = [])
    (hattended : Attended (t.worked ++ worked) s'.receiving) :
    Ledger capacity ⟨t.accepted, t.received ++ (direct ++ worked), t.worked ++ worked⟩ s' where
  capacity_eq := by
    rw [hqueue]
    exact h.capacity_eq
  bound := by
    have hbound := h.bound
    rw [hitems, List.length_append] at hbound
    rw [hqueue]
    exact Nat.le_trans (Nat.le_add_left _ _) hbound
  inOrder := by
    cases hconsumer : s.queue.consumer with
    | true =>
      have hwhole := h.whole hconsumer
      rw [hitems, ← List.append_assoc] at hwhole
      exact ⟨rest, hwhole.symm⟩
    | false =>
      -- Behind its receiving end the queue is empty, so nothing can have been taken.
      have hnone := h.gone hconsumer
      rw [hitems] at hnone
      rw [(List.append_eq_nil_iff.mp hnone).1, List.append_nil]
      exact h.inOrder
  whole := by
    rw [hqueue]
    intro hconsumer
    show t.accepted = t.received ++ (direct ++ worked) ++ rest
    rw [h.whole hconsumer, hitems, List.append_assoc t.received]
  gone := by
    rw [hqueue]
    intro hconsumer
    have hnone := h.gone hconsumer
    rw [hitems] at hnone
    exact (List.append_eq_nil_iff.mp hnone).2
  answers := hcalls ▸ h.answers
  dropped := by
    rw [hqueue, hcalls]
    exact h.dropped
  behind := by
    rcases hdirect with rfl | ⟨hnone, rfl⟩
    · obtain ⟨before, hbefore⟩ := h.behind
      exact ⟨before, by rw [← hbefore, List.append_assoc, List.nil_append]⟩
    · rw [hnone]
      exact List.nil_suffix
  attended := hattended

/-! ## Every event -/

/-- A push that goes on from one place to another changes the answers by its own. -/
theorem answers_set {accepted : List α} {calls : List (PushCall α)}
    (h : accepted.Perm (calls.flatMap PushCall.accepted)) {k : Nat} {call : PushCall α}
    (hcall : calls[k]? = some call) (hbefore : call.accepted = []) (phase : PushPhase) :
    (accepted ++ (call.moved phase).accepted).Perm
      ((calls.set k (call.moved phase)).flatMap PushCall.accepted) := by
  have hset := flatMap_set hcall (call.moved phase) PushCall.accepted
  rw [hbefore, List.append_nil] at hset
  exact (h.append_right _).trans hset.symm

theorem dropped_set {n : Nat} {calls : List (PushCall α)} (h : n = calls.countP PushCall.isDropped)
    {k : Nat} {call : PushCall α} (hcall : calls[k]? = some call) (hbefore : call.isDropped = false)
    (phase : PushPhase) :
    n + (if (call.moved phase).isDropped then 1 else 0) =
      (calls.set k (call.moved phase)).countP PushCall.isDropped := by
  have hset := countP_set hcall (call.moved phase) PushCall.isDropped
  rw [hbefore] at hset
  rw [h, ← hset]
  rfl

theorem onQueue_id (s : Channel α σ) : s.onQueue (fun q => q) = s := by
  obtain ⟨receiving, clones, calls⟩ := s
  cases receiving <;> rfl

/-- A push that goes on may add its item behind the others or change the counter. -/
theorem Ledger.offered (h : Ledger capacity t s) {f : Queue α → Queue α} {added : List α} {n : Nat}
    {calls : List (PushCall α)}
    (hf : f s.queue = { s.queue with items := s.queue.items ++ added, dropped := n })
    (hadded : added = [] ∨
      s.queue.consumer = true ∧ s.queue.items.length + added.length ≤ capacity)
    (hanswers : (t.accepted ++ added).Perm (calls.flatMap PushCall.accepted))
    (hdropped : n = calls.countP PushCall.isDropped) :
    Ledger capacity { t with accepted := t.accepted ++ added }
      { s.onQueue f with calls := calls } := by
  have hqueue : ({ s.onQueue f with calls := calls } : Channel α (σ × HandLog α)).queue =
      { s.queue with items := s.queue.items ++ added, dropped := n } :=
    (queue_onQueue f s).trans hf
  refine ⟨?_, ?_, h.inOrder.trans (List.prefix_append _ _), ?_, ?_, hanswers, ?_, h.behind,
    attended_onQueue h.attended f⟩
  · rw [hqueue]
    exact h.capacity_eq
  · rw [hqueue, List.length_append]
    rcases hadded with rfl | ⟨-, hfits⟩
    · exact h.bound
    · exact hfits
  · rw [hqueue]
    intro hconsumer
    show t.accepted ++ added = t.received ++ (s.queue.items ++ added)
    rw [h.whole hconsumer, List.append_assoc]
  · rw [hqueue]
    intro hconsumer
    have hempty : s.queue.items = [] := h.gone hconsumer
    rcases hadded with rfl | ⟨hthere, -⟩
    · show s.queue.items ++ [] = []
      rw [hempty]
      rfl
    · exact absurd (hthere.symm.trans hconsumer) (by simp)
  · rw [hqueue]
    exact hdropped

theorem Ledger.advance (h : Ledger capacity t s) {k : Nat} {call : PushCall α}
    (hcall : s.calls[k]? = some call) :
    Ledger capacity { t with accepted := t.accepted ++ s.acceptedBy (.advance k) }
      (s.advance k call) := by
  obtain ⟨clone, item, phase⟩ := call
  rw [acceptedBy, hcall]
  cases phase with
  | answered answer =>
    dsimp only [Channel.advance]
    rw [List.append_nil]
    exact h
  | counting =>
    -- The push was refused at its offer: only the counter and the answer are missing.
    refine h.offered ?_ (.inl rfl) (answers_set h.answers hcall rfl (.answered (.error .full)))
      (dropped_set h.dropped hcall rfl (.answered (.error .full)))
    rw [Queue.countDrop, List.append_nil]
    rfl
  | offering =>
    have hanswers := answers_set h.answers hcall rfl
    have hdropped := dropped_set h.dropped hcall rfl
    dsimp only [Channel.advance]
    rcases s.queue.send_cases item with
      ⟨hgone, hsend⟩ | ⟨hthere, hfull, hsend⟩ | ⟨hthere, hroom, hsend⟩
    · rw [hsend]
      refine h.offered ?_ (.inl rfl) (hanswers (.answered (.error .closed)))
        (hdropped (.answered (.error .closed)))
      rw [List.append_nil]
      rfl
    · rw [hsend]
      have hkept := h.offered (f := fun q => q) (n := s.queue.dropped) ?_ (.inl rfl)
        (hanswers .counting) (hdropped .counting)
      · rwa [onQueue_id] at hkept
      · rw [List.append_nil]
    · rw [hsend]
      refine h.offered rfl (.inr ⟨hthere, ?_⟩) (hanswers (.answered (.ok ())))
        (hdropped (.answered (.ok ())))
      rw [← h.capacity_eq]
      exact hroom

variable (persist : Persist α σ) (store : σ)

/-- An event in which nothing is accepted or taken leaves the traffic as it is. -/
theorem Traffic.after_quiet (t : Traffic α) {e : ChannelEvent α} (haccepted : s.acceptedBy e = [])
    (hreceived : s.receivedBy e = []) (hworked : s.workedBy persist.logged e = []) :
    t.after persist.logged s e = t := by
  rw [Traffic.after, haccepted, hreceived, hworked, List.append_nil, List.append_nil,
    List.append_nil, List.append_nil]

theorem held_start (q : Queue α) (store : σ × HandLog α) (workers : Nat) :
    (Recorder.start q store workers).held = [] := by
  rw [Recorder.held, Recorder.start, List.flatMap_eq_nil_iff]
  intro w hw
  rw [(List.mem_replicate.mp hw).2]
  rfl

/-- The ledger after a clone is dropped. -/
theorem Ledger.dropClone (h : Ledger capacity t s) (clone : Nat) :
    Ledger capacity t (s.dropClone clone) := by
  rw [Channel.dropClone]
  dsimp only
  split
  · exact h.alike rfl rfl h.attended
  · refine h.alike ?_ rfl (attended_onQueue h.attended _)
    rw [queue_onQueue]
    rfl

/-- The ledger after a push begins, which is neither accepted nor dropped so far. -/
theorem Ledger.begun (h : Ledger capacity t s) (clone : Nat) (item : α) :
    Ledger capacity t { s with calls := s.calls ++ [⟨clone, item, .offering⟩] } := by
  have hanswers : (t.accepted ++ []).Perm
      ((s.calls ++ [(⟨clone, item, .offering⟩ : PushCall α)]).flatMap PushCall.accepted) := by
    rw [List.append_nil, List.flatMap_append]
    simpa [PushCall.accepted] using h.answers
  have hdropped : s.queue.dropped =
      (s.calls ++ [(⟨clone, item, .offering⟩ : PushCall α)]).countP PushCall.isDropped := by
    rw [List.countP_append]
    exact h.dropped
  have hbegun := h.offered (f := fun q => q) (by rw [List.append_nil]) (.inl rfl) hanswers hdropped
  rwa [onQueue_id, List.append_nil] at hbegun

/-- The ledger after the receiver takes an item. -/
theorem Ledger.received (h : Ledger capacity t s) {q : Queue α} (hq : s.receiving = .receiver q) :
    Ledger capacity ⟨t.accepted, t.received ++ (q.pop.1.toList ++ []), t.worked ++ []⟩
      ({ s with receiving := .receiver q.pop.2 } : Channel α (σ × HandLog α)) := by
  obtain ⟨receiving, clones, calls⟩ := s
  obtain rfl : receiving = .receiver q := hq
  obtain ⟨hitems, hqueue⟩ := q.pop_split
  have hnone : t.worked = [] := h.attended
  have hfront : q.items = q.pop.1.toList ++ [] ++ q.pop.2.items := by
    rw [List.append_nil]
    exact hitems
  refine h.take hfront hqueue rfl (.inr ⟨hnone, rfl⟩) ?_
  rw [List.append_nil]
  exact hnone

/-- The ledger after a recorder is started. -/
theorem Ledger.recorded (h : Ledger capacity t s) {q : Queue α} (hq : s.receiving = .receiver q)
    (workers : Nat) :
    Ledger capacity t { s with receiving := .recorder (.start q (store, []) workers) } := by
  obtain ⟨receiving, clones, calls⟩ := s
  obtain rfl : receiving = .receiver q := hq
  refine h.alike rfl rfl fun _ => ?_
  have hnone : t.worked = [] := h.attended
  rw [hnone, Recorder.taken, held_start]
  rfl

/-- The ledger after a step of a worker. -/
theorem Ledger.stepped (h : Ledger capacity t s) {r r' : Recorder α (σ × HandLog α)} {i : Nat}
    (hr : s.receiving = .recorder r) (hstepped : Recorder.Stepped persist.logged r i r') :
    Ledger capacity ⟨t.accepted, t.received ++ ([] ++ Recorder.takenBetween i r r'),
      t.worked ++ Recorder.takenBetween i r r'⟩ { s with receiving := .recorder r' } := by
  obtain ⟨receiving, clones, calls⟩ := s
  obtain rfl : receiving = .recorder r := hr
  obtain ⟨hitems, hqueue⟩ := Recorder.taken_of_stepped hstepped
  have hfront : r.queue.items = [] ++ Recorder.takenBetween i r r' ++ r'.queue.items := hitems
  refine h.take hfront hqueue rfl (.inl rfl) fun halone => ?_
  rw [Recorder.length_workers_of_stepped hstepped] at halone
  rw [Recorder.taken_of_alone hstepped halone, h.attended halone]

/-- Every event keeps the ledger. -/
theorem Ledger.step (h : Ledger capacity t s) (e : ChannelEvent α) :
    Ledger capacity (t.after persist.logged s e) (s.step persist.logged (store, []) e) := by
  obtain ⟨receiving, clones, calls⟩ := s
  cases e with
  | clone clone =>
    rw [Traffic.after_quiet persist t rfl rfl rfl, Channel.step]
    split
    · exact h.alike rfl rfl h.attended
    · exact h
  | drop clone =>
    rw [Traffic.after_quiet persist t rfl rfl rfl, Channel.step]
    split
    · exact h.dropClone clone
    · exact h
  | push clone item =>
    rw [Traffic.after_quiet persist t rfl rfl rfl, Channel.step]
    split
    · exact h.begun clone item
    · exact h
  | advance k =>
    have hafter : t.after persist.logged ⟨receiving, clones, calls⟩ (.advance k) =
        { t with
          accepted := t.accepted ++ acceptedBy ⟨receiving, clones, calls⟩ (.advance k) } := by
      rw [Traffic.after]
      simp [receivedBy, workedBy]
    rw [hafter, Channel.step]
    cases hcall : calls[k]? with
    | some call => exact h.advance hcall
    | none =>
      rw [acceptedBy, hcall, List.append_nil]
      exact h
  | receive =>
    cases receiving with
    | recorder r =>
      rw [Traffic.after_quiet persist t rfl rfl rfl]
      exact h
    | receiver q =>
      show Ledger capacity ⟨t.accepted ++ [], _, _⟩ _
      rw [List.append_nil]
      exact h.received rfl
  | hangUp =>
    rw [Traffic.after_quiet persist t rfl rfl rfl]
    cases receiving with
    | recorder r => exact h
    | receiver q => exact h.close rfl rfl h.attended
  | record workers =>
    rw [Traffic.after_quiet persist t rfl rfl rfl]
    cases receiving with
    | recorder r => exact h
    | receiver q =>
      rw [Channel.step]
      dsimp only
      split
      · exact h.recorded store rfl workers
      · exact h
  | work i =>
    cases receiving with
    | receiver q =>
      rw [Traffic.after_quiet persist t rfl rfl rfl]
      exact h
    | recorder r =>
      show Ledger capacity ⟨t.accepted ++ [], _, _⟩ _
      rw [List.append_nil]
      exact h.stepped persist rfl (Recorder.stepped_step _ r i)
  | stop =>
    rw [Traffic.after_quiet persist t rfl rfl rfl]
    cases receiving with
    | receiver q => exact h
    | recorder r => exact h.alike rfl rfl h.attended
  | finish =>
    rw [Traffic.after_quiet persist t rfl rfl rfl]
    cases receiving with
    | receiver q => exact h
    | recorder r =>
      rw [Channel.step]
      dsimp only [Recorder.handle]
      split
      · exact h.close rfl rfl h.attended
      · exact h

/-- Every run keeps the ledger. -/
theorem Ledger.run (h : Ledger capacity t s) (events : List (ChannelEvent α)) :
    Ledger capacity (traffic persist.logged (store, []) s t events)
      (s.run persist.logged (store, []) events) := by
  induction events generalizing s t with
  | nil => exact h
  | cons e events ih => exact ih (h.step persist store e)

theorem ledger_opened (capacity : Nat) :
    Ledger capacity ⟨[], [], []⟩ (opened capacity : Channel α (σ × HandLog α)) where
  capacity_eq := rfl
  bound := Nat.zero_le _
  inOrder := List.prefix_refl _
  whole _ := rfl
  gone hconsumer := nomatch hconsumer
  answers := List.Perm.refl _
  dropped := rfl
  behind := List.suffix_refl _
  attended := rfl

/-! ## Offers and answers -/

/-- What an offer to a queue for some capacity is decided to be. -/
structure Offered (capacity : Nat) (s : Channel α σ) (answer : Except QueueError Unit) : Prop where
  full : answer = .error .full ↔ s.queue.consumer = true ∧ s.queue.items.length = capacity
  closed : answer = .error .closed ↔ s.queue.consumer = false
  accepted : answer = .ok () ↔ s.queue.consumer = true ∧ s.queue.items.length < capacity

/-- Whether a push that is at one place gets to another, some time or other. -/
def Leads : PushPhase → PushPhase → Prop
  | .offering, _ => True
  | .counting, phase => phase = .counting ∨ phase = .answered (.error .full)
  | .answered answer, phase => phase = .answered answer

theorem Leads.refl (phase : PushPhase) : Leads phase phase := by
  cases phase with
  | offering => trivial
  | counting => exact .inl rfl
  | answered answer => rfl

theorem Leads.trans {p p' p'' : PushPhase} (h : Leads p p') (h' : Leads p' p'') : Leads p p'' := by
  cases p with
  | offering => trivial
  | counting =>
    rcases h with rfl | rfl
    · exact h'
    · exact .inr h'
  | answered answer =>
    obtain rfl := h
    exact h'

/-- Behind its offer a push has only one answer before it. -/
theorem answer_of_leads {answer answer' : Except QueueError Unit}
    (h : Leads (.behind answer) (.answered answer')) : answer' = answer := by
  cases answer with
  | ok u =>
    cases h
    rfl
  | error e => cases e with
    | closed =>
      cases h
      rfl
    | full =>
      rcases h with h | h <;> cases h
      rfl

/-- What an event makes of the pushes: they stay, one more begins, or one of them goes on. -/
inductive CallsStep (calls : List (PushCall α)) : ChannelEvent α → List (PushCall α) → Prop where
  | same (e : ChannelEvent α) : CallsStep calls e calls
  | begun (clone : Nat) (item : α) :
    CallsStep calls (.push clone item) (calls ++ [⟨clone, item, .offering⟩])
  | moved {k : Nat} {call : PushCall α} {phase : PushPhase} (hcall : calls[k]? = some call)
      (hleads : Leads call.phase phase) :
    CallsStep calls (.advance k) (calls.set k (call.moved phase))

theorem callsStep_advance (s : Channel α σ) {k : Nat} {call : PushCall α}
    (hcall : s.calls[k]? = some call) :
    CallsStep s.calls (.advance k) (s.advance k call).calls := by
  obtain ⟨clone, item, phase⟩ := call
  cases phase with
  | answered answer => exact .same _
  | counting => exact .moved hcall (.inr rfl)
  | offering =>
    rw [advance]
    dsimp only
    split
    · exact .moved hcall trivial
    · exact .moved hcall trivial

theorem callsStep_step (persist : Persist α σ) (store : σ) (s : Channel α σ) (e : ChannelEvent α) :
    CallsStep s.calls e (s.step persist store e).calls := by
  obtain ⟨receiving, clones, calls⟩ := s
  cases e with
  | clone clone =>
    rw [Channel.step]
    split <;> exact .same _
  | drop clone =>
    rw [Channel.step, dropClone]
    dsimp only
    split
    · split <;> exact .same _
    · exact .same _
  | push clone item =>
    rw [Channel.step]
    split
    · exact .begun clone item
    · exact .same _
  | advance k =>
    rw [Channel.step]
    cases hcall : calls[k]? with
    | none => exact .same _
    | some call => exact callsStep_advance ⟨receiving, clones, calls⟩ hcall
  | receive => cases receiving <;> exact .same _
  | hangUp => cases receiving <;> exact .same _
  | record workers =>
    cases receiving with
    | recorder r => exact .same _
    | receiver q =>
      rw [Channel.step]
      dsimp only
      split <;> exact .same _
  | work i => cases receiving <;> exact .same _
  | stop => cases receiving <;> exact .same _
  | finish => cases receiving <;> exact .same _

/-- A push that is not at its offer was there before, or has just made it. -/
theorem CallsStep.back {calls calls' : List (PushCall α)} {e : ChannelEvent α}
    (h : CallsStep calls e calls') {k : Nat} {call : PushCall α} (hcall : calls'[k]? = some call)
    (hphase : call.phase ≠ .offering) :
    ∃ before, calls[k]? = some before ∧
      (before.phase = .offering ∧ e = .advance k ∨
        before.phase ≠ .offering ∧ Leads before.phase call.phase) := by
  cases h with
  | same => exact ⟨call, hcall, .inr ⟨hphase, .refl _⟩⟩
  | begun clone item =>
    by_cases hk : k < calls.length
    · rw [List.getElem?_append_left hk] at hcall
      exact ⟨call, hcall, .inr ⟨hphase, .refl _⟩⟩
    · rw [List.getElem?_append_right (Nat.le_of_not_lt hk)] at hcall
      obtain rfl := List.mem_singleton.mp (List.mem_of_getElem? hcall)
      exact absurd rfl hphase
  | @moved j before phase hbefore hleads =>
    by_cases hj : j = k
    · subst hj
      have hj := (List.getElem?_eq_some_iff.mp hbefore).1
      rw [List.getElem?_set_self hj] at hcall
      obtain rfl := Option.some.inj hcall
      by_cases hoffer : before.phase = .offering
      · exact ⟨before, hbefore, .inl ⟨hoffer, rfl⟩⟩
      · exact ⟨before, hbefore, .inr ⟨hoffer, hleads⟩⟩
    · rw [List.getElem?_set_ne hj] at hcall
      exact ⟨call, hcall, .inr ⟨hphase, .refl _⟩⟩

/-- Only its own turns move a push. -/
theorem CallsStep.others {calls calls' : List (PushCall α)} {e : ChannelEvent α}
    (h : CallsStep calls e calls') {k : Nat} {call : PushCall α} (hcall : calls[k]? = some call)
    (he : e ≠ .advance k) : calls'[k]? = some call := by
  cases h with
  | same => exact hcall
  | begun clone item => rwa [List.getElem?_append_left (List.getElem?_eq_some_iff.mp hcall).1]
  | @moved j before phase hbefore hleads =>
    have hj : j ≠ k := by
      rintro rfl
      exact he rfl
    rwa [List.getElem?_set_ne hj]

/-- A push goes on from where it is. -/
theorem step_advance (s : Channel α σ) {k : Nat} {call : PushCall α}
    (hcall : s.calls[k]? = some call) :
    s.step persist store (.advance k) = s.advance k call := by
  rw [Channel.step, hcall]

/-- An offer is decided by what is queued at that moment. -/
theorem Ledger.offer (h : Ledger capacity t s) {k : Nat} {call : PushCall α}
    (hcall : s.calls[k]? = some call) (hoffer : call.phase = .offering) :
    ∃ answer, (s.step persist.logged (store, []) (.advance k)).calls[k]? =
        some (call.moved (.behind answer)) ∧ Offered capacity s answer := by
  have hk := (List.getElem?_eq_some_iff.mp hcall).1
  have hcapacity := h.capacity_eq
  have hbound := h.bound
  rw [step_advance _ _ s hcall]
  obtain ⟨clone, item, phase⟩ := call
  obtain rfl : phase = .offering := hoffer
  dsimp only [Channel.advance]
  rcases s.queue.send_cases item with
    ⟨hgone, hsend⟩ | ⟨hthere, hfull, hsend⟩ | ⟨hthere, hroom, hsend⟩
  · rw [hsend]
    refine ⟨.error .closed, List.getElem?_set_self hk, ?_⟩
    exact ⟨by simp [hgone], by simp [hgone], by simp [hgone]⟩
  · rw [hsend]
    refine ⟨.error .full, List.getElem?_set_self hk, ?_⟩
    have hlength : s.queue.items.length = capacity := by omega
    exact ⟨by simp [hthere, hlength], by simp [hthere], by simp [hthere, hlength]⟩
  · rw [hsend]
    refine ⟨.ok (), List.getElem?_set_self hk, ?_⟩
    have hlength : s.queue.items.length < capacity := by omega
    exact ⟨by simp [hthere]; omega, by simp [hthere], by simp [hthere, hlength]⟩

/-- A push stays where it is until its turn. -/
theorem calls_run_of_waiting (s : Channel α σ) {k : Nat} {call : PushCall α}
    (hcall : s.calls[k]? = some call) {events : List (ChannelEvent α)}
    (hevents : ∀ e ∈ events, e ≠ .advance k) :
    (s.run persist store events).calls[k]? = some call := by
  induction events generalizing s with
  | nil => exact hcall
  | cons e events ih =>
    obtain ⟨hfirst, hrest⟩ := List.forall_mem_cons.mp hevents
    exact ih _ ((callsStep_step persist store s e).others hcall hfirst) hrest

/-- Nothing changes an answer. -/
theorem calls_run_of_answered (s : Channel α σ) {k clone : Nat} {item : α}
    {answer : Except QueueError Unit}
    (hcall : s.calls[k]? = some ⟨clone, item, .answered answer⟩) (events : List (ChannelEvent α)) :
    (s.run persist store events).calls[k]? = some ⟨clone, item, .answered answer⟩ := by
  induction events generalizing s with
  | nil => exact hcall
  | cons e events ih =>
    refine ih _ ?_
    by_cases he : e = .advance k
    · rwa [he, step_advance _ _ s hcall]
    · exact (callsStep_step persist store s e).others hcall he

/-- The next turn of a push behind its offer answers it. -/
theorem calls_step_of_behind (s : Channel α σ) {k clone : Nat} {item : α}
    {answer : Except QueueError Unit} (hcall : s.calls[k]? = some ⟨clone, item, .behind answer⟩) :
    (s.step persist store (.advance k)).calls[k]? = some ⟨clone, item, .answered answer⟩ := by
  rw [step_advance _ _ s hcall]
  cases answer with
  | ok u => exact hcall
  | error e => cases e with
    | closed => exact hcall
    | full => exact List.getElem?_set_self (List.getElem?_eq_some_iff.mp hcall).1

/-- Where a push is that was offered, when some other events have happened: it is answered at the
latest after one more turn. -/
theorem calls_run_of_behind (s : Channel α σ) {k clone : Nat} {item : α}
    {answer : Except QueueError Unit} (hcall : s.calls[k]? = some ⟨clone, item, .behind answer⟩)
    (events : List (ChannelEvent α)) :
    ∃ phase, (s.run persist store events).calls[k]? = some ⟨clone, item, phase⟩ ∧
      (.advance k ∈ events → phase = .answered answer) ∧
      (.advance k ∉ events → phase = .behind answer) := by
  induction events generalizing s with
  | nil => exact ⟨_, hcall, fun hmem => absurd hmem List.not_mem_nil, fun _ => rfl⟩
  | cons e events ih =>
    by_cases he : e = .advance k
    · subst he
      have hanswered := calls_step_of_behind persist store s hcall
      exact ⟨_, calls_run_of_answered persist store _ hanswered events, fun _ => rfl,
        fun hnone => absurd List.mem_cons_self hnone⟩
    · have hkept := (callsStep_step persist store s e).others hcall he
      obtain ⟨phase, hphase, hturn, hwaits⟩ := ih _ hkept
      refine ⟨phase, hphase, fun hmem => hturn ?_, fun hnone => hwaits ?_⟩
      · exact (List.mem_cons.mp hmem).resolve_left (Ne.symm he)
      · exact fun hmem => hnone (List.mem_cons_of_mem e hmem)

/-- The way of a push through any other events: it begins through a clone that is there, waits for
its first turn, and what is queued then decides its answer. It has the answer at once, unless the
drop is to be counted, which its next turn does. -/
theorem Ledger.settles (h : Ledger capacity t s) {clone : Nat} (hclone : s.hasClone clone = true)
    (item : α) {waiting : List (ChannelEvent α)}
    (hwaiting : ∀ e ∈ waiting, e ≠ .advance s.calls.length) (later : List (ChannelEvent α)) :
    ∃ answer phase,
      Offered capacity (s.run persist.logged (store, []) (.push clone item :: waiting)) answer ∧
      (s.run persist.logged (store, []) (.push clone item ::
        (waiting ++ .advance s.calls.length :: later))).calls[s.calls.length]? =
          some ⟨clone, item, phase⟩ ∧
      (.advance s.calls.length ∈ later → phase = .answered answer) ∧
      (.advance s.calls.length ∉ later → phase = .behind answer) := by
  let begun := s.step persist.logged (store, []) (.push clone item)
  have hbegun : begun.calls[s.calls.length]? = some ⟨clone, item, .offering⟩ := by
    show (s.step persist.logged (store, []) (.push clone item)).calls[_]? = _
    rw [Channel.step, if_pos hclone]
    exact List.getElem?_concat_length
  have hoffering := calls_run_of_waiting persist.logged (store, []) begun hbegun hwaiting
  have hledger := (h.step persist store (.push clone item)).run persist store waiting
  obtain ⟨answer, hbehind, hoffered⟩ := hledger.offer persist store hoffering rfl
  obtain ⟨phase, hphase, hturn, hwaits⟩ :=
    calls_run_of_behind persist.logged (store, []) _ hbehind later
  refine ⟨answer, phase, hoffered, ?_, hturn, hwaits⟩
  have hrun : s.run persist.logged (store, [])
      (.push clone item :: (waiting ++ .advance s.calls.length :: later)) =
        ((begun.run persist.logged (store, []) waiting).step persist.logged (store, [])
          (.advance s.calls.length)).run persist.logged (store, []) later := List.foldl_append
  rwa [hrun]

/-- A push whose steps come one right behind the other does what the queue does in one. -/
theorem push_at_once (s : Channel α σ) {k clone : Nat} {item : α}
    (hcall : s.calls[k]? = some ⟨clone, item, .offering⟩) :
    let s' := s.run persist store [.advance k, .advance k]
    s'.queue = (s.queue.push item).2 ∧
      s'.calls[k]? = some ⟨clone, item, .answered (s.queue.push item).1⟩ := by
  have hk := (List.getElem?_eq_some_iff.mp hcall).1
  intro s'
  have hself (phase : PushPhase) :
      (s.calls.set k (⟨clone, item, phase⟩ : PushCall α))[k]? = some ⟨clone, item, phase⟩ :=
    List.getElem?_set_self hk
  have htwice : s' = (s.step persist store (.advance k)).step persist store (.advance k) := rfl
  rw [htwice, step_advance _ _ s hcall, Queue.push_eq_send]
  rcases s.queue.send_cases item with ⟨-, hsend⟩ | ⟨-, -, hsend⟩ | ⟨-, -, hsend⟩
  all_goals
    rw [advance]
    dsimp only
    rw [hsend]
    dsimp only [PushCall.moved]
    rw [step_advance _ _ _ (hself _)]
  · exact ⟨queue_onQueue _ s, hself _⟩
  · exact ⟨queue_onQueue _ s, List.getElem?_set_self (by rwa [List.length_set])⟩
  · exact ⟨queue_onQueue _ s, hself _⟩

/-- A push that has an answer was offered in some state of the run before, which decided it. -/
theorem offered_of_answered (capacity : Nat) (events : List (ChannelEvent α)) {k : Nat}
    {call : PushCall α}
    (hcall : ((opened capacity).run persist.logged (store, []) events).calls[k]? = some call)
    {answer : Except QueueError Unit} (hanswer : call.phase = .answered answer) :
    ∃ before later, events = before ++ .advance k :: later ∧
      Offered capacity ((opened capacity).run persist.logged (store, []) before) answer := by
  -- Back from the end of the run, for every place behind the offer that leads to the answer.
  have hback : ∀ call : PushCall α,
      ((opened capacity).run persist.logged (store, []) events).calls[k]? = some call →
        call.phase ≠ .offering → Leads call.phase (.answered answer) →
          ∃ before later, events = before ++ .advance k :: later ∧
            Offered capacity ((opened capacity).run persist.logged (store, []) before) answer := by
    clear hcall
    induction events using List.reverseRecOn with
    | nil => exact fun _ hnone => nomatch hnone
    | append_singleton events e ih =>
      intro call hcall hphase hleads
      have hrun : (opened capacity).run persist.logged (store, []) (events ++ [e]) =
          ((opened capacity).run persist.logged (store, []) events).step persist.logged (store, [])
            e := List.foldl_append
      rw [hrun] at hcall
      obtain ⟨earlier, hearlier, ⟨hoffer, rfl⟩ | ⟨hearlier', hleads'⟩⟩ :=
        (callsStep_step persist.logged (store, []) _ e).back hcall hphase
      · refine ⟨events, [], rfl, ?_⟩
        have hledger := (ledger_opened (σ := σ) capacity).run persist store events
        obtain ⟨answer', hafter, hoffered⟩ := hledger.offer persist store hearlier hoffer
        obtain rfl := Option.some.inj (hafter.symm.trans hcall)
        rwa [answer_of_leads hleads]
      · obtain ⟨before, later, rfl, hoffered⟩ :=
          ih earlier hearlier hearlier' (hleads'.trans hleads)
        exact ⟨before, later ++ [e], by simp, hoffered⟩
  exact hback call hcall (by rw [hanswer]; simp) (by rw [hanswer]; exact .refl _)

/-! ## The law -/

/-- The receiving end without the log of what a recorder handed to its store. -/
def forgetReceiving : Receiving α (σ × HandLog α) → Receiving α σ
  | .receiver q => .receiver q
  | .recorder r => .recorder r.forget

def forget (s : Channel α (σ × HandLog α)) : Channel α σ :=
  ⟨forgetReceiving s.receiving, s.clones, s.calls⟩

theorem forget_onQueue (f : Queue α → Queue α) (s : Channel α (σ × HandLog α)) :
    (s.onQueue f).forget = s.forget.onQueue f := by
  obtain ⟨receiving, clones, calls⟩ := s
  cases receiving <;> rfl

theorem queue_forget (s : Channel α (σ × HandLog α)) : s.forget.queue = s.queue := by
  obtain ⟨receiving, clones, calls⟩ := s
  cases receiving <;> rfl

theorem forget_dropClone (s : Channel α (σ × HandLog α)) (clone : Nat) :
    (s.dropClone clone).forget = s.forget.dropClone clone := by
  by_cases hleft : (s.clones.set clone false).any id = true
  · exact (congrArg forget (if_pos hleft)).trans (if_pos hleft).symm
  · exact (congrArg forget (if_neg hleft)).trans
      ((forget_onQueue _ _).trans (if_neg hleft).symm)

theorem forget_advance (s : Channel α (σ × HandLog α)) (k : Nat) (call : PushCall α) :
    (s.advance k call).forget = s.forget.advance k call := by
  have hqueue (f : Queue α → Queue α) (calls : List (PushCall α)) :
      ({ s.onQueue f with calls := calls } : Channel α (σ × HandLog α)).forget =
        { s.forget.onQueue f with calls := calls } := by
    rw [← forget_onQueue]
    rfl
  obtain ⟨clone, item, phase⟩ := call
  cases phase with
  | answered answer => rfl
  | counting => exact hqueue _ _
  | offering =>
    rw [advance, advance, queue_forget]
    dsimp only
    rcases s.queue.send_cases item with ⟨-, hsend⟩ | ⟨-, -, hsend⟩ | ⟨-, -, hsend⟩
    · rw [hsend]
      exact hqueue _ _
    · rw [hsend]
      rfl
    · rw [hsend]
      exact hqueue _ _

theorem hasClone_forget (s : Channel α (σ × HandLog α)) (clone : Nat) :
    s.forget.hasClone clone = s.hasClone clone := rfl

theorem isUsed_forget (s : Channel α (σ × HandLog α)) (clone : Nat) :
    s.forget.isUsed clone = s.isUsed clone := rfl

theorem forget_step (s : Channel α (σ × HandLog α)) (e : ChannelEvent α) :
    (s.step persist.logged (store, []) e).forget = s.forget.step persist store e := by
  obtain ⟨receiving, clones, calls⟩ := s
  cases e with
  | clone clone =>
    rw [Channel.step, Channel.step, hasClone_forget]
    split <;> rfl
  | drop clone =>
    rw [Channel.step, Channel.step, hasClone_forget, isUsed_forget]
    split
    · exact forget_dropClone _ clone
    · rfl
  | push clone item =>
    rw [Channel.step, Channel.step, hasClone_forget]
    split <;> rfl
  | advance k =>
    rw [Channel.step, Channel.step]
    dsimp only [forget]
    cases calls[k]? with
    | none => rfl
    | some call => exact forget_advance _ k call
  | receive => cases receiving <;> rfl
  | hangUp => cases receiving <;> rfl
  | record workers =>
    cases receiving with
    | recorder r => rfl
    | receiver q => exact apply_ite forget _ _ _
  | work i =>
    cases receiving with
    | receiver q => rfl
    | recorder r =>
      show (⟨.recorder (r.step persist.logged i).forget, clones, calls⟩ : Channel α σ) = _
      rw [Recorder.forget_step]
      rfl
  | stop => cases receiving <;> rfl
  | finish =>
    cases receiving with
    | receiver q => rfl
    | recorder r =>
      show (⟨.recorder (r.handle persist.logged .consumerGone).forget, clones, calls⟩ :
        Channel α σ) = _
      rw [Recorder.forget_handle]
      rfl

theorem forget_run (s : Channel α (σ × HandLog α)) (events : List (ChannelEvent α)) :
    (s.run persist.logged (store, []) events).forget = s.forget.run persist store events := by
  induction events generalizing s with
  | nil => rfl
  | cons e events ih =>
    refine (ih _).trans ?_
    rw [forget_step]
    rfl

/-- What the receiving end of a queue gets when it has its turn. The receiver takes the oldest item,
and so does a worker that looks for one; a worker that holds an item hands it to the store. The end
of the receiver is the end of the receiving end. -/
structure Served (persist : Persist α σ) (store : σ) (s : Channel α (σ × HandLog α)) : Prop where
  receiver : ∀ q a rest, s.receiving = .receiver q → q.items = a :: rest →
    s.receivedBy .receive = [a] ∧
      (s.step persist.logged (store, []) .receive).queue = { q with items := rest }
  worker : ∀ (r : Recorder α (σ × HandLog α)) (i : Nat) a rest, s.receiving = .recorder r →
    r.Looks i → r.queue.items = a :: rest →
      s.workedBy persist.logged (.work i) = [a] ∧
        (s.step persist.logged (store, []) (.work i)).queue = { r.queue with items := rest }
  handed : ∀ (r : Recorder α (σ × HandLog α)) (i : Nat) a, s.receiving = .recorder r →
    r.workers[i]? = some (.holding a) → ∃ r' : Recorder α (σ × HandLog α),
      (s.step persist.logged (store, []) (.work i)).receiving = .recorder r' ∧
        r'.store.2.map Prod.fst = r.store.2.map Prod.fst ++ [a]
  hungUp : ∀ q, s.receiving = .receiver q →
    (s.step persist.logged (store, []) .hangUp).queue = q.dropConsumer

theorem served (s : Channel α (σ × HandLog α)) : Served persist store s := by
  obtain ⟨receiving, clones, calls⟩ := s
  constructor
  case receiver =>
    rintro ⟨capacity, items, dropped, consumer, producers⟩ a rest rfl hitems
    obtain rfl : items = a :: rest := hitems
    exact ⟨rfl, rfl⟩
  case worker =>
    rintro r i a rest rfl hlooks hitems
    have hstep := Recorder.step_of_looks persist.logged hlooks hitems
    refine ⟨?_, congrArg Recorder.queue hstep⟩
    show Recorder.takenBetween i r (r.step persist.logged i) = [a]
    obtain ⟨w, hw, hitem⟩ : ∃ w, r.workers[i]? = some w ∧ w.item = [] := by
      rcases hlooks with hwaiting | ⟨hfree, -, -⟩
      · exact ⟨_, hwaiting, rfl⟩
      · exact ⟨_, hfree, rfl⟩
    rw [hstep, Recorder.takenBetween_set hw rfl, hitem]
    rfl
  case handed =>
    rintro r i a rfl hholding
    have hstep : r.step persist.logged i = r.hand persist.logged i a := by
      rw [Recorder.step, hholding]
    refine ⟨_, congrArg Receiving.recorder hstep, Recorder.store_hand persist r i a⟩
  case hungUp =>
    rintro q rfl
    rfl

/-- The law of a queue for `c + 1` items after any events. The log that is kept of the store changes
nothing. The ledger holds: at most `c + 1` items are queued, and what was received is the beginning
of what was accepted. Every clone and the recorder tell the number of pushes that were answered that
the queue is full. What a recorder with one worker handed to its store, in its order, is a stretch
of what was accepted. Every answer was decided by what was queued when the push was offered; and
every push through a clone that is there has its answer after two turns at most, the one that was
decided when it had its first. Who has its turn at the receiving end takes the oldest item. -/
theorem queue_law (c : Nat) (events : List (ChannelEvent α)) :
    let upTo := (opened (c + 1) : Channel α (σ × HandLog α)).run persist.logged (store, [])
    let s := upTo events
    let t := traffic persist.logged (store, []) (opened (c + 1)) ⟨[], [], []⟩ events
    s.forget = (opened (c + 1)).run persist store events ∧
      Ledger (c + 1) t s ∧
      (∀ clone, s.hasClone clone = true →
        s.dropped? clone = some (s.calls.countP PushCall.isDropped)) ∧
      (∀ r, s.receiving = .recorder r →
        r.stats.dropped = s.calls.countP PushCall.isDropped ∧
        (r.workers.length = 1 → r.store.2.map Prod.fst <:+: t.accepted)) ∧
      (∀ (k : Nat) (call : PushCall α) (answer : Except QueueError Unit), s.calls[k]? = some call →
        call.phase = .answered answer → ∃ before later, events = before ++ .advance k :: later ∧
          Offered (c + 1) (upTo before) answer) ∧
      (∀ (before waiting later : List (ChannelEvent α)) (clone : Nat) (item : α) (k : Nat),
        events = before ++ .push clone item :: (waiting ++ .advance k :: later) →
        (upTo before).hasClone clone = true → (upTo before).calls.length = k →
        (∀ e ∈ waiting, e ≠ .advance k) → ∃ answer phase,
          Offered (c + 1) (upTo (before ++ .push clone item :: waiting)) answer ∧
          s.calls[k]? = some ⟨clone, item, phase⟩ ∧
          (.advance k ∈ later → phase = .answered answer) ∧
          (.advance k ∉ later → phase = .behind answer)) ∧
      Served persist store s := by
  intro upTo s t
  have hledger : Ledger (c + 1) t s := (ledger_opened (c + 1)).run persist store events
  refine ⟨forget_run persist store _ events, hledger, ?clones, ?recorder, ?answers, ?pushes,
    served persist store s⟩
  case clones =>
    intro clone hclone
    rw [dropped?, if_pos hclone, hledger.dropped]
  case recorder =>
    intro r hr
    refine ⟨?_, fun halone => ?_⟩
    · rw [← hledger.dropped, Channel.queue, hr]
      rfl
    · -- With a second worker the later of two items could be handed over first.
      have htaken : r.taken = t.worked := by
        have hattended := hledger.attended
        rw [hr] at hattended
        exact hattended halone
      have hhanded : r.store.2.map Prod.fst <+: t.worked := ⟨r.held, htaken⟩
      exact hhanded.isInfix.trans (hledger.behind.isInfix.trans hledger.inOrder.isInfix)
  case answers =>
    intro k call answer hcall hanswer
    exact offered_of_answered persist store (c + 1) events hcall hanswer
  case pushes =>
    rintro before waiting later clone item k hevents hclone rfl hwaiting
    have hbefore := (ledger_opened (σ := σ) (c + 1)).run persist store before
    obtain ⟨answer, phase, hoffered, hcall, hphase⟩ :=
      hbefore.settles persist store hclone item hwaiting later
    refine ⟨answer, phase, ?_, ?_, hphase⟩
    · have hrun : upTo (before ++ .push clone item :: waiting) =
          (upTo before).run persist.logged (store, []) (.push clone item :: waiting) :=
        List.foldl_append
      rwa [hrun]
    · have hrun : s = (upTo before).run persist.logged (store, [])
          (.push clone item :: (waiting ++ .advance (upTo before).calls.length :: later)) := by
        show upTo events = _
        rw [hevents]
        exact List.foldl_append
      rwa [hrun]

end Channel
end PolicyProbe
