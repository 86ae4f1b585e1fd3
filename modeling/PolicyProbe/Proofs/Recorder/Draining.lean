import PolicyProbe.Proofs.Recorder.Conservation

/-!
The end of a recorder. When it is stopped, its workers empty the queue and end, each after at most
two steps for every item that was queued and a few of its own (`Recorder.isOver_rounds`). What was
offered to it before the stop is then accounted for: the store was handed everything but what a full
queue dropped, each item once, and the counters say how often it answered how
(`Recorder.Accounted`). This is so of the stop of the recorder (`Recorder.accounted_stop`) and of
any other order in which the workers take their turns (`Recorder.accounted_of_isOver`).
-/
namespace PolicyProbe

variable {α σ : Type}

/-- Hands items to a store one after another, and keeps what it answered. -/
def Persist.each (persist : Persist α σ) (items : List α) (s : σ) : σ × HandLog α :=
  items.foldl (fun s a => (persist.logged a s).2) (s, [])

/-- How many steps a worker has before it ends, when nothing is queued. -/
def RecorderWorker.way : RecorderWorker α → Nat
  | .ended => 0
  | .free => 1
  | .holding _ => 2
  | .waiting => 2

theorem RecorderWorker.way_le (w : RecorderWorker α) : w.way ≤ 2 := by
  cases w <;> simp [way]

theorem RecorderWorker.eq_ended {w : RecorderWorker α} (h : w.way = 0) : w = .ended := by
  cases w with
  | ended => rfl
  | _ => cases h

namespace Recorder

/-! ## A stop ends -/

/-- How many steps a worker of a recorder that is being stopped has at most before it ends. -/
def left (r : Recorder α σ) (w : RecorderWorker α) : Nat := 2 * r.queue.items.length + w.way

/-- What a step of a worker does to a recorder that is being stopped: the worker comes closer to its
end, unless another one has the receiving end for itself. -/
structure Drains (r : Recorder α σ) (i : Nat) (r' : Recorder α σ) : Prop where
  stopping : r'.stopping = true
  length : r'.workers.length = r.workers.length
  items : r'.queue.items.length ≤ r.queue.items.length
  others : ∀ j, j ≠ i → r'.workers[j]? = r.workers[j]?
  own : ∀ w', r'.workers[i]? = some w' → w' ≠ .waiting ∧
    (w' = .ended ∨ ∃ w, r.workers[i]? = some w ∧
      (r'.left w' < r.left w ∨ r.occupied = true ∧ r'.left w' ≤ r.left w))

/-- A worker that is put somewhere else. -/
theorem drains_set {r r' : Recorder α σ} {i : Nat} {w w' : RecorderWorker α}
    (hw : r.workers[i]? = some w) (hstopping : r'.stopping = true)
    (hworkers : r'.workers = r.workers.set i w')
    (hitems : r'.queue.items.length ≤ r.queue.items.length) (hwaiting : w' ≠ .waiting)
    (hleft : w' = .ended ∨ r'.left w' < r.left w) : Drains r i r' where
  stopping := hstopping
  length := by rw [hworkers, List.length_set]
  items := hitems
  others j hj := by rw [hworkers, List.getElem?_set_ne (Ne.symm hj)]
  own w'' hw'' := by
    rw [hworkers, List.getElem?_set_self (List.getElem?_eq_some_iff.mp hw).1] at hw''
    obtain rfl := Option.some.inj hw''
    exact ⟨hwaiting, hleft.imp_right fun hlt => ⟨w, hw, Or.inl hlt⟩⟩

/-- A worker that looks for an item takes one or, in front of an empty queue, goes on. -/
theorem drains_take {r : Recorder α σ} {i : Nat} {w w' : RecorderWorker α}
    (hw : r.workers[i]? = some w) (hstopping : r.stopping = true)
    (hwaiting : w' ≠ .waiting) (hway : w'.way < w.way) : Drains r i (r.take i w') := by
  rw [take, Queue.pop]
  cases hitems : r.queue.items with
  | nil =>
    exact drains_set hw hstopping rfl (Nat.le_refl _) hwaiting
      (Or.inr (Nat.add_lt_add_left hway _))
  | cons a rest =>
    have hlength : r.queue.items.length = rest.length + 1 := by rw [hitems, List.length_cons]
    have hholding : RecorderWorker.holding a ≠ .waiting := by rintro ⟨⟩
    refine drains_set hw hstopping rfl (by rw [hlength]; exact Nat.le_succ _) hholding (Or.inr ?_)
    show 2 * rest.length + 2 < 2 * r.queue.items.length + w.way
    omega

theorem drains_step (persist : Persist α σ) {r : Recorder α σ} (hstopping : r.stopping = true)
    (i : Nat) : Drains r i (step persist r i) := by
  have hidle : ∀ w, r.workers[i]? = some w → w ≠ .waiting → (w = .ended ∨ r.occupied = true) →
      Drains r i r := by
    intro w hw hwaiting hwhy
    refine ⟨hstopping, rfl, Nat.le_refl _, fun _ _ => rfl, fun w' hw' => ?_⟩
    obtain rfl := Option.some.inj (hw.symm.trans hw')
    exact ⟨hwaiting, hwhy.imp_right fun hoccupied => ⟨w, hw, Or.inr ⟨hoccupied, Nat.le_refl _⟩⟩⟩
  unfold step
  split
  · rename_i hnone
    refine ⟨hstopping, rfl, Nat.le_refl _, fun _ _ => rfl, fun w' hw' => ?_⟩
    cases hnone.symm.trans hw'
  · rename_i hw
    exact hidle _ hw nofun (Or.inl rfl)
  · rename_i hw
    split
    · rename_i hoccupied
      exact hidle _ hw nofun (Or.inr hoccupied)
    · exact drains_take hw hstopping nofun Nat.one_pos
  · rename_i hw
    split
    · exact drains_take hw hstopping nofun (Nat.lt_succ_self 1)
    · exact drains_take hw hstopping nofun Nat.two_pos
  · rename_i a hw
    unfold hand
    dsimp only
    split <;>
      exact drains_set hw hstopping rfl (Nat.le_refl _) nofun
        (Or.inr (Nat.lt_succ_self _))

/-- In a round every worker that waits gets its turn, and none begins to wait. -/
theorem calm_foldl (persist : Persist α σ) {r : Recorder α σ} (hstopping : r.stopping = true)
    (turns : List Nat) :
    let r' := turns.foldl (step persist) r
    r'.stopping = true ∧ r'.workers.length = r.workers.length ∧
      r'.queue.items.length ≤ r.queue.items.length ∧
      ∀ i : Nat, (i ∈ turns ∨ r.workers[i]? ≠ some .waiting) →
        r'.workers[i]? ≠ some .waiting := by
  induction turns generalizing r with
  | nil => exact ⟨hstopping, rfl, Nat.le_refl _, fun i hi => hi.resolve_left List.not_mem_nil⟩
  | cons j turns ih =>
    have hfirst := drains_step persist hstopping j
    obtain ⟨hlater, hlength, hitems, hcalm⟩ := ih hfirst.stopping
    refine ⟨hlater, hlength.trans hfirst.length, Nat.le_trans hitems hfirst.items, fun i hi => ?_⟩
    refine hcalm i ?_
    by_cases hij : i = j
    · subst hij
      exact Or.inr fun hwaiting => (hfirst.own _ hwaiting).1 rfl
    · rw [hfirst.others i hij]
      exact hi.imp_left fun hmem => (List.mem_cons.mp hmem).resolve_left hij

/-- A recorder that is being stopped and in which nobody waits. No worker has more than `n + 1`
steps before it ends, and one that had its turn not more than `n`. -/
structure Draining (n : Nat) (done : Nat → Prop) (r : Recorder α σ) : Prop where
  stopping : r.stopping = true
  calm : ∀ i : Nat, r.workers[i]? ≠ some .waiting
  bound : ∀ (i : Nat) w, r.workers[i]? = some w →
    w = .ended ∨ r.left w ≤ n + 1 ∧ (done i → r.left w ≤ n)

theorem Draining.step {n : Nat} {done : Nat → Prop} {r : Recorder α σ} (h : Draining n done r)
    (persist : Persist α σ) (i : Nat) :
    Draining n (fun j => done j ∨ j = i) (step persist r i) := by
  have hstep := drains_step persist h.stopping i
  have hfree : r.occupied = false := by
    rw [occupied, List.any_eq_false]
    intro w hw
    obtain ⟨j, hj⟩ := List.getElem?_of_mem hw
    cases w with
    | waiting => exact absurd hj (h.calm j)
    | _ => exact Bool.false_ne_true
  constructor
  case stopping => exact hstep.stopping
  case calm =>
    intro j hwaiting
    by_cases hj : j = i
    · subst hj
      exact (hstep.own _ hwaiting).1 rfl
    · exact h.calm j ((hstep.others j hj).symm.trans hwaiting)
  case bound =>
    intro j w' hw'
    by_cases hj : j = i
    · subst hj
      rcases (hstep.own w' hw').2 with hended | ⟨w, hw, hless | ⟨hoccupied, -⟩⟩
      · exact Or.inl hended
      · rcases h.bound j w hw with rfl | ⟨hbound, -⟩
        · -- A worker that ended has nothing left to do but what is queued, and stays ended.
          left
          have hsame : Recorder.step persist r j = r := by rw [Recorder.step, hw]
          rw [hsame] at hw'
          exact (Option.some.inj (hw.symm.trans hw')).symm
        · right
          exact ⟨by omega, fun _ => by omega⟩
      · rw [hfree] at hoccupied
        cases hoccupied
    · -- The others are where they were, and no more is queued.
      rw [hstep.others j hj] at hw'
      have hleft : (Recorder.step persist r i).left w' ≤ r.left w' :=
        Nat.add_le_add_right (Nat.mul_le_mul_left 2 hstep.items) _
      refine (h.bound j w' hw').imp_right fun ⟨hbound, hdone⟩ => ?_
      exact ⟨Nat.le_trans hleft hbound,
        fun hor => Nat.le_trans hleft (hdone (hor.resolve_right hj))⟩

theorem Draining.foldl {n : Nat} {done : Nat → Prop} {r : Recorder α σ} (h : Draining n done r)
    (persist : Persist α σ) (turns : List Nat) :
    Draining n (fun j => done j ∨ j ∈ turns) (turns.foldl (Recorder.step persist) r) := by
  induction turns generalizing done r with
  | nil => exact ⟨h.stopping, h.calm, fun i w hw => (h.bound i w hw).imp_right fun hb =>
      ⟨hb.1, fun hi => hb.2 (hi.resolve_right List.not_mem_nil)⟩⟩
  | cons i turns ih =>
    have hrest := ih (h.step persist i)
    refine ⟨hrest.stopping, hrest.calm, fun j w hw => (hrest.bound j w hw).imp_right fun hb => ?_⟩
    refine ⟨hb.1, fun hj => hb.2 ?_⟩
    rw [or_assoc, ← List.mem_cons]
    exact hj

/-- Every round brings all workers closer to their end, so the rounds come to an end. -/
theorem isOver_rounds (persist : Persist α σ) {n : Nat} {r : Recorder α σ}
    (h : Draining n (fun _ => False) r) : (rounds persist (n + 1) r).isOver = true := by
  induction n generalizing r with
  | zero =>
    have hround := h.foldl persist (List.range r.workers.length)
    have hlength := (calm_foldl persist h.stopping (List.range r.workers.length)).2.1
    refine isOver_iff.mpr fun w hw => ?_
    obtain ⟨i, hi⟩ := List.getElem?_of_mem hw
    have hlt := (List.getElem?_eq_some_iff.mp hi).1
    rcases hround.bound i w hi with hended | ⟨-, hdone⟩
    · exact hended
    · have hmem : i ∈ List.range r.workers.length := List.mem_range.mpr (hlength ▸ hlt)
      have hleft := hdone (Or.inr hmem)
      exact RecorderWorker.eq_ended (by rw [left] at hleft; omega)
  | succ n ih =>
    have hround := h.foldl persist (List.range r.workers.length)
    have hlength := (calm_foldl persist h.stopping (List.range r.workers.length)).2.1
    refine ih ⟨hround.stopping, hround.calm, fun i w hw => ?_⟩
    have hlt := (List.getElem?_eq_some_iff.mp hw).1
    have hmem : i ∈ List.range r.workers.length := List.mem_range.mpr (hlength ▸ hlt)
    exact (hround.bound i w hw).imp_right fun hb => ⟨hb.2 (Or.inr hmem), False.elim⟩

/-- The rounds of a stop are enough. -/
theorem isOver_stop (persist : Persist α σ) (r : Recorder α σ) :
    (rounds persist r.enough { r with stopping := true }).isOver = true := by
  let r₀ : Recorder α σ := { r with stopping := true }
  let r₁ := (List.range r.workers.length).foldl (step persist) r₀
  obtain ⟨hstopping, hlength, hitems, hcalm⟩ :=
    calm_foldl persist (r := r₀) rfl (List.range r.workers.length)
  -- After the first round nobody waits; from then on every round counts.
  refine isOver_rounds persist (n := 3 * r.queue.items.length + 2) (r := r₁)
    ⟨hstopping, fun i hwaiting => ?_, fun i w hw => Or.inr ⟨?_, False.elim⟩⟩
  · have hlt := (List.getElem?_eq_some_iff.mp hwaiting).1
    exact hcalm i (Or.inl (List.mem_range.mpr (hlength ▸ hlt))) hwaiting
  · have hway := w.way_le
    have hle : r₁.queue.items.length ≤ r.queue.items.length := hitems
    rw [left]
    omega

/-! ## What was offered -/

/-- The item that is offered in an event. -/
def Event.item? : Event α → Option α
  | .push a => some a
  | _ => none

/-- Whether an event is one of a recorder that goes on: an item is offered, or a worker makes a
step. -/
def Event.isUsual : Event α → Bool
  | .push _ => true
  | .work _ => true
  | _ => false

/-- The item that the full queue drops in an event. -/
def droppedBy (r : Recorder α σ) : Event α → List α
  | .push a => match (r.offer a).1 with
    | .error .full => [a]
    | _ => []
  | _ => []

/-- The items that the full queue drops in the course of some events. -/
def droppedIn (persist : Persist α σ) : Recorder α σ → List (Event α) → List α
  | _, [] => []
  | r, e :: events => r.droppedBy e ++ droppedIn persist (handle persist r e) events

/-- A queue with both of its ends takes an item or drops it. -/
structure Offered (r : Recorder α σ) (e : Event α) (r' : Recorder α σ) : Prop where
  producers : r'.queue.producers = r.queue.producers
  consumer : r'.queue.consumer = r.queue.consumer
  dropped : r'.queue.dropped = r.queue.dropped + (r.droppedBy e).length
  item : r.queue.producers = true → r.queue.consumer = true →
    e.item?.toList = r.acceptedBy e ++ r.droppedBy e

theorem offered_push (r : Recorder α σ) (a : α) : Offered r (.push a) (r.offer a).2 := by
  have hcases : (r.offer a).1 = .ok () ∧ (r.offer a).2.queue = { r.queue with
        items := r.queue.items ++ [a] } ∨
      (r.offer a).1 = .error .full ∧ (r.offer a).2.queue = { r.queue with
        dropped := r.queue.dropped + 1 } ∨
      (r.offer a).1 = .error .closed ∧ (r.offer a).2.queue = r.queue ∧
        (r.queue.producers = false ∨ r.queue.consumer = false) := by
    unfold offer
    split
    · unfold Queue.push
      split
      · rename_i hconsumer
        exact Or.inr (Or.inr ⟨rfl, rfl, Or.inr (by simpa using hconsumer)⟩)
      · split
        · exact Or.inr (Or.inl ⟨rfl, rfl⟩)
        · exact Or.inl ⟨rfl, rfl⟩
    · rename_i hproducers
      exact Or.inr (Or.inr ⟨rfl, rfl, Or.inl (by simpa using hproducers)⟩)
  rcases hcases with ⟨hanswer, hqueue⟩ | ⟨hanswer, hqueue⟩ | ⟨hanswer, hqueue, hclosed⟩
  · exact ⟨by rw [hqueue], by rw [hqueue], by rw [hqueue, droppedBy, hanswer]; rfl,
      fun _ _ => by rw [acceptedBy, droppedBy, hanswer]; rfl⟩
  · exact ⟨by rw [hqueue], by rw [hqueue], by rw [hqueue, droppedBy, hanswer]; rfl,
      fun _ _ => by rw [acceptedBy, droppedBy, hanswer]; rfl⟩
  · refine ⟨by rw [hqueue], by rw [hqueue], by rw [hqueue, droppedBy, hanswer]; rfl,
      fun hproducers hconsumer => ?_⟩
    rw [hproducers, hconsumer] at hclosed
    simp at hclosed

theorem offered_stepped {persist : Persist α σ} {r r' : Recorder α σ} {i : Nat}
    (h : Stepped persist r i r') : Offered r (.work i) r' := by
  cases h with
  | hand hw =>
    unfold Recorder.hand
    dsimp only
    split <;> exact ⟨rfl, rfl, rfl, fun _ _ => rfl⟩
  | _ => exact ⟨rfl, rfl, rfl, fun _ _ => rfl⟩

theorem offered_handle (persist : Persist α σ) (r : Recorder α σ) {e : Event α}
    (he : e.isUsual = true) : Offered r e (r.handle persist e) := by
  cases e with
  | push a => exact offered_push r a
  | work i => exact offered_stepped (stepped_step persist r i)
  | _ => cases he

/-- As long as a recorder goes on, what is offered is accepted or dropped, and what is dropped is
counted. -/
theorem offered_run (persist : Persist α σ) {r : Recorder α σ} {events : List (Event α)}
    (he : ∀ e ∈ events, e.isUsual = true) (hproducers : r.queue.producers = true)
    (hconsumer : r.queue.consumer = true) :
    (r.run persist events).queue.producers = true ∧
      (r.run persist events).queue.consumer = true ∧
      (r.run persist events).queue.dropped =
        r.queue.dropped + (droppedIn persist r events).length ∧
      (events.filterMap Event.item?).Perm
        (acceptedIn persist r events ++ droppedIn persist r events) := by
  induction events generalizing r with
  | nil => exact ⟨hproducers, hconsumer, rfl, .refl _⟩
  | cons e events ih =>
    obtain ⟨hfirst, hrest⟩ := List.forall_mem_cons.mp he
    have hstep := offered_handle persist r hfirst
    obtain ⟨hproducers', hconsumer', hdropped, hperm⟩ := ih hrest
      (hstep.producers.trans hproducers) (hstep.consumer.trans hconsumer)
    refine ⟨hproducers', hconsumer', ?_, ?_⟩
    · calc (run persist (r.handle persist e) events).queue.dropped
          = (r.handle persist e).queue.dropped +
              (droppedIn persist (r.handle persist e) events).length := hdropped
        _ = r.queue.dropped + (droppedIn persist r (e :: events)).length := by
          rw [hstep.dropped, droppedIn, List.length_append, Nat.add_assoc]
    · have hcons : (e :: events).filterMap Event.item? =
          r.acceptedBy e ++ r.droppedBy e ++ events.filterMap Event.item? := by
        rw [← hstep.item hproducers hconsumer, List.filterMap_cons]
        cases e.item? <;> rfl
      rw [hcons, acceptedIn, droppedIn, List.append_assoc, List.append_assoc]
      refine List.Perm.append_left _ ((hperm.append_left _).trans ?_)
      exact List.perm_append_comm_assoc _ _ _

/-! ## What became of it -/

/-- What was submitted to a recorder whose store was `s` is accounted for. Every item was handed to
the store or dropped by the full queue, and only once; the store is what the handed ones made of it;
and the counters say how often it took one, how often it refused one, and how many were dropped. -/
structure Accounted (persist : Persist α σ) (s : σ) (submitted handed dropped : List α)
    (r : Recorder α σ) : Prop where
  once : submitted.Perm (handed ++ dropped)
  store : r.store = (persist.each handed s).1
  stats : r.stats = ⟨HandLog.taken (persist.each handed s).2,
    HandLog.refused (persist.each handed s).2, dropped.length⟩

/-- Neither the counters nor the store are touched when the workers are gone. -/
theorem Accounted.finish {persist : Persist α σ} {s : σ} {submitted handed dropped : List α}
    {r : Recorder α σ} (h : Accounted persist s submitted handed dropped r) :
    Accounted persist s submitted handed dropped r.finish :=
  ⟨h.once, h.store, h.stats⟩

/-- The store of a recorder is what the items made of it that it was handed. -/
def Replayed (persist : Persist α σ) (s : σ) (r : Recorder α (σ × HandLog α)) : Prop :=
  r.store = persist.each (r.store.2.map Prod.fst) s

theorem Replayed.stepped {persist : Persist α σ} {s : σ} {r r' : Recorder α (σ × HandLog α)}
    {i : Nat} (h : Replayed persist s r) (hs : Stepped persist.logged r i r') :
    Replayed persist s r' := by
  cases hs with
  | hand hw =>
    rename_i a
    have hstore : (r.hand persist.logged i a).store = (persist.logged a r.store).2 := by
      unfold Recorder.hand
      dsimp only
      split <;> rfl
    have hitems : (persist.logged a r.store).2.2.map Prod.fst = r.store.2.map Prod.fst ++ [a] := by
      simp [Persist.logged]
    rw [Replayed, hstore, hitems, Persist.each, List.foldl_append]
    rw [Replayed, Persist.each] at h
    rw [← h]
    rfl
  | _ => exact h

theorem Replayed.handle {persist : Persist α σ} {s : σ} {r : Recorder α (σ × HandLog α)}
    (h : Replayed persist s r) (e : Event α) : Replayed persist s (r.handle persist.logged e) := by
  cases e with
  | push a =>
    rcases offer_cases r a with ⟨_, -, -, -, hafter⟩ | ⟨_, _, -, hafter⟩ <;>
      rw [Recorder.handle, hafter] <;> exact h
  | work i => exact h.stepped (stepped_step persist.logged r i)
  | producersGone => exact h
  | stop => exact h
  | consumerGone =>
    rw [Recorder.handle]
    split <;> exact h

theorem Replayed.run {persist : Persist α σ} {s : σ} {r : Recorder α (σ × HandLog α)}
    (h : Replayed persist s r) (events : List (Event α)) :
    Replayed persist s (r.run persist.logged events) := by
  induction events generalizing r with
  | nil => exact h
  | cons e events ih => exact ih (h.handle e)

/-- The recorder after a stop, with its workers taking turns. -/
def stopped (persist : Persist α σ) (r : Recorder α σ) (turns : List Nat) : Recorder α σ :=
  run persist { r with stopping := true } (turns.map .work)

theorem stopped_concat (persist : Persist α σ) (r : Recorder α σ) (turns : List Nat) (i : Nat) :
    r.stopped persist (turns ++ [i]) = (r.stopped persist turns).step persist i := by
  simp only [stopped, run, List.map_append, List.foldl_append]
  rfl

theorem acceptedIn_work (persist : Persist α σ) (r : Recorder α σ) (turns : List Nat) :
    acceptedIn persist r (turns.map .work) = [] := by
  induction turns generalizing r with
  | nil => rfl
  | cons i turns ih => exact ih _

theorem droppedIn_work (persist : Persist α σ) (r : Recorder α σ) (turns : List Nat) :
    droppedIn persist r (turns.map .work) = [] := by
  induction turns generalizing r with
  | nil => rfl
  | cons i turns ih => exact ih _

/-- When the workers have ended after a stop, the store was handed all that was accepted before. -/
theorem handed_of_stopped (persist : Persist α σ) (queue : Queue α) (s : σ) (workers : Nat)
    {events : List (Event α)} (he : ∀ e ∈ events, e.isUsual = true) {turns : List Nat}
    {r : Recorder α (σ × HandLog α)}
    (hr : r = ((start queue (s, []) workers).run persist.logged events).stopped persist.logged
      turns) (hover : r.isOver = true) :
    (given persist queue s workers events).Perm (r.store.2.map Prod.fst) ∧
      r.persisted = HandLog.taken r.store.2 ∧ r.failed = HandLog.refused r.store.2 := by
  have hstopping :
      ((start queue (s, ([] : HandLog α)) workers).run persist.logged events).stopping = false := by
    refine stopping_run persist.logged fun e hmem heq => ?_
    have husual := he e hmem
    rw [heq] at husual
    cases husual
  -- What was accepted before the stop is due, and nothing is accepted after it.
  obtain ⟨_, hbefore⟩ := exists_account persist queue s workers events
  obtain ⟨taken, hafter⟩ := (hbefore.stop persist hstopping).run persist (turns.map .work)
  rw [acceptedIn_work, List.append_nil] at hafter
  subst hr
  obtain ⟨hsplit, hdue, hhanded⟩ := hafter.handed_of_isOver hover
  -- As all of it is due, nothing of it is late.
  have hgiven : given persist queue s workers events = taken := by
    have htaken : taken <+: given persist queue s workers events := by
      rw [hsplit]
      exact List.prefix_append _ _
    exact (htaken.eq_of_length_le hdue).symm
  exact ⟨hgiven ▸ hhanded.symm, hafter.persisted, hafter.failed⟩

/-- When the workers of a recorder have ended after a stop, in whatever order they took their turns,
all that was offered before the stop is accounted for. -/
theorem accounted_of_isOver (persist : Persist α σ) (capacity : Nat) (s : σ) (workers : Nat)
    {events : List (Event α)} (he : ∀ e ∈ events, e.isUsual = true) {turns : List Nat}
    {r : Recorder α σ}
    (hr : r = ((start (.empty capacity) s workers).run persist events).stopped persist turns)
    (hover : r.isOver = true) :
    ∃ handed dropped, Accounted persist s (events.filterMap Event.item?) handed dropped r := by
  let first : Recorder α (σ × HandLog α) := start (.empty capacity) (s, []) workers
  let before := first.run persist.logged events
  let after := before.stopped persist.logged turns
  have hforget : after.forget = r := by
    have hbefore : before.forget = (start (.empty capacity) s workers).run persist events :=
      forget_run persist first events
    rw [hr, stopped, ← hbefore]
    exact forget_run persist { before with stopping := true } (turns.map .work)
  have hended : after.isOver = true := by
    rw [← hforget] at hover
    exact hover
  obtain ⟨hhanded, hpersisted, hfailed⟩ :=
    handed_of_stopped persist (.empty capacity) s workers he (r := after) rfl hended
  -- Only a full queue drops, and nothing is offered after the stop.
  obtain ⟨hproducers, hconsumer, hdropped, hperm⟩ :=
    offered_run persist.logged (r := first) he rfl rfl
  have hturns : ∀ e ∈ turns.map (Event.work (α := α)), e.isUsual = true := by
    simp [Event.isUsual]
  obtain ⟨-, -, hkept, -⟩ :=
    offered_run persist.logged (r := { before with stopping := true }) hturns hproducers hconsumer
  rw [droppedIn_work] at hkept
  have hcount : after.queue.dropped = (droppedIn persist.logged first events).length :=
    (hkept.trans hdropped).trans (Nat.zero_add _)
  have hreplayed : Replayed persist s after :=
    (Replayed.run (r := first) rfl events).run (r := { before with stopping := true })
      (turns.map .work)
  refine ⟨after.store.2.map Prod.fst, droppedIn persist.logged first events, ?_, ?_, ?_⟩
  · exact hperm.trans (hhanded.append_right _)
  · rw [← hforget, ← hreplayed]
    rfl
  · rw [← hforget, ← hreplayed, ← hcount, ← hpersisted, ← hfailed]
    rfl

/-- The rounds of a stop are turns of the workers. -/
theorem exists_turns (persist : Persist α σ) (n : Nat) (r : Recorder α σ) :
    ∃ turns : List Nat, rounds persist n r = run persist r (turns.map .work) := by
  induction n generalizing r with
  | zero => exact ⟨[], rfl⟩
  | succ n ih =>
    obtain ⟨turns, hturns⟩ := ih ((List.range r.workers.length).foldl (step persist) r)
    refine ⟨List.range r.workers.length ++ turns, ?_⟩
    rw [rounds, hturns, List.map_append, run, run, List.foldl_append]
    simp only [List.foldl_map]
    rfl

/-- What was offered to a recorder before it was stopped is accounted for. -/
theorem accounted_stop (persist : Persist α σ) (capacity : Nat) (s : σ) (workers : Nat)
    {events : List (Event α)} (he : ∀ e ∈ events, e.isUsual = true) :
    ∃ handed dropped, Accounted persist s (events.filterMap Event.item?) handed dropped
      (((start (.empty capacity) s workers).run persist events).stop persist) := by
  let before := (start (.empty capacity) s workers).run persist events
  obtain ⟨turns, hturns⟩ := exists_turns persist before.enough { before with stopping := true }
  have hover := isOver_stop persist before
  obtain ⟨handed, dropped, hended⟩ :=
    accounted_of_isOver persist capacity s workers he (r := rounds persist before.enough
      { before with stopping := true }) hturns hover
  exact ⟨handed, dropped, hended.finish⟩

end Recorder

end PolicyProbe
