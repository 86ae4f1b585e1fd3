import PolicyProbe.Proofs.Lists
import PolicyProbe.Recorder

/-!
What becomes of the items of a recorder, whatever the order in which producers, workers and a stop
take their turns. What the queue accepted is at any time split in two, in the order in which it was
accepted: items that workers took, each of which is either held by one of them or was handed to the
store once, and items that are still queued (`Account`). So no item is doubled or tried again, and
none that was accepted while a worker went on is lost. A stop raises the number of items that have
to be taken before a worker ends.

The queue goes on taking items when the last worker has ended in front of it, until its receiving
end goes away. These late items are never handed to the store, and the receiving end takes them with
it: `Conserved.whole` says that nothing else is ever lost, and `late_item_lost` shows a run in which
one is.
-/
namespace PolicyProbe

/-- What a store was handed, with its answers. -/
abbrev HandLog (α : Type) := List (α × Except StorageError Unit)

/-- The same way to store, which also keeps what it was handed. -/
def Persist.logged {α σ : Type} (persist : Persist α σ) : Persist α (σ × HandLog α) :=
  fun a s => ((persist a s.1).1, (persist a s.1).2, s.2 ++ [(a, (persist a s.1).1)])

/-- The number of items that a store took. -/
def HandLog.taken {α : Type} (log : HandLog α) : Nat :=
  log.countP fun e => e.2.toOption.isSome

/-- The number of items that a store refused. -/
def HandLog.refused {α : Type} (log : HandLog α) : Nat :=
  log.countP fun e => !e.2.toOption.isSome

/-- The item that a worker holds. -/
def RecorderWorker.item {α : Type} : RecorderWorker α → List α
  | .holding a => [a]
  | _ => []

namespace Recorder

variable {α σ : Type}

/-- The items that workers hold. -/
def held (r : Recorder α σ) : List α := r.workers.flatMap RecorderWorker.item

/-- The item that is accepted in an event. -/
def acceptedBy (r : Recorder α σ) : Event α → List α
  | .push a => match (r.offer a).1 with
    | .ok _ => [a]
    | .error _ => []
  | _ => []

/-- The items that are accepted in the course of some events. -/
def acceptedIn (persist : Persist α σ) : Recorder α σ → List (Event α) → List α
  | _, [] => []
  | r, e :: events => r.acceptedBy e ++ acceptedIn persist (handle persist r e) events

/-- The item that comes late in an event: it is accepted when all workers have ended. -/
def lateBy (r : Recorder α σ) (e : Event α) : List α := if r.isOver then r.acceptedBy e else []

/-- The items that come late in the course of some events. -/
def lateIn (persist : Persist α σ) : Recorder α σ → List (Event α) → List α
  | _, [] => []
  | r, e :: events => r.lateBy e ++ lateIn persist (handle persist r e) events

/-- What goes away with the receiving end, of the items that come late. -/
def lost (r : Recorder α σ) (late : List α) : List α := if r.queue.consumer then [] else late

/-! ## What a step of a worker does -/

/-- What a step of a worker can do: nothing, a move between its places, taking an item, ending in
front of an empty queue, or handing its item to the store. -/
inductive Stepped (persist : Persist α σ) (r : Recorder α σ) (i : Nat) : Recorder α σ → Prop where
  | rest : Stepped persist r i r
  | turn {w w' : RecorderWorker α} (hw : r.workers[i]? = some w) (hne : w ≠ .ended)
      (hitem : w.item = []) (hne' : w' ≠ .ended) (hitem' : w'.item = []) :
      Stepped persist r i (r.move i w')
  | take {w : RecorderWorker α} {a : α} {rest : List α} (hw : r.workers[i]? = some w)
      (hne : w ≠ .ended) (hitem : w.item = []) (hitems : r.queue.items = a :: rest) :
      Stepped persist r i { r with
        queue := { r.queue with items := rest }, workers := r.workers.set i (.holding a) }
  | finish {w : RecorderWorker α} (hw : r.workers[i]? = some w) (hne : w ≠ .ended)
      (hitem : w.item = []) (hitems : r.queue.items = [])
      (hwhy : r.stopping = true ∨ r.queue.producers = false) :
      Stepped persist r i (r.move i .ended)
  | hand {a : α} (hw : r.workers[i]? = some (.holding a)) :
      Stepped persist r i (r.hand persist i a)

/-- A worker that looks for an item takes the oldest or goes on as it was told. -/
theorem stepped_take {persist : Persist α σ} {r : Recorder α σ} {i : Nat} {w w' : RecorderWorker α}
    (hw : r.workers[i]? = some w) (hne : w ≠ .ended) (hitem : w.item = [])
    (hrest : r.queue.items = [] → Stepped persist r i (r.move i w')) :
    Stepped persist r i (r.take i w') := by
  rw [Recorder.take, Queue.pop]
  cases hitems : r.queue.items with
  | nil => exact hrest hitems
  | cons a rest => exact .take hw hne hitem hitems

theorem stepped_step (persist : Persist α σ) (r : Recorder α σ) (i : Nat) :
    Stepped persist r i (step persist r i) := by
  unfold step
  split
  · exact .rest
  · exact .rest
  · rename_i hw
    split
    · exact .rest
    · split
      · rename_i hstop
        exact stepped_take hw nofun rfl fun hitems => .finish hw nofun rfl hitems (Or.inl hstop)
      · exact .turn hw nofun rfl nofun rfl
  · rename_i hw
    refine stepped_take hw nofun rfl fun hitems => ?_
    split
    · exact .turn hw nofun rfl nofun rfl
    · rename_i hgone
      exact .finish hw nofun rfl hitems (Or.inr (by simpa using hgone))
  · rename_i a hw
    exact .hand hw

/-! ## The account of accepted items -/

/-- The account of what a queue accepted: first the items that were taken, each of them held or
handed to the store, then those that are queued, then those that went away with the receiving end.
When the workers have ended, what was not taken is what came late. No worker ends before `due` items
were taken, or, as long as nobody stops the recorder, before the queue is empty for good. -/
structure Account (accepted taken late : List α) (due : Nat) (r : Recorder α (σ × HandLog α)) :
    Prop where
  split : accepted = taken ++ (r.queue.items ++ r.lost late)
  handed : taken.Perm (r.held ++ r.store.2.map Prod.fst)
  persisted : r.persisted = HandLog.taken r.store.2
  failed : r.failed = HandLog.refused r.store.2
  rest : r.isOver = true → r.queue.items ++ r.lost late = late
  early : late ≠ [] → r.isOver = true ∧ r.stopping = true
  bound : due ≤ accepted.length
  workers : r.workers ≠ []
  ended : .ended ∈ r.workers → due ≤ taken.length ∧
    (r.stopping = false → r.queue.items = [] ∧ r.queue.producers = false)

theorem isOver_iff {r : Recorder α σ} : r.isOver = true ↔ ∀ w ∈ r.workers, w = .ended := by
  rw [isOver, List.all_eq_true]
  constructor
  · intro h w hw
    have hthis := h w hw
    cases w with
    | ended => rfl
    | _ => exact nomatch hthis
  · intro h w hw
    rw [h w hw]

theorem isOver_eq_false {r : Recorder α σ} {w : RecorderWorker α} (hw : w ∈ r.workers)
    (hne : w ≠ .ended) : r.isOver = false :=
  Bool.eq_false_iff.mpr fun hover => hne (isOver_iff.mp hover w hw)

theorem lost_nil (r : Recorder α σ) : r.lost [] = [] := ite_self []

variable {accepted taken late : List α} {due : Nat} {persist : Persist α σ}
  {r : Recorder α (σ × HandLog α)}

/-- Nothing comes late as long as a worker goes on or nobody stops the recorder. -/
theorem Account.late_eq_nil (h : Account accepted taken late due r)
    (hwhy : r.isOver = false ∨ r.stopping = false) : late = [] := by
  refine Classical.byContradiction fun hlate => ?_
  obtain ⟨hover, hstop⟩ := h.early hlate
  rw [hover, hstop] at hwhy
  simp at hwhy

theorem Account.late_of_working (h : Account accepted taken late due r) {i : Nat}
    {w : RecorderWorker α} (hw : r.workers[i]? = some w) (hne : w ≠ .ended) : late = [] :=
  h.late_eq_nil (Or.inl (isOver_eq_false (List.mem_of_getElem? hw) hne))

/-- A recorder in which the last worker ended has one that did. -/
theorem Account.ended_of_isOver (h : Account accepted taken late due r) (hover : r.isOver = true) :
    .ended ∈ r.workers := by
  obtain ⟨w, hw⟩ := List.exists_mem_of_ne_nil _ h.workers
  exact isOver_iff.mp hover w hw ▸ hw

theorem held_move {i : Nat} {w w' : RecorderWorker α} (hw : r.workers[i]? = some w)
    (hitem : w.item = []) (hitem' : w'.item = []) : (r.move i w').held.Perm r.held := by
  have hset := flatMap_set hw w' RecorderWorker.item
  rwa [hitem, hitem', List.append_nil, List.append_nil] at hset

/-- A worker that was at another place than its end is not the one that ended before. -/
theorem ended_of_mem_set {ws : List (RecorderWorker α)} {i : Nat} {w' : RecorderWorker α}
    (hne : w' ≠ .ended) (h : .ended ∈ ws.set i w') : .ended ∈ ws := by
  rcases List.mem_or_eq_of_mem_set h with h | h
  · exact h
  · exact absurd h.symm hne

/-- A recorder in which a worker has gone on is not over. -/
theorem not_isOver_set {r r' : Recorder α σ} {i : Nat} {w w' : RecorderWorker α}
    (hw : r.workers[i]? = some w) (hset : r'.workers = r.workers.set i w') (hne' : w' ≠ .ended) :
    r'.isOver ≠ true := by
  have hmem : w' ∈ r'.workers := by
    rw [hset]
    exact mem_set_self hw w'
  exact Bool.eq_false_iff.mp (isOver_eq_false hmem hne')

theorem Account.turn (h : Account accepted taken late due r) {i : Nat} {w w' : RecorderWorker α}
    (hw : r.workers[i]? = some w) (hne : w ≠ .ended) (hitem : w.item = []) (hne' : w' ≠ .ended)
    (hitem' : w'.item = []) : Account accepted taken late due (r.move i w') where
  split := h.split
  handed := h.handed.trans ((held_move hw hitem hitem').symm.append_right _)
  persisted := h.persisted
  failed := h.failed
  rest := fun hover => absurd hover (not_isOver_set hw rfl hne')
  early := fun hlate => absurd (h.late_of_working hw hne) hlate
  bound := h.bound
  workers := set_ne_nil h.workers i w'
  ended := fun hmem => h.ended (ended_of_mem_set hne' hmem)

theorem Account.take (h : Account accepted taken late due r) {i : Nat} {w : RecorderWorker α}
    {a : α} {rest : List α} (hw : r.workers[i]? = some w) (hne : w ≠ .ended) (hitem : w.item = [])
    (hitems : r.queue.items = a :: rest) :
    Account accepted (taken ++ [a]) late due { r with
      queue := { r.queue with items := rest }, workers := r.workers.set i (.holding a) } where
  split := by
    rw [h.split, hitems, List.append_assoc]
    rfl
  handed := by
    have hset := flatMap_set hw (.holding a) RecorderWorker.item
    rw [hitem, List.append_nil] at hset
    calc List.Perm (taken ++ [a])
          (r.held ++ r.store.2.map Prod.fst ++ [a]) := h.handed.append_right [a]
      List.Perm _ (r.held ++ ([a] ++ r.store.2.map Prod.fst)) := by
        rw [List.append_assoc]
        exact List.perm_append_comm.append_left _
      List.Perm _ (r.held ++ [a] ++ r.store.2.map Prod.fst) := by
        rw [List.append_assoc]
      List.Perm _ _ := hset.symm.append_right _
  persisted := h.persisted
  failed := h.failed
  rest := fun hover => absurd hover (not_isOver_set hw rfl (by rintro ⟨⟩))
  early := fun hlate => absurd (h.late_of_working hw hne) hlate
  bound := h.bound
  workers := set_ne_nil h.workers i _
  ended := by
    intro hmem
    obtain ⟨hdue, hquiet⟩ := h.ended (ended_of_mem_set (by nofun) hmem)
    refine ⟨?_, fun hstop => ?_⟩
    · rw [List.length_append]
      omega
    · have hempty := (hquiet hstop).1
      rw [hitems] at hempty
      exact nomatch hempty

/-- A worker that ends in front of an empty queue leaves nothing that was accepted. -/
theorem Account.finish (h : Account accepted taken late due r) {i : Nat} {w : RecorderWorker α}
    (hw : r.workers[i]? = some w) (hne : w ≠ .ended) (hitem : w.item = [])
    (hitems : r.queue.items = []) (hwhy : r.stopping = true ∨ r.queue.producers = false) :
    Account accepted taken late due (r.move i .ended) := by
  obtain rfl : late = [] := h.late_of_working hw hne
  have hrest : r.queue.items ++ r.lost [] = [] := by rw [hitems, lost_nil, List.append_nil]
  constructor
  case split => exact h.split
  case handed => exact h.handed.trans ((held_move hw hitem rfl).symm.append_right _)
  case persisted => exact h.persisted
  case failed => exact h.failed
  case rest => exact fun _ => hrest
  case early => exact fun hlate => absurd rfl hlate
  case bound => exact h.bound
  case workers => exact set_ne_nil h.workers i _
  case ended =>
    intro _
    -- Nothing is queued and nothing lost, so all that is due was taken.
    have hall : accepted = taken := by rw [h.split, hrest, List.append_nil]
    have hbound := h.bound
    rw [hall] at hbound
    refine ⟨hbound, fun hstop => ⟨hitems, ?_⟩⟩
    rcases hwhy with hwhy | hwhy
    · rw [show (r.move i .ended).stopping = r.stopping from rfl, hwhy] at hstop
      exact Bool.noConfusion hstop
    · exact hwhy

theorem taken_append_ok (log : HandLog α) (a : α) (u : Unit) :
    HandLog.taken (log ++ [(a, .ok u)]) = HandLog.taken log + 1 ∧
      HandLog.refused (log ++ [(a, .ok u)]) = HandLog.refused log := by
  simp [HandLog.taken, HandLog.refused, Except.toOption]

theorem taken_append_error (log : HandLog α) (a : α) (e : StorageError) :
    HandLog.taken (log ++ [(a, .error e)]) = HandLog.taken log ∧
      HandLog.refused (log ++ [(a, .error e)]) = HandLog.refused log + 1 := by
  simp [HandLog.taken, HandLog.refused, Except.toOption]

theorem Account.hand (h : Account accepted taken late due r) {i : Nat} {a : α}
    (hw : r.workers[i]? = some (.holding a)) :
    Account accepted taken late due (r.hand persist.logged i a) := by
  have hset := flatMap_set hw .free RecorderWorker.item
  have hheld : (r.workers.flatMap RecorderWorker.item).Perm
      ((r.workers.set i .free).flatMap RecorderWorker.item ++ [a]) := by
    rw [show RecorderWorker.item (.free : RecorderWorker α) = [] from rfl, List.append_nil] at hset
    exact hset.symm
  have hhanded : ∀ answer, taken.Perm ((r.workers.set i .free).flatMap RecorderWorker.item ++
      (r.store.2 ++ [(a, answer)]).map Prod.fst) := by
    intro answer
    calc List.Perm taken (r.held ++ r.store.2.map Prod.fst) := h.handed
      List.Perm _ ((r.workers.set i .free).flatMap RecorderWorker.item ++ [a] ++
          r.store.2.map Prod.fst) := hheld.append_right _
      List.Perm _ ((r.workers.set i .free).flatMap RecorderWorker.item ++
          (r.store.2 ++ [(a, answer)]).map Prod.fst) := by
        rw [List.map_append, List.append_assoc]
        exact List.perm_append_comm.append_left _
  have hended : (.ended : RecorderWorker α) ∈ r.workers.set i .free → .ended ∈ r.workers :=
    ended_of_mem_set nofun
  have hover : ∀ {r' : Recorder α (σ × HandLog α)}, r'.workers = r.workers.set i .free →
      r'.isOver = true → r'.queue.items ++ r'.lost late = late :=
    fun hset hover => absurd hover (not_isOver_set hw hset (by rintro ⟨⟩))
  have hearly : ∀ {P : Prop}, late ≠ [] → P :=
    fun hlate => absurd (h.late_of_working hw (by rintro ⟨⟩)) hlate
  unfold Recorder.hand
  cases hp : persist a r.store.1 with
  | mk answer after =>
    have hlogged : persist.logged a r.store = (answer, after, r.store.2 ++ [(a, answer)]) := by
      rw [Persist.logged, hp]
    rw [hlogged]
    cases answer with
    | ok u =>
      obtain ⟨htaken, hrefused⟩ := taken_append_ok r.store.2 a u
      exact ⟨h.split, hhanded _, (congrArg (· + 1) h.persisted).trans htaken.symm,
        h.failed.trans hrefused.symm, hover rfl, hearly, h.bound, set_ne_nil h.workers i _,
        fun hmem => h.ended (hended hmem)⟩
    | error e =>
      obtain ⟨htaken, hrefused⟩ := taken_append_error r.store.2 a e
      exact ⟨h.split, hhanded _, h.persisted.trans htaken.symm,
        (congrArg (· + 1) h.failed).trans hrefused.symm, hover rfl, hearly, h.bound,
        set_ne_nil h.workers i _, fun hmem => h.ended (hended hmem)⟩

/-- A step of a worker keeps the account; at most one item goes over to the taken ones. -/
theorem Account.stepped (h : Account accepted taken late due r) {i : Nat}
    {r' : Recorder α (σ × HandLog α)} (hs : Stepped persist.logged r i r') :
    ∃ taken', Account accepted taken' late due r' := by
  cases hs with
  | rest => exact ⟨taken, h⟩
  | turn hw hne hitem hne' hitem' => exact ⟨taken, h.turn hw hne hitem hne' hitem'⟩
  | take hw hne hitem hitems => exact ⟨_, h.take hw hne hitem hitems⟩
  | finish hw hne hitem hitems hwhy => exact ⟨taken, h.finish hw hne hitem hitems hwhy⟩
  | hand hw => exact ⟨taken, h.hand hw⟩

/-- What an offer does: the item comes behind the others, or the queue keeps its items. -/
theorem offer_cases (r : Recorder α σ) (a : α) :
    (∃ u, (r.offer a).1 = .ok u ∧ r.queue.producers = true ∧ r.queue.consumer = true ∧
      (r.offer a).2 = { r with queue := { r.queue with items := r.queue.items ++ [a] } }) ∨
    (∃ e dropped, (r.offer a).1 = .error e ∧
      (r.offer a).2 = { r with queue := { r.queue with dropped } }) := by
  unfold offer
  split
  · rename_i hproducers
    unfold Queue.push
    split
    · exact Or.inr ⟨_, _, rfl, rfl⟩
    · rename_i hconsumer
      split
      · exact Or.inr ⟨_, _, rfl, rfl⟩
      · exact Or.inl ⟨(), rfl, hproducers, by simpa using hconsumer, rfl⟩
  · exact Or.inr ⟨_, r.queue.dropped, rfl, rfl⟩

/-- An item that is accepted when all workers have ended comes after a stop: without one they ended
because there was no producer left. -/
theorem Account.stopping_of_late (h : Account accepted taken late due r) (hover : r.isOver = true)
    (hproducers : r.queue.producers = true) : r.stopping = true := by
  refine Bool.not_eq_false _ ▸ fun hstop => ?_
  have hgone := ((h.ended (h.ended_of_isOver hover)).2 hstop).2
  rw [hproducers] at hgone
  exact Bool.noConfusion hgone

/-- An item that the queue takes is late when all workers have ended. -/
theorem Account.accept (h : Account accepted taken late due r) (a : α)
    (hproducers : r.queue.producers = true) (hconsumer : r.queue.consumer = true) :
    Account (accepted ++ [a]) taken (late ++ if r.isOver then [a] else []) due
      { r with queue := { r.queue with items := r.queue.items ++ [a] } } := by
  have hlost : ∀ late, r.lost late = [] := fun _ => if_pos hconsumer
  have hlost' : ∀ late, lost { r with queue := { r.queue with items := r.queue.items ++ [a] } }
      late = [] := fun _ => if_pos hconsumer
  constructor
  case split =>
    rw [h.split, hlost, hlost']
    simp
  case handed => exact h.handed
  case persisted => exact h.persisted
  case failed => exact h.failed
  case rest =>
    intro hover
    have hover' : r.isOver = true := hover
    have hrest := h.rest hover'
    rw [hlost, List.append_nil] at hrest
    rw [hlost', List.append_nil, hrest, if_pos hover']
  case early =>
    intro hlate
    cases hover : r.isOver with
    | true => exact ⟨hover, h.stopping_of_late hover hproducers⟩
    | false =>
      rw [h.late_eq_nil (Or.inl hover), hover] at hlate
      exact absurd rfl hlate
  case bound =>
    rw [List.length_append]
    exact Nat.le_add_right_of_le h.bound
  case workers => exact h.workers
  case ended =>
    -- A worker that ended without a stop saw that there are no producers.
    intro hmem
    obtain ⟨hdue, hquiet⟩ := h.ended hmem
    refine ⟨hdue, fun hstop => ?_⟩
    have hgone := (hquiet hstop).2
    rw [hproducers] at hgone
    exact Bool.noConfusion hgone

theorem Account.push (h : Account accepted taken late due r) (a : α) :
    Account (accepted ++ r.acceptedBy (.push a)) taken (late ++ r.lateBy (.push a)) due
      (r.offer a).2 := by
  rcases offer_cases r a with ⟨u, hok, hproducers, hconsumer, hafter⟩ | ⟨e, n, herror, hafter⟩
  · have haccepted : r.acceptedBy (.push a) = [a] := by rw [acceptedBy, hok]
    rw [hafter, lateBy, haccepted]
    exact h.accept a hproducers hconsumer
  · have hrefused : r.acceptedBy (.push a) = [] := by rw [acceptedBy, herror]
    rw [hafter, lateBy, hrefused, ite_self, List.append_nil, List.append_nil]
    exact ⟨h.split, h.handed, h.persisted, h.failed, h.rest, h.early, h.bound, h.workers, h.ended⟩

/-- What is still queued when the last worker ended goes away with the receiving end: it came
late. -/
theorem Account.consumerGone (h : Account accepted taken late due r) (hover : r.isOver = true) :
    Account accepted taken late due { r with queue := r.queue.dropConsumer } where
  split := by
    rw [h.split, h.rest hover]
    rfl
  handed := h.handed
  persisted := h.persisted
  failed := h.failed
  rest := fun _ => rfl
  early := h.early
  bound := h.bound
  workers := h.workers
  ended := fun hmem => ⟨(h.ended hmem).1, fun hstop => ⟨rfl, ((h.ended hmem).2 hstop).2⟩⟩

/-- An event in which nothing is accepted adds nothing to the account. -/
theorem Account.quiet {r' : Recorder α (σ × HandLog α)} (h : Account accepted taken late due r')
    {e : Event α} (he : r.acceptedBy e = []) :
    Account (accepted ++ r.acceptedBy e) taken (late ++ r.lateBy e) due r' := by
  rwa [lateBy, he, ite_self, List.append_nil, List.append_nil]

variable (persist)

/-- Every event keeps the account, with the item that it lets in. -/
theorem Account.handle (h : Account accepted taken late due r) (e : Event α) :
    ∃ taken', Account (accepted ++ r.acceptedBy e) taken' (late ++ r.lateBy e) due
      (r.handle persist.logged e) := by
  cases e with
  | push a => exact ⟨taken, h.push a⟩
  | work i =>
    obtain ⟨taken', h'⟩ := h.stepped (stepped_step persist.logged r i)
    exact ⟨taken', h'.quiet rfl⟩
  | producersGone =>
    have hgone : Account accepted taken late due { r with queue := r.queue.dropProducers } :=
      ⟨h.split, h.handed, h.persisted, h.failed, h.rest, h.early, h.bound, h.workers,
        fun hmem => ⟨(h.ended hmem).1, fun hstop => ⟨((h.ended hmem).2 hstop).1, rfl⟩⟩⟩
    exact ⟨taken, hgone.quiet rfl⟩
  | stop =>
    have hstopped : Account accepted taken late due { r with stopping := true } :=
      ⟨h.split, h.handed, h.persisted, h.failed, h.rest,
        fun hlate => ⟨(h.early hlate).1, rfl⟩, h.bound, h.workers,
        fun hmem => ⟨(h.ended hmem).1, fun hstop => Bool.noConfusion hstop⟩⟩
    exact ⟨taken, hstopped.quiet rfl⟩
  | consumerGone =>
    refine ⟨taken, ?_⟩
    rw [Recorder.handle]
    split
    · rename_i hover
      exact (h.consumerGone hover).quiet rfl
    · exact h.quiet rfl

/-- Every run keeps the account. -/
theorem Account.run (h : Account accepted taken late due r) (events : List (Event α)) :
    ∃ taken', Account (accepted ++ acceptedIn persist.logged r events) taken'
      (late ++ lateIn persist.logged r events) due (r.run persist.logged events) := by
  -- The account is general: every event changes what was accepted, what was taken and what is late.
  induction events generalizing accepted taken late r with
  | nil => exact ⟨taken, by rw [acceptedIn, lateIn, List.append_nil, List.append_nil]; exact h⟩
  | cons e events ih =>
    obtain ⟨taken', h'⟩ := h.handle persist e
    obtain ⟨taken'', h''⟩ := ih h'
    refine ⟨taken'', ?_⟩
    rw [acceptedIn, lateIn, ← List.append_assoc, ← List.append_assoc]
    exact h''

/-- The first stop makes everything due that was accepted before it. -/
theorem Account.stop (h : Account accepted taken late due r) (hstop : r.stopping = false) :
    Account accepted taken late accepted.length (r.handle persist.logged .stop) := by
  obtain rfl : late = [] := h.late_eq_nil (Or.inr hstop)
  constructor
  case split => exact h.split
  case handed => exact h.handed
  case persisted => exact h.persisted
  case failed => exact h.failed
  case rest => exact h.rest
  case early => exact fun hlate => absurd rfl hlate
  case bound => exact Nat.le_refl _
  case workers => exact h.workers
  case ended =>
    intro hmem
    have hall : accepted = taken := by
      rw [h.split, ((h.ended hmem).2 hstop).1, lost_nil, List.append_nil, List.append_nil]
    exact ⟨Nat.le_of_eq (congrArg List.length hall), fun hfalse => Bool.noConfusion hfalse⟩

/-! ## Whole runs -/

/-- The account of a recorder that starts on a queue. -/
theorem account_start (queue : Queue α) (s : σ) (workers : Nat) :
    Account queue.items [] [] 0 (start queue (s, ([] : HandLog α)) workers) where
  split := by
    rw [lost_nil, List.nil_append, List.append_nil]
    rfl
  handed := by
    have hheld : (start queue (s, ([] : HandLog α)) workers).held = [] := by
      rw [held, start, List.flatMap_eq_nil_iff]
      intro w hw
      rw [(List.mem_replicate.mp hw).2]
      rfl
    rw [hheld]
    exact List.Perm.refl _
  persisted := rfl
  failed := rfl
  rest := by
    intro hover
    have hfree : .free ∈ (start queue (s, ([] : HandLog α)) workers).workers := by
      refine List.mem_replicate.mpr ⟨?_, rfl⟩
      omega
    cases isOver_iff.mp hover .free hfree
  early := fun h => absurd rfl h
  bound := Nat.zero_le _
  workers := by
    intro h
    have hlen := congrArg List.length h
    rw [start, List.length_replicate, List.length_nil] at hlen
    omega
  ended := by
    intro hmem
    exact nomatch (List.mem_replicate.mp hmem).2

theorem stopping_stepped {persist : Persist α σ} {r r' : Recorder α σ} {i : Nat}
    (h : Stepped persist r i r') : r'.stopping = r.stopping := by
  cases h with
  | hand hw =>
    unfold Recorder.hand
    dsimp only
    split <;> rfl
  | _ => rfl

theorem stopping_handle (persist : Persist α σ) (r : Recorder α σ) {e : Event α}
    (he : e ≠ .stop) : (r.handle persist e).stopping = r.stopping := by
  cases e with
  | push a =>
    rcases offer_cases r a with ⟨u, -, -, -, hafter⟩ | ⟨e, n, -, hafter⟩
    · rw [handle, hafter]
    · rw [handle, hafter]
  | work i => exact stopping_stepped (stepped_step persist r i)
  | producersGone => rfl
  | stop => exact absurd rfl he
  | consumerGone =>
    rw [handle]
    split <;> rfl

theorem stopping_run (persist : Persist α σ) {r : Recorder α σ} {events : List (Event α)}
    (he : ∀ e ∈ events, e ≠ .stop) : (r.run persist events).stopping = r.stopping := by
  induction events generalizing r with
  | nil => rfl
  | cons e events ih =>
    have hrest := ih (r := r.handle persist e) fun e' h => he e' (List.mem_cons_of_mem e h)
    exact hrest.trans (stopping_handle persist r (he e List.mem_cons_self))

theorem acceptedIn_append (persist : Persist α σ) (r : Recorder α σ) (es fs : List (Event α)) :
    acceptedIn persist r (es ++ fs) =
      acceptedIn persist r es ++ acceptedIn persist (r.run persist es) fs := by
  induction es generalizing r with
  | nil => rfl
  | cons e es ih =>
    rw [List.cons_append, acceptedIn, acceptedIn, ih, List.append_assoc]
    rfl

theorem lateIn_append (persist : Persist α σ) (r : Recorder α σ) (es fs : List (Event α)) :
    lateIn persist r (es ++ fs) = lateIn persist r es ++ lateIn persist (r.run persist es) fs := by
  induction es generalizing r with
  | nil => rfl
  | cons e es ih =>
    rw [List.cons_append, lateIn, lateIn, ih, List.append_assoc]
    rfl

theorem held_of_isOver {r : Recorder α σ} (h : r.isOver = true) : r.held = [] := by
  rw [held, List.flatMap_eq_nil_iff]
  intro w hw
  rw [isOver_iff.mp h w hw]
  rfl

/-- The recorder without the log of what it handed to its store. -/
def forget (r : Recorder α (σ × HandLog α)) : Recorder α σ :=
  ⟨r.queue, r.workers, r.stopping, r.persisted, r.failed, r.store.1⟩

theorem forget_take (r : Recorder α (σ × HandLog α)) (i : Nat) (w : RecorderWorker α) :
    (r.take i w).forget = r.forget.take i w := by
  unfold take
  rw [show r.forget.queue = r.queue from rfl]
  split <;> rfl

theorem forget_step (persist : Persist α σ) (r : Recorder α (σ × HandLog α)) (i : Nat) :
    (step persist.logged r i).forget = step persist r.forget i := by
  unfold step
  rw [show r.forget.workers = r.workers from rfl]
  split
  · rfl
  · rfl
  · rw [show r.forget.occupied = r.occupied from rfl, show r.forget.stopping = r.stopping from rfl]
    split
    · rfl
    · split
      · exact forget_take r i .ended
      · rfl
  · exact forget_take r i _
  · rename_i a _
    unfold hand Persist.logged
    rw [show r.forget.store = r.store.1 from rfl]
    cases persist a r.store.1 with
    | mk answer after => cases answer <;> rfl

theorem forget_handle (persist : Persist α σ) (r : Recorder α (σ × HandLog α)) (e : Event α) :
    (r.handle persist.logged e).forget = r.forget.handle persist e := by
  cases e with
  | push a =>
    show (r.offer a).2.forget = (r.forget.offer a).2
    unfold offer
    rw [show r.forget.queue = r.queue from rfl]
    split <;> rfl
  | work i => exact forget_step persist r i
  | producersGone => rfl
  | stop => rfl
  | consumerGone =>
    rw [handle, handle, show r.forget.isOver = r.isOver from rfl]
    split <;> rfl

/-- Keeping the log changes nothing. -/
theorem forget_run (persist : Persist α σ) (r : Recorder α (σ × HandLog α))
    (events : List (Event α)) :
    (r.run persist.logged events).forget = r.forget.run persist events := by
  induction events generalizing r with
  | nil => rfl
  | cons e events ih =>
    have hrest := ih (r.handle persist.logged e)
    rw [forget_handle] at hrest
    exact hrest

/-- A recorder after some events, with what it handed to its store. -/
def after (persist : Persist α σ) (queue : Queue α) (s : σ) (workers : Nat)
    (events : List (Event α)) : Recorder α (σ × HandLog α) :=
  (start queue (s, []) workers).run persist.logged events

/-- The items that a recorder was given by some events, those that were queued at its start first.
-/
def given (persist : Persist α σ) (queue : Queue α) (s : σ) (workers : Nat)
    (events : List (Event α)) : List α :=
  queue.items ++ acceptedIn persist.logged (start queue (s, []) workers) events

/-- The items that come late in the course of some events. -/
def tardy (persist : Persist α σ) (queue : Queue α) (s : σ) (workers : Nat)
    (events : List (Event α)) : List α :=
  lateIn persist.logged (start queue (s, []) workers) events

/-- What became of the items that a recorder was given: punctual ones, which were accepted while a
worker went on, and then late ones. Each of them is queued, held by a worker or was handed to the
store, once, or it came late and went away with the receiving end; so all are there exactly as long
as the receiving end is, or when none came late. Items come late only after a stop. When all workers
have ended, the store was handed the punctual items and nothing else. The counters say how often it
took one and how often it refused one. -/
structure Conserved (punctual late : List α) (r : Recorder α (σ × HandLog α)) : Prop where
  items : (punctual ++ late).Perm
    (r.queue.items ++ (r.held ++ r.store.2.map Prod.fst ++ r.lost late))
  whole : (punctual ++ late).Perm (r.queue.items ++ (r.held ++ r.store.2.map Prod.fst)) ↔
    r.queue.consumer = true ∨ late = []
  tardy : late ≠ [] → r.isOver = true ∧ r.stopping = true
  handed : r.isOver = true → (r.store.2.map Prod.fst).Perm punctual
  persisted : r.persisted = HandLog.taken r.store.2
  failed : r.failed = HandLog.refused r.store.2

theorem lost_eq_nil_iff {r : Recorder α σ} {late : List α} :
    r.lost late = [] ↔ r.queue.consumer = true ∨ late = [] := by
  rw [lost]
  cases r.queue.consumer <;> simp

theorem Account.perm (h : Account accepted taken late due r) :
    accepted.Perm (r.queue.items ++ (r.held ++ r.store.2.map Prod.fst ++ r.lost late)) := by
  rw [h.split]
  calc List.Perm (taken ++ (r.queue.items ++ r.lost late))
        (r.held ++ r.store.2.map Prod.fst ++ (r.queue.items ++ r.lost late)) :=
          h.handed.append_right _
    List.Perm _ (r.queue.items ++ (r.held ++ r.store.2.map Prod.fst ++ r.lost late)) :=
      List.perm_append_comm_assoc _ _ _

/-- When all workers have ended, the store was handed what they took, which is all but what came
late, among it all that was due. -/
theorem Account.handed_of_isOver (h : Account accepted taken late due r) (hover : r.isOver = true) :
    accepted = taken ++ late ∧ due ≤ taken.length ∧ (r.store.2.map Prod.fst).Perm taken := by
  have hsplit := h.split
  rw [h.rest hover] at hsplit
  have hhanded := h.handed
  rw [held_of_isOver hover, List.nil_append] at hhanded
  exact ⟨hsplit, (h.ended (h.ended_of_isOver hover)).1, hhanded.symm⟩

/-- The punctual items are all that were accepted, as long as none comes late. -/
theorem Account.exists_punctual (h : Account accepted taken late due r) :
    ∃ punctual, accepted = punctual ++ late ∧ (r.isOver = true → punctual = taken) ∧
      due ≤ punctual.length := by
  cases hover : r.isOver with
  | true =>
    obtain ⟨hsplit, hdue, -⟩ := h.handed_of_isOver hover
    exact ⟨taken, hsplit, fun _ => rfl, hdue⟩
  | false =>
    refine ⟨accepted, ?_, fun hfalse => Bool.noConfusion hfalse, h.bound⟩
    rw [h.late_eq_nil (Or.inl hover), List.append_nil]

theorem Account.conserved (h : Account accepted taken late due r) {punctual : List α}
    (hpunctual : accepted = punctual ++ late) (htaken : r.isOver = true → punctual = taken) :
    Conserved punctual late r where
  items := hpunctual ▸ h.perm
  whole := by
    rw [← hpunctual, ← lost_eq_nil_iff]
    constructor
    · -- Both sides have the same length, so nothing is lost.
      intro hwhole
      have hlength := hwhole.length_eq
      rw [h.perm.length_eq] at hlength
      simp only [List.length_append] at hlength
      exact List.length_eq_zero_iff.mp (by omega)
    · intro hlost
      have hperm := h.perm
      rwa [hlost, List.append_nil] at hperm
  tardy := h.early
  handed hover := by
    obtain ⟨-, -, hhanded⟩ := h.handed_of_isOver hover
    rwa [htaken hover]
  persisted := h.persisted
  failed := h.failed

theorem exists_account (persist : Persist α σ) (queue : Queue α) (s : σ) (workers : Nat)
    (events : List (Event α)) :
    ∃ taken, Account (given persist queue s workers events) taken
      (tardy persist queue s workers events) 0 (after persist queue s workers events) :=
  (account_start queue s workers).run persist events

/-- When the recorder is stopped for the first time, all that it was given is due. -/
theorem exists_account_due (persist : Persist α σ) (queue : Queue α) (s : σ) (workers : Nat)
    {before : List (Event α)} (hbefore : ∀ e ∈ before, e ≠ .stop) (later : List (Event α)) :
    ∃ taken, Account (given persist queue s workers (before ++ .stop :: later)) taken
      (tardy persist queue s workers (before ++ .stop :: later))
      (given persist queue s workers before).length
      (after persist queue s workers (before ++ .stop :: later)) := by
  obtain ⟨_, hfirst⟩ := exists_account persist queue s workers before
  have hstop := (stopping_run persist.logged hbefore).trans
    (show (start queue (s, ([] : HandLog α)) workers).stopping = false from rfl)
  obtain ⟨taken, hlater⟩ := (hfirst.stop persist hstop).run persist later
  refine ⟨taken, ?_⟩
  have hafter : after persist queue s workers (before ++ .stop :: later) =
      ((after persist queue s workers before).handle persist.logged .stop).run persist.logged
        later := List.foldl_append
  have hgiven : given persist queue s workers (before ++ .stop :: later) =
      given persist queue s workers before ++ acceptedIn persist.logged
        ((after persist queue s workers before).handle persist.logged .stop) later := by
    rw [given, acceptedIn_append, given, List.append_assoc]
    rfl
  have htardy : tardy persist queue s workers (before ++ .stop :: later) =
      tardy persist queue s workers before ++ lateIn persist.logged
        ((after persist queue s workers before).handle persist.logged .stop) later := by
    have hquiet : lateBy (after persist queue s workers before) .stop = [] := ite_self []
    rw [tardy, lateIn_append, lateIn]
    exact congrArg (tardy persist queue s workers before ++ ·)
      (congrArg (· ++ lateIn persist.logged _ later) hquiet)
  rwa [hafter, hgiven, htardy]

/-- In every run of a recorder the punctual items are conserved, and so are the late ones as long as
the receiving end is there; what was accepted before the first stop is punctual. The log that is
kept of the store changes nothing. -/
theorem conservation (persist : Persist α σ) (queue : Queue α) (s : σ) (workers : Nat)
    (events : List (Event α)) :
    (after persist queue s workers events).forget = (start queue s workers).run persist events ∧
    ∃ punctual, given persist queue s workers events =
        punctual ++ tardy persist queue s workers events ∧
      Conserved punctual (tardy persist queue s workers events)
        (after persist queue s workers events) ∧
      ∀ before later, events = before ++ .stop :: later → (∀ e ∈ before, e ≠ .stop) →
        given persist queue s workers before <+: punctual := by
  refine ⟨forget_run persist _ events, ?_⟩
  obtain ⟨taken, h⟩ := exists_account persist queue s workers events
  obtain ⟨punctual, hpunctual, htaken, -⟩ := h.exists_punctual
  refine ⟨punctual, hpunctual, h.conserved hpunctual htaken, ?_⟩
  rintro before later rfl hbefore
  obtain ⟨_, hlater⟩ := exists_account_due persist queue s workers hbefore later
  obtain ⟨punctual', hpunctual', -, hdue⟩ := hlater.exists_punctual
  obtain rfl : punctual' = punctual :=
    List.append_cancel_right (hpunctual'.symm.trans hpunctual)
  have hgiven : given persist queue s workers before <+:
      given persist queue s workers (before ++ .stop :: later) := by
    rw [given, given, acceptedIn_append, ← List.append_assoc]
    exact List.prefix_append _ _
  rw [hpunctual] at hgiven
  exact List.prefix_of_prefix_length_le hgiven (List.prefix_append _ _) hdue

/-- A store that refuses one item. -/
def refusesTwo : Persist Nat Unit := fun a s => (if a = 2 then .error .writeFailed else .ok (), s)

/-- A run of one worker in which an item comes when the worker has ended. -/
def lateRun : List (Event Nat) :=
  [.push 1, .push 2, .stop, .work 0, .work 0, .work 0, .work 0, .work 0, .push 3, .consumerGone]

/-- In that run an item that was accepted is lost: the account that has no place for late items does
not hold of it. -/
theorem late_item_lost :
    given refusesTwo (.empty 4) () 1 lateRun = [1, 2, 3] ∧
      (after refusesTwo (.empty 4) () 1 lateRun).queue.items = [] ∧
      (after refusesTwo (.empty 4) () 1 lateRun).held = [] ∧
      (after refusesTwo (.empty 4) () 1 lateRun).store.2.map Prod.fst = [1, 2] ∧
      ¬(given refusesTwo (.empty 4) () 1 lateRun).Perm
        ((after refusesTwo (.empty 4) () 1 lateRun).queue.items ++
          ((after refusesTwo (.empty 4) () 1 lateRun).held ++
            (after refusesTwo (.empty 4) () 1 lateRun).store.2.map Prod.fst)) := by
  decide

theorem conservation_lateRun :
    (after refusesTwo (.empty 4) () 1 lateRun).isOver = true ∧
      (after refusesTwo (.empty 4) () 1 lateRun).stopping = true ∧
      tardy refusesTwo (.empty 4) () 1 lateRun = [3] ∧
      ∃ punctual, [1, 2, 3] = punctual ++ [3] ∧
        Conserved punctual [3] (after refusesTwo (.empty 4) () 1 lateRun) ∧
        [1, 2] <+: punctual := by
  obtain ⟨-, punctual, hgiven, hconserved, hstop⟩ :=
    conservation refusesTwo (.empty 4) () 1 lateRun
  exact ⟨by decide, by decide, by decide, punctual, hgiven, hconserved,
    hstop [.push 1, .push 2] _ rfl (by simp)⟩

end Recorder

end PolicyProbe
