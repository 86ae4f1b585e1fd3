import PolicyProbe.Manager.Calls
import PolicyProbe.Proofs.Deployment
import PolicyProbe.Proofs.Lists
import PolicyProbe.Proofs.OrderedMap

/-!
Where the live workers of the managers are while calls are in progress. A worker that runs is
registered under its key, or a call is stopping it, or the call that opened it is about to register
it (`Kept.placed`). A start that has the turn of its manager relies on what it found under its key
(`PhaseOk`): a key that it found free is free until it has registered, for other starts of the
manager wait, and stops only take workers out.
-/
namespace PolicyProbe

/-! ## Registries -/

namespace WorkerKey

variable {σ η : Type}

theorem registered?_erase_self (key : WorkerKey) (d : Deployment σ η) :
    key.registered? (key.erase d) = none := by
  cases key with
  | server key => exact OrderedMap.find?_erase_self key d.servers
  | client scope => exact OrderedMap.find?_erase_self scope d.clients

theorem registered?_erase_of_ne {key k : WorkerKey} (h : k ≠ key) (d : Deployment σ η) :
    k.registered? (key.erase d) = k.registered? d := by
  cases key with
  | server key => cases k with
    | server k =>
      exact OrderedMap.find?_erase_of_ne (fun heq => h (congrArg WorkerKey.server heq)) d.servers
    | client scope => rfl
  | client scope => cases k with
    | server k => rfl
    | client s =>
      exact OrderedMap.find?_erase_of_ne (fun heq => h (congrArg WorkerKey.client heq)) d.clients

theorem erase_of_free {key : WorkerKey} {d : Deployment σ η} (h : key.registered? d = none) :
    key.erase d = d := by
  cases key with
  | server key => rw [erase, OrderedMap.erase_of_find?_none h]
  | client scope => rw [erase, OrderedMap.erase_of_find?_none h]

/-- The deployment with a worker registered under a key. -/
def put (key : WorkerKey) (w : Nat) (d : Deployment σ η) : Deployment σ η :=
  match key with
  | .server key => { d with servers := d.servers.insert key w }
  | .client scope => { d with clients := d.clients.insert scope w }

theorem registered?_put_self (key : WorkerKey) (w : Nat) (d : Deployment σ η) :
    key.registered? (key.put w d) = some w := by
  cases key with
  | server key => exact OrderedMap.find?_insert_self key w d.servers
  | client scope => exact OrderedMap.find?_insert_self scope w d.clients

theorem registered?_put_of_ne {key k : WorkerKey} (h : k ≠ key) (w : Nat) (d : Deployment σ η) :
    k.registered? (key.put w d) = k.registered? d := by
  cases key with
  | server key => cases k with
    | server k =>
      exact OrderedMap.find?_insert_of_ne (fun heq => h (congrArg WorkerKey.server heq)) w d.servers
    | client scope => rfl
  | client scope => cases k with
    | server k => rfl
    | client s =>
      exact OrderedMap.find?_insert_of_ne (fun heq => h (congrArg WorkerKey.client heq)) w d.clients

theorem registered?_congr {d d' : Deployment σ η} (hservers : d'.servers = d.servers)
    (hclients : d'.clients = d.clients) (key : WorkerKey) :
    key.registered? d' = key.registered? d := by
  cases key with
  | server key => rw [registered?, registered?, hservers]
  | client scope => rw [registered?, registered?, hclients]

theorem registered?_keeps {d d' : Deployment σ η} (h : d.Keeps d') (key : WorkerKey) :
    key.registered? d' = key.registered? d :=
  registered?_congr h.servers h.clients key

theorem workers_erase (key : WorkerKey) (d : Deployment σ η) :
    (key.erase d).workers = d.workers := by
  cases key <;> rfl

theorem workers_put (key : WorkerKey) (w : Nat) (d : Deployment σ η) :
    (key.put w d).workers = d.workers := by
  cases key <;> rfl

end WorkerKey

namespace WorkerStart

variable {σ η : Type}

theorem keeps_discard (s : WorkerStart) (w : Nat) (d : Deployment σ η) :
    (s.key.erase d).Keeps (s.discard w d) := by
  cases s <;> exact ⟨rfl, rfl, rfl⟩

/-- Starts under one key are of one manager. -/
theorem sameManager_of_key {s t : WorkerStart} (h : s.key = t.key) : s.sameManager t = true := by
  cases s with
  | server s _ _ _ => cases t with
    | server t _ _ _ =>
      have hname : s.name = t.name := congrArg ServerKey.scope (WorkerKey.server.inj h)
      simp [sameManager, hname]
    | client t _ => exact nomatch h
  | client s _ => cases t with
    | server t _ _ _ => exact nomatch h
    | client t _ =>
      have hname : s.name = t.name := WorkerKey.client.inj h
      simp [sameManager, hname]

theorem sameManager_symm (s t : WorkerStart) : s.sameManager t = t.sameManager s := by
  cases s <;> cases t <;> simp [sameManager, Bool.beq_comm]

end WorkerStart

namespace Managers

variable {σ η : Type}

/-! ## The invariant -/

/-- What is true of the registries while a call is in a phase. -/
def PhaseOk (d : Deployment σ η) (opened : List (Nat × WorkerKey)) : CallPhase → Prop
  | .checking s w => s.key.registered? d = none ∨ s.key.registered? d = some w
  | .reading s => s.key.registered? d = none
  | .opening s _ => s.key.registered? d = none
  | .registering s w => s.key.registered? d = none ∧ (w, s.key) ∈ opened
  | _ => True

/-- A live worker has its place: its registry, a call that stops it, or the call that registers it.
-/
structure Kept (m : Managers σ η) : Prop where
  distinct : (m.opened.map Prod.fst).Nodup
  numbered : ∀ e ∈ m.opened, e.1 < m.deployment.workers.next
  employed : ∀ w, m.deployment.workers.isRunning w = true → ∃ key, (w, key) ∈ m.opened
  registered : ∀ key w, WorkerKey.registered? key m.deployment = some w → (w, key) ∈ m.opened
  placed : ∀ w key, (w, key) ∈ m.opened → m.deployment.workers.isRunning w = true →
    key.registered? m.deployment = some w ∨ (∃ p ∈ m.calls, p.stopping? = some w) ∨
      ∃ p ∈ m.calls, p.opened? = some (w, key)
  turns : ∀ (i j : Nat) (p q : CallPhase) (s t : WorkerStart), m.calls[i]? = some p →
    m.calls[j]? = some q → p.turn? = some s → q.turn? = some t → s.sameManager t = true → i = j
  phases : ∀ p ∈ m.calls, PhaseOk m.deployment m.opened p

theorem kept_fresh (state : σ) (host : η) (outlet : Outlet) :
    Kept ⟨.fresh state host outlet, [], []⟩ where
  distinct := List.nodup_nil
  numbered _ he := absurd he List.not_mem_nil
  employed _ hw := Bool.noConfusion hw
  registered := by
    intro key w hw
    cases key <;> exact nomatch hw
  placed _ _ he := absurd he List.not_mem_nil
  turns _ _ _ _ _ _ hp := by simp at hp
  phases _ hp := absurd hp List.not_mem_nil

theorem phaseOk_of_turn? {p : CallPhase} (h : p.turn? = none) (d : Deployment σ η)
    (opened : List (Nat × WorkerKey)) : PhaseOk d opened p := by
  cases p <;> trivial

theorem opened?_of_turn? {p : CallPhase} (h : p.turn? = none) : p.opened? = none := by
  cases p <;> first | rfl | exact nomatch h

theorem stopping?_of_handle? {p : CallPhase} {w : Nat} (h : p.handle? = some w) :
    p.stopping? = some w := by
  cases p <;> first | exact h | exact nomatch h

/-! ## Taking workers out -/

/-- Workers at most end, and registered ones are at most taken out. -/
structure Shrinks (d d' : Deployment σ η) : Prop where
  next : d.workers.next ≤ d'.workers.next
  running : ∀ w, d'.workers.isRunning w = true → d.workers.isRunning w = true
  registered : ∀ key w, WorkerKey.registered? key d' = some w → WorkerKey.registered? key d = some w

theorem Shrinks.refl (d : Deployment σ η) : Shrinks d d :=
  ⟨Nat.le_refl _, fun _ hw => hw, fun _ _ hw => hw⟩

theorem Shrinks.trans {d d' d'' : Deployment σ η} (h : Shrinks d d') (h' : Shrinks d' d'') :
    Shrinks d d'' where
  next := Nat.le_trans h.next h'.next
  running w hw := h.running w (h'.running w hw)
  registered key w hw := h.registered key w (h'.registered key w hw)

theorem shrinks_of_keeps {d d' : Deployment σ η} (h : d.Keeps d') : Shrinks d d' where
  next := Nat.le_of_eq (by rw [h.workers])
  running w hw := by rwa [h.workers] at hw
  registered key w hw := by rwa [WorkerKey.registered?_keeps h] at hw

theorem shrinks_erase (key : WorkerKey) (d : Deployment σ η) : Shrinks d (key.erase d) where
  next := Nat.le_of_eq (by rw [WorkerKey.workers_erase])
  running w hw := by rwa [WorkerKey.workers_erase] at hw
  registered k w hw := by
    by_cases hk : k = key
    · rw [hk, WorkerKey.registered?_erase_self] at hw
      exact nomatch hw
    · rwa [WorkerKey.registered?_erase_of_ne hk] at hw

theorem registered?_stop (os : Host η) (w : Nat) (d : Deployment σ η) (key : WorkerKey) :
    key.registered? (d.stop os w).2 = key.registered? d := by
  have hkeeps := Deployment.keeps_closeSocket os w d
  have hreg := WorkerKey.registered?_keeps hkeeps key
  cases key <;> exact hreg

theorem workers_stop (os : Host η) (w : Nat) (d : Deployment σ η) :
    (d.stop os w).2.workers = (d.workers.stop w).2 := by
  show ((d.closeSocket os w).workers.stop w).2 = _
  rw [(Deployment.keeps_closeSocket os w d).workers]

theorem shrinks_stop (os : Host η) (w : Nat) (d : Deployment σ η) : Shrinks d (d.stop os w).2 where
  next := Nat.le_of_eq (by rw [workers_stop, Workforce.next_stop])
  running v hv := by
    rw [workers_stop] at hv
    exact (Workforce.isRunning_stop hv).1
  registered key v hv := by rwa [registered?_stop] at hv

theorem registered?_exit (os : Host η) (w code : Nat) (d : Deployment σ η) (key : WorkerKey) :
    key.registered? (d.exit os w code) = key.registered? d := by
  have hkeeps := Deployment.keeps_closeSocket os w d
  have hreg := WorkerKey.registered?_keeps hkeeps key
  cases key <;> exact hreg

theorem workers_exit (os : Host η) (w code : Nat) (d : Deployment σ η) :
    (d.exit os w code).workers = d.workers.exit w code := by
  show (d.closeSocket os w).workers.exit w code = _
  rw [(Deployment.keeps_closeSocket os w d).workers]

theorem shrinks_exit (os : Host η) (w code : Nat) (d : Deployment σ η) :
    Shrinks d (d.exit os w code) where
  next := Nat.le_of_eq (by rw [workers_exit, Workforce.next_exit])
  running v hv := by
    rw [workers_exit] at hv
    exact Workforce.isRunning_exit hv
  registered key v hv := by rwa [registered?_exit] at hv

theorem free_of_registered {d d' : Deployment σ η} {key : WorkerKey}
    (h : ∀ w, key.registered? d' = some w → key.registered? d = some w)
    (hfree : key.registered? d = none) : key.registered? d' = none := by
  cases hw : key.registered? d' with
  | none => rfl
  | some w =>
    have hreg := h w hw
    rw [hfree] at hreg
    exact nomatch hreg

/-- What is true in a phase stays true while no worker is registered. -/
theorem PhaseOk.mono {d d' : Deployment σ η} {opened opened' : List (Nat × WorkerKey)}
    {p : CallPhase} (hp : PhaseOk d opened p)
    (h : ∀ key w, WorkerKey.registered? key d' = some w → WorkerKey.registered? key d = some w)
    (hopened : ∀ e ∈ opened, e ∈ opened') : PhaseOk d' opened' p := by
  cases p with
  | checking s w =>
    rcases hp with hp | hp
    · exact Or.inl (free_of_registered (h s.key) hp)
    · cases hw : s.key.registered? d' with
      | none => exact Or.inl hw
      | some w' =>
        have hreg := h s.key w' hw
        rw [hp] at hreg
        exact Or.inr (hw.trans hreg.symm)
  | reading s => exact free_of_registered (h s.key) hp
  | opening s runnable => exact free_of_registered (h s.key) hp
  | registering s w => exact ⟨free_of_registered (h s.key) hp.1, hopened _ hp.2⟩
  | _ => trivial

/-- A worker that is registered changes nothing for the phases of starts under other keys. -/
theorem PhaseOk.put {d : Deployment σ η} {opened : List (Nat × WorkerKey)} {p : CallPhase}
    (hp : PhaseOk d opened p) {key : WorkerKey} (hne : ∀ t, p.turn? = some t → t.key ≠ key)
    (w : Nat) : PhaseOk (key.put w d) opened p := by
  cases p with
  | checking s v =>
    have hreg := WorkerKey.registered?_put_of_ne (hne s rfl) w d
    rcases hp with hp | hp
    · exact Or.inl (hreg.trans hp)
    · exact Or.inr (hreg.trans hp)
  | reading s => exact (WorkerKey.registered?_put_of_ne (hne s rfl) w d).trans hp
  | opening s runnable => exact (WorkerKey.registered?_put_of_ne (hne s rfl) w d).trans hp
  | registering s v => exact ⟨(WorkerKey.registered?_put_of_ne (hne s rfl) w d).trans hp.1, hp.2⟩
  | _ => trivial

/-- What a sweep does: it takes out at most the worker that it goes on to stop. -/
structure Swept (d : Deployment σ η) (r : CallPhase × Deployment σ η) : Prop where
  turn : r.1.turn? = none
  shrinks : Shrinks d r.2
  left : ∀ key w, WorkerKey.registered? key d = some w →
    WorkerKey.registered? key r.2 = some w ∨ r.1.stopping? = some w

theorem Swept.after {d d' : Deployment σ η} {r : CallPhase × Deployment σ η} (hd : Shrinks d d')
    (hreg : ∀ key, WorkerKey.registered? key d' = WorkerKey.registered? key d) (h : Swept d' r) :
    Swept d r where
  turn := h.turn
  shrinks := hd.trans h.shrinks
  left key w hw := h.left key w ((hreg key).trans hw)

theorem swept_sweep (keys : List WorkerKey) (n : Nat) (d : Deployment σ η) :
    Swept d (sweep keys n d) := by
  induction keys generalizing n with
  | nil => exact ⟨rfl, .refl d, fun _ _ hw => Or.inl hw⟩
  | cons key rest ih =>
    unfold sweep
    split
    · rename_i w hw
      refine ⟨rfl, shrinks_erase key d, ?_⟩
      intro k v hv
      by_cases hk : k = key
      · right
        rw [hk, hw] at hv
        exact hv
      · left
        rwa [WorkerKey.registered?_erase_of_ne hk]
    · exact ih n

theorem swept_begin (d : Deployment σ η) (c : ManagerCall) : Swept d (begin d c) := by
  cases c with
  | start s => exact ⟨rfl, .refl d, fun _ _ hw => Or.inl hw⟩
  | stopServer scope protocol port =>
    have hsweep := swept_sweep [.server (Servers.key scope protocol port)] 0 d
    unfold begin
    dsimp only
    split
    · rename_i n d' heq
      rw [heq] at hsweep
      have hsay := d'.keeps_say (.noServer (Servers.key scope protocol port))
      refine ⟨rfl, hsweep.shrinks.trans (shrinks_of_keeps hsay), ?_⟩
      intro key w hw
      rcases hsweep.left key w hw with hleft | hstop
      · exact Or.inl ((WorkerKey.registered?_keeps hsay key).trans hleft)
      · exact nomatch hstop
    · exact hsweep
  | stopAllServers scope => exact swept_sweep _ 0 d
  | stopClient scope => exact swept_sweep _ 0 d
  | stopClients => exact swept_sweep _ 0 d

/-! ## Calls and their places -/

/-- A start has its turn alone after a step, if it had it before or nobody else did. -/
theorem Kept.turns_set {m : Managers σ η} (h : Kept m) {i : Nat} {p p' : CallPhase}
    (hp : m.calls[i]? = some p)
    (hturn : ∀ s : WorkerStart, p'.turn? = some s → p.turn? = some s ∨ m.isTaken s = false) :
    ∀ (j k : Nat) (q r : CallPhase) (s t : WorkerStart), (m.calls.set i p')[j]? = some q →
      (m.calls.set i p')[k]? = some r → q.turn? = some s → r.turn? = some t →
      s.sameManager t = true → j = k := by
  -- No other call has the turn that the moved one has now.
  have hother : ∀ (j : Nat) (q : CallPhase) (s t : WorkerStart), j ≠ i → m.calls[j]? = some q →
      q.turn? = some t → p'.turn? = some s → s.sameManager t = true → False := by
    intro j q s t hne hq ht hs hsame
    rcases hturn s hs with hs | hfree
    · exact hne (h.turns i j p q s t hp hq hs ht hsame).symm
    · have htaken : m.isTaken s = true := by
        rw [isTaken, List.any_eq_true]
        exact ⟨q, List.mem_of_getElem? hq, by rw [ht]; exact hsame⟩
      rw [hfree] at htaken
      exact Bool.noConfusion htaken
  have hlt : i < m.calls.length := (List.getElem?_eq_some_iff.mp hp).1
  intro j k q r s t hq hr hs ht hsame
  by_cases hj : j = i
  · by_cases hk : k = i
    · rw [hj, hk]
    · subst hj
      rw [List.getElem?_set_self hlt, Option.some.injEq] at hq
      rw [List.getElem?_set_ne (Ne.symm hk)] at hr
      subst hq
      exact (hother k r s t hk hr ht hs hsame).elim
  · rw [List.getElem?_set_ne (Ne.symm hj)] at hq
    by_cases hk : k = i
    · subst hk
      rw [List.getElem?_set_self hlt, Option.some.injEq] at hr
      subst hr
      rw [WorkerStart.sameManager_symm] at hsame
      exact (hother j q t s hj hq hs ht hsame).elim
    · rw [List.getElem?_set_ne (Ne.symm hk)] at hr
      exact h.turns j k q r s t hq hr hs ht hsame

/-! ## A call goes on -/

/-- The managers with one call in another phase, and what is deployed then. -/
def moved (m : Managers σ η) (i : Nat) (r : CallPhase × Deployment σ η) : Managers σ η :=
  ⟨r.2, m.calls.set i r.1, m.opened ++ r.1.opened?.toList⟩

theorem Kept.move {m : Managers σ η} (h : Kept m) {i : Nat} {p : CallPhase}
    (hp : m.calls[i]? = some p) (hopen : p.opened? = none) {r : CallPhase × Deployment σ η}
    (hopened : r.1.opened? = none) (hd : Shrinks m.deployment r.2)
    (hstop : ∀ w, p.stopping? = some w → r.2.workers.isRunning w = true → r.1.stopping? = some w)
    (hleft : ∀ key w, WorkerKey.registered? key m.deployment = some w →
      r.2.workers.isRunning w = true → WorkerKey.registered? key r.2 = some w ∨
        ∃ q ∈ m.calls.set i r.1, q.stopping? = some w)
    (hturn : ∀ s : WorkerStart, r.1.turn? = some s → p.turn? = some s ∨ m.isTaken s = false)
    (hok : PhaseOk r.2 m.opened r.1) : Kept (m.moved i r) := by
  have hsame : m.moved i r = ⟨r.2, m.calls.set i r.1, m.opened⟩ := by
    rw [moved, hopened]
    exact congrArg _ (List.append_nil m.opened)
  rw [hsame]
  constructor
  case distinct => exact h.distinct
  case numbered => exact fun e he => Nat.lt_of_lt_of_le (h.numbered e he) hd.next
  case employed => exact fun w hw => h.employed w (hd.running w hw)
  case registered => exact fun key w hw => h.registered key w (hd.registered key w hw)
  case placed =>
    intro w key he hw
    rcases h.placed w key he (hd.running w hw) with hreg | hstopping | hopening
    · rcases hleft key w hreg hw with hreg | hstopping
      · exact Or.inl hreg
      · exact Or.inr (Or.inl hstopping)
    · exact Or.inr (Or.inl (exists_mem_set hp (fun hs => hstop w hs hw) hstopping))
    · refine Or.inr (Or.inr (exists_mem_set hp (fun hs => ?_) hopening))
      rw [hopen] at hs
      exact nomatch hs
  case turns => exact h.turns_set hp hturn
  case phases =>
    intro q hq
    rcases List.mem_or_eq_of_mem_set hq with hq | rfl
    · exact (h.phases q hq).mono hd.registered fun _ he => he
    · exact hok

/-- A call goes on without a change of registries and workers. -/
theorem Kept.move_keeps {m : Managers σ η} (h : Kept m) {i : Nat} {p : CallPhase}
    (hp : m.calls[i]? = some p) (hopen : p.opened? = none) {r : CallPhase × Deployment σ η}
    (hopened : r.1.opened? = none) (hd : m.deployment.Keeps r.2)
    (hstop : ∀ w, p.stopping? = some w → r.1.stopping? = some w)
    (hturn : ∀ s : WorkerStart, r.1.turn? = some s → p.turn? = some s ∨ m.isTaken s = false)
    (hok : PhaseOk m.deployment m.opened r.1) : Kept (m.moved i r) := by
  have hreg := fun key => WorkerKey.registered?_keeps hd key
  refine h.move hp hopen hopened (shrinks_of_keeps hd) (fun w hs _ => hstop w hs) ?_ hturn ?_
  · exact fun key w hw _ => Or.inl ((hreg key).trans hw)
  · exact hok.mono (fun key w hw => (hreg key).symm.trans hw) fun _ he => he

/-- A call sweeps; what it was stopping before has stopped. -/
theorem Kept.move_swept {m : Managers σ η} (h : Kept m) {i : Nat} {p : CallPhase}
    (hp : m.calls[i]? = some p) (hopen : p.opened? = none) {r : CallPhase × Deployment σ η}
    (hr : Swept m.deployment r)
    (hstop : ∀ w, p.stopping? = some w → r.2.workers.isRunning w = false) :
    Kept (m.moved i r) := by
  refine h.move hp hopen (opened?_of_turn? hr.turn) hr.shrinks ?_ ?_ ?_
    (phaseOk_of_turn? hr.turn _ _)
  · intro w hs hw
    rw [hstop w hs] at hw
    exact Bool.noConfusion hw
  · intro key w hw _
    rcases hr.left key w hw with hleft | hstopping
    · exact Or.inl hleft
    · exact Or.inr ⟨r.1, mem_set_self hp r.1, hstopping⟩
  · intro s hs
    rw [hr.turn] at hs
    exact nomatch hs

end Managers

end PolicyProbe
