import PolicyProbe.Desired.Memory
import PolicyProbe.Proofs.Manager.Places

/-!
No key has two live workers, and none is out of reach. There is one lemma for each phase of a call;
together they say that an event keeps the places of all live workers (`kept_handle`), and so a whole
run does (`kept_run`). Two live workers of one key would be in one registry, or in the hands of two
starts that both have the turn of their manager (`Kept.live_unique`).
-/
namespace PolicyProbe.Managers

variable {σ η : Type}

/-! ## Starts that have their turn -/

theorem turn?_proceed (s : WorkerStart) : (proceed s).turn? = some s := by
  cases s <;> rfl

theorem opened?_proceed (s : WorkerStart) : (proceed s).opened? = none := by
  cases s <;> rfl

theorem phaseOk_proceed {s : WorkerStart} {d : Deployment σ η} (hfree : s.key.registered? d = none)
    (opened : List (Nat × WorkerKey)) : PhaseOk d opened (proceed s) := by
  cases s <;> exact hfree

/-- What looking its key up does to a start: it keeps its turn, and what it found is so. -/
theorem lookUp_ok (s : WorkerStart) (d : Deployment σ η) (opened : List (Nat × WorkerKey)) :
    (lookUp s d).turn? = some s ∧ (lookUp s d).opened? = none ∧ PhaseOk d opened (lookUp s d) := by
  unfold lookUp
  split
  · rename_i w hw
    exact ⟨rfl, rfl, Or.inr hw⟩
  · rename_i hfree
    exact ⟨turn?_proceed s, opened?_proceed s, phaseOk_proceed hfree opened⟩

theorem read_ok [DesiredStore σ] (settings : TrafficSettings) {s : WorkerStart}
    {d : Deployment σ η} (hfree : s.key.registered? d = none) (opened : List (Nat × WorkerKey)) :
    (∀ t, (read settings s d).turn? = some t → t = s) ∧ (read settings s d).opened? = none ∧
      PhaseOk d opened (read settings s d) := by
  unfold read
  split
  · refine ⟨?_, opened?_proceed _, phaseOk_proceed hfree opened⟩
    intro t ht
    rw [turn?_proceed] at ht
    exact (Option.some.inj ht).symm
  · split
    · exact ⟨by nofun, rfl, trivial⟩
    · exact ⟨by nofun, rfl, trivial⟩
    · exact ⟨fun t ht => (Option.some.inj ht).symm, rfl, hfree⟩

theorem Kept.queued {m : Managers σ η} (h : Kept m) {i : Nat} {s : WorkerStart}
    (hp : m.calls[i]? = some (.queued s)) :
    Kept (m.moved i (if m.isTaken s then (.queued s, m.deployment)
      else (lookUp s m.deployment, m.deployment))) := by
  by_cases htaken : m.isTaken s = true
  · rw [if_pos htaken]
    exact h.move_keeps hp rfl rfl (.refl _) (by nofun) (by nofun) trivial
  · rw [if_neg htaken]
    obtain ⟨hturn, hopened, hok⟩ := lookUp_ok s m.deployment m.opened
    refine h.move_keeps hp rfl hopened (.refl _) (by nofun) ?_ hok
    intro t ht
    rw [hturn] at ht
    right
    rw [← Option.some.inj ht]
    exact Bool.eq_false_iff.mpr htaken

/-- A worker that a start takes out is dead, or a call is stopping it. -/
theorem Kept.checking {m : Managers σ η} (h : Kept m) {i w : Nat} {s : WorkerStart}
    (hp : m.calls[i]? = some (.checking s w)) :
    Kept (m.moved i (check s w (m.findsRunning w) m.deployment)) := by
  unfold check
  split
  · exact h.move_keeps hp rfl rfl (.refl _) (by nofun) (by nofun) trivial
  · rename_i hdead
    have hdiscard := s.keeps_discard w m.deployment
    have hshrinks := (shrinks_erase s.key m.deployment).trans (shrinks_of_keeps hdiscard)
    have hreg := fun key => WorkerKey.registered?_keeps hdiscard key
    refine h.move hp rfl (opened?_proceed s) hshrinks (by nofun) ?_ ?_ (phaseOk_proceed ?_ _)
    · intro key v hv hrun
      by_cases hkey : key = s.key
      · -- The start found `v` itself, which runs, so some call has taken its handle.
        have hw : v = w := by
          subst hkey
          rcases h.phases _ (List.mem_of_getElem? hp) with hnone | hsome
          · rw [hnone] at hv
            exact nomatch hv
          · rw [hsome] at hv
            exact (Option.some.inj hv).symm
        subst hw
        right
        have htaken : m.calls.any (·.handle? == some v) = true := by
          rw [findsRunning, hshrinks.running v hrun] at hdead
          simpa using hdead
        obtain ⟨q, hq, hhandle⟩ := List.any_eq_true.mp htaken
        have hq' : ∃ q ∈ m.calls, q.stopping? = some v :=
          ⟨q, hq, stopping?_of_handle? (beq_iff_eq.mp hhandle)⟩
        exact exists_mem_set hp (by nofun) hq'
      · left
        rw [hreg, WorkerKey.registered?_erase_of_ne hkey]
        exact hv
    · exact fun t ht => Or.inl ((turn?_proceed s).symm.trans ht)
    · exact (hreg s.key).trans (WorkerKey.registered?_erase_self s.key m.deployment)

theorem Kept.reading [DesiredStore σ] {m : Managers σ η} (h : Kept m) (settings : TrafficSettings)
    {i : Nat} {s : WorkerStart} (hp : m.calls[i]? = some (.reading s)) :
    Kept (m.moved i (read settings s m.deployment, m.deployment)) := by
  have hfree : s.key.registered? m.deployment = none := h.phases _ (List.mem_of_getElem? hp)
  obtain ⟨hturn, hopened, hok⟩ := read_ok settings hfree m.opened
  refine h.move_keeps hp rfl hopened (.refl _) (by nofun) ?_ hok
  exact fun t ht => Or.inl (congrArg some (hturn t ht).symm)

/-! ## A worker is opened and registered -/

/-- A new worker has its place in the call that opened it. -/
theorem Kept.employed_by {m : Managers σ η} (h : Kept m) {i : Nat} {s : WorkerStart}
    {runnable : Runnable} (hp : m.calls[i]? = some (.opening s runnable)) {d' : Deployment σ η}
    {worker : Worker} (hservers : d'.servers = m.deployment.servers)
    (hclients : d'.clients = m.deployment.clients)
    (hworkers : d'.workers = m.deployment.workers.add worker) :
    Kept (m.moved i (.registering s m.deployment.workers.next, d')) := by
  have hfree : s.key.registered? m.deployment = none := h.phases _ (List.mem_of_getElem? hp)
  have hreg := WorkerKey.registered?_congr hservers hclients
  have hnext : d'.workers.next = m.deployment.workers.next + 1 := by
    rw [hworkers, Workforce.next_add]
  have hrunning : ∀ w, d'.workers.isRunning w = true →
      m.deployment.workers.isRunning w = true ∨ w = m.deployment.workers.next := by
    intro w hw
    rw [hworkers] at hw
    exact (Workforce.isRunning_add hw).imp_right And.left
  have hold : ∀ e ∈ m.opened, e ∈ m.opened ++ [(m.deployment.workers.next, s.key)] :=
    fun _ he => List.mem_append_left _ he
  constructor
  case distinct =>
    show ((m.opened ++ [(m.deployment.workers.next, s.key)]).map Prod.fst).Nodup
    rw [List.map_append, List.nodup_append]
    refine ⟨h.distinct, List.pairwise_singleton _ _, ?_⟩
    intro v hv w hw hvw
    obtain ⟨e, he, rfl⟩ := List.mem_map.mp hv
    have hlt := h.numbered e he
    rw [hvw, List.mem_singleton.mp hw] at hlt
    exact Nat.lt_irrefl _ hlt
  case numbered =>
    intro e he
    show e.1 < d'.workers.next
    rw [hnext]
    rcases List.mem_append.mp he with he | he
    · exact Nat.lt_succ_of_lt (h.numbered e he)
    · rw [List.mem_singleton.mp he]
      exact Nat.lt_succ_self _
  case employed =>
    intro w hw
    rcases hrunning w hw with hw | rfl
    · obtain ⟨key, he⟩ := h.employed w hw
      exact ⟨key, hold _ he⟩
    · exact ⟨s.key, List.mem_append_right _ (List.mem_singleton_self _)⟩
  case registered =>
    exact fun key w hw => hold _ (h.registered key w ((hreg key).symm.trans hw))
  case placed =>
    intro w key he hw
    rcases List.mem_append.mp he with he | he
    · -- The number of the new worker is not one of those opened before.
      have hw : m.deployment.workers.isRunning w = true := by
        rcases hrunning w hw with hw | rfl
        · exact hw
        · exact absurd (h.numbered _ he) (Nat.lt_irrefl _)
      rcases h.placed w key he hw with hplace | hstopping | hopening
      · exact Or.inl ((hreg key).trans hplace)
      · exact Or.inr (Or.inl (exists_mem_set hp (by nofun) hstopping))
      · exact Or.inr (Or.inr (exists_mem_set hp (by nofun) hopening))
    · exact Or.inr (Or.inr ⟨_, mem_set_self hp _, congrArg some (List.mem_singleton.mp he).symm⟩)
  case turns => exact h.turns_set hp fun t ht => Or.inl ht
  case phases =>
    intro q hq
    rcases List.mem_or_eq_of_mem_set hq with hq | rfl
    · exact (h.phases q hq).mono (fun key w hw => (hreg key).symm.trans hw) hold
    · exact ⟨(hreg s.key).trans hfree, List.mem_append_right _ (List.mem_singleton_self _)⟩

theorem Kept.opening {m : Managers σ η} (h : Kept m) (os : Host η) {i : Nat} {s : WorkerStart}
    {runnable : Runnable} (hp : m.calls[i]? = some (.opening s runnable)) :
    Kept (m.moved i (openWorker os s runnable m.deployment)) := by
  have hstart := Deployment.started_start os s.scope runnable m.deployment
  unfold openWorker
  split
  · rename_i e d' heq
    rw [heq] at hstart
    have hsay := d'.keeps_say (WorkerStart.failure e s)
    cases hstart with
    | failed _ _ hd =>
      exact h.move_keeps hp rfl rfl (hd.trans hsay) (by nofun) (by nofun) trivial
    | refused _ worker hstopped _ hservers hclients hworkers =>
      -- A process that was refused is a worker more, but one that never runs.
      have hreg := WorkerKey.registered?_congr hservers hclients
      have hd : Shrinks m.deployment d' := by
        refine ⟨?_, ?_, fun key w hw => (hreg key).symm.trans hw⟩
        · rw [hworkers, Workforce.next_add]
          exact Nat.le_succ _
        · intro w hw
          rw [hworkers] at hw
          rcases Workforce.isRunning_add hw with hw | ⟨-, hrun⟩
          · exact hw
          · rw [hstopped] at hrun
            exact nomatch hrun
      refine h.move hp rfl rfl (hd.trans (shrinks_of_keeps hsay)) (by nofun) ?_ (by nofun) trivial
      exact fun key w hw _ =>
        Or.inl ((WorkerKey.registered?_keeps hsay key).trans ((hreg key).trans hw))
  · rename_i w d' heq
    rw [heq] at hstart
    cases hstart with
    | employed worker _ _ _ hservers hclients hworkers =>
      exact h.employed_by hp hservers hclients hworkers

theorem registerWorker_of_free {s : WorkerStart} {d : Deployment σ η}
    (hfree : s.key.registered? d = none) (w : Nat) :
    registerWorker s w d = (.recording s w, s.key.put w d) ∨
      registerWorker s w d = (.started (.ok (some w)), s.key.put w d) := by
  cases s with
  | server scope protocol port bindAddress =>
    left
    have hfind : d.servers.find? (Servers.key scope protocol port) = none := hfree
    simp only [registerWorker, Servers.register, Registry.add, hfind]
    rfl
  | client scope endpoint =>
    right
    have hfind : d.clients.find? scope.name = none := hfree
    simp only [registerWorker, Clients.register, Registry.add, hfind]
    rfl

/-- The worker that a call opened has its place in the registry from when the call registers it. -/
theorem Kept.put {m : Managers σ η} (h : Kept m) {i w : Nat} {s : WorkerStart}
    (hp : m.calls[i]? = some (.registering s w)) {p' : CallPhase} (hopened : p'.opened? = none)
    (hturn : ∀ t, p'.turn? = some t → t = s) (hok : ∀ d, @PhaseOk σ η d m.opened p') :
    Kept (m.moved i (p', s.key.put w m.deployment)) := by
  have hphase : s.key.registered? m.deployment = none ∧ (w, s.key) ∈ m.opened :=
    h.phases _ (List.mem_of_getElem? hp)
  have hself := WorkerKey.registered?_put_self s.key w m.deployment
  have hother : ∀ key, key ≠ s.key →
      WorkerKey.registered? key (s.key.put w m.deployment) = key.registered? m.deployment :=
    fun key hkey => WorkerKey.registered?_put_of_ne hkey w m.deployment
  have hworkers := WorkerKey.workers_put s.key w m.deployment
  have hsame : m.moved i (p', s.key.put w m.deployment) =
      ⟨s.key.put w m.deployment, m.calls.set i p', m.opened⟩ := by
    rw [moved, hopened]
    exact congrArg _ (List.append_nil m.opened)
  rw [hsame]
  constructor
  case distinct => exact h.distinct
  case numbered =>
    intro e he
    rw [hworkers]
    exact h.numbered e he
  case employed =>
    intro v hv
    rw [hworkers] at hv
    exact h.employed v hv
  case registered =>
    intro key v hv
    by_cases hkey : key = s.key
    · rw [hkey, hself] at hv
      rw [hkey, ← Option.some.inj hv]
      exact hphase.2
    · rw [hother key hkey] at hv
      exact h.registered key v hv
  case placed =>
    intro v key he hv
    rw [hworkers] at hv
    rcases h.placed v key he hv with hplace | hstopping | hopening
    · left
      refine (hother key ?_).trans hplace
      rintro rfl
      rw [hphase.1] at hplace
      cases hplace
    · exact Or.inr (Or.inl (exists_mem_set hp (by rintro ⟨⟩) hstopping))
    · obtain ⟨q, hmem, hq⟩ := hopening
      obtain ⟨j, hj⟩ := List.getElem?_of_mem hmem
      by_cases hji : j = i
      · left
        rw [hji, hp] at hj
        rw [← Option.some.inj hj] at hq
        cases hq
        exact hself
      · exact Or.inr (Or.inr ⟨q, mem_set_of_ne hj hji p', hq⟩)
  case turns => exact h.turns_set hp fun t ht => Or.inl (congrArg some (hturn t ht).symm)
  case phases =>
    intro q hq
    -- No other start with its turn is under this key.
    obtain ⟨j, hj⟩ := List.getElem?_of_mem hq
    by_cases hji : j = i
    · rw [hji, List.getElem?_set_self (List.getElem?_eq_some_iff.mp hp).1] at hj
      rw [← Option.some.inj hj]
      exact hok _
    · rw [List.getElem?_set_ne (Ne.symm hji)] at hj
      refine (h.phases q (List.mem_of_getElem? hj)).put ?_ w
      intro t ht hkey
      exact hji (h.turns j i q _ t s hj hp ht rfl (WorkerStart.sameManager_of_key hkey))

theorem Kept.registering {m : Managers σ η} (h : Kept m) {i w : Nat} {s : WorkerStart}
    (hp : m.calls[i]? = some (.registering s w)) :
    Kept (m.moved i (registerWorker s w m.deployment)) := by
  have hfree : s.key.registered? m.deployment = none :=
    (h.phases _ (List.mem_of_getElem? hp)).1
  rcases registerWorker_of_free hfree w with heq | heq
  · rw [heq]
    exact h.put hp rfl (fun t ht => (Option.some.inj ht).symm) fun _ => trivial
  · rw [heq]
    exact h.put hp rfl (by nofun) fun _ => trivial

theorem Kept.recording [DesiredStore σ] {m : Managers σ η} (h : Kept m) {i w : Nat}
    {s : WorkerStart} (hp : m.calls[i]? = some (.recording s w)) :
    Kept (m.moved i (recordWorker s w m.deployment)) := by
  refine h.move_keeps hp rfl rfl ?_ (by nofun) (by nofun) trivial
  cases s with
  | server scope protocol port bindAddress =>
    show m.deployment.Keeps (Servers.record _ bindAddress m.deployment)
    unfold Servers.record
    split <;> exact ⟨rfl, rfl, rfl⟩
  | client scope endpoint => exact .refl _

/-! ## A call stops workers -/

theorem Kept.removed {m : Managers σ η} (h : Kept m) {i w n : Nat} {rest : List WorkerKey}
    (hp : m.calls[i]? = some (.removed w rest n)) :
    Kept (m.moved i (.stopping w rest n, m.deployment)) :=
  h.move_keeps hp rfl rfl (.refl _) (fun _ hs => hs) (by nofun) trivial

theorem not_isRunning_stop (os : Host η) (w : Nat) (d : Deployment σ η) :
    (d.stop os w).2.workers.isRunning w = false := by
  rw [workers_stop]
  exact Bool.eq_false_iff.mpr fun hw => (Workforce.isRunning_stop hw).2 rfl

theorem Kept.stopping {m : Managers σ η} (h : Kept m) (os : Host η) {i w n : Nat}
    {rest : List WorkerKey} (hp : m.calls[i]? = some (.stopping w rest n)) :
    Kept (m.moved i (sweep rest (n + 1) (m.deployment.stop os w).2)) := by
  have hswept := swept_sweep rest (n + 1) (m.deployment.stop os w).2
  refine h.move_swept hp rfl (hswept.after (shrinks_stop os w _) (registered?_stop os w _)) ?_
  intro v hv
  cases hv
  refine Bool.eq_false_iff.mpr fun hrun => ?_
  have hstopped := hswept.shrinks.running w hrun
  rw [not_isRunning_stop] at hstopped
  exact Bool.noConfusion hstopped

/-! ## Every event, every run -/

theorem Kept.resumed [DesiredStore σ] {m : Managers σ η} (h : Kept m) (os : Host η)
    (settings : TrafficSettings) {i : Nat} {p : CallPhase} (hp : m.calls[i]? = some p) :
    Kept (m.moved i (resume os settings m.isTaken m.findsRunning p m.deployment)) := by
  cases p with
  | queued s => exact h.queued hp
  | checking s w => exact h.checking hp
  | reading s => exact h.reading settings hp
  | opening s runnable => exact h.opening os hp
  | registering s w => exact h.registering hp
  | recording s w => exact h.recording hp
  | removed w rest n => exact h.removed hp
  | stopping w rest n => exact h.stopping os hp
  | started answer => exact h.move_keeps hp rfl rfl (.refl _) (by nofun) (by nofun) trivial
  | stopped n => exact h.move_keeps hp rfl rfl (.refl _) (by nofun) (by nofun) trivial

/-- A call that has nothing to do is added. -/
theorem Kept.grow {m : Managers σ η} (h : Kept m) :
    Kept { m with calls := m.calls ++ [.stopped 0] } where
  distinct := h.distinct
  numbered := h.numbered
  employed := h.employed
  registered := h.registered
  placed w key he hw := by
    rcases h.placed w key he hw with hplace | ⟨q, hq, hstopping⟩ | ⟨q, hq, hopening⟩
    · exact Or.inl hplace
    · exact Or.inr (Or.inl ⟨q, List.mem_append_left _ hq, hstopping⟩)
    · exact Or.inr (Or.inr ⟨q, List.mem_append_left _ hq, hopening⟩)
  turns i j p q s t hp hq hs ht hsame := by
    have hold : ∀ {k : Nat} {r : CallPhase} {u : WorkerStart},
        (m.calls ++ [CallPhase.stopped 0])[k]? = some r → r.turn? = some u →
          m.calls[k]? = some r := by
      intro k r u hr hu
      rw [List.getElem?_append] at hr
      split at hr
      · exact hr
      · rw [List.mem_singleton.mp (List.mem_of_getElem? hr)] at hu
        exact nomatch hu
    exact h.turns i j p q s t (hold hp hs) (hold hq ht) hs ht hsame
  phases q hq := by
    rcases List.mem_append.mp hq with hq | hq
    · exact h.phases q hq
    · rw [List.mem_singleton.mp hq]
      trivial

theorem Kept.called {m : Managers σ η} (h : Kept m) (c : ManagerCall) :
    Kept { m with deployment := (begin m.deployment c).2,
                  calls := m.calls ++ [(begin m.deployment c).1] } := by
  have hswept := swept_begin m.deployment c
  have hlast : (m.calls ++ [CallPhase.stopped 0])[m.calls.length]? = some (.stopped 0) :=
    List.getElem?_concat_length
  have hmoved := h.grow.move_swept hlast rfl hswept (by nofun)
  rw [moved, opened?_of_turn? hswept.turn] at hmoved
  simpa using hmoved

/-- Workers end, or something else changes than registries and workers. -/
theorem Kept.changed {m : Managers σ η} (h : Kept m) {d' : Deployment σ η}
    (hd : Shrinks m.deployment d')
    (hreg : ∀ key, WorkerKey.registered? key d' = WorkerKey.registered? key m.deployment) :
    Kept { m with deployment := d' } where
  distinct := h.distinct
  numbered e he := Nat.lt_of_lt_of_le (h.numbered e he) hd.next
  employed v hv := h.employed v (hd.running v hv)
  registered key v hv := h.registered key v (hd.registered key v hv)
  placed v key he hv := (h.placed v key he (hd.running v hv)).imp_left (hreg key).trans
  turns := h.turns
  phases q hq := (h.phases q hq).mono hd.registered fun _ he => he

theorem handle_advance [DesiredStore σ] (os : Host η) (settings : TrafficSettings)
    {m : Managers σ η} {i : Nat} {p : CallPhase} (hp : m.calls[i]? = some p) :
    handle os settings m (.advance i) =
      m.moved i (resume os settings m.isTaken m.findsRunning p m.deployment) := by
  rw [handle, hp]
  rfl

theorem kept_handle [DesiredStore σ] {m : Managers σ η} (h : Kept m) (os : Host η)
    (settings : TrafficSettings) (e : ManagerEvent σ η) : Kept (handle os settings m e) := by
  cases e with
  | call c => exact h.called c
  | advance i =>
    cases hp : m.calls[i]? with
    | none =>
      have hsame : handle os settings m (.advance i) = m := by
        rw [handle, hp]
      rw [hsame]
      exact h
    | some p =>
      rw [handle_advance os settings hp]
      exact h.resumed os settings hp
  | exit w code =>
    exact h.changed (shrinks_exit os w code m.deployment) (registered?_exit os w code m.deployment)
  | elsewhere state host outlet =>
    have hd : m.deployment.Keeps { m.deployment with state, host, outlet } := ⟨rfl, rfl, rfl⟩
    exact h.changed (shrinks_of_keeps hd) (WorkerKey.registered?_keeps hd)

theorem kept_run [DesiredStore σ] (os : Host η) (settings : TrafficSettings) (state : σ) (host : η)
    (outlet : Outlet) (events : List (ManagerEvent σ η)) :
    Kept (run os settings (.fresh state host outlet) events) := by
  suffices hrun : ∀ m : Managers σ η, Kept m → Kept (events.foldl (handle os settings) m) from
    hrun _ (kept_fresh state host outlet)
  induction events with
  | nil => exact fun m h => h
  | cons e rest ih => exact fun m h => ih _ (kept_handle h os settings e)

/-! ## Live workers -/

/-- Two live workers of one key are the same. -/
theorem Kept.live_unique {m : Managers σ η} (h : Kept m) {key : WorkerKey} {v w : Nat}
    (hv : (v, key) ∈ m.opened) (hw : (w, key) ∈ m.opened) (hlv : m.isLive v = true)
    (hlw : m.isLive w = true) : v = w := by
  have hplace : ∀ {u : Nat}, (u, key) ∈ m.opened → m.isLive u = true →
      key.registered? m.deployment = some u ∨
        ∃ (i : Nat) (s : WorkerStart), m.calls[i]? = some (.registering s u) ∧ s.key = key := by
    intro u hu hlive
    rw [isLive, Bool.and_eq_true, Bool.not_eq_true', List.any_eq_false] at hlive
    rcases h.placed u key hu hlive.1 with hreg | ⟨q, hq, hstopping⟩ | ⟨q, hq, hopening⟩
    · exact Or.inl hreg
    · exact absurd (beq_iff_eq.mpr hstopping) (hlive.2 q hq)
    · obtain ⟨i, hi⟩ := List.getElem?_of_mem hq
      cases q with
      | registering s x =>
        cases hopening
        exact Or.inr ⟨i, s, hi, rfl⟩
      | _ => exact nomatch hopening
  -- While a start is about to register under the key, nothing is registered there.
  have hexcl : ∀ {i u : Nat} {s : WorkerStart}, m.calls[i]? = some (.registering s u) →
      s.key = key → key.registered? m.deployment = none := by
    intro i u s hi hkey
    rw [← hkey]
    exact (h.phases _ (List.mem_of_getElem? hi)).1
  rcases hplace hv hlv with hv | ⟨i, s, hi, hs⟩
  · rcases hplace hw hlw with hw | ⟨j, t, hj, ht⟩
    · rw [hv] at hw
      exact Option.some.inj hw
    · rw [hexcl hj ht] at hv
      exact nomatch hv
  · rcases hplace hw hlw with hw | ⟨j, t, hj, ht⟩
    · rw [hexcl hi hs] at hw
      exact nomatch hw
    · have hsame := WorkerStart.sameManager_of_key (hs.trans ht.symm)
      have hij := h.turns i j _ _ s t hi hj rfl rfl hsame
      rw [hij, hj] at hi
      cases hi
      rfl

theorem Kept.length_live {m : Managers σ η} (h : Kept m) (key : WorkerKey) :
    (m.live key).length ≤ 1 := by
  have hnodup : (m.live key).Nodup :=
    (List.Sublist.map Prod.fst List.filter_sublist).nodup h.distinct
  have hmem : ∀ w ∈ m.live key, (w, key) ∈ m.opened ∧ m.isLive w = true := by
    intro w hw
    obtain ⟨⟨u, k⟩, he, rfl⟩ := List.mem_map.mp hw
    obtain ⟨hopened, hlive⟩ := List.mem_filter.mp he
    rw [Bool.and_eq_true, beq_iff_eq] at hlive
    rw [← hlive.1]
    exact ⟨hopened, hlive.2⟩
  match hlist : m.live key with
  | [] => exact Nat.zero_le 1
  | [_] => exact Nat.le_refl 1
  | v :: w :: rest =>
    rw [hlist] at hnodup hmem
    obtain ⟨hv, hlv⟩ := hmem v List.mem_cons_self
    obtain ⟨hw, hlw⟩ := hmem w (List.mem_cons_of_mem _ List.mem_cons_self)
    have hvw := h.live_unique hv hw hlv hlw
    rw [hvw] at hnodup
    exact absurd List.mem_cons_self (List.nodup_cons.mp hnodup).1

theorem places_of_isOver {p : CallPhase} (h : p.isOver = true) :
    p.stopping? = none ∧ p.opened? = none := by
  cases p <;> first | exact ⟨rfl, rfl⟩ | exact nomatch h

theorem Kept.registered_of_isIdle {m : Managers σ η} (h : Kept m) (hidle : m.isIdle = true)
    {w : Nat} {key : WorkerKey} (he : (w, key) ∈ m.opened)
    (hw : m.deployment.workers.isRunning w = true) : key.registered? m.deployment = some w := by
  have hover := List.all_eq_true.mp hidle
  rcases h.placed w key he hw with hreg | ⟨q, hq, hstopping⟩ | ⟨q, hq, hopening⟩
  · exact hreg
  · rw [(places_of_isOver (hover q hq)).1] at hstopping
    exact nomatch hstopping
  · rw [(places_of_isOver (hover q hq)).2] at hopening
    exact nomatch hopening

/-! ## Registered workers are in reach -/

/-- The name of the scope of a key. -/
def scopeName : WorkerKey → String
  | .server key => key.scope
  | .client scope => scope

/-- The call that stops what is registered under a key, made by the manager of a scope. -/
def stopCall (scope : Scope) : WorkerKey → ManagerCall
  | .server key => .stopServer scope key.protocol key.port
  | .client _ => .stopClient scope

theorem begin_stopCall {scope : Scope} {key : WorkerKey} (hscope : scope.name = scopeName key)
    {d : Deployment σ η} {w : Nat} (hreg : key.registered? d = some w) :
    begin d (stopCall scope key) = (.removed w [] 0, key.erase d) := by
  cases key with
  | server key =>
    have hkey : Servers.key scope key.protocol key.port = key := by
      rw [Servers.key, hscope]
      rfl
    simp only [stopCall, begin, hkey, sweep, hreg]
  | client name =>
    have hname : scope.name = name := hscope
    simp only [stopCall, begin, hname, sweep, hreg]

/-- A registered worker has stopped when the call that stops it has gone through its pauses. -/
theorem stopCall_stops [DesiredStore σ] (os : Host η) (settings : TrafficSettings)
    {m : Managers σ η} {scope : Scope} {key : WorkerKey} (hscope : scope.name = scopeName key)
    {w : Nat} (hreg : key.registered? m.deployment = some w) :
    let stopped := [ManagerEvent.call (stopCall scope key), .advance m.calls.length,
      .advance m.calls.length].foldl (handle os settings) m
    stopped.calls[m.calls.length]? = some (.stopped 1) ∧
      stopped.deployment.workers.isRunning w = false := by
  have hcalled : handle os settings m (.call (stopCall scope key)) =
      ⟨key.erase m.deployment, m.calls ++ [.removed w [] 0], m.opened⟩ := by
    rw [handle, begin_stopCall hscope hreg]
  have hlast : ∀ p : CallPhase, (m.calls ++ [p])[m.calls.length]? = some p :=
    fun p => List.getElem?_concat_length
  have hset : ∀ p q : CallPhase, (m.calls ++ [p]).set m.calls.length q = m.calls ++ [q] := by
    intro p q
    rw [List.set_append_right _ _ (Nat.le_refl _), Nat.sub_self]
    rfl
  have hpaused : handle os settings
      ⟨key.erase m.deployment, m.calls ++ [.removed w [] 0], m.opened⟩ (.advance m.calls.length) =
      ⟨key.erase m.deployment, m.calls ++ [.stopping w [] 0], m.opened⟩ := by
    rw [handle_advance os settings (hlast _), moved, resume]
    dsimp only
    rw [hset]
    exact congrArg _ (List.append_nil m.opened)
  have hstopped : handle os settings
      ⟨key.erase m.deployment, m.calls ++ [.stopping w [] 0], m.opened⟩ (.advance m.calls.length) =
      ⟨((key.erase m.deployment).stop os w).2, m.calls ++ [.stopped 1], m.opened⟩ := by
    rw [handle_advance os settings (hlast _), moved, resume, sweep]
    dsimp only
    rw [hset]
    exact congrArg _ (List.append_nil m.opened)
  simp only [List.foldl_cons, List.foldl_nil, hcalled, hpaused, hstopped]
  exact ⟨hlast _, not_isRunning_stop os w _⟩

/-- In every state that calls, workers that end, and others can lead to, no key has two live
workers, and no live worker is unknown; when no call is in progress, each is registered under the
key that it was opened for, and the stop of that key stops it. -/
theorem live_workers_in_reach [DesiredStore σ] (os : Host η) (settings : TrafficSettings)
    (state : σ) (host : η) (outlet : Outlet) (events : List (ManagerEvent σ η)) :
    let m := run os settings (.fresh state host outlet) events
    (∀ key, (m.live key).length ≤ 1) ∧
      (∀ w, m.deployment.workers.isRunning w = true → ∃ key, (w, key) ∈ m.opened) ∧
      (m.isIdle = true → ∀ w key, (w, key) ∈ m.opened →
        m.deployment.workers.isRunning w = true → key.registered? m.deployment = some w ∧
          ∀ scope : Scope, scope.name = scopeName key →
            let stopped := [ManagerEvent.call (stopCall scope key), .advance m.calls.length,
              .advance m.calls.length].foldl (handle os settings) m
            stopped.calls[m.calls.length]? = some (.stopped 1) ∧
              stopped.deployment.workers.isRunning w = false) := by
  intro m
  have hkept : Kept m := kept_run os settings state host outlet events
  refine ⟨hkept.length_live, hkept.employed, ?_⟩
  intro hidle w key he hw
  have hreg := hkept.registered_of_isIdle hidle he hw
  exact ⟨hreg, fun scope hscope => stopCall_stops os settings hscope hreg⟩

/-- A host on which every socket can be opened. -/
def openHost : Host Unit :=
  ⟨0, fun _ _ => (.ok (), ()), fun _ _ => (), fun _ _ _ => (.error .noSuchFile, ())⟩

def echoStart : WorkerStart := .server .root .tcp 80 .loopback

/-- Two starts of one server; the first server dies before it is recorded. -/
def race : List (ManagerEvent MemoryState Unit) :=
  [.call (.start echoStart), .advance 0, .call (.start echoStart), .advance 1, .advance 0,
    .advance 0, .exit 0 1, .advance 0, .advance 1, .advance 1, .advance 1, .advance 1, .advance 1]

theorem live_workers_in_reach_race :
    let m := run openHost .default (.fresh ⟨[]⟩ () (.collected [])) race
    m.isIdle = true ∧ (m.live echoStart.key).length ≤ 1 ∧ m.deployment.workers.isRunning 1 = true ∧
      echoStart.key.registered? m.deployment = some 1 := by
  obtain ⟨hone, -, hidle⟩ :=
    live_workers_in_reach openHost .default (⟨[]⟩ : MemoryState) () (.collected []) race
  exact ⟨by decide, hone echoStart.key, by decide,
    (hidle (by decide) 1 echoStart.key (by decide) (by decide)).1⟩

end PolicyProbe.Managers
