import PolicyProbe.Agent.Registration
import PolicyProbe.Proofs.Desired.Lawful

/-!
What registering rules leaves behind. Rules are registered one by one, and each of them updates one
or two entries; the entry of an endpoint has in the end what all rules asked of it, in the order of
the rules. So the result can be told endpoint by endpoint, without the order in which the entries
were written, and the report counts every rule once.
-/
namespace PolicyProbe

open StateEntry

/-- The server that a rule asks for on its destination. -/
def Rule.server (r : Rule) : ServerEntry := ⟨r.protocol, r.port⟩

/-- The client entry that a rule asks for on its source. -/
def Rule.client (r : Rule) : ClientEntry := ⟨r.protocol, r.port, r.dst, r.connected, r.action⟩

/-- The updates of the entry of one endpoint. -/
def updatesAt (endpoint : Address) (us : List StateUpdate) : List StateUpdate :=
  us.filter (·.endpoint = endpoint)

namespace Agent

/-! ## Lists of updates -/

section Updates

variable {σ : Type} [DesiredStore σ]

/-- Updates are accepted when the first is and then the others are. -/
theorem updateEach_cons {u : StateUpdate} {us : List StateUpdate} {s : σ}
    (h : (updateEach (u :: us) s).1 = .ok ()) :
    (DesiredStore.apply u s).1 = .ok () ∧
      updateEach (u :: us) s = updateEach us (DesiredStore.apply u s).2 := by
  rw [updateEach] at h ⊢
  split at h
  · rename_i heq
    rw [heq]
    exact ⟨rfl, rfl⟩
  · exact nomatch h

/-- Updates behind others are made when all of those were accepted. -/
theorem updateEach_append_eq (us vs : List StateUpdate) (s : σ) :
    updateEach (us ++ vs) s =
      match updateEach us s with
      | (.ok _, s) => updateEach vs s
      | (.error e, s) => (.error e, s) := by
  induction us generalizing s with
  | nil => rfl
  | cons u us ih =>
    rw [List.cons_append, updateEach, updateEach]
    split
    · exact ih _
    · rfl

theorem updateEach_append {us vs : List StateUpdate} {s : σ}
    (h : (updateEach (us ++ vs) s).1 = .ok ()) :
    (updateEach us s).1 = .ok () ∧
      updateEach (us ++ vs) s = updateEach vs (updateEach us s).2 := by
  rw [updateEach_append_eq] at h ⊢
  rcases hus : updateEach us s with ⟨answer, after⟩
  rw [hus] at h
  cases answer with
  | ok _ => exact ⟨rfl, rfl⟩
  | error e => exact nomatch h

theorem servers_eq_map (endpoint : Address) (s : σ) :
    DesiredStore.servers endpoint s =
      (fun e : Option StateEntry => (e.map (·.servers)).getD []) <$>
        DesiredStore.get endpoint s := by
  unfold DesiredStore.servers
  cases DesiredStore.get endpoint s <;> rfl

theorem clients_eq_map (endpoint : Address) (s : σ) :
    DesiredStore.clients endpoint s =
      (fun e : Option StateEntry => (e.map (·.clients)).getD []) <$>
        DesiredStore.get endpoint s := by
  unfold DesiredStore.clients
  cases DesiredStore.get endpoint s <;> rfl

/-- What accepted updates make of one part of the entry of an endpoint, when one update makes `step`
of it: all steps of its own updates, in order. -/
theorem part_updateEach {α : Type} (part : Address → σ → Except StorageError α)
    {step : StateUpdate → α → α}
    (happly : ∀ {u : StateUpdate} {s : σ}, u.Sound → (DesiredStore.apply u s).1 = .ok () →
      part u.endpoint (DesiredStore.apply u s).2 = step u <$> part u.endpoint s)
    (hother : ∀ {u : StateUpdate} {s : σ} {e : Address}, e ≠ u.endpoint →
      (DesiredStore.apply u s).1 = .ok () → part e (DesiredStore.apply u s).2 = part e s)
    {us : List StateUpdate} {s : σ} (hus : ∀ u ∈ us, u.Sound)
    (hok : (updateEach us s).1 = .ok ()) (e : Address) :
    part e (updateEach us s).2 =
      (fun a => (updatesAt e us).foldl (fun a u => step u a) a) <$> part e s := by
  induction us generalizing s with
  | nil =>
    show part e s = id <$> part e s
    rw [id_map]
  | cons u us ih =>
    obtain ⟨hu, hstep⟩ := updateEach_cons hok
    rw [hstep] at hok ⊢
    -- The other updates start from the part as the first one left it, so the step of `u` is inner.
    rw [ih (fun v hv => hus v (List.mem_cons_of_mem u hv)) hok, updatesAt, updatesAt]
    by_cases he : u.endpoint = e
    · rw [List.filter_cons_of_pos (by simpa using he), ← he,
        happly (hus u List.mem_cons_self) hu, Functor.map_map]
      rfl
    · rw [List.filter_cons_of_neg (by simpa using he), hother (Ne.symm he) hu]

variable [LawfulStore σ]

theorem get_updateEach_of_ne {us : List StateUpdate} {s : σ} {endpoint : Address}
    (hne : ∀ u ∈ us, u.endpoint ≠ endpoint) (hok : (updateEach us s).1 = .ok ()) :
    DesiredStore.get endpoint (updateEach us s).2 = DesiredStore.get endpoint s := by
  induction us generalizing s with
  | nil => rfl
  | cons u us ih =>
    obtain ⟨hu, hstep⟩ := updateEach_cons hok
    rw [hstep] at hok ⊢
    rw [ih (fun v hv => hne v (List.mem_cons_of_mem u hv)) hok]
    exact LawfulStore.get_apply_of_ne (Ne.symm (hne u List.mem_cons_self)) hu

theorem servers_apply {u : StateUpdate} {s : σ} (hu : u.Sound)
    (hok : (DesiredStore.apply u s).1 = .ok ()) :
    DesiredStore.servers u.endpoint (DesiredStore.apply u s).2 =
      (fun old => u.servers.foldl StateEntry.addServer old) <$>
        DesiredStore.servers u.endpoint s := by
  obtain ⟨old, hold, hnew⟩ := LawfulStore.get_apply hu hok
  rw [servers_eq_map, servers_eq_map, hold, hnew]
  cases old <;> rfl

theorem clients_apply {u : StateUpdate} {s : σ} (hu : u.Sound)
    (hok : (DesiredStore.apply u s).1 = .ok ()) :
    DesiredStore.clients u.endpoint (DesiredStore.apply u s).2 =
      (fun old => u.clients.foldl StateEntry.putClient old) <$>
        DesiredStore.clients u.endpoint s := by
  obtain ⟨old, hold, hnew⟩ := LawfulStore.get_apply hu hok
  rw [clients_eq_map, clients_eq_map, hold, hnew]
  cases old <;> rfl

theorem servers_updateEach {us : List StateUpdate} {s : σ} (hus : ∀ u ∈ us, u.Sound)
    (hok : (updateEach us s).1 = .ok ()) (e : Address) :
    DesiredStore.servers e (updateEach us s).2 =
      (fun old => ((updatesAt e us).flatMap (·.servers)).foldl StateEntry.addServer old) <$>
        DesiredStore.servers e s := by
  have h := part_updateEach (fun e (s : σ) => DesiredStore.servers e s) servers_apply
    (fun hne h => by rw [servers_eq_map, servers_eq_map, LawfulStore.get_apply_of_ne hne h])
    hus hok e
  simp only [List.foldl_flatMap]
  exact h

theorem clients_updateEach {us : List StateUpdate} {s : σ} (hus : ∀ u ∈ us, u.Sound)
    (hok : (updateEach us s).1 = .ok ()) (e : Address) :
    DesiredStore.clients e (updateEach us s).2 =
      (fun old => ((updatesAt e us).flatMap (·.clients)).foldl StateEntry.putClient old) <$>
        DesiredStore.clients e s := by
  have h := part_updateEach (fun e (s : σ) => DesiredStore.clients e s) clients_apply
    (fun hne h => by rw [clients_eq_map, clients_eq_map, LawfulStore.get_apply_of_ne hne h])
    hus hok e
  simp only [List.foldl_flatMap]
  exact h

end Updates

/-! ## The updates of rules -/

/-- The rules that are in force. -/
def active (rules : List Rule) : List Rule := rules.filter (·.state = .active)

/-- The servers that rules ask for on an endpoint. -/
def serversAsked (endpoint : Address) (rules : List Rule) : List ServerEntry :=
  ((active rules).filter (·.dst = endpoint)).map Rule.server

/-- The client entries that rules ask for on an endpoint. -/
def clientsAsked (endpoint : Address) (rules : List Rule) : List ClientEntry :=
  ((active rules).filter (·.src = endpoint)).map Rule.client

theorem remaining_ofRules (t : Topology) (rules : List Rule) :
    (Registration.ofRules t rules).remaining = (active rules).flatMap (updatesOf t) := by
  have hfilter : rules.filter (·.state ≠ .inactive) = active rules := by
    refine List.filter_congr fun r _ => ?_
    cases r.state <;> rfl
  rw [Registration.ofRules, hfilter]

theorem sound_of_mem_updatesOf {t : Topology} {rule : Rule} (h : rule.port < portBound) :
    ∀ u ∈ updatesOf t rule, u.Sound := by
  intro u hu
  rw [updatesOf] at hu
  rcases List.mem_append.mp hu with hu | hu
  · split at hu
    · rw [List.mem_singleton.mp hu]
      exact ⟨by simpa using h, by simp⟩
    · exact absurd hu List.not_mem_nil
  · split at hu
    · rw [List.mem_singleton.mp hu]
      exact ⟨by simp, by simpa using h⟩
    · exact absurd hu List.not_mem_nil

/-- Only endpoints of the agent have updates. -/
theorem isLocal_of_mem_updatesOf {t : Topology} {rule : Rule} :
    ∀ u ∈ updatesOf t rule, t.isLocal u.endpoint = true ∧
      (u.endpoint = rule.dst ∨ u.endpoint = rule.src) := by
  intro u hu
  rw [updatesOf] at hu
  rcases List.mem_append.mp hu with hu | hu
  · split at hu
    · rename_i hl
      rw [List.mem_singleton.mp hu]
      exact ⟨hl, Or.inl rfl⟩
    · exact absurd hu List.not_mem_nil
  · split at hu
    · rename_i hl
      rw [List.mem_singleton.mp hu]
      exact ⟨hl, Or.inr rfl⟩
    · exact absurd hu List.not_mem_nil

theorem updatesOf_eq_nil {t : Topology} {rule : Rule} :
    updatesOf t rule = [] ↔ t.isLocal rule.dst = false ∧ t.isLocal rule.src = false := by
  rw [updatesOf]
  cases t.isLocal rule.dst <;> cases t.isLocal rule.src <;> simp

theorem flatMap_updatesAt_nil {β : Type} {part : StateUpdate → List β} (us : List StateUpdate)
    (h : ∀ u ∈ us, part u = []) (e : Address) : (updatesAt e us).flatMap part = [] := by
  rw [List.flatMap_eq_nil_iff]
  exact fun u hu => h u (List.mem_filter.mp hu).1

theorem updatesAt_append (e : Address) (us vs : List StateUpdate) :
    updatesAt e (us ++ vs) = updatesAt e us ++ updatesAt e vs := List.filter_append ..

theorem servers_updatesOf {t : Topology} {e : Address} (he : t.isLocal e = true) (rule : Rule) :
    (updatesAt e (updatesOf t rule)).flatMap (·.servers) =
      if rule.dst = e then [rule.server] else [] := by
  rw [updatesOf, updatesAt_append, List.flatMap_append]
  rw [flatMap_updatesAt_nil (if t.isLocal rule.src then _ else []) (by split <;> simp),
    List.append_nil, updatesAt]
  by_cases hd : rule.dst = e
  · rw [if_pos (hd ▸ he), if_pos hd]
    simp [hd, Rule.server]
  · rw [if_neg hd]
    split <;> simp [hd]

theorem clients_updatesOf {t : Topology} {e : Address} (he : t.isLocal e = true) (rule : Rule) :
    (updatesAt e (updatesOf t rule)).flatMap (·.clients) =
      if rule.src = e then [rule.client] else [] := by
  rw [updatesOf, updatesAt_append, List.flatMap_append]
  rw [flatMap_updatesAt_nil (if t.isLocal rule.dst then _ else []) (by split <;> simp),
    List.nil_append, updatesAt]
  by_cases hs : rule.src = e
  · rw [if_pos (hs ▸ he), if_pos hs]
    simp [hs, Rule.client]
  · rw [if_neg hs]
    split <;> simp [hs]

/-- What all rules ask of one part of an entry, when each of them asks for at most one thing. -/
theorem flatMap_updatesAt {β : Type} {part : StateUpdate → List β} {f : Rule → List StateUpdate}
    {p : Rule → Prop} [DecidablePred p] {x : Rule → β} {e : Address}
    (h : ∀ rule, (updatesAt e (f rule)).flatMap part = if p rule then [x rule] else [])
    (rules : List Rule) :
    (updatesAt e (rules.flatMap f)).flatMap part = (rules.filter (p ·)).map x := by
  induction rules with
  | nil => rfl
  | cons rule rules ih =>
    rw [List.flatMap_cons, updatesAt_append, List.flatMap_append, h, ih]
    by_cases hp : p rule <;> simp [hp]

theorem servers_remaining {t : Topology} {e : Address} (he : t.isLocal e = true)
    (rules : List Rule) :
    (updatesAt e (Registration.ofRules t rules).remaining).flatMap (·.servers) =
      serversAsked e rules := by
  rw [remaining_ofRules]
  exact flatMap_updatesAt (servers_updatesOf he) (active rules)

theorem clients_remaining {t : Topology} {e : Address} (he : t.isLocal e = true)
    (rules : List Rule) :
    (updatesAt e (Registration.ofRules t rules).remaining).flatMap (·.clients) =
      clientsAsked e rules := by
  rw [remaining_ofRules]
  exact flatMap_updatesAt (clients_updatesOf he) (active rules)

/-! ## Registering -/

/-- The rules without an endpoint of the agent. -/
def strangers (t : Topology) (rules : List Rule) : List Rule :=
  (active rules).filter fun r => !t.isLocal r.src && !t.isLocal r.dst

/-- What the report on rules adds to an earlier one. -/
def reportOn (t : Topology) (rules : List Rule) (report : RegisterReport) : RegisterReport :=
  ⟨report.registered + ((active rules).length - (strangers t rules).length),
    report.rejected ++ strangers t rules⟩

theorem active_cons_of_inactive {rule : Rule} (h : rule.state = .inactive) (rules : List Rule) :
    active (rule :: rules) = active rules :=
  List.filter_cons_of_neg (by simp [h])

theorem active_cons_of_not_inactive {rule : Rule} (h : rule.state ≠ .inactive)
    (rules : List Rule) : active (rule :: rules) = rule :: active rules := by
  refine List.filter_cons_of_pos ?_
  cases hs : rule.state with
  | active => rfl
  | inactive => exact absurd hs h

theorem length_strangers_le (t : Topology) (rules : List Rule) :
    (strangers t rules).length ≤ (active rules).length := List.length_filter_le _ _

/-- When all updates are accepted, registering comes to its end with all of them made. -/
theorem registerEach_ok {σ η : Type} [DesiredStore σ] {t : Topology} {rules : List Rule}
    {report : RegisterReport} {d : Deployment σ η}
    (hok : (updateEach ((active rules).flatMap (updatesOf t)) d.state).1 = .ok ()) :
    registerEach t rules report d = (.ok (reportOn t rules report),
      { d with
        state := (updateEach ((active rules).flatMap (updatesOf t)) d.state).2
        notices := d.notices ++ (strangers t rules).map .ruleRejected }) := by
  induction rules generalizing report d with
  | nil => simp [registerEach, reportOn, strangers, active, updateEach]
  | cons rule rules ih =>
    rw [registerEach]
    by_cases hi : rule.state = .inactive
    · have hactive := active_cons_of_inactive hi rules
      have hstrangers : strangers t (rule :: rules) = strangers t rules := by
        rw [strangers, hactive, strangers]
      rw [hactive] at hok ⊢
      rw [if_pos hi, ih hok, reportOn, reportOn, hactive, hstrangers]
    · have hactive := active_cons_of_not_inactive hi rules
      rw [hactive, List.flatMap_cons] at hok ⊢
      rw [if_neg hi]
      have hle := length_strangers_le t rules
      split
      · rename_i hnil
        obtain ⟨hd, hs⟩ := updatesOf_eq_nil.mp hnil
        have hstrangers : strangers t (rule :: rules) = rule :: strangers t rules := by
          rw [strangers, hactive, List.filter_cons_of_pos (by simp [hd, hs]), strangers]
        rw [hnil, List.nil_append] at hok ⊢
        rw [ih (by exact hok), reportOn, reportOn, hactive, hstrangers]
        simp [Deployment.say]
      · rename_i hsome
        -- The updates of this rule are made before those of the rules after it.
        obtain ⟨hfirst, hrest⟩ := updateEach_append hok
        rw [hrest] at hok ⊢
        have hstrangers : strangers t (rule :: rules) = strangers t rules := by
          rw [strangers, hactive, List.filter_cons_of_neg, strangers]
          intro h
          simp only [Bool.and_eq_true, Bool.not_eq_true'] at h
          exact hsome (updatesOf_eq_nil.mpr ⟨h.2, h.1⟩)
        rcases heach : updateEach (updatesOf t rule) d.state with ⟨answer, state⟩
        rw [heach] at hfirst hok
        obtain rfl : answer = .ok () := hfirst
        dsimp only
        rw [ih (by exact hok), reportOn, reportOn, hactive, hstrangers]
        have hcount : report.registered + 1 + ((active rules).length - (strangers t rules).length) =
            report.registered + ((rule :: active rules).length - (strangers t rules).length) := by
          rw [List.length_cons]
          omega
        rw [hcount]

/-- When an update is refused, registering comes to its end there with what was made until then. -/
theorem registerEach_error {σ η : Type} [DesiredStore σ] {t : Topology} {rules : List Rule}
    {report : RegisterReport} {d : Deployment σ η} {e : StorageError}
    (h : (updateEach ((active rules).flatMap (updatesOf t)) d.state).1 = .error e) :
    (registerEach t rules report d).1 = .error (.storage e) ∧
      (registerEach t rules report d).2.state =
        (updateEach ((active rules).flatMap (updatesOf t)) d.state).2 := by
  induction rules generalizing report d with
  | nil => exact nomatch h
  | cons rule rules ih =>
    rw [registerEach]
    by_cases hi : rule.state = .inactive
    · rw [active_cons_of_inactive hi] at h ⊢
      rw [if_pos hi]
      exact ih h
    · rw [active_cons_of_not_inactive hi, List.flatMap_cons] at h ⊢
      rw [if_neg hi]
      split
      · rename_i hnil
        rw [hnil, List.nil_append] at h ⊢
        exact ih (d := d.say (.ruleRejected rule)) h
      · rw [updateEach_append_eq] at h ⊢
        rcases heach : updateEach (updatesOf t rule) d.state with ⟨answer, state⟩
        rw [heach] at h
        cases answer with
        | ok _ => exact ih (d := { d with state }) h
        | error e' =>
          obtain rfl : e' = e := Except.error.inj h
          exact ⟨rfl, rfl⟩

theorem registerTraffic_ok {σ η : Type} [DesiredStore σ] {a : Agent σ η} {rules : List Rule}
    (hok : (updateEach (Registration.ofRules a.topology rules).remaining
      a.deployment.state).1 = .ok ()) :
    (a.registerTraffic rules).1 = .ok (reportOn a.topology rules ⟨0, []⟩) ∧
      (a.registerTraffic rules).2.deployment.state =
        (updateEach (Registration.ofRules a.topology rules).remaining a.deployment.state).2 := by
  rw [remaining_ofRules] at hok ⊢
  rw [registerTraffic, registerEach_ok hok]
  exact ⟨rfl, rfl⟩

theorem registerTraffic_error {σ η : Type} [DesiredStore σ] {a : Agent σ η} {rules : List Rule}
    {e : StorageError} (herror : (updateEach (Registration.ofRules a.topology rules).remaining
      a.deployment.state).1 = .error e) :
    (a.registerTraffic rules).1 = .error (.storage e) ∧
      (a.registerTraffic rules).2.deployment.state =
        (updateEach (Registration.ofRules a.topology rules).remaining a.deployment.state).2 := by
  rw [remaining_ofRules] at herror ⊢
  exact registerEach_error herror

/-- What registering rules makes of desired state: on every endpoint of the agent what the active
rules ask for is merged into what was there, and no other entry is touched. -/
structure Registered (t : Topology) (rules : List Rule) (before after : DesiredState) : Prop where
  servers : ∀ e, t.isLocal e = true → DesiredStore.servers e after =
    (fun old => old ++ newcomers old (serversAsked e rules)) <$> DesiredStore.servers e before
  clients : ∀ e, t.isLocal e = true → ∃ merge : List ClientEntry → List ClientEntry,
    (∀ old, Merged old (clientsAsked e rules) (merge old)) ∧
      DesiredStore.clients e after = merge <$> DesiredStore.clients e before
  untouched : ∀ e, (t.isLocal e = false ∨ serversAsked e rules = [] ∧ clientsAsked e rules = []) →
    DesiredStore.get e after = DesiredStore.get e before

theorem sound_remaining {t : Topology} {rules : List Rule}
    (hports : ∀ r ∈ rules, r.port < portBound) :
    ∀ u ∈ (Registration.ofRules t rules).remaining, u.Sound := by
  intro u hu
  rw [remaining_ofRules] at hu
  obtain ⟨rule, hrule, hu⟩ := List.mem_flatMap.mp hu
  exact sound_of_mem_updatesOf (hports rule (List.mem_filter.mp hrule).1) u hu

/-- An endpoint of which nothing is asked has no updates. -/
theorem ne_of_mem_remaining {t : Topology} {rules : List Rule} {e : Address}
    (he : t.isLocal e = false ∨ serversAsked e rules = [] ∧ clientsAsked e rules = []) :
    ∀ u ∈ (Registration.ofRules t rules).remaining, u.endpoint ≠ e := by
  intro u hu heq
  rw [remaining_ofRules] at hu
  obtain ⟨rule, hrule, hu⟩ := List.mem_flatMap.mp hu
  obtain ⟨hlocal, hend⟩ := isLocal_of_mem_updatesOf u hu
  rw [heq] at hlocal hend
  rcases he with he | ⟨hs, hc⟩
  · rw [he] at hlocal
    exact Bool.noConfusion hlocal
  · rcases hend with hend | hend
    · have hmem : rule ∈ (active rules).filter (·.dst = e) :=
        List.mem_filter.mpr ⟨hrule, by simp [hend]⟩
      rw [List.map_eq_nil_iff.mp hs] at hmem
      exact List.not_mem_nil hmem
    · have hmem : rule ∈ (active rules).filter (·.src = e) :=
        List.mem_filter.mpr ⟨hrule, by simp [hend]⟩
      rw [List.map_eq_nil_iff.mp hc] at hmem
      exact List.not_mem_nil hmem

theorem registered_updateEach {t : Topology} {rules : List Rule} {s : DesiredState}
    (hports : ∀ r ∈ rules, r.port < portBound)
    (hok : (updateEach (Registration.ofRules t rules).remaining s).1 = .ok ()) :
    Registered t rules s (updateEach (Registration.ofRules t rules).remaining s).2 where
  servers := by
    intro e he
    rw [servers_updateEach (sound_remaining hports) hok, servers_remaining he]
    simp only [foldl_addServer]
  clients := by
    intro e he
    refine ⟨_, fun old => merged_foldl old (clientsAsked e rules), ?_⟩
    rw [clients_updateEach (sound_remaining hports) hok, clients_remaining he]
  untouched := fun e he => get_updateEach_of_ne (ne_of_mem_remaining he) hok

/-- Registering rules, when the store accepts the updates that they ask for, ends with exactly what
the rules ask for in the desired state and with an exact report; besides, only the log grows. -/
theorem registerTraffic_exact {η : Type} (a : Agent DesiredState η) (rules : List Rule)
    (hports : ∀ r ∈ rules, r.port < portBound)
    (haccepted : (updateEach (Registration.ofRules a.topology rules).remaining
      a.deployment.state).1 = .ok ()) :
    ∃ report after,
      a.registerTraffic rules = (.ok report, a.put { a.deployment with
        state := after
        notices := a.deployment.notices ++ report.rejected.map .ruleRejected }) ∧
      Registered a.topology rules a.deployment.state after ∧
      report.rejected =
        (active rules).filter (fun r => !a.topology.isLocal r.src && !a.topology.isLocal r.dst) ∧
      report.registered + report.rejected.length +
        (rules.filter (·.state = .inactive)).length = rules.length := by
  have hregistered := registered_updateEach hports haccepted
  rw [remaining_ofRules] at haccepted hregistered
  refine ⟨reportOn a.topology rules ⟨0, []⟩, _, ?_, hregistered, ?_, ?_⟩
  · rw [registerTraffic, registerEach_ok haccepted, reportOn, List.nil_append]
  · rw [reportOn, List.nil_append, strangers]
  · have hsplit : (active rules).length + (rules.filter (·.state = .inactive)).length =
        rules.length := by
      have hfilter : rules.filter (·.state = .inactive) =
          rules.filter fun r => decide ¬(decide (r.state = .active) = true) := by
        refine List.filter_congr fun r _ => ?_
        cases r.state <;> rfl
      have hcount := List.length_eq_countP_add_countP (fun r : Rule => decide (r.state = .active))
        (l := rules)
      rw [List.countP_eq_length_filter, List.countP_eq_length_filter, ← hfilter] at hcount
      exact hcount.symm
    have hle := length_strangers_le a.topology rules
    simp only [reportOn, List.nil_append]
    omega

/-- An agent of one endpoint, without desired state. -/
def loopbackAgent : Agent DesiredState Unit :=
  ⟨.default, .root .loopback, [.root], .fresh (.memory .empty) () (.collected [])⟩

/-- Rules for that agent: one for a server and a client, one of strangers, one that is not in force,
and one that expects something else of the same client. -/
def loopbackRules : List Rule :=
  [⟨.loopback, .loopback, .tcp, 80, true, .allow, .active⟩,
    ⟨.unspecified, .unspecified, .udp, 53, true, .allow, .active⟩,
    ⟨.loopback, .loopback, .tcp, 81, true, .allow, .inactive⟩,
    ⟨.loopback, .loopback, .tcp, 80, false, .reject, .active⟩]

theorem registerTraffic_loopback :
    ∃ report after,
      loopbackAgent.registerTraffic loopbackRules = (.ok report, loopbackAgent.put
        { loopbackAgent.deployment with
          state := after
          notices := loopbackAgent.deployment.notices ++ report.rejected.map .ruleRejected }) ∧
      Registered (.root .loopback) loopbackRules (.memory .empty) after ∧
      report.rejected = [⟨.unspecified, .unspecified, .udp, 53, true, .allow, .active⟩] ∧
      report.registered = 2 := by
  obtain ⟨report, after, hrun, hstate, hrejected, hcount⟩ :=
    registerTraffic_exact loopbackAgent loopbackRules (by decide) (by rfl)
  have hstrangers : report.rejected =
      [⟨.unspecified, .unspecified, .udp, 53, true, .allow, .active⟩] := by
    rw [hrejected]
    decide
  refine ⟨report, after, hrun, hstate, hstrangers, ?_⟩
  rw [hstrangers] at hcount
  have hall : loopbackRules.length = 4 := rfl
  have hinactive : (loopbackRules.filter (·.state = .inactive)).length = 1 := by decide
  simp only [hall, hinactive, List.length_singleton] at hcount
  omega

end Agent

end PolicyProbe
