import PolicyProbe.Proofs.Agent.Faults
import PolicyProbe.Proofs.Agent.Liveness

/-!
Starting clients. A client that runs is kept; otherwise the scope has afterwards what its desired
state asks for (`Clients.Attended`): a new client that pings all destinations in their order, or
none, with the reason. Only clients come by this (`Deployment.ClientsOnly`), so in a start of
several scopes each of them is served as if it were alone (`Agent.Turns`). The report counts the
clients that are registered in the end (`Agent.clients_started`); a worker process that ends before
the call does is counted all the same, and `Agent.ended_client_counted` is an agent that reports
clients when none runs.
-/
namespace PolicyProbe

open Deployment

variable {σ η : Type}

/-- Whether a worker runs under a key can be looked up. -/
instance Deployment.decidableRuns (key : WorkerKey) (d : Deployment σ η) : Decidable (d.Runs key) :=
  decidable_of_iff ((key.registered? d).any (d.workers.isRunning ·) = true)
    (Option.any_eq_true _ _)

/-! ## What a client pings -/

/-- A destination is that of an entry, in every respect. -/
structure ClientEntry.Describes (c : ClientEntry) (destination : Destination) : Prop where
  protocol : destination.protocol = c.protocol
  port : destination.port = c.port
  address : destination.address = c.destination
  connected : destination.connected = c.connected
  action : destination.action = c.action

theorem ClientEntry.describes_toDestination (clients : List ClientEntry) :
    List.Forall₂ ClientEntry.Describes clients (clients.map ClientEntry.toDestination) := by
  refine List.forall₂_map_right_iff.mpr (List.forall₂_same.mpr fun c _ => ?_)
  exact ⟨rfl, rfl, rfl, rfl, rfl⟩

/-! ## What is left alone -/

namespace Deployment

/-- Neither the desired state nor a registered server has changed, and workers at most came. -/
structure ClientsOnly (d d' : Deployment σ η) : Prop where
  state : d'.state = d.state
  servers : d'.servers = d.servers
  workers : d.workers.Grows d'.workers

theorem ClientsOnly.refl (d : Deployment σ η) : ClientsOnly d d := ⟨rfl, rfl, .of_eq rfl⟩

theorem ClientsOnly.trans {d d' d'' : Deployment σ η} (h : ClientsOnly d d')
    (h' : ClientsOnly d' d'') : ClientsOnly d d'' where
  state := h'.state.trans h.state
  servers := h'.servers.trans h.servers
  workers := h.workers.trans h'.workers

theorem Started.only {runnable : Runnable} {d d' : Deployment σ η}
    {answer : Except TrafficError Nat} (h : Started runnable d answer d') : ClientsOnly d d' where
  state := by
    cases h with
    | employed _ _ _ hstate _ _ _ => exact hstate
    | failed _ hstate _ => exact hstate
    | refused _ _ _ hstate _ _ _ => exact hstate
  servers := h.registries.1
  workers := h.grows

/-- What a start answers depends on the host and on the number of the new worker. -/
theorem answer_start {d d₁ : Deployment σ η} (hworkers : d₁.workers = d.workers)
    (hhost : d₁.host = d.host) (os : Host η) (scope : Scope) (runnable : Runnable) :
    (d₁.start os scope runnable).1 = (d.start os scope runnable).1 := by
  rw [Deployment.start, Deployment.start]
  split
  · cases runnable with
    | client spec => rw [startTask, startTask, employ, employ, hworkers]
    | server spec =>
      simp only [startTask, hhost]
      split
      · rfl
      · simp only [employ, hworkers]
  · simp only [startProcess, hhost, hworkers]
    split
    · rfl
    · split <;> simp only [employ]

end Deployment

/-! ## One client -/

namespace Clients

variable [DesiredStore σ]

/-- How a scope is served by a start of its client, as the answer says and as the registry shows
afterwards. -/
structure Attended (settings : TrafficSettings) (scope : Scope) (endpoint : Address)
    (d : Deployment σ η) (answer : Except TrafficError (Option Nat)) (d' : Deployment σ η) :
    Prop where
  running : ∀ w, WorkerKey.registered? (.client scope.name) d = some w →
    d.workers.isRunning w = true →
      answer = .ok (some w) ∧ WorkerKey.registered? (.client scope.name) d' = some w
  gone : ∀ w, WorkerKey.registered? (.client scope.name) d = some w →
    d.workers.isRunning w = false → ∀ key : WorkerKey, key.registered? d' ≠ some w
  unread : ∀ e, ¬d.Runs (.client scope.name) →
    DesiredStore.clients endpoint d.state = .error e →
      answer = .error (.storage e) ∧ WorkerKey.registered? (.client scope.name) d' = none
  idle : ¬d.Runs (.client scope.name) → DesiredStore.clients endpoint d.state = .ok [] →
    answer = .ok none ∧ WorkerKey.registered? (.client scope.name) d' = none
  launched : ∀ clients, ¬d.Runs (.client scope.name) →
    DesiredStore.clients endpoint d.state = .ok clients → clients ≠ [] →
      (∃ e, answer = .error e ∧ WorkerKey.registered? (.client scope.name) d' = none) ∨
      ∃ w destinations, answer = .ok (some w) ∧
        WorkerKey.registered? (.client scope.name) d' = some w ∧ d.workers.next ≤ w ∧
        d'.workers.runnable? w = some (.client ⟨endpoint, destinations, settings⟩) ∧
        List.Forall₂ ClientEntry.Describes clients destinations

variable {settings : TrafficSettings} {scope : Scope} {endpoint : Address}
  {d d₁ d₂ d' : Deployment σ η} {answer : Except TrafficError (Option Nat)}

omit [DesiredStore σ] in
/-- A client that does not run is registered nowhere when its key is free or has another worker. -/
theorem not_registered_of_touches (hd : d.Rostered) (h : Touches (.client scope.name) d d')
    {w : Nat} (hw : WorkerKey.registered? (.client scope.name) d = some w)
    (hkey : WorkerKey.registered? (.client scope.name) d' ≠ some w) (key : WorkerKey) :
    key.registered? d' ≠ some w := by
  intro hstill
  by_cases hk : key = .client scope.name
  · subst hk
    exact hkey hstill
  · rw [h.others key hk] at hstill
    exact hk (hd.unshared _ key w hw hstill)

/-- A start of a client serves its scope. -/
theorem attended_start (os : Host η) (settings : TrafficSettings) (scope : Scope)
    (endpoint : Address) (hd : d.Rostered) :
    Attended settings scope endpoint d (start os settings scope endpoint d).1
      (start os settings scope endpoint d).2 := by
  have hkept := start_cases os settings scope endpoint d
  have hunread : ∀ e, DesiredStore.clients endpoint d.state = .error e →
      d.Runs (.client scope.name) ∨ (start os settings scope endpoint d).1 = .error (.storage e) :=
    fun e hread => start_unread os settings scope hread
  have hnothing : ∀ e, (start os settings scope endpoint d).1 = .error e →
      DesiredStore.clients endpoint d.state ≠ .ok [] :=
    fun e he => clients_ne_nil_of_start_error he
  have houtcome := start_outcome os settings scope endpoint d
  generalize start os settings scope endpoint d = r at hkept hunread hnothing houtcome ⊢
  obtain ⟨answer, d'⟩ := r
  constructor
  case running =>
    intro w hw hrunning
    rcases hkept with ⟨v, hv, -, heq⟩ | ⟨hdead, -⟩
    · obtain rfl := Option.some.inj (hw.symm.trans hv)
      obtain ⟨rfl, rfl⟩ := Prod.mk.inj heq
      exact ⟨rfl, hw⟩
    · exact absurd ⟨w, hw, hrunning⟩ hdead
  case gone =>
    intro w hw hdead
    cases houtcome with
    | @running v hv hrunning =>
      obtain rfl := Option.some.inj (hw.symm.trans hv)
      cases hdead.symm.trans hrunning
    | idle _ h =>
      refine not_registered_of_touches hd h.toTouches hw fun hstill => ?_
      cases h.free.symm.trans hstill
    | failed e h =>
      refine not_registered_of_touches hd h.toTouches hw fun hstill => ?_
      cases h.free.symm.trans hstill
    | launched _ _ h _ =>
      refine not_registered_of_touches hd h.toTouches hw fun hstill => ?_
      rw [Option.some.inj (h.registered.symm.trans hstill)] at h
      exact absurd h.new (Nat.not_le_of_lt (hd.employed _ w hw))
  case unread =>
    intro e hdead hread
    obtain rfl := (hunread e hread).resolve_left hdead
    cases houtcome with
    | failed _ h => exact ⟨rfl, h.free⟩
  case idle =>
    intro hdead hread
    cases houtcome with
    | @running w hw hrunning => exact absurd ⟨w, hw, hrunning⟩ hdead
    | idle _ h => exact ⟨rfl, h.free⟩
    | failed e h => exact absurd hread (hnothing e rfl)
    | launched hread' hne _ _ => exact absurd (Except.ok.inj (hread'.symm.trans hread)) hne
  case launched =>
    intro clients hdead hread hne
    cases houtcome with
    | @running w hw hrunning => exact absurd ⟨w, hw, hrunning⟩ hdead
    | idle hread' _ => exact absurd (Except.ok.inj (hread.symm.trans hread')) hne
    | failed e h => exact Or.inl ⟨e, rfl, h.free⟩
    | @launched w _ _ hread' _ h _ =>
      obtain rfl := Except.ok.inj (hread'.symm.trans hread)
      exact Or.inr ⟨w, _, rfl, h.registered, h.new, h.runs, ClientEntry.describes_toDestination _⟩

/-- What comes before the start and what comes after it make no difference to a scope that they
leave alone. -/
theorem Attended.widen (h : Attended settings scope endpoint d₁ answer d₂) (hd : d.Rostered)
    (hbefore : WorkerKey.registered? (.client scope.name) d₁ =
      WorkerKey.registered? (.client scope.name) d)
    (honly : ClientsOnly d d₁)
    (hafter : WorkerKey.registered? (.client scope.name) d' =
      WorkerKey.registered? (.client scope.name) d₂)
    (hworkers : d₂.workers.Grows d'.workers)
    (hentered : ∀ (key : WorkerKey) w, key.registered? d' = some w →
      key.registered? d = some w ∨ d.workers.next ≤ w) :
    Attended settings scope endpoint d answer d' := by
  have hsame : ∀ w, WorkerKey.registered? (.client scope.name) d = some w →
      d₁.workers.isRunning w = d.workers.isRunning w :=
    fun w hw => honly.workers.isRunning (hd.employed _ w hw)
  have hruns : d₁.Runs (.client scope.name) → d.Runs (.client scope.name) := by
    rintro ⟨w, hw, hrunning⟩
    rw [hbefore] at hw
    exact ⟨w, hw, (hsame w hw).symm.trans hrunning⟩
  have hreads : DesiredStore.clients endpoint d₁.state = DesiredStore.clients endpoint d.state := by
    rw [honly.state]
  constructor
  case running =>
    intro w hw hrunning
    rw [hafter]
    exact h.running w (hbefore.trans hw) ((hsame w hw).trans hrunning)
  case gone =>
    intro w hw hdead key hstill
    rcases hentered key w hstill with hold | hnew
    · obtain rfl := hd.unshared _ key w hw hold
      rw [hafter] at hstill
      exact h.gone w (hbefore.trans hw) ((hsame w hw).trans hdead) _ hstill
    · exact absurd (hd.employed _ w hw) (Nat.not_lt_of_le hnew)
  case unread =>
    intro e hdead hread
    rw [hafter]
    exact h.unread e (fun hrunning => hdead (hruns hrunning)) (hreads.trans hread)
  case idle =>
    intro hdead hread
    rw [hafter]
    exact h.idle (fun hrunning => hdead (hruns hrunning)) (hreads.trans hread)
  case launched =>
    intro clients hdead hread hne
    rw [hafter]
    refine (h.launched clients (fun hrunning => hdead (hruns hrunning)) (hreads.trans hread)
      hne).imp_right ?_
    rintro ⟨w, destinations, hanswer, hw, hnew, hrunnable, hpings⟩
    exact ⟨w, destinations, hanswer, hw, Nat.le_trans honly.workers.next hnew,
      hworkers.runnable? hrunnable, hpings⟩

/-- Either the answer is the client that is registered afterwards, which ran before or is new; or it
is none, and none is registered. -/
theorem Attended.cases (h : Attended settings scope endpoint d answer d') :
    (∃ w, answer = .ok (some w) ∧ WorkerKey.registered? (.client scope.name) d' = some w ∧
      (d.workers.isRunning w = true ∨ d.workers.next ≤ w)) ∨
    (∀ w, answer ≠ .ok (some w)) ∧ WorkerKey.registered? (.client scope.name) d' = none := by
  by_cases hruns : d.Runs (.client scope.name)
  · obtain ⟨w, hw, hrunning⟩ := hruns
    obtain ⟨hanswer, hkept⟩ := h.running w hw hrunning
    exact Or.inl ⟨w, hanswer, hkept, Or.inl hrunning⟩
  · cases hread : DesiredStore.clients endpoint d.state with
    | error e =>
      obtain ⟨rfl, hfree⟩ := h.unread e hruns hread
      exact Or.inr ⟨by simp, hfree⟩
    | ok clients =>
      by_cases hne : clients = []
      · obtain ⟨rfl, hfree⟩ := h.idle hruns (hne ▸ hread)
        exact Or.inr ⟨by simp, hfree⟩
      · rcases h.launched clients hruns hread hne with
          ⟨e, rfl, hfree⟩ | ⟨w, _, hanswer, hw, hnew, -⟩
        · exact Or.inr ⟨by simp, hfree⟩
        · exact Or.inl ⟨w, hanswer, hw, Or.inr hnew⟩

/-- The answer is the client that is registered afterwards. -/
theorem Attended.answer_eq (h : Attended settings scope endpoint d answer d') (w : Nat) :
    answer = .ok (some w) ↔ WorkerKey.registered? (.client scope.name) d' = some w := by
  rcases h.cases with ⟨v, rfl, hv, -⟩ | ⟨hnone, hfree⟩
  · rw [hv, Except.ok.injEq]
  · rw [hfree]
    exact ⟨fun hw => absurd hw (hnone w), fun hw => by cases hw⟩

/-- A client that is registered afterwards runs, or it is new. -/
theorem Attended.runs_or_new (h : Attended settings scope endpoint d answer d')
    (hgrows : d.workers.Grows d'.workers) {w : Nat}
    (hw : WorkerKey.registered? (.client scope.name) d' = some w) :
    d'.workers.isRunning w = true ∨ d.workers.next ≤ w := by
  rcases h.cases with ⟨v, -, hv, hold⟩ | ⟨-, hfree⟩
  · obtain rfl := Option.some.inj (hv.symm.trans hw)
    refine hold.imp_left fun hrunning => ?_
    rwa [hgrows.isRunning (Workforce.lt_next_of_isRunning hrunning)]
  · cases hfree.symm.trans hw

/-- A scope without a client that runs gets one exactly if its worker can be started. -/
theorem answer_start_eq (os : Host η) (settings : TrafficSettings) (scope : Scope)
    {clients : List ClientEntry} (hdead : ¬d.Runs (.client scope.name))
    (hread : DesiredStore.clients endpoint d.state = .ok clients) (hne : clients ≠ []) :
    (start os settings scope endpoint d).1 =
      (d.start os scope (.client (spec settings endpoint clients))).1.map some := by
  rcases start_cases os settings scope endpoint d with
    ⟨w, hw, hrunning, -⟩ | ⟨-, d₁, hvacated, -, hworkers, hhost, heq⟩
  · exact absurd ⟨w, hw, hrunning⟩ hdead
  · obtain ⟨c, rest, rfl⟩ := List.exists_cons_of_ne_nil hne
    have hstart := started_start os scope (.client (spec settings endpoint (c :: rest))) d₁
    rw [heq, launch, hvacated.state, hread, ← answer_start hworkers hhost]
    dsimp only
    rcases hr : d₁.start os scope (.client (spec settings endpoint (c :: rest))) with ⟨answer, d₂⟩
    rw [hr] at hstart
    cases answer with
    | error e => rfl
    | ok w =>
      have hfree : WorkerKey.registered? (.client scope.name) d₂ = none := (hvacated.ok hstart).2.1
      dsimp only
      rw [register_of_free hfree]
      rfl

theorem only_launch (os : Host η) (settings : TrafficSettings) (scope : Scope) (endpoint : Address)
    (d : Deployment σ η) : ClientsOnly d (launch os settings scope endpoint d).2 := by
  rw [launch]
  split
  · exact .refl d
  · exact .refl d
  · rename_i clients _ _
    have hstart := started_start os scope (.client (spec settings endpoint clients)) d
    split <;> rename_i heq <;> rw [heq] at hstart <;>
      exact hstart.only.trans ⟨rfl, rfl, .of_eq rfl⟩

theorem only_start (os : Host η) (settings : TrafficSettings) (scope : Scope) (endpoint : Address)
    (d : Deployment σ η) : ClientsOnly d (start os settings scope endpoint d).2 := by
  rcases start_cases os settings scope endpoint d with
    ⟨w, -, -, heq⟩ | ⟨-, d₁, hvacated, hservers, hworkers, -, heq⟩
  · rw [heq]
    exact .refl d
  · rw [heq]
    have hdiscarded : ClientsOnly d d₁ := ⟨hvacated.state, hservers, .of_eq hworkers⟩
    exact hdiscarded.trans (only_launch os settings scope endpoint d₁)

end Clients

/-! ## One client after another -/

/-- The start of the client of a scope, with what it answered. -/
structure ClientTurn where
  scope : Scope
  endpoint : Address
  answer : Except TrafficError (Option Nat)

namespace ClientTurn

/-- Whether there is a client afterwards. -/
def isStarted : ClientTurn → Bool
  | ⟨_, _, .ok (some _)⟩ => true
  | _ => false

/-- The line of a report on a client that could not be started. -/
def line? : ClientTurn → Option StartFailure
  | ⟨scope, endpoint, .error e⟩ => some (.client endpoint scope e)
  | _ => none

theorem isStarted_iff {t : ClientTurn} : t.isStarted = true ↔ ∃ w, t.answer = .ok (some w) := by
  obtain ⟨scope, endpoint, answer⟩ := t
  cases answer with
  | error e => simp [isStarted]
  | ok found => cases found <;> simp [isStarted]

/-- The report on the start of one client has its line, if it has one. -/
theorem failed_clientReport (scope : Scope) (endpoint : Address)
    (answer : Except TrafficError (Option Nat)) :
    (Agent.clientReport scope endpoint answer).failed =
      [ClientTurn.mk scope endpoint answer].filterMap line? := by
  cases answer with
  | error e => rfl
  | ok found => cases found <;> rfl

theorem started_clientReport (scope : Scope) (endpoint : Address)
    (answer : Except TrafficError (Option Nat)) :
    (Agent.clientReport scope endpoint answer).started =
      [ClientTurn.mk scope endpoint answer].countP isStarted := by
  cases answer with
  | error e => rfl
  | ok found => cases found <;> rfl

end ClientTurn

namespace Agent

/-- The report on a start is the sum of what it did for each scope. -/
structure Turns [DesiredStore σ] (settings : TrafficSettings)
    (pairs : List (Scope × Option Address)) (d : Deployment σ η)
    (all : StartReport × Deployment σ η) (turns : List ClientTurn) : Prop where
  scopes : turns.map (fun t => (t.scope, some t.endpoint)) = pairs.filter (·.2.isSome)
  attended : ∀ t ∈ turns, Clients.Attended settings t.scope t.endpoint d t.answer all.2
  lines : all.1.failed = turns.filterMap ClientTurn.line?
  counted : all.1.started = turns.countP ClientTurn.isStarted

variable [DesiredStore σ]

theorem Turns.mem {settings : TrafficSettings} {pairs : List (Scope × Option Address)}
    {d : Deployment σ η} {all : StartReport × Deployment σ η} {turns : List ClientTurn}
    (h : Turns settings pairs d all turns) {t : ClientTurn} (ht : t ∈ turns) :
    (t.scope, some t.endpoint) ∈ pairs := by
  have hmem : (t.scope, some t.endpoint) ∈ pairs.filter (·.2.isSome) := by
    rw [← h.scopes]
    exact List.mem_map_of_mem (f := fun t : ClientTurn => (t.scope, some t.endpoint)) ht
  exact (List.mem_filter.mp hmem).1

theorem Turns.exists_turn {settings : TrafficSettings} {pairs : List (Scope × Option Address)}
    {d : Deployment σ η} {all : StartReport × Deployment σ η} {turns : List ClientTurn}
    (h : Turns settings pairs d all turns) {scope : Scope} {endpoint : Address}
    (hmem : (scope, some endpoint) ∈ pairs) :
    ∃ t ∈ turns, t.scope = scope ∧ t.endpoint = endpoint := by
  have hturn : (scope, some endpoint) ∈ turns.map (fun t => (t.scope, some t.endpoint)) := by
    rw [h.scopes]
    exact List.mem_filter.mpr ⟨hmem, rfl⟩
  obtain ⟨t, ht, heq⟩ := List.mem_map.mp hturn
  obtain ⟨hscope, hendpoint⟩ := Prod.mk.inj heq
  exact ⟨t, ht, hscope, Option.some.inj hendpoint⟩

theorem only_startClientsIn (os : Host η) (settings : TrafficSettings)
    (pairs : List (Scope × Option Address)) (d : Deployment σ η) :
    ClientsOnly d (startClientsIn os settings pairs d).2 := by
  induction pairs generalizing d with
  | nil => exact .refl d
  | cons p rest ih =>
    obtain ⟨scope, endpoint⟩ := p
    cases endpoint with
    | none =>
      have hsaid : ClientsOnly d (d.say (.clientNotStarted scope)) := ⟨rfl, rfl, .of_eq rfl⟩
      exact hsaid.trans (ih _)
    | some endpoint =>
      have hlater := (Clients.only_start os settings scope endpoint d).trans (ih _)
      rw [startClientsIn]
      dsimp only
      split <;> exact hlater

theorem startClientsIn_cons (os : Host η) (settings : TrafficSettings) (scope : Scope)
    (endpoint : Address) (rest : List (Scope × Option Address)) (d : Deployment σ η) :
    startClientsIn os settings ((scope, some endpoint) :: rest) d =
      let first := Clients.start os settings scope endpoint d
      let later := startClientsIn os settings rest first.2
      ((clientReport scope endpoint first.1).append later.1, later.2) := by
  simp only [startClientsIn_eq, attemptEach, clientAttempt]

variable [StoreContent σ]

theorem turns_startClientsIn (os : Host η) (settings : TrafficSettings)
    {pairs : List (Scope × Option Address)} (hnames : (pairs.map (·.1.name)).Nodup)
    {d : Deployment σ η} (hd : d.Rostered) :
    ∃ turns, Turns settings pairs d (startClientsIn os settings pairs d) turns := by
  induction pairs generalizing d with
  | nil => exact ⟨[], rfl, fun _ ht => absurd ht List.not_mem_nil, rfl, rfl⟩
  | cons p rest ih =>
    obtain ⟨hfresh, hdistinct⟩ := List.nodup_cons.mp hnames
    have hconfined : Confined (fun _ => True) (fun _ => True) d
        (startClientsIn os settings (p :: rest) d).2 :=
      confined_startClientsIn (fun _ _ => ⟨trivial, fun _ _ => trivial⟩) os settings d
    obtain ⟨scope, endpoint⟩ := p
    cases endpoint with
    | none =>
      have hsaid : ClientsOnly d (d.say (.clientNotStarted scope)) := ⟨rfl, rfl, .of_eq rfl⟩
      obtain ⟨turns, hturns⟩ := ih hdistinct (d := d.say (.clientNotStarted scope))
        (hd.congr rfl rfl (Nat.le_refl _))
      refine ⟨turns, hturns.scopes, fun t ht => ?_, hturns.lines, hturns.counted⟩
      exact (hturns.attended t ht).widen hd rfl hsaid rfl (.of_eq rfl) hconfined.entered
    | some endpoint =>
      rw [startClientsIn_cons] at hconfined ⊢
      have hfirst := Clients.attended_start os settings scope endpoint hd
      have honly := Clients.only_start os settings scope endpoint d
      have hstart : Confined (· = scope.name) (fun _ => True) d
          (Clients.start os settings scope endpoint d).2 := by
        refine Clients.confined_start ?_ os settings endpoint d
        rfl
      generalize Clients.start os settings scope endpoint d = first at *
      have hrest : Confined (· ∈ rest.map (·.1.name)) (fun _ => True) first.2
          (startClientsIn os settings rest first.2).2 :=
        confined_startClientsIn (fun q hq =>
          ⟨List.mem_map_of_mem (f := fun q => q.1.name) hq, fun _ _ => trivial⟩) os settings first.2
      have hgrows := (only_startClientsIn os settings rest first.2).workers
      obtain ⟨turns, hturns⟩ := ih hdistinct (hstart.rostered hd)
      refine ⟨⟨scope, endpoint, first.1⟩ :: turns, ?_, ?_, ?_, ?_⟩
      · rw [List.map_cons, hturns.scopes]
        rfl
      · refine List.forall_mem_cons.mpr ⟨?_, fun t ht => ?_⟩
        · -- The later starts are in other scopes.
          exact hfirst.widen hd rfl (.refl d) (hrest.others (.client scope.name) hfresh) hgrows
            hconfined.entered
        · have hother : ¬t.scope.name = scope.name := fun heq =>
            hfresh (List.mem_map.mpr ⟨_, hturns.mem ht, heq⟩)
          exact (hturns.attended t ht).widen hd (hstart.others (.client t.scope.name) hother) honly
            rfl (.of_eq rfl) hconfined.entered
      · simp only [StartReport.append, hturns.lines, ClientTurn.failed_clientReport]
        rw [← List.filterMap_append, List.singleton_append]
      · simp only [StartReport.append, hturns.counted, ClientTurn.started_clientReport]
        rw [← List.countP_append, List.singleton_append]

/-! ## All clients -/

/-- What the start of the client of a scope comes to. -/
structure ClientStarted (os : Host η) (settings : TrafficSettings) (scopes : List Scope)
    (scope : Scope) (endpoint : Address) (d : Deployment σ η)
    (r : Except TrafficError (Option Nat) × Deployment σ η) : Prop where
  attended : Clients.Attended settings scope endpoint d r.1 r.2
  kept : d.Runs (.client scope.name) → r.2 = d
  spawned : ∀ clients, ¬d.Runs (.client scope.name) →
    DesiredStore.clients endpoint d.state = .ok clients → clients ≠ [] →
      r.1 = (d.start os scope (.client (Clients.spec settings endpoint clients))).1.map some
  only : ClientsOnly d r.2
  manned : Manned scopes r.2

/-- What a start of clients in some scopes comes to, with the report on it. -/
structure ClientsStarted (settings : TrafficSettings) (scopes : List Scope)
    (pairs : List (Scope × Option Address)) (d : Deployment σ η)
    (all : StartReport × Deployment σ η) : Prop where
  turns : ∃ turns, Turns settings pairs d all turns
  registered : all.1.started =
    pairs.countP fun p => ((WorkerKey.client p.1.name).registered? all.2).isSome
  alive : ∀ p ∈ pairs, ∀ w, (WorkerKey.client p.1.name).registered? all.2 = some w →
    all.2.workers.isRunning w = true ∨ all.2.workers.Ended w
  running : (∀ w, d.workers.next ≤ w → ¬all.2.workers.Ended w) →
    all.1.started = pairs.countP fun p => decide (all.2.Runs (.client p.1.name))
  manned : Manned scopes all.2

variable {settings : TrafficSettings} {scopes : List Scope}

theorem clientStarted_start {d : Deployment σ η} (hd : Manned scopes d) (os : Host η)
    (settings : TrafficSettings) {scope : Scope} (hscope : scope ∈ scopes) (endpoint : Address) :
    ClientStarted os settings scopes scope endpoint d
      (Clients.start os settings scope endpoint d) where
  attended := Clients.attended_start os settings scope endpoint hd.rostered
  kept hruns := by
    rcases Clients.start_cases os settings scope endpoint d with ⟨w, -, -, heq⟩ | ⟨hdead, -⟩
    · rw [heq]
    · exact absurd hruns hdead
  spawned _ hdead hread hne := Clients.answer_start_eq os settings scope hdead hread hne
  only := Clients.only_start os settings scope endpoint d
  manned := hd.step (.client os settings hscope endpoint)

omit [StoreContent σ] in
/-- The report counts the clients that are registered in the end. -/
theorem Turns.started_eq {pairs : List (Scope × Option Address)} {d : Deployment σ η}
    {all : StartReport × Deployment σ η} {turns : List ClientTurn}
    (h : Turns settings pairs d all turns)
    (hunlocated : ∀ scope, (scope, none) ∈ pairs →
      (WorkerKey.client scope.name).registered? all.2 = none) :
    all.1.started =
      pairs.countP fun p => ((WorkerKey.client p.1.name).registered? all.2).isSome := by
  let registered (p : Scope × Option Address) : Bool :=
    ((WorkerKey.client p.1.name).registered? all.2).isSome
  have hturn : ∀ t ∈ turns, t.isStarted = true ↔ registered (t.scope, some t.endpoint) = true := by
    intro t ht
    rw [ClientTurn.isStarted_iff, Option.isSome_iff_exists]
    exact exists_congr (h.attended t ht).answer_eq
  have hlocated : ∀ p ∈ pairs, (registered p && p.2.isSome) = true ↔ registered p = true := by
    rintro ⟨scope, endpoint⟩ hp
    cases endpoint with
    | some endpoint => rw [Option.isSome_some, Bool.and_true]
    | none =>
      simp only [registered, hunlocated scope hp]
      rfl
  calc all.1.started = turns.countP ClientTurn.isStarted := h.counted
    _ = turns.countP (fun t => registered (t.scope, some t.endpoint)) := List.countP_congr hturn
    _ = (pairs.filter (·.2.isSome)).countP registered := by
      rw [← h.scopes, List.countP_map]
      rfl
    _ = pairs.countP registered := by
      rw [List.countP_filter]
      exact List.countP_congr hlocated

omit [StoreContent σ] in
/-- Of these clients, those run that have not ended meanwhile. -/
theorem Turns.clientsStarted {pairs : List (Scope × Option Address)} {d : Deployment σ η}
    {all : StartReport × Deployment σ η} {turns : List ClientTurn}
    (h : Turns settings pairs d all turns) (hgrows : d.workers.Grows all.2.workers)
    (hunlocated : ∀ scope, (scope, none) ∈ pairs →
      (WorkerKey.client scope.name).registered? all.2 = none)
    (hmanned : Manned scopes all.2) : ClientsStarted settings scopes pairs d all := by
  have halive : ∀ (key : WorkerKey) w, key.registered? all.2 = some w →
      all.2.workers.isRunning w = true ∨ all.2.workers.Ended w :=
    fun key w hw => Workforce.isRunning_or_ended (hmanned.rostered.employed key w hw)
      (hmanned.unstopped key w hw)
  have hregistered := h.started_eq hunlocated
  refine ⟨⟨turns, h⟩, hregistered, fun p _ => halive _, fun hends => ?_, hmanned⟩
  rw [hregistered]
  refine List.countP_congr fun p hp => ?_
  rw [Option.isSome_iff_exists, decide_eq_true_iff]
  refine exists_congr fun w => (and_iff_left_of_imp fun hw => ?_).symm
  obtain ⟨scope, endpoint⟩ := p
  cases endpoint with
  | none => cases (hunlocated scope hp).symm.trans hw
  | some endpoint =>
    obtain ⟨t, ht, rfl, rfl⟩ := h.exists_turn hp
    rcases (h.attended t ht).runs_or_new hgrows hw with hrunning | hnew
    · exact hrunning
    · exact (halive _ w hw).resolve_right (hends w hnew)

omit [DesiredStore σ] [StoreContent σ] in
/-- A request names no scope twice if the topology does not. -/
theorem nodup_resolve {a : Agent σ η} (hscopes : scopesOf a.topology = .ok a.scopes)
    (hnames : a.topology.names.Nodup) {name : Option String}
    {pairs : List (Scope × Option Address)} (hresolve : a.resolve name = .ok pairs) :
    (pairs.map (·.1.name)).Nodup := by
  cases name with
  | some name =>
    obtain ⟨scope, rfl, -, -⟩ := resolve_some hresolve
    exact List.nodup_singleton _
  | none =>
    have hmap : pairs.map (·.1.name) = a.scopes.map Scope.name := by
      rw [← Except.ok.inj hresolve, List.map_map]
      rfl
    rw [hmap]
    by_cases hmode : a.topology.namespaceMode = true
    · rwa [names_of_scopesOf hscopes hmode]
    · rw [scopesOf, if_neg hmode] at hscopes
      rw [← Except.ok.inj hscopes]
      exact List.nodup_singleton _

/-- A client is registered only for a scope whose endpoint is known. -/
theorem unlocated_of_reachable {settings : Settings} {topology : Topology} {state : σ} {host : η}
    {outlet : Outlet} {start a : Agent σ η}
    (hbuilt : build settings topology (.fresh state host outlet) = .ok start)
    (hports : StoreContent.Ported state) (h : Reachable start a) {scope : Scope}
    (hmem : (scope, none) ∈ a.site.scopes) :
    (WorkerKey.client scope.name).registered? a.deployment = none := by
  have hsite := site_sound (standing_of_reachable hbuilt hports h).scopes
  have hstaffed : Staffed (fun key _ => ∀ name, key = .client name → ∃ own endpoint,
      (own, some endpoint) ∈ a.site.scopes ∧ own.name = name) a.deployment := by
    refine staffed_of_reachable hbuilt hports h fun _ key r hplan name hname => ?_
    cases hplan with
    | server => cases hname
    | client hown => exact ⟨_, _, hown, WorkerKey.client.inj hname⟩
  cases hw : (WorkerKey.client scope.name).registered? a.deployment with
  | none => rfl
  | some w =>
    obtain ⟨_, -, hlocated⟩ := hstaffed _ w hw
    obtain ⟨own, endpoint, hown, hname⟩ := hlocated scope.name rfl
    cases hsite.named _ hown _ hmem hname

/-- Starting the client of a scope returns the one that runs, or else leaves the scope with what its
desired state asks for. When namespaces have distinct names, a start of clients does so in each
scope of the request, reports every failure, and counts the clients that are registered when it is
done: those that run and those whose process has ended meanwhile. It changes neither the desired
state nor any server. -/
theorem clients_started {settings : Settings} {topology : Topology} {state : σ} {host : η}
    {outlet : Outlet} {start a : Agent σ η}
    (hbuilt : build settings topology (.fresh state host outlet) = .ok start)
    (hports : StoreContent.Ported state) (h : Reachable start a)
    (hnames : a.topology.names.Nodup) (os : Host η) :
    (∀ scope endpoint, (scope, some endpoint) ∈ a.site.scopes →
      ClientStarted os a.settings.traffic a.scopes scope endpoint a.deployment
        (Clients.start os a.settings.traffic scope endpoint a.deployment)) ∧
    (∀ name pairs, a.resolve name = .ok pairs → ∃ all,
      a.startClients os name = (.ok all.1, a.put all.2) ∧
        ClientsStarted a.settings.traffic a.scopes pairs a.deployment all) ∧
    ∀ name, ClientsOnly a.deployment (a.startClients os name).2.deployment := by
  obtain ⟨hscopes, -, -⟩ := standing_of_reachable hbuilt hports h
  have hmanned := manned_of_build hbuilt h
  refine ⟨?_, ?_, ?_⟩
  · intro scope endpoint hmem
    exact clientStarted_start hmanned os a.settings.traffic (mem_site.mp hmem).1 endpoint
  · intro name pairs hresolve
    have hafter : a.startClients os name =
        (.ok (startClientsIn os a.settings.traffic pairs a.deployment).1,
          a.put (startClientsIn os a.settings.traffic pairs a.deployment).2) := by
      rw [startClients, hresolve]
    refine ⟨_, hafter, ?_⟩
    -- The agent is reached after the call as well, so its registries are as those of all agents.
    have hreached : Reachable start (a.startClients os name).2 :=
      h.event os (e := .call (.startClients name)) trivial
    rw [hafter] at hreached
    obtain ⟨turns, hturns⟩ := turns_startClientsIn os a.settings.traffic
      (nodup_resolve hscopes hnames hresolve) hmanned.rostered
    refine hturns.clientsStarted (only_startClientsIn os _ _ _).workers (fun scope hmem => ?_)
      (manned_of_build hbuilt hreached)
    exact unlocated_of_reachable hbuilt hports hreached (resolve_subset hresolve hmem)
  · intro name
    rw [startClients]
    split
    · exact .refl _
    · exact only_startClientsIn os _ _ _

/-- Rules come that ask for a client in each namespace. -/
def pairedRules : List AgentEvent := [.call (.register loopbackRules)]

theorem reachable_pairedRules (os : Host Unit) :
    Reachable pairedAgent (pairedAgent.run os pairedRules) := by
  refine reachable_run os ?_ .start
  simp [pairedRules, AgentEvent.Sound, AgentCall.Sound, loopbackRules, portBound]

theorem clients_started_paired :
    let a := pairedAgent.run readyHost pairedRules
    ∃ all, a.startClients readyHost none = (.ok all.1, a.put all.2) ∧
      all.2.clients.keys = ["blue", "red"] ∧ all.1.started = 2 ∧
      ClientsStarted a.settings.traffic a.scopes a.site.scopes a.deployment all := by
  intro a
  obtain ⟨-, hall, -⟩ := clients_started build_paired ported_loopback
    (reachable_pairedRules readyHost) (by decide) readyHost
  obtain ⟨all, hafter, hstarted⟩ := hall none a.site.scopes rfl
  have hkeys : (a.startClients readyHost none).2.deployment.clients.keys =
      ["blue", "red"] := by
    decide +kernel
  have hcount : (a.startClients readyHost none).1.toOption.map (·.started) = some 2 := by
    decide +kernel
  rw [hafter] at hkeys hcount
  exact ⟨all, hafter, hkeys, Option.some.inj hcount, hstarted⟩

/-- A host on which every worker process reports that it is ready and ends. -/
def fleetingHost : Host Unit :=
  { Managers.openHost with
    spawn := fun _ _ _ => (.ok ⟨Lines.ofText WorkerEvent.ready.line, some 0⟩, ()) }

/-- On such a host two clients are counted, and none runs. -/
theorem ended_client_counted :
    let a := pairedAgent.run fleetingHost pairedRules
    Reachable pairedAgent a ∧
      (a.startClients fleetingHost none).1.toOption.map (·.started) = some 2 ∧
      ∀ scope ∈ a.scopes,
        ¬(a.startClients fleetingHost none).2.deployment.Runs (.client scope.name) :=
  ⟨reachable_pairedRules fleetingHost, by decide +kernel, by decide +kernel⟩

end Agent

end PolicyProbe
