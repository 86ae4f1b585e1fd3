import PolicyProbe.Proofs.Agent.Attempts
import PolicyProbe.Proofs.Agent.StartServers

/-!
What a fault in one scope does to a start in all of them. A start of clients goes on behind a scope
whose desired state cannot be read or whose client cannot be started, names it, and does in the
other scopes what it does when that scope does not exist. A start of servers is like this for
servers that cannot be started; but a scope whose desired state cannot be read ends it, with a
failure, and neither that scope nor any behind it is served (`Agent.bulk_starts_isolate`).
`Agent.unread_scope_ends_start` is an agent of which a whole namespace stays without its server.
-/
namespace PolicyProbe

open Deployment

/-- Whether a worker runs under a key can be told from that worker. -/
theorem Deployment.runs_iff {σ η : Type} {d : Deployment σ η} {key : WorkerKey} :
    d.Runs key ↔ ∃ worker, key.worker? d = some worker ∧ worker.state = .running := by
  constructor
  · rintro ⟨w, hw, hrunning⟩
    rw [Workforce.isRunning] at hrunning
    split at hrunning
    · rename_i worker hworker
      refine ⟨worker, ?_, by simpa using hrunning⟩
      rw [WorkerKey.worker?, hw]
      exact hworker
    · cases hrunning
  · rintro ⟨worker, hworker, hrunning⟩
    obtain ⟨w, hw, hfind⟩ := Option.bind_eq_some_iff.mp hworker
    refine ⟨w, hw, ?_⟩
    rw [Workforce.isRunning, hfind]
    simpa using hrunning

/-! ## Clients -/

section Clients

variable {σ η β : Type} [DesiredStore σ] {kept : String → Bool} {view : η → β}
  {os : Host η} {scopes : List Scope}

/-- A client is not started for an endpoint whose desired state cannot be read. -/
theorem Clients.start_unread (os : Host η) (settings : TrafficSettings) (scope : Scope)
    {endpoint : Address} {d : Deployment σ η} {e : StorageError}
    (h : DesiredStore.clients endpoint d.state = .error e) :
    d.Runs (.client scope.name) ∨
      (start os settings scope endpoint d).1 = .error (.storage e) := by
  rcases start_cases os settings scope endpoint d with
    ⟨w, hw, hrunning, -⟩ | ⟨-, d₁, hvacated, -, -, -, heq⟩
  · exact Or.inl ⟨w, hw, hrunning⟩
  · right
    rw [heq, launch, hvacated.state, h]

/-- There is nothing that can fail when there is nothing to ping. -/
theorem Clients.clients_ne_nil_of_start_error {os : Host η} {settings : TrafficSettings}
    {scope : Scope} {endpoint : Address} {d : Deployment σ η} {e : TrafficError}
    (h : (start os settings scope endpoint d).1 = .error e) :
    DesiredStore.clients endpoint d.state ≠ .ok [] := by
  intro hnone
  rcases start_cases os settings scope endpoint d with
    ⟨w, -, -, heq⟩ | ⟨-, d₁, hvacated, -, -, -, heq⟩
  · rw [heq] at h
    cases h
  · rw [heq, launch, hvacated.state, hnone] at h
    cases h

theorem Clients.state_start (os : Host η) (settings : TrafficSettings) (scope : Scope)
    (endpoint : Address) (d : Deployment σ η) :
    (start os settings scope endpoint d).2.state = d.state := by
  have houtcome := start_outcome os settings scope endpoint d
  generalize start os settings scope endpoint d = r at houtcome ⊢
  obtain ⟨answer, d'⟩ := r
  cases houtcome with
  | running => rfl
  | idle _ h => exact h.state
  | failed _ h => exact h.state
  | launched _ _ _ hstate => exact hstate

namespace Agent

/-- The report on the start of one client. -/
def clientReport (scope : Scope) (endpoint : Address) :
    Except TrafficError (Option Nat) → StartReport
  | .ok (some _) => ⟨1, []⟩
  | .ok none => .empty
  | .error e => ⟨0, [.client endpoint scope e]⟩

/-- The start of the client of a scope. -/
def clientAttempt (os : Host η) (settings : TrafficSettings) : Attempt σ η :=
  fun scope endpoint d =>
    let (answer, d) := Clients.start os settings scope endpoint d
    (clientReport scope endpoint answer, d)

theorem startClientsIn_eq (os : Host η) (settings : TrafficSettings)
    (pairs : List (Scope × Option Address)) (d : Deployment σ η) :
    startClientsIn os settings pairs d =
      attemptEach .clientNotStarted (clientAttempt os settings) pairs d := by
  induction pairs generalizing d with
  | nil => rfl
  | cons p rest ih =>
    obtain ⟨scope, endpoint⟩ := p
    cases endpoint with
    | none => exact ih _
    | some endpoint =>
      rw [startClientsIn, attemptEach, clientAttempt]
      rcases Clients.start os settings scope endpoint d with ⟨answer, d₁⟩
      dsimp only
      rw [ih]
      cases answer with
      | error e => rfl
      | ok w => cases w with
        | none => rw [clientReport, StartReport.empty_append]
        | some w => rfl

theorem mem_clientAttempt {settings : TrafficSettings} {scope : Scope} {endpoint : Address}
    {d : Deployment σ η} {f : StartFailure} :
    f ∈ (clientAttempt os settings scope endpoint d).1.failed ↔
      ∃ e, (Clients.start os settings scope endpoint d).1 = .error e ∧
        f = .client endpoint scope e := by
  rw [clientAttempt]
  dsimp only
  cases hanswer : (Clients.start os settings scope endpoint d).1 with
  | error e => simp [clientReport]
  | ok w => cases w <;> simp [clientReport, StartReport.empty]

/-- The lines of two reports are about the same when both starts fail or none does. -/
theorem about_clientReport (scope : Scope) (endpoint : Address)
    {answer answer' : Except TrafficError (Option Nat)}
    (h : answer.toOption.map Option.isSome = answer'.toOption.map Option.isSome) :
    (clientReport scope endpoint answer).failed.map StartFailure.about =
      (clientReport scope endpoint answer').failed.map StartFailure.about := by
  have hnil : ∀ w : Option Nat, (clientReport scope endpoint (.ok w)).failed = [] :=
    fun w => by cases w <;> rfl
  cases answer with
  | error e => cases answer' with
    | error e' => rfl
    | ok w' => cases h
  | ok w => cases answer' with
    | error e' => cases h
    | ok w' => rw [hnil, hnil]

/-- Starts of clients leave the desired state as it is. -/
theorem separable_clientAttempt [StoreContent σ] (hos : os.Separates scopes kept view)
    (hpaths : ∀ scope ∈ scopes, scope.path?.isSome = true) (settings : TrafficSettings)
    (state : σ) :
    Separable kept view scopes (·.state = state) (clientAttempt (σ := σ) os settings) where
  said _ _ h := h
  holds scope _ endpoint d h := (Clients.state_start os settings scope endpoint d).trans h
  confined _ _ hname endpoint d := Clients.confined_start hname os settings endpoint d
  lines scope endpoint d f hf := by
    obtain ⟨e, -, rfl⟩ := mem_clientAttempt.mp hf
    rfl
  host scope hscope hother endpoint d :=
    Clients.view_start hos hscope (hpaths scope hscope) hother settings endpoint d
  alike scope hscope hkept endpoint d d' hd hd' halike := by
    have hread : DesiredStore.clients endpoint d.state =
        DesiredStore.clients endpoint d'.state := by rw [hd, hd']
    obtain ⟨hstarted, hanswers⟩ := Clients.alike_start halike hos hscope (hpaths scope hscope)
      hkept settings hread
    exact ⟨hstarted, about_clientReport scope endpoint hanswers⟩

/-- How a start of clients tells of faults. A scope whose desired state cannot be read is named with
that cause, unless its client runs; a scope is named exactly when it is without a client in the end
and there was not nothing to ping; and only these scopes are named. -/
structure ClientFaults (pairs : List (Scope × Option Address)) (d : Deployment σ η)
    (all : StartReport × Deployment σ η) : Prop where
  unread : ∀ scope endpoint, (scope, some endpoint) ∈ pairs →
    ∀ e, DesiredStore.clients endpoint d.state = .error e →
      d.Runs (.client scope.name) ∨ StartFailure.client endpoint scope (.storage e) ∈ all.1.failed
  named : ∀ scope endpoint, (scope, some endpoint) ∈ pairs →
    ((∃ e, StartFailure.client endpoint scope e ∈ all.1.failed) ↔
      WorkerKey.registered? (.client scope.name) all.2 = none ∧
        DesiredStore.clients endpoint d.state ≠ .ok [])
  lines : ∀ f ∈ all.1.failed, ∃ scope endpoint e,
    (scope, some endpoint) ∈ pairs ∧ f = .client endpoint scope e

theorem clientFaults [StoreContent σ] (hos : os.Separates scopes kept view)
    (hpaths : ∀ scope ∈ scopes, scope.path?.isSome = true) (settings : TrafficSettings)
    {pairs : List (Scope × Option Address)} (hpairs : ∀ p ∈ pairs, p.1 ∈ scopes)
    (hnames : (pairs.map (·.1.name)).Nodup) {d : Deployment σ η} (hd : d.Rostered) :
    ClientFaults pairs d (startClientsIn os settings pairs d) := by
  rw [startClientsIn_eq]
  have hseparable := separable_clientAttempt hos hpaths settings d.state
  -- The report on a scope is that on the start of its client, when it had its turn.
  have hturn : ∀ scope endpoint, (scope, some endpoint) ∈ pairs → _ := fun scope endpoint hmem =>
    hseparable.turn .clientNotStarted hpairs hnames hd rfl hmem
  constructor
  case unread =>
    intro scope endpoint hmem e hread
    obtain ⟨now, hnow⟩ := hturn scope endpoint hmem
    rw [← hnow.holds] at hread
    refine (Clients.start_unread os settings scope hread).imp (fun hruns => ?_) fun hanswer => ?_
    · rw [runs_iff] at hruns ⊢
      rwa [(hnow.before (.client scope.name) rfl).2] at hruns
    · exact (hnow.lines (.client endpoint scope (.storage e)) rfl).mpr
        (mem_clientAttempt.mpr ⟨_, hanswer, rfl⟩)
  case named =>
    intro scope endpoint hmem
    obtain ⟨now, hnow⟩ := hturn scope endpoint hmem
    have houtcome := Clients.start_outcome os settings scope endpoint now
    have hafter : (clientAttempt os settings scope endpoint now).2 =
        (Clients.start os settings scope endpoint now).2 := rfl
    have hlines : ∀ e, StartFailure.client endpoint scope e ∈
        (attemptEach .clientNotStarted (clientAttempt os settings) pairs d).1.failed ↔
          (Clients.start os settings scope endpoint now).1 = .error e := by
      intro e
      rw [hnow.lines (.client endpoint scope e) rfl, mem_clientAttempt]
      simp
    have hread : DesiredStore.clients endpoint d.state =
        DesiredStore.clients endpoint now.state := by rw [hnow.holds]
    rw [hnow.after (.client scope.name) rfl, hafter, hread]
    simp only [hlines]
    constructor
    · rintro ⟨e, he⟩
      refine ⟨?_, Clients.clients_ne_nil_of_start_error he⟩
      rw [he] at houtcome
      cases houtcome with
      | failed _ h => exact h.free
    · rintro ⟨hfree, hne⟩
      generalize Clients.start os settings scope endpoint now = r at houtcome hfree ⊢
      obtain ⟨answer, after⟩ := r
      cases houtcome with
      | running hregistered _ => cases hregistered.symm.trans hfree
      | idle hnone _ => exact absurd hnone hne
      | failed e _ => exact ⟨e, rfl⟩
      | launched _ _ h _ => cases h.registered.symm.trans hfree
  case lines =>
    intro f hf
    obtain ⟨endpoint, hmem⟩ := hseparable.linesEach _ _ _ f hf
    obtain ⟨now, hnow⟩ := hturn _ _ hmem
    obtain ⟨e, -, heq⟩ := mem_clientAttempt.mp ((hnow.lines f rfl).mp hf)
    exact ⟨_, endpoint, e, hmem, heq⟩

end Agent

end Clients

/-! ## Servers -/

section Servers

variable {σ η β : Type} [DesiredStore σ] {kept : String → Bool} {view : η → β}
  {os : Host η} {scopes : List Scope}

namespace Agent

theorem startListed_cons (os : Host η) (scope : Scope) (endpoint : Address) (entry : ServerEntry)
    (rest : List ServerEntry) (d : Deployment σ η) :
    startListed os scope endpoint (entry :: rest) d =
      let first := Servers.start os scope entry.protocol entry.port endpoint d
      let later := startListed os scope endpoint rest first.2
      ((RecordedServer.report ⟨scope, endpoint, entry⟩ first.1).append later.1, later.2) := by
  rw [startListed]
  rcases Servers.start os scope entry.protocol entry.port endpoint d with ⟨answer, d₁⟩
  cases answer <;> rfl

/-- The start of the servers that are listed for the endpoint of a scope. -/
def serversAttempt (os : Host η) (listed : Address → List ServerEntry) : Attempt σ η :=
  fun scope endpoint d => startListed os scope endpoint (listed endpoint) d

theorem lines_startListed {scope : Scope} {endpoint : Address} {entries : List ServerEntry}
    {d : Deployment σ η} {f : StartFailure}
    (h : f ∈ (startListed os scope endpoint entries d).1.failed) :
    ∃ entry ∈ entries, ∃ e, f = .server entry endpoint scope e := by
  induction entries generalizing d with
  | nil => exact absurd h List.not_mem_nil
  | cons entry rest ih =>
    rw [startListed_cons] at h
    rcases List.mem_append.mp h with h | h
    · refine ⟨entry, List.mem_cons_self, ?_⟩
      rcases hanswer : (Servers.start os scope entry.protocol entry.port endpoint d).1 with e | w
      · rw [hanswer] at h
        exact ⟨e, List.mem_singleton.mp h⟩
      · rw [hanswer] at h
        exact absurd h List.not_mem_nil
    · obtain ⟨entry', hmem, heq⟩ := ih h
      exact ⟨entry', List.mem_cons_of_mem _ hmem, heq⟩

/-- Starts of listed servers leave the keys of others alone. -/
theorem registered?_startListed (scope : Scope) (endpoint : Address)
    {entries : List ServerEntry} {key : WorkerKey}
    (hkey : ∀ entry ∈ entries, key ≠ .server (Servers.key scope entry.protocol entry.port))
    (d : Deployment σ η) :
    key.registered? (startListed os scope endpoint entries d).2 = key.registered? d := by
  induction entries generalizing d with
  | nil => rfl
  | cons entry rest ih =>
    obtain ⟨hne, hrest⟩ := List.forall_mem_cons.mp hkey
    rw [startListed_cons]
    refine (ih hrest _).trans ?_
    have houtcome := Servers.start_outcome os scope entry.protocol entry.port endpoint d
    generalize Servers.start os scope entry.protocol entry.port endpoint d = r at houtcome ⊢
    obtain ⟨answer, d₁⟩ := r
    cases houtcome with
    | running => rfl
    | failed _ _ h => exact h.others key hne
    | launched _ h _ => exact h.others key hne

/-- A listed server whose key is free in the end is named. -/
theorem named_startListed {scope : Scope} {endpoint : Address} {entries : List ServerEntry}
    {entry : ServerEntry} (hentry : entry ∈ entries) {d : Deployment σ η}
    (hfree : WorkerKey.registered? (.server (Servers.key scope entry.protocol entry.port))
      (startListed os scope endpoint entries d).2 = none) :
    ∃ e, StartFailure.server entry endpoint scope e ∈
      (startListed os scope endpoint entries d).1.failed := by
  induction entries generalizing d with
  | nil => exact absurd hentry List.not_mem_nil
  | cons first rest ih =>
    rw [startListed_cons] at hfree ⊢
    by_cases hagain : entry ∈ rest
    · obtain ⟨e, he⟩ := ih hagain hfree
      exact ⟨e, List.mem_append_right _ he⟩
    · -- It is the first one, and its key is left alone afterwards.
      obtain rfl : entry = first := (List.mem_cons.mp hentry).resolve_right hagain
      have hkeys : ∀ other ∈ rest,
          WorkerKey.server (Servers.key scope entry.protocol entry.port) ≠
            .server (Servers.key scope other.protocol other.port) := by
        intro other hother heq
        have hkey := WorkerKey.server.inj heq
        have hsame : entry = other := by
          obtain ⟨protocol, port⟩ := entry
          obtain ⟨protocol', port'⟩ := other
          obtain ⟨-, rfl, rfl⟩ := ServerKey.mk.inj hkey
          rfl
        exact hagain (hsame ▸ hother)
      have hafter := (registered?_startListed scope endpoint hkeys _).symm.trans hfree
      have houtcome := Servers.start_outcome os scope entry.protocol entry.port endpoint d
      dsimp only at hafter ⊢
      generalize Servers.start os scope entry.protocol entry.port endpoint d = r
        at houtcome hafter ⊢
      obtain ⟨answer, d₁⟩ := r
      cases houtcome with
      | running hregistered _ => cases hregistered.symm.trans hafter
      | failed e _ _ => exact ⟨e, List.mem_append_left _ (List.mem_singleton_self _)⟩
      | launched _ h _ => cases h.registered.symm.trans hafter

theorem view_startListed (hos : os.Separates scopes kept view) {scope : Scope}
    (hscope : scope ∈ scopes) (hpath : scope.path?.isSome = true) (hother : kept scope.name = false)
    (endpoint : Address) (entries : List ServerEntry) (d : Deployment σ η) :
    view (startListed os scope endpoint entries d).2.host = view d.host := by
  induction entries generalizing d with
  | nil => rfl
  | cons entry rest ih =>
    rw [startListed_cons]
    exact (ih _).trans (Servers.view_start hos hscope hpath hother _ _ _ d)

theorem alike_startListed (hos : os.Separates scopes kept view) {scope : Scope}
    (hscope : scope ∈ scopes) (hpath : scope.path?.isSome = true) (hkept : kept scope.name = true)
    (endpoint : Address) (entries : List ServerEntry) {d d' : Deployment σ η}
    (h : Alike kept view d d') :
    Alike kept view (startListed os scope endpoint entries d).2
        (startListed os scope endpoint entries d').2 ∧
      (startListed os scope endpoint entries d).1.failed.map StartFailure.about =
        (startListed os scope endpoint entries d').1.failed.map StartFailure.about := by
  induction entries generalizing d d' with
  | nil => exact ⟨h, rfl⟩
  | cons entry rest ih =>
    obtain ⟨hstarted, hanswers⟩ := Servers.alike_start h hos hscope hpath hkept entry.protocol
      entry.port endpoint
    obtain ⟨hlater, hlines⟩ := ih hstarted
    rw [startListed_cons, startListed_cons]
    refine ⟨hlater, ?_⟩
    have hfirst : (RecordedServer.report ⟨scope, endpoint, entry⟩
          (Servers.start os scope entry.protocol entry.port endpoint d).1).failed.map
            StartFailure.about =
        (RecordedServer.report ⟨scope, endpoint, entry⟩
          (Servers.start os scope entry.protocol entry.port endpoint d').1).failed.map
            StartFailure.about := by
      generalize (Servers.start os scope entry.protocol entry.port endpoint d).1 = answer
        at hanswers ⊢
      generalize (Servers.start os scope entry.protocol entry.port endpoint d').1 = answer'
        at hanswers ⊢
      cases answer with
      | error e => cases answer' with
        | error e' => rfl
        | ok w' => cases hanswers
      | ok w => cases answer' with
        | error e' => cases hanswers
        | ok w' => rfl
    simp only [StartReport.append, List.map_append, hfirst, hlines]

variable [StoreContent σ]

theorem separable_serversAttempt (hos : os.Separates scopes kept view)
    (hpaths : ∀ scope ∈ scopes, scope.path?.isSome = true) (listed : Address → List ServerEntry) :
    Separable kept view scopes (fun _ => True) (serversAttempt (σ := σ) os listed) where
  said _ _ _ := trivial
  holds _ _ _ _ _ := trivial
  confined _ _ hname endpoint d := confined_startListed hname trivial os (listed endpoint) d
  lines _ _ _ _ hf := by
    obtain ⟨entry, -, e, rfl⟩ := lines_startListed hf
    rfl
  host scope hscope hother endpoint d :=
    view_startListed hos hscope (hpaths scope hscope) hother endpoint _ d
  alike scope hscope hkept endpoint _ _ _ _ halike :=
    alike_startListed hos hscope (hpaths scope hscope) hkept endpoint _ halike

/-- When all reads succeed, all scopes are attempted. -/
theorem startServersIn_eq (os : Host η) {listed : Address → List ServerEntry}
    {pairs : List (Scope × Option Address)} {d : Deployment σ η}
    (hlisted : ∀ endpoint, listed endpoint = StoreContent.servers endpoint d.state)
    (hports : StoreContent.Ported d.state)
    (hreads : ∀ scope endpoint, (scope, some endpoint) ∈ pairs →
      (DesiredStore.get endpoint d.state).isOk = true) :
    startServersIn os pairs d =
      (.ok (attemptEach .serversNotStarted (serversAttempt os listed) pairs d).1,
        (attemptEach .serversNotStarted (serversAttempt os listed) pairs d).2) := by
  induction pairs generalizing d with
  | nil => rfl
  | cons p rest ih =>
    have hrest : ∀ scope endpoint, (scope, some endpoint) ∈ rest →
        (DesiredStore.get endpoint d.state).isOk = true :=
      fun scope endpoint h => hreads scope endpoint (List.mem_cons_of_mem _ h)
    obtain ⟨scope, endpoint⟩ := p
    cases endpoint with
    | none => exact ih (d := d.say (.serversNotStarted scope)) hlisted hports hrest
    | some endpoint =>
      have hread := StoreContent.exists_servers (hreads scope endpoint List.mem_cons_self)
      have hserved := served_startListed os scope endpoint (StoreContent.servers endpoint d.state)
        fun entry hentry => ⟨hentry, hports.servers endpoint entry hentry⟩
      have hlater := ih
        (d := (startListed os scope endpoint (StoreContent.servers endpoint d.state) d).2)
        (fun e => by rw [StoreContent.servers, hserved.held]; exact hlisted e)
        (fun e entry hentry => by rw [hserved.held] at hentry; exact hports e entry hentry)
        fun scope endpoint h => hserved.reads endpoint (hrest scope endpoint h)
      rw [startServersIn, attemptEach, hread, serversAttempt, hlisted endpoint]
      dsimp only
      rw [hlater]

/-- How a start of servers tells of faults: each of them is counted or named, in their order, and
one whose key is free in the end is named. -/
structure ServerFaults (pairs : List (Scope × Option Address)) (d : Deployment σ η)
    (all : StartReport × Deployment σ η) : Prop where
  counted : all.1.started + all.1.failed.length =
    (RecordedServer.ofScopes pairs d.state).length
  lines : (all.1.failed.map StartFailure.server?).Sublist
    ((RecordedServer.ofScopes pairs d.state).map some)
  named : ∀ scope endpoint, (scope, some endpoint) ∈ pairs →
    ∀ entry ∈ StoreContent.servers endpoint d.state,
      WorkerKey.registered? (.server (Servers.key scope entry.protocol entry.port)) all.2 = none →
        ∃ e, StartFailure.server entry endpoint scope e ∈ all.1.failed

theorem serverFaults (hos : os.Separates scopes kept view)
    (hpaths : ∀ scope ∈ scopes, scope.path?.isSome = true)
    {pairs : List (Scope × Option Address)} (hpairs : ∀ p ∈ pairs, p.1 ∈ scopes)
    (hnames : (pairs.map (·.1.name)).Nodup) {d : Deployment σ η} (hd : d.Rostered)
    (hports : StoreContent.Ported d.state)
    (hreads : ∀ scope endpoint, (scope, some endpoint) ∈ pairs →
      (DesiredStore.get endpoint d.state).isOk = true) :
    ServerFaults pairs d (attemptEach .serversNotStarted
      (serversAttempt os fun endpoint => StoreContent.servers endpoint d.state) pairs d) := by
  obtain ⟨report, hanswer, hserved⟩ := served_startServersIn os hports hreads
  have heq := startServersIn_eq os (fun _ => rfl) hports hreads
  rw [heq] at hanswer hserved
  obtain rfl := Except.ok.inj hanswer
  have hseparable := separable_serversAttempt (σ := σ) hos hpaths
    fun endpoint => StoreContent.servers endpoint d.state
  refine ⟨hserved.counted, hserved.lines, ?_⟩
  intro scope endpoint hmem entry hentry hfree
  obtain ⟨now, hnow⟩ := hseparable.turn .serversNotStarted hpairs hnames hd trivial hmem
  rw [hnow.after _ rfl] at hfree
  obtain ⟨e, he⟩ := named_startListed hentry hfree
  exact ⟨e, (hnow.lines _ rfl).mpr he⟩

end Agent

end Servers

/-! ## Starts in all scopes -/

namespace Agent

variable {σ η β : Type} [DesiredStore σ] [StoreContent σ]

omit [StoreContent σ] in
/-- A start of servers ends at the first scope whose desired state cannot be read. -/
theorem startServersIn_unread (os : Host η) {before after : List (Scope × Option Address)}
    {scope : Scope} {endpoint : Address} {d d₁ : Deployment σ η} {report : StartReport}
    (hbefore : startServersIn os before d = (.ok report, d₁)) {e : StorageError}
    (hread : DesiredStore.servers endpoint d₁.state = .error e) :
    startServersIn os (before ++ (scope, some endpoint) :: after) d =
      (.error (.storage e), d₁) := by
  induction before generalizing d report with
  | nil =>
    obtain ⟨-, rfl⟩ := Prod.mk.inj hbefore
    rw [List.nil_append, startServersIn, hread]
  | cons p before ih =>
    obtain ⟨first, found⟩ := p
    cases found with
    | none => exact ih hbefore
    | some found =>
      rw [List.cons_append, startServersIn]
      rw [startServersIn] at hbefore
      cases hfirst : DesiredStore.servers found d.state with
      | error e' =>
        rw [hfirst] at hbefore
        cases (Prod.mk.inj hbefore).1
      | ok servers =>
        rw [hfirst] at hbefore
        dsimp only at hbefore ⊢
        rcases hrest : startServersIn os before (startListed os first found servers d).2 with
          ⟨answer, d₂⟩
        rw [hrest] at hbefore
        cases answer with
        | error e' => cases (Prod.mk.inj hbefore).1
        | ok later =>
          obtain ⟨-, rfl⟩ := Prod.mk.inj hbefore
          rw [ih hrest]

omit [StoreContent σ] in
theorem startServers_none {os : Host η} {a : Agent σ η} {answer : Except TrafficError StartReport}
    {d : Deployment σ η} (h : startServersIn os a.site.scopes a.deployment = (answer, d)) :
    a.startServers os none = (answer, a.put d) := by
  show ((startServersIn os a.site.scopes a.deployment).1,
    a.put (startServersIn os a.site.scopes a.deployment).2) = _
  rw [h]

/-- In an agent with namespaces, starts in all scopes do in the scopes that are kept what they do
when the other scopes do not exist, whatever fails in those, and they tell of all faults. A start of
clients does so always; a start of servers does so if the desired state of every scope can be read,
and otherwise ends at the first scope of which it cannot. -/
theorem bulk_starts_isolate {settings : Settings} {topology : Topology} {state : σ} {host : η}
    {outlet : Outlet} {start a : Agent σ η}
    (hbuilt : build settings topology (.fresh state host outlet) = .ok start)
    (hports : StoreContent.Ported state) (h : Reachable start a)
    (hmode : a.topology.namespaceMode = true) (hnames : a.topology.names.Nodup) (os : Host η)
    {kept : String → Bool} {view : η → β} (hos : os.Separates a.scopes kept view) :
    let others : Agent σ η := { a with scopes := a.scopes.filter fun scope => kept scope.name }
    (∃ all few, a.startClients os none = (.ok all.1, a.put all.2) ∧
        others.startClients os none = (.ok few.1, others.put few.2) ∧ SameFor kept all few ∧
        ClientFaults a.site.scopes a.deployment all) ∧
      ((∀ scope endpoint, (scope, some endpoint) ∈ a.site.scopes →
          (DesiredStore.get endpoint a.deployment.state).isOk = true) →
        ∃ all few, a.startServers os none = (.ok all.1, a.put all.2) ∧
          others.startServers os none = (.ok few.1, others.put few.2) ∧ SameFor kept all few ∧
          ServerFaults a.site.scopes a.deployment all) ∧
      ∀ before scope endpoint after, a.site.scopes = before ++ (scope, some endpoint) :: after →
        ∀ report d e, startServersIn os before a.deployment = (.ok report, d) →
          DesiredStore.servers endpoint d.state = .error e →
            a.startServers os none = (.error (.storage e), a.put d) := by
  intro others
  obtain ⟨hscopes, hports, -⟩ := standing_of_reachable hbuilt hports h
  have hrostered : a.deployment.Rostered := by
    refine rostered_of_reachable ?_ h
    rw [(build_eq_ok hbuilt).2]
    exact rostered_fresh state host outlet
  have hpaths : ∀ scope ∈ a.scopes, scope.path?.isSome = true := by
    intro scope hscope
    obtain ⟨name, path, rfl⟩ := named_of_mem_scopesOf hscopes hmode hscope
    rfl
  have hpairs : ∀ p ∈ a.site.scopes, p.1 ∈ a.scopes := fun p hp => (mem_site.mp hp).1
  have hdistinct : (a.site.scopes.map (·.1.name)).Nodup := by
    have hmap : a.site.scopes.map (·.1.name) = a.scopes.map Scope.name := by
      rw [site, List.map_map]
      rfl
    rw [hmap, names_of_scopesOf hscopes hmode]
    exact hnames
  have hfew : others.site.scopes = a.site.scopes.filter fun p => kept p.1.name := by
    rw [site, site, List.filter_map]
    rfl
  have halike : Alike kept view a.deployment a.deployment := .refl hrostered.employed
  refine ⟨⟨startClientsIn os a.settings.traffic a.site.scopes a.deployment,
      startClientsIn os a.settings.traffic others.site.scopes a.deployment, rfl, rfl, ?_,
      clientFaults hos hpaths _ hpairs hdistinct hrostered⟩, fun hreads => ?_, ?_⟩
  · rw [hfew, startClientsIn_eq, startClientsIn_eq]
    exact (separable_clientAttempt hos hpaths a.settings.traffic a.deployment.state).sameFor _
      hpairs hrostered rfl rfl halike
  · let attempt : Attempt σ η :=
      serversAttempt os fun endpoint => StoreContent.servers endpoint a.deployment.state
    have hothers : ∀ scope endpoint, (scope, some endpoint) ∈ others.site.scopes →
        (DesiredStore.get endpoint a.deployment.state).isOk = true := by
      intro scope endpoint hmem
      rw [hfew] at hmem
      exact hreads scope endpoint (List.mem_filter.mp hmem).1
    have hsame : SameFor kept (attemptEach .serversNotStarted attempt a.site.scopes a.deployment)
        (attemptEach .serversNotStarted attempt others.site.scopes a.deployment) := by
      rw [hfew]
      exact (separable_serversAttempt hos hpaths _).sameFor _ hpairs hrostered trivial trivial
        halike
    exact ⟨_, _, startServers_none (startServersIn_eq os (fun _ => rfl) hports hreads),
      startServers_none (a := others) (startServersIn_eq os (fun _ => rfl) hports hothers), hsame,
      serverFaults hos hpaths hpairs hdistinct hrostered hports hreads⟩
  · intro before scope endpoint after hsplit report d e hbefore hread
    refine startServers_none ?_
    rw [hsplit]
    exact startServersIn_unread os hbefore hread

/-- A table of two endpoints, of which the row of one cannot be decoded. -/
def damagedTable : StateTable :=
  ⟨some [⟨Address.loopback.text, "", ""⟩,
    .ofEntry ⟨.unspecified, [⟨.tcp, 80⟩], [⟨.tcp, 80, .loopback, true, .allow⟩]⟩]⟩

/-- An agent whose namespaces have these endpoints. -/
def damagedAgent : Agent DesiredState Unit :=
  { pairedAgent with deployment := .fresh (.table damagedTable) () (.collected []) }

/-- That agent without the namespace whose row cannot be decoded. -/
def soundHalf : Agent DesiredState Unit :=
  { damagedAgent with scopes := damagedAgent.scopes.filter fun scope => scope.name == "red" }

theorem ported_table (t : StateTable) : StoreContent.Ported (DesiredState.table t) := by
  intro endpoint entry hentry
  obtain ⟨row, -, hrow⟩ := Option.bind_eq_some_iff.mp hentry
  exact StateRow.sound_of_entry? hrow

theorem separates_readyHost (scopes : List Scope) (kept : String → Bool) :
    readyHost.Separates scopes kept id :=
  ⟨fun _ _ _ _ _ _ _ => ⟨rfl, rfl⟩, fun _ _ _ _ _ => rfl⟩

theorem build_damaged : build .default damagedAgent.topology
    (.fresh (.table damagedTable) () (.collected [])) = .ok damagedAgent := rfl

theorem bulk_starts_isolate_damaged :
    ∃ all few, damagedAgent.startClients readyHost none = (.ok all.1, damagedAgent.put all.2) ∧
      soundHalf.startClients readyHost none = (.ok few.1, soundHalf.put few.2) ∧
      SameFor (· == "red") all few ∧
      ClientFaults damagedAgent.site.scopes damagedAgent.deployment all :=
  (bulk_starts_isolate build_damaged (ported_table damagedTable) .start rfl (by decide) readyHost
    (separates_readyHost damagedAgent.scopes (· == "red"))).1

/-- The first namespace cannot be read, so the server of the other is not started, although it is
recorded and would be started without the first. The client of the other namespace is started, and
the first is named. -/
theorem unread_scope_ends_start :
    (damagedAgent.startServers readyHost none).1 = .error (.storage .readFailed) ∧
      (damagedAgent.startServers readyHost none).2.deployment.servers.keys = [] ∧
      (soundHalf.startServers readyHost none).2.deployment.servers.keys = [⟨"red", 80, .tcp⟩] ∧
      (damagedAgent.startClients readyHost none).2.deployment.clients.keys = ["red"] ∧
      ∃ report, (damagedAgent.startClients readyHost none).1 = .ok report ∧
        report.failed.map StartFailure.text =
          ["client of 127.0.0.1 in namespace blue: Storage error: Storage read failed"] := by
  have hread : DesiredStore.servers .loopback damagedAgent.deployment.state =
      .error .readFailed := by decide +kernel
  have hscopes : damagedAgent.site.scopes = [] ++
      (.named "blue" "/run/netns/blue", some .loopback) ::
        [(.named "red" "/run/netns/red", some .unspecified)] := by decide +kernel
  have hends : startServersIn readyHost damagedAgent.site.scopes damagedAgent.deployment =
      (.error (.storage .readFailed), damagedAgent.deployment) := by
    have hnone : startServersIn readyHost [] damagedAgent.deployment =
        (.ok .empty, damagedAgent.deployment) := rfl
    rw [hscopes]
    exact startServersIn_unread readyHost hnone hread
  rw [startServers_none hends]
  exact ⟨rfl, rfl, by decide +kernel, by decide +kernel, _, rfl, by decide +kernel⟩

end Agent

end PolicyProbe
