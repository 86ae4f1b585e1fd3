import PolicyProbe.Proofs.Agent.Consistency

/-!
Starting all recorded servers. What the loops do to one server after another is put together from
what they do to each (`Served`): a server that runs is kept, one that does not is replaced or leaves
its key free with a line in the report. The update that goes with every start asks for a server that
is recorded already, so it changes no entry (`StoreContent.held?_apply_held`), and the servers of a
later scope are those that were recorded when the call began. That a running server is the recorded
one is not a matter of the loops: it is so of every registered server of the agent
(`staffed_serves`).
-/
namespace PolicyProbe

/-- A server that is recorded for the endpoint of a scope. -/
structure RecordedServer where
  scope : Scope
  endpoint : Address
  entry : ServerEntry
  deriving DecidableEq

/-- The server that a line of a report is about. -/
def StartFailure.server? : StartFailure → Option RecordedServer
  | .server entry endpoint scope _ => some ⟨scope, endpoint, entry⟩
  | .client _ _ _ => none

theorem StartReport.empty_append (report : StartReport) :
    StartReport.empty.append report = report := by
  simp [StartReport.append, StartReport.empty]

namespace RecordedServer

def key (s : RecordedServer) : WorkerKey :=
  .server (Servers.key s.scope s.entry.protocol s.entry.port)

def runnable (s : RecordedServer) : Runnable :=
  .server ⟨s.entry.protocol, s.entry.port, s.endpoint⟩

/-- The report on the start of one server. -/
def report (s : RecordedServer) : Except TrafficError Nat → StartReport
  | .ok _ => ⟨1, []⟩
  | .error e => ⟨0, [.server s.entry s.endpoint s.scope e]⟩

variable {σ : Type} [DesiredStore σ] [StoreContent σ]

/-- What is recorded for the endpoint of a scope. -/
def ofScope (state : σ) : Scope × Option Address → List RecordedServer
  | (_, none) => []
  | (scope, some endpoint) => (StoreContent.servers endpoint state).map (⟨scope, endpoint, ·⟩)

/-- What is recorded for some scopes, in the order in which it is started. -/
def ofScopes (scopes : List (Scope × Option Address)) (state : σ) : List RecordedServer :=
  scopes.flatMap (ofScope state)

theorem mem_ofScopes {scopes : List (Scope × Option Address)} {state : σ} {s : RecordedServer}
    (h : s ∈ ofScopes scopes state) : (s.scope, some s.endpoint) ∈ scopes := by
  obtain ⟨⟨scope, endpoint⟩, hp, hs⟩ := List.mem_flatMap.mp h
  cases endpoint with
  | none => exact absurd hs List.not_mem_nil
  | some endpoint =>
    obtain ⟨entry, -, rfl⟩ := List.mem_map.mp hs
    exact hp

theorem ofScopes_congr {state state' : σ}
    (h : ∀ endpoint, StoreContent.held? endpoint state' = StoreContent.held? endpoint state)
    (scopes : List (Scope × Option Address)) : ofScopes scopes state' = ofScopes scopes state := by
  have hscope : ofScope state' = ofScope state := by
    funext p
    obtain ⟨scope, endpoint⟩ := p
    cases endpoint with
    | none => rfl
    | some endpoint => simp only [ofScope, StoreContent.servers, h]
  rw [ofScopes, hscope, ofScopes]

end RecordedServer

open Deployment

variable {σ η : Type} [DesiredStore σ] [StoreContent σ]

/-! ## Servers one after another -/

/-- What starting some recorded servers does, with the report on it. -/
structure Served (asked : List RecordedServer) (d : Deployment σ η) (report : StartReport)
    (d' : Deployment σ η) : Prop where
  counted : report.started + report.failed.length = asked.length
  lines : (report.failed.map StartFailure.server?).Sublist (asked.map some)
  served : (∀ w, d.workers.next ≤ w → d'.workers.exitCode? w = none) → ∀ s ∈ asked,
    d'.Runs s.key ∨ s.key.registered? d' = none ∧ some s ∈ report.failed.map StartFailure.server?
  kept : ∀ key w, WorkerKey.registered? key d = some w → d.workers.isRunning w = true →
    WorkerKey.registered? key d' = some w
  others : ∀ key, (∀ s ∈ asked, key ≠ s.key) →
    WorkerKey.registered? key d' = WorkerKey.registered? key d
  workers : d.workers.Grows d'.workers
  held : ∀ endpoint,
    StoreContent.held? endpoint d'.state = StoreContent.held? endpoint d.state
  reads : ∀ endpoint, (DesiredStore.get endpoint d.state).isOk = true →
    (DesiredStore.get endpoint d'.state).isOk = true

theorem served_nil {d d' : Deployment σ η} (hkeeps : d.Keeps d') (hstate : d'.state = d.state) :
    Served [] d .empty d' where
  counted := rfl
  lines := List.Sublist.refl _
  served _ _ hs := absurd hs List.not_mem_nil
  kept key w hw _ := (WorkerKey.registered?_keeps hkeeps key).trans hw
  others key _ := WorkerKey.registered?_keeps hkeeps key
  workers := .of_eq hkeeps.workers
  held _ := by rw [hstate]
  reads _ h := by rwa [hstate]

theorem served_start (os : Host η) (s : RecordedServer) {d : Deployment σ η}
    (hheld : s.entry ∈ StoreContent.servers s.endpoint d.state)
    (hport : s.entry.port < portBound) :
    let r := Servers.start os s.scope s.entry.protocol s.entry.port s.endpoint d
    Served [s] d (s.report r.1) r.2 := by
  have houtcome :=
    Servers.start_outcome os s.scope s.entry.protocol s.entry.port s.endpoint d
  generalize Servers.start os s.scope s.entry.protocol s.entry.port s.endpoint d = r at houtcome ⊢
  obtain ⟨answer, d'⟩ := r
  dsimp only at houtcome ⊢
  cases houtcome with
  | @running w hregistered hrunning =>
    constructor
    case counted => rfl
    case lines => exact List.nil_sublist _
    case served =>
      intro _ t ht
      rw [List.mem_singleton.mp ht]
      exact Or.inl ⟨w, hregistered, hrunning⟩
    case kept => exact fun _ _ hw _ => hw
    case others => exact fun _ _ => rfl
    case workers => exact .of_eq rfl
    case held => exact fun _ => rfl
    case reads => exact fun _ h => h
  | failed e hdead h =>
    constructor
    case counted => rfl
    case lines => exact List.Sublist.refl _
    case served =>
      intro _ t ht
      rw [List.mem_singleton.mp ht]
      exact Or.inr ⟨h.free, List.mem_singleton_self _⟩
    case kept => exact h.toTouches.kept hdead
    case others => exact fun k hk => h.others k (hk s (List.mem_singleton_self s))
    case workers => exact h.workers
    case held =>
      intro endpoint
      rw [h.state]
    case reads =>
      intro endpoint hread
      rwa [h.state]
  | @launched w _ hdead h hstate =>
    constructor
    case counted => rfl
    case lines => exact List.nil_sublist _
    case served =>
      intro hexits t ht
      rw [List.mem_singleton.mp ht]
      exact Or.inl ⟨w, h.registered, h.alive (hexits w h.new)⟩
    case kept => exact h.toTouches.kept hdead
    case others => exact fun k hk => h.others k (hk s (List.mem_singleton_self s))
    case workers => exact h.workers
    case held =>
      -- The update asks for the entry that is there.
      intro endpoint
      rw [hstate]
      exact StoreContent.held?_apply_held hport hheld endpoint
    case reads =>
      intro endpoint hread
      rw [hstate]
      exact StoreContent.readable (StoreContent.sound_server hport s.endpoint) hread

theorem Served.trans {asked later : List RecordedServer} {d d₁ d₂ : Deployment σ η}
    {report more : StartReport} (h : Served asked d report d₁) (h' : Served later d₁ more d₂) :
    Served (asked ++ later) d (report.append more) d₂ where
  counted := by
    have hfirst := h.counted
    have hmore := h'.counted
    simp only [StartReport.append, List.length_append]
    omega
  lines := by
    simp only [StartReport.append, List.map_append]
    exact h.lines.append h'.lines
  served := by
    intro hexits s hs
    have hmap : (report.append more).failed.map StartFailure.server? =
        report.failed.map StartFailure.server? ++ more.failed.map StartFailure.server? :=
      List.map_append
    -- Workers of the first part are still those workers after the second.
    have hfirst : ∀ w, d.workers.next ≤ w → d₁.workers.exitCode? w = none := by
      intro w hw
      by_cases hlt : w < d₁.workers.next
      · rw [← h'.workers.exitCode? hlt]
        exact hexits w hw
      · exact Workforce.exitCode?_of_next_le (Nat.le_of_not_lt hlt)
    have hlater := h'.served fun w hw => hexits w (Nat.le_trans h.workers.next hw)
    rw [hmap]
    rcases List.mem_append.mp hs with hs | hs
    · rcases h.served hfirst s hs with ⟨w, hw, hrun⟩ | ⟨hfree, hline⟩
      · left
        refine ⟨w, h'.kept s.key w hw hrun, ?_⟩
        rwa [h'.workers.isRunning (Workforce.lt_next_of_isRunning hrun)]
      · -- A key that was left free may be that of a server of the second part as well.
        by_cases hagain : ∃ t ∈ later, s.key = t.key
        · obtain ⟨t, ht, hkey⟩ := hagain
          rw [hkey]
          exact (hlater t ht).imp_right fun ht => ⟨ht.1, List.mem_append_left _ hline⟩
        · right
          refine ⟨?_, List.mem_append_left _ hline⟩
          rw [h'.others s.key fun t ht hkey => hagain ⟨t, ht, hkey⟩]
          exact hfree
    · exact (hlater s hs).imp_right fun hs => ⟨hs.1, List.mem_append_right _ hs.2⟩
  kept key w hw hrun := by
    refine h'.kept key w (h.kept key w hw hrun) ?_
    rwa [h.workers.isRunning (Workforce.lt_next_of_isRunning hrun)]
  others key hkey := by
    rw [h'.others key fun s hs => hkey s (List.mem_append_right _ hs)]
    exact h.others key fun s hs => hkey s (List.mem_append_left _ hs)
  workers := h.workers.trans h'.workers
  held endpoint := (h'.held endpoint).trans (h.held endpoint)
  reads endpoint hread := h'.reads endpoint (h.reads endpoint hread)

namespace Agent

theorem served_startListed (os : Host η) (scope : Scope) (endpoint : Address)
    (entries : List ServerEntry) {d : Deployment σ η}
    (hentries : ∀ entry ∈ entries,
      entry ∈ StoreContent.servers endpoint d.state ∧ entry.port < portBound) :
    Served (entries.map (⟨scope, endpoint, ·⟩)) d (startListed os scope endpoint entries d).1
      (startListed os scope endpoint entries d).2 := by
  induction entries generalizing d with
  | nil => exact served_nil (.refl d) rfl
  | cons entry rest ih =>
    obtain ⟨⟨hheld, hport⟩, hrest⟩ := List.forall_mem_cons.mp hentries
    have hstart := served_start os ⟨scope, endpoint, entry⟩ hheld hport
    dsimp only at hstart
    rw [startListed]
    rcases hr : Servers.start os scope entry.protocol entry.port endpoint d with ⟨answer, d₁⟩
    rw [hr] at hstart
    have hlater := ih (d := d₁) fun e he => by
      rw [StoreContent.servers, hstart.held]
      exact hrest e he
    have hboth := hstart.trans hlater
    cases answer <;> exact hboth

/-- When all reads succeed, the start comes to its end. -/
theorem served_startServersIn (os : Host η) {scopes : List (Scope × Option Address)}
    {d : Deployment σ η} (hports : StoreContent.Ported d.state)
    (hreads : ∀ scope endpoint, (scope, some endpoint) ∈ scopes →
      (DesiredStore.get endpoint d.state).isOk = true) :
    ∃ report, (startServersIn os scopes d).1 = .ok report ∧
      Served (RecordedServer.ofScopes scopes d.state) d report (startServersIn os scopes d).2 := by
  induction scopes generalizing d with
  | nil => exact ⟨.empty, rfl, served_nil (.refl d) rfl⟩
  | cons p rest ih =>
    have hrest : ∀ scope endpoint, (scope, some endpoint) ∈ rest →
        (DesiredStore.get endpoint d.state).isOk = true :=
      fun scope endpoint h => hreads scope endpoint (List.mem_cons_of_mem _ h)
    obtain ⟨scope, endpoint⟩ := p
    cases endpoint with
    | none =>
      obtain ⟨report, hanswer, hserved⟩ := ih (d := d.say (.serversNotStarted scope)) hports hrest
      have hsaid : Served [] d .empty (d.say (.serversNotStarted scope)) :=
        served_nil (keeps_say _ d) rfl
      refine ⟨report, hanswer, ?_⟩
      have hboth := hsaid.trans hserved
      rwa [StartReport.empty_append] at hboth
    | some endpoint =>
      have hread := StoreContent.exists_servers (hreads scope endpoint List.mem_cons_self)
      have hlisted := served_startListed os scope endpoint (StoreContent.servers endpoint d.state)
        fun entry hentry => ⟨hentry, hports.servers endpoint entry hentry⟩
      rcases hr : startListed os scope endpoint (StoreContent.servers endpoint d.state) d with
        ⟨report, d₁⟩
      rw [hr] at hlisted
      -- No entry has changed, so the later scopes are read as they were when the call began.
      have hports' : StoreContent.Ported d₁.state := by
        intro e entry hentry
        rw [hlisted.held] at hentry
        exact hports e entry hentry
      obtain ⟨later, hanswer, hserved⟩ := ih hports' fun scope endpoint h =>
        hlisted.reads endpoint (hrest scope endpoint h)
      rw [RecordedServer.ofScopes_congr hlisted.held] at hserved
      rcases hnext : startServersIn os rest d₁ with ⟨answer, d₂⟩
      rw [hnext] at hanswer hserved
      obtain rfl : answer = .ok later := hanswer
      have hboth : startServersIn os ((scope, some endpoint) :: rest) d =
          (.ok (report.append later), d₂) := by
        simp only [startServersIn, hread, hr, hnext]
      rw [hboth]
      exact ⟨report.append later, rfl, hlisted.trans hserved⟩

/-! ## All recorded servers -/

/-- What becomes of the servers that are recorded for some scopes when all are started. -/
structure AllStarted (asked : List RecordedServer) (d : Deployment σ η) (report : StartReport)
    (d' : Deployment σ η) : Prop where
  started : ∀ s ∈ asked,
    (∃ w, s.key.registered? d' = some w ∧ d'.workers.isRunning w = true ∧
      d'.workers.runnable? w = some s.runnable) ∨
    s.key.registered? d' = none ∧ some s ∈ report.failed.map StartFailure.server?
  lines : (report.failed.map StartFailure.server?).Sublist (asked.map some)
  counted : report.started + report.failed.length = asked.length
  kept : ∀ key w, WorkerKey.registered? key d = some w → d.workers.isRunning w = true →
    WorkerKey.registered? key d' = some w ∧ d'.workers.isRunning w = true
  replaced : ∀ s ∈ asked, ∀ w, s.key.registered? d = some w → d.workers.isRunning w = false →
    s.key.registered? d' ≠ some w
  others : ∀ key, (∀ s ∈ asked, key ≠ s.key) →
    WorkerKey.registered? key d' = WorkerKey.registered? key d
  held : ∀ endpoint, StoreContent.held? endpoint d'.state = StoreContent.held? endpoint d.state

theorem allStarted_of_served {site : Site} (hsite : site.Sound) {asked : List RecordedServer}
    (hasked : ∀ s ∈ asked, (s.scope, some s.endpoint) ∈ site.scopes) {d d' : Deployment σ η}
    {report : StartReport} (h : Served asked d report d')
    (hexits : ∀ w, d.workers.next ≤ w → d'.workers.exitCode? w = none)
    (hd : Staffed site.Serves d) (hd' : Staffed site.Serves d') :
    AllStarted asked d report d' where
  started := by
    intro s hs
    refine (h.served hexits s hs).imp_left ?_
    rintro ⟨w, hw, hrun⟩
    -- What runs under the key serves a scope of the same name, hence the same endpoint.
    obtain ⟨r, hr, hfits⟩ := hd' s.key w hw
    obtain ⟨scope, endpoint, hscope, hname, rfl⟩ := hfits _ rfl
    obtain rfl := Option.some.inj (hsite.named _ hscope _ (hasked s hs) hname)
    exact ⟨w, hw, hrun, hr⟩
  lines := h.lines
  counted := h.counted
  kept := by
    intro key w hw hrun
    refine ⟨h.kept key w hw hrun, ?_⟩
    rwa [h.workers.isRunning (Workforce.lt_next_of_isRunning hrun)]
  replaced := by
    intro s hs w hw hdead hsame
    -- The dead worker is an old one, so it is as dead after the call.
    obtain ⟨r, hr, -⟩ := hd s.key w hw
    rcases h.served hexits s hs with ⟨v, hv, hrun⟩ | ⟨hfree, -⟩
    · obtain rfl := Option.some.inj (hsame.symm.trans hv)
      rw [h.workers.isRunning (Workforce.lt_next_of_runnable? hr), hdead] at hrun
      exact Bool.noConfusion hrun
    · exact nomatch hsame.symm.trans hfree
  others := h.others
  held := h.held

/-- Starting all recorded servers of the scopes of a request succeeds when the store can be read.
Each of them then runs, or it has its line in the report and its key is free; nothing else is
registered or taken out, and no entry of the desired state changes. -/
theorem recorded_servers_started {settings : Settings} {topology : Topology} {state : σ} {host : η}
    {outlet : Outlet} {start a : Agent σ η}
    (hbuilt : build settings topology (.fresh state host outlet) = .ok start)
    (hports : StoreContent.Ported state) (h : Reachable start a) (os : Host η)
    {name : Option String} {scopes : List (Scope × Option Address)}
    (hresolve : a.resolve name = .ok scopes)
    (hreads : ∀ scope endpoint, (scope, some endpoint) ∈ scopes →
      (DesiredStore.get endpoint a.deployment.state).isOk = true)
    (hexits : ∀ w, a.deployment.workers.next ≤ w →
      (a.startServers os name).2.deployment.workers.exitCode? w = none) :
    ∃ report, (a.startServers os name).1 = .ok report ∧
      AllStarted (RecordedServer.ofScopes scopes a.deployment.state) a.deployment report
        (a.startServers os name).2.deployment := by
  obtain ⟨hscopes, hports, hserves⟩ := standing_of_reachable hbuilt hports h
  have hsite := site_sound hscopes
  have hsubset := resolve_subset hresolve
  obtain ⟨report, hanswer, hserved⟩ := served_startServersIn os hports hreads
  have hafter : a.startServers os name =
      (.ok report, a.put (startServersIn os scopes a.deployment).2) := by
    rw [startServers, hresolve, ← hanswer]
  rw [hafter] at hexits ⊢
  refine ⟨report, rfl, allStarted_of_served hsite ?_ hserved hexits hserves ?_⟩
  · exact fun s hs => hsubset (RecordedServer.mem_ofScopes hs)
  · exact staffed_serves (moves_startServersIn hsite os hsubset hports) hserves

/-- A host on which the port 53 is taken. -/
def crowdedHost : Host Unit :=
  { Managers.openHost with
    bind := fun spec _ => (if spec.port = 53 then .error "address in use" else .ok (), ()) }

/-- The agent of one endpoint after its day, when the server that was added has died. -/
def eveningAgent : Agent DesiredState Unit :=
  loopbackAgent.run Managers.openHost (loopbackDay ++ [.exit 3 1])

/-- On such a host the dead server cannot be started again; the other one goes on. -/
theorem recorded_servers_started_evening :
    ∃ report, (eveningAgent.startServers crowdedHost none).1 = .ok report ∧ report.started = 1 ∧
      report.failed.map StartFailure.server? = [some ⟨.root, .loopback, ⟨.udp, 53⟩⟩] ∧
      AllStarted [⟨.root, .loopback, ⟨.tcp, 80⟩⟩, ⟨.root, .loopback, ⟨.udp, 53⟩⟩]
        eveningAgent.deployment report
        (eveningAgent.startServers crowdedHost none).2.deployment := by
  have hsound : ∀ e ∈ loopbackDay ++ [.exit 3 1], e.Sound := by
    simp [loopbackDay, AgentEvent.Sound, AgentCall.Sound, loopbackRules, portBound]
  have hresolve : eveningAgent.resolve none = .ok [(.root, some .loopback)] := by rfl
  have hreads : ∀ scope endpoint, (scope, some endpoint) ∈ [(Scope.root, some Address.loopback)] →
      (DesiredStore.get endpoint eveningAgent.deployment.state).isOk = true := by
    intro scope endpoint hmem
    obtain ⟨-, hendpoint⟩ := Prod.mk.inj (List.mem_singleton.mp hmem)
    rw [Option.some.inj hendpoint]
    decide
  have hnext : (eveningAgent.startServers crowdedHost none).2.deployment.workers.next =
      eveningAgent.deployment.workers.next := by decide
  have hexits : ∀ w, eveningAgent.deployment.workers.next ≤ w →
      (eveningAgent.startServers crowdedHost none).2.deployment.workers.exitCode? w = none := by
    intro w hw
    rw [← hnext] at hw
    exact Workforce.exitCode?_of_next_le hw
  have hasked : RecordedServer.ofScopes [(.root, some .loopback)] eveningAgent.deployment.state =
      [⟨.root, .loopback, ⟨.tcp, 80⟩⟩, ⟨.root, .loopback, ⟨.udp, 53⟩⟩] := by decide
  have hreport : (eveningAgent.startServers crowdedHost none).1 = .ok ⟨1,
      [.server ⟨.udp, 53⟩ .loopback .root (.bind "address in use")]⟩ := by rfl
  have hreachable : Reachable loopbackAgent eveningAgent :=
    reachable_run Managers.openHost hsound .start
  obtain ⟨report, hanswer, hall⟩ :=
    recorded_servers_started build_loopback ported_loopback hreachable crowdedHost hresolve hreads
      hexits
  rw [hasked] at hall
  obtain rfl := Except.ok.inj (hanswer.symm.trans hreport)
  exact ⟨_, hreport, rfl, rfl, hall⟩

end Agent

end PolicyProbe
