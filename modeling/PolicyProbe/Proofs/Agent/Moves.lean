import Mathlib.Logic.Relation
import PolicyProbe.Agent.Call
import PolicyProbe.Proofs.Agent.Registration
import PolicyProbe.Proofs.Desired.Content
import PolicyProbe.Proofs.Manager.Starts

/-!
What an agent can become. Whatever it is asked to do, and however starts and stores fail, it makes
moves of three kinds (`Move`): workers and entries go, a worker comes that the site of the agent
plans for, or the entry of a local endpoint is updated. So what moves preserve is true of every
agent that is reached (`Reachable.moves`), of what the desired state holds (`everyEntry_moves`) as
well as of what the registered workers run (`staffed_moves`).
-/
namespace PolicyProbe

/-! ## The site of an agent -/

/-- Where the workers and the desired state of an agent belong: its scopes with their endpoints, the
addresses that are its own, and how its clients ping. -/
structure Site where
  scopes : List (Scope × Option Address)
  isLocal : Address → Bool
  traffic : TrafficSettings

/-- Scopes of one name have one endpoint, which is an address of the agent. -/
structure Site.Sound (site : Site) : Prop where
  named : ∀ p ∈ site.scopes, ∀ q ∈ site.scopes, p.1.name = q.1.name → p.2 = q.2
  isLocal : ∀ scope endpoint, (scope, some endpoint) ∈ site.scopes → site.isLocal endpoint = true

namespace Agent

variable {σ η : Type}

def site (a : Agent σ η) : Site :=
  ⟨a.scopes.map fun scope => (scope, a.endpointOf? scope), a.topology.isLocal, a.settings.traffic⟩

theorem mem_site {a : Agent σ η} {scope : Scope} {endpoint : Option Address} :
    (scope, endpoint) ∈ a.site.scopes ↔ scope ∈ a.scopes ∧ a.endpointOf? scope = endpoint := by
  simp [site]

/-- An agent that is built has the scopes of its topology. -/
theorem build_eq_ok {settings : Settings} {topology : Topology} {d : Deployment σ η}
    {a : Agent σ η} (h : build settings topology d = .ok a) :
    scopesOf a.topology = .ok a.scopes ∧ a.deployment = d := by
  obtain ⟨scopes, hscopes, h⟩ := Except.bind_eq_ok h
  cases h
  exact ⟨hscopes, rfl⟩

theorem scopesOf_root {t : Topology} (hmode : t.namespaceMode = false) :
    scopesOf t = .ok [.root] := by
  rw [scopesOf, hmode]
  rfl

/-- With namespaces there is one scope for each, in the order of their names. -/
theorem eq_of_scopesOf {t : Topology} {scopes : List Scope} (h : scopesOf t = .ok scopes)
    (hmode : t.namespaceMode = true) :
    scopes = t.names.map fun name => .named name (Path.join t.directory name) := by
  rw [scopesOf, if_pos hmode] at h
  generalize t.names = names at h ⊢
  induction names generalizing scopes with
  | nil =>
    rw [List.mapM_nil] at h
    exact (Except.ok.inj h).symm
  | cons name names ih =>
    rw [List.mapM_cons, Topology.path?] at h
    obtain ⟨first, hfirst, h⟩ := Except.bind_eq_ok h
    obtain ⟨rest, hrest, h⟩ := Except.bind_eq_ok h
    rw [← Except.ok.inj h, List.map_cons, ih hrest]
    split at hfirst
    · rename_i path hpath
      have hjoin : Path.join t.directory name = path := by
        split at hpath
        · exact Option.some.inj hpath
        · exact nomatch hpath
      rw [← Except.ok.inj hfirst, hjoin]
    · exact nomatch hfirst

theorem named_of_mem_scopesOf {t : Topology} {scopes : List Scope} (h : scopesOf t = .ok scopes)
    (hmode : t.namespaceMode = true) {scope : Scope} (hscope : scope ∈ scopes) :
    ∃ name path, scope = .named name path := by
  rw [eq_of_scopesOf h hmode] at hscope
  obtain ⟨name, -, rfl⟩ := List.mem_map.mp hscope
  exact ⟨name, _, rfl⟩

theorem names_of_scopesOf {t : Topology} {scopes : List Scope} (h : scopesOf t = .ok scopes)
    (hmode : t.namespaceMode = true) : scopes.map Scope.name = t.names := by
  rw [eq_of_scopesOf h hmode, List.map_map]
  exact List.map_id _

theorem site_sound {a : Agent σ η} (h : scopesOf a.topology = .ok a.scopes) : a.site.Sound := by
  cases hplaces : a.topology.places with
  | root endpoint =>
    -- There is one scope, and its endpoint is the only address of the agent.
    have hscopes : a.scopes = [.root] := by
      rw [scopesOf, Topology.namespaceMode, hplaces] at h
      exact (Except.ok.inj h).symm
    have hroot : ∀ p ∈ a.site.scopes, p = (Scope.root, endpoint) := by
      intro p hp
      rw [site, hscopes] at hp
      rw [List.mem_singleton.mp hp]
      show (_, a.topology.rootEndpoint?) = _
      rw [Topology.rootEndpoint?, hplaces]
    constructor
    · intro p hp q hq _
      rw [hroot p hp, hroot q hq]
    · intro scope e hmem
      obtain ⟨-, rfl⟩ := Prod.mk.inj (hroot _ hmem)
      simp [site, Topology.isLocal, hplaces]
  | namespaces endpoints =>
    -- The endpoint of a scope is looked up by its name, among the addresses of the agent.
    have hmode : a.topology.namespaceMode = true := by rw [Topology.namespaceMode, hplaces]
    have hnamed : ∀ p ∈ a.site.scopes, p.2 = (endpoints.find? p.1.name).join := by
      rintro ⟨scope, endpoint⟩ hp
      obtain ⟨hscope, rfl⟩ := mem_site.mp hp
      obtain ⟨name, path, rfl⟩ := named_of_mem_scopesOf h hmode hscope
      rw [endpointOf?, Topology.endpointOf?, hplaces]
      rfl
    constructor
    · intro p hp q hq hname
      rw [hnamed p hp, hnamed q hq, hname]
    · intro scope e hmem
      have hfind := (hnamed _ hmem).symm
      rw [Option.join_eq_some_iff] at hfind
      have hvalue : some e ∈ endpoints.values :=
        List.mem_map.mpr ⟨_, OrderedMap.mem_of_find? hfind, rfl⟩
      simp only [site, Topology.isLocal, hplaces]
      exact List.any_eq_true.mpr ⟨some e, hvalue, beq_self_eq_true _⟩

/-- A request is about scopes of the agent. -/
theorem resolve_subset {a : Agent σ η} {name : Option String}
    {scopes : List (Scope × Option Address)} (h : a.resolve name = .ok scopes) :
    scopes ⊆ a.site.scopes := by
  cases name with
  | none =>
    rw [← Except.ok.inj h]
    exact List.Subset.refl _
  | some name =>
    rw [resolve] at h
    split at h
    · split at h
      · rename_i scope hfind
        rw [← Except.ok.inj h]
        intro p hp
        rw [List.mem_singleton.mp hp]
        exact mem_site.mpr ⟨List.mem_of_find?_eq_some hfind, rfl⟩
      · exact nomatch h
    · exact nomatch h

end Agent

/-! ## Moves -/

/-- What is planned for the key of a scope: the server of a protocol and a port on its endpoint, or
the client for all that the desired state has for its endpoint. -/
inductive Site.Plans {σ : Type} [DesiredStore σ] [StoreContent σ] (site : Site) (s : σ) :
    WorkerKey → Runnable → Prop where
  | server {scope : Scope} {endpoint : Address} (hscope : (scope, some endpoint) ∈ site.scopes)
      (protocol : Protocol) (port : Nat) :
      Plans site s (.server (Servers.key scope protocol port)) (.server ⟨protocol, port, endpoint⟩)
  | client {scope : Scope} {endpoint : Address} (hscope : (scope, some endpoint) ∈ site.scopes)
      (hclients : StoreContent.clients endpoint s ≠ []) :
      Plans site s (.client scope.name)
        (.client (Clients.spec site.traffic endpoint (StoreContent.clients endpoint s)))

namespace Deployment

variable {σ η : Type} [DesiredStore σ] [StoreContent σ]

/-- Registered workers and entries at most go, and no worker becomes one for something else. -/
structure Reduced (d d' : Deployment σ η) : Prop where
  registered : ∀ key w, WorkerKey.registered? key d' = some w → WorkerKey.registered? key d = some w
  runnables : ∀ w r, d.workers.runnable? w = some r → d'.workers.runnable? w = some r
  held : ∀ endpoint entry, StoreContent.held? endpoint d'.state = some entry →
    StoreContent.held? endpoint d.state = some entry

theorem Reduced.refl (d : Deployment σ η) : Reduced d d :=
  ⟨fun _ _ h => h, fun _ _ h => h, fun _ _ h => h⟩

theorem Reduced.trans {d d' d'' : Deployment σ η} (h : Reduced d d') (h' : Reduced d' d'') :
    Reduced d d'' where
  registered key w hw := h.registered key w (h'.registered key w hw)
  runnables w r hr := h'.runnables w r (h.runnables w r hr)
  held e entry he := h.held e entry (h'.held e entry he)

theorem reduced_of_keeps {d d' : Deployment σ η} (h : d.Keeps d')
    (hheld : ∀ endpoint entry, StoreContent.held? endpoint d'.state = some entry →
      StoreContent.held? endpoint d.state = some entry) : Reduced d d' where
  registered key w hw := (WorkerKey.registered?_keeps h key).symm.trans hw
  runnables w r hr := by rwa [h.workers]
  held := hheld

theorem reduced_of_vacated {key : WorkerKey} {d d' : Deployment σ η} (h : Vacated key d d') :
    Reduced d d' where
  registered k w hw := by
    by_cases hk : k = key
    · rw [hk, h.free] at hw
      exact nomatch hw
    · exact (h.others k hk).symm.trans hw
  runnables w r hr := h.workers.runnable? hr
  held e entry he := by rwa [h.state] at he

theorem reduced_erase (key : WorkerKey) (d : Deployment σ η) : Reduced d (key.erase d) :=
  reduced_of_vacated (vacated_erase key d)

theorem reduced_stop (os : Host η) (w : Nat) (d : Deployment σ η) : Reduced d (d.stop os w).2 where
  registered key v hv := (Managers.registered?_stop os w d key).symm.trans hv
  runnables v r hr := by rwa [Managers.workers_stop, Workforce.runnable?_stop]
  held e entry he := by rwa [state_stop] at he

theorem reduced_exit (os : Host η) (w code : Nat) (d : Deployment σ η) :
    Reduced d (d.exit os w code) where
  registered key v hv := (Managers.registered?_exit os w code d key).symm.trans hv
  runnables v r hr := by rwa [Managers.workers_exit, Workforce.runnable?_exit]
  held e entry he := by rwa [state_exit] at he

end Deployment

open Deployment

variable {σ η : Type} [DesiredStore σ] [StoreContent σ]

/-- What one step of an agent makes of what it has deployed. -/
inductive Move (site : Site) (d : Deployment σ η) : Deployment σ η → Prop where
  | reduced {d' : Deployment σ η} (h : Reduced d d') : Move site d d'
  | hired {key : WorkerKey} {runnable : Runnable} {w : Nat} {d' : Deployment σ η}
      (hplans : site.Plans d.state key runnable) (h : Launched key runnable w d d')
      (hstate : d'.state = d.state) : Move site d d'
  | updated {u : StateUpdate} {d' : Deployment σ η} (hlocal : site.isLocal u.endpoint = true)
      (hu : u.Sound) (hkeeps : d.Keeps d') (hstate : d'.state = (DesiredStore.apply u d.state).2) :
      Move site d d'

/-- Any number of moves. -/
abbrev Moves (site : Site) : Deployment σ η → Deployment σ η → Prop :=
  Relation.ReflTransGen (Move site)

theorem moves_of_reduced {site : Site} {d d' : Deployment σ η} (h : Reduced d d') :
    Moves site d d' := .single (.reduced h)

/-- What every move preserves is preserved by all of them. -/
theorem Moves.preserve {site : Site} (holds : Deployment σ η → Prop)
    (hmove : ∀ d d', Move site d d' → holds d → holds d') {d d' : Deployment σ η}
    (h : Moves site d d') (hd : holds d) : holds d' := by
  induction h with
  | refl => exact hd
  | tail _ hstep ih => exact hmove _ _ hstep ih

/-! ## What moves preserve -/

/-- Entries stay of a kind to which updates of local endpoints lead. -/
theorem everyEntry_moves {site : Site} {kind : Address → StateEntry → Prop}
    (hmerge : ∀ u : StateUpdate, u.Sound → site.isLocal u.endpoint = true → ∀ entry,
      entry = .empty u.endpoint ∨ kind u.endpoint entry →
        kind u.endpoint (entry.merge u.servers u.clients)) {d d' : Deployment σ η}
    (h : Moves site d d') (hd : StoreContent.EveryEntry kind d.state) :
    StoreContent.EveryEntry kind d'.state := by
  refine Moves.preserve (fun d => StoreContent.EveryEntry kind d.state) ?_ h hd
  intro d d' hmove hd
  cases hmove with
  | reduced h => exact fun endpoint entry hentry => hd endpoint entry (h.held endpoint entry hentry)
  | hired _ _ hstate => rwa [hstate]
  | updated hlocal hu _ hstate =>
    rw [hstate]
    exact hd.apply hu (hmerge _ hu hlocal)

theorem ported_moves {site : Site} {d d' : Deployment σ η} (h : Moves site d d')
    (hd : StoreContent.Ported d.state) : StoreContent.Ported d'.state := by
  refine everyEntry_moves (fun u hu _ entry hentry => ?_) h hd
  rcases hentry with rfl | hentry
  · exact (StateEntry.sound_empty u.endpoint).merge hu
  · exact hentry.merge hu

/-- Every registered worker is for something that fits its key. -/
def Staffed (fits : WorkerKey → Runnable → Prop) (d : Deployment σ η) : Prop :=
  ∀ key w, WorkerKey.registered? key d = some w → ∃ r, d.workers.runnable? w = some r ∧ fits key r

/-- Registered workers stay fitting when all that is planned fits. -/
theorem staffed_moves {site : Site} {fits : WorkerKey → Runnable → Prop} {d d' : Deployment σ η}
    (hplans : ∀ d₁, Moves site d d₁ → ∀ key r, site.Plans d₁.state key r → fits key r)
    (h : Moves site d d') (hd : Staffed fits d) : Staffed fits d' := by
  induction h with
  | refl => exact hd
  | tail hmoves hmove ih =>
    intro key v hv
    cases hmove with
    | reduced h =>
      obtain ⟨r, hr, hfits⟩ := ih key v (h.registered key v hv)
      exact ⟨r, h.runnables v r hr, hfits⟩
    | @hired k runnable w _ hplan h _ =>
      by_cases hk : key = k
      · -- The one key whose worker has changed has the worker that was planned.
        subst hk
        rw [h.registered] at hv
        obtain rfl := Option.some.inj hv
        exact ⟨runnable, h.runs, hplans _ hmoves key runnable hplan⟩
      · obtain ⟨r, hr, hfits⟩ := ih key v ((h.others key hk).symm.trans hv)
        exact ⟨r, h.workers.runnable? hr, hfits⟩
    | updated _ _ hkeeps _ =>
      obtain ⟨r, hr, hfits⟩ := ih key v ((WorkerKey.registered?_keeps hkeeps key).symm.trans hv)
      exact ⟨r, by rwa [hkeeps.workers], hfits⟩

end PolicyProbe
