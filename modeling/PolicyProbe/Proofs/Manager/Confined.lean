import PolicyProbe.Proofs.Desired.Content
import PolicyProbe.Proofs.Manager.Starts

/-!
What starts and stops in some scopes leave alone (`Deployment.Confined`). They may change what is
registered in these scopes, the workers that were registered there, and the entries of some
endpoints; they may add workers. That other workers are left alone needs that no worker is
registered under two keys, and that a stop finds each key once; both are so of every deployment
that starts without workers (`Deployment.Rostered`). What stops take out is told exactly
(`Deployment.TakesOut`).
-/
namespace PolicyProbe

namespace WorkerKey

/-- The name of the scope that a key is of. -/
def scope : WorkerKey → String
  | .server key => key.scope
  | .client scope => scope

/-- Whether a key is that of a server. -/
def isServer : WorkerKey → Bool
  | .server _ => true
  | .client _ => false

end WorkerKey

theorem Registry.nodup_add {κ : Type} [BEq κ] [LawfulBEq κ] [KeyOrder κ] {m : OrderedMap κ Nat}
    (hn : m.keys.Nodup) (key : κ) (w : Nat) : (add key w m).2.keys.Nodup := by
  rw [add]
  split
  · exact hn
  · rename_i hfree
    exact OrderedMap.nodup_keys_insert hn hfree w

namespace Deployment

variable {σ η : Type}

/-! ## Registries in order -/

/-- No registry has a key twice. -/
structure Keyed (d : Deployment σ η) : Prop where
  servers : d.servers.keys.Nodup
  clients : d.clients.keys.Nodup

/-- Besides, what is registered are workers, and none of them under two keys. -/
structure Rostered (d : Deployment σ η) : Prop extends Keyed d where
  employed : ∀ key w, WorkerKey.registered? key d = some w → w < d.workers.next
  unshared : ∀ key k w, WorkerKey.registered? key d = some w →
    WorkerKey.registered? k d = some w → k = key

theorem Keyed.congr {d d' : Deployment σ η} (h : d.Keyed) (hservers : d'.servers = d.servers)
    (hclients : d'.clients = d.clients) : d'.Keyed where
  servers := hservers ▸ h.servers
  clients := hclients ▸ h.clients

theorem Keyed.erase {d : Deployment σ η} (h : d.Keyed) (key : WorkerKey) : (key.erase d).Keyed := by
  cases key with
  | server key => exact ⟨OrderedMap.nodup_keys_erase h.servers key, h.clients⟩
  | client scope => exact ⟨h.servers, OrderedMap.nodup_keys_erase h.clients scope⟩

/-- Registries stay in order when at most a new worker is registered, under one key. -/
theorem Rostered.step {d d' : Deployment σ η} (h : d.Rostered) (hkeyed : d'.Keyed)
    (hnext : d.workers.next ≤ d'.workers.next) (key : WorkerKey)
    (hothers : ∀ k w, k ≠ key → WorkerKey.registered? k d' = some w →
      WorkerKey.registered? k d = some w)
    (hkey : ∀ w, WorkerKey.registered? key d' = some w → WorkerKey.registered? key d = some w ∨
      d.workers.next ≤ w ∧ w < d'.workers.next) : d'.Rostered := by
  -- A worker that is registered was registered under the same key, or it is new and under `key`.
  have hcases : ∀ k w, WorkerKey.registered? k d' = some w →
      WorkerKey.registered? k d = some w ∨ k = key ∧ d.workers.next ≤ w ∧ w < d'.workers.next := by
    intro k w hw
    by_cases hk : k = key
    · subst hk
      exact (hkey w hw).imp_right fun hnew => ⟨rfl, hnew⟩
    · exact Or.inl (hothers k w hk hw)
  refine { toKeyed := hkeyed, employed := fun k w hw => ?_, unshared := fun k k' w hw hw' => ?_ }
  · rcases hcases k w hw with hold | ⟨-, -, hlt⟩
    · exact Nat.lt_of_lt_of_le (h.employed k w hold) hnext
    · exact hlt
  · rcases hcases k w hw with hold | ⟨rfl, hle, -⟩ <;>
      rcases hcases k' w hw' with hold' | ⟨rfl, hle', -⟩
    · exact h.unshared k k' w hold hold'
    · exact absurd (h.employed k w hold) (Nat.not_lt_of_le hle')
    · exact absurd (h.employed k' w hold') (Nat.not_lt_of_le hle)
    · rfl

theorem Rostered.congr {d d' : Deployment σ η} (h : d.Rostered)
    (hservers : d'.servers = d.servers) (hclients : d'.clients = d.clients)
    (hnext : d.workers.next ≤ d'.workers.next) : d'.Rostered where
  toKeyed := h.toKeyed.congr hservers hclients
  employed key w hw := by
    rw [WorkerKey.registered?_congr hservers hclients] at hw
    exact Nat.lt_of_lt_of_le (h.employed key w hw) hnext
  unshared key k w hw hw' := by
    rw [WorkerKey.registered?_congr hservers hclients] at hw hw'
    exact h.unshared key k w hw hw'

theorem rostered_fresh (state : σ) (host : η) (outlet : Outlet) :
    (fresh state host outlet).Rostered where
  servers := List.nodup_nil
  clients := List.nodup_nil
  employed key w hw := by cases key <;> exact nomatch hw
  unshared key k w hw := by cases key <;> exact nomatch hw

/-! ## Confined changes -/

variable [DesiredStore σ] [StoreContent σ]

/-- What is registered in scopes of other names is as it was, and so are the workers that there were
and that were not registered in these, and the entries of other endpoints. Registries stay in
order, and a worker that comes to be registered is new. -/
structure Confined (names : String → Prop) (own : Address → Prop) (d d' : Deployment σ η) :
    Prop where
  others : ∀ key : WorkerKey, ¬names key.scope → key.registered? d' = key.registered? d
  rostered : d.Rostered → d'.Rostered
  entered : ∀ (key : WorkerKey) w, key.registered? d' = some w →
    key.registered? d = some w ∨ d.workers.next ≤ w
  next : d.workers.next ≤ d'.workers.next
  workers : ∀ w, w < d.workers.next →
    (∀ key : WorkerKey, names key.scope → key.registered? d ≠ some w) →
      d'.workers.find? w = d.workers.find? w
  held : ∀ endpoint, ¬own endpoint →
    StoreContent.held? endpoint d'.state = StoreContent.held? endpoint d.state

variable {names : String → Prop} {own : Address → Prop} {d d' d'' : Deployment σ η}

theorem Confined.trans (h : Confined names own d d') (h' : Confined names own d' d'') :
    Confined names own d d'' where
  others key hkey := (h'.others key hkey).trans (h.others key hkey)
  rostered hd := h'.rostered (h.rostered hd)
  entered key w hw := by
    rcases h'.entered key w hw with hw | hle
    · exact h.entered key w hw
    · exact Or.inr (Nat.le_trans h.next hle)
  next := Nat.le_trans h.next h'.next
  workers w hw hfree := by
    -- A worker that was not registered in these scopes is not when it is not new.
    have hfree' : ∀ key : WorkerKey, names key.scope → key.registered? d' ≠ some w := by
      intro key hkey hreg
      rcases h.entered key w hreg with hreg | hle
      · exact hfree key hkey hreg
      · exact absurd hw (Nat.not_lt_of_le hle)
    exact (h'.workers w (Nat.lt_of_lt_of_le hw h.next) hfree').trans (h.workers w hw hfree)
  held endpoint hown := (h'.held endpoint hown).trans (h.held endpoint hown)

theorem confined_of_keeps (h : d.Keeps d') (hstate : d'.state = d.state) :
    Confined names own d d' where
  others key _ := WorkerKey.registered?_keeps h key
  rostered hd := hd.congr h.servers h.clients (Nat.le_of_eq (by rw [h.workers]))
  entered key w hw := Or.inl ((WorkerKey.registered?_keeps h key).symm.trans hw)
  next := Nat.le_of_eq (by rw [h.workers])
  workers w _ _ := by rw [h.workers]
  held endpoint _ := by rw [hstate]

theorem Confined.refl (names : String → Prop) (own : Address → Prop) (d : Deployment σ η) :
    Confined names own d d := confined_of_keeps (.refl d) rfl

theorem confined_say (n : Notice) (d : Deployment σ η) : Confined names own d (d.say n) :=
  confined_of_keeps (keeps_say n d) rfl

/-- What touches a key of these scopes, and registers at most a new worker, is confined. -/
theorem confined_of_touches {key : WorkerKey} (h : Touches key d d') (hname : names key.scope)
    (hkeyed : d.Keyed → d'.Keyed)
    (hnew : ∀ w, key.registered? d' = some w → d.workers.next ≤ w ∧ w < d'.workers.next)
    (hheld : ∀ endpoint, ¬own endpoint →
      StoreContent.held? endpoint d'.state = StoreContent.held? endpoint d.state) :
    Confined names own d d' where
  others k hk := h.others k fun heq => hk (heq ▸ hname)
  rostered hd := hd.step (hkeyed hd.toKeyed) h.workers.next key
    (fun k w hk hw => (h.others k hk).symm.trans hw) fun w hw => Or.inr (hnew w hw)
  entered k w hw := by
    by_cases hk : k = key
    · subst hk
      exact Or.inr (hnew w hw).1
    · exact Or.inl ((h.others k hk).symm.trans hw)
  next := h.workers.next
  workers w hw _ := h.workers.same w hw
  held := hheld

theorem confined_of_vacated {key : WorkerKey} (h : Vacated key d d') (hname : names key.scope)
    (hkeyed : d.Keyed → d'.Keyed) : Confined names own d d' := by
  refine confined_of_touches h.toTouches hname hkeyed (fun w hw => ?_) fun endpoint _ => ?_
  · rw [h.free] at hw
    exact nomatch hw
  · rw [h.state]

theorem confined_of_launched {key : WorkerKey} {runnable : Runnable} {w : Nat}
    (h : Launched key runnable w d d') (hname : names key.scope) (hkeyed : d.Keyed → d'.Keyed)
    (hheld : ∀ endpoint, ¬own endpoint →
      StoreContent.held? endpoint d'.state = StoreContent.held? endpoint d.state) :
    Confined names own d d' := by
  refine confined_of_touches h.toTouches hname hkeyed (fun v hv => ?_) hheld
  obtain rfl : w = v := Option.some.inj (h.registered.symm.trans hv)
  exact ⟨h.new, Workforce.lt_next_of_runnable? h.runs⟩

end Deployment

open Deployment

variable {σ η : Type}

/-! ## Starts -/

theorem Deployment.Keyed.started {runnable : Runnable} {d d' : Deployment σ η}
    {answer : Except TrafficError Nat} (hd : d.Keyed) (h : Started runnable d answer d') :
    d'.Keyed := hd.congr h.registries.1 h.registries.2

theorem Deployment.Keyed.keeps {d d' : Deployment σ η} (hd : d.Keyed) (h : d.Keeps d') :
    d'.Keyed := hd.congr h.servers h.clients

section Starts

variable [DesiredStore σ]

theorem Servers.keyed_launch (os : Host η) (scope : Scope) (key : ServerKey)
    (bindAddress : Address) {d : Deployment σ η} (hd : d.Keyed) :
    (launch os scope key bindAddress d).2.Keyed := by
  have hstart := started_start os scope (.server ⟨key.protocol, key.port, bindAddress⟩) d
  rw [launch]
  split <;> rename_i heq <;> rw [heq] at hstart
  · exact (hd.started hstart).keeps (keeps_say _ _)
  · rename_i w started
    have hstarted := hd.started hstart
    have hregistered : (register key w started).2.Keyed :=
      ⟨Registry.nodup_add hstarted.servers key w, hstarted.clients⟩
    exact hregistered.keeps (keeps_record key bindAddress _).1

theorem Servers.keyed_start (os : Host η) (scope : Scope) (protocol : Protocol) (port : Nat)
    (bindAddress : Address) {d : Deployment σ η} (hd : d.Keyed) :
    (start os scope protocol port bindAddress d).2.Keyed := by
  rw [start]
  split
  · split
    · exact hd
    · exact keyed_launch os scope _ bindAddress
        ((hd.erase (.server (key scope protocol port))).keeps (keeps_say _ _))
  · exact keyed_launch os scope _ bindAddress hd

theorem Clients.keyed_launch (os : Host η) (settings : TrafficSettings) (scope : Scope)
    (endpoint : Address) {d : Deployment σ η} (hd : d.Keyed) :
    (launch os settings scope endpoint d).2.Keyed := by
  rw [launch]
  split
  · exact hd
  · exact hd
  · rename_i clients _ _
    have hstart := started_start os scope (.client (spec settings endpoint clients)) d
    split <;> rename_i heq <;> rw [heq] at hstart
    · exact (hd.started hstart).keeps (keeps_say _ _)
    · have hstarted := hd.started hstart
      exact ⟨hstarted.servers, Registry.nodup_add hstarted.clients scope.name _⟩

theorem Clients.keyed_start (os : Host η) (settings : TrafficSettings) (scope : Scope)
    (endpoint : Address) {d : Deployment σ η} (hd : d.Keyed) :
    (start os settings scope endpoint d).2.Keyed := by
  rw [start]
  split
  · split
    · exact hd
    · exact keyed_launch os settings scope endpoint
        ((hd.erase (.client scope.name)).keeps (keeps_say _ _))
  · exact keyed_launch os settings scope endpoint hd

variable [StoreContent σ] {names : String → Prop} {own : Address → Prop}

theorem Servers.confined_start {scope : Scope} {bindAddress : Address} (hname : names scope.name)
    (hown : own bindAddress) (os : Host η) (protocol : Protocol) (port : Nat)
    (d : Deployment σ η) :
    Confined names own d (start os scope protocol port bindAddress d).2 := by
  have houtcome := start_outcome os scope protocol port bindAddress d
  have hkeyed := @keyed_start σ η _ os scope protocol port bindAddress d
  generalize start os scope protocol port bindAddress d = r at houtcome hkeyed ⊢
  obtain ⟨answer, d'⟩ := r
  cases houtcome with
  | running => exact .refl names own _
  | failed _ _ h => exact confined_of_vacated h hname hkeyed
  | launched _ h hstate =>
    refine confined_of_launched h hname hkeyed fun endpoint hother => ?_
    have hne : endpoint ≠ (update (key scope protocol port) bindAddress).endpoint := by
      rintro rfl
      exact hother hown
    rw [hstate, StoreContent.others hne]

theorem Clients.confined_start {scope : Scope} (hname : names scope.name) (os : Host η)
    (settings : TrafficSettings) (endpoint : Address) (d : Deployment σ η) :
    Confined names own d (start os settings scope endpoint d).2 := by
  have houtcome := start_outcome os settings scope endpoint d
  have hkeyed := @keyed_start σ η _ os settings scope endpoint d
  generalize start os settings scope endpoint d = r at houtcome hkeyed ⊢
  obtain ⟨answer, d'⟩ := r
  cases houtcome with
  | running => exact .refl names own _
  | idle _ h => exact confined_of_vacated h hname hkeyed
  | failed _ h => exact confined_of_vacated h hname hkeyed
  | launched _ _ h hstate =>
    exact confined_of_launched h hname hkeyed fun endpoint _ => by rw [hstate]

end Starts

/-! ## Stops -/

/-- Takes out the worker of a key and stops it; whether there was one. -/
def WorkerKey.dismiss (os : Host η) (key : WorkerKey) (d : Deployment σ η) :
    Bool × Deployment σ η :=
  match key.registered? d with
  | some w => (true, ((key.erase d).stop os w).2)
  | none => (false, key.erase d)

/-- Takes out the workers of some keys and stops them; how many there were. -/
def dismissEach (os : Host η) : List WorkerKey → Deployment σ η → Nat × Deployment σ η
  | [], d => (0, d)
  | key :: rest, d =>
    let (found, d) := key.dismiss os d
    let (stopped, d) := dismissEach os rest d
    (found.toNat + stopped, d)

theorem dismissEach_append (os : Host η) (keys keys' : List WorkerKey) (d : Deployment σ η) :
    (dismissEach os (keys ++ keys') d).2 = (dismissEach os keys' (dismissEach os keys d).2).2 := by
  induction keys generalizing d with
  | nil => rfl
  | cons key rest ih => exact ih _

theorem Servers.remove_eq (os : Host η) (key : ServerKey) (d : Deployment σ η) :
    remove os key d = WorkerKey.dismiss os (.server key) d := rfl

theorem Clients.stop_eq (os : Host η) (scope : String) (d : Deployment σ η) :
    stop os scope d = WorkerKey.dismiss os (.client scope) d := rfl

theorem Servers.stopKeys_eq (os : Host η) (keys : List ServerKey) (d : Deployment σ η) :
    stopKeys os keys d = dismissEach os (keys.map .server) d := by
  induction keys generalizing d with
  | nil => rfl
  | cons key rest ih => simp only [stopKeys, List.map_cons, dismissEach, remove_eq, ih]

theorem Clients.stopEach_eq (os : Host η) (scopes : List String) (d : Deployment σ η) :
    stopEach os scopes d = dismissEach os (scopes.map .client) d := by
  induction scopes generalizing d with
  | nil => rfl
  | cons scope rest ih => simp only [stopEach, List.map_cons, dismissEach, stop_eq, ih]

section Stops

variable [DesiredStore σ] [StoreContent σ] {names : String → Prop} {own : Address → Prop}

theorem confined_dismiss (os : Host η) {key : WorkerKey} (hname : names key.scope)
    (d : Deployment σ η) : Confined names own d (key.dismiss os d).2 := by
  rw [WorkerKey.dismiss]
  split
  · rename_i w hw
    -- The worker that is stopped is that of the key, so it is of these scopes.
    have herased := vacated_erase key d
    have hregistered : ∀ k : WorkerKey,
        k.registered? ((key.erase d).stop os w).2 = k.registered? (key.erase d) :=
      Managers.registered?_stop os w (key.erase d)
    have hnext : ((key.erase d).stop os w).2.workers.next = d.workers.next := by
      rw [Managers.workers_stop, Workforce.next_stop, WorkerKey.workers_erase]
    have hkeyed : d.Keyed → ((key.erase d).stop os w).2.Keyed := by
      intro hd
      have hkeeps := keeps_closeSocket os w (key.erase d)
      exact (hd.erase key).congr hkeeps.servers hkeeps.clients
    have hothers : ∀ (k : WorkerKey) v, k.registered? ((key.erase d).stop os w).2 = some v →
        k ≠ key ∧ k.registered? d = some v := by
      intro k v hv
      rw [hregistered] at hv
      have hne : k ≠ key := by
        rintro rfl
        rw [herased.free] at hv
        exact nomatch hv
      exact ⟨hne, (herased.others k hne).symm.trans hv⟩
    constructor
    case others =>
      intro k hk
      exact (hregistered k).trans (herased.others k fun heq => hk (heq ▸ hname))
    case rostered =>
      intro hd
      exact hd.step (hkeyed hd.toKeyed) (Nat.le_of_eq hnext.symm) key
        (fun k v _ hv => (hothers k v hv).2) fun v hv => Or.inl (hothers key v hv).2
    case entered => exact fun k v hv => Or.inl (hothers k v hv).2
    case next => exact Nat.le_of_eq hnext.symm
    case workers =>
      intro v _ hfree
      have hne : v ≠ w := by
        rintro rfl
        exact hfree key hname hw
      rw [Managers.workers_stop, Workforce.find?_stop_of_ne hne, WorkerKey.workers_erase]
    case held =>
      intro endpoint _
      rw [state_stop, herased.state]
  · exact confined_of_vacated (vacated_erase key d) hname fun hd => hd.erase key

theorem confined_dismissEach (os : Host η) {keys : List WorkerKey}
    (hnames : ∀ key ∈ keys, names key.scope) (d : Deployment σ η) :
    Confined names own d (dismissEach os keys d).2 := by
  induction keys generalizing d with
  | nil => exact .refl names own d
  | cons key rest ih =>
    obtain ⟨hname, hrest⟩ := List.forall_mem_cons.mp hnames
    exact (confined_dismiss os hname d).trans (ih hrest _)

theorem Servers.confined_stop (os : Host η) {scope : Scope} (hname : names scope.name)
    (protocol : Protocol) (port : Nat) (d : Deployment σ η) :
    Confined names own d (stop os scope protocol port d).2 := by
  have hremove : Confined names own d
      (WorkerKey.dismiss os (.server (key scope protocol port)) d).2 :=
    confined_dismiss os hname d
  rw [stop, remove_eq]
  split <;> rename_i heq <;> rw [heq] at hremove
  · exact hremove
  · exact hremove.trans (confined_say _ _)

theorem Servers.confined_stopAll (os : Host η) {scope : Scope} (hname : names scope.name)
    (d : Deployment σ η) : Confined names own d (stopAll os scope d).2 := by
  rw [stopAll, stopKeys_eq]
  refine confined_dismissEach os (fun key hkey => ?_) d
  obtain ⟨key, hmem, rfl⟩ := List.mem_map.mp hkey
  have hscope : key.scope = scope.name := by simpa using (List.mem_filter.mp hmem).2
  show names key.scope
  rwa [hscope]

end Stops

end PolicyProbe
