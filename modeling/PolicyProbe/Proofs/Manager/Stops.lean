import PolicyProbe.Proofs.Manager.Confined

/-!
What stops take out, exactly. A stop finds each of its keys at most once, so it takes out what is
registered under them and counts it; the desired state stays (`Deployment.TakesOut`). What several
stops take out is what any of them does (`Deployment.TakesOut.trans`).
-/
namespace PolicyProbe

namespace WorkerKey

@[simp] theorem server_beq_server (a b : ServerKey) :
    (WorkerKey.server a == WorkerKey.server b) = (a == b) := by
  rw [Bool.eq_iff_iff]
  simp

@[simp] theorem client_beq_client (a b : String) :
    (WorkerKey.client a == WorkerKey.client b) = (a == b) := by
  rw [Bool.eq_iff_iff]
  simp

@[simp] theorem server_beq_client (a : ServerKey) (b : String) :
    (WorkerKey.server a == WorkerKey.client b) = false := by
  rw [beq_eq_false_iff_ne]
  nofun

@[simp] theorem client_beq_server (a : String) (b : ServerKey) :
    (WorkerKey.client a == WorkerKey.server b) = false := by
  rw [beq_eq_false_iff_ne]
  nofun

end WorkerKey

namespace Deployment

variable {σ η : Type}

/-- What is registered under some keys is taken out, of which there is as much as the number says,
and the desired state stays. -/
structure TakesOut (gone : WorkerKey → Bool) (n : Nat) (d d' : Deployment σ η) : Prop where
  servers : d'.servers = d.servers.filter fun e => !gone (.server e.1)
  clients : d'.clients = d.clients.filter fun e => !gone (.client e.1)
  state : d'.state = d.state
  count : n = d.servers.countP (fun e => gone (.server e.1)) +
    d.clients.countP fun e => gone (.client e.1)

variable {gone gone' : WorkerKey → Bool} {m n : Nat} {d d' d'' : Deployment σ η}

theorem TakesOut.keyed (h : TakesOut gone n d d') (hd : d.Keyed) : d'.Keyed where
  servers := by
    rw [h.servers]
    exact hd.servers.sublist (List.filter_sublist.map Prod.fst)
  clients := by
    rw [h.clients]
    exact hd.clients.sublist (List.filter_sublist.map Prod.fst)

theorem TakesOut.keeps (h : TakesOut gone n d d') (hkeeps : d'.Keeps d'')
    (hstate : d''.state = d'.state) : TakesOut gone n d d'' where
  servers := hkeeps.servers.trans h.servers
  clients := hkeeps.clients.trans h.clients
  state := hstate.trans h.state
  count := h.count

/-- Only what is said of registered keys matters. -/
theorem TakesOut.congr (h : TakesOut gone n d d')
    (hservers : ∀ key ∈ d.servers.keys, gone (.server key) = gone' (.server key))
    (hclients : ∀ scope ∈ d.clients.keys, gone (.client scope) = gone' (.client scope)) :
    TakesOut gone' n d d' := by
  have hs : ∀ e ∈ d.servers, gone (.server e.1) = gone' (.server e.1) :=
    fun e he => hservers e.1 (List.mem_map_of_mem he)
  have hc : ∀ e ∈ d.clients, gone (.client e.1) = gone' (.client e.1) :=
    fun e he => hclients e.1 (List.mem_map_of_mem he)
  constructor
  case servers =>
    rw [h.servers]
    exact List.filter_congr fun e he => by rw [hs e he]
  case clients =>
    rw [h.clients]
    exact List.filter_congr fun e he => by rw [hc e he]
  case state => exact h.state
  case count =>
    have hscount : d.servers.countP (fun e => gone (.server e.1)) =
        d.servers.countP fun e => gone' (.server e.1) :=
      List.countP_congr fun e he => by rw [hs e he]
    have hccount : d.clients.countP (fun e => gone (.client e.1)) =
        d.clients.countP fun e => gone' (.client e.1) :=
      List.countP_congr fun e he => by rw [hc e he]
    rw [h.count, hscount, hccount]

/-- Of two tests, those that pass the first are counted, and then those of the others that pass the
second. -/
theorem countP_or {α : Type} (p q : α → Bool) (xs : List α) :
    xs.countP (fun x => p x || q x) = xs.countP p + (xs.filter fun x => !p x).countP q := by
  induction xs with
  | nil => rfl
  | cons x xs ih =>
    cases hp : p x <;> cases hq : q x <;> simp [hp, hq, ih] <;> omega

theorem TakesOut.trans (h : TakesOut gone m d d') (h' : TakesOut gone' n d' d'') :
    TakesOut (fun key => gone key || gone' key) (m + n) d d'' where
  servers := by
    rw [h'.servers, h.servers, List.filter_filter]
    exact List.filter_congr fun e _ => by rw [Bool.not_or, Bool.and_comm]
  clients := by
    rw [h'.clients, h.clients, List.filter_filter]
    exact List.filter_congr fun e _ => by rw [Bool.not_or, Bool.and_comm]
  state := h'.state.trans h.state
  count := by
    rw [h.count, h'.count, h.servers, h.clients, countP_or, countP_or]
    omega

theorem takesOut_nothing (d : Deployment σ η) : TakesOut (fun _ => false) 0 d d where
  servers := (List.filter_eq_self.mpr fun _ _ => rfl).symm
  clients := (List.filter_eq_self.mpr fun _ _ => rfl).symm
  state := rfl
  count := by simp

end Deployment

open Deployment

variable {σ η : Type}

theorem takesOut_dismiss (os : Host η) (key : WorkerKey) {d : Deployment σ η} (hd : d.Keyed) :
    TakesOut (· == key) (key.dismiss os d).1.toNat d (key.dismiss os d).2 := by
  have herased : TakesOut (· == key) (key.registered? d).isSome.toNat d (key.erase d) := by
    have hfalse : ∀ {κ : Type} (m : OrderedMap κ Nat), m.countP (fun _ => false) = 0 :=
      fun m => congrFun List.countP_false m
    cases key with
    | server key =>
      constructor
      case servers => simp [WorkerKey.erase, OrderedMap.erase]
      case clients =>
        exact (List.filter_eq_self.mpr fun e _ => by simp).symm
      case state => rfl
      case count => simp [OrderedMap.countP_key hd.servers, WorkerKey.registered?, hfalse]
    | client scope =>
      constructor
      case servers => exact (List.filter_eq_self.mpr fun e _ => by simp).symm
      case clients => simp [WorkerKey.erase, OrderedMap.erase]
      case state => rfl
      case count => simp [OrderedMap.countP_key hd.clients, WorkerKey.registered?, hfalse]
  rw [WorkerKey.dismiss]
  split <;> rename_i hfound <;> rw [hfound] at herased
  · rename_i w
    have hkeeps := keeps_closeSocket os w (key.erase d)
    exact {
      servers := hkeeps.servers.trans herased.servers
      clients := hkeeps.clients.trans herased.clients
      state := (state_stop os w _).trans herased.state
      count := herased.count }
  · exact herased

theorem takesOut_dismissEach (os : Host η) (keys : List WorkerKey) {d : Deployment σ η}
    (hd : d.Keyed) :
    TakesOut keys.contains (dismissEach os keys d).1 d (dismissEach os keys d).2 := by
  induction keys generalizing d with
  | nil => exact takesOut_nothing d
  | cons key rest ih =>
    have hfirst := takesOut_dismiss os key hd
    have hall := hfirst.trans (ih (hfirst.keyed hd))
    exact hall.congr (fun _ _ => List.contains_cons.symm) fun _ _ => List.contains_cons.symm

/-- The server of a protocol and a port in a scope. -/
theorem Servers.takesOut_stop (os : Host η) (scope : Scope) (protocol : Protocol) (port : Nat)
    {d : Deployment σ η} (hd : d.Keyed) :
    TakesOut (· == .server (key scope protocol port)) (stop os scope protocol port d).1.toNat d
      (stop os scope protocol port d).2 := by
  have hremove := takesOut_dismiss os (.server (key scope protocol port)) hd
  rw [stop, remove_eq]
  split <;> rename_i heq <;> rw [heq] at hremove
  · exact hremove
  · exact hremove.keeps (keeps_say _ _) rfl

/-- All servers of a scope. -/
theorem Servers.takesOut_stopAll (os : Host η) (scope : Scope) {d : Deployment σ η}
    (hd : d.Keyed) :
    TakesOut (fun key => key.isServer && key.scope == scope.name) (stopAll os scope d).1 d
      (stopAll os scope d).2 := by
  rw [stopAll, stopKeys_eq]
  refine (takesOut_dismissEach os _ hd).congr (fun key hkey => ?_) fun name _ => ?_
  · have hlisted : WorkerKey.server key ∈ (Registry.keysIn scope.name d.servers).map .server ↔
        key.scope = scope.name := by
      simp [Registry.keysIn, hkey]
    rw [Bool.eq_iff_iff, List.contains_iff_mem, hlisted]
    simp [WorkerKey.isServer, WorkerKey.scope]
  · have hnone : WorkerKey.client name ∉
        (Registry.keysIn scope.name d.servers).map WorkerKey.server := by simp
    rw [Bool.eq_iff_iff, List.contains_iff_mem, iff_false_left hnone]
    simp [WorkerKey.isServer]

/-- All clients. -/
theorem Clients.takesOut_stopAll (os : Host η) {d : Deployment σ η} (hd : d.Keyed) :
    TakesOut (fun key => !key.isServer) (stopAll os d).1 d (stopAll os d).2 := by
  rw [stopAll, stopEach_eq]
  refine (takesOut_dismissEach os _ hd).congr (fun key _ => ?_) fun name hname => ?_
  · simp [WorkerKey.isServer]
  · simpa [WorkerKey.isServer] using hname

end PolicyProbe
