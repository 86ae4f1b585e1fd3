import PolicyProbe.Agent.Traffic

/-!
Registrations of policy rules that are in progress at the same time. Each of them makes the updates
of its rules in order and stops at the first that is refused; between two updates of one
registration, the others may make theirs. `written` is the list of the updates that were made, in
the order in which the store took them.
-/
namespace PolicyProbe

/-- A registration: the updates that it has still to make, and why it stopped, if it did. -/
structure Registration where
  remaining : List StateUpdate
  failure : Option StorageError

namespace Registration

/-- The registration of some rules. Inactive rules ask for nothing. -/
def ofRules (t : Topology) (rules : List Rule) : Registration :=
  ⟨(rules.filter (·.state ≠ .inactive)).flatMap (Agent.updatesOf t), none⟩

/-- Whether a registration made all its updates. -/
def isComplete (r : Registration) : Bool := r.remaining.isEmpty && r.failure.isNone

end Registration

/-- The store of desired state with the registrations in progress. -/
structure Registrations (σ : Type) where
  state : σ
  calls : List Registration
  written : List StateUpdate

namespace Registrations

variable {σ : Type} [DesiredStore σ]

/-- Registrations of some lists of rules, none of which has made an update yet. -/
def start (t : Topology) (state : σ) (requests : List (List Rule)) : Registrations σ :=
  ⟨state, requests.map (.ofRules t), []⟩

/-- The registrations after one of them made its next update, or was refused it. -/
def advance (s : Registrations σ) (i : Nat) : Registrations σ :=
  match s.calls[i]? with
  | some ⟨u :: rest, none⟩ =>
    match DesiredStore.apply u s.state with
    | (.ok _, state) => ⟨state, s.calls.set i ⟨rest, none⟩, s.written ++ [u]⟩
    | (.error e, state) => ⟨state, s.calls.set i ⟨u :: rest, some e⟩, s.written⟩
  | _ => s

/-- The registrations after updates in some order; a number is that of the registration whose turn
it is. -/
def run (s : Registrations σ) (turns : List Nat) : Registrations σ := turns.foldl advance s

/-- Whether all registrations made all their updates. -/
def isComplete (s : Registrations σ) : Bool := s.calls.all Registration.isComplete

end Registrations

end PolicyProbe
