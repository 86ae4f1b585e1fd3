import PolicyProbe.Proofs.Agent.Isolation
import PolicyProbe.Proofs.Manager.Alike

/-!
Attempts to start something in one scope after another (`Agent.attemptEach`). If attempts are
confined to their scope and turn out alike where deployments are alike (`Agent.Separable`), then
attempts in all scopes are, for those that are kept, like attempts in these alone
(`Agent.Separable.sameFor`), and every scope has its turn: what is registered in it in the end, and
what the report says of it, is what its own attempt has made of it (`Agent.Separable.turn`).
-/
namespace PolicyProbe

open Deployment

/-- What a line of a report is about. -/
def StartFailure.about : StartFailure → WorkerStart
  | .server entry endpoint scope _ => .server scope entry.protocol entry.port endpoint
  | .client endpoint scope _ => .client scope endpoint

namespace Agent

variable {σ η β : Type}

/-! ## Attempts in one scope after another -/

/-- An attempt to start something in a scope whose endpoint is known. -/
abbrev Attempt (σ η : Type) := Scope → Address → Deployment σ η → StartReport × Deployment σ η

/-- One attempt in each scope; a scope whose endpoint is not known is passed over. -/
def attemptEach (skipped : Scope → Notice) (attempt : Attempt σ η) :
    List (Scope × Option Address) → Deployment σ η → StartReport × Deployment σ η
  | [], d => (.empty, d)
  | (scope, none) :: rest, d => attemptEach skipped attempt rest (d.say (skipped scope))
  | (scope, some endpoint) :: rest, d =>
    let (report, d) := attempt scope endpoint d
    let (later, d) := attemptEach skipped attempt rest d
    (report.append later, d)

/-- What the attempts in some scopes do to the others, as long as something holds of what is
deployed. -/
structure Separable [DesiredStore σ] [StoreContent σ] (kept : String → Bool) (view : η → β)
    (scopes : List Scope) (inv : Deployment σ η → Prop) (attempt : Attempt σ η) : Prop where
  said : ∀ d n, inv d → inv (d.say n)
  holds : ∀ scope ∈ scopes, ∀ endpoint d, inv d → inv (attempt scope endpoint d).2
  confined : ∀ names scope, names scope.name → ∀ endpoint d,
    Confined names (fun _ => True) d (attempt scope endpoint d).2
  lines : ∀ scope endpoint d, ∀ f ∈ (attempt scope endpoint d).1.failed, f.about.scope = scope
  host : ∀ scope ∈ scopes, kept scope.name = false → ∀ endpoint d,
    view (attempt scope endpoint d).2.host = view d.host
  alike : ∀ scope ∈ scopes, kept scope.name = true → ∀ endpoint d d', inv d → inv d' →
    Alike kept view d d' →
      Alike kept view (attempt scope endpoint d).2 (attempt scope endpoint d').2 ∧
        (attempt scope endpoint d).1.failed.map StartFailure.about =
          (attempt scope endpoint d').1.failed.map StartFailure.about

/-- For the scopes that are kept, one start is like another: the same workers are registered, and
the same lines are in the report, whatever they say of the cause. -/
structure SameFor (kept : String → Bool) (all few : StartReport × Deployment σ η) : Prop where
  worker : ∀ key : WorkerKey, kept key.scope = true → key.worker? all.2 = key.worker? few.2
  failed : (all.1.failed.filter fun f => kept f.about.scope.name).map StartFailure.about =
    few.1.failed.map StartFailure.about

section Attempts

variable [DesiredStore σ] [StoreContent σ] {kept : String → Bool} {view : η → β}
  {scopes : List Scope} {inv : Deployment σ η → Prop} {attempt : Attempt σ η}

/-- Attempts in all scopes are, for those that are kept, like attempts in these alone. -/
theorem Separable.sameFor (h : Separable kept view scopes inv attempt) (skipped : Scope → Notice)
    {pairs : List (Scope × Option Address)} (hpairs : ∀ p ∈ pairs, p.1 ∈ scopes)
    {d d' : Deployment σ η} (hd : d.Rostered) (hinv : inv d) (hinv' : inv d')
    (halike : Alike kept view d d') :
    SameFor kept (attemptEach skipped attempt pairs d)
      (attemptEach skipped attempt (pairs.filter fun p => kept p.1.name) d') := by
  induction pairs generalizing d d' with
  | nil => exact ⟨halike.worker, rfl⟩
  | cons p rest ih =>
    obtain ⟨hscope, hrest⟩ := List.forall_mem_cons.mp hpairs
    obtain ⟨scope, endpoint⟩ := p
    dsimp only at hscope
    rw [List.filter_cons]
    have hsaid : ∀ e : Deployment σ η, e.Rostered → (e.say (skipped scope)).Rostered :=
      fun e he => he.congr rfl rfl (Nat.le_refl _)
    cases endpoint with
    | none =>
      have hall := halike.keeps (keeps_say (skipped scope) d) rfl
      by_cases hkept : kept scope.name = true
      · rw [if_pos hkept]
        exact ih hrest (hsaid d hd) (h.said _ _ hinv) (h.said _ _ hinv')
          (hall.symm.keeps (keeps_say (skipped scope) d') rfl).symm
      · rw [if_neg hkept]
        exact ih hrest (hsaid d hd) (h.said _ _ hinv) hinv' hall
    | some endpoint =>
      have hafter := (h.confined (fun _ => True) scope trivial endpoint d).rostered hd
      have hlines := h.lines scope endpoint d
      have hholds := h.holds scope hscope endpoint d hinv
      rw [attemptEach]
      by_cases hkept : kept scope.name = true
      · obtain ⟨hboth, hsame⟩ := h.alike scope hscope hkept endpoint d d' hinv hinv' halike
        have hlater := ih hrest hafter hholds (h.holds scope hscope endpoint d' hinv') hboth
        have hown : (attempt scope endpoint d).1.failed.filter
            (fun f => kept f.about.scope.name) = (attempt scope endpoint d).1.failed :=
          List.filter_eq_self.mpr fun f hf => by rw [hlines f hf, hkept]
        rw [if_pos hkept, attemptEach]
        refine ⟨hlater.worker, ?_⟩
        simp only [StartReport.append, List.filter_append, List.map_append, hown, hsame,
          hlater.failed]
      · have hother : kept scope.name = false := Bool.eq_false_iff.mpr hkept
        have halone := halike.confined hd (h.confined _ scope hother endpoint d)
          (h.host scope hscope hother endpoint d)
        have hlater := ih hrest hafter hholds hinv' halone
        have hown : (attempt scope endpoint d).1.failed.filter
            (fun f => kept f.about.scope.name) = [] :=
          List.filter_eq_nil_iff.mpr fun f hf => by rw [hlines f hf]; exact hkept
        rw [if_neg hkept]
        refine ⟨hlater.worker, ?_⟩
        simp only [StartReport.append, List.filter_append, hown, List.nil_append, hlater.failed]

theorem Separable.confinedEach (h : Separable kept view scopes inv attempt)
    (skipped : Scope → Notice) (names : String → Prop) {pairs : List (Scope × Option Address)}
    (hpairs : ∀ p ∈ pairs, names p.1.name) (d : Deployment σ η) :
    Confined names (fun _ => True) d (attemptEach skipped attempt pairs d).2 := by
  induction pairs generalizing d with
  | nil => exact .refl names _ d
  | cons p rest ih =>
    obtain ⟨hname, hrest⟩ := List.forall_mem_cons.mp hpairs
    obtain ⟨scope, endpoint⟩ := p
    cases endpoint with
    | none => exact (confined_say _ d).trans (ih hrest _)
    | some endpoint => exact (h.confined names scope hname endpoint d).trans (ih hrest _)

/-- Every line is about one of the scopes. -/
theorem Separable.linesEach (h : Separable kept view scopes inv attempt)
    (skipped : Scope → Notice) (pairs : List (Scope × Option Address)) (d : Deployment σ η) :
    ∀ f ∈ (attemptEach skipped attempt pairs d).1.failed,
      ∃ endpoint, (f.about.scope, some endpoint) ∈ pairs := by
  induction pairs generalizing d with
  | nil => exact fun f hf => absurd hf List.not_mem_nil
  | cons p rest ih =>
    obtain ⟨scope, endpoint⟩ := p
    intro f hf
    have hrest : ∀ e, f ∈ (attemptEach skipped attempt rest e).1.failed →
        ∃ endpoint', (f.about.scope, some endpoint') ∈ (scope, endpoint) :: rest := by
      intro e he
      obtain ⟨endpoint', hmem⟩ := ih e f he
      exact ⟨endpoint', List.mem_cons_of_mem _ hmem⟩
    cases endpoint with
    | none => exact hrest _ hf
    | some endpoint =>
      rcases List.mem_append.mp hf with hf | hf
      · exact ⟨endpoint, by rw [h.lines scope endpoint d f hf]; exact List.mem_cons_self⟩
      · exact hrest _ hf

/-- The turn of a scope: what is registered in it is what it was at the beginning, and in the end it
is what the attempt made of it; the lines about the scope are those of the attempt. -/
structure Turn (inv : Deployment σ η → Prop) (attempt : Attempt σ η) (d : Deployment σ η)
    (all : StartReport × Deployment σ η) (scope : Scope) (endpoint : Address)
    (now : Deployment σ η) : Prop where
  rostered : now.Rostered
  holds : inv now
  before : ∀ key : WorkerKey, key.scope = scope.name → key.registered? now = key.registered? d ∧
    key.worker? now = key.worker? d
  after : ∀ key : WorkerKey, key.scope = scope.name →
    key.registered? all.2 = key.registered? (attempt scope endpoint now).2
  lines : ∀ f : StartFailure, f.about.scope = scope →
    (f ∈ all.1.failed ↔ f ∈ (attempt scope endpoint now).1.failed)

/-- Every scope whose endpoint is known has its turn. -/
theorem Separable.turn (h : Separable kept view scopes inv attempt) (skipped : Scope → Notice)
    {pairs : List (Scope × Option Address)} (hpairs : ∀ p ∈ pairs, p.1 ∈ scopes)
    (hnames : (pairs.map (·.1.name)).Nodup) {d : Deployment σ η} (hd : d.Rostered) (hinv : inv d)
    {scope : Scope} {endpoint : Address} (hmem : (scope, some endpoint) ∈ pairs) :
    ∃ now, Turn inv attempt d (attemptEach skipped attempt pairs d) scope endpoint now := by
  induction pairs generalizing d with
  | nil => exact absurd hmem List.not_mem_nil
  | cons p rest ih =>
    obtain ⟨hscope, hrest⟩ := List.forall_mem_cons.mp hpairs
    obtain ⟨hfresh, hdistinct⟩ := List.nodup_cons.mp hnames
    obtain ⟨first, found⟩ := p
    dsimp only at hscope hfresh
    rcases List.mem_cons.mp hmem with heq | hlater
    · obtain ⟨rfl, rfl⟩ := Prod.mk.inj heq
      have hothers : ∀ f : StartFailure, f.about.scope = scope → ∀ e,
          f ∉ (attemptEach skipped attempt rest e).1.failed := by
        intro f hf e hmem
        obtain ⟨endpoint', hmem⟩ := h.linesEach skipped rest e f hmem
        exact hfresh (List.mem_map.mpr ⟨_, hmem, congrArg Scope.name hf⟩)
      refine ⟨d, hd, hinv, fun _ _ => ⟨rfl, rfl⟩, fun key hkey => ?_, fun f hf => ?_⟩
      · have hothers : ∀ q ∈ rest, q.1.name ≠ scope.name :=
          fun q hq heq => hfresh (heq ▸ List.mem_map_of_mem hq)
        exact (h.confinedEach skipped (· ≠ scope.name) hothers _).others key (not_not.mpr hkey)
      · rw [attemptEach]
        exact List.mem_append.trans (or_iff_left (hothers f hf _))
    · have hne : scope.name ≠ first.name := fun heq =>
        hfresh (List.mem_map.mpr ⟨_, hlater, heq⟩)
      cases found with
      | none =>
        have hsaid : (d.say (skipped first)).Rostered := hd.congr rfl rfl (Nat.le_refl _)
        obtain ⟨now, hnow⟩ := ih hrest hdistinct hsaid (h.said _ _ hinv) hlater
        exact ⟨now, hnow.rostered, hnow.holds, hnow.before, hnow.after, hnow.lines⟩
      | some found =>
        have hconfined := h.confined (· = first.name) first rfl found d
        obtain ⟨now, hnow⟩ := ih hrest hdistinct (hconfined.rostered hd)
          (h.holds first hscope found d hinv) hlater
        refine ⟨now, hnow.rostered, hnow.holds, fun key hkey => ?_, hnow.after, fun f hf => ?_⟩
        · have hother : ¬key.scope = first.name := by rwa [hkey]
          obtain ⟨hregistered, hworker⟩ := hnow.before key hkey
          exact ⟨hregistered.trans (hconfined.others key hother),
            hworker.trans (hconfined.worker? hd hother)⟩
        · rw [← hnow.lines f hf, attemptEach]
          refine List.mem_append.trans (or_iff_right fun hmem => hne ?_)
          rw [← hf, h.lines first found d f hmem]

end Attempts

end Agent

end PolicyProbe
