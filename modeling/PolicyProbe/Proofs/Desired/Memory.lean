import PolicyProbe.Desired.Memory
import PolicyProbe.Proofs.OrderedMap

/-!
The order of addresses is a strict total one, so that a map by address has one entry for each.
-/
namespace PolicyProbe

namespace Address

theorem before_irrefl (xs : List Nat) : before xs xs = false := by
  induction xs with
  | nil => rfl
  | cons x xs ih => simp [before, ih]

theorem before_trans {xs ys zs : List Nat} (h1 : before xs ys = true) (h2 : before ys zs = true) :
    before xs zs = true := by
  induction xs generalizing ys zs with
  | nil => exact nomatch h1
  | cons x xs ih =>
    match ys, zs with
    | [], _ => exact nomatch h1
    | _ :: _, [] => exact nomatch h2
    | y :: ys, z :: zs =>
      simp only [before, Bool.or_eq_true, decide_eq_true_eq, Bool.and_eq_true, beq_iff_eq]
        at h1 h2 ⊢
      rcases h1 with h1 | ⟨rfl, h1⟩
      · rcases h2 with h2 | ⟨rfl, -⟩
        · exact Or.inl (by omega)
        · exact Or.inl h1
      · rcases h2 with h2 | ⟨rfl, h2⟩
        · exact Or.inl h2
        · exact Or.inr ⟨rfl, ih h1 h2⟩

theorem before_connected {xs ys : List Nat} (hlen : xs.length = ys.length) (hne : xs ≠ ys) :
    before xs ys = true ∨ before ys xs = true := by
  induction xs generalizing ys with
  | nil => exact absurd (List.length_eq_zero_iff.mp hlen.symm).symm hne
  | cons x xs ih =>
    cases ys with
    | nil => exact nomatch hlen
    | cons y ys =>
      simp only [before, Bool.or_eq_true, decide_eq_true_eq, Bool.and_eq_true, beq_iff_eq]
      by_cases hxy : x = y
      · subst hxy
        have hrest : xs ≠ ys := fun h => hne (by rw [h])
        rcases ih (by simpa using hlen) hrest with h | h
        · exact Or.inl (Or.inr ⟨rfl, h⟩)
        · exact Or.inr (Or.inr ⟨rfl, h⟩)
      · omega

instance : LawfulKeyOrder Address where
  irrefl := by
    intro a
    cases a <;> exact before_irrefl _
  trans := by
    intro a b c h1 h2
    match a, b, c with
    | .v4 _ _, .v4 _ _, .v4 _ _ => exact before_trans h1 h2
    | .v6 _ _, .v6 _ _, .v6 _ _ => exact before_trans h1 h2
    | .v4 _ _, _, .v6 _ _ => rfl
    | .v6 _ _, .v4 _ _, _ => exact Bool.noConfusion h1
    | _, .v6 _ _, .v4 _ _ => exact Bool.noConfusion h2
  connected := by
    intro a b hne
    cases a with
    | v4 xs hx => cases b with
      | v4 ys hy =>
        exact before_connected (hx.1.trans hy.1.symm) fun h => hne (by subst h; rfl)
      | v6 ys hy => exact Or.inl rfl
    | v6 xs hx => cases b with
      | v4 ys hy => exact Or.inr rfl
      | v6 ys hy =>
        exact before_connected (hx.1.trans hy.1.symm) fun h => hne (by subst h; rfl)

end Address

end PolicyProbe
