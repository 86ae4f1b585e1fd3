/-!
Lists in which one item takes the place of another.
-/
namespace PolicyProbe

variable {α β : Type} {xs : List α} {i : Nat} {x : α}

/-- What the items of a list make up, when one of them is replaced, loses what the old one made and
gains what the new one makes. -/
theorem flatMap_set (h : xs[i]? = some x) (y : α) (f : α → List β) :
    ((xs.set i y).flatMap f ++ f x).Perm (xs.flatMap f ++ f y) := by
  induction xs generalizing i with
  | nil => simp at h
  | cons z xs ih =>
    cases i with
    | zero =>
      obtain rfl : z = x := by simpa using h
      simp only [List.set_cons_zero, List.flatMap_cons, List.append_assoc]
      have hfront : (f y ++ (xs.flatMap f ++ f z)).Perm ((f z ++ xs.flatMap f) ++ f y) :=
        List.perm_append_comm.trans (List.perm_append_comm.append_right _)
      rwa [List.append_assoc (f z)] at hfront
    | succ i =>
      simp only [List.set_cons_succ, List.flatMap_cons, List.append_assoc]
      exact (ih (by simpa using h)).append_left _

/-- The same for what the items of a list count. -/
theorem foldr_add_set (h : xs[i]? = some x) (y : α) (f : α → Nat) :
    (xs.set i y).foldr (fun x n => f x + n) 0 + f x = xs.foldr (fun x n => f x + n) 0 + f y := by
  induction xs generalizing i with
  | nil => simp at h
  | cons z xs ih =>
    cases i with
    | zero =>
      obtain rfl : z = x := by simpa using h
      simp only [List.set_cons_zero, List.foldr_cons]
      omega
    | succ i =>
      have hrest := ih (by simpa using h)
      simp only [List.set_cons_succ, List.foldr_cons]
      omega

/-- The same for how many items of a list are of some kind. -/
theorem countP_set (h : xs[i]? = some x) (y : α) (p : α → Bool) :
    (xs.set i y).countP p + (if p x then 1 else 0) = xs.countP p + if p y then 1 else 0 := by
  induction xs generalizing i with
  | nil => simp at h
  | cons z xs ih =>
    cases i with
    | zero =>
      obtain rfl : z = x := by simpa using h
      simp only [List.set_cons_zero, List.countP_cons]
      omega
    | succ i =>
      have hrest := ih (by simpa using h)
      simp only [List.set_cons_succ, List.countP_cons]
      omega

theorem set_getElem? (h : xs[i]? = some x) : xs.set i x = xs := by
  obtain ⟨hi, rfl⟩ := List.getElem?_eq_some_iff.mp h
  exact List.set_getElem_self hi

theorem set_ne_nil (h : xs ≠ []) (i : Nat) (y : α) : xs.set i y ≠ [] := by
  intro hnil
  have hlen := congrArg List.length hnil
  rw [List.length_set] at hlen
  exact h (List.length_eq_zero_iff.mp hlen)

theorem mem_set_of_ne {j : Nat} (hx : xs[j]? = some x) (hne : j ≠ i) (y : α) :
    x ∈ xs.set i y := by
  have hget : (xs.set i y)[j]? = some x := by
    rw [List.getElem?_set_ne (Ne.symm hne)]
    exact hx
  exact List.mem_of_getElem? hget

theorem mem_set_self (hx : xs[i]? = some x) (y : α) : y ∈ xs.set i y :=
  List.mem_set (List.getElem?_eq_some_iff.mp hx).1 y

/-- If there is an item of some kind, there is one after an item is replaced that was not of the
kind, or by one of the kind. -/
theorem exists_mem_set {y : α} (hx : xs[i]? = some x) {P : α → Prop} (hmove : P x → P y)
    (h : ∃ z ∈ xs, P z) : ∃ z ∈ xs.set i y, P z := by
  obtain ⟨z, hmem, hz⟩ := h
  obtain ⟨j, hj⟩ := List.getElem?_of_mem hmem
  by_cases hji : j = i
  · subst hji
    rw [hx, Option.some.injEq] at hj
    subst hj
    exact ⟨y, mem_set_self hx y, hmove hz⟩
  · exact ⟨z, mem_set_of_ne hj hji y, hz⟩

end PolicyProbe
