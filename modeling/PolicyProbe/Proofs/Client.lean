import Mathlib.Data.Int.CardIntervalMod
import PolicyProbe.Client

/-!
The windows of a client. The cursor is the number of destinations that were taken so far, less whole
rounds (`position_after`), so the windows of all cycles put together go round the list of
destinations, and it does not matter where one of them ends (`flatMap_taken`). What is said of a
round holds of any stretch of it: no position is ahead of another by more than one
(`windows_fair`).
-/
namespace PolicyProbe.Client

/-! ## Cycles -/

/-- The client after some cycles. -/
def after (c : Client) : Nat → Client
  | 0 => c
  | k + 1 => (c.after k).nextBatch.2

/-- The window of the cycle that comes after `k` others. -/
def batch (c : Client) (k : Nat) : List Destination := (c.after k).nextBatch.1

/-- Where the cursor is when `j` destinations of the next window have been taken. -/
def position (c : Client) (j : Nat) : Nat := (window c.destinations j c.cursor).2

/-- The positions at which the destinations of the next window are taken. -/
def taken (c : Client) : List Nat := (List.range c.rate).map c.position

theorem destinations_after (c : Client) (k : Nat) : (c.after k).destinations = c.destinations := by
  induction k with
  | zero => rfl
  | succ k ih => exact ih

theorem rate_after (c : Client) (k : Nat) : (c.after k).rate = c.rate := by
  induction k with
  | zero => rfl
  | succ k ih => exact ih

/-! ## One window -/

/-- A window that begins inside the list goes on round it. -/
theorem window_eq {destinations : List Destination} {cursor : Nat}
    (h : cursor < destinations.length) (count : Nat) :
    (window destinations count cursor).1.map some =
        (List.range count).map (fun j => destinations[(cursor + j) % destinations.length]?) ∧
      (window destinations count cursor).2 = (cursor + count) % destinations.length := by
  have hpos : 0 < destinations.length := Nat.lt_of_le_of_lt (Nat.zero_le _) h
  induction count generalizing cursor with
  | zero => exact ⟨rfl, (Nat.mod_eq_of_lt h).symm⟩
  | succ count ih =>
    obtain ⟨hrest, hcursor⟩ := ih (Nat.mod_lt (cursor + 1) hpos)
    have hshift : ∀ j, ((cursor + 1) % destinations.length + j) % destinations.length =
        (cursor + (j + 1)) % destinations.length := by
      intro j
      rw [Nat.mod_add_mod, Nat.add_assoc, Nat.add_comm 1 j]
    rw [window, List.getElem?_eq_getElem h]
    dsimp only
    constructor
    · have hfirst : destinations[(cursor + 0) % destinations.length]? =
          some destinations[cursor] := by
        rw [Nat.add_zero, Nat.mod_eq_of_lt h, List.getElem?_eq_getElem h]
      rw [List.map_cons, hrest, List.range_succ_eq_map, List.map_cons, List.map_map, hfirst]
      exact congrArg (_ :: ·) (List.map_congr_left fun j _ => by rw [hshift]; rfl)
    · rw [hcursor, hshift]

/-! ## All windows -/

section Rounds

variable {c : Client} (hcursor : c.cursor < c.destinations.length)
include hcursor

theorem cursor_after (k : Nat) :
    (c.after k).cursor = (c.cursor + k * c.rate) % c.destinations.length := by
  induction k with
  | zero => rw [Nat.zero_mul, Nat.add_zero, Nat.mod_eq_of_lt hcursor]; rfl
  | succ k ih =>
    have hlt : (c.after k).cursor < (c.after k).destinations.length := by
      rw [destinations_after, ih]
      exact Nat.mod_lt _ (Nat.lt_of_le_of_lt (Nat.zero_le _) hcursor)
    calc (c.after (k + 1)).cursor
        = ((c.after k).cursor + (c.after k).rate) % (c.after k).destinations.length :=
          (window_eq hlt _).2
      _ = (c.cursor + (k + 1) * c.rate) % c.destinations.length := by
          rw [ih, rate_after, destinations_after, Nat.mod_add_mod, Nat.succ_mul, Nat.add_assoc]

theorem cursor_after_lt (k : Nat) : (c.after k).cursor < (c.after k).destinations.length := by
  rw [cursor_after hcursor, destinations_after]
  exact Nat.mod_lt _ (Nat.lt_of_le_of_lt (Nat.zero_le _) hcursor)

theorem position_after (k j : Nat) :
    (c.after k).position j = (c.cursor + k * c.rate + j) % c.destinations.length := by
  rw [position, (window_eq (cursor_after_lt hcursor k) j).2, cursor_after hcursor,
    destinations_after, Nat.mod_add_mod]

theorem taken_after (k : Nat) : (c.after k).taken = (List.range c.rate).map fun j =>
    (c.cursor + k * c.rate + j) % c.destinations.length := by
  rw [taken, rate_after]
  exact List.map_congr_left fun j _ => position_after hcursor k j

/-- Every destination of a window is at the position at which it was taken. -/
theorem batch_eq (k : Nat) :
    (c.batch k).map some = (c.after k).taken.map fun p => c.destinations[p]? := by
  have hwindow := (window_eq (cursor_after_lt hcursor k) (c.after k).rate).1
  have hbatch : c.batch k =
      (window (c.after k).destinations (c.after k).rate (c.after k).cursor).1 := rfl
  rw [hbatch, hwindow, taken_after hcursor, List.map_map, rate_after, destinations_after]
  refine List.map_congr_left fun j _ => ?_
  rw [cursor_after hcursor, Nat.mod_add_mod]
  rfl

/-- The windows of some cycles in a row are one stretch of the round. -/
theorem flatMap_taken (start k : Nat) :
    ((List.range k).flatMap fun i => (c.after (start + i)).taken) =
      (List.range (k * c.rate)).map fun j =>
        (c.cursor + start * c.rate + j) % c.destinations.length := by
  induction k with
  | zero => rw [Nat.zero_mul]; rfl
  | succ k ih =>
    rw [List.range_succ, List.flatMap_append, ih, List.flatMap_singleton, taken_after hcursor,
      Nat.succ_mul, List.range_add, List.map_append, List.map_map]
    refine congrArg (_ ++ ·) (List.map_congr_left fun j _ => ?_)
    show _ = (c.cursor + start * c.rate + (k * c.rate + j)) % c.destinations.length
    rw [Nat.add_mul, ← Nat.add_assoc, ← Nat.add_assoc]

end Rounds

/-! ## Rounds -/

/-- Fewer steps than there are positions lead to different ones. -/
theorem nodup_round {n r : Nat} (h : r ≤ n) (start : Nat) :
    ((List.range r).map fun j => (start + j) % n).Nodup := by
  refine List.Nodup.map_on (fun i hi j hj heq => ?_) List.nodup_range
  have hmod : i % n = j % n := Nat.ModEq.add_left_cancel' start heq
  rwa [Nat.mod_eq_of_lt (Nat.lt_of_lt_of_le (List.mem_range.mp hi) h),
    Nat.mod_eq_of_lt (Nat.lt_of_lt_of_le (List.mem_range.mp hj) h)] at hmod

/-- A whole round comes to every position. -/
theorem mem_round {n m p : Nat} (hn : n ≤ m) (hp : p < n) (start : Nat) :
    p ∈ (List.range m).map fun j => (start + j) % n := by
  have hpos : 0 < n := Nat.lt_of_le_of_lt (Nat.zero_le p) hp
  have hlt : start % n < n := Nat.mod_lt start hpos
  have hstart : n * (start / n) + start % n = start := Nat.div_add_mod start n
  -- The position is ahead in this round, or it is in the next one.
  by_cases hahead : start % n ≤ p
  · refine List.mem_map.mpr ⟨p - start % n, List.mem_range.mpr (by omega), ?_⟩
    have hsum : start + (p - start % n) = n * (start / n) + p := by omega
    rw [hsum, Nat.mul_add_mod, Nat.mod_eq_of_lt hp]
  · refine List.mem_map.mpr ⟨p + n - start % n, List.mem_range.mpr (by omega), ?_⟩
    have hsum : start + (p + n - start % n) = n * (start / n) + p + n := by omega
    rw [hsum, Nat.add_mod_right, Nat.mul_add_mod, Nat.mod_eq_of_lt hp]

/-- How often a round of `m` steps comes to a position. -/
theorem count_round {n p : Nat} (hp : p < n) (m : Nat) :
    ((List.range m).map (· % n)).count p = m / n + if p < m % n then 1 else 0 := by
  have hpos : 0 < n := Nat.lt_of_le_of_lt (Nat.zero_le p) hp
  have hcount : ((List.range m).map (· % n)).count p = m.count (· ≡ p [MOD n]) := by
    induction m with
    | zero => rfl
    | succ m ih =>
      have hsame : m ≡ p [MOD n] ↔ m % n = p := by
        show m % n = p % n ↔ _
        rw [Nat.mod_eq_of_lt hp]
      rw [List.range_succ, List.map_append, List.count_append, ih, Nat.count_succ,
        List.map_singleton, List.count_singleton]
      simp only [beq_iff_eq, hsame]
  rw [hcount, Nat.count_modEq_card m hpos, Nat.mod_eq_of_lt hp]

/-- How often a round comes to a position is the quotient, rounded down or up. -/
theorem floor_or_ceil {n : Nat} (hn : 0 < n) (m p : Nat) :
    (m / n + if p < m % n then 1 else 0) = m / n ∨
      (m / n + if p < m % n then 1 else 0) = (m + n - 1) / n := by
  split
  · rename_i hlt
    right
    -- There is a remainder, so the ceiling is the next number.
    have hm : n * (m / n) + m % n = m := Nat.div_add_mod m n
    have hrem : m % n < n := Nat.mod_lt m hn
    symm
    rw [Nat.div_eq_iff hn]
    constructor
    · rw [Nat.add_mul, Nat.mul_comm (m / n)]
      omega
    · rw [Nat.add_mul, Nat.mul_comm (m / n)]
      omega
  · exact Or.inl rfl

/-- A quotient that is rounded up is enough. -/
theorem le_mul_ceil {r : Nat} (hr : 0 < r) (n : Nat) : n ≤ (n + r - 1) / r * r := by
  have hdiv := Nat.div_add_mod (n + r - 1) r
  have hlt := Nat.mod_lt (n + r - 1) hr
  rw [Nat.mul_comm]
  omega

/-! ## Fair windows -/

/-- The windows of a client with `n` destinations, of which `r` are pinged in a cycle. The cursor is
inside the list whenever a destination is taken. A window is of `r` destinations at different
positions; `k` windows in a row are the first `k * r` destinations of the list that is repeated
without end, so each position comes up as often as any other, or once more, and `n / r` cycles,
rounded up, ping all of them. -/
structure FairWindows (c : Client) (destinations : List Destination) (n r : Nat) : Prop where
  cursor : ∀ k j, (c.after k).position j < n
  size : ∀ k, (c.batch k).length = r
  positions : ∀ k, (c.batch k).map some = (c.after k).taken.map fun p => destinations[p]?
  distinct : ∀ k, (c.after k).taken.Nodup
  repeated : ∀ k, ((List.range k).flatMap c.batch).map some =
    (List.range (k * r)).map fun i => destinations[i % n]?
  chosen : ∀ k p, p < n → ((List.range k).flatMap fun i => (c.after i).taken).count p = k * r / n ∨
    ((List.range k).flatMap fun i => (c.after i).taken).count p = (k * r + n - 1) / n
  complete : 0 < r → ∀ start p, p < n →
    p ∈ (List.range ((n + r - 1) / r)).flatMap fun i => (c.after (start + i)).taken

/-- A client that begins at its first destination and pings none twice in a cycle is fair. -/
theorem fairWindows {c : Client} (hdestinations : c.destinations ≠ []) (hstart : c.cursor = 0)
    (hrate : c.rate ≤ c.destinations.length) :
    FairWindows c c.destinations c.destinations.length c.rate := by
  have hpos : 0 < c.destinations.length := List.length_pos_iff.mpr hdestinations
  have hcursor : c.cursor < c.destinations.length := by rwa [hstart]
  have htaken : ∀ k, ((List.range k).flatMap fun i => (c.after i).taken) =
      (List.range (k * c.rate)).map (· % c.destinations.length) := by
    intro k
    have hall := flatMap_taken hcursor 0 k
    simp only [hstart, Nat.zero_add, Nat.zero_mul] at hall
    exact hall
  constructor
  case cursor =>
    intro k j
    rw [position_after hcursor]
    exact Nat.mod_lt _ hpos
  case size =>
    intro k
    have hlength := congrArg List.length (batch_eq hcursor k)
    rwa [List.length_map, List.length_map, taken_after hcursor, List.length_map,
      List.length_range] at hlength
  case positions => exact batch_eq hcursor
  case distinct =>
    intro k
    rw [taken_after hcursor]
    exact nodup_round hrate _
  case repeated =>
    intro k
    have hbatch : (fun k => (c.batch k).map some) = fun k =>
        (c.after k).taken.map fun p => c.destinations[p]? := funext (batch_eq hcursor)
    rw [List.map_flatMap, hbatch, ← List.map_flatMap, htaken, List.map_map]
    rfl
  case chosen =>
    intro k p hp
    rw [htaken, count_round hp]
    exact floor_or_ceil hpos _ p
  case complete =>
    intro hr start p hp
    rw [flatMap_taken hcursor]
    exact mem_round (le_mul_ceil hr _) hp _

/-- The client of a specification with destinations goes round them in fair windows. -/
theorem windows_fair {spec : ClientSpec} (h : spec.destinations ≠ []) :
    FairWindows (ofSpec spec) spec.destinations spec.destinations.length
      (min spec.settings.requestRate spec.destinations.length) :=
  fairWindows (c := ofSpec spec) h rfl (Nat.min_le_right _ _)

/-- A client that pings two of its three destinations in a cycle. -/
def twoOfThree : ClientSpec where
  source := .loopback
  destinations := [⟨.tcp, 80, .loopback, true, .allow⟩, ⟨.tcp, 81, .loopback, true, .allow⟩,
    ⟨.udp, 53, .loopback, false, .reject⟩]
  settings := { TrafficSettings.default with requestRate := 2 }

theorem windows_fair_twoOfThree :
    ((List.range 3).map fun k => ((ofSpec twoOfThree).after k).taken) = [[0, 1], [2, 0], [1, 2]] ∧
      FairWindows (ofSpec twoOfThree) twoOfThree.destinations 3 2 :=
  ⟨by decide, windows_fair (by decide : twoOfThree.destinations ≠ [])⟩

end PolicyProbe.Client
