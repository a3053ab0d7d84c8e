import Mathlib.Tactic.Common

/-! # Distances around a circle

Positions `0` to `n - 1` in a circle, and how many steps one is behind another. -/

namespace Lib

/-- The steps from `i` to `c`. -/
def cyclicDistance (n i c : Nat) : Nat := if i ≤ c then c - i else n - i + c

section
variable {n i c j : Nat}

theorem cyclicDistance_lt (iLt : i < n) (cLt : c < n) : cyclicDistance n i c < n := by
  unfold cyclicDistance
  split_ifs <;> omega

theorem cyclicDistance_inj (iLt : i < n) (cLt : c < n) (jLt : j < n) (same : cyclicDistance n i c = cyclicDistance n i j) : c = j := by
  unfold cyclicDistance at same
  split_ifs at same <;> omega

theorem cyclic_next (cLt : c < n) : (c + 1) % n = if c + 1 = n then 0 else c + 1 := by
  split_ifs with last
  · rw [last, Nat.mod_self]
  · exact Nat.mod_eq_of_lt (by omega)

theorem cyclicDistance_next (iLt : i < n) (cLt : c < n) (other : (c + 1) % n ≠ i) : cyclicDistance n i ((c + 1) % n) = cyclicDistance n i c + 1 := by
  rw [cyclic_next cLt] at other ⊢
  unfold cyclicDistance
  split_ifs at other ⊢ <;> omega

theorem cyclicDistance_last (cLt : c < n) (first : (c + 1) % n = i) : cyclicDistance n i c = n - 1 := by
  rw [cyclic_next cLt] at first
  unfold cyclicDistance
  split_ifs at first ⊢ <;> omega

theorem cyclicDistance_behind (iLt : i < n) (jLt : j < n) (cLt : c < n) (other : j ≠ c) (le : cyclicDistance n i j ≤ cyclicDistance n i c) :
    cyclicDistance n ((j + 1) % n) c < cyclicDistance n i c := by
  rw [cyclic_next jLt]
  unfold cyclicDistance at *
  split_ifs at * <;> omega

end
end Lib
