import Mathlib.Logic.Function.Basic
import Mathlib.Data.List.Nodup
import Mathlib.Data.List.Perm.Subperm

/-! # Tables of cells

A table is a function on the numbers of its cells. How many cells of a list have a property changes with an update by what the cell had
and by what it has. -/

namespace Lib
open Function

section
variable {α β : Type} [DecidableEq α] {p : β → Bool} {f : α → β} {l : List α} {i : α} {v : β}

theorem length_filter_update (nodup : l.Nodup) (mem : i ∈ l) :
    (l.filter fun j => p (update f i v j)).length + (p (f i)).toNat = (l.filter fun j => p (f j)).length + (p v).toNat := by
  have elsewhere : ∀ {k : List α}, i ∉ k → (k.filter fun j => p (update f i v j)) = k.filter fun j => p (f j) := fun {k} out =>
    List.filter_congr fun j there => by
      have ne : j ≠ i := fun same => out (same ▸ there)
      rw [update_of_ne ne]
  obtain ⟨front, back, rfl⟩ := List.append_of_mem mem
  obtain ⟨-, tail, apart⟩ := List.nodup_append.mp nodup
  have notFront : i ∉ front := fun there => apart i there i (List.mem_cons_self ..) rfl
  have notBack : i ∉ back := (List.nodup_cons.mp tail).1
  rw [List.filter_append, List.filter_append, elsewhere notFront, List.filter_cons, List.filter_cons, elsewhere notBack, update_self]
  cases p v <;> cases p (f i) <;>
    simp only [List.length_append, List.length_cons, Bool.toNat_true, Bool.toNat_false, if_true, if_false, Bool.false_eq_true] <;> omega

theorem exists_not_of_lt {n m k : Nat} {P : Nat → Prop} {owner : Nat → Nat → Prop} (lt : k + m < n)
    (owned : ∀ i, k ≤ i → P i → ∃ j < m, owner j i) (own : ∀ i i' j, owner j i → owner j i' → i = i') : ∃ i < n, ¬P i := by
  by_contra all
  push Not at all
  have each : ∀ i : Nat, ∃ j, i < m + 1 → j < m ∧ owner j (k + i) := fun i => by
    by_cases inside : i < m + 1
    · obtain ⟨j, lt', is⟩ := owned (k + i) (Nat.le_add_right ..) (all _ (by omega))
      exact ⟨j, fun _ => ⟨lt', is⟩⟩
    · exact ⟨0, fun inside' => absurd inside' inside⟩
  choose f spec using each
  have nodup : ((List.range (m + 1)).map f).Nodup := by
    refine List.Nodup.map_on (fun i mem i' mem' same => ?_) List.nodup_range
    have is := (spec i (List.mem_range.mp mem)).2
    rw [same] at is
    exact Nat.add_left_cancel (own _ _ _ is (spec i' (List.mem_range.mp mem')).2)
  have within : (List.range (m + 1)).map f ⊆ List.range m := fun j mem => by
    obtain ⟨i, here, rfl⟩ := List.mem_map.mp mem
    exact List.mem_range.mpr (spec i (List.mem_range.mp here)).1
  have le := (List.subperm_of_subset nodup within).length_le
  rw [List.length_map, List.length_range, List.length_range] at le
  omega

end
end Lib
