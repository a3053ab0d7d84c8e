import Mathlib.Data.List.AList

/-! # Finite maps

What is found in an association list after an insertion or a deletion, for keys with values of one type. -/

namespace Lib

section
variable {κ ν : Type} [DecidableEq κ] {s : AList fun _ : κ => ν} {k k' : κ} {v w : ν}

theorem mem_iff_lookup : k ∈ s ↔ ∃ v, s.lookup k = some v :=
  AList.lookup_isSome.symm.trans Option.isSome_iff_exists

theorem mem_of_lookup (found : s.lookup k = some v) : k ∈ s := mem_iff_lookup.mpr ⟨v, found⟩

theorem lookup_insert_some :
    (s.insert k v).lookup k' = some w ↔ k' = k ∧ v = w ∨ k' ≠ k ∧ s.lookup k' = some w := by
  by_cases same : k' = k
  · subst same
    simp [AList.lookup_insert]
  · simp [AList.lookup_insert_ne same, same]

theorem lookup_erase_some : (s.erase k).lookup k' = some w ↔ k' ≠ k ∧ s.lookup k' = some w := by
  by_cases same : k' = k
  · subst same
    simp [AList.lookup_erase]
  · simp [AList.lookup_erase_ne same, same]

theorem entries_perm_cons_erase (found : s.lookup k = some v) : s.entries.Perm (⟨k, v⟩ :: (s.erase k).entries) := by
  have present : k ∈ s.entries.keys := AList.mem_keys.mp (mem_of_lookup found)
  obtain ⟨w, front, back, absent, split, erased⟩ := List.exists_of_kerase present
  have same : w = v := by
    have : s.lookup k = some w := by
      rw [AList.lookup, split, List.dlookup_append]
      simp [List.dlookup_eq_none.mpr absent]
    exact Option.some.inj (this.symm.trans found)
  subst same
  show s.entries.Perm (⟨k, w⟩ :: s.entries.kerase k)
  rw [erased, split]
  exact List.perm_middle

theorem entries_insert_eq : (s.insert k v).entries = ⟨k, v⟩ :: (s.erase k).entries := rfl

end
end Lib
