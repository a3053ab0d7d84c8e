import Mathlib.Data.List.Count
import Mathlib.Data.List.Perm.Subperm
import Mathlib.Data.List.Nodup

/-! # Things in places

Things that are moved between places, each a list: every thing is in one place, once. A step that moves things keeps this if
each thing it moves is in one place afterwards. -/

namespace Lib

section
variable {ι α : Type}

/-- A thing goes from one place to another. -/
structure Moved (f g : ι → List α) (x : α) (a b : ι) : Prop where
  ne : a ≠ b
  source : (f a).Perm (x :: g a)
  target : (g b).Perm (x :: f b)
  others : ∀ c, c ≠ a → c ≠ b → g c = f c

namespace Moved
variable {f g : ι → List α} {x y : α} {a b c : ι}

theorem mem_source (m : Moved f g x a b) : x ∈ f a := m.source.mem_iff.mpr (List.mem_cons_self ..)

theorem mem_back (m : Moved f g x a b) (mem : y ∈ g c) : y ∈ f c ∨ y = x ∧ c = b := by
  by_cases isSource : c = a
  · exact .inl (isSource ▸ m.source.mem_iff.mpr (List.mem_cons_of_mem _ (isSource ▸ mem)))
  · by_cases isTarget : c = b
    · subst isTarget
      rcases List.mem_cons.mp (m.target.mem_iff.mp mem) with same | there
      · exact .inr ⟨same, rfl⟩
      · exact .inl there
    · exact .inl (m.others c isSource isTarget ▸ mem)

end Moved
end

section
variable {ι α : Type} [DecidableEq α]

/-- A thing is in a place once, and in no other. -/
def InOnePlace (f : ι → List α) (x : α) (a : ι) : Prop := (f a).count x = 1 ∧ ∀ b, b ≠ a → x ∉ f b

/-- Every one of the things is in one place, and nothing else is in any. -/
def Placed (f : ι → List α) (things : α → Prop) : Prop := ∀ x, (things x → ∃ a, InOnePlace f x a) ∧ (¬things x → ∀ a, x ∉ f a)

variable {f g : ι → List α} {things : α → Prop} {x : α} {a b : ι}

namespace Placed

theorem thing (placed : Placed f things) (mem : x ∈ f a) : things x :=
  Classical.byContradiction fun no => (placed x).2 no a mem

theorem somewhere (placed : Placed f things) (isThing : things x) : ∃ a, x ∈ f a := by
  obtain ⟨a, once, -⟩ := (placed x).1 isThing
  exact ⟨a, List.count_pos_iff.mp (by rw [once]; exact Nat.one_pos)⟩

theorem only (placed : Placed f things) (mem : x ∈ f a) : InOnePlace f x a := by
  obtain ⟨b, once, others⟩ := (placed x).1 (placed.thing mem)
  by_cases same : a = b
  · exact same ▸ ⟨once, others⟩
  · exact absurd mem (others a same)

theorem moves (placed : Placed f things) (each : ∀ x, (∀ a, (g a).count x = (f a).count x) ∨ things x ∧ ∃ b, InOnePlace g x b) : Placed g things := by
  intro x
  rcases each x with stays | ⟨isThing, moved⟩
  · have same : ∀ a, x ∈ g a ↔ x ∈ f a := fun a => by rw [← List.count_pos_iff, ← List.count_pos_iff, stays a]
    refine ⟨fun isThing => ?_, fun no a mem => (placed x).2 no a ((same a).mp mem)⟩
    obtain ⟨a, once, others⟩ := (placed x).1 isThing
    exact ⟨a, (stays a).trans once, fun b other mem => others b other ((same b).mp mem)⟩
  · exact ⟨fun _ => moved, fun no => absurd isThing no⟩

theorem nodup (placed : Placed f things) : (f a).Nodup :=
  List.nodup_iff_count_le_one.mpr fun x => by
    by_cases mem : x ∈ f a
    · exact Nat.le_of_eq (placed.only mem).1
    · rw [List.count_eq_zero.mpr mem]
      exact Nat.zero_le _

theorem length_lt {f : ι → List Nat} {n x : Nat} (placed : Placed f (· < n)) (mem : x ∈ f a) (ne : b ≠ a) : (f b).length < n := by
  have apart : x ∉ f b := (placed.only mem).2 b ne
  have nodup : (x :: f b).Nodup := List.nodup_cons.mpr ⟨apart, placed.nodup⟩
  have within : (x :: f b) ⊆ List.range n := fun y held => List.mem_range.mpr <| by
    rcases List.mem_cons.mp held with rfl | there
    · exact placed.thing mem
    · exact placed.thing there
  have le := (List.subperm_of_subset nodup within).length_le
  rwa [List.length_cons, List.length_range] at le

theorem of_all {f : ι → List Nat} {n : Nat} (all : f a = (List.range n).reverse) (none : ∀ b, b ≠ a → f b = []) : Placed f (· < n) := by
  refine fun x => ⟨fun lt => ⟨a, ?_, fun b other mem => ?_⟩, fun ge b mem => ?_⟩
  · grind
  · rw [none b other] at mem
    exact List.not_mem_nil mem
  · by_cases here : b = a
    · rw [here, all, List.mem_reverse, List.mem_range] at mem
      exact ge mem
    · rw [none b here] at mem
      exact List.not_mem_nil mem

end Placed

theorem Moved.placed (m : Moved f g x a b) (placed : Placed f things) : Placed g things := by
  have here := placed.only m.mem_source
  refine placed.moves fun y => ?_
  by_cases same : y = x
  · subst same
    refine .inr ⟨placed.thing m.mem_source, b, ?_, fun c other mem => ?_⟩
    · rw [m.target.count_eq, List.count_cons_self, List.count_eq_zero.mpr (here.2 b m.ne.symm)]
    · by_cases isSource : c = a
      · subst isSource
        have once := here.1
        rw [m.source.count_eq, List.count_cons_self] at once
        exact absurd (List.count_pos_iff.mpr mem) (by omega)
      · exact here.2 c isSource (m.others c isSource other ▸ mem)
  · refine .inl fun c => ?_
    by_cases isSource : c = a
    · rw [isSource, m.source.count_eq, List.count_cons_of_ne (Ne.symm same)]
    · by_cases isTarget : c = b
      · rw [isTarget, m.target.count_eq, List.count_cons_of_ne (Ne.symm same)]
      · rw [m.others c isSource isTarget]

theorem Placed.move (placed : Placed f things) (x : α) (a b : ι) (ne : a ≠ b) (source : (f a).Perm (x :: g a)) (target : (g b).Perm (x :: f b))
    (others : ∀ c, c = a ∨ c = b ∨ g c = f c) : Placed g things :=
  Moved.placed ⟨ne, source, target, fun c isSource isTarget => ((others c).resolve_left isSource).resolve_left isTarget⟩ placed

end
end Lib
