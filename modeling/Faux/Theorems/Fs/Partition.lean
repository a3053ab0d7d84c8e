import Faux.Fs.Partition
import Mathlib.Tactic.Linarith

/-! Servers hand out blocks of their own partition only. The free list may end with a block that reaches into the next
    partition; the count of free blocks does not include it, and blocks are taken from and put back to the front. -/

namespace Faux
open Function Lib

theorem regionBlocks_split {size stop : Nat} (pos : 0 < size) : ∀ fuel offset, stop - offset ≤ fuel →
    ∃ whole rest, regionBlocks size stop fuel offset = whole ++ rest ∧ whole.length = (stop - offset) / size ∧
      ∀ b ∈ whole, offset ≤ b ∧ b + size ≤ stop := by
  intro fuel
  induction fuel with
  | zero =>
    intro offset enough
    refine ⟨[], [], rfl, ?_, fun _ mem => absurd mem List.not_mem_nil⟩
    rw [Nat.le_zero.mp enough, Nat.zero_div, List.length_nil]
  | succ fuel ih =>
    intro offset enough
    by_cases fits : offset + size ≤ stop
    · obtain ⟨whole, rest, split, length, inside⟩ := ih (offset + size) (by omega)
      refine ⟨offset :: whole, rest, ?_, ?_, ?_⟩
      · rw [regionBlocks, if_pos (by omega), split, List.cons_append]
      · have next : stop - offset = stop - (offset + size) + size := by omega
        rw [List.length_cons, length, next, Nat.add_div_right _ pos]
      · intro b mem
        rcases List.mem_cons.mp mem with rfl | mem
        · exact ⟨Nat.le_refl _, fits⟩
        · exact ⟨Nat.le_of_add_right_le (inside b mem).1, (inside b mem).2⟩
    · -- the last block does not fit
      refine ⟨[], _, rfl, ?_, fun _ mem => absurd mem List.not_mem_nil⟩
      rw [Nat.div_eq_of_lt (by omega), List.length_nil]

namespace CacheLayout
variable (l : CacheLayout)

theorem partition_length (i : Nat) : (i + 1) * l.partitionSize - i * l.partitionSize = l.partitionSize := by
  rw [Nat.add_mul, Nat.one_mul, Nat.add_sub_cancel_left]

/-- The two roundings agree: the count of free blocks is the number of whole blocks in a partition. -/
theorem free_eq : l.memorySize / (l.blockSize * l.serverCount) = l.partitionSize / l.blockSize := by
  rw [partitionSize, Nat.div_div_eq_div_mul, Nat.mul_comm]

variable {l}

theorem Inside.apart {i j a b : Nat} (ina : l.Inside i a) (inb : l.Inside j b) (lt : i < j) : a + l.blockSize ≤ b :=
  ina.2.trans ((Nat.mul_le_mul_right _ lt).trans inb.1)

end CacheLayout

namespace BufferCache
variable {l : CacheLayout} {memory i : Nat} {b c : BufferCache}

/-- As many blocks as the cache counts are entirely in partition `i`, and they come first. -/
def Whole (l : CacheLayout) (memory i : Nat) (b : BufferCache) : Prop :=
  ∃ whole rest, b.blocks = whole ++ rest ∧ whole.length = b.blocksFree ∧ ∀ a ∈ whole, ∃ offset, a = memory + offset ∧ l.Inside i offset

theorem whole_create : (create l memory i).Whole l memory i := by
  obtain ⟨whole, rest, split, length, inside⟩ := regionBlocks_split l.blockSize_pos
    ((i + 1) * l.partitionSize - i * l.partitionSize) (i * l.partitionSize) (Nat.le_refl _)
  refine ⟨whole.map (memory + ·), rest.map (memory + ·), ?_, ?_, ?_⟩
  · rw [create, split, List.map_append]
  · rw [List.length_map, length, l.partition_length, create, l.free_eq]
  · intro a mem
    obtain ⟨offset, isWhole, rfl⟩ := List.mem_map.mp mem
    exact ⟨offset, rfl, inside offset isWhole⟩

theorem Whole.get (whole : b.Whole l memory i) (nr : Nat) :
    ∃ c blocks, b.get nr = .ok (c, blocks) ∧ c.Whole l memory i ∧ ∀ a ∈ blocks, ∃ offset, a = memory + offset ∧ l.Inside i offset := by
  obtain ⟨first, rest, split, length, inside⟩ := whole
  unfold BufferCache.get
  split_ifs with few short
  · exact ⟨b, [], rfl, ⟨first, rest, split, length, inside⟩, fun _ mem => absurd mem List.not_mem_nil⟩
  · rw [split, List.length_append] at short
    omega
  · have le : nr ≤ first.length := by omega
    refine ⟨_, _, rfl, ⟨first.drop nr, rest, ?_, ?_, fun a mem => inside a (List.mem_of_mem_drop mem)⟩, fun a mem => inside a ?_⟩
    · grind
    · rw [List.length_drop, length]
    · grind

theorem Whole.put {blocks : List Nat} (whole : b.Whole l memory i) (own : ∀ a ∈ blocks, ∃ offset, a = memory + offset ∧ l.Inside i offset) :
    (b.put blocks).Whole l memory i := by
  obtain ⟨first, rest, split, length, inside⟩ := whole
  refine ⟨blocks ++ first, rest, ?_, ?_, fun a mem => ?_⟩
  · rw [BufferCache.put, split, List.append_assoc]
  · rw [BufferCache.put, List.length_append, length, Nat.add_comm]
  · exact (List.mem_append.mp mem).elim (own a) (inside a)

end BufferCache

namespace Pool
variable {l : CacheLayout} {memory : Nat → Nat} {s t : Pool}

structure Inv (l : CacheLayout) (memory : Nat → Nat) (s : Pool) (i : Nat) : Prop where
  cache : (s.caches i).Whole l (memory i) i
  given : ∀ a ∈ s.given i, ∃ offset, a = memory i + offset ∧ l.Inside i offset

theorem inv_create (i : Nat) : Inv l memory (create l memory) i where
  cache := BufferCache.whole_create
  given _ mem := absurd mem List.not_mem_nil

theorem Inv.other {i : Nat} (inv : Inv l memory s i) (caches : t.caches i = s.caches i) (given : t.given i = s.given i) : Inv l memory t i where
  cache := caches ▸ inv.cache
  given := given ▸ inv.given

theorem inv_step {o : PoolOp} {i : Nat} (inv : Inv l memory s i) (guard : Guard l s o) (stepped : s.step o = some t) : Inv l memory t i := by
  cases o with
  | get j nr =>
    by_cases same : i = j
    · subst same
      obtain ⟨c, blocks, got, cache, own⟩ := inv.cache.get nr
      simp only [step, got, Option.some.injEq] at stepped
      subst stepped
      refine ⟨by simpa only [update_self] using cache, fun a mem => ?_⟩
      simp only [update_self, List.mem_append] at mem
      exact mem.elim (inv.given a) (own a)
    · simp only [step] at stepped
      split at stepped
      · cases stepped
        exact inv.other (update_of_ne same _ _) (update_of_ne same _ _)
      · cases stepped
  | put j blocks =>
    cases stepped
    by_cases same : i = j
    · subst same
      refine ⟨?_, inv.given⟩
      simpa using inv.cache.put fun a mem => inv.given a (guard.2 a mem)
    · exact inv.other (update_of_ne same _ _) rfl

/-- Every block that a server has handed out lies in its own partition, blocks of two servers do not overlap, and `get` never
    runs past the end of the free list. -/
theorem partitions_disjoint (l : CacheLayout) (memory : Nat → Nat) {s : Pool} (reach : Reach (· = create l memory) (Guard l) step s) :
    (∀ i < l.serverCount, ∀ a ∈ s.given i, ∃ offset, a = memory i + offset ∧ l.Inside i offset) ∧
    (∀ i < l.serverCount, ∀ j < l.serverCount, i ≠ j → ∀ a b, memory i + a ∈ s.given i → memory j + b ∈ s.given j →
      a + l.blockSize ≤ b ∨ b + l.blockSize ≤ a) ∧
    ∀ i < l.serverCount, ∀ nr, ∃ c blocks, (s.caches i).get nr = .ok (c, blocks) := by
  have first : ∀ s, s = create l memory → ∀ i, Inv l memory s i := by
    rintro _ rfl i
    exact inv_create i
  have next : ∀ s t o, (∀ i, Inv l memory s i) → Guard l s o → s.step o = some t → ∀ i, Inv l memory t i :=
    fun s t o inv guard stepped i => inv_step (inv i) guard stepped
  have inv := reach.invariant first next
  have inside : ∀ i a, memory i + a ∈ s.given i → l.Inside i a := by
    intro i a mem
    obtain ⟨offset, same, inside⟩ := (inv i).given _ mem
    rw [Nat.add_left_cancel same]
    exact inside
  refine ⟨fun i _ => (inv i).given, fun i _ j _ different a b ina inb => ?_, fun i _ nr => ?_⟩
  · rcases Nat.lt_or_gt_of_ne different with lt | lt
    · exact .inl ((inside i a ina).apart (inside j b inb) lt)
    · exact .inr ((inside j b inb).apart (inside i a ina) lt)
  · obtain ⟨c, blocks, got, -⟩ := (inv i).cache.get nr
    exact ⟨c, blocks, got⟩

/-- Two servers with 25 bytes each, in blocks of 10 bytes. The third block of server 0 would reach into the partition of server 1. -/
def layoutOfTwo : CacheLayout where
  memorySize := 50
  blockSize := 10
  serverCount := 2
  memorySize_lt := by decide
  blockSize_pos := by decide
  blockSize_lt := by decide
  serverCount_pos := by decide
  serverCount_lt := by decide

def runOfTwo : List PoolOp := [.get 0 2, .get 0 1, .put 0 [10], .get 1 1, .get 0 1]

theorem partitions_disjoint_two : ∃ s, Reach (· = create layoutOfTwo (1000 * ·)) (Guard layoutOfTwo) step s ∧
    s.given 0 = [0, 10, 10] ∧ s.given 1 = [1025] ∧
    ∀ a b, 1000 * 0 + a ∈ s.given 0 → 1000 * 1 + b ∈ s.given 1 → a + 10 ≤ b ∨ b + 10 ≤ a := by
  have guarded : Guarded (Guard layoutOfTwo) step (create layoutOfTwo (1000 * ·)) runOfTwo :=
    guarded_of_check (fun _ _ => of_decide_eq_true) _ (by decide)
  have start : Reach (· = create layoutOfTwo (1000 * ·)) (Guard layoutOfTwo) step (create layoutOfTwo (1000 * ·)) := .init rfl
  have reach := start.of_guarded guarded rfl
  exact ⟨_, reach, rfl, rfl, (partitions_disjoint layoutOfTwo (1000 * ·) reach).2.1 0 (by decide) 1 (by decide) (by decide)⟩

end Pool
end Faux
