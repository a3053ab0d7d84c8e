import Faux.Theorems.Channel.Header

/-! Garbage collection. The loop of `_channel_gc` walks the chunks from the oldest on and stops at the first one whose ready flag is set, or
    at the head. -/

namespace Faux
open Lib

variable {m : Memory} {T H freeing freed : Nat} {cs : List Chunk}

def Walkable (m : Memory) (c : Chunk) : Prop :=
  msgAlloced m c.off = c.len ∧ (msgSize m c.off = sentinelSize → c.off + c.len = sharedSize)

def Chunk.Busy (m : Memory) (c : Chunk) : Prop := m (c.off + 4) = 1

/-- The count of free bytes that the loop keeps: exact, or too small to end the loop when the walk stays
    in the lap of the head. -/
def Counts (T H freed : Nat) : Prop :=
  freed + (H - T) = sharedSize ∨
    (H % sharedSize ≠ 0 ∧ H - T ≤ H % sharedSize ∧ (freed % cachelineSize ≠ 0 ∨ freed + (H - T) < sharedSize))

def tailOf (T : Nat) : Nat := (T + sharedSize - 1) % sharedSize

structure Walked (m : Memory) (H T tail : Nat) (cs : List Chunk) (t : Nat) (pre post : List Chunk) (M : Nat) : Prop where
  eq : cs = pre ++ post
  reclaimed : Layout M T pre
  rest : Layout H M post
  done : ∀ c ∈ pre, ¬c.Busy m
  stop : ∀ c, post.head? = some c → c.Busy m
  last : t = if pre = [] then tail else tailOf M

theorem gcLoop_spec (tail fuel : Nat) (h : Layout H T cs) (hw : H ≤ T + sharedSize) (hcs : ∀ c ∈ cs, Walkable m c)
    (hfr : freeing = T % sharedSize ∨ (sharedSize ≤ freeing ∧ T % sharedSize = 0))
    (hstop : (freeing = H % sharedSize ∨ freed = sharedSize) ↔ T = H) (hc : Counts T H freed)
    (hfuel : cs.length < fuel) :
    ∃ t pre post M, gcLoop m (H % sharedSize) fuel tail freeing freed = some t ∧ Walked m H T tail cs t pre post M := by
  induction cs generalizing T tail freeing freed fuel with
  | nil =>
    obtain ⟨fuel, rfl⟩ : ∃ n, fuel = n + 1 := ⟨fuel - 1, by simp at hfuel; omega⟩
    have hTH : T = H := h
    refine ⟨tail, [], [], T, ?_, ⟨rfl, rfl, hTH, by simp, by simp, by simp⟩⟩
    simp [gcLoop, hstop.mpr hTH]
  | cons c cs ih =>
    obtain ⟨fuel, rfl⟩ : ∃ n, fuel = n + 1 := ⟨fuel - 1, by simp at hfuel; omega⟩
    obtain ⟨hpos, hfits, hrest⟩ := h
    have hlen := hfits.line
    have hlines := hfits.lines
    have hbound := hfits.bound
    have hle := hrest.le
    obtain ⟨halloced, hsent⟩ := hcs c (List.mem_cons_self)
    have hoff : c.off = T % sharedSize := by rw [Chunk.off, hpos]
    have hgo : ¬(freeing = H % sharedSize ∨ freed = sharedSize) := by
      rw [hstop]
      simp only [cachelineSize] at hlen
      omega
    have hnorm : (if freeing ≥ sharedSize then 0 else freeing) = c.off := by grind [sharedSize]
    simp only [gcLoop, hgo, if_false, hnorm]
    by_cases hb : m (c.off + 4) = 1
    · refine ⟨tail, [], c :: cs, T, ?_, ⟨rfl, rfl, ⟨hpos, hfits, hrest⟩, by simp, ?_, by simp⟩⟩
      · simp [msgReady_true.mpr hb]
      · intro d hd
        cases hd
        exact hb
    · have hready : msgReady m c.off true = false := by
        rw [← Bool.not_eq_true, msgReady_true]
        exact hb
      -- Both kinds of chunk move the tail to the last byte of the chunk.
      have hnew : (if msgSize m c.off ≠ sentinelSize then sizeSub (c.off + c.len) 1 else sharedSize - 1) =
          c.off + c.len - 1 := by
        by_cases hs : msgSize m c.off = sentinelSize
        · grind
        · grind [sizeSub, sizeMod, sharedSize, cachelineSize]
      simp only [hready, Bool.false_eq_true, if_false, halloced, hnew]
      have hsum : c.off + c.len - 1 + 1 = c.off + c.len := by
        simp only [cachelineSize] at hlen
        omega
      rw [hsum]
      have hfr' : c.off + c.len = (T + c.len) % sharedSize ∨
          (sharedSize ≤ c.off + c.len ∧ (T + c.len) % sharedSize = 0) := by
        rw [hoff]
        simp only [Chunk.off, hpos, sharedSize] at hbound ⊢
        omega
      have hc' : Counts (T + c.len) H (freed + c.len) := by grind [Counts, sharedSize, cachelineSize]
      have hstop' : (c.off + c.len = H % sharedSize ∨ freed + c.len = sharedSize) ↔ T + c.len = H := by
        grind [Counts, Chunk.off, sharedSize, cachelineSize]
      obtain ⟨t, pre, post, M, hrun, heq, hpre, hpost, hdone, hbusy, htail⟩ :=
        ih (c.off + c.len - 1) fuel hrest (by omega)
          (fun d hd => hcs d (List.mem_cons_of_mem _ hd)) hfr' hstop' hc' (by simp at hfuel; omega)
      refine ⟨t, c :: pre, post, M, hrun, ⟨by rw [heq]; rfl, ⟨hpos, hfits, hpre⟩, hpost, ?_, hbusy, ?_⟩⟩
      · intro d hd
        rcases List.mem_cons.mp hd with rfl | hd
        · exact hb
        · exact hdone d hd
      · simp only [reduceCtorEq, if_false]
        by_cases hnil : pre = []
        · subst hnil
          simp only [if_true] at htail
          have hM : T + c.len = M := hpre
          rw [htail, ← hM, hoff, tailOf]
          simp only [Chunk.off, hpos, sharedSize, cachelineSize] at hbound hlen ⊢
          omega
        · rw [htail, if_neg hnil]

end Faux
