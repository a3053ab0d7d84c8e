import Faux.Fs.Store
import Faux.Lib.Except

/-! The loops of `File::read` and `File::write` over blocks that are apart, and what growing and shrinking do to
    the bytes of a file. -/

namespace Faux
open Lib

section
variable {blocks more : List Nat} {m : Memory} {i j b offset : Nat}

theorem blockSize_pos : 0 < blockSize := by decide

theorem Apart.symm {a b : Nat} (apart : Apart a b) : Apart b a := Or.symm apart

theorem blocksNr_eq (size : Nat) : blocksNr size = (size + 4095) / 4096 := by
  by_cases whole : size % blockSize = 0
  · simp only [blocksNr, whole, ne_eq, not_true_eq_false, if_false]
    simp only [blockSize] at whole ⊢
    omega
  · simp only [blocksNr, whole, ne_eq, not_false_eq_true, if_true]
    simp only [blockSize] at whole ⊢
    omega

theorem le_blocksNr (size : Nat) : size ≤ blocksNr size * blockSize := by
  simp only [blocksNr_eq, blockSize]
  omega

theorem blocksNr_mono {a b : Nat} (le : a ≤ b) : blocksNr a ≤ blocksNr b := by
  simp only [blocksNr_eq]
  omega

theorem blocksNr_lt {size : Nat} (lt : size < sizeMod) : blocksNr size < sizeMod := by
  simp only [blocksNr_eq, sizeMod] at lt ⊢
  omega

theorem div_lt_blocksNr {i size : Nat} (lt : i < size) : i / blockSize < blocksNr size := by
  simp only [blocksNr_eq, blockSize]
  omega

theorem div_lt_length (lt : i < blocks.length * blockSize) : i / blockSize < blocks.length :=
  Nat.div_lt_of_lt_mul (Nat.mul_comm .. ▸ lt)

theorem addr_eq (found : blocks[i / blockSize]? = some b) : addr blocks i = b + i % blockSize := by
  simp [addr, found]

theorem exists_block (blocks : List Nat) (i : Nat) (lt : i < blocks.length * blockSize) : ∃ b ∈ blocks, blocks[i / blockSize]? = some b :=
  ⟨blocks.get ⟨i / blockSize, div_lt_length lt⟩, List.get_mem .., List.getElem?_eq_getElem (div_lt_length lt)⟩

theorem addr_append (lt : i < blocks.length * blockSize) : addr (blocks ++ more) i = addr blocks i := by
  simp only [addr, List.getElem?_append_left (div_lt_length lt)]

theorem addr_take {n : Nat} (lt : i / blockSize < n) : addr (blocks.take n) i = addr blocks i := by
  simp only [addr, List.getElem?_take_of_lt lt]

theorem addr_inj (apart : blocks.Pairwise Apart) (ltI : i < blocks.length * blockSize) (ltJ : j < blocks.length * blockSize)
    (same : addr blocks i = addr blocks j) : i = j := by
  have boundI := div_lt_length ltI
  have boundJ := div_lt_length ltJ
  rw [addr_eq (List.getElem?_eq_getElem boundI), addr_eq (List.getElem?_eq_getElem boundJ)] at same
  have modI := Nat.mod_lt i blockSize_pos
  have modJ := Nat.mod_lt j blockSize_pos
  have block : i / blockSize = j / blockSize := by
    by_contra differ
    rcases Nat.lt_or_gt_of_ne differ with lt | gt
    · have := List.pairwise_iff_getElem.mp apart _ _ boundI boundJ lt
      simp only [Apart] at this
      omega
    · have := List.pairwise_iff_getElem.mp apart _ _ boundJ boundI gt
      simp only [Apart] at this
      omega
  simp only [block] at same
  calc i = blockSize * (i / blockSize) + i % blockSize := (Nat.div_add_mod ..).symm
    _ = blockSize * (j / blockSize) + j % blockSize := by rw [block]; omega
    _ = j := Nat.div_add_mod ..

theorem addr_add {n : Nat} (found : blocks[offset / blockSize]? = some b) (lt : n < blockSize - offset % blockSize) :
    addr blocks (offset + n) = b + offset % blockSize + n := by
  have mod := Nat.mod_lt offset blockSize_pos
  have div : (offset + n) / blockSize = offset / blockSize := by
    simp only [blockSize] at lt mod ⊢
    omega
  have rest : (offset + n) % blockSize = offset % blockSize + n := by
    simp only [blockSize] at lt mod ⊢
    omega
  rw [addr_eq (div ▸ found), rest]
  omega

end

namespace File

/-! ### The loops -/

theorem readLoop_eq {m : Memory} {blocks : List Nat} : ∀ {fuel offset count : Nat}, count ≤ fuel →
    offset + count ≤ blocks.length * blockSize →
      readLoop m blocks fuel offset count = .ok ((List.range count).map fun i => m (addr blocks (offset + i))) := by
  intro fuel
  induction fuel with
  | zero =>
    intro offset count le _
    obtain rfl := Nat.le_zero.mp le
    rfl
  | succ fuel ih =>
    intro offset count le inside
    rw [readLoop]
    by_cases none : count = 0
    · subst none
      rfl
    · rw [if_neg none]
      obtain ⟨b, -, found⟩ := exists_block blocks offset (by omega)
      have mod := Nat.mod_lt offset blockSize_pos
      have pos : 0 < min (blockSize - offset % blockSize) count := by omega
      simp only [found]
      rw [ih (by omega) (by omega), ok_bind]
      congr 1
      -- the bytes of this block, then the rest
      have split : count = min (blockSize - offset % blockSize) count + (count - min (blockSize - offset % blockSize) count) := by
        omega
      conv_rhs => rw [split, List.range_add, List.map_append, List.map_map]
      congr 1
      · refine List.map_congr_left fun i mem => ?_
        rw [addr_add found (by have := List.mem_range.mp mem; omega)]
      · refine List.map_congr_left fun i _ => ?_
        simp only [Function.comp, Nat.add_assoc]

theorem writeLoop_spec {blocks : List Nat} (apart : blocks.Pairwise Apart) :
    ∀ {fuel : Nat} (m : Memory) (offset : Nat) (buf : List UInt8), buf.length ≤ fuel → offset + buf.length ≤ blocks.length * blockSize → ∃ m', writeLoop blocks fuel m offset buf = .ok m' ∧
      (∀ i v, buf[i]? = some v → m' (addr blocks (offset + i)) = v) ∧
      ∀ x, (∀ i < buf.length, x ≠ addr blocks (offset + i)) → m' x = m x := by
  intro fuel
  induction fuel with
  | zero =>
    intro m offset buf le _
    obtain rfl := List.length_eq_zero_iff.mp (Nat.le_zero.mp le)
    exact ⟨m, rfl, fun i v found => absurd found (by simp), fun _ _ => rfl⟩
  | succ fuel ih =>
    intro m offset buf le inside
    rw [writeLoop]
    by_cases none : buf = []
    · subst none
      exact ⟨m, rfl, fun i v found => absurd found (by simp), fun _ _ => rfl⟩
    · have some : 0 < buf.length := List.length_pos_iff.mpr none
      obtain ⟨b, -, found⟩ := exists_block blocks offset (by omega)
      have mod := Nat.mod_lt offset blockSize_pos
      generalize isN : min (blockSize - offset % blockSize) buf.length = n
      have pos : 0 < n := by omega
      have length : (buf.take n).length = n := by simp only [List.length_take]; omega
      simp only [if_neg none, found]
      obtain ⟨m', done, stored, kept⟩ := ih (m.write (b + offset % blockSize) (buf.take n)) (offset + n) (buf.drop n)
        (by simp only [List.length_drop]; omega) (by simp only [List.length_drop]; omega)
      refine ⟨m', done, fun i v isV => ?_, fun x other => ?_⟩
      · have lt : i < buf.length := (List.getElem?_eq_some_iff.mp isV).1
        by_cases here : i < n
        · -- the rest of the loop leaves this block alone
          rw [kept, addr_add found (by omega), Memory.write, if_pos (by omega)]
          · grind
          · intro j ltJ same
            simp only [List.length_drop] at ltJ
            have := addr_inj apart (by omega) (by omega) same
            omega
        · have := stored (i - n) v (by rw [List.getElem?_drop]; convert isV using 2; omega)
          convert this using 3
          omega
      · rw [kept x fun i lt => ?_]
        · by_cases low : x < b + offset % blockSize
          · exact Memory.write_of_lt low
          · by_cases high : b + offset % blockSize + n ≤ x
            · exact Memory.write_of_ge (by rwa [length])
            · have := other (x - (b + offset % blockSize)) (by omega)
              rw [addr_add found (by omega)] at this
              omega
        · simp only [List.length_drop] at lt
          have := other (n + i) (by omega)
          rwa [← Nat.add_assoc] at this

/-! ### Growing and shrinking -/

section
variable {f g : File} {bc bc' : BufferCache} {m m' : Memory} {size newSize offset : Nat} {buf : List UInt8}

theorem contents_getElem? {i : Nat} :
    (f.contents m)[i]? = if i < f.size then some (m (addr f.memoryBlocks i)) else none := by
  by_cases lt : i < f.size
  · simp [contents, lt]
  · grind [contents]

@[simp] theorem length_contents : (f.contents m).length = f.size := by simp [contents]

theorem grow_spec (solid : f.Solid bc) (fits : f.Fits bc newSize) (le : f.size ≤ newSize) :
    ∃ bc', f.grow bc newSize = .ok ({ f with memoryBlocks := f.grown bc newSize }, bc', .ok) ∧
      bc'.blocksFree = bc'.blocks.length ∧ f.grown bc newSize ++ bc'.blocks = f.memoryBlocks ++ bc.blocks ∧
      (f.grown bc newSize).length = blocksNr newSize := by
  obtain ⟨below, enough⟩ := fits
  have mono := blocksNr_mono le
  rw [← solid.blocks] at mono
  have lt := blocksNr_lt below
  have diff : sizeSub (blocksNr newSize) f.memoryBlocks.length = blocksNr newSize - f.memoryBlocks.length := by
    simp only [sizeSub, sizeMod] at lt ⊢
    omega
  have length : (f.grown bc newSize).length = blocksNr newSize := by
    simp only [grown, List.length_append, List.length_take]
    omega
  simp only [grow, diff]
  by_cases zero : blocksNr newSize - f.memoryBlocks.length = 0
  · refine ⟨bc, ?_, solid.free, ?_, length⟩
    · simp [zero, grown]
    · simp [zero, grown]
  · have taken : (bc.blocks.take (blocksNr newSize - f.memoryBlocks.length)).length = blocksNr newSize - f.memoryBlocks.length := by
      simp only [List.length_take]
      omega
    refine ⟨{ bc with blocks := bc.blocks.drop (blocksNr newSize - f.memoryBlocks.length)
                      blocksFree := bc.blocksFree - (blocksNr newSize - f.memoryBlocks.length) }, ?_, ?_, ?_, length⟩
    · have free : ¬bc.blocksFree < blocksNr newSize - f.memoryBlocks.length := by
        rw [solid.free]
        omega
      have there : ¬bc.blocks.length < blocksNr newSize - f.memoryBlocks.length := by omega
      simp only [if_neg zero, BufferCache.get, if_neg free, if_neg there, ok_bind, taken]
      simp [grown]
    · simp [solid.free]
    · simp [grown]

theorem contents_grown (solid : f.Solid bc) (zero : f.GapZero bc m newSize newSize) :
    ({ f with memoryBlocks := f.grown bc newSize, size := newSize } : File).contents m = Bytes.resize (f.contents m) newSize := by
  refine List.ext_getElem? fun i => ?_
  rw [contents_getElem?, Bytes.getElem?_resize, contents_getElem?]
  by_cases lt : i < newSize
  · rw [if_pos lt, if_pos lt]
    by_cases old : i < f.size
    · have : addr (f.grown bc newSize) i = addr f.memoryBlocks i :=
        addr_append (by rw [solid.blocks]; exact Nat.lt_of_lt_of_le old (le_blocksNr _))
      simp [old, this]
    · simp [old, zero i (Nat.not_lt.mp old) lt]
  · rw [if_neg lt, if_neg lt]

theorem shrink_spec (fewer : blocksNr newSize ≤ f.memoryBlocks.length) : ∃ g, f.shrink newSize = .ok g ∧
    (∀ i, i / blockSize < blocksNr newSize → addr g.memoryBlocks i = addr f.memoryBlocks i) ∧
      g.memoryBlocks.length = blocksNr newSize ∧ g.all.Perm f.all := by
  simp only [shrink]
  by_cases same : f.memoryBlocks.length = blocksNr newSize
  · exact ⟨f, by simp [same], fun _ _ => rfl, same, .refl _⟩
  · refine ⟨_, by rw [if_neg same, if_neg (Nat.not_lt.mpr fewer)], fun i lt => addr_take lt, ?_, ?_⟩
    · simp only [List.length_take]
      omega
    · have moved : (f.memoryBlocks.take (blocksNr newSize) ++ (f.orphanBlocks ++ f.memoryBlocks.drop (blocksNr newSize))).Perm
          (f.memoryBlocks.take (blocksNr newSize) ++ (f.memoryBlocks.drop (blocksNr newSize) ++ f.orphanBlocks)) :=
        List.perm_append_comm.append_left _
      rwa [← List.append_assoc _ _ f.orphanBlocks, List.take_append_drop] at moved

theorem truncate_spec (solid : f.Solid bc) (fits : f.Fits bc newSize) (zero : f.GapZero bc m newSize newSize) :
    ∃ g bc', f.truncate bc newSize = .ok (g, bc', .ok) ∧ g.contents m = Bytes.resize (f.contents m) newSize ∧
      g.memoryBlocks.length = blocksNr g.size ∧ bc'.blocksFree = bc'.blocks.length ∧
      (g.all ++ bc'.blocks).Perm (f.all ++ bc.blocks) := by
  simp only [truncate]
  by_cases grows : f.size < newSize
  · obtain ⟨bc', grown, free, same, length⟩ := grow_spec solid fits (Nat.le_of_lt grows)
    refine ⟨{ f with memoryBlocks := f.grown bc newSize, size := newSize }, bc', ?_,
      contents_grown solid zero, length, free, ?_⟩
    · simp [if_pos grows, grown, ok_bind]
    · have comm : ∀ a b c : List Nat, (a ++ b ++ c).Perm (a ++ c ++ b) := fun a b c => by
        simpa using List.Perm.append_left a List.perm_append_comm
      exact (comm ..).trans ((same ▸ List.Perm.refl _ : (f.grown bc newSize ++ bc'.blocks ++ f.orphanBlocks).Perm
        (f.memoryBlocks ++ bc.blocks ++ f.orphanBlocks)).trans (comm ..))
  · rw [if_neg grows]
    by_cases shrinks : f.size > newSize
    · have fewer : blocksNr newSize ≤ f.memoryBlocks.length := solid.blocks ▸ blocksNr_mono (Nat.le_of_lt shrinks)
      obtain ⟨g, shrunk, kept, length, same⟩ := shrink_spec fewer
      refine ⟨{ g with size := newSize }, bc, by simp [if_pos shrinks, shrunk, ok_bind], ?_, length, solid.free,
        same.append_right _⟩
      refine List.ext_getElem? fun i => ?_
      rw [contents_getElem?, Bytes.getElem?_resize, contents_getElem?]
      by_cases lt : i < newSize
      · simp [lt, Nat.lt_trans lt shrinks, kept i (div_lt_blocksNr lt)]
      · simp [lt]
    · have same : f.size = newSize := by omega
      subst same
      refine ⟨f, bc, by simp, ?_, solid.blocks, solid.free, .refl _⟩
      rw [Bytes.resize, length_contents, Nat.sub_self, List.replicate_zero, List.append_nil,
        List.take_of_length_le (Nat.le_of_eq length_contents)]

theorem growFor_spec (solid : f.Solid bc) (fits : f.Fits bc newSize) : ∃ g bc', f.growFor bc newSize = .ok (g, bc', .ok) ∧
    g.size = max f.size newSize ∧ g.memoryBlocks.length = blocksNr g.size ∧ bc'.blocksFree = bc'.blocks.length ∧
    g.memoryBlocks ++ bc'.blocks = f.memoryBlocks ++ bc.blocks ∧ g.orphanBlocks = f.orphanBlocks ∧
    ((f.size < newSize → g.memoryBlocks = f.grown bc newSize) ∧ (¬f.size < newSize → g.memoryBlocks = f.memoryBlocks)) := by
  simp only [growFor]
  by_cases grows : f.size < newSize
  · obtain ⟨bc', grown, free, same, length⟩ := grow_spec solid fits (Nat.le_of_lt grows)
    have size : max f.size newSize = newSize := by omega
    refine ⟨{ f with memoryBlocks := f.grown bc newSize, size := newSize }, bc', ?_, size.symm, length, free, same, rfl,
      fun _ => rfl, fun not => absurd grows not⟩
    simp [if_pos grows, grown, ok_bind]
  · have size : max f.size newSize = f.size := by omega
    exact ⟨f, bc, by rw [if_neg grows], size.symm, solid.blocks, solid.free, rfl, rfl, fun lt => absurd lt grows, fun _ => rfl⟩

theorem write_spec (solid : f.Solid bc) (fits : f.Fits bc (offset + buf.length))
    (zero : buf ≠ [] → f.GapZero bc m offset (offset + buf.length)) :
    ∃ g bc' m', f.write bc m buf offset = .ok (g, bc', m', buf.length) ∧ g.contents m' = Bytes.write (f.contents m) offset buf ∧
      g.memoryBlocks.length = blocksNr g.size ∧ bc'.blocksFree = bc'.blocks.length ∧
      g.memoryBlocks ++ bc'.blocks = f.memoryBlocks ++ bc.blocks ∧ g.orphanBlocks = f.orphanBlocks ∧
      ∀ x, (∀ b ∈ g.memoryBlocks, x < b ∨ b + blockSize ≤ x) → m' x = m x := by
  simp only [write]
  by_cases nothing : buf = []
  · subst nothing
    exact ⟨f, bc, m, by simp, by simp [Bytes.write], solid.blocks, solid.free, rfl, rfl, fun _ _ => rfl⟩
  · obtain ⟨g, bc', grown, size, length, free, same, orphans, moved, stays⟩ := growFor_spec solid fits
    have some : 0 < buf.length := List.length_pos_iff.mpr nothing
    have inside : offset + buf.length ≤ g.memoryBlocks.length * blockSize := by
      have := le_blocksNr g.size
      rw [← length] at this
      omega
    have apart : g.memoryBlocks.Pairwise Apart := (List.pairwise_append.mp (same ▸ solid.apart)).1
    obtain ⟨m', done, stored, kept⟩ := writeLoop_spec apart m offset buf (Nat.le_refl buf.length) inside
    refine ⟨g, bc', m', by simp [nothing, grown, ok_bind, done], List.ext_getElem? fun i => ?_, length, free, same, orphans,
      fun x out => kept x fun i lt at_ => ?_⟩
    · rw [contents_getElem?, Bytes.getElem?_write nothing, contents_getElem?, length_contents, size]
      by_cases here : offset ≤ i ∧ i < offset + buf.length
      · grind
      · rw [if_neg here]
        by_cases lt : i < max f.size (offset + buf.length)
        · rw [if_pos lt, if_pos lt, kept]
          · by_cases old : i < f.size
            · have place : addr g.memoryBlocks i = addr f.memoryBlocks i := by
                have bound : i < f.memoryBlocks.length * blockSize := by
                  rw [solid.blocks]
                  exact Nat.lt_of_lt_of_le old (le_blocksNr _)
                by_cases grows : f.size < offset + buf.length
                · rw [moved grows]
                  exact addr_append bound
                · rw [stays grows]
              simp [old, place]
            · have grows : f.size < offset + buf.length := by omega
              have gap := zero nothing i (Nat.not_lt.mp old) (by omega)
              simp [old, moved grows, gap]
          · intro j ltJ clash
            have bound : i < g.memoryBlocks.length * blockSize := by
              rw [length]
              exact Nat.lt_of_lt_of_le (by omega) (le_blocksNr _)
            have := addr_inj apart bound (by omega) clash
            omega
        · rw [if_neg lt, if_neg lt]
    · obtain ⟨b, mem, found⟩ := exists_block g.memoryBlocks (offset + i) (by omega)
      have mod := Nat.mod_lt (offset + i) blockSize_pos
      rw [addr_eq found] at at_
      have := out b mem
      omega

theorem read_spec (length : f.memoryBlocks.length = blocksNr f.size) {count : Nat} :
    f.read m count offset = .ok (Bytes.read (f.contents m) offset count) := by
  simp only [read]
  by_cases before : offset < f.size
  · rw [if_pos before]
    generalize isN : (if offset + count > f.size then f.size - offset else count) = n
    have bound : offset + n ≤ f.size ∧ n = min count (f.size - offset) := by
      rw [← isN]
      split <;> omega
    have inside := le_blocksNr f.size
    rw [← length] at inside
    rw [readLoop_eq (Nat.le_refl n) (by omega)]
    refine congrArg _ (List.ext_getElem? fun i => ?_)
    rw [Bytes.read, List.getElem?_take, List.getElem?_drop, contents_getElem?]
    by_cases lt : i < n
    · simp [lt, show i < count by omega, show offset + i < f.size by omega]
    · grind
  · rw [if_neg before, Bytes.read, List.drop_eq_nil_of_le (by simpa using before)]
    simp

end
end File
end Faux
