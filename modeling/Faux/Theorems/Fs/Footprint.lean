import Faux.Fs.Footprint
import Faux.Theorems.Fs.Data
import Faux.Theorems.Fs.Orphans

/-! The blocks of a file: the slices that clients ask for, the number of blocks over the history of sizes, and requests that need
    more blocks than are free. -/

namespace Faux
open Lib
namespace File
variable {f g : File} {bc c : BufferCache} {newSize : Nat} {st : Status}

/-! ### Slices -/

theorem take_drop_append {xs ys : List Nat} {i n : Nat} (le : i + n ≤ xs.length) : ((xs ++ ys).drop i).take n = (xs.drop i).take n := by
  rw [List.drop_append_of_le_length (by omega), List.take_append_of_le_length (by rw [List.length_drop]; omega)]

theorem blocks_memory {offset count : Nat} (le : offset + count ≤ f.memoryBlocks.length) :
    f.blocks bc offset count = .ok (.ok, ((f.all.drop offset).take count).map (· - bc.start)) := by
  have length : ((f.memoryBlocks.drop offset).take count).length = count := by
    rw [List.length_take, List.length_drop]
    omega
  unfold blocks
  rw [if_neg (by omega)]
  simp only [Int.toNat_natCast, length, Int.lt_irrefl, if_false]
  rw [all, take_drop_append le]

theorem blocks_orphans (count : Nat) : f.blocks bc f.memoryBlocks.length count =
    .ok (if f.orphanBlocks.length < count then .noMemory else .ok, ((f.all.drop f.memoryBlocks.length).take count).map (· - bc.start)) := by
  unfold blocks
  rw [if_neg (by omega)]
  simp only [Int.toNat_natCast, List.drop_length, List.take_nil, List.length_nil, all, List.drop_left]
  rcases Nat.eq_zero_or_pos count with rfl | pos
  · simp
  · grind

/-- Slices that go on from the memory blocks into the orphan blocks: the second loop starts before the begin of its list. -/
theorem blocks_across {offset count : Nat} (lt : offset < f.memoryBlocks.length) (past : f.memoryBlocks.length < offset + count) :
    f.blocks bc offset count = .error .undefined := by
  have length : ((f.memoryBlocks.drop offset).take count).length = f.memoryBlocks.length - offset := by
    rw [List.length_take, List.length_drop]
    omega
  unfold blocks
  rw [if_neg (by omega)]
  simp only [Int.toNat_natCast, length]
  rw [if_pos (by omega), if_pos (by omega)]

theorem blocks_outside {offset count : Int} (outside : offset < 0 ∨ offset > f.memoryBlocks.length) :
    f.blocks bc offset count = .error .undefined := if_pos outside

theorem blocks_negative {offset count : Int} (inside : ¬(offset < 0 ∨ offset > f.memoryBlocks.length)) (negative : count < 0) :
    f.blocks bc offset count = .ok (.ok, []) := by
  have none : count.toNat = 0 := Int.toNat_of_nonpos (by omega)
  unfold blocks
  rw [if_neg inside]
  simp only [none, List.take_zero, List.length_nil]
  rw [if_neg (by omega)]
  rfl

/-- Requests for blocks are answered right exactly when they stay in one of the two lists. -/
theorem sliced_iff_inOneList (f : File) (bc : BufferCache) (offset count : Int) : f.Sliced bc offset count ↔ f.InOneList offset count := by
  by_cases outside : offset < 0 ∨ offset > f.memoryBlocks.length
  · simp only [Sliced, blocks_outside outside, InOneList, false_iff]
    omega
  rcases Int.lt_or_le count 0 with negative | notNegative
  · have inOne : f.InOneList offset count := ⟨by omega, by omega, .inl (by omega)⟩
    have few : offset + count ≤ f.all.length := by
      rw [all, List.length_append]
      omega
    simp only [Sliced, blocks_negative outside negative, few, inOne, true_and, true_or, Int.toNat_of_nonpos (Int.le_of_lt negative),
      List.take_zero, List.map_nil, implies_true]
  obtain ⟨i, rfl⟩ := Int.eq_ofNat_of_zero_le (by omega : 0 ≤ offset)
  obtain ⟨n, rfl⟩ := Int.eq_ofNat_of_zero_le notNegative
  have total : f.all.length = f.memoryBlocks.length + f.orphanBlocks.length := List.length_append
  by_cases inMemory : i + n ≤ f.memoryBlocks.length
  · have inOne : f.InOneList i n := ⟨by omega, by omega, .inl (by omega)⟩
    have few : (i : Int) + n ≤ f.all.length := by omega
    simp [Sliced, blocks_memory inMemory, few, inOne]
  rcases Nat.lt_or_ge i f.memoryBlocks.length with lt | ge
  · grind [Sliced, blocks_across, InOneList]
  · obtain rfl : i = f.memoryBlocks.length := by omega
    have inOne : f.InOneList f.memoryBlocks.length n := ⟨by omega, by omega, .inr rfl⟩
    simp only [Sliced, blocks_orphans, inOne, iff_true, Int.toNat_natCast, implies_true, and_true]
    split_ifs with short
    · exact ⟨⟨fun is => absurd is (by decide), fun le => absurd le (by omega)⟩, .inr rfl⟩
    · exact ⟨⟨fun _ => by omega, fun _ => rfl⟩, .inl rfl⟩

def twoLists : File := { memoryBlocks := [4096], orphanBlocks := [8192], size := 1 }

theorem not_sliced_twoLists : ¬twoLists.Sliced { start := 0, blocks := [], blocksFree := 0 } 0 2 := id

theorem sizeSub_of_le {a b : Nat} (le : b ≤ a) (lt : a < sizeMod) : sizeSub a b = a - b := by
  have same : a + sizeMod - b = a - b + sizeMod := by omega
  rw [sizeSub, same, Nat.add_mod_right, Nat.mod_eq_of_lt (by omega)]

theorem grow_lacks (lacks : f.Lacks bc newSize) : f.grow bc newSize = .ok (f, bc, .noSpace) := by
  obtain ⟨-, small, few⟩ := lacks
  have diff : sizeSub (blocksNr newSize) f.memoryBlocks.length = blocksNr newSize - f.memoryBlocks.length :=
    sizeSub_of_le (by omega) (blocksNr_lt small)
  have got : bc.get (blocksNr newSize - f.memoryBlocks.length) = .ok (bc, []) := if_pos few
  simp only [grow, diff]
  rw [if_neg (by omega), got, ok_bind]
  exact if_pos (by rw [List.length_nil]; omega)

theorem grow_cases (grown : f.grow bc newSize = .ok (g, c, st)) (le : f.memoryBlocks.length ≤ blocksNr newSize) (small : newSize < sizeMod) :
    g = f ∧ (st = .ok → f.memoryBlocks.length = blocksNr newSize) ∧ (st ≠ .ok → bc.blocksFree < blocksNr newSize - f.memoryBlocks.length) ∨
      st = .ok ∧ g.orphanBlocks = f.orphanBlocks ∧ f.memoryBlocks.length < blocksNr newSize ∧ g.memoryBlocks.length = blocksNr newSize ∧
        blocksNr newSize - f.memoryBlocks.length ≤ bc.blocksFree := by
  simp only [grow, sizeSub_of_le le (blocksNr_lt small)] at grown
  split_ifs at grown with none
  · grind
  · simp only [bind_eq_ok, Prod.exists] at grown
    obtain ⟨c', blocks, got, grown⟩ := grown
    split_ifs at grown with few
    · cases grown
      refine .inl ⟨rfl, fun is => absurd is (by decide), fun _ => ?_⟩
      by_contra enough
      rw [BufferCache.get, if_neg enough] at got
      split_ifs at got
      cases got
      rw [List.length_take] at few
      omega
    · grind [BufferCache.get]

/-! ### The blocks that a file holds -/

def Trim (f : File) : Prop := f.memoryBlocks.length ≤ blocksNr f.size

/-- An operation keeps files trim, and leaves a file with at most as many blocks as before or as its size takes. -/
def Bounded (f g : File) : Prop := g.Trim ∧ g.all.length ≤ max f.all.length (blocksNr g.size)

theorem Trim.bounded (trim : f.Trim) : f.Bounded f := ⟨trim, Nat.le_max_left ..⟩

theorem grow_bounded (trim : f.Trim) (lt : f.size < newSize) (small : newSize < sizeMod) (free : f.Takes bc newSize → f.orphanBlocks = [])
    (grown : f.grow bc newSize = .ok (g, c, st)) : f.Bounded { g with size := newSize } := by
  have le : f.memoryBlocks.length ≤ blocksNr newSize := Nat.le_trans trim (blocksNr_mono (Nat.le_of_lt lt))
  rcases grow_cases grown le small with ⟨rfl, -, -⟩ | ⟨-, orphans, fewer, length, enough⟩
  · exact ⟨le, Nat.le_max_left ..⟩
  · have none := free ⟨lt, fewer, enough⟩
    refine ⟨Nat.le_of_eq length, Nat.le_trans (Nat.le_of_eq ?_) (Nat.le_max_right ..)⟩
    rw [all, List.length_append, orphans, none, List.length_nil, Nat.add_zero]
    exact length

theorem shrink_bounded (shrunk : f.shrink newSize = .ok g) : f.Bounded { g with size := newSize } := by
  simp only [shrink] at shrunk
  split_ifs at shrunk with same short
  · cases shrunk
    exact ⟨Nat.le_of_eq same, Nat.le_max_left ..⟩
  · cases shrunk
    refine ⟨List.length_take_le .., Nat.le_trans (Nat.le_of_eq ?_) (Nat.le_max_left ..)⟩
    simp only [all, List.length_append, List.length_take, List.length_drop]
    omega

theorem truncate_bounded (trim : f.Trim) (small : newSize < sizeMod) (free : f.Takes bc newSize → f.orphanBlocks = [])
    (truncated : f.truncate bc newSize = .ok (g, c, st)) : f.Bounded g := by
  rcases truncate_inv truncated with ⟨more, f', grown, ⟨failed, rfl⟩ | ⟨-, rfl⟩⟩ | ⟨f', shrunk, rfl, rfl⟩ | ⟨rfl, rfl⟩
  · -- the size stays as well
    have le : f.memoryBlocks.length ≤ blocksNr newSize := Nat.le_trans trim (blocksNr_mono (Nat.le_of_lt more))
    rcases grow_cases grown le small with ⟨rfl, -⟩ | ⟨is, -⟩
    · exact trim.bounded
    · exact absurd is failed
  · exact grow_bounded trim more small free grown
  · exact shrink_bounded shrunk
  · exact trim.bounded

theorem write_bounded {m m' : Memory} {buf : List UInt8} {offset : Nat} {n : Int} (trim : f.Trim) (small : offset + buf.length < sizeMod)
    (free : buf ≠ [] → f.Takes bc (offset + buf.length) → f.orphanBlocks = []) (written : f.write bc m buf offset = .ok (g, c, m', n)) :
    f.Bounded g := by
  rcases write_inv written with ⟨rfl, rfl⟩ | ⟨some, more, f', st, grown, rfl⟩
  · exact trim.bounded
  · exact grow_bounded trim more small (free some) grown

end File

namespace Footprint
variable {s t : Footprint} {o : SizeOp}

structure Inv (s : Footprint) : Prop where
  trim : s.file.Trim
  held : s.held ≤ blocksNr s.largest
  largest : s.file.size ≤ s.largest

theorem Inv.put (inv : Inv s) {file : File} (bounded : s.file.Bounded file) (cache : BufferCache) (mem : Memory) : Inv (s.put file cache mem) where
  trim := bounded.1
  held := by
    have before : s.file.all.length ≤ blocksNr s.largest := by
      rw [File.all, List.length_append]
      exact inv.held
    have after := bounded.2
    rw [File.all, List.length_append] at after
    exact Nat.le_trans after (Nat.max_le.mpr ⟨Nat.le_trans before (blocksNr_mono (Nat.le_max_left ..)), blocksNr_mono (Nat.le_max_right ..)⟩)
  largest := Nat.le_max_right ..

theorem inv_step (inv : Inv s) (guard : Guard s o) (stepped : s.step o = some t) : Inv t := by
  have applied := toOption_eq_some.mp stepped
  cases o with
  | write buf offset =>
    simp only [apply, bind_eq_ok, Prod.exists] at applied
    obtain ⟨f, bc, m, n, written, is⟩ := applied
    cases is
    by_cases none : buf = []
    · simp only [File.write, none, if_true] at written
      cases written
      exact inv.put inv.trim.bounded _ _
    · simp only [Guard, SizeOp.newSize, none, if_false] at guard
      exact inv.put (File.write_bounded inv.trim guard.1 (fun _ => guard.2) written) _ _
  | truncate len =>
    simp only [apply, bind_eq_ok, Prod.exists] at applied
    obtain ⟨f, bc, st, truncated, is⟩ := applied
    cases is
    exact inv.put (File.truncate_bounded inv.trim guard.1 guard.2 truncated) _ _
  | openTrunc =>
    simp only [apply, File.openTrunc, if_true, bind_eq_ok, Prod.exists] at applied
    obtain ⟨f, bc, ⟨f', bc', st, truncated, opened⟩, is⟩ := applied
    cases opened
    cases is
    exact inv.put (File.truncate_bounded inv.trim guard.1 guard.2 truncated) _ _
  | others cache mem =>
    cases applied
    exact ⟨inv.trim, inv.held, inv.largest⟩

/-- A file never holds more blocks than the largest size that it has had takes, when no blocks are taken from the cache while the
    file has orphan blocks. -/
theorem held_le_largest {s : Footprint} (reach : Reach Start Guard step s) : s.held ≤ blocksNr s.largest := by
  have first : ∀ s, Start s → Inv s := by
    rintro s ⟨file, largest⟩
    constructor
    · rw [file]
      exact Nat.zero_le _
    · rw [held, file]
      exact Nat.zero_le _
    · rw [file]
      exact Nat.zero_le _
  have next : ∀ s t o, Inv s → Guard s o → s.step o = some t → Inv t := fun _ _ _ inv guard stepped => inv_step inv guard stepped
  exact (reach.invariant first next).held

def created : Footprint := { file := .new, cache := { start := 0, blocks := [0, 4096], blocksFree := 2 }, mem := fun _ => 0, largest := 0 }

theorem held_le_largest_written : ∃ s, Reach Start Guard step s ∧ s.held = 1 ∧ s.held ≤ blocksNr s.largest := by
  have guarded : Guarded Guard step created [.write [7] 0, .truncate 0] := guarded_of_check (fun _ _ => of_decide_eq_true) _ (by decide +kernel)
  have start : Reach Start Guard step created := .init ⟨rfl, rfl⟩
  have reach := start.of_guarded guarded rfl
  exact ⟨_, reach, rfl, held_le_largest reach⟩

/-- One byte is written, the file is truncated, and the byte is written again. -/
theorem exists_held_gt_largest : ∃ s, Reach Start (fun _ _ => True) step s ∧ s.largest = 1 ∧ blocksNr s.largest < s.held := by
  have start : Start created := ⟨rfl, rfl⟩
  have ran : ∃ s, run step created [.write [7] 0, .truncate 0, .write [7] 0] = some s ∧ s.largest = 1 ∧ s.held = 2 := ⟨_, rfl, rfl, rfl⟩
  obtain ⟨s, ran, largest, held⟩ := ran
  refine ⟨s, .of_run start ran, largest, ?_⟩
  rw [largest, held]
  decide

end Footprint

/-! ### Requests that need more blocks than are free -/

namespace Server
variable {cfg : Config} {s : Server} {env : Env} {app : AppId}

theorem write_starved {fd : Fd} {data : List UInt8} {d : FileDescriptor} {f : File} (nonempty : data ≠ []) (foundD : s.fds.lookup fd = some d)
    (foundF : s.files.lookup d.id = some (.file f)) (lacks : f.Lacks s.bufferCache (d.offset + data.length)) :
    s.handle cfg env app (.write fd data) = .ok ({ s with
      files := s.files.insert d.id (.file { f with size := d.offset + data.length })
      fds := s.fds.insert fd { d with offset := d.offset + 0 } }, (.noSpace, 0), []) := by
  have grown : f.growFor s.bufferCache (d.offset + data.length) = .ok ({ f with size := d.offset + data.length }, s.bufferCache, .noSpace) := by
    rw [File.growFor, if_pos lacks.1, File.grow_lacks lacks, ok_bind]
  have written : f.write s.bufferCache s.mem data d.offset =
      .ok ({ f with size := d.offset + data.length }, s.bufferCache, s.mem, Status.noSpace) := by
    rw [File.write, if_neg nonempty, grown, ok_bind]
    exact if_pos (by decide)
  simp only [handle, write, foundD, writeInode, foundF, written, ok_bind]
  rfl

theorem truncate_starved {id : FileId} {len : Nat} {f : File} (found : s.files.lookup id = some (.file f)) (lacks : f.Lacks s.bufferCache len) :
    s.handle cfg env app (.truncate id len) = .ok ({ s with files := s.files.insert id (.file f) }, Status.ok, []) := by
  have truncated : f.truncate s.bufferCache len = .ok (f, s.bufferCache, .noSpace) := by
    rw [File.truncate, if_pos lacks.1, File.grow_lacks lacks, ok_bind]
    exact if_pos (by decide)
  simp only [handle, truncate, found, truncated, ok_bind]

theorem not_clean_write {fd : Fd} {data : List UInt8} (starved : s.Starved (.write fd data)) : ¬s.RefusedCleanly cfg ⟨env, app, .write fd data⟩ := by
  rintro ⟨t, r, notes, handled, -, files, -⟩
  obtain ⟨nonempty, d, f, foundD, foundF, lacks⟩ := starved
  have same := Except.ok.inj (handled.symm.trans (write_starved nonempty foundD foundF lacks))
  obtain ⟨rfl, -⟩ := Prod.mk.inj same
  have size := files d.id
  rw [AList.lookup_insert, foundF, Option.some.injEq, VFile.file.injEq] at size
  have lt := lacks.1
  rw [← size] at lt
  exact Nat.lt_irrefl _ lt

theorem not_clean_truncate {id : FileId} {len : Nat} (starved : s.Starved (.truncate id len)) : ¬s.RefusedCleanly cfg ⟨env, app, .truncate id len⟩ := by
  rintro ⟨t, r, notes, handled, refused, -⟩
  obtain ⟨f, found, lacks⟩ := starved
  have same := Except.ok.inj (handled.symm.trans (truncate_starved found lacks))
  obtain ⟨-, reply⟩ := Prod.mk.inj same
  exact refused (Prod.mk.inj reply).1

/-- No write or truncation that needs more blocks than are free is refused cleanly. -/
theorem not_refusedCleanly_of_starved (cfg : Config) (s : Server) (env : Env) (app : AppId) (q : Request) (starved : s.Starved q) :
    ¬s.RefusedCleanly cfg ⟨env, app, q⟩ := by
  cases q with
  | write fd data => exact not_clean_write starved
  | truncate id len => exact not_clean_truncate starved
  | _ => exact False.elim starved

/-- A server without free blocks that has one empty file, opened as descriptor 1. -/
def full : Server where
  id := 0
  files := AList.singleton 2 (.file .new)
  pipes := ∅
  orphans := []
  fds := AList.singleton 1 { count := 1, offset := 0, id := 2 }
  bufferCache := { start := 0, blocks := [], blocksFree := 0 }
  mem := fun _ => 0
  apps := []
  inodeSeq := 3
  nextLoc := 1

theorem starved_full : full.Starved (.truncate 2 1) := ⟨_, rfl, by decide⟩

theorem not_refusedCleanly_full : full.Starved (.truncate 2 1) ∧ ¬full.RefusedCleanly oneServer (request 1 (.truncate 2 1)) :=
  ⟨starved_full, not_refusedCleanly_of_starved _ _ _ _ _ starved_full⟩

/-- One byte is written to the empty file: the client is told that there is no space, and from then on the file has one byte, but
    no block for it. -/
theorem write_noticed_full : full.Starved (.write 1 [7]) ∧ ¬full.RefusedCleanly oneServer (request 1 (.write 1 [7])) ∧
    ((full.step oneServer (request 1 (.write 1 [7]))).map fun t => (t.files.lookup 2).map fun v => (v.size, v.blocks)) = some (some (1, [])) := by
  have starved : full.Starved (.write 1 [7]) := ⟨by decide, _, _, rfl, rfl, by decide⟩
  exact ⟨starved, not_clean_write starved, by decide +kernel⟩

end Server
end Faux
