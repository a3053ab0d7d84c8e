import Faux.Fs.Server
import Faux.Lib.AList
import Faux.Lib.Except
import Mathlib.Data.List.Flatten
import Mathlib.Data.List.Perm.Subperm

/-! Where the blocks of the buffer cache are. The operations on a file move blocks between the free list and
    the file, never make one up, and never take one from the file. -/

namespace Faux
open Lib

namespace File
variable {f g h : File} {b c d : BufferCache} {size : Nat} {st : Status}

structure Moves (f : File) (b : BufferCache) (g : File) (c : BufferCache) : Prop where
  start : c.start = b.start
  perm : (c.blocks ++ g.all).Perm (b.blocks ++ f.all)
  kept : f.all ⊆ g.all

theorem Moves.of_all (same : g.all = f.all) : Moves f b g b :=
  ⟨rfl, by rw [same], by rw [same]; exact List.Subset.refl _⟩

theorem Moves.trans (first : Moves f b g c) (second : Moves g c h d) : Moves f b h d :=
  ⟨second.start.trans first.start, second.perm.trans first.perm, List.Subset.trans first.kept second.kept⟩

theorem shrink_moves (shrunk : f.shrink size = .ok g) : Moves f b g b := by
  simp only [shrink] at shrunk
  split_ifs at shrunk
  · cases shrunk
    exact .of_all rfl
  · cases shrunk
    have same : (f.memoryBlocks.take (blocksNr size) ++ (f.orphanBlocks ++ f.memoryBlocks.drop (blocksNr size))).Perm
        f.all := by
      refine (List.perm_append_comm.append_left _).trans ?_
      rw [← List.append_assoc, List.take_append_drop]
      exact List.Perm.refl _
    exact ⟨rfl, same.append_left _, same.symm.subset⟩

theorem get_spec {blocks : List Nat} {nr : Nat} (got : b.get nr = .ok (c, blocks)) :
    c.start = b.start ∧ b.blocks = blocks ++ c.blocks := by
  unfold BufferCache.get at got
  split_ifs at got
  · cases got
    exact ⟨rfl, rfl⟩
  · cases got
    exact ⟨rfl, (List.take_append_drop _ _).symm⟩

theorem grow_moves (grown : f.grow b size = .ok (g, c, st)) : Moves f b g c := by
  simp only [grow] at grown
  split_ifs at grown
  · cases grown
    exact .of_all rfl
  · simp only [bind_eq_ok, Prod.exists] at grown
    obtain ⟨c', blocks, got, grown⟩ := grown
    obtain ⟨start, taken⟩ := get_spec got
    split_ifs at grown with few
    · cases grown
      refine ⟨start, ?_, List.Subset.refl _⟩
      -- the cache gave nothing
      have none : blocks = [] := by
        unfold BufferCache.get at got
        split_ifs at got <;> cases got
        · rfl
        · simp only [List.length_take] at few
          omega
      rw [taken, none, List.nil_append]
    · cases grown
      refine ⟨start, ?_, ?_⟩
      · rw [taken]
        simp only [all, List.append_assoc]
        exact ((List.perm_append_comm_assoc _ _ _).append_left _).trans (List.perm_append_comm_assoc _ _ _)
      · simp [all]

theorem truncate_inv (truncated : f.truncate b size = .ok (g, c, st)) :
    f.size < size ∧ (∃ f', f.grow b size = .ok (f', c, st) ∧ (st ≠ .ok ∧ g = f' ∨ st = .ok ∧ g = { f' with size })) ∨
      (∃ f', f.shrink size = .ok f' ∧ c = b ∧ g = { f' with size }) ∨ g = f ∧ c = b := by
  unfold truncate at truncated
  split_ifs at truncated with more
  · simp only [bind_eq_ok, Prod.exists] at truncated
    obtain ⟨f', c', st', grown, truncated⟩ := truncated
    split_ifs at truncated with failed
    · grind
    · grind
  · grind [bind_eq_ok]
  · cases truncated
    exact .inr (.inr ⟨rfl, rfl⟩)

theorem write_inv {m m' : Memory} {buf : List UInt8} {offset : Nat} {n : Int} (written : f.write b m buf offset = .ok (g, c, m', n)) :
    g = f ∧ c = b ∨ buf ≠ [] ∧ f.size < offset + buf.length ∧
      ∃ f' st, f.grow b (offset + buf.length) = .ok (f', c, st) ∧ g = { f' with size := offset + buf.length } := by
  unfold write at written
  split_ifs at written with none
  · cases written
    exact .inl ⟨rfl, rfl⟩
  · simp only [bind_eq_ok, Prod.exists] at written
    obtain ⟨f', c', st, grown, written⟩ := written
    have same : g = f' ∧ c = c' := by
      split_ifs at written
      · cases written
        exact ⟨rfl, rfl⟩
      · grind [bind_eq_ok]
    obtain ⟨rfl, rfl⟩ := same
    unfold growFor at grown
    split_ifs at grown with more
    · grind [bind_eq_ok]
    · cases grown
      exact .inl ⟨rfl, rfl⟩

theorem truncate_moves (truncated : f.truncate b size = .ok (g, c, st)) : Moves f b g c := by
  rcases truncate_inv truncated with ⟨-, f', grown, ⟨-, rfl⟩ | ⟨-, rfl⟩⟩ | ⟨f', shrunk, rfl, rfl⟩ | ⟨rfl, rfl⟩
  · exact grow_moves grown
  · exact (grow_moves grown).trans (.of_all rfl)
  · exact (shrink_moves shrunk).trans (.of_all rfl)
  · exact .of_all rfl

theorem openTrunc_moves {trunc : Bool} (opened : f.openTrunc b trunc = .ok (g, c)) : Moves f b g c := by
  unfold openTrunc at opened
  split_ifs at opened
  · simp only [bind_eq_ok, Prod.exists] at opened
    obtain ⟨f', c', st', truncated, opened⟩ := opened
    cases opened
    exact truncate_moves truncated
  · cases opened
    exact .of_all rfl

theorem write_moves {m m' : Memory} {buf : List UInt8} {offset : Nat} {n : Int}
    (written : f.write b m buf offset = .ok (g, c, m', n)) : Moves f b g c := by
  rcases write_inv written with ⟨rfl, rfl⟩ | ⟨-, -, f', st, grown, rfl⟩
  · exact .of_all rfl
  · exact (grow_moves grown).trans (.of_all rfl)

end File

/-! ### The objects of a server -/

namespace VFile

/-- The object may have become the other one without being deleted: it is of the same kind and has all its
    blocks. -/
def Le : VFile → VFile → Prop
  | .file f, .file g => f.all ⊆ g.all
  | .dir _, .dir _ => True
  | .symlink dest, .symlink dest' => dest = dest'
  | _, _ => False

theorem Le.refl : ∀ v : VFile, v.Le v
  | .file _ => List.Subset.refl _
  | .dir _ => trivial
  | .symlink _ => rfl

theorem Le.trans {u v w : VFile} (first : u.Le v) (second : v.Le w) : u.Le w := by
  cases u <;> cases v <;> cases w <;> simp only [Le] at first second ⊢
  · exact List.Subset.trans first second
  · exact first.trans second

theorem Le.not_link {v w : VFile} (le : v.Le w) (notLink : ∀ dest, v ≠ .symlink dest) : ∀ dest, w ≠ .symlink dest := by
  rintro dest rfl
  cases v with
  | file f => exact le
  | dir d => exact le
  | symlink dest' => exact notLink dest' rfl

end VFile

namespace Server
variable {s t : Server} {id : FileId} {v w : VFile}

theorem fileBlocks_insert (files : AList fun _ : FileId => VFile) :
    fileBlocks (files.insert id v) = v.blocks ++ fileBlocks (files.erase id) := rfl

theorem fileBlocks_erase {files : AList fun _ : FileId => VFile} (found : files.lookup id = some v) :
    (v.blocks ++ fileBlocks (files.erase id)).Perm (fileBlocks files) := by
  rw [fileBlocks, fileBlocks, ← List.flatMap_cons (f := fun e : (_ : FileId) × VFile => e.2.blocks) (x := ⟨id, v⟩)]
  exact (entries_perm_cons_erase found).symm.flatMap_right _

theorem fileBlocks_erase_of_not_mem {files : AList fun _ : FileId => VFile} (absent : id ∉ files) :
    fileBlocks (files.erase id) = fileBlocks files := by
  unfold fileBlocks
  rw [show (files.erase id).entries = files.entries from List.kerase_of_notMem_keys absent]

theorem fileBlocks_erase_subperm (files : AList fun _ : FileId => VFile) :
    (fileBlocks (files.erase id)).Subperm (fileBlocks files) :=
  ((List.kerase_sublist id files.entries).flatMap _).subperm

theorem held_boot {i : Nat} {bc : BufferCache} {m : Memory} : (boot i bc m).held = bc.blocks := by
  unfold held boot
  split_ifs
  · exact List.append_nil _
  · exact List.append_nil _

end Server
end Faux
