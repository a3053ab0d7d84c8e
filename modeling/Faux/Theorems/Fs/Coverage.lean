import Faux.Fs.Coverage
import Faux.Theorems.Fs.Footprint

/-! Every request conserves the blocks of a server, and keeps every file covered when the condition holds. -/

namespace Faux
open Lib

/-! ### Files -/

namespace File
variable {f g : File} {bc c : BufferCache} {newSize : Nat} {st : Status} {offset loc mode n : Nat}

theorem covered_new : File.new.Covered := Nat.le_refl _

theorem covered_of_le (le : blocksNr newSize ≤ f.memoryBlocks.length) : Covered { f with size := newSize } := by
  have size := le_blocksNr newSize
  rw [Nat.mul_comm] at size
  exact Nat.le_trans size (Nat.mul_le_mul_left _ le)

theorem grow_mono (grown : f.grow bc newSize = .ok (g, c, st)) :
    f.memoryBlocks.length ≤ g.memoryBlocks.length ∧ g.size = f.size ∧ (st ≠ .ok → g = f) := by
  simp only [grow] at grown
  split_ifs at grown
  · cases grown
    exact ⟨Nat.le_refl _, rfl, fun _ => rfl⟩
  · grind [bind_eq_ok]

theorem grow_blocks (grown : f.grow bc newSize = .ok (g, c, st)) (small : newSize < sizeMod)
    (done : st = .ok ∨ ¬bc.blocksFree < blocksNr newSize - f.memoryBlocks.length) : blocksNr newSize ≤ g.memoryBlocks.length := by
  rcases Nat.le_total f.memoryBlocks.length (blocksNr newSize) with le | ge
  · rcases grow_cases grown le small with ⟨rfl, same, few⟩ | ⟨-, -, -, length, -⟩
    · by_cases ok : st = .ok
      · exact Nat.le_of_eq (same ok).symm
      · exact absurd (few ok) (done.resolve_left ok)
    · exact Nat.le_of_eq length.symm
  · exact Nat.le_trans ge (grow_mono grown).1

theorem truncate_covered (covered : f.Covered) (small : newSize < sizeMod) (truncated : f.truncate bc newSize = .ok (g, c, st)) : g.Covered := by
  rcases truncate_inv truncated with ⟨-, f', grown, ⟨failed, rfl⟩ | ⟨isOk, rfl⟩⟩ | ⟨f', shrunk, rfl, rfl⟩ | ⟨rfl, rfl⟩
  · rw [(grow_mono grown).2.2 failed]
    exact covered
  · exact covered_of_le (grow_blocks grown small (.inl isOk))
  · refine covered_of_le ?_
    simp only [shrink] at shrunk
    split_ifs at shrunk with same short
    · cases shrunk
      exact Nat.le_of_eq same.symm
    · cases shrunk
      rw [List.length_take]
      omega
  · exact covered

theorem write_covered {m m' : Memory} {buf : List UInt8} {n : Int} (covered : f.Covered)
    (fits : buf ≠ [] → offset + buf.length < sizeMod ∧ ¬f.Lacks bc (offset + buf.length))
    (written : f.write bc m buf offset = .ok (g, c, m', n)) : g.Covered := by
  rcases write_inv written with ⟨rfl, rfl⟩ | ⟨some, more, f', st, grown, rfl⟩
  · exact covered
  · obtain ⟨small, enough⟩ := fits some
    exact covered_of_le (grow_blocks grown small (.inr fun few => enough ⟨more, small, few⟩))

theorem truncate_lacks (truncated : f.truncate bc newSize = .ok (g, c, st)) (enough : ¬f.Lacks bc newSize) (small : newSize < sizeMod) :
    ¬g.Lacks c newSize := by
  rcases truncate_inv truncated with ⟨more, f', grown, ⟨-, rfl⟩ | ⟨-, rfl⟩⟩ | ⟨f', -, rfl, rfl⟩ | ⟨rfl, rfl⟩
  · rintro ⟨-, -, few⟩
    have blocks := grow_blocks grown small (.inr fun few => enough ⟨more, small, few⟩)
    omega
  · exact fun lacks => Nat.lt_irrefl _ lacks.1
  · exact fun lacks => Nat.lt_irrefl _ lacks.1
  · exact enough

end File

/-! ### Servers -/

namespace Server
variable {s t u : Server} {env : Env} {app : AppId} {id parent : FileId} {path : Name} {child : InodeType} {v w : VFile} {st : Status}
  {ns : List Notify} {flags : Flags} {bc : BufferCache} {ow : Bool} {i : Option InodeType}

def AllCovered (s : Server) : Prop := ∀ id f, s.files.lookup id = some (.file f) → f.Covered

structure Conserves (s t : Server) : Prop where
  held : t.held.Perm s.held
  covers : s.AllCovered → t.AllCovered

theorem Conserves.trans (first : Conserves s t) (second : Conserves t u) : Conserves s u :=
  ⟨second.held.trans first.held, second.covers ∘ first.covers⟩

theorem Conserves.of_files (cache : t.bufferCache = s.bufferCache) (files : t.files = s.files) : Conserves s t where
  held := by simp only [Server.held, cache, files]; exact List.Perm.refl _
  covers covers id f found := covers id f (files ▸ found)

theorem Conserves.refl : Conserves s s := .of_files rfl rfl

theorem conserves_set {m : Memory} (found : s.files.lookup id = some v)
    (perm : (bc.blocks ++ w.blocks).Perm (s.bufferCache.blocks ++ v.blocks)) (covered : s.AllCovered → ∀ f, w = .file f → f.Covered) :
    Conserves s { s with files := s.files.insert id w, bufferCache := bc, mem := m, nextLoc := loc } where
  held := by
    simp only [held, fileBlocks_insert]
    rw [← List.append_assoc]
    refine (perm.append_right _).trans ?_
    rw [List.append_assoc]
    exact (fileBlocks_erase found).append_left _
  covers covers id' f found' := by
    rcases lookup_insert_some.mp found' with ⟨-, is⟩ | ⟨-, found'⟩
    · exact covered covers f is
    · exact covers id' f found'

theorem conserves_setFile {f g : File} {m : Memory} (found : s.files.lookup id = some (.file f))
    (moves : File.Moves f s.bufferCache g bc) (covered : f.Covered → g.Covered) :
    Conserves s { s with files := s.files.insert id (.file g), bufferCache := bc, mem := m } :=
  conserves_set found moves.perm fun covers g' is => by
    cases is
    exact covered (covers id f found)

theorem conserves_setDir {d d' : Dir} (found : s.files.lookup id = some (.dir d)) :
    Conserves s { s with files := s.files.insert id (.dir d'), nextLoc := loc } :=
  conserves_set (m := s.mem) found (List.Perm.refl _) fun _ _ is => by cases is

theorem conserves_new {seq : Nat} (absent : id ∉ s.files) (empty : v.blocks = []) (covered : ∀ f, v = .file f → f.Covered) :
    Conserves s { s with files := s.files.insert id v, inodeSeq := seq } where
  held := by
    simp only [held, fileBlocks_insert, empty, List.nil_append]
    rw [fileBlocks_erase_of_not_mem absent]
  covers covers id' f found := by
    rcases lookup_insert_some.mp found with ⟨-, is⟩ | ⟨-, found⟩
    · exact covered f is
    · exact covers id' f found

theorem conserves_delete : Conserves s (s.delete id) where
  held := delete_held
  covers covers id' f found := by
    rw [(delete_fields s id).2.2.2.1] at found
    exact covers id' f (lookup_erase_some.mp found).2

theorem conserves_removeInode {type : FileType} : Conserves s (s.removeInode id type) := by
  unfold removeInode
  split_ifs
  · exact .of_files rfl rfl
  · exact conserves_delete

/-! ### Directories and entries -/

theorem conserves_lazyDir : Conserves s (s.lazyDir id) := by
  unfold lazyDir
  split
  · exact .refl
  · next absent => exact conserves_new (AList.lookup_eq_none.mp absent) rfl fun _ is => by cases is

theorem conserves_appAddLoc : Conserves s (s.appAddLoc app loc) := by
  unfold appAddLoc
  split
  · exact .refl
  · exact .of_files rfl rfl

theorem conserves_addEntry {d d' : Dir} (found : s.files.lookup parent = some (.dir d)) : Conserves s (s.addEntry app parent d' path child) := by
  unfold addEntry
  split_ifs
  · exact conserves_setDir found
  · exact (conserves_setDir found).trans conserves_appAddLoc

theorem updateStatFile_conserves (updated : s.updateStatFile env id = .ok t)
    (fits : ∀ f, s.files.lookup id = some (.file f) → env.stats.length < sizeMod ∧ ¬f.Lacks s.bufferCache env.stats.length) : Conserves s t := by
  obtain ⟨f, f', bc', st, g, bc, m, n, found, truncated, written, rfl⟩ := updateStatFile_inv updated
  obtain ⟨small, enough⟩ := fits f found
  refine conserves_setFile found ((File.truncate_moves truncated).trans (File.write_moves written)) fun covered => ?_
  refine File.write_covered (File.truncate_covered covered small truncated) (fun _ => ?_) written
  rw [Nat.zero_add]
  exact ⟨small, File.truncate_lacks truncated enough small⟩

/-- What the text of the statistics takes is free, when a file becomes the entry `stats`. -/
def StatsFit (s : Server) (env : Env) (path : Name) (child : FileId) : Prop :=
  path = "stats" → ∀ f, s.files.lookup child = some (.file f) → env.stats.length < sizeMod ∧ ¬f.Lacks s.bufferCache env.stats.length

theorem addmap_conserves {i : InodeType} (fits : s.StatsFit env path child.id)
    (added : s.addmap env app parent path child ow = .ok (t, st, i, ns)) : Conserves s t := by
  obtain ⟨s', p, noted, found, added⟩ := addmap_inv added
  have stats : Conserves s s' := by
    rcases noteStats_inv noted with ⟨isStats, updated⟩ | ⟨-, rfl⟩
    · exact updateStatFile_conserves updated (fits isStats)
    · exact .refl
  have lazy : Conserves s (s'.lazyDir parent) := stats.trans conserves_lazyDir
  rcases added with ⟨entry, -, -, -, ⟨-, rfl, -⟩ | ⟨-, rfl, -⟩⟩ | ⟨-, -, -, rfl, -⟩
  · have forgotten : Conserves s ((s'.lazyDir parent).appRemoveCache app entry).1 := lazy.trans (.of_files rfl rfl)
    exact forgotten.trans (conserves_addEntry found)
  · exact lazy
  · exact lazy.trans (conserves_addEntry found)

theorem removemap_conserves (removed : s.removemap app parent path = (t, st, ns)) : Conserves s t := by
  rcases removemap_inv removed with ⟨rfl, -, -⟩ | ⟨p, entry, u, found, -, ⟨-, rfl, -⟩ | ⟨-, rfl, -⟩, rfl, -⟩
  · exact .refl
  · exact conserves_setDir found
  · have forgotten : Conserves s (s.appRemoveCache app entry).1 := .of_files rfl rfl
    exact forgotten.trans (conserves_setDir found)

theorem resolve_conserves (resolved : s.resolve app parent path = .ok (t, st, i)) : Conserves s t := by
  rcases resolve_inv resolved with ⟨-, ⟨rfl, -, -⟩ | ⟨p, entry, -, -, rfl, -, -⟩⟩
  · exact .refl
  · exact conserves_appAddLoc

/-! ### New inodes -/

theorem create_conserves (created : s.create parent path flags mode = .ok (t, st, i))
    (absent : (s.lazyDir parent).newId ∉ (s.lazyDir parent).files) :
    Conserves s t ∧ t.bufferCache = s.bufferCache ∧ t.id = s.id ∧
      (st = .ok → ∃ x, i = some x ∧ t.files.lookup x.id = some (if flags.directory then .dir (Dir.new false mode) else .file .new)) := by
  have lazy : Conserves s (s.lazyDir parent) := conserves_lazyDir
  have cache : (s.lazyDir parent).bufferCache = s.bufferCache ∧ (s.lazyDir parent).id = s.id := by
    unfold lazyDir
    split <;> exact ⟨rfl, rfl⟩
  rcases create_inv created with ⟨p, -, -, ⟨entry, -, rfl, rfl, -⟩ | ⟨v, -, isNew, rfl, -, rfl⟩⟩ | ⟨-, rfl, rfl, -⟩
  · refine ⟨lazy, cache.1, cache.2, fun ok => ?_⟩
    split_ifs at ok
    · exact absurd ok (by decide)
    · exact absurd ok (by decide)
  · refine ⟨lazy.trans (conserves_new absent ?_ ?_), cache.1, cache.2, fun _ => ⟨_, rfl, isNew ▸ AList.lookup_insert _⟩⟩
    · rw [isNew]
      split_ifs <;> rfl
    · intro f is
      rw [isNew] at is
      split_ifs at is
      cases is
      exact File.covered_new
  · exact ⟨lazy, cache.1, cache.2, fun ok => absurd ok (by decide)⟩

theorem symlink_conserves {src dest : Name} (linked : s.symlink parent src dest = (t, st))
    (absent : (s.lazyDir parent).newId ∉ (s.lazyDir parent).files) : Conserves s t := by
  simp only [symlink] at linked
  split at linked
  · next p found =>
    split at linked
    · cases linked
      exact conserves_lazyDir
    · cases linked
      have ne : parent ≠ (s.lazyDir parent).newId := fun same => absent (same ▸ mem_of_lookup found)
      refine conserves_lazyDir.trans ((conserves_new absent rfl fun _ is => by cases is).trans (conserves_setDir (d := p) ?_))
      exact (AList.lookup_insert_ne ne).trans found
  · cases linked
    exact conserves_lazyDir

section
variable {cfg : Config}

theorem mustAddMap_conserves (fits : s.StatsFit env path child.id) (added : s.mustAddMap env app parent path child = .ok t) : Conserves s t := by
  obtain ⟨i, ns, mapped⟩ := mustAddMap_inv added
  exact addmap_conserves fits mapped

theorem mapIf_conserves {c : Bool} (fits : s.StatsFit env path child.id) (added : s.mapIf env app c parent path child = .ok t) : Conserves s t := by
  unfold mapIf at added
  split_ifs at added
  · exact mustAddMap_conserves fits added
  · cases added
    exact .refl

theorem mapDir_conserves {parent : InodeType} {d : Dir} (isDir : s.files.lookup child.id = some (.dir d))
    (added : s.mapDir cfg env app parent path child = .ok t) : Conserves s t := by
  simp only [mapDir, bind_eq_ok] at added
  obtain ⟨_, _, s', first, second⟩ := added
  have fits : s.StatsFit env path child.id := by
    intro _ f found
    rw [isDir] at found
    cases found
  exact (mapIf_conserves fits first).trans (mapIf_conserves (fun is => absurd is (by decide)) second)

theorem handleCreate_conserves {parent : InodeType}
    (absent : (s.lazyDir parent.id).newId ∉ (s.lazyDir parent.id).files)
    (created : s.handleCreate cfg env app parent path flags mode = .ok (t, st, i)) : Conserves s t := by
  obtain ⟨u, made, created⟩ := handleCreate_inv created
  obtain ⟨conserves, -, -, new⟩ := create_conserves made absent
  rcases created with rfl | ⟨child, rfl, ok, directory, mapped⟩
  · exact conserves
  · obtain ⟨x, is, found⟩ := new ok
    cases is
    rw [if_pos directory] at found
    exact conserves.trans (mapDir_conserves found mapped)

theorem handleAddMap_conserves {reply : Status × InodeType} (fits : s.StatsFit env path child.id)
    (added : s.handleAddMap env app parent path child ow = .ok (t, reply, ns)) : Conserves s t :=
  addmap_conserves fits (handleAddMap_inv added)

theorem handleUpdateMap_conserves {reply : Status × InodeType} {oldParent : FileId} {oldPath : Name}
    (fits : s.StatsFit env path child.id)
    (updated : s.handleUpdateMap env app parent path child ow oldParent oldPath = .ok (t, reply, ns)) : Conserves s t := by
  simp only [handleUpdateMap, bind_eq_ok, Prod.exists] at updated
  obtain ⟨s', st, i, ns', mapped, _, _, updated⟩ := updated
  cases updated
  exact (handleAddMap_conserves fits mapped).trans (removemap_conserves rfl)

theorem open_conserves {reply : Opened} (opened : s.open env id flags = .ok (t, reply)) : Conserves s t := by
  rcases open_inv opened with ⟨rfl, -⟩ | ⟨f, g, bc, found, -, moved, rfl, -⟩ | ⟨d, -, rfl, -⟩
  · exact .refl
  · have set : Conserves s { s with files := s.files.insert id (.file g), bufferCache := bc } := by
      refine conserves_setFile (m := s.mem) found (File.openTrunc_moves moved) fun covered => ?_
      unfold File.openTrunc at moved
      split_ifs at moved
      · simp only [bind_eq_ok, Prod.exists] at moved
        obtain ⟨f'', bc'', st, truncated, moved⟩ := moved
        cases moved
        exact File.truncate_covered covered (by decide) truncated
      · cases moved
        exact covered
    exact set.trans (.of_files rfl rfl)
  · exact .of_files rfl rfl

theorem handleCreateOpen_conserves {reply : OpenReply}
    (absent : (s.lazyDir parent).newId ∉ (s.lazyDir parent).files)
    (fits : path = "stats" → env.stats.length < sizeMod ∧ ¬File.new.Lacks s.bufferCache env.stats.length)
    (created : s.handleCreateOpen env app parent path flags mode = .ok (t, reply)) : Conserves s t := by
  obtain ⟨u, st, made, created⟩ := handleCreateOpen_inv created
  obtain ⟨conserves, cache, -, new⟩ := create_conserves made absent
  rcases created with ⟨rfl, -⟩ | ⟨child, v, isChild, -, mapped, created⟩
  · exact conserves
  · have entered : Conserves s v := by
      unfold mapOpen at mapped
      split_ifs at mapped with ok
      · refine conserves.trans (mustAddMap_conserves (fun isStats f found => ?_) mapped)
        obtain ⟨x, is, found'⟩ := new (of_decide_eq_true ok)
        cases isChild.symm.trans is
        rw [found, Option.some.injEq] at found'
        split_ifs at found'
        cases found'
        rw [cache]
        exact fits isStats
      · obtain ⟨p, entry, -, -, rfl⟩ := appAddCache_inv mapped
        exact conserves.trans conserves_appAddLoc
    rcases created with ⟨-, rfl, -⟩ | ⟨-, opened⟩
    · exact entered
    · exact entered.trans (open_conserves opened)

end

theorem destroy_conserves (done : s.destroy id = (t, st)) : Conserves s t := by
  unfold destroy at done
  split at done <;> cases done
  · exact .refl
  · exact conserves_delete
  · exact conserves_removeInode

theorem unlink_conserves (done : s.unlink id = .ok (t, st)) : Conserves s t := by
  exact destroy_conserves (unlink_inv done).1

theorem handleUnlink_conserves {entry : Option (FileId × Name)} (done : s.handleUnlink app id entry = .ok (t, st, ns)) : Conserves s t := by
  rcases handleUnlink_inv done with ⟨parent, path, u, st', -, removal, ⟨-, unlinked⟩ | ⟨-, rfl, -⟩⟩ | ⟨-, unlinked, -⟩
  · exact (removemap_conserves removal).trans (unlink_conserves unlinked)
  · exact removemap_conserves removal
  · exact unlink_conserves unlinked

theorem rmdir_conserves {phase : RmdirPhase} (done : s.rmdir id phase = .ok (t, st)) : Conserves s t := by
  rcases rmdir_inv done with ⟨rfl, -⟩ | ⟨d, found, -, -, ⟨-, -, rfl⟩ | ⟨-, -, rfl⟩ | ⟨-, -, rfl⟩ | ⟨-, rfl⟩⟩
  · exact conserves_lazyDir
  · exact conserves_lazyDir.trans (conserves_setDir found)
  · exact conserves_lazyDir.trans (conserves_setDir found)
  · exact conserves_lazyDir.trans ((conserves_setDir found).trans conserves_removeInode)
  · exact conserves_lazyDir.trans conserves_removeInode

theorem handleRmdirAndMap_conserves (done : s.handleRmdirAndMap app id parent path = .ok (t, st, ns)) : Conserves s t := by
  obtain ⟨u, st', removed, ⟨-, unmapped⟩ | ⟨-, rfl, -, -⟩⟩ := handleRmdirAndMap_inv done
  · exact (rmdir_conserves removed).trans (removemap_conserves unmapped)
  · exact rmdir_conserves removed

theorem fileAt_eq {f : File} : s.fileAt id = some f ↔ s.files.lookup id = some (.file f) := by
  unfold fileAt
  split
  · next g found => simp [found]
  · next other =>
    constructor
    · intro is
      cases is
    · exact fun found => absurd found (other f)

theorem truncate_conserves {len : Nat} (small : len < sizeMod) (done : s.truncate id len = .ok (t, st)) : Conserves s t := by
  rcases truncate_inv done with ⟨rfl, -⟩ | ⟨f, g, bc, st', found, truncated, rfl, -⟩
  · exact .refl
  · exact conserves_setFile (m := s.mem) found (File.truncate_moves truncated) fun covered => File.truncate_covered covered small truncated

theorem readInode_conserves {count : Nat} {data : List UInt8} (done : s.readInode id offset count = .ok (t, st, n, data)) : Conserves s t := by
  rcases readInode_inv done with ⟨f, -, -, rfl, -⟩ | ⟨-, ⟨-, rfl, -, -, -⟩ | ⟨p, -, rfl, -, -⟩⟩
  · exact .refl
  · exact .refl
  · exact .of_files rfl rfl

theorem writeInode_conserves {buf : List UInt8}
    (fits : buf ≠ [] → ∀ f, s.files.lookup id = some (.file f) → offset + buf.length < sizeMod ∧ ¬f.Lacks s.bufferCache (offset + buf.length))
    (done : s.writeInode id offset buf = .ok (t, st, n)) : Conserves s t := by
  rcases writeInode_inv done with ⟨f, g, bc, m, k, found, written, rfl, -⟩ | ⟨-, ⟨-, rfl, -, -⟩ | ⟨p, -, rfl, -⟩⟩
  · exact conserves_setFile found (File.write_moves written) fun covered => File.write_covered covered (fun nonempty => fits nonempty f found) written
  · exact .refl
  · exact .of_files rfl rfl

theorem setFileSize_conserves {size : Nat} (fits : ∀ f, s.files.lookup id = some (.file f) → size ≤ blockSize * f.memoryBlocks.length)
    (set : s.setFileSize id size = .ok t) : Conserves s t := by
  obtain ⟨f, found, rfl⟩ := setFileSize_inv set
  exact conserves_setFile (m := s.mem) found (.of_all rfl) fun _ => fits f found

/-! ### Descriptors -/

section
variable {fd : Fd} {offset size : Option Nat}

theorem closePipe_conserves (closed : s.closePipe fd id = .ok t) : Conserves s t := by
  obtain ⟨p, q, -, -, -, rfl⟩ := closePipe_inv closed
  exact .of_files rfl rfl

theorem closeFile_conserves (fits : s.orphans.any (fun o => o.id = id) = false → ∀ n f, size = some n → s.files.lookup id = some (.file f) →
    n ≤ blockSize * f.memoryBlocks.length) (closed : s.closeFile fd id size = .ok t) : Conserves s t := by
  rcases closeFile_inv closed with ⟨-, closed⟩ | ⟨v, -, ⟨o, -, rfl⟩ | ⟨notOrphan, closed⟩⟩
  · exact closePipe_conserves closed
  · have forgotten : Conserves s { s with orphans := s.orphans.eraseP (·.id = id) } := .of_files rfl rfl
    exact forgotten.trans conserves_delete
  · have notOrphan : s.orphans.any (fun o => o.id = id) = false := by
      rw [List.find?_eq_none] at notOrphan
      rw [List.any_eq_false]
      exact notOrphan
    rcases closed with ⟨-, rfl⟩ | ⟨n, isSome, set⟩
    · exact .refl
    · exact setFileSize_conserves (fun f => fits notOrphan n f isSome) set

theorem size_of_fit {d : FileDescriptor} {f : File} (found : s.fds.lookup fd = some d) (foundF : s.files.lookup d.id = some (.file f))
    (notLast : s.lastOfOrphan d = false) (fits : ∀ e ∈ s.sizing (.close fd offset (some n)), e.2 ≤ blockSize * e.1.memoryBlocks.length) :
    n ≤ blockSize * f.memoryBlocks.length := by
  have mem : (f, n) ∈ s.sizing (.close fd offset (some n)) := by
    rw [sizing, found, Option.bind_some, if_neg (ne_true_of_eq_false notLast), fileAt_eq.mpr foundF]
    exact rfl
  exact fits (f, n) mem

theorem close_conserves (fits : ∀ e ∈ s.sizing (.close fd offset size), e.2 ≤ blockSize * e.1.memoryBlocks.length)
    (closed : s.close fd offset size = .ok t) : Conserves s t := by
  obtain ⟨d, d', found, rfl, ⟨-, u, last, rfl⟩ | ⟨more, shared⟩⟩ := close_inv closed
  · refine (closeFile_conserves (fun notOrphan n f isSome foundF => ?_) last).trans (.of_files rfl rfl)
    subst isSome
    have notLast : s.lastOfOrphan d = false := by rw [lastOfOrphan, notOrphan, Bool.and_false]
    exact size_of_fit found foundF notLast fits
  · have notLast : s.lastOfOrphan d = false := by rw [lastOfOrphan, decide_eq_false (Int.ne_of_gt more), Bool.false_and]
    rcases closeShared_inv shared with ⟨-, rfl⟩ | ⟨n, rfl, set⟩
    · exact .of_files rfl rfl
    · have moved : Conserves s { s with fds := s.fds.insert fd { d with count := sizeSub d.count 1, offset := offset.getD d.offset } } := .of_files rfl rfl
      exact moved.trans (setFileSize_conserves (fun f foundF => size_of_fit found foundF notLast fits) set)

end

/-! ### Requests -/

section
variable {cfg : Config}

theorem statsFit_of_fit {path : Name} {child : InodeType} {e : Option (File × Nat)}
    (is : e = if path = "stats" then (s.fileAt child.id).map fun f => (f, env.stats.length) else none)
    (fits : ∀ x ∈ e, x.2 < sizeMod ∧ ¬x.1.Lacks s.bufferCache x.2) : s.StatsFit env path child.id := by
  intro isStats f found
  refine fits (f, env.stats.length) ?_
  rw [is, if_pos isStats, fileAt_eq.mpr found]
  rfl

theorem handle_conserves {q : Request} {reply : q.Reply} (fit : s.Fit ⟨env, app, q⟩)
    (done : s.handle cfg env app q = .ok (t, reply, ns)) : Conserves s t := by
  cases q with
  | create parent path flags mode => exact handleCreate_conserves (fit.alloc _ rfl) (answered done)
  | destroy id =>
    cases done
    exact destroy_conserves rfl
  | addMap parent path child ow => exact handleAddMap_conserves (statsFit_of_fit rfl fit.grows) done
  | updateMap parent path child ow oldParent oldPath => exact handleUpdateMap_conserves (statsFit_of_fit rfl fit.grows) done
  | removeMap parent path => exact removemap_conserves (Except.ok.inj done)
  | pipe =>
    cases done
    exact .of_files rfl rfl
  | «open» id flags => exact open_conserves (handle_open_inv done)
  | createOpen parent path flags mode =>
    refine handleCreateOpen_conserves (fit.alloc _ rfl) (fun isStats => fit.grows (.new, env.stats.length) ?_) (answered done)
    exact if_pos isStats
  | read fd count =>
    obtain ⟨d, u, -, inode, rfl⟩ := read_inv (answered done)
    exact (readInode_conserves inode).trans (.of_files rfl rfl)
  | write fd data =>
    obtain ⟨d, u, found, written, rfl⟩ := write_inv (answered done)
    refine (writeInode_conserves (fun nonempty f foundF => fit.grows (f, d.offset + data.length) ?_) written).trans (.of_files rfl rfl)
    simp only [growing, nonempty, if_false, found, Option.bind_some, fileAt_eq.mpr foundF, Option.map_some, Option.mem_def]
  | lseek fd offset whence =>
    obtain ⟨d, f, -, -, -, rfl⟩ := lseek_inv (answered done)
    exact .of_files rfl rfl
  | close fd offset size => exact close_conserves fit.sizes (handle_close_inv done)
  | dup fd =>
    have dupped : s.dup fd = (t, reply) := by cases done; rfl
    rcases dup_inv dupped with ⟨rfl, -, -⟩ | ⟨d, i, -, rfl, -⟩
    · exact .refl
    · exact .of_files rfl rfl
  | unlink id entry => exact handleUnlink_conserves done
  | readlink id =>
    obtain rfl := (looked_up done).2
    exact .refl
  | rmdir id phase => exact rmdir_conserves (answered done)
  | rmdirAndMap id parent path => exact handleRmdirAndMap_conserves done
  | truncate id len => exact truncate_conserves (fit.small len rfl) (answered done)
  | resolve parent path => exact resolve_conserves (answered done)
  | symlink parent src dest =>
    cases done
    exact symlink_conserves rfl (fit.alloc _ rfl)
  | blocks id offset count =>
    obtain rfl := (looked_up done).2
    exact .refl
  | flush fd size offset =>
    rcases flush_inv (answered done) with ⟨-, rfl, -⟩ | ⟨d, found, set, -⟩
    · exact .refl
    · have moved : Conserves s { s with fds := s.fds.insert fd { d with offset } } := .of_files rfl rfl
      refine moved.trans (setFileSize_conserves (fun f foundF => fit.sizes (f, size) ?_) set)
      have isFile : s.fileAt d.id = some f := fileAt_eq.mpr foundF
      simp [sizing, found, isFile]

theorem Accounted.step {all : List Nat} {a : Act} (accounted : s.Accounted all) (fit : s.Fit a) (stepped : s.step cfg a = some t) :
    t.Accounted all := by
  unfold Server.step at stepped
  split at stepped
  · next handled =>
    cases stepped
    have conserves := handle_conserves fit handled
    exact ⟨conserves.held.trans accounted.conserved, conserves.held.nodup_iff.mpr accounted.once, conserves.covers accounted.covered⟩
  · cases stepped

theorem accounted_boot (nodup : bc.blocks.Nodup) (i : Nat) (m : Memory) : (boot i bc m).Accounted bc.blocks where
  conserved := by rw [held_boot]
  once := by rwa [held_boot]
  covered id f found := by
    unfold boot at found
    dsimp only at found
    split_ifs at found
    · by_cases isRoot : id = 0
      · subst isRoot
        cases found
      · rw [AList.lookup_eq_none.mpr (fun mem => isRoot (List.mem_singleton.mp mem))] at found
        cases found
    · cases found

/-- In every run of a booted server whose requests meet the condition, every block of the cache is in exactly one place and all files
    are covered. -/
theorem accounted_of_fit (cfg : Config) (bc : BufferCache) (nodup : bc.blocks.Nodup) {s : Server}
    (reach : Reach (fun s => ∃ i m, s = boot i bc m) Fit (step cfg) s) : s.Accounted bc.blocks := by
  have first : ∀ s, (∃ i m, s = boot i bc m) → s.Accounted bc.blocks := by
    rintro _ ⟨i, m, rfl⟩
    exact accounted_boot nodup i m
  have next : ∀ s t a, Accounted bc.blocks s → s.Fit a → s.step cfg a = some t → t.Accounted bc.blocks :=
    fun s t a accounted fit stepped => accounted.step fit stepped
  exact reach.invariant first next

def writeAndClose : List Act :=
  [createA, request 0 (.write 1 [7]), request 0 (.flush 1 1 1), request 2 (.open 2 { trunc := true }),
    request 0 (.close 2 none none), unlinkA, request 0 (.close 1 none (some 4096))]

theorem accounted_writeAndClose : ∃ s, Reach (fun s => ∃ i m, s = boot i ⟨0, [0, 4096], 2⟩ m) Fit (step oneServer) s ∧
    s.held = [0, 4096] ∧ s.Accounted [0, 4096] := by
  have guarded : Guarded Fit (step oneServer) (boot 0 ⟨0, [0, 4096], 2⟩ fun _ => 0) writeAndClose :=
    guarded_of_check (fun _ _ => of_decide_eq_true) _ (by decide +kernel)
  have ran : (run (step oneServer) (boot 0 ⟨0, [0, 4096], 2⟩ fun _ => 0) writeAndClose).map held = some [0, 4096] := by decide +kernel
  obtain ⟨s, ran, seen⟩ := Option.map_eq_some_iff.mp ran
  have reach : Reach (fun s => ∃ i m, s = boot i ⟨0, [0, 4096], 2⟩ m) Fit (step oneServer) s := .of_guarded (.init ⟨0, fun _ => 0, rfl⟩) guarded ran
  exact ⟨s, reach, seen, accounted_of_fit oneServer ⟨0, [0, 4096], 2⟩ (by decide) reach⟩

/-- A byte is written to a new file of a server without blocks. -/
theorem exists_not_covered : ∃ s f, Reach (fun s => ∃ i m, s = boot i ⟨0, [], 0⟩ m) (fun _ _ => True) (step oneServer) s ∧
    s.fileAt 2 = some f ∧ f.size = 1 ∧ f.memoryBlocks = [] ∧ ¬s.Accounted [] := by
  have ran : (run (step oneServer) booted [createA, request 0 (.write 1 [7])]).map (fun s => (s.fileAt 2).map fun f => (f.size, f.memoryBlocks)) =
      some (some (1, [])) := by decide +kernel
  obtain ⟨s, ran, seen⟩ := Option.map_eq_some_iff.mp ran
  obtain ⟨f, found, seen⟩ := Option.map_eq_some_iff.mp seen
  obtain ⟨size, blocks⟩ := Prod.mk.inj seen
  refine ⟨s, f, .of_run ⟨0, fun _ => 0, rfl⟩ ran, found, size, blocks, fun accounted => ?_⟩
  have covered := accounted.covered 2 f (fileAt_eq.mp found)
  rw [File.Covered, size, blocks] at covered
  exact absurd covered (by decide)

end
end Server
end Faux
