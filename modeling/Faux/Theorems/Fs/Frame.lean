import Faux.Theorems.Fs.Blocks
import Faux.Theorems.Fs.Inversion

/-! What the operations on the name space leave alone: descriptors, pipes and orphans are the same, no object
    is deleted, and blocks stay where they are or move from the free list into a file. -/

namespace Faux
open Lib
namespace Server

variable {s t u : Server} {env : Env} {app : AppId} {id parent x : FileId} {path : Name} {child : InodeType}
  {st : Status} {loc mode : Nat} {flags : Flags} {ns : List Notify} {d d' : Dir} {ow : Bool} {i : Option InodeType}
variable {new more : List FileId} {v w : VFile}

structure Grows (new : List FileId) (s t : Server) : Prop where
  id : t.id = s.id
  fds : t.fds = s.fds
  pipes : t.pipes = s.pipes
  orphans : t.orphans = s.orphans
  start : t.bufferCache.start = s.bufferCache.start
  old : ∀ x v, s.files.lookup x = some v → ∃ w, t.files.lookup x = some w ∧ v.Le w
  new : ∀ x ∈ t.files, x ∈ s.files ∨ x ∈ new
  held : t.held.Subperm s.held

theorem Grows.of_files (id : t.id = s.id) (fds : t.fds = s.fds) (pipes : t.pipes = s.pipes)
    (orphans : t.orphans = s.orphans) (cache : t.bufferCache = s.bufferCache) (files : t.files = s.files) :
    Grows [] s t where
  id; fds; pipes; orphans
  start := by rw [cache]
  old x v found := ⟨v, by rwa [files], .refl v⟩
  new x mem := .inl (files ▸ mem)
  held := by simp only [Server.held, cache, files]; exact .refl _

theorem Grows.refl : Grows [] s s := .of_files rfl rfl rfl rfl rfl rfl

theorem Grows.trans (first : Grows new s t) (second : Grows more t u) : Grows (new ++ more) s u where
  id := second.id.trans first.id
  fds := second.fds.trans first.fds
  pipes := second.pipes.trans first.pipes
  orphans := second.orphans.trans first.orphans
  start := second.start.trans first.start
  old x v found := by
    obtain ⟨v', found', le⟩ := first.old x v found
    obtain ⟨w, found'', le'⟩ := second.old x v' found'
    exact ⟨w, found'', le.trans le'⟩
  new x mem := by
    rcases second.new x mem with mem | mem
    · rcases first.new x mem with mem | mem
      · exact .inl mem
      · exact .inr (List.mem_append_left _ mem)
    · exact .inr (List.mem_append_right _ mem)
  held := second.held.trans first.held

theorem Grows.weaken (grows : Grows new s t) (sub : new ⊆ more) : Grows more s t :=
  { grows with new := fun x mem => (grows.new x mem).imp_right (sub ·) }

theorem Grows.mem (grows : Grows new s t) (mem : x ∈ s.files) : x ∈ t.files := by
  obtain ⟨v, found⟩ := mem_iff_lookup.mp mem
  obtain ⟨w, found', -⟩ := grows.old x v found
  exact mem_of_lookup found'

/-! ### Setting one object -/

theorem grows_set {bc : BufferCache} {m : Memory} (found : s.files.lookup id = some v) (le : v.Le w)
    (start : bc.start = s.bufferCache.start) (perm : (bc.blocks ++ w.blocks).Perm (s.bufferCache.blocks ++ v.blocks)) :
    Grows [] s { s with files := s.files.insert id w, bufferCache := bc, mem := m, nextLoc := loc } where
  id := rfl
  fds := rfl
  pipes := rfl
  orphans := rfl
  start := start
  old x v' found' := by
    by_cases same : x = id
    · subst same
      obtain rfl : v = v' := Option.some.inj (found.symm.trans found')
      exact ⟨w, AList.lookup_insert _, le⟩
    · exact ⟨v', (AList.lookup_insert_ne same).trans found', .refl v'⟩
  new x mem := by
    rcases (AList.mem_insert _).mp mem with rfl | mem
    · exact .inl (mem_of_lookup found)
    · exact .inl mem
  held := by
    refine List.Perm.subperm ?_
    simp only [held, fileBlocks_insert]
    rw [← List.append_assoc]
    refine (perm.append_right _).trans ?_
    rw [List.append_assoc]
    exact (fileBlocks_erase found).append_left _

theorem grows_setFile {f g : File} {bc : BufferCache} {m : Memory} (found : s.files.lookup id = some (.file f))
    (moves : File.Moves f s.bufferCache g bc) :
    Grows [] s { s with files := s.files.insert id (.file g), bufferCache := bc, mem := m } :=
  grows_set found moves.kept moves.start moves.perm

theorem grows_setDir (found : s.files.lookup id = some (.dir d)) :
    Grows [] s { s with files := s.files.insert id (.dir d'), nextLoc := loc } :=
  grows_set (m := s.mem) found trivial rfl (List.Perm.refl _)

theorem grows_new {seq : Nat} (absent : id ∉ s.files) (empty : v.blocks = []) :
    Grows [id] s { s with files := s.files.insert id v, inodeSeq := seq } where
  id := rfl
  fds := rfl
  pipes := rfl
  orphans := rfl
  start := rfl
  old x v' found := by
    have ne : x ≠ id := fun same => absent (same ▸ mem_of_lookup found)
    exact ⟨v', (AList.lookup_insert_ne ne).trans found, .refl v'⟩
  new x mem := by
    rcases (AList.mem_insert _).mp mem with rfl | mem
    · exact .inr (List.mem_singleton.mpr rfl)
    · exact .inl mem
  held := by
    simp only [held, fileBlocks_insert, empty, List.nil_append]
    exact (List.subperm_append_left _).mpr (fileBlocks_erase_subperm _)

theorem grows_lazyDir : Grows [id] s (s.lazyDir id) := by
  unfold lazyDir
  split
  · exact Grows.refl.weaken (by simp)
  · next absent => exact grows_new (AList.lookup_eq_none.mp absent) rfl

theorem mem_lazyDir : id ∈ (s.lazyDir id).files := by
  unfold lazyDir
  split
  · next found => exact mem_of_lookup found
  · exact (AList.mem_insert _).mpr (.inl rfl)

theorem lazyDir_of_mem (mem : id ∈ s.files) : s.lazyDir id = s := by
  obtain ⟨v, found⟩ := mem_iff_lookup.mp mem
  simp [lazyDir, found]

theorem grows_appAddLoc : Grows [] s (s.appAddLoc app loc) := by
  unfold appAddLoc
  split
  · exact .refl
  · exact .of_files rfl rfl rfl rfl rfl rfl

theorem grows_addChild (found : s.files.lookup id = some (.dir d)) :
    Grows [] s (s.addChild id d' path child) := grows_setDir found

theorem grows_addEntry (found : s.files.lookup parent = some (.dir d)) :
    Grows [] s (s.addEntry app parent d' path child) := by
  unfold addEntry
  split_ifs
  · exact grows_addChild found
  · exact (grows_addChild found).trans grows_appAddLoc

theorem updateStatFile_grows (updated : s.updateStatFile env id = .ok t) : Grows [] s t := by
  obtain ⟨f, f', bc', st, g, bc, m, n, found, truncated, written, rfl⟩ := updateStatFile_inv updated
  exact grows_setFile found ((File.truncate_moves truncated).trans (File.write_moves written))

theorem noteStats_grows (noted : s.noteStats env path id = .ok t) : Grows [] s t := by
  rcases noteStats_inv noted with ⟨-, updated⟩ | ⟨-, rfl⟩
  · exact updateStatFile_grows updated
  · exact .refl

theorem addmap_grows {i : InodeType}
    (added : s.addmap env app parent path child ow = .ok (t, st, i, ns)) : Grows [parent] s t := by
  obtain ⟨s', p, noted, found, added⟩ := addmap_inv added
  have lazy : Grows [parent] s (s'.lazyDir parent) := (noteStats_grows noted).trans grows_lazyDir
  rcases added with ⟨entry, -, -, -, ⟨-, rfl, -⟩ | ⟨-, rfl, -⟩⟩ | ⟨-, -, -, rfl, -⟩
  · have forgotten : Grows [parent] s ((s'.lazyDir parent).appRemoveCache app entry).1 :=
      lazy.trans (.of_files rfl rfl rfl rfl rfl rfl)
    exact forgotten.trans (grows_addEntry found)
  · exact lazy
  · exact lazy.trans (grows_addEntry found)

theorem removemap_grows (removed : s.removemap app parent path = (t, st, ns)) :
    Grows [] s t := by
  rcases removemap_inv removed with ⟨rfl, -, -⟩ | ⟨p, entry, u, found, -, ⟨-, rfl, -⟩ | ⟨-, rfl, -⟩, rfl, -⟩
  · exact .refl
  · exact grows_setDir found
  · have forgotten : Grows [] s (s.appRemoveCache app entry).1 := .of_files rfl rfl rfl rfl rfl rfl
    exact forgotten.trans (grows_setDir found)

theorem resolve_grows (resolved : s.resolve app parent path = .ok (t, st, i)) :
    Grows [] s t := by
  rcases resolve_inv resolved with ⟨-, ⟨rfl, -, -⟩ | ⟨p, entry, -, -, rfl, -, -⟩⟩
  · exact .refl
  · exact grows_appAddLoc

theorem appAddCache_grows (added : s.appAddCache app parent path = .ok t) : Grows [] s t := by
  obtain ⟨p, entry, -, -, rfl⟩ := appAddCache_inv added
  exact grows_appAddLoc

theorem create_grows
    (created : s.create parent path flags mode = .ok (t, st, i))
    (absent : (s.lazyDir parent).newId ∉ (s.lazyDir parent).files) :
    Grows [parent, (s.lazyDir parent).newId] s t := by
  have lazy : Grows [parent, (s.lazyDir parent).newId] s (s.lazyDir parent) := grows_lazyDir.weaken (by simp)
  rcases create_inv created with ⟨p, -, -, ⟨entry, -, rfl, -, -⟩ | ⟨v, -, isNew, rfl, -, -⟩⟩ | ⟨-, rfl, -, -⟩
  · exact lazy
  · refine grows_lazyDir.trans (grows_new absent ?_)
    rw [isNew]
    split_ifs <;> rfl
  · exact lazy

theorem symlink_grows {src dest : Name} (linked : s.symlink parent src dest = (t, st))
    (absent : (s.lazyDir parent).newId ∉ (s.lazyDir parent).files) :
    Grows [parent, (s.lazyDir parent).newId] s t := by
  have lazy : Grows [parent, (s.lazyDir parent).newId] s (s.lazyDir parent) := grows_lazyDir.weaken (by simp)
  simp only [symlink] at linked
  split at linked
  · next p found =>
    split at linked
    · cases linked
      exact lazy
    · cases linked
      have ne : parent ≠ (s.lazyDir parent).newId := fun same => absent (same ▸ mem_of_lookup found)
      refine grows_lazyDir.trans ((grows_new absent rfl).trans (grows_addChild (d := p) ?_))
      exact (AList.lookup_insert_ne ne).trans found
  · cases linked
    exact lazy

/-! ### Handlers -/

section
variable {cfg : Config}

theorem mustAddMap_grows (added : s.mustAddMap env app parent path child = .ok t) : Grows [parent] s t := by
  obtain ⟨i, ns, mapped⟩ := mustAddMap_inv added
  exact addmap_grows mapped

theorem mapIf_grows {c : Bool} (added : s.mapIf env app c parent path child = .ok t) : Grows [parent] s t := by
  unfold mapIf at added
  split_ifs at added
  · exact mustAddMap_grows added
  · cases added
    exact Grows.refl.weaken (by simp)

theorem mapDir_grows {parent : InodeType} (added : s.mapDir cfg env app parent path child = .ok t) :
    Grows [parent.id, child.id] s t := by
  simp only [mapDir, bind_eq_ok] at added
  obtain ⟨_, _, s', first, second⟩ := added
  exact (mapIf_grows first).trans (mapIf_grows second)

theorem mapOpen_grows {c : Bool} (added : s.mapOpen env app c parent path child = .ok t) : Grows [parent] s t := by
  unfold mapOpen at added
  split_ifs at added
  · exact mustAddMap_grows added
  · exact (appAddCache_grows added).weaken (by simp)

theorem create_id {i : InodeType}
    (created : s.create parent path flags mode = .ok (t, .ok, some i)) : i.id = (s.lazyDir parent).newId := by
  rcases create_inv created with ⟨p, -, -, ⟨entry, -, -, ok, -⟩ | ⟨v, -, -, -, -, is⟩⟩ | ⟨-, -, -, none⟩
  · split_ifs at ok
    · exact absurd ok (by decide)
    · exact absurd ok (by decide)
  · cases is
    rfl
  · cases none

theorem handleCreate_grows {parent : InodeType}
    (created : s.handleCreate cfg env app parent path flags mode = .ok (t, st, i))
    (absent : (s.lazyDir parent.id).newId ∉ (s.lazyDir parent.id).files) :
    Grows [parent.id, (s.lazyDir parent.id).newId] s t := by
  obtain ⟨u, made, created⟩ := handleCreate_inv created
  have grows := create_grows made absent
  rcases created with rfl | ⟨child, rfl, rfl, -, mapped⟩
  · exact grows
  · refine (grows.trans (mapDir_grows mapped)).weaken ?_
    simp [create_id made]

theorem handleAddMap_grows {reply : Status × InodeType}
    (added : s.handleAddMap env app parent path child ow = .ok (t, reply, ns)) : Grows [parent] s t :=
  addmap_grows (handleAddMap_inv added)

theorem handleUpdateMap_grows {reply : Status × InodeType} {oldParent : FileId}
    {oldPath : Name} (updated : s.handleUpdateMap env app parent path child ow oldParent oldPath = .ok (t, reply, ns)) :
    Grows [parent] s t := by
  simp only [handleUpdateMap, bind_eq_ok, Prod.exists] at updated
  obtain ⟨s', st, i, ns', mapped, _, _, updated⟩ := updated
  cases updated
  exact (handleAddMap_grows mapped).trans (removemap_grows rfl)

end
end Server
end Faux
