import Faux.Theorems.Fs.Survive

/-! Every request keeps the invariant of the descriptors, one operation after the other. -/

namespace Faux
open Lib
namespace Server

variable {s t : Server} {env : Env} {app : AppId} {id : FileId} {fd : Fd} {d : FileDescriptor} {offset n : Nat}
  {parent : FileId} {ns : List Notify}
variable {cfg : Config} {st : Status}

theorem truncate_later {len : Nat} (inv : Inv s) (truncated : s.truncate id len = .ok (t, st)) : Later s t := by
  rcases truncate_inv truncated with ⟨rfl, -⟩ | ⟨f, g, bc, st', found, moved, rfl, -⟩
  · exact .refl inv
  · exact later_grows inv (grows_setFile (m := s.mem) found (File.truncate_moves moved)) (by simp)

theorem setFileSize_grows {size : Nat} (set : s.setFileSize id size = .ok t) : Grows [] s t := by
  obtain ⟨f, found, rfl⟩ := setFileSize_inv set
  exact grows_setFile (m := s.mem) found (.of_all rfl)

theorem open_later {flags : Flags} {reply : Opened} (inv : Inv s) (absent : env.rand ∉ s.fds)
    (opened : s.open env id flags = .ok (t, reply)) : Later s t := by
  rcases open_inv opened with ⟨rfl, -⟩ | ⟨f, g, bc, found, -, moved, rfl, -⟩ | ⟨d, found, rfl, -⟩
  · exact .refl inv
  · have set := later_grows inv (grows_setFile (m := s.mem) found (File.openTrunc_moves moved)) (by simp)
    refine set.trans (later_addFd set.inv absent (.inl ⟨.file g, AList.lookup_insert _, ?_⟩))
    simp
  · exact later_addFd inv absent (.inl ⟨.dir d, found, by simp⟩)

theorem pipeRead_ends (p : Pipe) (count : Nat) :
    (p.read count).1.readFd = p.readFd ∧ (p.read count).1.writeFd = p.writeFd := by
  unfold Pipe.read
  split
  · exact ⟨rfl, rfl⟩
  · split <;> exact ⟨rfl, rfl⟩

theorem readInode_later {count : Nat} {data : List UInt8} (inv : Inv s)
    (done : s.readInode id offset count = .ok (t, st, n, data)) : Later s t ∧ t.fds = s.fds := by
  rcases readInode_inv done with ⟨f, -, -, rfl, -⟩ | ⟨-, ⟨-, rfl, -, -, -⟩ | ⟨p, found, rfl, -, -⟩⟩
  · exact ⟨.refl inv, rfl⟩
  · exact ⟨.refl inv, rfl⟩
  · obtain ⟨reads, writes⟩ := pipeRead_ends p count
    exact ⟨later_setPipe inv found reads writes, rfl⟩

theorem writeInode_later {buf : List UInt8} (inv : Inv s)
    (done : s.writeInode id offset buf = .ok (t, st, n)) : Later s t ∧ t.fds = s.fds := by
  rcases writeInode_inv done with ⟨f, g, bc, m, k, found, moved, rfl, -⟩ | ⟨-, ⟨-, rfl, -, -⟩ | ⟨p, found, rfl, -⟩⟩
  · exact ⟨later_grows inv (grows_setFile found (File.write_moves moved)) (by simp), rfl⟩
  · exact ⟨.refl inv, rfl⟩
  · exact ⟨later_setPipe inv found rfl rfl, rfl⟩

/-! ### Descriptors -/

theorem later_seek (offset : Nat) (inv : Inv s) (found : s.fds.lookup fd = some d) :
    Later s { s with fds := s.fds.insert fd { d with offset } } :=
  later_setFd inv found rfl le_rfl (inv.counted fd d found).2

theorem read_later {count : Nat} {data : List UInt8} (inv : Inv s) (done : s.read fd count = .ok (t, st, n, data)) :
    Later s t := by
  obtain ⟨d, u, found, moved, rfl⟩ := read_inv done
  obtain ⟨later, fds⟩ := readInode_later inv moved
  refine later.trans (later_seek _ later.inv ?_)
  rwa [fds]

theorem write_later {buf : List UInt8} (inv : Inv s) (done : s.write fd buf = .ok (t, st, n)) : Later s t := by
  obtain ⟨d, u, found, moved, rfl⟩ := write_inv done
  obtain ⟨later, fds⟩ := writeInode_later inv moved
  refine later.trans (later_seek _ later.inv ?_)
  rwa [fds]

theorem lseek_later {whence : Whence} (inv : Inv s) (done : s.lseek fd offset whence = .ok (t, n)) :
    Later s t := by
  obtain ⟨d, f, found, -, -, rfl⟩ := lseek_inv done
  exact later_seek _ inv found

theorem flush_later {size : Nat} (inv : Inv s) (done : s.flush fd size offset = .ok (t, st)) : Later s t := by
  rcases flush_inv done with ⟨-, rfl, -⟩ | ⟨d, found, set, -⟩
  · exact .refl inv
  · have moved := later_seek offset inv found
    exact moved.trans (later_grows moved.inv (setFileSize_grows set) (by simp))

theorem dup_cases : (s.dup fd).1 = s ∨
    ∃ d, s.fds.lookup fd = some d ∧ (s.dup fd).1 = { s with fds := s.fds.insert fd { d with count := d.count + 1 } } := by
  rcases @dup_inv s _ fd _ rfl with ⟨same, -, -⟩ | ⟨d, i, found, same, -⟩
  · exact .inl same
  · exact .inr ⟨d, found, same⟩

theorem dup_later {reply : Status × Option (Inode × FileType × Nat)} (inv : Inv s)
    (small : ∀ d, s.fds.lookup fd = some d → d.count + 1 < 2147483648) (done : s.dup fd = (t, reply)) : Later s t := by
  rcases dup_inv done with ⟨rfl, -, -⟩ | ⟨d, i, found, rfl, -⟩
  · exact .refl inv
  · exact later_setFd inv found rfl (Nat.le_succ _) (small d found)

theorem pipe_later {reply : Fd × Fd × Inode} (inv : Inv s) (unused : s.Unused s.newId) (distinct : env.rand ≠ env.rand')
    (absent : env.rand ∉ s.fds) (absent' : env.rand' ∉ s.fds) (nonzero : env.rand ≠ 0) (nonzero' : env.rand' ≠ 0)
    (done : s.pipe env = (t, reply)) : Later s t := by
  cases done
  set s' : Server :=
    { s with pipes := s.pipes.insert s.newId { size := 0, readFd := env.rand, writeFd := env.rand' },
             inodeSeq := s.inodeSeq + 1 } with hs'
  have found : s'.pipes.lookup s.newId = some { size := 0, readFd := env.rand, writeFd := env.rand' } :=
    AList.lookup_insert _
  have made : Later s s' := by
    refine ⟨⟨inv.counted, ?_, ?_, inv.orphaned⟩, rfl, rfl, fun _ d found => ⟨d, found, rfl, le_rfl⟩,
      fun _ orphan => orphan, fun _ v _ found => ⟨v, found, .refl v⟩, .refl _⟩
    · intro fd d foundD
      rcases inv.present fd d foundD with file | ⟨q, foundQ, ends⟩
      · exact .inl file
      · have ne : d.id ≠ s.newId := fun same => unused.1 (.inr (same ▸ mem_of_lookup foundQ))
        exact .inr ⟨q, (AList.lookup_insert_ne ne).trans foundQ, ends⟩
    · intro x mem
      rcases (AList.mem_insert _).mp mem with rfl | mem
      · exact ⟨fun mem => unused.1 (.inl mem), unused.2⟩
      · exact inv.apart x mem
  have first : Later s' (s'.addFd env.rand s.newId 0) :=
    later_addFd made.inv absent (.inr ⟨_, found, nonzero, .inl rfl⟩)
  refine (made.trans first).trans (later_addFd first.inv ?_ (.inr ⟨_, found, nonzero', .inr rfl⟩))
  intro mem
  rcases (AList.mem_insert _).mp mem with same | mem
  · exact distinct same.symm
  · exact absent' mem

/-! ### Removal -/

theorem destroy_later (inv : Inv s) (dead : ∀ dir, s.files.lookup id = some (.dir dir) → ¬s.Live id)
    (done : s.destroy id = (t, st)) : Later s t := by
  unfold destroy at done
  split at done
  · cases done
    exact .refl inv
  · next dir found =>
    cases done
    exact later_delete inv (dead dir found)
  · next found =>
    cases done
    exact later_removeInode inv (mem_of_lookup found)

theorem unlink_later (inv : Inv s) (done : s.unlink id = .ok (t, st)) : Later s t := by
  obtain ⟨destroyed, noDir⟩ := unlink_inv done
  exact destroy_later inv (fun d found => absurd found (noDir d)) destroyed

theorem later_removeDir {dir dir' : Dir} (inv : Inv s) (found : s.files.lookup id = some (.dir dir)) :
    Later s (Server.removeInode { s with files := s.files.insert id (.dir dir') } id (VFile.dir dir').type) := by
  have set : Later s { s with files := s.files.insert id (.dir dir') } := later_grows inv (grows_setDir found) (by simp)
  exact set.trans (later_removeInode set.inv ((AList.mem_insert _).mpr (.inl rfl)))

theorem rmdir_later {phase : RmdirPhase} (inv : Inv s) (lazy : id ∉ s.files → s.Unused id)
    (done : s.rmdir id phase = .ok (t, st)) : Later s t := by
  have start : Later s (s.lazyDir id) := later_grows inv grows_lazyDir fun x mem => by
    rw [List.mem_singleton.mp mem]
    exact or_iff_not_imp_left.mpr lazy
  refine start.trans ?_
  rcases rmdir_inv done with ⟨rfl, -⟩ | ⟨dir, found, -, -, ⟨-, -, rfl⟩ | ⟨-, -, rfl⟩ | ⟨-, -, rfl⟩ | ⟨-, rfl⟩⟩
  · exact .refl start.inv
  · exact later_grows start.inv (grows_setDir found) (by simp)
  · exact later_grows start.inv (grows_setDir found) (by simp)
  · exact later_removeDir start.inv found
  · exact later_removeInode start.inv (mem_of_lookup found)

theorem handleUnlink_later {entry : Option (FileId × Name)} (inv : Inv s)
    (done : s.handleUnlink app id entry = .ok (t, st, ns)) : Later s t := by
  rcases handleUnlink_inv done with ⟨parent, path, u, st', -, removal, unlinked⟩ | ⟨-, unlinked, -⟩
  · have removed : Later s u := later_grows inv (removemap_grows removal) (by simp)
    rcases unlinked with ⟨-, unlinked⟩ | ⟨-, rfl, -⟩
    · exact removed.trans (unlink_later removed.inv unlinked)
    · exact removed
  · exact unlink_later inv unlinked

theorem handleRmdirAndMap_later {path : Name} (inv : Inv s)
    (lazy : id ∉ s.files → s.Unused id) (done : s.handleRmdirAndMap app id parent path = .ok (t, st, ns)) : Later s t := by
  obtain ⟨u, st', removed, done⟩ := handleRmdirAndMap_inv done
  have later := rmdir_later inv lazy removed
  rcases done with ⟨-, unmapped⟩ | ⟨-, rfl, -, -⟩
  · exact later.trans (later_grows later.inv (removemap_grows unmapped) (by simp))
  · exact later

theorem create_fresh (lazy : parent ∉ s.files → s.Unused parent)
    (alloc : (s.lazyDir parent).Unused (s.lazyDir parent).newId) :
    ∀ x ∈ [parent, (s.lazyDir parent).newId], x ∈ s.files ∨ s.Unused x := by
  have grows : Grows [parent] s (s.lazyDir parent) := grows_lazyDir
  intro x mem
  rcases List.mem_pair.mp mem with rfl | rfl
  · exact or_iff_not_imp_left.mpr lazy
  · refine .inr ⟨fun present => alloc.1 ?_, fun orphan => alloc.2 ?_⟩
    · rw [Present, grows.pipes]
      exact present.imp_left grows.mem
    · rwa [Orphan, grows.orphans]

theorem handleCreateOpen_later {path : Name} {flags : Flags} {mode : Nat} {reply : OpenReply}
    (inv : Inv s) (lazy : parent ∉ s.files → s.Unused parent) (alloc : (s.lazyDir parent).Unused (s.lazyDir parent).newId)
    (absent : env.rand ∉ s.fds) (done : s.handleCreateOpen env app parent path flags mode = .ok (t, reply)) :
    Later s t := by
  obtain ⟨u, st', created, done⟩ := handleCreateOpen_inv done
  have grows := create_grows created fun mem => alloc.1 (.inl mem)
  have fresh := create_fresh lazy alloc
  rcases done with ⟨rfl, -⟩ | ⟨child, v, -, -, mapped, done⟩
  · exact later_grows inv grows fresh
  · have grows' : Grows [parent, (s.lazyDir parent).newId] s v :=
      (grows.trans (mapOpen_grows mapped)).weaken (by simp)
    have later : Later s v := later_grows inv grows' fresh
    rcases done with ⟨-, rfl, -⟩ | ⟨-, opened⟩
    · exact later
    · refine later.trans (open_later later.inv ?_ opened)
      rwa [grows'.fds]

/-! ### All requests -/

/-- Every request but a close keeps the descriptors, the orphans and the files that descriptors refer to. -/
theorem handle_later {q : Request} {reply : q.Reply} (inv : Inv s) (guard : Guard s ⟨env, app, q⟩)
    (notClose : ∀ fd offset size, q ≠ .close fd offset size) (done : s.handle cfg env app q = .ok (t, reply, ns)) :
    Later s t := by
  obtain ⟨fds, pipeFds, lazy, alloc, dup, destroy, -, -⟩ := guard
  have lazyNew : ∀ parent, lazyId q = some parent → parent ∉ s.files → s.Unused parent := lazy
  have fresh : ∀ parent, lazyId q = some parent → ∀ x ∈ [parent], x ∈ s.files ∨ s.Unused x := fun parent eq x mem => by
    rw [List.mem_singleton.mp mem]
    exact or_iff_not_imp_left.mpr (lazyNew parent eq)
  cases q with
  | create parent path flags mode =>
    have unused := alloc _ rfl
    exact later_grows inv (handleCreate_grows (answered done) fun mem => unused.1 (.inl mem))
      (create_fresh (lazyNew _ rfl) unused)
  | destroy id =>
    cases done
    exact destroy_later inv (fun dir found => destroy id dir rfl found) rfl
  | addMap parent path child ow =>
    exact later_grows inv (handleAddMap_grows done) (fresh _ rfl)
  | updateMap parent path child ow oldParent oldPath =>
    exact later_grows inv (handleUpdateMap_grows done) (fresh _ rfl)
  | removeMap parent path => exact later_grows inv (removemap_grows (Except.ok.inj done)) (by simp)
  | pipe =>
    cases done
    obtain ⟨nonzero, nonzero'⟩ := pipeFds rfl
    obtain ⟨distinct, absent⟩ := fds
    refine pipe_later inv (alloc s rfl) ?_ (absent _ ?_) (absent _ ?_) nonzero nonzero' rfl
    · simpa [newFds] using distinct
    · simp [newFds]
    · simp [newFds]
  | «open» id flags => exact open_later inv (fds.2 _ (List.mem_singleton.mpr rfl)) (handle_open_inv done)
  | createOpen parent path flags mode =>
    exact handleCreateOpen_later inv (lazyNew _ rfl) (alloc _ rfl) (fds.2 _ (List.mem_singleton.mpr rfl)) (answered done)
  | read fd count => exact read_later inv (answered done)
  | write fd data => exact write_later inv (answered done)
  | lseek fd offset whence => exact lseek_later inv (answered done)
  | close fd offset size => exact absurd rfl (notClose fd offset size)
  | dup fd =>
    cases done
    exact dup_later inv (fun d found => dup fd d rfl found) rfl
  | unlink id entry => exact handleUnlink_later inv done
  | readlink id =>
    obtain rfl := (looked_up done).2
    exact .refl inv
  | rmdir id phase => exact rmdir_later inv (lazyNew _ rfl) (answered done)
  | rmdirAndMap id parent path => exact handleRmdirAndMap_later inv (lazyNew _ rfl) done
  | truncate id len => exact truncate_later inv (answered done)
  | resolve parent path => exact later_grows inv (resolve_grows (answered done)) (by simp)
  | symlink parent src dest =>
    cases done
    have unused := alloc _ rfl
    exact later_grows inv (symlink_grows rfl fun mem => unused.1 (.inl mem)) (create_fresh (lazyNew _ rfl) unused)
  | blocks id offset count =>
    obtain rfl := (looked_up done).2
    exact .refl inv
  | flush fd size offset => exact flush_later inv (answered done)

end Server
end Faux
