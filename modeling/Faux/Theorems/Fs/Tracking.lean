import Faux.Fs.Tracking
import Faux.Theorems.Fs.Notify

/-! The tracking sets of a server. Handlers take an entry out of every set before they free it, except when a directory is deleted with its
    entries and when `..` is removed. The keys stay valid as long as no channel structure that is a key is moved. -/

namespace Faux
open Function Lib

namespace Server
variable {s t u : Server} {env : Env} {app : AppId} {id p : FileId} {path : Name} {child : InodeType} {loc : Nat}
  {d d' : Dir} {v : VFile} {notes : List Notify} {st : Status} {flags : Flags} {mode : Nat} {i : Option InodeType}

/-! ### Stored entries -/

def Stored (s : Server) (loc : Nat) : Prop :=
  ∃ p d name entry, s.files.lookup p = some (.dir d) ∧ d.children.lookup name = some entry ∧ entry.loc = loc

theorem mem_locs : loc ∈ s.locs ↔ s.Stored loc := by
  simp only [locs, List.mem_flatMap]
  constructor
  · rintro ⟨⟨p, v⟩, mem, mem'⟩
    cases v with
    | dir d =>
      obtain ⟨⟨name, entry⟩, mem'', rfl⟩ := List.mem_map.mp mem'
      exact ⟨p, d, name, entry, AList.mem_lookup_iff.mpr mem, AList.mem_lookup_iff.mpr mem'', rfl⟩
    | file f => exact absurd mem' List.not_mem_nil
    | symlink dest => exact absurd mem' List.not_mem_nil
  · rintro ⟨p, d, name, entry, found, isEntry, rfl⟩
    exact ⟨⟨p, .dir d⟩, AList.mem_lookup_iff.mp found, List.mem_map.mpr ⟨⟨name, entry⟩, AList.mem_lookup_iff.mp isEntry, rfl⟩⟩

/-- What a handler does to the tracking sets: it gives entries to the requester alone, and if all tracked entries
    were stored they still are. -/
structure Tracks (app : AppId) (s t : Server) : Prop where
  gives : Gives app s t
  stored : (∀ x ∈ s.apps, s.Stored x.2) → ∀ x ∈ t.apps, t.Stored x.2

namespace Tracks

theorem trans (first : Tracks app s t) (second : Tracks app t u) : Tracks app s u :=
  ⟨first.gives.trans second.gives, fun all => second.stored (first.stored all)⟩

theorem of_files (apps : t.apps = s.apps) (files : t.files = s.files) : Tracks app s t := by
  refine ⟨.of_apps apps, fun all x mem => ?_⟩
  obtain ⟨p, d, name, entry, found, isEntry⟩ := all x (apps ▸ mem)
  exact ⟨p, d, name, entry, files ▸ found, isEntry⟩

theorem refl : Tracks app s s := .of_files rfl rfl

theorem insert (noDir : ∀ d, s.files.lookup id ≠ some (.dir d)) (apps : t.apps = s.apps)
    (files : t.files = s.files.insert id v) : Tracks app s t := by
  refine ⟨.of_apps apps, fun all x mem => ?_⟩
  obtain ⟨p, d, name, entry, found, isEntry⟩ := all x (apps ▸ mem)
  have other : p ≠ id := fun same => noDir d (same ▸ found)
  exact ⟨p, d, name, entry, by rw [files, AList.lookup_insert_ne other]; exact found, isEntry⟩

theorem setDir (found : s.files.lookup id = some (.dir d)) (files : t.files = s.files.insert id (.dir d'))
    (gives : Gives app s t)
    (kept : ∀ name entry a, d.children.lookup name = some entry → (a, entry.loc) ∈ t.apps →
      ∃ name' entry', d'.children.lookup name' = some entry' ∧ entry'.loc = entry.loc)
    (new : ∀ x ∈ t.apps, x ∈ s.apps ∨ ∃ name entry, d'.children.lookup name = some entry ∧ entry.loc = x.2) :
    Tracks app s t := by
  have here : t.files.lookup id = some (.dir d') := by rw [files, AList.lookup_insert]
  refine ⟨gives, fun all x mem => ?_⟩
  rcases new x mem with old | ⟨name, entry, isEntry⟩
  · obtain ⟨p, e, name, entry, foundP, isEntry, isLoc⟩ := all x old
    by_cases same : p = id
    · subst same
      cases found.symm.trans foundP
      obtain ⟨name', entry', isEntry', isLoc'⟩ := kept name entry x.1 isEntry (isLoc ▸ mem)
      exact ⟨p, d', name', entry', here, isEntry', isLoc'.trans isLoc⟩
    · exact ⟨p, e, name, entry, by rw [files, AList.lookup_insert_ne same]; exact foundP, isEntry, isLoc⟩
  · exact ⟨id, d', name, entry, here, isEntry⟩

theorem setSame (found : s.files.lookup id = some (.dir d)) (files : t.files = s.files.insert id (.dir d'))
    (apps : t.apps = s.apps) (same : d'.children = d.children) : Tracks app s t :=
  setDir found files (.of_apps apps) (fun name entry _ isEntry _ => ⟨name, entry, same ▸ isEntry, rfl⟩) fun _ mem => .inl (apps ▸ mem)

theorem appAddLoc (stored : s.Stored loc) : Tracks app s (s.appAddLoc app loc) := by
  refine ⟨appAddLoc_gives, fun all x mem => ?_⟩
  unfold Server.appAddLoc at mem ⊢
  split_ifs at mem ⊢
  · exact all x mem
  · rcases List.mem_cons.mp mem with rfl | mem
    · exact stored
    · exact all x mem

theorem delete (untracked : s.Untracked id) : Tracks app s (s.delete id) := by
  have files : (s.delete id).files = s.files.erase id := by
    unfold Server.delete
    split <;> rfl
  refine ⟨.of_apps delete_apps, fun all x mem => ?_⟩
  rw [delete_apps] at mem
  obtain ⟨p, d, name, entry, found, isEntry, isLoc⟩ := all x mem
  have other : p ≠ id := by
    rintro rfl
    exact untracked d name entry x.1 found isEntry (isLoc ▸ mem)
  exact ⟨p, d, name, entry, by rw [files, AList.lookup_erase_ne other]; exact found, isEntry, isLoc⟩

theorem removeInode {type : FileType} (untracked : s.Untracked id) : Tracks app s (s.removeInode id type) := by
  unfold Server.removeInode
  split_ifs
  · exact .of_files rfl rfl
  · exact delete untracked

theorem lazyDir : Tracks app s (s.lazyDir id) := by
  unfold Server.lazyDir
  split
  · exact refl
  · next absent =>
    have noDir : ∀ d, s.files.lookup id ≠ some (.dir d) := fun d found => by cases absent.symm.trans found
    exact insert noDir rfl rfl

end Tracks

/-! ### Handlers -/

theorem untracked_of_noDir (noDir : ∀ d, s.files.lookup id ≠ some (.dir d)) : s.Untracked id :=
  fun d _ _ _ found _ => absurd found (noDir d)

theorem Untracked.lazyDir (untracked : s.Untracked id) : (s.lazyDir p).Untracked id := by
  unfold Server.lazyDir
  split
  · exact untracked
  · intro d name entry a found isEntry
    rcases lookup_insert_some.mp found with ⟨-, same⟩ | ⟨-, found⟩
    · cases same
      exact absurd isEntry (by simp [Dir.new])
    · exact untracked d name entry a found isEntry

theorem setFile_tracks {f g : File} (found : s.files.lookup id = some (.file f)) (apps : t.apps = s.apps)
    (files : t.files = s.files.insert id (.file g)) : Tracks app s t := by
  refine .insert (fun d isDir => ?_) apps files
  cases found.symm.trans isDir

theorem noteStats_tracks {x : FileId} (noted : s.noteStats env path x = .ok t) : Tracks app s t := by
  rcases noteStats_inv noted with ⟨-, updated⟩ | ⟨-, rfl⟩
  · obtain ⟨f, f', bc', st, g, bc, m, n, found, -, -, rfl⟩ := updateStatFile_inv updated
    exact setFile_tracks found rfl rfl
  · exact .refl

theorem addEntry_tracks {old : Dir} (found : s.files.lookup p = some (.dir old))
    (kept : ∀ name entry a, old.children.lookup name = some entry → (a, entry.loc) ∈ s.apps → name ≠ path ∧ d.children.lookup name = some entry) :
    Tracks app s (s.addEntry app p d path child) := by
  let new : VFileLoc := { loc := s.nextLoc, inode := child }
  have files : (s.addEntry app p d path child).files = s.files.insert p (.dir { d with children := d.children.insert path new }) := by
    simp only [addEntry, Server.appAddLoc]
    split_ifs <;> rfl
  have apps : ∀ x ∈ (s.addEntry app p d path child).apps, x ∈ s.apps ∨ x.2 = s.nextLoc := by
    intro x mem
    simp only [addEntry, Server.appAddLoc] at mem
    split_ifs at mem
    · exact .inl mem
    · exact .inl mem
    · exact (List.mem_cons.mp mem).elim (fun is => .inr (congrArg Prod.snd is)) .inl
  have here : (d.children.insert path new).lookup path = some new := AList.lookup_insert _
  refine .setDir found files addEntry_gives (fun name entry a isEntry mem => ?_) fun x mem => ?_
  · rcases apps _ mem with mem | isNew
    · obtain ⟨other, isEntry⟩ := kept name entry a isEntry mem
      exact ⟨name, entry, (AList.lookup_insert_ne other).trans isEntry, rfl⟩
    · exact ⟨path, new, here, isNew.symm⟩
  · exact (apps x mem).imp_right fun isNew => ⟨path, new, here, isNew.symm⟩

theorem appRemoveCache_tracks {entry : VFileLoc} : Tracks app s (s.appRemoveCache app entry).1 :=
  ⟨appRemoveCache_gives, fun all x mem => all x (List.mem_of_mem_filter mem)⟩

theorem not_mem_appRemoveCache {entry : VFileLoc} {a : AppId} : (a, entry.loc) ∉ (s.appRemoveCache app entry).1.apps := by
  simp [appRemoveCache]

theorem addmap_tracks {i : InodeType} {ow : Bool}
    (added : s.addmap env app p path child ow = .ok (t, st, i, notes)) : Tracks app s t := by
  obtain ⟨s₁, d, noted, found, added⟩ := addmap_inv added
  have first : Tracks app s (s₁.lazyDir p) := (noteStats_tracks noted).trans .lazyDir
  rcases added with ⟨entry, isEntry, -, -, ⟨-, rfl, -⟩ | ⟨-, rfl, -⟩⟩ | ⟨absent, -, -, rfl, -⟩
  · refine first.trans (appRemoveCache_tracks.trans (addEntry_tracks found fun name e a isE mem => ?_))
    have other : name ≠ path := by
      rintro rfl
      cases isEntry.symm.trans isE
      exact not_mem_appRemoveCache mem
    exact ⟨other, (AList.lookup_erase_ne other).trans isE⟩
  · exact first
  · refine first.trans (addEntry_tracks found fun name e a isE mem => ⟨?_, isE⟩)
    rintro rfl
    cases absent.symm.trans isE

theorem mustAddMap_tracks (done : s.mustAddMap env app p path child = .ok t) : Tracks app s t := by
  obtain ⟨i, ns, added⟩ := mustAddMap_inv done
  exact addmap_tracks added

theorem mapIf_tracks {b : Bool} (done : s.mapIf env app b p path child = .ok t) : Tracks app s t := by
  unfold mapIf at done
  split_ifs at done
  · exact mustAddMap_tracks done
  · cases done
    exact .refl

theorem eraseChild_tracks (found : s.files.lookup p = some (.dir d))
    (untracked : ∀ entry a, d.children.lookup path = some entry → (a, entry.loc) ∉ s.apps) :
    Tracks app s (s.eraseChild p d path) := by
  refine .setDir found rfl (.of_apps rfl) (fun name entry a isEntry mem => ⟨name, entry, ?_, rfl⟩) fun x mem => .inl mem
  have other : name ≠ path := by
    rintro rfl
    exact untracked entry a isEntry mem
  exact (AList.lookup_erase_ne other).trans isEntry

theorem removemap_tracks (guard : s.UntrackedUp p path) (done : s.removemap app p path = (t, st, notes)) :
    Tracks app s t := by
  rcases removemap_inv done with ⟨rfl, -, -⟩ | ⟨d, entry, u, found, isEntry, ⟨isUp, rfl, -⟩ | ⟨-, rfl, -⟩, rfl, -⟩
  · exact .refl
  · exact eraseChild_tracks found fun e a isE => guard d e a isUp found isE
  · refine appRemoveCache_tracks.trans (eraseChild_tracks found fun e a isE mem => ?_)
    cases isEntry.symm.trans isE
    exact not_mem_appRemoveCache mem

theorem not_dir_of_fresh (fresh : s.FreshId) (d : Dir) : s.files.lookup s.newId ≠ some (.dir d) := fun found =>
  fresh (mem_of_lookup found)

theorem create_tracks (fresh : (s.lazyDir p).FreshId)
    (done : s.create p path flags mode = .ok (t, st, i)) : Tracks app s t := by
  rcases create_inv done with ⟨d, -, -, ⟨entry, -, rfl, -, -⟩ | ⟨v, -, -, rfl, -, -⟩⟩ | ⟨-, rfl, -, -⟩
  · exact .lazyDir
  · exact Tracks.lazyDir.trans (.insert (not_dir_of_fresh fresh) rfl rfl)
  · exact .lazyDir

theorem handleCreate_tracks {cfg : Config} {parent : InodeType}
    (fresh : (s.lazyDir parent.id).FreshId) (done : s.handleCreate cfg env app parent path flags mode = .ok (t, st, i)) :
    Tracks app s t := by
  obtain ⟨s₁, created, done⟩ := handleCreate_inv done
  have first : Tracks app s s₁ := create_tracks fresh created
  rcases done with rfl | ⟨child, -, -, -, done⟩
  · exact first
  · simp only [mapDir, bind_eq_ok] at done
    obtain ⟨_, -, s₂, mapped, dotted⟩ := done
    exact first.trans ((mapIf_tracks mapped).trans (mapIf_tracks dotted))

theorem open_tracks {reply : Opened} (done : s.open env id flags = .ok (t, reply)) : Tracks app s t := by
  rcases open_inv done with ⟨rfl, -⟩ | ⟨f, g, bc, found, -, -, rfl, -⟩ | ⟨d, -, rfl, -⟩
  · exact .refl
  · exact setFile_tracks found rfl rfl
  · exact .of_files rfl rfl

theorem appAddCache_tracks (done : s.appAddCache app p path = .ok t) : Tracks app s t := by
  obtain ⟨d, entry, found, isEntry, rfl⟩ := appAddCache_inv done
  exact .appAddLoc ⟨p, d, path, entry, found, isEntry, rfl⟩

theorem handleCreateOpen_tracks {reply : OpenReply} (fresh : (s.lazyDir p).FreshId)
    (done : s.handleCreateOpen env app p path flags mode = .ok (t, reply)) : Tracks app s t := by
  obtain ⟨s₁, st, created, done⟩ := handleCreateOpen_inv done
  have first : Tracks app s s₁ := create_tracks fresh created
  rcases done with ⟨rfl, -⟩ | ⟨child, s₂, -, -, mapped, done⟩
  · exact first
  · have second : Tracks app s₁ s₂ := by
      unfold mapOpen at mapped
      split_ifs at mapped
      · exact mustAddMap_tracks mapped
      · exact appAddCache_tracks mapped
    rcases done with ⟨-, rfl, -⟩ | ⟨-, isOpen⟩
    · exact first.trans second
    · exact first.trans (second.trans (open_tracks isOpen))

theorem resolve_tracks (done : s.resolve app p path = .ok (t, st, i)) : Tracks app s t := by
  rcases resolve_inv done with ⟨-, ⟨rfl, -, -⟩ | ⟨d, entry, found, isEntry, rfl, -, -⟩⟩
  · exact .refl
  · exact .appAddLoc ⟨p, d, path, entry, found, isEntry, rfl⟩

theorem direntry_tracks (done : s.direntry app p path = .ok (t, i)) : Tracks app s t := by
  unfold direntry at done
  split at done
  · cases done
    exact .refl
  · next d found =>
    split at done
    · cases done
      exact .refl
    · next entry isEntry =>
      simp only [bind_eq_ok] at done
      obtain ⟨dtype, -, done⟩ := done
      cases done
      split_ifs
      · exact .appAddLoc ⟨p, d, path, entry, found, isEntry, rfl⟩
      · exact .refl
  · cases done

theorem symlink_tracks {src dest : Name} (fresh : (s.lazyDir p).FreshId) : Tracks app s (s.symlink p src dest).1 := by
  simp only [symlink]
  split
  · next d found =>
    split
    · exact .lazyDir
    · next absent =>
      have other : p ≠ (s.lazyDir p).newId := fun same => fresh (same ▸ mem_of_lookup found)
      have made : Tracks app (s.lazyDir p) { s.lazyDir p with
          files := (s.lazyDir p).files.insert (s.lazyDir p).newId (.symlink dest), inodeSeq := (s.lazyDir p).inodeSeq + 1 } :=
        .insert (not_dir_of_fresh fresh) rfl rfl
      refine Tracks.lazyDir.trans (made.trans ?_)
      refine .setDir ((AList.lookup_insert_ne other).trans found) rfl (.of_apps rfl) (fun name entry a isEntry _ => ?_) fun x mem => .inl mem
      have ne : name ≠ src := by
        rintro rfl
        cases absent.symm.trans isEntry
      exact ⟨name, entry, (AList.lookup_insert_ne ne).trans isEntry, rfl⟩
  · exact .lazyDir

theorem destroy_tracks (guard : s.Untracked id) : Tracks app s (s.destroy id).1 := by
  unfold destroy
  split
  · exact .refl
  · exact .delete guard
  · exact .removeInode guard

theorem unlink_tracks (done : s.unlink id = .ok (t, st)) : Tracks app s t := by
  obtain ⟨destroyed, noDir⟩ := unlink_inv done
  have tracks := @destroy_tracks s app id (untracked_of_noDir noDir)
  rwa [destroyed] at tracks

theorem rmdir_tracks {phase : RmdirPhase} (guard : phase = .success ∨ phase = .force → s.Untracked id)
    (done : s.rmdir id phase = .ok (t, st)) : Tracks app s t := by
  have set : ∀ {d : Dir} {b : Bool}, (s.lazyDir id).files.lookup id = some (.dir d) →
      Tracks app s { s.lazyDir id with files := (s.lazyDir id).files.insert id (.dir { d with locked := b }) } := fun found =>
    Tracks.lazyDir.trans (.setSame found rfl rfl rfl)
  rcases rmdir_inv done with ⟨rfl, -⟩ | ⟨d, found, -, -, ⟨-, -, rfl⟩ | ⟨-, -, rfl⟩ | ⟨rfl, -, rfl⟩ | ⟨rfl, rfl⟩⟩
  · exact .lazyDir
  · exact set found
  · exact set found
  · refine (set (b := false) found).trans (.removeInode fun e name entry a isDir isEntry => ?_)
    cases (AList.lookup_insert _).symm.trans isDir
    exact (guard (.inl rfl)).lazyDir d name entry a found isEntry
  · exact Tracks.lazyDir.trans (.removeInode (guard (.inr rfl)).lazyDir)

theorem setFileSize_tracks {size : Nat} (done : s.setFileSize id size = .ok t) : Tracks app s t := by
  obtain ⟨f, found, rfl⟩ := setFileSize_inv done
  exact setFile_tracks found rfl rfl

theorem closeFile_tracks {fd : Fd} {size : Option Nat} (guard : s.Untracked id) (done : s.closeFile fd id size = .ok t) :
    Tracks app s t := by
  rcases closeFile_inv done with ⟨-, closed⟩ | ⟨v, -, ⟨o, -, rfl⟩ | ⟨-, ⟨-, rfl⟩ | ⟨n, -, set⟩⟩⟩
  · obtain ⟨p, q, -, -, -, rfl⟩ := closePipe_inv closed
    exact .of_files rfl rfl
  · have erased : Tracks app s { s with orphans := s.orphans.eraseP (·.id = id) } := .of_files rfl rfl
    exact erased.trans (.delete guard)
  · exact .refl
  · exact setFileSize_tracks set

theorem close_tracks {fd : Fd} {offset size : Option Nat} (guard : ∀ d, s.fds.lookup fd = some d → s.Untracked d.id)
    (done : s.close fd offset size = .ok t) : Tracks app s t := by
  obtain ⟨d, d', found, rfl, ⟨-, u, last, rfl⟩ | ⟨-, shared⟩⟩ := close_inv done
  · have first : Tracks app s u := closeFile_tracks (guard d found) last
    exact first.trans (.of_files rfl rfl)
  · rcases closeShared_inv shared with ⟨-, rfl⟩ | ⟨n, -, set⟩
    · exact .of_files rfl rfl
    · have first : Tracks app s { s with fds := s.fds.insert fd { d with count := sizeSub d.count 1, offset := offset.getD d.offset } } :=
        .of_files rfl rfl
      exact first.trans (setFileSize_tracks set)

theorem readInode_tracks {offset count n : Nat} {data : List UInt8}
    (done : s.readInode id offset count = .ok (t, st, n, data)) : Tracks app s t := by
  rcases readInode_inv done with ⟨f, -, -, rfl, -⟩ | ⟨-, ⟨-, rfl, -, -, -⟩ | ⟨q, -, rfl, -, -⟩⟩
  · exact .refl
  · exact .refl
  · exact .of_files rfl rfl

theorem writeInode_tracks {offset n : Nat} {buf : List UInt8}
    (done : s.writeInode id offset buf = .ok (t, st, n)) : Tracks app s t := by
  rcases writeInode_inv done with ⟨f, g, bc, m, k, found, -, rfl, -⟩ | ⟨-, ⟨-, rfl, -, -⟩ | ⟨q, -, rfl, -⟩⟩
  · exact setFile_tracks found rfl rfl
  · exact .refl
  · exact .of_files rfl rfl

theorem handle_tracks {cfg : Config} {q : Request} {r : q.Reply} (guard : s.TrackGuard q)
    (done : s.handle cfg env app q = .ok (t, r, notes)) : Tracks app s t := by
  cases q with
  | create parent path flags mode => exact handleCreate_tracks guard (answered done)
  | destroy id =>
    cases done
    exact destroy_tracks guard
  | addMap parent path child ow => exact addmap_tracks (handleAddMap_inv done)
  | updateMap parent path child ow oldParent oldPath =>
    simp only [handle, handleUpdateMap, handleAddMap, bind_eq_ok, Prod.exists] at done
    obtain ⟨u, _, _, _, ⟨_, _, _, _, added, -, -, done⟩, -, -, done'⟩ := done
    cases done
    cases done'
    exact (addmap_tracks added).trans (removemap_tracks (fun _ _ _ isUp => absurd isUp guard) rfl)
  | removeMap parent path => exact removemap_tracks guard (Except.ok.inj done)
  | pipe =>
    cases done
    exact .of_files rfl rfl
  | «open» id flags => exact open_tracks (handle_open_inv done)
  | createOpen parent path flags mode => exact handleCreateOpen_tracks guard (answered done)
  | read fd count =>
    obtain ⟨d, u, -, inode, rfl⟩ := read_inv (answered done)
    exact (readInode_tracks inode).trans (.of_files rfl rfl)
  | write fd buf =>
    obtain ⟨d, u, -, inode, rfl⟩ := write_inv (answered done)
    exact (writeInode_tracks inode).trans (.of_files rfl rfl)
  | lseek fd offset whence =>
    obtain ⟨d, f, -, -, -, rfl⟩ := lseek_inv (answered done)
    exact .of_files rfl rfl
  | close fd offset size => exact close_tracks guard (handle_close_inv done)
  | dup fd =>
    have dupped : s.dup fd = (t, r) := by cases done; rfl
    rcases dup_inv dupped with ⟨rfl, -, -⟩ | ⟨d, i, -, rfl, -⟩
    · exact .refl
    · exact .of_files rfl rfl
  | unlink id entry =>
    rcases handleUnlink_inv done with ⟨parent, path, u, st, rfl, removal, unlinked⟩ | ⟨-, unlinked, -⟩
    · have removed : Tracks app s u := removemap_tracks guard removal
      rcases unlinked with ⟨-, unlinked⟩ | ⟨-, rfl, -⟩
      · exact removed.trans (unlink_tracks unlinked)
      · exact removed
    · exact unlink_tracks unlinked
  | readlink id =>
    obtain rfl := (looked_up done).2
    exact .refl
  | rmdir id phase => exact rmdir_tracks guard (answered done)
  | rmdirAndMap id parent path =>
    obtain ⟨u, st, removed, done⟩ := handleRmdirAndMap_inv done
    have first : Tracks app s u := rmdir_tracks (fun _ => guard.1) removed
    rcases done with ⟨-, unmapped⟩ | ⟨-, rfl, -, -⟩
    · exact first.trans (removemap_tracks (fun _ _ _ isUp => absurd isUp guard.2) unmapped)
    · exact first
  | truncate id len =>
    rcases truncate_inv (answered done) with ⟨rfl, -⟩ | ⟨f, g, bc, st', found, -, rfl, -⟩
    · exact .refl
    · exact setFile_tracks found rfl rfl
  | resolve parent path => exact resolve_tracks (answered done)
  | symlink parent src dest =>
    cases done
    exact symlink_tracks guard
  | blocks id offset count =>
    obtain rfl := (looked_up done).2
    exact .refl
  | flush fd size offset =>
    rcases flush_inv (answered done) with ⟨-, rfl, -⟩ | ⟨d, -, set, -⟩
    · exact .refl
    · have first : Tracks app s { s with fds := s.fds.insert fd { d with offset } } := .of_files rfl rfl
      exact first.trans (setFileSize_tracks set)

end Server

/-! ### Runs -/

namespace Tracker
variable {cfg : Config} {s t : Tracker}

structure Inv (s : Tracker) : Prop extends s.Valid where
  nodup : s.channels.Nodup
  fresh : ∀ p ∈ s.channels, p < s.next
  live : ∀ p ∈ s.channels, s.conn p < s.accepted ∧ s.conn p ∉ s.closed
  old : ∀ c ∈ s.closed, c < s.accepted
  inj : ∀ p ∈ s.channels, ∀ q ∈ s.channels, s.conn p = s.conn q → p = q

theorem inv_start (start : s.Start) : s.Inv := by
  obtain ⟨⟨id, bc, m, is⟩, keys, channels, closed, late⟩ := start
  have none_open : ∀ p, p ∉ s.channels := fun p mem => absurd (channels ▸ mem) List.not_mem_nil
  have apps : s.server.apps = [] := by rw [is]; rfl
  refine ⟨⟨fun k mem => absurd (keys ▸ mem) List.not_mem_nil, fun x mem => absurd (apps ▸ mem) List.not_mem_nil,
    fun x mem => absurd (apps ▸ mem) List.not_mem_nil, late⟩, channels ▸ List.nodup_nil, fun p mem => absurd mem (none_open p),
    fun p mem => absurd mem (none_open p), fun c mem => absurd (closed ▸ mem) List.not_mem_nil, fun p mem => absurd mem (none_open p)⟩

theorem Inv.note_open {app : AppId} {notes : List Server.Notify} (inv : s.Inv) (addressed : s.server.Addressed app notes) :
    (notes.map fun n => s.conn n.1).filter (· ∈ s.closed) = [] := by
  refine List.filter_eq_nil_iff.mpr fun c mem => ?_
  obtain ⟨n, isNote, rfl⟩ := List.mem_map.mp mem
  obtain ⟨-, loc, tracked⟩ := addressed n isNote
  obtain ⟨c, isKey⟩ := inv.owners _ tracked
  have isOpen := (inv.keys _ isKey).1
  simpa using (inv.live _ isOpen).2

theorem Inv.track {app : AppId} {server : Server} {leavesKey : Bool} {notes : List Server.Notify} (inv : s.Inv) (isOpen : app ∈ s.channels)
    (tracks : Server.Tracks app s.server server) (addressed : s.server.Addressed app notes) :
    (s.track app server leavesKey notes).Inv := by
  have late : (s.track app server leavesKey notes).late = [] := by
    simp only [Tracker.track, inv.note_open addressed, inv.late, List.append_nil]
  have keys : ∀ k ∈ (s.track app server leavesKey notes).keys, k ∈ s.keys ∨ k = (app, s.conn app) := by
    grind [Tracker.track]
  refine ⟨⟨fun k mem => ?_, fun x mem => ?_, fun x mem => ?_, late⟩, inv.nodup, inv.fresh, inv.live, inv.old, inv.inj⟩
  · rcases keys k mem with mem | rfl
    · exact inv.keys k mem
    · exact ⟨isOpen, rfl, (inv.live app isOpen).2⟩
  · rcases tracks.gives x.1 x.2 mem with same | old
    · have tracked : (server.apps.any fun t => decide (t.1 = app)) = true := List.any_eq_true.mpr ⟨x, mem, decide_eq_true same⟩
      refine ⟨s.conn app, ?_⟩
      simp only [Tracker.track, tracked, Bool.true_or, if_true, same]
      exact List.mem_insert_self
    · obtain ⟨c, isKey⟩ := inv.owners x old
      refine ⟨c, ?_⟩
      simp only [Tracker.track]
      split_ifs
      · exact List.mem_insert_of_mem isKey
      · exact isKey
  · exact Server.mem_locs.mpr (tracks.stored (fun y old => Server.mem_locs.mp (inv.entries y old)) x mem)

theorem Inv.connect (inv : s.Inv) : s.connect.Inv := by
  have other : ∀ p ∈ s.channels, p ≠ s.next := fun p mem => Nat.ne_of_lt (inv.fresh p mem)
  have same : ∀ p ∈ s.channels, s.connect.conn p = s.conn p := fun p mem => update_of_ne (other p mem) ..
  have new : s.connect.conn s.next = s.accepted := update_self ..
  have cases : ∀ {p}, p ∈ s.connect.channels → p ∈ s.channels ∨ p = s.next := fun mem =>
    (List.mem_append.mp mem).imp_right List.mem_singleton.mp
  refine ⟨⟨fun k mem => ?_, inv.owners, inv.entries, inv.late⟩, ?_, fun p mem => ?_, fun p mem => ?_, fun c mem => ?_, fun p memP q memQ eq => ?_⟩
  · obtain ⟨isOpen, isConn, notClosed⟩ := inv.keys k mem
    exact ⟨List.mem_append_left _ isOpen, (same _ isOpen).trans isConn, notClosed⟩
  · exact List.nodup_append.mpr ⟨inv.nodup, List.nodup_singleton _, fun p memP q memQ eq =>
      other p memP (eq.trans (List.mem_singleton.mp memQ))⟩
  · rcases cases mem with mem | rfl
    · exact Nat.lt_succ_of_lt (inv.fresh p mem)
    · exact Nat.lt_succ_self _
  · rcases cases mem with mem | rfl
    · rw [same p mem]
      exact ⟨Nat.lt_succ_of_lt (inv.live p mem).1, (inv.live p mem).2⟩
    · rw [new]
      exact ⟨Nat.lt_succ_self _, fun closed => Nat.lt_irrefl _ (inv.old _ closed)⟩
  · exact Nat.lt_succ_of_lt (inv.old c mem)
  · rcases cases memP with memP | rfl <;> rcases cases memQ with memQ | rfl
    · rw [same p memP, same q memQ] at eq
      exact inv.inj p memP q memQ eq
    · rw [same p memP, new] at eq
      exact absurd eq (Nat.ne_of_lt (inv.live p memP).1)
    · rw [same q memQ, new] at eq
      exact absurd eq.symm (Nat.ne_of_lt (inv.live q memQ).1)
    · rfl

theorem Inv.close {app last : AppId} (inv : s.Inv) (isOpen : app ∈ s.channels) (isLast : s.channels.getLast? = some last)
    (guard : app = last ∨ ∀ k ∈ s.keys, k.1 ≠ last) : (s.close app last).Inv := by
  have memLast : last ∈ s.channels := List.mem_of_getLast? isLast
  have split : s.channels = s.channels.dropLast ++ [last] := (List.dropLast_append_getLast? last isLast).symm
  have nodup := inv.nodup
  rw [split] at nodup
  obtain ⟨nodup', -, apart⟩ := List.nodup_append.mp nodup
  have mem_left : ∀ {p}, p ∈ s.channels.dropLast → p ∈ s.channels ∧ p ≠ last := fun mem =>
    ⟨List.dropLast_subset _ mem, apart _ mem _ (List.mem_singleton_self _)⟩
  have left_of : ∀ {p}, p ∈ s.channels → p ≠ last → p ∈ s.channels.dropLast := by
    intro p mem ne
    rw [split] at mem
    exact (List.mem_append.mp mem).resolve_right fun is => ne (List.mem_singleton.mp is)
  have here : (s.close app last).conn app = s.conn last := update_self ..
  have other : ∀ {p}, p ≠ app → (s.close app last).conn p = s.conn p := fun ne => update_of_ne ne ..
  -- A channel that stays open describes an open connection that is not the one that is closed.
  have stays : ∀ {p}, p ∈ s.channels.dropLast → ∃ q ∈ s.channels, q ≠ app ∧ (s.close app last).conn p = s.conn q ∧ (p = app ∧ q = last ∨ p = q) := by
    grind
  have ne_closed : ∀ {q}, q ∈ s.channels → q ≠ app → s.conn q ∉ (s.close app last).closed := by
    intro q mem ne isClosed
    rcases List.mem_cons.mp isClosed with same | old
    · exact ne (inv.inj q mem app isOpen same)
    · exact (inv.live q mem).2 old
  refine ⟨⟨fun k mem => ?_, fun x mem => ?_, fun x mem => ?_, inv.late⟩, nodup', fun p mem => ?_, fun p mem => ?_, fun c mem => ?_,
    fun p memP q memQ eq => ?_⟩
  · obtain ⟨isKey, ne⟩ := List.mem_filter.mp mem
    have ne : k.1 ≠ app := of_decide_eq_true ne
    obtain ⟨isOpenK, isConn, -⟩ := inv.keys k isKey
    have notLast : k.1 ≠ last := guard.elim (fun same => same ▸ ne) fun free => free k isKey
    exact ⟨left_of isOpenK notLast, (other ne).trans isConn, isConn ▸ ne_closed isOpenK ne⟩
  · obtain ⟨tracked, ne⟩ := List.mem_filter.mp mem
    obtain ⟨c, isKey⟩ := inv.owners x tracked
    exact ⟨c, List.mem_filter.mpr ⟨isKey, ne⟩⟩
  · exact inv.entries x (List.mem_of_mem_filter mem)
  · exact inv.fresh p (mem_left mem).1
  · obtain ⟨q, memQ, ne, isConn, -⟩ := stays mem
    rw [isConn]
    exact ⟨(inv.live q memQ).1, ne_closed memQ ne⟩
  · rcases List.mem_cons.mp mem with rfl | old
    · exact (inv.live app isOpen).1
    · exact inv.old c old
  · obtain ⟨p', memP', -, isConnP, whichP⟩ := stays memP
    obtain ⟨q', memQ', -, isConnQ, whichQ⟩ := stays memQ
    have same : p' = q' := inv.inj p' memP' q' memQ' (isConnP.symm.trans (eq.trans isConnQ))
    have neP := (mem_left memP).2
    have neQ := (mem_left memQ).2
    rcases whichP with ⟨rfl, rfl⟩ | rfl <;> rcases whichQ with ⟨rfl, rfl⟩ | rfl
    · rfl
    · exact absurd same.symm neQ
    · exact absurd same neP
    · exact same

theorem step_inv (inv : s.Inv) (a : TrackerAct) (guard : s.Guard a) (stepped : s.step cfg a = some t) : t.Inv := by
  cases a with
  | connect =>
    cases stepped
    exact inv.connect
  | request pos env q =>
    simp only [step, Option.bind_eq_bind, Option.bind_eq_some_iff, toOption_eq_some, Prod.exists] at stepped
    obtain ⟨app, isApp, server, reply, notes, handled, stepped⟩ := stepped
    cases stepped
    exact inv.track (List.mem_of_getElem? isApp) (Server.handle_tracks guard handled) (Server.handle_addressed handled)
  | dirent pos dir name =>
    simp only [step, Option.bind_eq_bind, Option.bind_eq_some_iff, toOption_eq_some, Prod.exists] at stepped
    obtain ⟨app, isApp, server, i, handled, stepped⟩ := stepped
    cases stepped
    exact inv.track (List.mem_of_getElem? isApp) (Server.direntry_tracks handled) Server.addressed_nil
  | close pos =>
    simp only [step, Option.bind_eq_bind, Option.bind_eq_some_iff] at stepped
    obtain ⟨app, isApp, last, isLast, stepped⟩ := stepped
    cases stepped
    refine inv.close (List.mem_of_getElem? isApp) isLast ((guard last isLast).imp_left fun same => ?_)
    exact Option.some.inj (isApp.symm.trans same)

/-- The tracking sets are valid in every state of a run that moves no channel structure that is a key, deletes no
    directory and removes no `..` of which a client has been given an entry, and reuses no inode id. -/
theorem valid_of_guarded (reached : Reach Start Guard (step cfg) s) : s.Valid :=
  (reached.invariant (fun _ => inv_start) fun _ _ a inv guard stepped => step_inv inv a guard stepped).toValid

def booted : Tracker where
  server := Server.boot 0 { start := 0, blocks := [], blocksFree := 0 } fun _ => 0
  keys := []
  channels := []
  conn := fun _ => 0
  next := 0
  accepted := 0
  closed := []
  late := []

theorem start_booted : booted.Start := ⟨⟨_, _, _, rfl⟩, rfl, rfl, rfl, rfl⟩

def ask (pos rand : Nat) (q : Request) : TrackerAct := .request pos { rand, rand' := 0, stats := [] } q

structure View where
  channels : List AppId
  keys : List (AppId × Nat)
  apps : List (AppId × Nat)
  locs : List Nat
  late : List Nat
deriving DecidableEq

def view (s : Tracker) : View where
  channels := s.channels
  keys := s.keys
  apps := s.server.apps
  locs := s.server.locs
  late := s.late

/-- The second of two clients opens `f`. The first one disconnects, then the second one; a third one connects and
    removes `f`. -/
def moved : List TrackerAct :=
  [.connect, .connect, ask 1 1 (.createOpen { server := 0, id := 0 } "f" { creat := true } 420), .close 0, .close 0, .connect,
    ask 0 0 (.removeMap 0 "f")]

def freed : List TrackerAct :=
  [.connect, ask 0 0 (.create { server := 0, id := 0, type := .dirShared } "d" { directory := true } 493), ask 0 0 (.resolve 2 ".."),
    ask 0 0 (.rmdir 2 .force)]

theorem exists_stale :
    (∃ s, Reach Start (fun _ _ => True) (step Server.oneServer) s ∧ (∃ k ∈ s.keys, k.1 ∉ s.channels) ∧ s.late = [1]) ∧
    ∃ s, Reach Start (fun _ _ => True) (step Server.oneServer) s ∧ ∃ t ∈ s.server.apps, t.2 ∉ s.server.locs := by
  have late : (run (step Server.oneServer) booted moved).map view = some ⟨[2], [(1, 1)], [], [0], [1]⟩ := by decide +kernel
  have dangling : (run (step Server.oneServer) booted freed).map view = some ⟨[0], [(0, 0)], [(0, 2), (0, 1)], [1, 0], []⟩ := by decide +kernel
  obtain ⟨s, ran, seen⟩ := Option.map_eq_some_iff.mp late
  obtain ⟨t, ran', seen'⟩ := Option.map_eq_some_iff.mp dangling
  have keys : s.keys = [(1, 1)] := congrArg View.keys seen
  have channels : s.channels = [2] := congrArg View.channels seen
  have apps : t.server.apps = [(0, 2), (0, 1)] := congrArg View.apps seen'
  have locs : t.server.locs = [1, 0] := congrArg View.locs seen'
  refine ⟨⟨s, Reach.of_run start_booted ran, ⟨(1, 1), ?_, ?_⟩, congrArg View.late seen⟩, t, Reach.of_run start_booted ran', (0, 2), ?_, ?_⟩
  · rw [keys]
    exact List.mem_singleton_self _
  · rw [channels]
    decide
  · rw [apps]
    exact List.mem_cons_self
  · rw [locs]
    decide

theorem valid_open : ∃ s, run (step Server.oneServer) booted [.connect, ask 0 1 (.createOpen { server := 0, id := 0 } "f" { creat := true } 420),
    .close 0] = some s ∧ s.Valid := by
  have ends : (run (step Server.oneServer) booted [.connect, ask 0 1 (.createOpen { server := 0, id := 0 } "f" { creat := true } 420),
    .close 0]).isSome := by decide +kernel
  obtain ⟨s, ran⟩ := Option.isSome_iff_exists.mp ends
  refine ⟨s, ran, valid_of_guarded ((Reach.init start_booted).of_guarded ?_ ran)⟩
  refine ⟨trivial, fun t connected => ⟨?_, fun u opened => ⟨?_, ?_⟩⟩⟩
  · cases connected
    show Server.FreshId _
    unfold Server.FreshId
    decide +kernel
  · cases connected
    simp only [step, ask, Option.bind_eq_bind, Option.bind_eq_some_iff, Prod.exists] at opened
    obtain ⟨_, -, _, _, _, -, opened⟩ := opened
    cases opened
    exact fun last isLast => .inl isLast
  · exact fun _ _ => trivial

end Tracker
end Faux
