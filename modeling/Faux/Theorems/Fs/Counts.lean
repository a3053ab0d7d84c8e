import Faux.Fs.FdLog
import Faux.Fs.Process
import Faux.Theorems.Fs.Requests

/-! Which requests change the counts of a server's descriptors, and how. -/

namespace Faux
open Lib
namespace Server

variable {s t u : Server} {env : Env} {app : AppId} {id parent : FileId} {path : Name} {fd x : Fd} {d : FileDescriptor}
  {offset : Nat} {ns : List Notify}
variable {st : Status} {cfg : Config} {flags : Flags} {mode : Nat}

/-! ### Requests that do not touch descriptors -/

structure SameFds (s t : Server) : Prop where
  id : t.id = s.id
  fds : t.fds = s.fds
  ends : t.ends = s.ends

theorem SameFds.of_pipes (id : t.id = s.id) (fds : t.fds = s.fds) (pipes : t.pipes = s.pipes) : SameFds s t :=
  ⟨id, fds, by unfold Server.ends; rw [pipes]⟩

theorem SameFds.refl : SameFds s s := ⟨rfl, rfl, rfl⟩

theorem SameFds.trans (first : SameFds s t) (second : SameFds t u) : SameFds s u :=
  ⟨second.id.trans first.id, second.fds.trans first.fds, second.ends.trans first.ends⟩

theorem Grows.sameFds {new : List FileId} (grows : Grows new s t) : SameFds s t := .of_pipes grows.id grows.fds grows.pipes

theorem create_sameFds {i : Option InodeType} (created : s.create parent path flags mode = .ok (t, st, i)) : SameFds s t := by
  have lazy : SameFds s (s.lazyDir parent) := grows_lazyDir.sameFds
  rcases create_inv created with ⟨p, -, -, ⟨entry, -, rfl, -, -⟩ | ⟨v, -, -, rfl, -, -⟩⟩ | ⟨-, rfl, -, -⟩
  · exact lazy
  · exact lazy.trans ⟨rfl, rfl, rfl⟩
  · exact lazy

theorem handleCreate_sameFds {parent : InodeType} {i : Option InodeType}
    (created : s.handleCreate cfg env app parent path flags mode = .ok (t, st, i)) : SameFds s t := by
  obtain ⟨u, made, created⟩ := handleCreate_inv created
  have same := create_sameFds made
  rcases created with rfl | ⟨child, -, -, -, mapped⟩
  · exact same
  · exact same.trans (mapDir_grows mapped).sameFds

theorem symlink_sameFds {src dest : Name} (linked : s.symlink parent src dest = (t, st)) : SameFds s t := by
  have lazy : SameFds s (s.lazyDir parent) := grows_lazyDir.sameFds
  simp only [symlink] at linked
  split at linked
  · split at linked
    · cases linked
      exact lazy
    · cases linked
      exact lazy.trans ⟨rfl, rfl, rfl⟩
  · cases linked
    exact lazy

theorem delete_sameFds : SameFds s (s.delete id) := .of_pipes (delete_fields s id).2.2.2.2.1 (delete_fields s id).1 (delete_fields s id).2.1

theorem removeInode_sameFds {type : FileType} : SameFds s (s.removeInode id type) := by
  unfold removeInode
  split
  · exact ⟨rfl, rfl, rfl⟩
  · exact delete_sameFds

theorem destroy_sameFds : SameFds s (s.destroy id).1 := by
  unfold destroy
  split
  · exact .refl
  · exact delete_sameFds
  · exact removeInode_sameFds

theorem unlink_sameFds (done : s.unlink id = .ok (t, st)) : SameFds s t := by
  have same := @destroy_sameFds s id
  rwa [(unlink_inv done).1] at same

theorem SameFds.removeInode {type : FileType} (same : SameFds s t) : SameFds s (t.removeInode id type) :=
  same.trans removeInode_sameFds

theorem rmdir_sameFds {phase : RmdirPhase} (done : s.rmdir id phase = .ok (t, st)) : SameFds s t := by
  have lazy : SameFds s (s.lazyDir id) := grows_lazyDir.sameFds
  rcases rmdir_inv done with ⟨rfl, -⟩ | ⟨dir, -, -, -, ⟨-, -, rfl⟩ | ⟨-, -, rfl⟩ | ⟨-, -, rfl⟩ | ⟨-, rfl⟩⟩
  · exact lazy
  · exact ⟨lazy.id, lazy.fds, lazy.ends⟩
  · exact ⟨lazy.id, lazy.fds, lazy.ends⟩
  · exact SameFds.removeInode ⟨lazy.id, lazy.fds, lazy.ends⟩
  · exact lazy.removeInode

theorem handleUnlink_sameFds {entry : Option (FileId × Name)}
    (done : s.handleUnlink app id entry = .ok (t, st, ns)) : SameFds s t := by
  rcases handleUnlink_inv done with ⟨parent, path, u, st', -, removal, unlinked⟩ | ⟨-, unlinked, -⟩
  · have removed : SameFds s u := (removemap_grows removal).sameFds
    rcases unlinked with ⟨-, unlinked⟩ | ⟨-, rfl, -⟩
    · exact removed.trans (unlink_sameFds unlinked)
    · exact removed
  · exact unlink_sameFds unlinked

theorem handleRmdirAndMap_sameFds (done : s.handleRmdirAndMap app id parent path = .ok (t, st, ns)) :
    SameFds s t := by
  obtain ⟨u, st', removed, done⟩ := handleRmdirAndMap_inv done
  have same := rmdir_sameFds removed
  rcases done with ⟨-, unmapped⟩ | ⟨-, rfl, -, -⟩
  · exact same.trans (removemap_grows unmapped).sameFds
  · exact same

theorem truncate_sameFds {len : Nat} (done : s.truncate id len = .ok (t, st)) : SameFds s t := by
  rcases truncate_inv done with ⟨rfl, -⟩ | ⟨f, g, bc, st', -, -, rfl, -⟩
  · exact .refl
  · exact ⟨rfl, rfl, rfl⟩

/-! ### Counts -/

structure SameCounts (s t : Server) : Prop where
  id : t.id = s.id
  counts : ∀ fd, (t.fds.lookup fd).map (·.count) = (s.fds.lookup fd).map (·.count)
  inodes : ∀ fd, t.inodeOf fd = s.inodeOf fd
  ends : t.ends = s.ends

theorem SameFds.sameCounts (same : SameFds s t) : SameCounts s t :=
  ⟨same.id, fun _ => by rw [same.fds], fun _ => by rw [inodeOf, inodeOf, same.fds], same.ends⟩

theorem SameCounts.refl : SameCounts s s := ⟨rfl, fun _ => rfl, fun _ => rfl, rfl⟩

theorem SameCounts.trans (first : SameCounts s t) (second : SameCounts t u) : SameCounts s u where
  id := second.id.trans first.id
  counts fd := (second.counts fd).trans (first.counts fd)
  inodes fd := (second.inodes fd).trans (first.inodes fd)
  ends := second.ends.trans first.ends

theorem lookup_insert_eq {v : FileDescriptor} :
    (s.fds.insert fd v).lookup x = if x = fd then some v else s.fds.lookup x := by
  split_ifs with same
  · rw [same, AList.lookup_insert]
  · exact AList.lookup_insert_ne same

theorem sameCounts_seek (found : s.fds.lookup fd = some d) :
    SameCounts s { s with fds := s.fds.insert fd { d with offset } } := by
  have same : ∀ {β : Type} (f : FileDescriptor → β) x, f { d with offset } = f d →
      ((s.fds.insert fd { d with offset }).lookup x).map f = (s.fds.lookup x).map f := by
    intro β f x eq
    rw [lookup_insert_eq]
    split_ifs with isFd
    · rw [isFd, found, Option.map_some, Option.map_some, eq]
    · rfl
  exact ⟨rfl, fun x => same _ x rfl, fun x => same _ x rfl, rfl⟩

theorem setFileSize_sameFds {size : Nat} (set : s.setFileSize id size = .ok t) : SameFds s t := (setFileSize_grows set).sameFds

theorem flush_sameCounts {size : Nat} (done : s.flush fd size offset = .ok (t, st)) : SameCounts s t := by
  rcases flush_inv done with ⟨-, rfl, -⟩ | ⟨d, found, set, -⟩
  · exact .refl
  · exact (sameCounts_seek found).trans (setFileSize_sameFds set).sameCounts

theorem ends_insert {p q : Pipe} (found : s.pipes.lookup id = some p) (same : q.readFd = p.readFd ∧ q.writeFd = p.writeFd) :
    Server.ends { s with pipes := s.pipes.insert id q } = s.ends := by
  funext x
  unfold Server.ends
  by_cases isId : x = id
  · rw [isId, found, AList.lookup_insert, Option.map_some, Option.map_some, same.1, same.2]
  · rw [AList.lookup_insert_ne isId]

theorem readInode_sameFds {count n : Nat} {data : List UInt8}
    (done : s.readInode id offset count = .ok (t, st, n, data)) : SameFds s t := by
  rcases readInode_inv done with ⟨f, -, -, rfl, -⟩ | ⟨-, ⟨-, rfl, -, -, -⟩ | ⟨p, found, rfl, -, -⟩⟩
  · exact .refl
  · exact .refl
  · exact ⟨rfl, rfl, ends_insert found (pipeRead_ends p count)⟩

theorem writeInode_sameFds {n : Nat} {buf : List UInt8} (done : s.writeInode id offset buf = .ok (t, st, n)) :
    SameFds s t := by
  rcases writeInode_inv done with ⟨f, g, bc, m, k, -, -, rfl, -⟩ | ⟨-, ⟨-, rfl, -, -⟩ | ⟨p, found, rfl, -⟩⟩
  · exact ⟨rfl, rfl, rfl⟩
  · exact .refl
  · exact ⟨rfl, rfl, ends_insert found ⟨rfl, rfl⟩⟩

theorem SameFds.seek (same : SameFds s t) (found : s.fds.lookup fd = some d) :
    SameCounts s { t with fds := t.fds.insert fd { d with offset } } :=
  same.sameCounts.trans (sameCounts_seek (by rwa [same.fds]))

theorem handle_sameCounts {q : Request} {reply : q.Reply} (keeps : q.keepsFds = true)
    (done : s.handle cfg env app q = .ok (t, reply, ns)) : SameCounts s t := by
  cases q with
  | create parent path flags mode => exact (handleCreate_sameFds (answered done)).sameCounts
  | destroy id =>
    cases done
    exact destroy_sameFds.sameCounts
  | addMap parent path child ow => exact (handleAddMap_grows done).sameFds.sameCounts
  | updateMap parent path child ow oldParent oldPath => exact (handleUpdateMap_grows done).sameFds.sameCounts
  | removeMap parent path => exact (removemap_grows (Except.ok.inj done)).sameFds.sameCounts
  | pipe => cases keeps
  | «open» id flags => cases keeps
  | createOpen parent path flags mode => cases keeps
  | read fd count =>
    obtain ⟨d, u, found, inode, rfl⟩ := read_inv (answered done)
    exact (readInode_sameFds inode).seek found
  | write fd data =>
    obtain ⟨d, u, found, inode, rfl⟩ := write_inv (answered done)
    exact (writeInode_sameFds inode).seek found
  | lseek fd offset whence =>
    obtain ⟨d, f, found, -, -, rfl⟩ := lseek_inv (answered done)
    exact sameCounts_seek found
  | close fd offset size => cases keeps
  | dup fd => cases keeps
  | unlink id entry => exact (handleUnlink_sameFds done).sameCounts
  | readlink id =>
    obtain rfl := (looked_up done).2
    exact .refl
  | rmdir id phase => exact (rmdir_sameFds (answered done)).sameCounts
  | rmdirAndMap id parent path => exact (handleRmdirAndMap_sameFds done).sameCounts
  | truncate id len => exact (truncate_sameFds (answered done)).sameCounts
  | resolve parent path => exact (resolve_grows (answered done)).sameFds.sameCounts
  | symlink parent src dest =>
    cases done
    exact (symlink_sameFds rfl).sameCounts
  | blocks id offset count =>
    obtain rfl := (looked_up done).2
    exact .refl
  | flush fd size offset => exact flush_sameCounts (answered done)

theorem closeFile_cases {size : Option Nat} (done : s.closeFile fd id size = .ok t) : SameFds s t ∨ s.closePipe fd id = .ok t := by
  rcases closeFile_inv done with ⟨-, closed⟩ | ⟨v, -, ⟨o, -, rfl⟩ | ⟨-, ⟨-, rfl⟩ | ⟨n, -, set⟩⟩⟩
  · exact .inr closed
  · exact .inl ⟨delete_sameFds.id, delete_sameFds.fds, delete_sameFds.ends⟩
  · exact .inl .refl
  · exact .inl (setFileSize_sameFds set)

theorem closePipe_fds (done : s.closePipe fd id = .ok t) : t.id = s.id ∧ t.fds = s.fds := by
  obtain ⟨p, q, -, -, -, rfl⟩ := closePipe_inv done
  exact ⟨rfl, rfl⟩

theorem closeFile_fds {size : Option Nat} (done : s.closeFile fd id size = .ok t) : t.id = s.id ∧ t.fds = s.fds := by
  rcases closeFile_cases done with same | closed
  · exact ⟨same.id, same.fds⟩
  · exact closePipe_fds closed

theorem open_added {reply : Opened} (done : s.open env id flags = .ok (t, reply)) :
    reply.fd = none ∧ SameFds s t ∨ reply.fd = some env.rand ∧ reply.retval = .ok ∧ ∃ u offset, SameFds s u ∧ t = u.addFd env.rand id offset := by
  rcases open_inv done with ⟨rfl, none⟩ | ⟨f, g, bc, -, -, -, rfl, rfl⟩ | ⟨d, -, rfl, rfl⟩
  · exact .inl ⟨none, .refl⟩
  · exact .inr ⟨rfl, rfl, { s with files := s.files.insert id (.file g), bufferCache := bc }, _, ⟨rfl, rfl, rfl⟩, rfl⟩
  · exact .inr ⟨rfl, rfl, _, _, .refl, rfl⟩

theorem createOpen_added {reply : OpenReply} (done : s.handleCreateOpen env app parent path flags mode = .ok (t, reply)) :
    reply.fd = none ∧ SameFds s t ∨
      reply.fd = some env.rand ∧ reply.retval = .ok ∧ ∃ child u offset, reply.exist = some child ∧ child.server = s.id ∧ SameFds s u ∧
        t = u.addFd env.rand child.id offset := by
  obtain ⟨u, st, created, done⟩ := handleCreateOpen_inv done
  have same := create_sameFds created
  rcases done with ⟨rfl, isReply⟩ | ⟨child, v, isChild, -, mapped, done⟩
  · exact .inl ⟨by rw [isReply]; rfl, same⟩
  · have same := same.trans (mapOpen_grows mapped).sameFds
    rcases done with ⟨-, rfl, isReply⟩ | ⟨own, opened⟩
    · exact .inl ⟨by rw [isReply]; rfl, same⟩
    · rcases open_added opened with ⟨none, same'⟩ | ⟨some, ok, w, offset, same', rfl⟩
      · exact .inl ⟨none, same.trans same'⟩
      · exact .inr ⟨some, ok, child, w, offset, isChild, own.trans same.id, same.trans same', rfl⟩

end Server
end Faux
