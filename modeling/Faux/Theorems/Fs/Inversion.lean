import Faux.Fs.Marshall
import Faux.Lib.Except

/-! What an operation of the server has done when it succeeds, once for each operation. -/

namespace Faux
open Lib
namespace Server

variable {s t : Server} {env : Env} {app : AppId} {id parent : FileId} {path : Name} {child : InodeType} {fd : Fd}
  {offset n : Nat} {i : Option InodeType}
variable {st : Status} {flags : Flags} {mode : Nat} {ns : List Notify}

theorem require_eq_ok {c : Bool} {u : Unit} : require c = .ok u ↔ c = true := by
  cases c <;> simp [require]

/-! ### Entries -/

theorem updateStatFile_inv (done : s.updateStatFile env id = .ok t) :
    ∃ f f' bc' st g bc m n, s.files.lookup id = some (.file f) ∧
      f.truncate s.bufferCache env.stats.length = .ok (f', bc', st) ∧ f'.write bc' s.mem env.stats 0 = .ok (g, bc, m, n) ∧
      t = { s with files := s.files.insert id (.file g), bufferCache := bc, mem := m } := by
  unfold updateStatFile at done
  split at done
  · cases done
  · next f found =>
    simp only [bind_eq_ok, Prod.exists] at done
    obtain ⟨f', bc', st, truncated, g, bc, m, n, written, done⟩ := done
    cases done
    exact ⟨f, f', bc', st, g, bc, m, n, found, truncated, written, rfl⟩
  · cases done

theorem noteStats_inv (done : s.noteStats env path id = .ok t) :
    path = "stats" ∧ s.updateStatFile env id = .ok t ∨ path ≠ "stats" ∧ t = s := by
  unfold noteStats at done
  split_ifs at done with isStats
  · exact .inl ⟨isStats, done⟩
  · cases done
    exact .inr ⟨isStats, rfl⟩

theorem addmap_inv {ow : Bool} {i : InodeType} (done : s.addmap env app parent path child ow = .ok (t, st, i, ns)) :
    ∃ u p, s.noteStats env path child.id = .ok u ∧ (u.lazyDir parent).files.lookup parent = some (.dir p) ∧
      ((∃ entry, p.children.lookup path = some entry ∧ st = .exist ∧ i = entry.inode ∧
          (ow = true ∧ t = ((u.lazyDir parent).appRemoveCache app entry).1.addEntry app parent
              { p with children := p.children.erase path } path child ∧
            ns = ((u.lazyDir parent).appRemoveCache app entry).2 ∨
          ow = false ∧ t = u.lazyDir parent ∧ ns = [])) ∨
        p.children.lookup path = none ∧ st = .ok ∧ i = child ∧ t = (u.lazyDir parent).addEntry app parent p path child ∧
          ns = []) := by
  simp only [addmap, bind_eq_ok] at done
  obtain ⟨u, noted, done⟩ := done
  split at done
  · next p found =>
    refine ⟨u, p, noted, found, ?_⟩
    split at done
    · next entry isEntry =>
      split_ifs at done with overwrites <;> cases done
      · exact .inl ⟨entry, isEntry, rfl, rfl, .inl ⟨overwrites, rfl, rfl⟩⟩
      · exact .inl ⟨entry, isEntry, rfl, rfl, .inr ⟨eq_false_of_ne_true overwrites, rfl, rfl⟩⟩
    · next absent =>
      cases done
      exact .inr ⟨absent, rfl, rfl, rfl, rfl⟩
  · cases done

theorem removemap_inv (done : s.removemap app parent path = (t, st, ns)) :
    t = s ∧ st ≠ .ok ∧ ns = [] ∨
      ∃ p entry u, s.files.lookup parent = some (.dir p) ∧ p.children.lookup path = some entry ∧
        (path = ".." ∧ u = s ∧ ns = [] ∨
          path ≠ ".." ∧ u = (s.appRemoveCache app entry).1 ∧ ns = (s.appRemoveCache app entry).2) ∧
        t = u.eraseChild parent p path ∧ st = .ok := by
  unfold removemap at done
  split at done
  · cases done
    exact .inl ⟨rfl, by decide, rfl⟩
  · next p found =>
    split at done
    · cases done
      exact .inl ⟨rfl, by decide, rfl⟩
    · next entry isEntry =>
      split_ifs at done with up <;> cases done
      · exact .inr ⟨p, entry, _, found, isEntry, .inr ⟨up, rfl, rfl⟩, rfl, rfl⟩
      · exact .inr ⟨p, entry, _, found, isEntry, .inl ⟨not_not.mp up, rfl, rfl⟩, rfl, rfl⟩
  · cases done
    exact .inl ⟨rfl, by decide, rfl⟩

theorem appAddCache_inv (done : s.appAddCache app parent path = .ok t) :
    ∃ p entry, s.files.lookup parent = some (.dir p) ∧ p.children.lookup path = some entry ∧
      t = s.appAddLoc app entry.loc := by
  unfold appAddCache at done
  split at done
  · next p found =>
    split at done
    · next entry isEntry =>
      cases done
      exact ⟨p, entry, found, isEntry, rfl⟩
    · cases done
  · cases done

theorem resolve_inv (done : s.resolve app parent path = .ok (t, st, i)) :
    path ≠ "" ∧ (t = s ∧ st ≠ .ok ∧ i = none ∨
      ∃ p entry, s.files.lookup parent = some (.dir p) ∧ p.children.lookup path = some entry ∧
        t = s.appAddLoc app entry.loc ∧ st = .ok ∧ i = some entry.inode) := by
  simp only [resolve, bind_eq_ok] at done
  obtain ⟨_, named, done⟩ := done
  refine ⟨of_decide_eq_true (require_eq_ok.mp named), ?_⟩
  split at done
  · cases done
    exact .inl ⟨rfl, by decide, rfl⟩
  · next p found =>
    split at done
    · cases done
      exact .inl ⟨rfl, by decide, rfl⟩
    · next entry isEntry =>
      cases done
      exact .inr ⟨p, entry, found, isEntry, rfl, rfl, rfl⟩
  · cases done
    exact .inl ⟨rfl, by decide, rfl⟩

/-! ### Objects -/

theorem create_inv (done : s.create parent path flags mode = .ok (t, st, i)) :
    (∃ p, (s.lazyDir parent).files.lookup parent = some (.dir p) ∧ path ≠ "" ∧
      ((∃ entry, p.children.lookup path = some entry ∧ t = s.lazyDir parent ∧
          st = (if entry.inode.type = .symlink then .isSym else .exist) ∧ i = some entry.inode) ∨
        ∃ v, p.children.lookup path = none ∧ v = (if flags.directory then .dir (Dir.new false mode) else .file File.new) ∧
          t = { s.lazyDir parent with
            files := (s.lazyDir parent).files.insert (s.lazyDir parent).newId v
            inodeSeq := (s.lazyDir parent).inodeSeq + 1 } ∧
          st = .ok ∧ i = some { server := (s.lazyDir parent).id, id := (s.lazyDir parent).newId, type := v.type })) ∨
      (∀ p, (s.lazyDir parent).files.lookup parent ≠ some (.dir p)) ∧ t = s.lazyDir parent ∧ st = .invalid ∧ i = none := by
  simp only [create] at done
  split at done
  · next p found =>
    simp only [bind_eq_ok] at done
    obtain ⟨_, named, done⟩ := done
    refine .inl ⟨p, found, of_decide_eq_true (require_eq_ok.mp named), ?_⟩
    split at done
    · next entry isEntry =>
      cases done
      exact .inl ⟨entry, isEntry, rfl, rfl, rfl⟩
    · next absent =>
      cases done
      exact .inr ⟨_, absent, rfl, rfl, rfl, rfl⟩
  · next notDir =>
    cases done
    exact .inr ⟨notDir, rfl, rfl, rfl⟩

theorem rmdir_inv {phase : RmdirPhase} (done : s.rmdir id phase = .ok (t, st)) :
    t = s.lazyDir id ∧ st ≠ .ok ∨
      ∃ d, (s.lazyDir id).files.lookup id = some (.dir d) ∧ (d.children.entries.any fun e => e.1 ≠ "..") = false ∧ st = .ok ∧
        ((phase = .try ∧ d.locked = false ∧
            t = { s.lazyDir id with files := (s.lazyDir id).files.insert id (.dir { d with locked := true }) }) ∨
          (phase = .fail ∧ d.locked = true ∧
            t = { s.lazyDir id with files := (s.lazyDir id).files.insert id (.dir { d with locked := false }) }) ∨
          (phase = .success ∧ d.locked = true ∧
            t = Server.removeInode { s.lazyDir id with
              files := (s.lazyDir id).files.insert id (.dir { d with locked := false }) } id
              (VFile.dir { d with locked := false }).type) ∨
          phase = .force ∧ t = (s.lazyDir id).removeInode id (VFile.dir d).type) := by
  simp only [rmdir] at done
  split at done
  · next d found =>
    split at done
    · cases done
      exact .inl ⟨rfl, by decide⟩
    · next empty =>
      have empty := eq_false_of_ne_true empty
      cases phase with
      | «try» =>
        simp only at done
        split_ifs at done with locked <;> cases done
        · exact .inl ⟨rfl, by decide⟩
        · exact .inr ⟨d, found, empty, rfl, .inl ⟨rfl, eq_false_of_ne_true locked, rfl⟩⟩
      | fail =>
        simp only [bind_eq_ok] at done
        obtain ⟨_, locked, done⟩ := done
        cases done
        exact .inr ⟨d, found, empty, rfl, .inr (.inl ⟨rfl, require_eq_ok.mp locked, rfl⟩)⟩
      | success =>
        simp only [bind_eq_ok] at done
        obtain ⟨_, locked, done⟩ := done
        cases done
        exact .inr ⟨d, found, empty, rfl, .inr (.inr (.inl ⟨rfl, require_eq_ok.mp locked, rfl⟩))⟩
      | force => grind
  · cases done
    exact .inl ⟨rfl, by decide⟩

theorem truncate_inv {len : Nat} (done : s.truncate id len = .ok (t, st)) :
    t = s ∧ st ≠ .ok ∨
      ∃ f g bc st', s.files.lookup id = some (.file f) ∧ f.truncate s.bufferCache len = .ok (g, bc, st') ∧
        t = { s with files := s.files.insert id (.file g), bufferCache := bc } ∧ st = .ok := by
  unfold truncate at done
  split at done
  · cases done
    exact .inl ⟨rfl, by decide⟩
  · cases done
    exact .inl ⟨rfl, by decide⟩
  · cases done
    exact .inl ⟨rfl, by decide⟩
  · next f found =>
    simp only [bind_eq_ok, Prod.exists] at done
    obtain ⟨g, bc, st', truncated, done⟩ := done
    cases done
    exact .inr ⟨f, g, bc, st', found, truncated, rfl, rfl⟩

/-! ### Descriptors -/

theorem open_inv {reply : Opened} (done : s.open env id flags = .ok (t, reply)) :
    t = s ∧ reply.fd = none ∨
      (∃ f g bc, s.files.lookup id = some (.file f) ∧ flags.directory = false ∧
        f.openTrunc s.bufferCache flags.trunc = .ok (g, bc) ∧
        t = Server.addFd { s with files := s.files.insert id (.file g), bufferCache := bc } env.rand id
          (if flags.append then g.size else 0) ∧
        reply = { retval := .ok, fd := some env.rand, type := some .file, size := some g.size, state := .shared }) ∨
      ∃ d, s.files.lookup id = some (.dir d) ∧ t = s.addFd env.rand id 0 ∧
        reply = { retval := .ok, fd := some env.rand, type := some (VFile.dir d).type, size := some (VFile.dir d).size,
                  state := .shared } := by
  unfold «open» at done
  split at done
  · cases done
    exact .inl ⟨rfl, rfl⟩
  · next f found =>
    split at done
    · cases done
      exact .inl ⟨rfl, rfl⟩
    · next directory =>
      simp only [bind_eq_ok, Prod.exists] at done
      obtain ⟨g, bc, truncated, done⟩ := done
      cases done
      exact .inr (.inl ⟨f, g, bc, found, eq_false_of_ne_true directory, truncated, rfl, rfl⟩)
  · next d found =>
    split_ifs at done <;> cases done
    · exact .inl ⟨rfl, rfl⟩
    · exact .inr (.inr ⟨d, found, rfl, rfl⟩)
  · cases done
    exact .inl ⟨rfl, rfl⟩

theorem dup_inv {reply : Status × Option (Inode × FileType × Nat)} (done : s.dup fd = (t, reply)) :
    t = s ∧ reply.1 ≠ .ok ∧ reply.2 = none ∨
      ∃ d i, s.fds.lookup fd = some d ∧ t = { s with fds := s.fds.insert fd { d with count := d.count + 1 } } ∧
        reply = (.ok, some ({ server := s.id, id := d.id }, i)) := by
  simp only [dup] at done
  split at done
  · cases done
    exact .inl ⟨rfl, by decide, rfl⟩
  · next d found =>
    split at done
    · cases done
      exact .inl ⟨rfl, by decide, rfl⟩
    · cases done
      exact .inr ⟨d, _, found, rfl, rfl⟩

theorem readInode_inv {count : Nat} {data : List UInt8}
    (done : s.readInode id offset count = .ok (t, st, n, data)) :
    (∃ f, s.files.lookup id = some (.file f) ∧ f.read s.mem count offset = .ok data ∧ t = s ∧
        (st, n) = countStatus data.length) ∨
      s.files.lookup id = none ∧
        (s.pipes.lookup id = none ∧ t = s ∧ st = .notFound ∧ n = 0 ∧ data = [] ∨
          ∃ p, s.pipes.lookup id = some p ∧ t = { s with pipes := s.pipes.insert id (p.read count).1 } ∧
            (st, n) = countStatus (p.read count).2 ∧ data = []) := by
  unfold readInode at done
  split at done
  · next f found =>
    simp only [bind_eq_ok] at done
    obtain ⟨data', got, done⟩ := done
    cases done
    exact .inl ⟨f, found, got, rfl, rfl⟩
  · cases done
  · next noFile =>
    split at done
    · next noPipe =>
      cases done
      exact .inr ⟨noFile, .inl ⟨noPipe, rfl, rfl, rfl, rfl⟩⟩
    · next p found =>
      cases done
      exact .inr ⟨noFile, .inr ⟨p, found, rfl, rfl, rfl⟩⟩

theorem read_inv {count : Nat} {data : List UInt8} (done : s.read fd count = .ok (t, st, n, data)) :
    ∃ d u, s.fds.lookup fd = some d ∧ s.readInode d.id d.offset count = .ok (u, st, n, data) ∧
      t = { u with fds := u.fds.insert fd { d with offset := d.offset + n } } := by
  unfold read at done
  split at done
  · cases done
  · next d found =>
    simp only [bind_eq_ok, Prod.exists] at done
    obtain ⟨u, _, _, _, inode, done⟩ := done
    cases done
    exact ⟨d, u, found, inode, rfl⟩

theorem writeInode_inv {buf : List UInt8} (done : s.writeInode id offset buf = .ok (t, st, n)) :
    (∃ f g bc m k, s.files.lookup id = some (.file f) ∧ f.write s.bufferCache s.mem buf offset = .ok (g, bc, m, k) ∧
        t = { s with files := s.files.insert id (.file g), bufferCache := bc, mem := m } ∧ (st, n) = countStatus k) ∨
      s.files.lookup id = none ∧
        (s.pipes.lookup id = none ∧ t = s ∧ st = .notFound ∧ n = buf.length ∨
          ∃ p, s.pipes.lookup id = some p ∧ t = { s with pipes := s.pipes.insert id (p.write buf.length).1 } ∧
            (st, n) = countStatus (p.write buf.length).2) := by
  unfold writeInode at done
  split at done
  · next f found =>
    simp only [bind_eq_ok, Prod.exists] at done
    obtain ⟨g, bc, m, k, written, done⟩ := done
    cases done
    exact .inl ⟨f, g, bc, m, k, found, written, rfl, rfl⟩
  · cases done
  · next noFile =>
    split at done
    · next noPipe =>
      cases done
      exact .inr ⟨noFile, .inl ⟨noPipe, rfl, rfl, rfl⟩⟩
    · next p found =>
      cases done
      exact .inr ⟨noFile, .inr ⟨p, found, rfl, rfl⟩⟩

theorem write_inv {buf : List UInt8} (done : s.write fd buf = .ok (t, st, n)) :
    ∃ d u, s.fds.lookup fd = some d ∧ s.writeInode d.id d.offset buf = .ok (u, st, n) ∧
      t = { u with fds := u.fds.insert fd { d with offset := d.offset + n } } := by
  unfold write at done
  split at done
  · cases done
  · next d found =>
    simp only [bind_eq_ok, Prod.exists] at done
    obtain ⟨u, _, _, inode, done⟩ := done
    cases done
    exact ⟨d, u, found, inode, rfl⟩

theorem lseek_inv {whence : Whence} (done : s.lseek fd offset whence = .ok (t, n)) :
    ∃ d f, s.fds.lookup fd = some d ∧ s.files.lookup d.id = some (.file f) ∧ seekTo offset d.offset f.size whence = .ok n ∧
      t = { s with fds := s.fds.insert fd { d with offset := n } } := by
  unfold lseek at done
  split at done
  · cases done
  · next d found =>
    split at done
    · next f isFile =>
      simp only [bind_eq_ok] at done
      obtain ⟨_, sought, done⟩ := done
      cases done
      exact ⟨d, f, found, isFile, sought, rfl⟩
    · cases done

theorem setFileSize_inv {size : Nat} (done : s.setFileSize id size = .ok t) :
    ∃ f, s.files.lookup id = some (.file f) ∧ t = { s with files := s.files.insert id (.file { f with size }) } := by
  unfold setFileSize at done
  split at done
  · next f found =>
    cases done
    exact ⟨f, found, rfl⟩
  · cases done

theorem flush_inv {size : Nat} (done : s.flush fd size offset = .ok (t, st)) :
    s.fds.lookup fd = none ∧ t = s ∧ st = .invalid ∨
      ∃ d, s.fds.lookup fd = some d ∧ { s with fds := s.fds.insert fd { d with offset } }.setFileSize d.id size = .ok t ∧
        st = .ok := by
  unfold flush at done
  split at done
  · next unknown =>
    cases done
    exact .inl ⟨unknown, rfl, rfl⟩
  · next d found =>
    simp only [bind_eq_ok] at done
    obtain ⟨_, set, done⟩ := done
    cases done
    exact .inr ⟨d, found, set, rfl⟩

/-! ### Closing -/

theorem closePipe_inv (done : s.closePipe fd id = .ok t) :
    ∃ p q, s.pipes.lookup id = some p ∧ q.readFd = (if p.readFd = fd then 0 else p.readFd) ∧
      q.writeFd = (if p.writeFd = fd then 0 else p.writeFd) ∧
      t = { s with pipes := if q.readFd = 0 ∧ q.writeFd = 0 then s.pipes.erase id else s.pipes.insert id q } := by
  unfold closePipe at done
  split at done
  · cases done
  · next p found =>
    cases done
    refine ⟨p, _, found, ?_, ?_, rfl⟩
    · split_ifs <;> rfl
    · split_ifs <;> simp_all

theorem closeFile_inv {size : Option Nat} (done : s.closeFile fd id size = .ok t) :
    s.files.lookup id = none ∧ s.closePipe fd id = .ok t ∨
      ∃ v, s.files.lookup id = some v ∧
        ((∃ o, s.orphans.find? (·.id = id) = some o ∧
            t = Server.delete { s with orphans := s.orphans.eraseP (·.id = id) } id) ∨
          s.orphans.find? (·.id = id) = none ∧
            (size = none ∧ t = s ∨ ∃ n, size = some n ∧ s.setFileSize id n = .ok t)) := by
  unfold closeFile at done
  split at done
  · next noFile => exact .inl ⟨noFile, done⟩
  · next v found =>
    refine .inr ⟨v, found, ?_⟩
    split at done
    · next o orphan =>
      cases done
      exact .inl ⟨o, orphan, rfl⟩
    · next notOrphan =>
      refine .inr ⟨notOrphan, ?_⟩
      split at done
      · next n => exact .inr ⟨n, rfl, done⟩
      · cases done
        exact .inl ⟨rfl, rfl⟩

theorem closeShared_inv {d : FileDescriptor} {offset size : Option Nat} (done : s.closeShared fd d offset size = .ok t) :
    size = none ∧ t = { s with fds := s.fds.insert fd { d with offset := offset.getD d.offset } } ∨
      ∃ n, size = some n ∧
        { s with fds := s.fds.insert fd { d with offset := offset.getD d.offset } }.setFileSize d.id n = .ok t := by
  simp only [closeShared] at done
  split at done
  · next n => exact .inr ⟨n, rfl, done⟩
  · cases done
    exact .inl ⟨rfl, rfl⟩

theorem unlink_inv (done : s.unlink id = .ok (t, st)) : s.destroy id = (t, st) ∧ ∀ d, s.files.lookup id ≠ some (.dir d) := by
  unfold unlink at done
  unfold destroy
  split at done
  · next absent =>
    cases done
    rw [absent]
    exact ⟨rfl, fun d => (Option.some_ne_none _).symm⟩
  · cases done
  · next v noDir found =>
    cases done
    rw [found]
    refine ⟨?_, fun d is => noDir d (Option.some.inj is)⟩
    cases v with
    | dir d => exact absurd rfl (noDir d)
    | _ => rfl

theorem close_inv {offset size : Option Nat} (done : s.close fd offset size = .ok t) :
    ∃ d d', s.fds.lookup fd = some d ∧ d' = { d with count := sizeSub d.count 1 } ∧
      ((d'.countInt = 0 ∧ ∃ u, s.closeFile fd d.id size = .ok u ∧ t = { u with fds := u.fds.erase fd }) ∨
        0 < d'.countInt ∧ s.closeShared fd d' offset size = .ok t) := by
  simp only [close] at done
  split at done
  · cases done
  · next d found =>
    refine ⟨d, _, found, rfl, ?_⟩
    split_ifs at done with negative last
    · grind [closeLast, bind_eq_ok]
    · exact .inr ⟨by omega, done⟩

/-! ### Handlers -/

section
variable {cfg : Config}

theorem mustAddMap_inv (done : s.mustAddMap env app parent path child = .ok t) :
    ∃ i ns, s.addmap env app parent path child false = .ok (t, .ok, i, ns) := by
  simp only [mustAddMap, bind_eq_ok, Prod.exists] at done
  obtain ⟨_, _, i, ns, added, _, isOk, done⟩ := done
  cases done
  obtain rfl := of_decide_eq_true (require_eq_ok.mp isOk)
  exact ⟨i, ns, added⟩

theorem handleCreate_inv {parent : InodeType}
    (done : s.handleCreate cfg env app parent path flags mode = .ok (t, st, i)) :
    ∃ u, s.create parent.id path flags mode = .ok (u, st, i) ∧
      (t = u ∨ ∃ child, i = some child ∧ st = .ok ∧ flags.directory = true ∧ u.mapDir cfg env app parent path child = .ok t) := by
  simp only [handleCreate, bind_eq_ok, Prod.exists] at done
  obtain ⟨u, _, _, created, done⟩ := done
  refine ⟨u, ?_⟩
  split at done
  · next child =>
    split_ifs at done with ok
    · grind [bind_eq_ok]
    · cases done
      exact ⟨created, .inl rfl⟩
  · cases done
    exact ⟨created, .inl rfl⟩

theorem handleAddMap_inv {ow : Bool} {reply : Status × InodeType}
    (done : s.handleAddMap env app parent path child ow = .ok (t, reply, ns)) :
    s.addmap env app parent path child ow = .ok (t, reply.1, reply.2, ns) := by
  simp only [handleAddMap, bind_eq_ok, Prod.exists] at done
  obtain ⟨_, _, _, _, added, _, -, done⟩ := done
  cases done
  exact added

theorem handleCreateOpen_inv {reply : OpenReply} (done : s.handleCreateOpen env app parent path flags mode = .ok (t, reply)) :
    ∃ u st, s.create parent path flags mode = .ok (u, st, reply.exist) ∧
      ((t = u ∧ reply = { openFail st with exist := reply.exist }) ∨
        ∃ child v, reply.exist = some child ∧ (st = .exist ∧ ¬flags.excl ∨ st = .ok) ∧
          u.mapOpen env app (st = .ok) parent path child = .ok v ∧
          ((child.server ≠ v.id ∧ t = v ∧ reply = { openFail .exist with exist := reply.exist }) ∨
            child.server = v.id ∧ v.open env child.id { flags with creat := false } = .ok (t, reply.toOpened))) := by
  simp only [handleCreateOpen, bind_eq_ok, Prod.exists] at done
  obtain ⟨u, st, exist, created, done⟩ := done
  refine ⟨u, st, ?_⟩
  split at done
  · next child =>
    split_ifs at done with made
    · grind [bind_eq_ok]
    · cases done
      exact ⟨created, .inl ⟨rfl, rfl⟩⟩
  · cases done
    exact ⟨created, .inl ⟨rfl, rfl⟩⟩

theorem handleUnlink_inv {entry : Option (FileId × Name)} (done : s.handleUnlink app id entry = .ok (t, st, ns)) :
    (∃ parent path u st', entry = some (parent, path) ∧ s.removemap app parent path = (u, st', ns) ∧
        (st' = .ok ∧ u.unlink id = .ok (t, st) ∨ st' ≠ .ok ∧ t = u ∧ st = st')) ∨
      entry = none ∧ s.unlink id = .ok (t, st) ∧ ns = [] := by
  unfold handleUnlink at done
  split at done
  · next parent path =>
    simp only at done
    split_ifs at done with removed
    · grind [bind_eq_ok]
    · grind
  · grind [bind_eq_ok]

theorem handleRmdirAndMap_inv (done : s.handleRmdirAndMap app id parent path = .ok (t, st, ns)) :
    ∃ u st', s.rmdir id .force = .ok (u, st') ∧
      (st' = .ok ∧ u.removemap app parent path = (t, st, ns) ∨ st' ≠ .ok ∧ t = u ∧ st = st' ∧ ns = []) := by
  simp only [handleRmdirAndMap, bind_eq_ok, Prod.exists] at done
  obtain ⟨u, st', removed, done⟩ := done
  refine ⟨u, st', removed, ?_⟩
  split_ifs at done with ok
  · exact .inl ⟨ok, Except.ok.inj done⟩
  · cases done
    exact .inr ⟨ok, rfl, rfl, rfl⟩

theorem answered {α : Type} {x : Res (Server × α)} {reply : α}
    (done : (x >>= fun r => .ok (r.1, r.2, ([] : List Notify))) = .ok (t, reply, ns)) : x = .ok (t, reply) := by
  obtain ⟨r, isR, done⟩ := bind_eq_ok.mp done
  cases done
  exact isR

theorem looked_up {α : Type} {x : Res α} {reply : α}
    (done : (x >>= fun r => .ok (s, r, ([] : List Notify))) = .ok (t, reply, ns)) : x = .ok reply ∧ t = s := by
  obtain ⟨r, isR, done⟩ := bind_eq_ok.mp done
  cases done
  exact ⟨isR, rfl⟩

theorem handle_open_inv {reply : OpenReply} (done : s.handle cfg env app (.open id flags) = .ok (t, reply, ns)) :
    s.open env id flags = .ok (t, reply.toOpened) := by
  obtain ⟨r, isR, done⟩ := bind_eq_ok.mp done
  cases done
  exact isR

theorem handle_close_inv {offset size : Option Nat} {reply : Status}
    (done : s.handle cfg env app (.close fd offset size) = .ok (t, reply, ns)) : s.close fd offset size = .ok t := by
  obtain ⟨r, isR, done⟩ := bind_eq_ok.mp done
  cases done
  exact isR

end
end Server
end Faux
