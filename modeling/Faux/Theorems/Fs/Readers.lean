import Faux.Fs.Sharing
import Faux.Theorems.Fs.BlockIsolation

/-! Readers do not modify files. The operations of a reader perform only actions that write no block, and no
    request among them changes a file, except that a flush sets its size. -/

namespace Faux
open Function Lib

/-! ### Requests -/

namespace Server
variable {s t u : Server} {env : Env} {app : AppId} {id parent : FileId} {path : Name} {child : InodeType}
  {n offset server : Nat} {fd : Fd} {flags : Flags} {st : Status} {a : Action}

structure Keeps (s t : Server) : Prop where
  mem : t.mem = s.mem
  files : ∀ id g, s.files.lookup id = some (.file g) → t.files.lookup id = some (.file g)

theorem Keeps.of_files (mem : t.mem = s.mem) (files : t.files = s.files) : Keeps s t :=
  ⟨mem, fun _ _ found => files ▸ found⟩

theorem Keeps.refl : Keeps s s := .of_files rfl rfl

theorem Keeps.trans (first : Keeps s t) (second : Keeps t u) : Keeps s u :=
  ⟨second.mem.trans first.mem, fun id g found => second.files id g (first.files id g found)⟩

theorem keeps_insert {v : VFile} {seq loc : Nat} (notFile : ∀ g, s.files.lookup id ≠ some (.file g)) :
    Keeps s { s with files := s.files.insert id v, inodeSeq := seq, nextLoc := loc } := by
  refine ⟨rfl, fun x g found => ?_⟩
  have ne : x ≠ id := fun same => notFile g (same ▸ found)
  rwa [AList.lookup_insert_ne ne]

theorem keeps_lazyDir : Keeps s (s.lazyDir id) := by
  unfold lazyDir
  split
  · exact .refl
  · next absent => exact keeps_insert (by simp [absent])

theorem keeps_appAddLoc {loc : Nat} : Keeps s (s.appAddLoc app loc) := by
  unfold appAddLoc
  split_ifs <;> exact .of_files rfl rfl

theorem keeps_addEntry {d d' : Dir} (found : s.files.lookup parent = some (.dir d)) :
    Keeps s (s.addEntry app parent d' path child) := by
  have added : Keeps s (s.addChild parent d' path child) := keeps_insert (by simp [found])
  unfold addEntry
  split_ifs
  · exact added
  · exact added.trans keeps_appAddLoc

theorem keeps_create {mode : Nat} {i : Option InodeType}
    (fresh : (s.lazyDir parent).newId ∉ (s.lazyDir parent).files)
    (created : s.create parent path flags mode = .ok (t, st, i)) : Keeps s t := by
  refine Keeps.trans keeps_lazyDir (t := s.lazyDir parent) ?_
  rcases create_inv created with ⟨p, -, -, ⟨entry, -, rfl, -, -⟩ | ⟨v, -, -, rfl, -, -⟩⟩ | ⟨-, rfl, -, -⟩
  · exact .refl
  · exact keeps_insert fun g found => fresh (mem_of_lookup found)
  · exact .refl

theorem keeps_addmap {i : InodeType} {notes : List Notify} (name : path ≠ "stats")
    (added : s.addmap env app parent path child false = .ok (t, st, i, notes)) : Keeps s t := by
  obtain ⟨u, p, noted, found, done⟩ := addmap_inv added
  obtain ⟨-, rfl⟩ := (noteStats_inv noted).resolve_left fun stats => name stats.1
  refine Keeps.trans keeps_lazyDir (t := u.lazyDir parent) ?_
  rcases done with ⟨entry, -, -, -, ⟨isFalse, -, -⟩ | ⟨-, rfl, -⟩⟩ | ⟨-, -, -, rfl, -⟩
  · cases isFalse
  · exact .refl
  · exact keeps_addEntry found

theorem keeps_mustAddMap (name : path ≠ "stats") (added : s.mustAddMap env app parent path child = .ok t) : Keeps s t := by
  obtain ⟨i, notes, added⟩ := mustAddMap_inv added
  exact keeps_addmap name added

theorem keeps_mapOpen {created : Bool} (name : path ≠ "stats") (mapped : s.mapOpen env app created parent path child = .ok t) :
    Keeps s t := by
  unfold mapOpen at mapped
  split_ifs at mapped
  · exact keeps_mustAddMap name mapped
  · obtain ⟨p, entry, -, -, rfl⟩ := appAddCache_inv mapped
    exact keeps_appAddLoc

theorem keeps_open {reply : Opened} (noTrunc : flags.trunc = false)
    (opened : s.open env id flags = .ok (t, reply)) : Keeps s t := by
  rcases open_inv opened with ⟨rfl, -⟩ | ⟨f, g, bc, found, -, same, rfl, -⟩ | ⟨d, -, rfl, -⟩
  · exact .refl
  · rw [noTrunc] at same
    cases same
    refine ⟨rfl, fun x g foundX => ?_⟩
    refine lookup_insert_some.mpr ?_
    by_cases eq : x = id
    · grind
    · exact .inr ⟨eq, foundX⟩
  · exact .of_files rfl rfl

theorem keeps_createOpen {mode : Nat} {reply : OpenReply} (name : path ≠ "stats")
    (fresh : (s.lazyDir parent).newId ∉ (s.lazyDir parent).files) (noTrunc : flags.trunc = false)
    (done : s.handleCreateOpen env app parent path flags mode = .ok (t, reply)) : Keeps s t := by
  obtain ⟨s₁, st, created, done⟩ := handleCreateOpen_inv done
  have first := keeps_create fresh created
  rcases done with ⟨rfl, -⟩ | ⟨child, s₂, -, -, mapped, done⟩
  · exact first
  · have second := first.trans (keeps_mapOpen name mapped)
    rcases done with ⟨-, rfl, -⟩ | ⟨-, isOpen⟩
    · exact second
    · exact second.trans (keeps_open (by exact noTrunc) isOpen)

theorem keeps_resolve {i : Option InodeType} (resolved : s.resolve app parent path = .ok (t, st, i)) :
    Keeps s t := by
  rcases resolve_inv resolved with ⟨-, ⟨rfl, -, -⟩ | ⟨p, entry, -, -, rfl, -, -⟩⟩
  · exact .refl
  · exact keeps_appAddLoc

theorem keeps_read {count : Nat} {data : List UInt8}
    (done : s.read fd count = .ok (t, st, n, data)) : Keeps s t := by
  obtain ⟨d, u, -, inode, rfl⟩ := read_inv done
  rcases readInode_inv inode with ⟨f, -, -, rfl, -⟩ | ⟨-, ⟨-, rfl, -, -, -⟩ | ⟨p, -, rfl, -, -⟩⟩
  · exact .of_files rfl rfl
  · exact .of_files rfl rfl
  · exact .of_files rfl rfl

theorem keeps_lseek {whence : Whence} (done : s.lseek fd offset whence = .ok (t, n)) : Keeps s t := by
  obtain ⟨d, f, -, -, -, rfl⟩ := lseek_inv done
  exact .of_files rfl rfl

theorem keeps_dup : Keeps s (s.dup fd).1 := by
  rcases @dup_cases s fd with same | ⟨d, -, same⟩
  · rw [same]
    exact .refl
  · rw [same]
    exact .of_files rfl rfl

structure Settled (s t : Server) : Prop where
  mem : t.mem = s.mem
  files : ∀ id g, s.files.lookup id = some (.file g) →
    (∃ g', t.files.lookup id = some (.file g') ∧ g'.size = g.size ∧ g'.memoryBlocks = g.memoryBlocks) ∨
    id ∉ t.files ∧ t.referenced id = false

theorem Keeps.settled (keeps : Keeps s t) : Settled s t :=
  ⟨keeps.mem, fun id g found => .inl ⟨g, keeps.files id g found, rfl, rfl⟩⟩

theorem Settled.of_files (mem : t.mem = s.mem) (files : t.files = s.files) : Settled s t :=
  (Keeps.of_files mem files).settled

theorem referenced_eq_false : s.referenced id = false ↔ ∀ fd d, s.fds.lookup fd = some d → d.id = id → d.countInt = 0 := by
  unfold referenced
  rw [List.any_eq_false]
  constructor
  · intro none fd d found same
    have := none ⟨fd, d⟩ (AList.mem_lookup_iff.mp found)
    simpa [same] using this
  · rintro none ⟨fd, d⟩ mem
    have found : s.fds.lookup fd = some d := AList.mem_lookup_iff.mpr mem
    simpa using none fd d found

theorem delete_mem : (s.delete id).mem = s.mem := by
  unfold delete
  split <;> rfl

theorem delete_files : (s.delete id).files = s.files.erase id := by
  unfold delete
  split <;> rfl

theorem settled_delete (unused : (s.delete id).referenced id = false) : Settled s (s.delete id) := by
  refine ⟨delete_mem, fun x g found => ?_⟩
  by_cases same : x = id
  · subst same
    refine .inr ⟨?_, unused⟩
    rw [delete_files]
    simp [AList.mem_erase]
  · refine .inl ⟨g, ?_, rfl, rfl⟩
    rw [delete_files]
    exact lookup_erase_some.mpr ⟨same, found⟩

theorem settled_destroy : Settled s (s.destroy id).1 := by
  have removed : ∀ type, Settled s (s.removeInode id type) := fun type => by
    unfold removeInode
    split_ifs with live
    · exact Settled.of_files rfl rfl
    · refine settled_delete ?_
      rw [referenced_eq_false, (delete_fields s id).1]
      exact referenced_eq_false.mp (Bool.eq_false_iff.mpr live)
  unfold destroy
  split
  · exact Keeps.refl.settled
  · next d found =>
    refine ⟨delete_mem, fun x g foundX => .inl ⟨g, ?_, rfl, rfl⟩⟩
    rw [delete_files]
    refine lookup_erase_some.mpr ⟨fun same => ?_, foundX⟩
    subst same
    cases found.symm.trans foundX
  · exact removed _

theorem settled_flush {size : Nat}
    (same : ∀ d g, s.fds.lookup fd = some d → s.files.lookup d.id = some (.file g) → size = g.size)
    (done : s.flush fd size offset = .ok (t, st)) : Settled s t := by
  rcases flush_inv done with ⟨-, rfl, -⟩ | ⟨d, found, set, -⟩
  · exact Keeps.refl.settled
  · obtain ⟨f, file, rfl⟩ := setFileSize_inv set
    refine ⟨rfl, fun x g foundX => .inl ?_⟩
    by_cases eq : x = d.id
    · subst eq
      cases file.symm.trans foundX
      exact ⟨_, AList.lookup_insert _, same d _ found foundX, rfl⟩
    · exact ⟨g, (AList.lookup_insert_ne eq).trans foundX, rfl, rfl⟩

theorem settled_closeLast {d : FileDescriptor}
    (only : (∃ o ∈ s.orphans, o.id = d.id) → ∀ fd' d', s.fds.lookup fd' = some d' → d'.id = d.id → fd' = fd)
    (done : s.closeLast fd d.id none = .ok t) : Settled s t := by
  simp only [closeLast, bind_eq_ok] at done
  obtain ⟨s', closed, done⟩ := done
  cases done
  rcases closeFile_inv closed with ⟨-, closed⟩ | ⟨v, -, ⟨o, orphan, rfl⟩ | ⟨-, ⟨-, rfl⟩ | ⟨n, isNone, -⟩⟩⟩
  · obtain ⟨p, q, -, -, -, rfl⟩ := closePipe_inv closed
    exact Settled.of_files rfl rfl
  · have isOrphan : ∃ o ∈ s.orphans, o.id = d.id :=
      ⟨o, List.mem_of_find?_eq_some orphan, by simpa using List.find?_some orphan⟩
    have files : (Server.delete { s with orphans := s.orphans.eraseP (·.id = d.id) } d.id).files = s.files.erase d.id := delete_files
    refine ⟨delete_mem, fun x g found => ?_⟩
    simp only [files]
    by_cases same : x = d.id
    · subst same
      refine .inr ⟨?_, referenced_eq_false.mpr fun fd' d' found' sameId => ?_⟩
      · simp [AList.mem_erase]
      · obtain ⟨ne, found'⟩ := lookup_erase_some.mp found'
        rw [(delete_fields _ _).1] at found'
        exact absurd (only isOrphan fd' d' found' sameId) ne
    · exact .inl ⟨g, lookup_erase_some.mpr ⟨same, found⟩, rfl, rfl⟩
  · exact Settled.of_files rfl rfl
  · cases isNone

theorem settled_close
    (only : ∀ d, s.fds.lookup fd = some d → (∃ o ∈ s.orphans, o.id = d.id) →
      ∀ fd' d', s.fds.lookup fd' = some d' → d'.id = d.id → fd' = fd)
    (done : s.close fd none none = .ok t) : Settled s t := by
  unfold close at done
  split at done
  · cases done
  · next d found =>
    simp only at done
    split_ifs at done
    · exact settled_closeLast (d := d) (only d found) done
    · cases done
      exact Settled.of_files rfl rfl

end Server

/-! ### Actions -/

namespace Cluster
variable {cfg : Config} {w w' : Cluster} {c : Nat} {env : Env}

theorem handle_settled {j : Nat} {q : Request} {t : Server} {reply : q.Reply} {notes : List Server.Notify}
    (reads : Action.Reads (.rpc j q)) (mild : w.Mild (.rpc j q))
    (flushed : ∀ fd size offset, q = .flush fd size offset → ∀ h id n, w.sizeOf ⟨h, j, fd⟩ = some (id, n) → size = n)
    (done : (w.servers j).handle cfg env c q = .ok (t, reply, notes)) :
    Server.Settled (w.servers j) t := by
  cases q with
  | create parent path flags mode =>
    obtain ⟨u, created, rfl | ⟨child, -, -, directory, -⟩⟩ := Server.handleCreate_inv (Server.answered done)
    · exact (Server.keeps_create mild created).settled
    · cases directory.symm.trans (reads : flags.directory = false)
  | destroy id =>
    cases done
    exact Server.settled_destroy
  | addMap parent path child overwrite =>
    cases (reads : overwrite = false)
    exact (Server.keeps_addmap mild (Server.handleAddMap_inv done)).settled
  | «open» id flags => exact (Server.keeps_open reads (Server.handle_open_inv done)).settled
  | createOpen parent path flags mode => exact (Server.keeps_createOpen mild.1 mild.2 reads (Server.answered done)).settled
  | read fd count => exact (Server.keeps_read (Server.answered done)).settled
  | lseek fd offset whence => exact (Server.keeps_lseek (Server.answered done)).settled
  | close fd offset size =>
    obtain ⟨rfl, rfl⟩ := reads
    exact Server.settled_close mild (Server.handle_close_inv done)
  | dup fd =>
    cases done
    exact Server.keeps_dup.settled
  | resolve parent path => exact (Server.keeps_resolve (Server.answered done)).settled
  | blocks id offset count =>
    obtain rfl := (Server.looked_up done).2
    exact Server.Keeps.refl.settled
  | flush fd size offset =>
    refine Server.settled_flush (fun d g found file => flushed fd size offset rfl 0 d.id g.size ?_) (Server.answered done)
    simp only [sizeOf, found, file]
  | _ => exact reads.elim

theorem contents_congr {f g : File} (size : f.size = g.size) (blocks : f.memoryBlocks = g.memoryBlocks) (m : Memory) :
    f.contents m = g.contents m := by
  unfold File.contents
  rw [size, blocks]

theorem unchanged_of_servers (servers : w'.servers = w.servers)
    (clients : ∀ c', c' ≠ c → (w'.clients c').files = (w.clients c').files) : Unchanged c w w' :=
  ⟨fun i id g found => .inl ⟨g, servers ▸ found, rfl, by rw [servers]⟩, clients⟩

/-- An action of a reader changes no file, if a flush has the size that the server has. -/
theorem exec_unchanged {r : a.Reply} (reads : a.Reads) (mild : w.Mild a)
    (flushed : ∀ i fd size offset, a = .rpc i (.flush fd size offset) → ∀ h id n, w.sizeOf ⟨h, i, fd⟩ = some (id, n) → size = n)
    (done : w.exec cfg c env a = .ok (w', r)) : Unchanged c w w' := by
  have own : ∀ {k : Client} {c' : Nat}, c' ≠ c → ((w.setClient c k).clients c').files = (w.clients c').files := fun ne => by
    simp only [setClient, update_of_ne ne]
  cases a with
  | rpc i q =>
    obtain ⟨t, notes, handled, servers, -⟩ := request_eq_ok done
    refine ⟨fun j id g found => ?_, fun c' _ => (request_files done c').1⟩
    rw [servers]
    by_cases same : j = i
    · subst same
      have settled := handle_settled reads mild (fun fd size offset is => flushed j fd size offset (congrArg _ is)) handled
      rw [update_self, settled.mem]
      refine (settled.files id g found).imp_left ?_
      rintro ⟨g', found', size, blocks⟩
      exact ⟨g', found', size, contents_congr size blocks _⟩
    · rw [update_of_ne same]
      exact .inl ⟨g, found, rfl, rfl⟩
  | copyIn i offset data => exact reads.elim
  | find parent path =>
    cases done
    exact unchanged_of_servers rfl fun _ _ => rfl
  | getFile h =>
    cases done
    exact unchanged_of_servers rfl fun _ _ => rfl
  | copyOut i offset count =>
    cases done
    exact unchanged_of_servers rfl fun _ _ => rfl
  | pick n =>
    cases done
    exact unchanged_of_servers rfl fun _ _ => rfl
  | _ =>
    cases done
    exact unchanged_of_servers rfl fun _ ne => own ne

end Cluster

/-! ### Programs -/

/-- What is stored for the object is of it, and what is flushed for it is the size that the client has seen. -/
def Action.Stores (x : Object) (size : Nat) : Action → Prop
  | .rpc i (.flush fd size' _) => i = x.server → fd = x.fd → size' = size
  | .setFile h f => h = x.h → f.Of x size
  | _ => True

/-- What a client knows of a copy that it has taken: it is of the object, or not of its descriptor. -/
def Known (x : Object) (size h : Nat) (f : AppFile) : Prop :=
  if h = x.h then f.Of x size else f.state ≠ .invalid → ¬(f.inode.server = x.server ∧ f.fd = x.fd)

/-- What a client that has the object gets when it takes an object or makes a new one. -/
def Replies (x : Object) (size : Nat) : (a : Action) → a.Reply → Prop
  | .getFile h, r => ∀ f, r = some f → Known x size h f
  | .newFile _, r => r ≠ x.h
  | _, _ => True

/-- A program of a reader, which may have an object. -/
def Tended {α : Type} (o : Option Object) (size : Nat) (p : FsProg α) : Prop :=
  p.AllIf (fun a => a.Reads ∧ ∀ x ∈ o, a.Stores x size) fun a r => ∀ x ∈ o, Replies x size a r

section
variable {cfg : Config} {o : Option Object} {size : Nat} {α β : Type} {p : FsProg α}

theorem tended_ret {v : α} : Tended o size (.ret v) := trivial

theorem tended_bind {f : α → FsProg β} (all : Tended o size p) (rest : ∀ v, Tended o size (f v)) : Tended o size (p >>= f) :=
  Prog.AllIf.bind all rest

theorem tended_of_all (all : p.All fun a => a.Reads ∧ ∀ x ∈ o, a.Stores x size) : Tended o size p := all.allIf

theorem tended_perform (reads : a.Reads) (stores : ∀ x ∈ o, a.Stores x size) : Tended o size (perform a) :=
  tended_of_all (all_perform ⟨reads, stores⟩)

theorem tended_ensure {b : Bool} : Tended o size (ensure b) := tended_of_all all_ensure

theorem tended_walks (walks : p.All Walks) : Tended o size p := by
  refine tended_of_all (walks.mono fun a walks => ?_)
  cases a with
  | rpc i q => cases q <;> first | exact walks.elim | exact ⟨trivial, fun _ _ => trivial⟩
  | _ => first | exact walks.elim | exact ⟨trivial, fun _ _ => trivial⟩

theorem tended_newFile {f : AppFile} {k : Nat → FsProg α} (rest : ∀ h, (∀ x ∈ o, h ≠ x.h) → Tended o size (k h)) :
    Tended o size (perform (.newFile f) >>= k) := ⟨⟨trivial, fun _ _ => trivial⟩, rest⟩

theorem tended_openDone {inode parent : InodeType} {reply : OpenReply} {path : Name} :
    Tended o size (openDone cfg inode reply flags parent path) := by
  have adds : ∀ {child : InodeType} {v : OpenResult}, Tended o size (do
      perform (.add parent.id path child)
      .ret v) := tended_bind (tended_perform (a := .add _ _ _) trivial fun _ _ => trivial) fun _ => tended_ret
  unfold openDone
  split
  · refine tended_newFile fun h other => tended_bind ?_ fun f => tended_bind
      (tended_perform trivial fun x mem same => absurd same (other x mem)) fun _ => ?_
    · unfold AppFile.cacheBlocks
      split_ifs
      · exact tended_of_all (all_cacheLoop (fun _ _ _ _ => ⟨trivial, fun _ _ => trivial⟩)
          fun _ => ⟨trivial, fun x mem same => absurd same (other x mem)⟩)
      · trivial
    · split_ifs
      · exact adds
      · trivial
  · split_ifs
    · exact adds
    · trivial
  · split_ifs
    · exact adds
    · trivial
  · trivial

variable {saveParent parent inode : InodeType} {savePath path : Name} {flags : Flags} {mode : Nat} {cached : Bool}

theorem tended_openInode (noTrunc : flags.trunc = false) :
    Tended o size (openInode cfg saveParent savePath parent path flags cached inode) := by
  have opens : ∀ {i : Nat} {id : FileId}, Tended o size (rpc i (.open id flags)) := tended_perform noTrunc fun _ _ => trivial
  refine tended_bind opens fun reply => ?_
  split_ifs
  · refine tended_bind (tended_walks walks_clearCache) fun _ => tended_bind (tended_walks walks_lookup) fun found =>
      tended_bind tended_ensure fun _ => ?_
    split_ifs
    · trivial
    · refine tended_bind opens fun reply => ?_
      split_ifs
      · trivial
      · exact tended_openDone
  · trivial
  · exact tended_openDone

theorem tended_mapCreated : Tended o size (mapCreated server parent path inode) := by
  have destroys : Tended o size (rpc inode.server (.destroy inode.id)) := tended_perform trivial fun _ _ => trivial
  refine tended_bind (tended_bind (tended_perform rfl fun _ _ => trivial) fun r => ?_) fun r => ?_
  · split
    split
    · exact tended_bind (tended_perform trivial fun _ _ => trivial) fun _ => tended_ret
    · trivial
  · obtain ⟨retval, exist⟩ := r
    simp only
    split_ifs
    · exact tended_bind destroys fun _ => tended_bind tended_ensure fun _ => tended_ret
    · trivial

theorem tended_openCreate (noTrunc : flags.trunc = false) :
    Tended o size (openCreate cfg saveParent savePath parent path flags mode cached server) := by
  refine tended_bind tended_ensure fun _ => tended_bind (tended_perform noTrunc fun _ _ => trivial) fun reply => ?_
  split
  · split_ifs
    · trivial
    · exact tended_openInode noTrunc
    · trivial
    · trivial
    · exact tended_openDone
  · split_ifs <;> trivial

theorem tended_openCreate3 {dirEntryServer : Nat} (noTrunc : flags.trunc = false) (notDir : flags.directory = false) :
    Tended o size (openCreate3 cfg saveParent savePath parent path flags mode cached server dirEntryServer) := by
  refine tended_bind ?_ fun r => ?_
  · unfold fosCreate
    split_ifs
    · trivial
    · exact tended_perform notDir fun _ _ => trivial
  · obtain ⟨retval, _ | exist⟩ := r
    · simp only
      split_ifs <;> trivial
    · simp only
      split_ifs
      · trivial
      · exact tended_bind tended_ensure fun _ => tended_openInode noTrunc
      · trivial
      · trivial
      · exact tended_bind tended_mapCreated fun _ => tended_bind tended_ensure fun _ => tended_openInode noTrunc

theorem tended_fileOpen (noTrunc : flags.trunc = false) : Tended o size (fosFileOpen cfg parent path flags mode) := by
  unfold fosFileOpen
  by_cases both : flags.creat ∧ flags.directory
  · rw [if_pos both]
    trivial
  · rw [if_neg both]
    refine tended_bind (tended_walks walks_lookupParent) fun r => ?_
    obtain ⟨found, rest⟩ := r
    simp only
    split_ifs with ok creat
    · trivial
    · have notDir : flags.directory = false := by simpa [creat] using both
      refine tended_bind (tended_of_all (Prog.all_lift _)) fun dirEntryServer => ?_
      split_ifs
      · exact tended_openCreate noTrunc
      · exact tended_openCreate3 noTrunc notDir
    · refine tended_bind (tended_walks walks_lookup) fun child => tended_bind tended_ensure fun _ => ?_
      split_ifs
      · trivial
      · exact tended_openInode noTrunc

variable {f : AppFile} {h : Nat}

theorem Known.set {x : Object} {g : AppFile} (known : Known x size h f) (inode : g.inode = f.inode) (fd : g.fd = f.fd)
    (same : g.size = f.size) (valid : g.state ≠ .invalid → f.state ≠ .invalid) : Action.Stores x size (.setFile h g) := fun isOwn => by
  rw [Known, if_pos isOwn] at known
  exact ⟨inode ▸ known.1, fd ▸ known.2.1, fun state => same ▸ known.2.2 (valid state)⟩

theorem Known.flush {x : Object} (known : Known x size h f) (valid : f.state ≠ .invalid) :
    Action.Stores x size (.rpc f.inode.server (.flush f.fd f.size f.offset)) := fun server fd => by
  unfold Known at known
  split_ifs at known
  · exact known.2.2 valid
  · exact absurd ⟨server, fd⟩ (known valid)

theorem tended_onFile {op : AppFile → FsProg Int} (all : ∀ f, (∀ x ∈ o, Known x size h f) → Tended o size (op f)) :
    Tended o size (onFile h op) := by
  refine ⟨⟨trivial, fun _ _ => trivial⟩, fun r known => ?_⟩
  cases r with
  | none => trivial
  | some f => exact all f fun x mem => known x mem f rfl

theorem tended_read {count : Nat} (known : ∀ x ∈ o, Known x size h f) : Tended o size (f.read cfg h count) := by
  refine tended_of_all (all_read (fun offset => ⟨trivial, fun x mem => (known x mem).set ?_ ?_ ?_ ?_⟩)
    (fun _ _ _ => ⟨trivial, fun _ _ => trivial⟩) fun _ _ _ => ⟨trivial, fun _ _ => trivial⟩)
  all_goals
    unfold AppFile.touch
    split_ifs with shared
    all_goals simp_all

theorem tended_close (known : ∀ x ∈ o, Known x size h f) : Tended o size (f.close cfg h) :=
  tended_of_all (all_close ⟨trivial, fun _ _ => trivial⟩ (fun valid => ⟨trivial, fun x mem => (known x mem).flush valid⟩)
    ⟨⟨rfl, rfl⟩, fun _ _ => trivial⟩)

theorem tended_lseek {whence : Whence} (known : ∀ x ∈ o, Known x size h f) :
    Tended o size (f.lseek cfg h offset whence) := by
  unfold AppFile.lseek
  split_ifs
  · exact tended_bind (tended_of_all (Prog.all_lift _)) fun _ => tended_bind
      (tended_perform trivial fun x mem => (known x mem).set rfl rfl rfl id) fun _ => tended_ret
  · exact tended_bind (tended_perform trivial fun _ _ => trivial) fun _ => tended_ret

theorem tended_fosFileDup : Tended o size f.fosFileDup :=
  tended_bind (tended_perform trivial fun _ _ => trivial) fun _ => tended_ensure

theorem tended_clone (known : ∀ x ∈ o, Known x size h f) : Tended o size (f.clone cfg h) := by
  have invalid : Tended o size (perform (.setFile h { f with state := .invalid })) :=
    tended_perform trivial fun x mem => (known x mem).set rfl rfl rfl fun valid => absurd rfl valid
  refine tended_bind ?_ fun _ => tended_fosFileDup
  unfold AppFile.invalidate
  split_ifs with exclusive
  · exact tended_bind (tended_perform trivial fun x mem => (known x mem).flush (by simp [exclusive.2])) fun _ => invalid
  · exact invalid

theorem tended_cloneFiles {hs : List Nat} : Tended o size (cloneFiles cfg hs) := by
  induction hs with
  | nil => trivial
  | cons h hs ih =>
    refine ⟨⟨trivial, fun _ _ => trivial⟩, fun r known => ?_⟩
    cases r with
    | none => trivial
    | some f => exact tended_bind (p := f.clone cfg h) (tended_clone fun x mem => known x mem f rfl) fun _ => ih

/-- The operations of a reader perform only the actions of one. -/
theorem tended_code {op : ShareOp} (reads : op.Reads) : Tended o size (op.code cfg) := by
  cases op with
  | plain op =>
    cases op with
    | «open» parent path flags mode => exact tended_bind (tended_fileOpen reads) fun _ => tended_ret
    | read h count => exact tended_onFile fun f known => tended_bind (tended_read known) fun _ => tended_ret
    | close h => exact tended_onFile fun f known => tended_close known
    | _ => exact reads.elim
  | lseek h offset whence => exact tended_onFile fun f known => tended_lseek known
  | dup h => exact tended_onFile fun f _ => tended_ret
  | flatten h =>
    exact tended_onFile fun f _ => tended_bind (tended_bind tended_fosFileDup fun _ =>
      tended_bind (tended_perform trivial fun _ _ => trivial) fun _ => tended_ret) fun _ => tended_ret
  | fork hs => exact tended_cloneFiles
  | inherit f => exact tended_bind (tended_perform trivial fun _ _ => trivial) fun _ => tended_ret

end

/-! ### Runs -/

namespace Cluster
open System
variable {cfg : Config} {w w' : Cluster} {c c' size : Nat} {x : Object} {env : Env} {a : Action} {r : a.Reply}

/-- The objects of an old number are changed by nothing but `setFile`. -/
theorem exec_own {h : Nat} {f : AppFile} (old : h < (w.clients c').nextFile) (done : w.exec cfg c env a = .ok (w', r))
    (found : (w'.clients c').files.lookup h = some f) : (w.clients c').files.lookup h = some f ∨ c' = c ∧ a = .setFile h f := by
  cases a with
  | rpc i q =>
    rw [(request_files done c').1] at found
    exact .inl found
  | _ =>
    cases done
    by_cases same : c' = c
    · subst same
      first
        | exact .inl found
        | simp only [setClient, update_self, Client.check] at found
          first
            | exact .inl found
            | exact .inl ((AList.lookup_insert_ne (Nat.ne_of_lt old)).symm.trans found)
            | exact .inl (lookup_erase_some.mp found).2
            | rcases lookup_insert_some.mp found with ⟨rfl, rfl⟩ | ⟨-, found⟩
              · exact .inr ⟨rfl, rfl⟩
              · exact .inl found
    · exact .inl (by simpa [setClient, setServer, same] using found)

theorem exec_next (done : w.exec cfg c env a = .ok (w', r)) : (w.clients c').nextFile ≤ (w'.clients c').nextFile := by
  cases a with
  | rpc i q => exact Nat.le_of_eq (request_files done c').2.symm
  | _ =>
    cases done
    by_cases same : c' = c
    · subst same
      simp [setClient, setServer, Client.check]
    · simp [setClient, setServer, same]

theorem sizeOf_eq_some {id : FileId} : w.sizeOf x = some (id, n) ↔ ∃ d g, (w.servers x.server).fds.lookup x.fd = some d ∧
    (w.servers x.server).files.lookup d.id = some (.file g) ∧ d.id = id ∧ g.size = n := by
  unfold sizeOf
  constructor
  · grind
  · rintro ⟨d, g, isFd, isFile, rfl, rfl⟩
    simp only [isFd, isFile]

/-- What nobody changes keeps its size, if the descriptor still refers to the same file. -/
theorem Unchanged.sizeOf {id : FileId} {m : Nat} (same : Unchanged c w w') (before : w.sizeOf x = some (id, n))
    (after : w'.sizeOf x = some (id, m)) : m = n := by
  obtain ⟨d, g, -, isFile, rfl, rfl⟩ := sizeOf_eq_some.mp before
  obtain ⟨d', g', -, isFile', sameId, rfl⟩ := sizeOf_eq_some.mp after
  rw [sameId] at isFile'
  rcases same.files _ _ g isFile with ⟨f, found, size, -⟩ | ⟨gone, -⟩
  · cases found.symm.trans isFile'
    exact size
  · exact absurd (mem_of_lookup isFile') gone

/-- A step that does not disturb the client keeps its copy right. -/
theorem Copied.exec (copied : w.Copied c x size) (own : c' = c → a.Reads ∧ a.Stores x size ∨ a.Spares x)
    (undisturbed : w'.sizeOf x = none ∨ w'.sizeOf x = w.sizeOf x ∨ c' = c ∧ a.Reads ∧ w.Mild a ∧
      (a.flushed = none ∨ a.flushed = some (x.server, x.fd)) ∧ (w'.sizeOf x).map Prod.fst = (w.sizeOf x).map Prod.fst)
    (done : w.exec cfg c' env a = .ok (w', r)) : w'.Copied c x size where
  next := Nat.lt_of_lt_of_le copied.next (exec_next done)
  own f found := by
    rcases exec_own copied.next done found with found | ⟨same, rfl⟩
    · exact copied.own f found
    · rcases own same.symm with ⟨-, stores⟩ | spares
      · exact stores rfl
      · exact absurd rfl spares
  current id n after := by
    rcases undisturbed with gone | same | ⟨rfl, reads, mild, flushed, sameId⟩
    · cases gone.symm.trans after
    · exact copied.current id n (same ▸ after)
    · rw [after, Option.map_some] at sameId
      obtain ⟨⟨id', m⟩, before, isId⟩ := Option.map_eq_some_iff.mp sameId.symm
      obtain rfl : id' = id := isId
      refine (Unchanged.sizeOf (exec_unchanged reads mild ?_ done) before after).trans (copied.current _ m before)
      rintro i fd size' offset rfl h id'' n' isSize
      obtain ⟨rfl, rfl⟩ := Prod.mk.inj (Option.some.inj (flushed.resolve_left (Option.some_ne_none _)))
      rcases own rfl with ⟨-, stores⟩ | spares
      · exact (stores rfl rfl).trans (copied.current id'' n' isSize).symm
      · exact absurd rfl spares

theorem Copied.replies (copied : w.Copied c x size) (single : w.Single c x) (done : w.exec cfg c env a = .ok (w', r)) :
    Replies x size a r := by
  cases a with
  | getFile h =>
    cases done
    intro f found
    unfold Known
    split_ifs with own
    · subst own
      exact copied.own f found
    · exact single h own f found
  | newFile f =>
    cases done
    exact Nat.ne_of_gt copied.next
  | _ => trivial

/-- The copy of the object is right, and the rest of a call is a program of a reader, or has nothing to do with the object. -/
structure Reading (cfg : Config) (c : Nat) (x : Option Object) (size : Nat) (s : FsConf) (o : Option ShareOp) : Prop where
  copied : ∀ y ∈ x, s.world.Copied c y size
  calls : ∀ p, s.call c = some p → ∃ o', o = some o' ∧ (o'.Reads → Tended x size p) ∧
    (¬o'.Reads → ∀ y ∈ x, p.All (Action.Spares y))

theorem Reading.step {x : Option Object} {s t : FsConf} {o : Option ShareOp} {l : Label ShareOp Env (Nat × Nat)}
    (reading : Reading cfg c x size s o) (allowed : ∀ y ∈ x, Undisturbed cfg c y s l)
    (stepped : (shareSystem cfg).step s l = some t) : Reading cfg c x size t (lastCall c o [l]) := by
  cases l with
  | call c' o' =>
    simp only [System.step] at stepped
    split at stepped
    · cases stepped
    · cases stepped
      refine ⟨reading.copied, fun p isCall => ?_⟩
      by_cases same : c' = c
      · subst same
        simp only [update_self] at isCall
        cases isCall
        exact ⟨o', by simp [lastCall], tended_code, fun not y mem => (allowed y mem rfl).resolve_left not⟩
      · simp only [update_of_ne (Ne.symm same)] at isCall
        simpa [lastCall, same] using reading.calls p isCall
  | act c' env =>
    simp only [System.step] at stepped
    split at stepped
    · next a k isAct =>
      split at stepped
      · next w r done =>
        cases stepped
        have next : ∀ y ∈ x, (c' = c → a.Reads ∧ a.Stores y size ∨ a.Spares y) → w.Copied c y size := fun y mem own =>
          (reading.copied y mem).exec own ((allowed y mem).2 a k w r isAct done) done
        by_cases same : c' = c
        · subst same
          obtain ⟨o', called, reads, spares⟩ := reading.calls _ isAct
          by_cases isReader : o'.Reads
          · refine ⟨fun y mem => next y mem fun _ => .inl ⟨(reads isReader).1.1, (reads isReader).1.2 y mem⟩, fun p isCall => ?_⟩
            simp only [update_self] at isCall
            cases isCall
            exact ⟨o', called, fun _ => (reads isReader).2 r fun y mem => (reading.copied y mem).replies (allowed y mem).1 done,
              fun not => absurd isReader not⟩
          · refine ⟨fun y mem => next y mem fun _ => .inr (spares isReader y mem).1, fun p isCall => ?_⟩
            simp only [update_self] at isCall
            cases isCall
            exact ⟨o', called, fun isReader' => absurd isReader' isReader, fun _ y mem => (spares isReader y mem).2 r⟩
        · refine ⟨fun y mem => next y mem fun isOwn => absurd isOwn same, fun p isCall => ?_⟩
          simp only [update_of_ne (Ne.symm same)] at isCall
          exact reading.calls p isCall
      · cases stepped
    · cases stepped
  | ret c' =>
    simp only [System.step] at stepped
    split at stepped
    · cases stepped
      refine ⟨reading.copied, fun p isCall => ?_⟩
      by_cases same : c' = c
      · subst same
        simp at isCall
      · simp only [update_of_ne (Ne.symm same)] at isCall
        exact reading.calls p isCall
    · cases stepped
  | intern i =>
    obtain ⟨w, received, rfl⟩ := Option.map_eq_some_iff.mp stepped
    obtain ⟨servers, files⟩ := intern_files received
    refine ⟨fun y mem => ?_, reading.calls⟩
    have copied := reading.copied y mem
    exact ⟨(files c).2 ▸ copied.next, (files c).1 ▸ copied.own, by simpa [Cluster.sizeOf, servers] using copied.current⟩

def whole (c : Nat) (o : ShareOp) (n rand : Nat) : List (Label ShareOp Env (Nat × Nat)) :=
  wholeCall c o (List.replicate n { rand, rand' := 0, stats := [] })

def beginClose (c h : Nat) : List (Label ShareOp Env (Nat × Nat)) :=
  .call c (.plain (.close h)) :: List.replicate 2 (.act c { rand := 0, rand' := 0, stats := [] })

def sizes (s : FsConf) : List (FileId × Nat) := (s.world.servers 0).files.entries.map fun e => (e.1, e.2.size)

instance : DecidablePred ShareOp.Reads := fun o => by
  unfold ShareOp.Reads
  split <;> infer_instance

/-- `Undisturbed` as a test, when all calls of the client are those of a reader and no step changes the size. -/
def checkUndisturbed (cfg : Config) (c : Nat) (x : Object) (s : FsConf) : Label ShareOp Env (Nat × Nat) → Bool
  | .call c' o => c' ≠ c ∨ o.Reads
  | .act c' env =>
    ((s.world.clients c).files.entries.all fun e => e.1 = x.h ∨ e.2.state = .invalid ∨ ¬(e.2.inode.server = x.server ∧ e.2.fd = x.fd)) &&
    match s.call c' with
    | some (.act a _) =>
      match s.world.exec cfg c' env a with
      | .ok (w, _) => w.sizeOf x = s.world.sizeOf x
      | .error _ => true
    | _ => true
  | _ => true

theorem undisturbed_of_check (s : FsConf) (l : Label ShareOp Env (Nat × Nat)) (checked : checkUndisturbed cfg c x s l = true) :
    Undisturbed cfg c x s l := by
  cases l with
  | call c' o => exact fun same => .inl ((of_decide_eq_true checked).resolve_left fun ne => ne same)
  | act c' env =>
    simp only [checkUndisturbed, Bool.and_eq_true, List.all_eq_true] at checked
    refine ⟨fun h ne f found valid => ?_, fun a k w r isAct done => .inr (.inl ?_)⟩
    · have := of_decide_eq_true (checked.1 ⟨h, f⟩ (AList.mem_lookup_iff.mp found))
      exact (this.resolve_left ne).resolve_left valid
    · simp only [isAct, done] at checked
      exact of_decide_eq_true checked.2
  | ret c' => trivial
  | intern i => trivial

/-- Client 1 has opened the file that client 0 has written. -/
def readOpened : List (Label ShareOp Env (Nat × Nat)) :=
  whole 0 (.plain (.open root "a" { creat := true, rdwr := true } 420)) 5 1 ++ whole 0 (.plain (.write 0 [7])) 12 0 ++
  whole 1 (.plain (.open root "a" {} 0)) 10 2

/-- It reads while client 0 writes the byte again, and closes the file. -/
def readShared : List (Label ShareOp Env (Nat × Nat)) :=
  whole 0 (.lseek 0 0 .set) 2 0 ++ [.call 1 (.plain (.read 0 1)), .act 1 { rand := 0, rand' := 0, stats := [] }] ++
  whole 0 (.plain (.write 0 [9])) 5 0 ++ List.replicate 3 (.act 1 { rand := 0, rand' := 0, stats := [] }) ++ [.ret 1] ++ beginClose 1 0

/-- Client 1, its object, and the file. -/
def copiedOne (m : FsConf) : Bool :=
  match m.call 1, (m.world.clients 1).files.lookup 0, m.world.sizeOf ⟨0, 0, 2⟩ with
  | none, some f, some (_, n) =>
    f.inode.server = 0 ∧ f.fd = 2 ∧ f.size = 1 ∧ n = 1 ∧ 0 < (m.world.clients 1).nextFile
  | _, _, _ => false

theorem copied_of_copiedOne {m : FsConf} (checked : copiedOne m = true) : m.call 1 = none ∧ m.world.Copied 1 ⟨0, 0, 2⟩ 1 := by
  unfold copiedOne at checked
  split at checked
  · next f id n idle found size =>
    obtain ⟨server, fd, isSize, isOne, next⟩ := of_decide_eq_true checked
    refine ⟨idle, next, fun g found' => ?_, fun id' n' size' => ?_⟩
    · cases found.symm.trans found'
      exact ⟨server, fd, fun _ => isSize⟩
    · cases size.symm.trans size'
      exact isOne
  · cases checked

/-- The next action of client 1 is the flush of its object. -/
def flushesOne (t : FsConf) : Bool :=
  match t.call 1 with
  | some (.act (.rpc i (.flush fd _ _)) _) => i = 0 ∧ fd = 2
  | _ => false

theorem flush_of_flushesOne {t : FsConf} (checked : flushesOne t = true) {k : a.Reply → FsProg Int}
    (isAct : t.call 1 = some (.act a k)) : t.world.Mild a ∧ ∀ i fd, a.flushed = some (i, fd) → i = 0 ∧ fd = 2 := by
  unfold flushesOne at checked
  split at checked
  · next i fd size offset k' isFlush =>
    cases isAct.symm.trans isFlush
    refine ⟨trivial, fun i' fd' same => ?_⟩
    cases same
    exact of_decide_eq_true checked
  · cases checked

theorem run_readOpened : (run (shareSystem oneCached).step (idle twoBlocks) readOpened).map copiedOne = some true := by decide +kernel

theorem check_readShared : (run (shareSystem oneCached).step (idle twoBlocks) readOpened).map (fun m =>
    checkRun (checkUndisturbed oneCached 1 ⟨0, 0, 2⟩) (shareSystem oneCached).step m readShared) = some true := by decide +kernel

theorem run_readShared : (run (shareSystem oneCached).step (idle twoBlocks) (readOpened ++ readShared)).bind (fun t =>
    ((shareSystem oneCached).step t (.act 1 { rand := 0, rand' := 0, stats := [] })).map fun u => (flushesOne t, sizes u)) =
      some (true, [(2, 1), (0, 4096)]) := by decide +kernel

def readStale : List (Label ShareOp Env (Nat × Nat)) :=
  whole 0 (.plain (.open root "a" { creat := true, rdwr := true } 420)) 5 1 ++ whole 1 (.plain (.open root "a" {} 0)) 8 2 ++
  whole 1 (.plain (.read 0 1)) 2 0 ++ whole 0 (.plain (.write 0 [7])) 12 0 ++ whole 0 (.plain (.close 0)) 4 0 ++ beginClose 1 0

theorem run_readStale : (run (shareSystem oneCached).step (idle twoBlocks) readStale).bind (fun t =>
    ((shareSystem oneCached).step t (.act 1 { rand := 0, rand' := 0, stats := [] })).bind fun u =>
      match (t.world.servers 0).files.lookup 2, (u.world.servers 0).files.lookup 2 with
      | some (.file g), some (.file g') => some (g.size, g'.size)
      | _, _ => none) = some (1, 0) := by decide +kernel

end Cluster
end Faux
