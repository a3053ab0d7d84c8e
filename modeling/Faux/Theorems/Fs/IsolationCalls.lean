import Faux.Theorems.Fs.Isolation

/-! The operations on files, one after the other: every one keeps blocks with their inodes. -/

namespace Faux
open Function Lib

namespace Server
variable {s t : Server} {env : Env} {app : AppId} {id : FileId} {offset count mode server : Nat} {flags : Flags}
  {reply : OpenReply} {fd : Fd} {list : List Nat} {path : Name}

theorem blocks_spec {st : Status} (done : s.blocks id offset count = .ok (st, list)) :
    ∃ g, s.files.lookup id = some (.file g) ∧ ∀ b ∈ list, ∃ a ∈ g.all, b = a - s.bufferCache.start := by
  unfold blocks at done
  split at done
  · next g found =>
    refine ⟨g, found, ?_⟩
    have sub : ∀ {l : List Nat}, l ⊆ g.all → ∀ b ∈ l.map (· - s.bufferCache.start), ∃ a ∈ g.all, b = a - s.bufferCache.start := by
      grind
    have memory : (g.memoryBlocks.drop (toInt32 offset).toNat).take (toInt32 count).toNat ⊆ g.all :=
      fun a mem => List.mem_append_left _ (List.mem_of_mem_drop (List.mem_of_mem_take mem))
    simp only [File.blocks] at done
    split_ifs at done
    · cases done
      refine sub (List.append_subset.mpr ⟨memory, fun a mem => ?_⟩)
      exact List.mem_append_right _ (List.mem_of_mem_drop (List.mem_of_mem_take mem))
    · cases done
      refine sub (List.append_subset.mpr ⟨memory, fun a mem => ?_⟩)
      exact List.mem_append_right _ (List.mem_of_mem_drop (List.mem_of_mem_take mem))
    · cases done
      exact sub memory
  · cases done

theorem open_file {reply : Opened} (done : s.open env id flags = .ok (t, reply))
    (type : reply.type = some .file) (opened : reply.fd = some fd) :
    fd = env.rand ∧ (∃ d, t.fds.lookup fd = some d ∧ d.id = id) ∧ ∃ g, t.files.lookup id = some (.file g) := by
  rcases open_inv done with ⟨-, none⟩ | ⟨f, g, bc, -, -, -, rfl, rfl⟩ | ⟨d, -, -, rfl⟩
  · cases none.symm.trans opened
  · cases opened
    exact ⟨rfl, ⟨_, AList.lookup_insert _, rfl⟩, g, AList.lookup_insert _⟩
  · simp only [VFile.type] at type
    split_ifs at type <;> cases type

theorem create_server {parent : FileId} {st : Status} {i : Option InodeType}
    (created : s.create parent path flags mode = .ok (t, st, i)) : t.id = s.id := by
  rcases create_inv created with ⟨p, -, -, ⟨entry, -, rfl, -, -⟩ | ⟨v, -, -, rfl, -, -⟩⟩ | ⟨-, rfl, -, -⟩
  · exact grows_lazyDir.id
  · exact grows_lazyDir.id
  · exact grows_lazyDir.id

theorem handleCreateOpen_file {parent : FileId} {exist : InodeType}
    (done : s.handleCreateOpen env app parent path flags mode = .ok (t, reply)) (exists_ : reply.exist = some exist)
    (type : reply.type = some .file) (opened : reply.fd = some fd) :
    exist.server = s.id ∧ fd = env.rand ∧ (∃ d, t.fds.lookup fd = some d ∧ d.id = exist.id) ∧
      ∃ g, t.files.lookup exist.id = some (.file g) := by
  obtain ⟨u, st', created, done⟩ := handleCreateOpen_inv done
  rcases done with ⟨-, isReply⟩ | ⟨child, v, isChild, -, mapped, ⟨-, -, isReply⟩ | ⟨here, opened'⟩⟩
  · cases (congrArg (·.type) isReply).symm.trans type
  · cases (congrArg (·.type) isReply).symm.trans type
  · obtain rfl : child = exist := Option.some.inj (isChild.symm.trans exists_)
    obtain ⟨fresh, live, file⟩ := open_file opened' type opened
    exact ⟨here.trans ((mapOpen_grows mapped).id.trans (create_server created)), fresh, live, file⟩

end Server

namespace Isolation
open Cluster System

variable {cfg cfg' : Config} {c : Nat} {g : Mine} {α : Type} {post : Mine → α → Prop} {ghost : Nat → Mine}
  {w w' : Cluster} {x : Hold}

theorem fine_ensure {b : Bool} {post : Mine → Unit → Prop} (next : b = true → post g ()) : Fine cfg post c g (ensure b) := by
  cases b with
  | false => trivial
  | true => exact next rfl

/-! ### Requests that give or take a descriptor -/

theorem fine_getBlocklist {h : Nat} {f : AppFile} {k : List Nat → FsProg α} (found : g.files.lookup h = some f)
    (next : ∀ list, Fine cfg post c { g with lent := [{ f.hold with blocks := list }] } (k list)) :
    Fine cfg post c g (AppFile.getBlocklist f.inode offset count >>= k) := by
  refine Ok.bind (Ok.bind ?_)
  rintro ⟨w, since, hist, log⟩ ghost e (inv : Inv w ghost) own allowed
  refine ⟨fun _ _ => trivial, fun w' r done => ?_⟩
  have done : w.request cfg c e f.inode.server (.blocks f.inode.id offset count) = .ok (w', r) := done
  have steady := steady_request inv allowed.1 (by simp) done
  have inv' := inv.steady steady
  obtain ⟨s, notes, handled, servers, -⟩ := request_eq_ok done
  obtain ⟨retval, list⟩ := r
  obtain ⟨asked, rfl⟩ := Server.looked_up handled
  refine ⟨{ g with lent := [{ f.hold with blocks := list }] }, ?_, ?_⟩
  · subst own
    have mine : f.hold ∈ (ghost c).all := Mine.file_mem found
    obtain ⟨file, isFile, mem⟩ := Server.blocks_spec asked
    have same : w'.servers f.inode.server = w.servers f.inode.server := by rw [servers, update_self]
    refine inv'.change (w := w') rfl (fun _ _ => ⟨rfl, rfl⟩) (inv'.files c) (inv'.handles c) (inv'.backed c) ?_ (inv'.unique c)
      fun x memX c' ne y memY => inv'.disjoint c c' (Ne.symm ne) x memX y memY
    intro x memX
    rw [List.mem_singleton.mp memX]
    refine ⟨⟨(inv'.backed c _ mine).fd, file, by simpa [AppFile.hold, same] using isFile, fun b memB => ?_⟩,
      List.mem_map.mpr ⟨_, mine, rfl⟩⟩
    obtain ⟨a, memA, rfl⟩ := mem b memB
    have inHeld : a ∈ (w.servers f.inode.server).held := by
      refine List.mem_append_right _ (List.mem_flatMap.mpr ⟨⟨_, .file file⟩, AList.mem_lookup_iff.mp isFile, memA⟩)
    have := (inv.parted f.inode.server).region a inHeld
    show (w'.servers f.inode.server).bufferCache.start + (a - _) ∈ _
    rw [same, Nat.add_sub_cancel' this]
    exact memA
  · exact Ok.bind (fine_ensure fun _ => next list)

theorem Inv.gain (inv : Inv w ghost) (steady : Steady w w') (backed : x.Backed w')
    (fresh : x.fd ∉ (w.servers x.server).fds) (holds : (ghost c).holds = []) :
    Inv w' (update ghost c { ghost c with holds := [x] }) := by
  have inv' := inv.steady steady
  have new : ∀ c', ∀ y ∈ (ghost c').all, x.key ≠ y.key := by
    intro c' y mem same
    obtain ⟨d, found, -⟩ := (inv.backed c' y mem).fd
    obtain ⟨server, fd⟩ : x.server = y.server ∧ x.fd = y.fd := Prod.mk.inj same
    rw [server, fd] at fresh
    exact fresh (mem_of_lookup found)
  have all : Mine.all { ghost c with holds := [x] } = (ghost c).all ++ [x] := by simp [Mine.all, holds]
  refine inv'.change (w := w') rfl (fun _ _ => ⟨rfl, rfl⟩) (inv'.files c) (inv'.handles c) ?_ ?_ ?_ ?_
  · rw [all]
    intro y mem
    rcases List.mem_append.mp mem with mem | mem
    · exact inv'.backed c y mem
    · rw [List.mem_singleton.mp mem]
      exact backed
  · intro y mem
    rw [all, List.map_append]
    exact ⟨(inv'.lent c y mem).1, List.mem_append_left _ (inv'.lent c y mem).2⟩
  · rw [all, List.map_append]
    refine List.nodup_append.mpr ⟨inv.unique c, List.nodup_singleton _, ?_⟩
    intro k memK k' memK' same
    obtain ⟨y, memY, rfl⟩ := List.mem_map.mp memK
    rw [List.mem_singleton.mp memK'] at same
    exact new c y memY same.symm
  · rw [all]
    intro y mem c' ne z memZ
    rcases List.mem_append.mp mem with mem | mem
    · exact inv.disjoint c c' (Ne.symm ne) y mem z memZ
    · rw [List.mem_singleton.mp mem]
      exact new c' z memZ

def opened (g : Mine) (server : Nat) (id : FileId) (reply : OpenReply) : Mine :=
  match reply.type, reply.fd with
  | some .file, some fd => if reply.retval = .ok then { g with holds := [{ server, fd, id, blocks := [] }] } else g
  | _, _ => g

theorem opened_of_fail {id : FileId} (failed : reply.retval ≠ .ok) :
    opened g server id reply = g := by
  unfold opened
  split
  · rw [if_neg failed]
  · rfl

theorem Inv.opened {id : FileId} (inv : Inv w ghost)
    (steady : Steady w w') (holds : (ghost c).holds = [])
    (file : ∀ fd, reply.type = some .file → reply.fd = some fd → fd ∉ (w.servers server).fds ∧
      (∃ d, (w'.servers server).fds.lookup fd = some d ∧ d.id = id) ∧ ∃ f, (w'.servers server).files.lookup id = some (.file f)) :
    Inv w' (update ghost c (opened (ghost c) server id reply)) := by
  have same : Inv w' (update ghost c (ghost c)) := by
    rw [update_eq_self]
    exact inv.steady steady
  unfold Isolation.opened
  split
  · next fd type isFd =>
    obtain ⟨fresh, live, f, found⟩ := file fd type isFd
    split_ifs
    · exact inv.gain (x := { server, fd, id, blocks := [] }) steady ⟨live, f, found, by simp⟩ fresh holds
    · exact same
  · exact same

theorem fine_open {inode : InodeType} {post : Mine → OpenReply → Prop} (holds : g.holds = [])
    (next : ∀ reply, post (opened g inode.server inode.id reply) reply) : Fine cfg post c g (fosOpen inode flags) := by
  rintro ⟨w, since, hist, log⟩ ghost e (inv : Inv w ghost) own allowed
  refine ⟨fun _ _ => trivial, fun w' reply done => ⟨_, ?_, next reply⟩⟩
  have done : w.request cfg c e inode.server (.open inode.id flags) = .ok (w', reply) := done
  have steady := steady_request inv allowed.1 (by simp) done
  obtain ⟨s, notes, handled, servers, -⟩ := request_eq_ok done
  subst own
  refine inv.opened steady holds fun fd type isFd => ?_
  obtain ⟨rfl, live, file⟩ := Server.open_file (Server.handle_open_inv handled) type isFd
  rw [servers, update_self]
  exact ⟨allowed.1.fds.2 _ (List.mem_singleton_self _), live, file⟩

theorem fine_createOpen {parent : Inode} {post : Mine → OpenReply → Prop}
    (holds : g.holds = []) (next : ∀ reply exist, reply.exist = some exist → post (opened g exist.server exist.id reply) reply)
    (none : ∀ reply, reply.exist = none → post g reply) :
    Fine cfg post c g (rpc server (.createOpen parent path flags mode)) := by
  rintro ⟨w, since, hist, log⟩ ghost e (inv : Inv w ghost) own allowed
  refine ⟨fun _ _ => trivial, fun w' reply done => ?_⟩
  have done : w.request cfg c e server (.createOpen parent path flags mode) = .ok (w', reply) := done
  have steady := steady_request inv allowed.1 (by simp) done
  obtain ⟨s, notes, handled, servers, -⟩ := request_eq_ok done
  subst own
  cases isExist : reply.exist with
  | none =>
    refine ⟨ghost c, ?_, none reply isExist⟩
    rw [update_eq_self]
    exact inv.steady steady
  | some exist =>
    refine ⟨_, inv.opened steady holds fun fd type isFd => ?_, next reply exist isExist⟩
    obtain ⟨here, rfl, live, file⟩ := Server.handleCreateOpen_file (Server.answered handled) isExist type isFd
    obtain rfl : exist.server = server := here.trans (inv.ids server)
    rw [servers, update_self]
    exact ⟨allowed.1.fds.2 _ (List.mem_singleton_self _), live, file⟩

theorem backed_of_closed {i : Nat} {s : Server} (backed : x.Backed w) (ne : x.key ≠ (i, fd))
    (closed : Server.Closed fd (w.servers i) s) (servers : w'.servers = update w.servers i s) : x.Backed w' := by
  by_cases same : x.server = i
  · subst same
    have fdNe : x.fd ≠ fd := fun eq => ne (by rw [Hold.key, eq])
    obtain ⟨d, found, sameId⟩ := backed.fd
    obtain ⟨f, file, blocks⟩ := backed.blocks
    have found' : s.fds.lookup x.fd = some d := (closed.others _ fdNe).trans found
    obtain ⟨v, file', le⟩ := closed.files _ _ ⟨_, d, found', sameId⟩ file
    refine ⟨⟨d, by rw [servers, update_self]; exact found', sameId⟩, ?_⟩
    rw [servers, update_self]
    cases v with
    | file f' => exact ⟨f', file', fun b mem => closed.start ▸ le (blocks b mem)⟩
    | dir => exact (le : False).elim
    | symlink => exact (le : False).elim
  · have eq : w'.servers x.server = w.servers x.server := by rw [servers, update_of_ne same]
    exact ⟨eq ▸ backed.fd, eq ▸ backed.blocks⟩

theorem Inv.closed {i : Nat} {s : Server} (inv : Inv w ghost)
    (free : ∀ c, ∀ x ∈ (ghost c).all, x.key ≠ (i, fd)) (closed : Server.Closed fd (w.servers i) s)
    (servers : w'.servers = update w.servers i s)
    (files : ∀ c, (w'.clients c).files = (w.clients c).files ∧ (w'.clients c).nextFile = (w.clients c).nextFile) : Inv w' ghost := by
  refine ⟨forall_of_update (fun j t => t.id = j) servers (closed.id.trans (inv.ids i)) fun j _ => inv.ids j,
    forall_of_update (fun _ t => t.Inv) servers closed.inv fun j _ => inv.servers j,
    forall_of_update (fun _ t => t.Parted) servers (parted_of_subperm (inv.parted i) closed.start closed.held) fun j _ => inv.parted j,
    fun c => (files c).1.trans (inv.files c), fun c h mem => (files c).2 ▸ inv.handles c h mem,
    fun c x mem => backed_of_closed (inv.backed c x mem) (free c x mem) closed servers, fun c x mem => ?_, inv.unique, inv.disjoint⟩
  obtain ⟨backed, key⟩ := inv.lent c x mem
  obtain ⟨y, memY, same⟩ := List.mem_map.mp key
  exact ⟨backed_of_closed backed (same ▸ free c y memY) closed servers, key⟩

theorem Inv.drop (inv : Inv w ghost) (holds : (ghost c).holds = [x])
    (lent : (ghost c).lent = []) : Inv w (update ghost c { ghost c with holds := [] }) ∧
      ∀ c', ∀ y ∈ (update ghost c { ghost c with holds := [] } c').all, y.key ≠ x.key := by
  have all : (ghost c).all = Mine.all { ghost c with holds := [] } ++ [x] := by simp [Mine.all, holds]
  have mine : x ∈ (ghost c).all := all ▸ List.mem_append_right _ (List.mem_singleton_self x)
  have sub : ∀ y ∈ Mine.all { ghost c with holds := [] }, y ∈ (ghost c).all := fun y mem => all ▸ List.mem_append_left _ mem
  have nodup := inv.unique c
  rw [all, List.map_append, List.nodup_append] at nodup
  refine ⟨inv.change rfl (fun _ _ => ⟨rfl, rfl⟩) (inv.files c) (inv.handles c) (fun y mem => inv.backed c y (sub y mem)) ?_
    nodup.1 fun y mem c' ne z memZ => inv.disjoint c c' (Ne.symm ne) y (sub y mem) z memZ, ?_⟩
  · simp [lent]
  · exact forall_of_update (fun _ (m : Mine) => ∀ y ∈ m.all, y.key ≠ x.key) rfl
      (fun y mem => nodup.2.2 _ (List.mem_map_of_mem mem) _ (List.mem_singleton_self _)) fun c' ne y mem => inv.disjoint c' c ne y mem x mine

theorem fine_close {offset size : Option Nat} {post : Mine → Status → Prop} (holds : g.holds = [x]) (lent : g.lent = [])
    (next : ∀ st, post { g with holds := [] } st) : Fine cfg post c g (rpc x.server (.close x.fd offset size)) := by
  rintro ⟨w, since, hist, log⟩ ghost e (inv : Inv w ghost) own allowed
  refine ⟨fun _ _ => trivial, fun w' st done => ⟨_, ?_, next st⟩⟩
  have done : w.request cfg c e x.server (.close x.fd offset size) = .ok (w', st) := done
  obtain ⟨s, notes, handled, servers, -⟩ := request_eq_ok done
  subst own
  obtain ⟨dropped, free⟩ := inv.drop holds lent
  exact dropped.closed free (Server.close_closed (inv.servers x.server) allowed.1 (Server.handle_close_inv handled)) servers (request_files done)

/-! ### Block lists -/

structure Open (h : Nat) (f : AppFile) (g : Mine) : Prop where
  file : g.files.lookup h = some f
  holds : g.holds = []
  lent : g.lent = []

def Settled (g : Mine) : Prop := g.holds = [] ∧ g.lent = []

theorem Open.settled {h : Nat} {f : AppFile} (isOpen : Open h f g) : Settled g := ⟨isOpen.holds, isOpen.lent⟩

variable {h : Nat} {f f' : AppFile}

theorem fine_set {post : Mine → Unit → Prop} (isOpen : Open h f g) (inode : f'.inode = f.inode) (fd : f'.fd = f.fd)
    (blocks : f'.blocks = f.blocks) (next : ∀ g', Open h f' g' → post g' ()) : Fine cfg post c g (perform (.setFile h f')) :=
  fine_setFile isOpen.file inode fd (fun _ mem => .inl (blocks ▸ mem))
    (next _ ⟨AList.lookup_insert _, isOpen.holds, rfl⟩)

theorem fine_new {post : Mine → Nat → Prop} (holds : g.holds = [f.hold]) (next : ∀ h g', Open h f g' → post g' h) :
    Fine cfg post c g (perform (.newFile f)) :=
  fine_newFile holds fun h => next h _ ⟨AList.lookup_insert _, rfl, rfl⟩

theorem fine_delete {post : Mine → Unit → Prop} (isOpen : Open h f g)
    (next : post { files := g.files.erase h, holds := [f.hold], lent := [] } ()) :
    Fine cfg post c g (perform (.deleteFile h)) :=
  fine_deleteFile isOpen.file isOpen.holds next

theorem mem_storeBlocks {b : Nat} : ∀ {blocks : List Nat} {offset : Nat},
    b ∈ AppFile.storeBlocks blocks offset list → b ∈ blocks ∨ b ∈ list := by
  induction list with
  | nil => exact fun mem => .inl mem
  | cons a as ih =>
    intro blocks offset mem
    rcases ih mem with mem | mem
    · split_ifs at mem
      · rcases List.mem_or_eq_of_mem_set mem with mem | rfl
        · exact .inl mem
        · exact .inr (List.mem_cons_self ..)
      · rcases List.mem_append.mp mem with mem | mem
        · exact .inl mem
        · exact .inr (List.mem_cons.mpr (.inl (List.mem_singleton.mp mem)))
    · exact .inr (List.mem_cons_of_mem _ mem)

theorem fine_store {post : Mine → Unit → Prop} (isOpen : Open h f g)
    (next : ∀ g', Open h { f with blocks := AppFile.storeBlocks f.blocks offset list } g' → post g' ()) :
    Fine cfg post c { g with lent := [{ f.hold with blocks := list }] }
      (perform (.setFile h { f with blocks := AppFile.storeBlocks f.blocks offset list })) := by
  refine fine_setFile (f := f) isOpen.file rfl rfl (fun b mem => ?_) (next _ ⟨AList.lookup_insert _, isOpen.holds, rfl⟩)
  exact (mem_storeBlocks mem).imp id fun memList => ⟨_, List.mem_singleton_self _, rfl, rfl, memList⟩

theorem fine_cacheLoop : ∀ {fuel n : Nat} {f : AppFile} {g : Mine}, Open h f g →
    Fine cfg (fun g' f' => Open h f' g') c g (AppFile.cacheLoop h fuel f n count) := by
  intro fuel
  induction fuel with
  | zero => exact fun {_ _ _} isOpen => isOpen
  | succ fuel ih =>
    intro n f g isOpen
    unfold AppFile.cacheLoop
    split_ifs
    · exact fine_getBlocklist isOpen.file fun list => Ok.bind (fine_store isOpen fun g' isOpen' => ih isOpen')
    · exact isOpen

theorem fine_cacheBlocks (isOpen : Open h f g) : Fine cfg (fun g' f' => Open h f' g') c g (f.cacheBlocks cfg' h) := by
  unfold AppFile.cacheBlocks
  split_ifs
  · exact fine_cacheLoop isOpen
  · exact isOpen

theorem quiet_truncateInode {inode : InodeType} {len : Nat} : (AppFile.fosTruncateInode inode len).All Quiet :=
  ⟨trivial, fun _ => ⟨trivial, fun _ => quiet_rpc (by simp)⟩⟩

theorem fine_truncate {len : Nat} (isOpen : Open h f g) : Fine cfg (fun g' r => Open h r.1 g') c g (f.truncate cfg' h len) := by
  refine Ok.bind (fine_set isOpen ?_ ?_ ?_ fun g' isOpen' => fine_bind quiet_truncateInode fun st => isOpen')
  all_goals split_ifs <;> rfl

theorem fine_growLoop : ∀ {fuel cached additional : Nat} {f : AppFile} {g : Mine}, Open h f g →
    Fine cfg (fun g' f' => Open h f' g') c g (AppFile.growLoop h fuel f cached additional) := by
  intro fuel
  induction fuel with
  | zero => exact fun {_ _ _ _} isOpen => isOpen
  | succ fuel ih =>
    intro cached additional f g isOpen
    unfold AppFile.growLoop
    split_ifs
    · exact isOpen
    · exact fine_getBlocklist isOpen.file fun list =>
        Ok.bind (fine_store isOpen fun g' isOpen' => fine_bind (all_clearBlocks fun _ _ _ => trivial) fun _ => ih isOpen')

theorem fine_growTo {newSize : Nat} (isOpen : Open h f g) : Fine cfg (fun g' f' => Open h f' g') c g (f.growTo cfg' h newSize) := by
  unfold AppFile.growTo
  simp only
  generalize (if f.size % blockSize = 0 then 0 else blockSize - f.size % blockSize) = left
  split_ifs
  · exact Ok.bind ((fine_truncate isOpen).mono fun g' r isOpen' => fine_growLoop isOpen')
  · exact isOpen

theorem touch_same : f.touch.inode = f.inode ∧ f.touch.fd = f.fd ∧ f.touch.blocks = f.blocks := by
  unfold AppFile.touch
  split_ifs <;> exact ⟨rfl, rfl, rfl⟩

theorem fine_touch {post : Mine → Unit → Prop} (isOpen : Open h f g) (next : ∀ g', Open h f.touch g' → post g' ()) :
    Fine cfg post c g (perform (.setFile h f.touch)) :=
  fine_set isOpen touch_same.1 touch_same.2.1 touch_same.2.2 next

theorem fine_write {buf : List UInt8} (isOpen : Open h f g) : Fine cfg (fun g' _ => Settled g') c g (f.write cfg' h buf) := by
  refine Ok.bind (fine_touch isOpen fun g₁ isOpen₁ => ?_)
  split_ifs
  · refine Ok.bind ((fine_growTo isOpen₁).mono fun g₂ f₂ isOpen₂ => ?_)
    refine Ok.bind (fine_set isOpen₂ rfl rfl rfl fun g₃ isOpen₃ => fine_bind (all_copyInLoop fun _ _ _ => trivial) fun _ => ?_)
    exact Ok.bind (fine_set isOpen₃ rfl rfl rfl fun g₄ isOpen₄ => isOpen₄.settled)
  · refine fine_bind (all_fdWriteLoop fun _ _ _ _ => nofun) fun r => ?_
    exact Ok.bind (fine_set isOpen₁ rfl rfl rfl fun g₄ isOpen₄ => isOpen₄.settled)

theorem fine_read (isOpen : Open h f g) : Fine cfg (fun g' _ => Settled g') c g (f.read cfg' h count) := by
  refine Ok.bind (fine_touch isOpen fun g₁ isOpen₁ => ?_)
  split
  · split
    · refine fine_bind (all_copyOutLoop fun _ _ _ => trivial) fun data => ?_
      exact Ok.bind (fine_set isOpen₁ rfl rfl rfl fun g₂ isOpen₂ => isOpen₂.settled)
    · exact isOpen₁.settled
  · exact fine_of_all (all_fdReadLoop fun _ _ _ _ => nofun) fun _ => isOpen₁.settled

theorem fine_closeFile (isOpen : Open h f g) : Fine cfg (fun g' _ => Settled g') c g (f.close cfg' h) := by
  have last : Fine cfg (fun g' _ => Settled g') c { files := g.files.erase h, holds := [f.hold], lent := [] }
      (rpc f.inode.server (.close f.fd none none) >>= fun retval => ensure (retval = .ok) >>= fun _ => .ret Status.ok) :=
    Ok.bind (fine_close (x := f.hold) rfl rfl fun st => Ok.bind (fine_ensure fun _ => ⟨rfl, rfl⟩))
  refine Ok.bind (fine_delete isOpen ?_)
  split_ifs
  · exact fine_bind (quiet_rpc (by simp)) fun _ => last
  · exact last

/-! ### Opening -/

variable {inode parent saveParent : InodeType} {flags : Flags} {path savePath : Name} {cached : Bool}

theorem fine_openDone (settled : Settled g) (ok : reply.retval = .ok) :
    Fine cfg (fun g' _ => Settled g') c (opened g inode.server inode.id reply) (openDone cfg' inode reply flags parent path) := by
  have add : ∀ {g : Mine} {h : Option Nat} {child : InodeType}, Settled g → Fine cfg (fun g' _ => Settled g') c g
      (if flags.creat then perform (.add parent.id path child) >>= fun _ => .ret (Status.ok, h) else .ret (Status.ok, h)) := by
    intro g h child settled
    split_ifs
    · exact fine_quiet trivial fun _ => settled
    · exact settled
  unfold openDone
  split
  · next fd size type isFd isSize =>
    simp only [opened, type, isFd, ok, if_true]
    refine Ok.bind (fine_new rfl fun h g₀ isOpen => ?_)
    refine Ok.bind ((fine_cacheBlocks isOpen).mono fun g₁ f₁ isOpen₁ => ?_)
    exact Ok.bind (fine_set isOpen₁ rfl rfl rfl fun g₂ isOpen₂ => add isOpen₂.settled)
  · next type isFd =>
    simp only [opened, type, isFd]
    exact add settled
  · next type isFd =>
    simp only [opened, type, isFd]
    exact add settled
  · trivial

theorem fine_openInode (settled : Settled g) :
    Fine cfg (fun g' _ => Settled g') c g (openInode cfg' saveParent savePath parent path flags cached inode) := by
  refine Ok.bind (fine_open settled.1 fun reply => ?_)
  split_ifs with stale failed
  · rw [opened_of_fail (by rw [stale.2]; decide)]
    refine fine_bind quiet_clearCache fun _ => fine_bind quiet_lookup fun found => fine_bind all_ensure fun _ => ?_
    split_ifs
    · exact settled
    · refine Ok.bind (fine_open settled.1 fun reply => ?_)
      split_ifs with failed
      · rw [opened_of_fail failed]
        exact settled
      · exact fine_openDone settled (not_not.mp failed)
  · rw [opened_of_fail failed]
    exact settled
  · exact fine_openDone settled (not_not.mp failed)

theorem fine_openCreate (settled : Settled g) :
    Fine cfg (fun g' _ => Settled g') c g (openCreate cfg' saveParent savePath parent path flags mode cached server) := by
  refine fine_bind all_ensure fun _ => Ok.bind (fine_createOpen settled.1 (fun reply exist isExist => ?_) fun reply isNone => ?_)
  · simp only [isExist]
    split_ifs with there excl away failed
    · rw [opened_of_fail (by rw [there]; decide)]
      exact settled
    · rw [opened_of_fail (by rw [there]; decide)]
      exact fine_openInode settled
    · trivial
    · rw [opened_of_fail failed]
      exact settled
    · exact fine_openDone settled (not_not.mp failed)
  · simp only [isNone]
    split_ifs
    · exact settled
    · trivial

theorem fine_openCreate3 {dirEntryServer : Nat} (settled : Settled g) :
    Fine cfg (fun g' _ => Settled g') c g
      (openCreate3 cfg' saveParent savePath parent path flags mode cached server dirEntryServer) := by
  refine fine_bind quiet_create fun r => ?_
  rcases r with ⟨retval, _ | exist⟩
  · simp only
    split_ifs
    · exact settled
    · trivial
  · simp only
    split_ifs
    · exact settled
    · exact fine_bind all_ensure fun _ => fine_openInode settled
    · trivial
    · exact settled
    · exact fine_bind quiet_mapCreated fun inode => fine_bind all_ensure fun _ => fine_openInode settled

theorem fine_fileOpen (settled : Settled g) :
    Fine cfg (fun g' _ => Settled g') c g (fosFileOpen cfg' parent path flags mode) := by
  unfold fosFileOpen
  split
  · exact settled
  · refine fine_bind quiet_lookupParent fun r => ?_
    rcases r with ⟨found, rest⟩
    simp only
    split_ifs
    · exact settled
    · refine fine_bind (Prog.all_lift _) fun dirEntryServer => ?_
      split_ifs
      · exact fine_openCreate settled
      · exact fine_openCreate3 settled
    · refine fine_bind quiet_lookup fun child => fine_bind all_ensure fun _ => ?_
      split_ifs
      · exact settled
      · exact fine_openInode settled

theorem fine_onFile {op : AppFile → FsProg Int} (settled : Settled g)
    (each : ∀ f, Open h f g → Fine cfg (fun g' _ => Settled g') c g (op f)) :
    Fine cfg (fun g' _ => Settled g') c g (onFile h op) := by
  refine fine_getFile ?_
  cases found : g.files.lookup h with
  | none => trivial
  | some f => exact each f ⟨found, settled.1, settled.2⟩

theorem fine_code {o : Op} (allowed : onFiles o) (settled : Settled g) :
    Fine cfg (fun g' _ => Settled g') c g (o.code cfg') := by
  cases o with
  | «open» parent path flags mode => exact Ok.bind ((fine_fileOpen settled).mono fun _ _ settled => settled)
  | unlink parent path => exact fine_of_all quiet_unlink fun _ => settled
  | read h count => exact fine_onFile settled fun f isOpen => Ok.bind ((fine_read isOpen).mono fun _ _ settled => settled)
  | write h buf => exact fine_onFile settled fun f isOpen => fine_write isOpen
  | truncate h len => exact fine_onFile settled fun f isOpen => Ok.bind ((fine_truncate isOpen).mono fun _ _ isOpen => isOpen.settled)
  | close h => exact fine_onFile settled fun f isOpen => fine_closeFile isOpen
  | mkdir | rename | rmdir | lookup => exact allowed.elim

theorem sound : Sound (fsSystem cfg) fileRules spec where
  call v ghost c o inv idle allowed := by
    refine ⟨ghost c, ?_, fine_code allowed idle⟩
    rw [update_eq_self]
    exact inv
  ret v ghost c x inv settled := by
    refine ⟨ghost c, ?_, settled⟩
    rw [update_eq_self]
    exact inv
  intern v ghost i w inv done := by
    have done : ((v.world.clients i.1).poll i.2).map (fun k => v.world.setClient i.1 k) = some w := done
    obtain ⟨k, polled, rfl⟩ := Option.map_eq_some_iff.mp done
    refine inv.steady ⟨setClient_files ?_ ?_, fun i => .refl (inv.servers i)⟩
    all_goals
      unfold Client.poll at polled
      split at polled
      · cases polled
      · cases polled
        rfl

end Isolation
end Faux
