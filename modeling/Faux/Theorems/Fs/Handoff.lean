import Faux.Fs.Sharing
import Faux.Theorems.Fs.BlockIsolation

/-! Hand-off of descriptors: what the server knows when a copy is invalidated or a descriptor goes to another
    process or object. -/

namespace Faux
open Function Lib

/-! ### Requests on a descriptor -/

namespace Server
variable {s t u : Server} {fd : Fd} {id : FileId} {offset j : Nat}

structure Stays (s t : Server) : Prop where
  fds : ∀ fd d, s.fds.lookup fd = some d → ∃ d', t.fds.lookup fd = some d' ∧ d'.id = d.id
  files : ∀ id g, s.files.lookup id = some (.file g) → ∃ g', t.files.lookup id = some (.file g')

theorem Stays.refl : Stays s s := ⟨fun _ d found => ⟨d, found, rfl⟩, fun _ g found => ⟨g, found⟩⟩

theorem Stays.trans (first : Stays s t) (second : Stays t u) : Stays s u where
  fds fd d found := by
    obtain ⟨d', found', same⟩ := first.fds fd d found
    obtain ⟨d'', found'', same'⟩ := second.fds fd d' found'
    exact ⟨d'', found'', same'.trans same⟩
  files id g found := by
    obtain ⟨g', found'⟩ := first.files id g found
    exact second.files id g' found'

theorem stays_setFd {d e : FileDescriptor} (found : s.fds.lookup fd = some d) (same : e.id = d.id) :
    Stays s { s with fds := s.fds.insert fd e } := by
  refine ⟨fun x d' foundX => ?_, fun _ g file => ⟨g, file⟩⟩
  by_cases eq : x = fd
  · subst eq
    cases found.symm.trans foundX
    exact ⟨e, AList.lookup_insert _, same⟩
  · exact ⟨d', (AList.lookup_insert_ne eq).trans foundX, rfl⟩

theorem stays_setFile {g : File} {bc : BufferCache} {m : Memory} :
    Stays s { s with files := s.files.insert id (.file g), bufferCache := bc, mem := m } := by
  refine ⟨fun _ d found => ⟨d, found, rfl⟩, fun x f found => ?_⟩
  by_cases eq : x = id
  · subst eq
    exact ⟨g, AList.lookup_insert _⟩
  · exact ⟨f, (AList.lookup_insert_ne eq).trans found⟩

theorem setFileSize_stays {size : Nat} (done : s.setFileSize id size = .ok t) : Stays s t := by
  obtain ⟨f, -, rfl⟩ := setFileSize_inv done
  exact stays_setFile

theorem readInode_stays {count n : Nat} {st : Status} {data : List UInt8}
    (done : s.readInode id offset count = .ok (t, st, n, data)) : Stays s t ∧ t.fds = s.fds := by
  rcases readInode_inv done with ⟨f, -, -, rfl, -⟩ | ⟨-, ⟨-, rfl, -, -, -⟩ | ⟨p, -, rfl, -, -⟩⟩
  · exact ⟨.refl, rfl⟩
  · exact ⟨.refl, rfl⟩
  · exact ⟨⟨fun _ d found => ⟨d, found, rfl⟩, fun _ g found => ⟨g, found⟩⟩, rfl⟩

theorem writeInode_stays {n : Nat} {buf : List UInt8} {st : Status}
    (done : s.writeInode id offset buf = .ok (t, st, n)) : Stays s t ∧ t.fds = s.fds := by
  rcases writeInode_inv done with ⟨f, g, bc, m, k, -, -, rfl, -⟩ | ⟨-, ⟨-, rfl, -, -⟩ | ⟨p, -, rfl, -⟩⟩
  · exact ⟨stays_setFile, rfl⟩
  · exact ⟨.refl, rfl⟩
  · exact ⟨⟨fun _ d found => ⟨d, found, rfl⟩, fun _ g found => ⟨g, found⟩⟩, rfl⟩

theorem dup_stays : Stays s (s.dup fd).1 := by
  rcases @dup_cases s fd with same | ⟨d, found, same⟩
  · rw [same]
    exact .refl
  · rw [same]
    exact stays_setFd found rfl

end Server

def Request.OnData : Request → Prop
  | .read .. | .write .. | .lseek .. | .truncate .. | .flush .. | .blocks .. | .dup _ => True
  | _ => False

namespace Server
variable {s t : Server}

theorem handle_stays {cfg : Config} {env : Env} {app : AppId} {q : Request} {reply : q.Reply} {notes : List Notify}
    (onData : q.OnData) (done : s.handle cfg env app q = .ok (t, reply, notes)) : Stays s t := by
  cases q with
  | read fd count =>
    obtain ⟨d, u, found, inode, rfl⟩ := read_inv (answered done)
    obtain ⟨stays, same⟩ := readInode_stays inode
    exact stays.trans (stays_setFd (d := d) (same ▸ found) rfl)
  | write fd buf =>
    obtain ⟨d, u, found, inode, rfl⟩ := write_inv (answered done)
    obtain ⟨stays, same⟩ := writeInode_stays inode
    exact stays.trans (stays_setFd (d := d) (same ▸ found) rfl)
  | lseek fd offset whence =>
    obtain ⟨d, f, found, -, -, rfl⟩ := lseek_inv (answered done)
    exact stays_setFd found rfl
  | truncate id len =>
    rcases truncate_inv (answered done) with ⟨rfl, -⟩ | ⟨f, g, bc, st', -, -, rfl, -⟩
    · exact .refl
    · exact stays_setFile
  | flush fd size offset =>
    rcases flush_inv (answered done) with ⟨-, rfl, -⟩ | ⟨d, found, set, -⟩
    · exact .refl
    · exact Stays.trans (stays_setFd (e := { d with offset }) found rfl) (setFileSize_stays set)
  | blocks id offset count =>
    obtain rfl := (looked_up done).2
    exact .refl
  | dup fd =>
    cases done
    exact dup_stays
  | _ => exact onData.elim

end Server

/-! ### The copy of the client -/

def Uses (h : Nat) (i : InodeType) (fd : Fd) (st : CacheState) : Action → Prop
  | .rpc _ q => q.OnData
  | .setFile h' f => h' = h ∧ f.inode = i ∧ f.fd = fd ∧ f.state = st
  | .check | .getFile _ | .newFile _ | .copyIn .. | .copyOut .. => True
  | _ => False

namespace Cluster
variable {cfg : Config} {w w' : Cluster} {c h : Nat} {env : Env} {i : InodeType} {fd : Fd} {st : CacheState}
  {f : AppFile} {u : Unit} {o : FdOp} {os : List FdOp} {x : Config} {k : Handoff}

structure Holds (w : Cluster) (c h : Nat) (i : InodeType) (fd : Fd) (st : CacheState) : Prop where
  file : ∃ f, (w.clients c).files.lookup h = some f ∧ f.inode = i ∧ f.fd = fd ∧ f.state = st
  next : h < (w.clients c).nextFile
  held : ∃ d g, (w.servers i.server).fds.lookup fd = some d ∧ d.id = i.id ∧
    (w.servers i.server).files.lookup i.id = some (.file g)

theorem Holds.stays (holds : w.Holds c h i fd st) (file : (w'.clients c).files.lookup h = (w.clients c).files.lookup h)
    (next : (w.clients c).nextFile ≤ (w'.clients c).nextFile) (stays : Server.Stays (w.servers i.server) (w'.servers i.server)) :
    w'.Holds c h i fd st := by
  obtain ⟨d, g, found, same, isFile⟩ := holds.held
  obtain ⟨d', found', same'⟩ := stays.fds fd d found
  obtain ⟨g', isFile'⟩ := stays.files _ g isFile
  exact ⟨file ▸ holds.file, Nat.lt_of_lt_of_le holds.next next, d', g', found', same'.trans same, isFile'⟩

theorem Holds.set (holds : w.Holds c h i fd st) (inode : f.inode = i) (isFd : f.fd = fd)
    (done : w.exec cfg c env (.setFile h f) = .ok (w', u)) : w'.Holds c h i fd f.state := by
  cases done
  refine ⟨⟨f, ?_, inode, isFd, rfl⟩, ?_, holds.held⟩
  · simp [setClient]
  · simp only [setClient, update_self]
    exact holds.next

theorem exec_holds {a : Action} {r : a.Reply} (uses : Uses h i fd st a) (holds : w.Holds c h i fd st)
    (done : w.exec cfg c env a = .ok (w', r)) : w'.Holds c h i fd st := by
  cases a with
  | rpc j q =>
    obtain ⟨t, notes, handled, servers, -⟩ := request_eq_ok done
    obtain ⟨files, next⟩ := request_files done c
    refine holds.stays (by rw [files]) (Nat.le_of_eq next.symm) ?_
    rw [servers]
    by_cases same : i.server = j
    · rw [← same, update_self]
      rw [← same] at handled
      exact Server.handle_stays uses handled
    · rw [update_of_ne same]
      exact .refl
  | setFile h' f =>
    obtain ⟨rfl, inode, isFd, rfl⟩ := uses
    exact holds.set inode isFd done
  | check =>
    cases done
    refine holds.stays ?_ ?_ .refl <;> simp only [setClient, update_self, Client.check, Nat.le_refl]
  | newFile f =>
    cases done
    refine holds.stays ?_ ?_ .refl
    · simp only [setClient, update_self]
      exact AList.lookup_insert_ne (Nat.ne_of_lt holds.next)
    · simp only [setClient, update_self]
      exact Nat.le_succ _
  | getFile h' =>
    cases done
    exact holds
  | copyIn j offset data =>
    cases done
    refine holds.stays rfl (Nat.le_refl _) ?_
    by_cases same : i.server = j
    · rw [← same]
      simp only [setServer, update_self]
      exact ⟨fun _ d found => ⟨d, found, rfl⟩, fun _ g found => ⟨g, found⟩⟩
    · simp only [setServer, update_of_ne same]
      exact .refl
  | copyOut j offset count =>
    cases done
    exact holds
  | _ => exact uses.elim

abbrev alone (cfg : Config) (c : Nat) (env : Env) (w : Cluster) (p : FsProg α) : Res (Cluster × α) :=
  Prog.run (fun w a => w.exec cfg c env a) w p

theorem alone_holds {p : FsProg α} {v : α} (all : p.All (Uses h i fd st)) (holds : w.Holds c h i fd st)
    (done : alone cfg c env w p = .ok (w', v)) : w'.Holds c h i fd st := by
  induction p generalizing w with
  | ret v' =>
    cases done
    exact holds
  | fail e => cases done
  | act a k ih =>
    simp only [alone, Prog.run_act, bind_eq_ok, Prod.exists] at done
    obtain ⟨w₁, r, first, rest⟩ := done
    exact ih r (all.2 r) (exec_holds all.1 holds first) rest

theorem alone_bind {p : FsProg α} {k : α → FsProg β} {v : β} (done : alone cfg c env w (p >>= k) = .ok (w', v)) :
    ∃ w₁ x, alone cfg c env w p = .ok (w₁, x) ∧ alone cfg c env w₁ (k x) = .ok (w', v) := by
  simp only [alone, Prog.run_bind, bind_eq_ok, Prod.exists] at done
  exact done

theorem alone_perform {a : Action} {r : a.Reply} (done : alone cfg c env w (perform a) = .ok (w', r)) :
    w.exec cfg c env a = .ok (w', r) := by
  simp only [alone, perform, Prog.perform, Prog.run_act, bind_eq_ok, Prod.exists, Prog.run_ret] at done
  obtain ⟨w₁, r₁, first, rest⟩ := done
  cases rest
  exact first

theorem alone_onFile {op : AppFile → FsProg Int} {v : Int} (done : alone cfg c env w (onFile h op) = .ok (w', v)) :
    ∃ f, (w.clients c).files.lookup h = some f ∧ alone cfg c env w (op f) = .ok (w', v) := by
  obtain ⟨w₁, x, got, rest⟩ := alone_bind done
  cases alone_perform got
  cases isFile : (w.clients c).files.lookup h with
  | none =>
    rw [isFile] at rest
    cases rest
  | some f =>
    rw [isFile] at rest
    exact ⟨f, rfl, rest⟩

theorem alone_ensure {b : Bool} (done : alone cfg c env w (ensure b) = .ok (w', u)) : w' = w := by
  cases b <;> cases done
  rfl

/-! ### Operations -/

def Copy (i : InodeType) (fd : Fd) (st : CacheState) (f : AppFile) : Prop := f.inode = i ∧ f.fd = fd ∧ f.state = st

section
variable {cfg' : Config} {f : AppFile}

theorem gives_growLoop : ∀ {fuel n additional : Nat} {f : AppFile}, Copy i fd st f →
    (AppFile.growLoop h fuel f n additional).Gives (Uses h i fd st) (Copy i fd st) := by
  intro fuel
  induction fuel with
  | zero => exact fun {_ _ _} copy => copy
  | succ fuel ih =>
    intro n additional f copy
    unfold AppFile.growLoop
    split_ifs
    · exact copy
    · refine (all_getBlocklist trivial).gives (Q := fun _ => True) (fun _ => trivial) |>.bind fun list _ => ?_
      refine (all_perform ⟨rfl, copy⟩).gives (Q := fun _ => True) (fun _ => trivial) |>.bind fun _ _ => ?_
      exact ((all_clearBlocks fun _ _ _ => trivial).gives (Q := fun _ => True) fun _ => trivial).bind fun _ _ => ih copy

theorem gives_truncate {len : Nat} (copy : Copy i fd st f) :
    (f.truncate cfg' h len).Gives (Uses h i fd st) fun r => Copy i fd st r.1 := by
  have copy' : Copy i fd st (if cfg'.bufferCache then { f with size := len, offset := min f.offset len } else f) := by
    split_ifs
    · exact copy
    · exact copy
  refine (all_perform ⟨rfl, copy'⟩).gives (Q := fun _ => True) (fun _ => trivial) |>.bind fun _ _ => ?_
  exact ⟨trivial, fun _ => ⟨trivial, fun _ => ⟨trivial, fun _ => copy'⟩⟩⟩

theorem gives_growTo {newSize : Nat} (copy : Copy i fd st f) :
    (f.growTo cfg' h newSize).Gives (Uses h i fd st) (Copy i fd st) := by
  unfold AppFile.growTo
  simp only
  generalize (if f.size % blockSize = 0 then 0 else blockSize - f.size % blockSize) = left
  split_ifs
  · exact (gives_truncate copy).bind fun r copy' => gives_growLoop copy'
  · exact copy

theorem uses_write {buf : List UInt8} (copy : Copy i fd st f.touch) : ∃ rest : Unit → FsProg Int,
    f.write cfg' h buf = (perform (.setFile h f.touch) >>= rest) ∧ (rest ()).All (Uses h i fd st) := by
  refine ⟨_, rfl, ?_⟩
  dsimp only
  split
  · refine (gives_growTo copy).all_bind fun g copy' => Prog.All.bind (all_perform ⟨rfl, copy'⟩) fun _ => ?_
    exact Prog.All.bind (all_copyInLoop fun _ _ _ => trivial) fun _ => Prog.All.bind (all_perform ⟨rfl, copy'⟩) fun _ => trivial
  · exact Prog.All.bind (all_fdWriteLoop fun _ => trivial) fun r => Prog.All.bind (all_perform ⟨rfl, copy⟩) fun _ => trivial

theorem uses_read {count : Nat} (copy : Copy i fd st f.touch) : ∃ rest : Unit → FsProg (Int × List UInt8),
    f.read cfg' h count = (perform (.setFile h f.touch) >>= rest) ∧ (rest ()).All (Uses h i fd st) := by
  refine ⟨_, rfl, ?_⟩
  dsimp only
  split
  · split
    · exact Prog.All.bind (all_copyOutLoop fun _ _ _ => trivial) fun _ => Prog.All.bind (all_perform ⟨rfl, copy⟩) fun _ => trivial
    · trivial
  · exact all_fdReadLoop fun _ => trivial

theorem uses_lseek {whence : Whence} (copy : Copy i fd st f) :
    (f.lseek cfg' h offset whence).All (Uses h i fd st) := by
  unfold AppFile.lseek
  split_ifs
  · exact Prog.All.bind (Prog.all_lift _) fun _ => Prog.All.bind (all_perform ⟨rfl, copy⟩) fun _ => trivial
  · exact Prog.All.bind (all_perform trivial) fun _ => trivial

end

def after (st : CacheState) (o : FdOp) : CacheState :=
  if o.invalidates then .invalid else if o.touches ∧ st = .shared then .exclusive else st

theorem copy_touch (copy : Copy i fd st f) (touches : o.touches = true) (valid : o.invalidates = false) :
    Copy i fd (after st o) f.touch := by
  obtain ⟨inode, isFd, rfl⟩ := copy
  unfold AppFile.touch after
  simp only [touches, valid]
  split_ifs
  all_goals first | exact ⟨inode, isFd, rfl⟩ | simp_all

theorem Holds.copy (holds : w.Holds c h i fd st) (found : (w.clients c).files.lookup h = some f) : Copy i fd st f := by
  obtain ⟨f', found', copy⟩ := holds.file
  cases found.symm.trans found'
  exact copy

theorem holds_touch {α : Type} {p : FsProg α} {v : α} {st' : CacheState} (holds : w.Holds c h i fd st) (copy : Copy i fd st' f)
    (split : ∃ rest : Unit → FsProg α, p = (perform (.setFile h f) >>= rest) ∧ (rest ()).All (Uses h i fd st'))
    (done : alone cfg c env w p = .ok (w', v)) : w'.Holds c h i fd st' := by
  obtain ⟨rest, rfl, all⟩ := split
  obtain ⟨w₁, u, set, done⟩ := alone_bind done
  have held := holds.set copy.1 copy.2.1 (alone_perform set)
  rw [copy.2.2] at held
  exact alone_holds all held done

/-! ### Hand-offs -/

theorem served_congr (same : w'.servers j = w.servers j) : w'.served j fd = w.served j fd := by
  unfold served
  rw [same]

theorem observed_of_lookup (found : (w.clients c).files.lookup h = some f) :
    w.observed c h = if f.state ≠ .invalid then some (f.offset, f.size) else w.served f.inode.server f.fd := by
  unfold observed
  rw [found]

theorem dup_served {t : Server} (isDup : t = ((w.servers j).dup fd).1) (servers : w'.servers = update w.servers j t) :
    w'.served j fd = w.served j fd := by
  unfold served
  rw [servers, update_self, isDup]
  rcases @Server.dup_cases (w.servers j) fd with same | ⟨d, found, same⟩
  · rw [same]
  · simp only [same, found, AList.lookup_insert]

theorem fosFileDup_spec (holds : w.Holds c h i fd st) (copy : Copy i fd st f)
    (done : alone cfg c env w f.fosFileDup = .ok (w', u)) :
    w'.Holds c h i fd st ∧ w'.served i.server fd = w.served i.server fd ∧ (w'.clients c).files = (w.clients c).files := by
  obtain ⟨inode, isFd, -⟩ := copy
  obtain ⟨w₁, r, dup, done⟩ := alone_bind done
  have same : w' = w₁ := alone_ensure done
  subst same
  have duped := alone_perform dup
  refine ⟨exec_holds (a := .rpc f.inode.server (.dup f.fd)) trivial holds duped, ?_, (request_files duped c).1⟩
  obtain ⟨t, notes, handled, servers, -⟩ := request_eq_ok duped
  cases handled
  rw [inode, isFd] at servers
  exact dup_served rfl servers

theorem flush_served {size : Nat} {d : FileDescriptor} {g : File} {r : Status}
    (found : (w.servers j).fds.lookup fd = some d) (file : (w.servers j).files.lookup d.id = some (.file g))
    (done : w.exec cfg c env (.rpc j (.flush fd size offset)) = .ok (w', r)) : w'.served j fd = some (offset, size) := by
  obtain ⟨t, notes, handled, servers, -⟩ := request_eq_ok done
  simp only [Server.handle, Server.flush, found, Server.setFileSize, file, ok_bind, Except.ok.injEq, Prod.mk.injEq] at handled
  obtain ⟨rfl, -, -⟩ := handled
  unfold served
  simp only [servers, update_self, AList.lookup_insert]

theorem invalidate_spec (cached : x.bufferCache = true) (holds : w.Holds c h i fd st)
    (copy : Copy i fd st f) (done : alone cfg c env w (f.invalidate x h) = .ok (w', u)) :
    w'.Holds c h i fd .invalid ∧
      w'.served i.server fd = if st = .exclusive then some (f.offset, f.size) else w.served i.server fd := by
  obtain ⟨inode, isFd, rfl⟩ := copy
  unfold AppFile.invalidate at done
  by_cases exclusive : f.state = .exclusive
  · rw [if_pos ⟨cached, exclusive⟩] at done
    rw [if_pos exclusive]
    obtain ⟨w₁, r, flush, set⟩ := alone_bind done
    have flushed := alone_perform flush
    have holds₁ : w₁.Holds c h i fd f.state := exec_holds (a := .rpc f.inode.server (.flush f.fd f.size f.offset)) trivial holds flushed
    have set := alone_perform set
    refine ⟨holds₁.set (f := { f with state := .invalid }) inode isFd set, ?_⟩
    obtain ⟨d, g, found, same, file⟩ := holds.held
    rw [inode, isFd] at flushed
    cases set
    exact (served_congr (w := w₁) rfl).trans (flush_served found (same ▸ file) flushed)
  · rw [if_neg fun both => exclusive both.2] at done
    rw [if_neg exclusive]
    have set := alone_perform done
    refine ⟨holds.set (f := { f with state := .invalid }) inode isFd set, ?_⟩
    cases set
    rfl

theorem handoff_spec (cached : x.bufferCache = true)
    (holds : w.Holds c h i fd st) (found : (w.clients c).files.lookup h = some f)
    (done : alone cfg c env w (k.code x h f) = .ok (w', u)) :
    w'.Holds c h i fd (after st (.handoff k)) ∧
      w'.served i.server fd = (if st = .exclusive ∧ k.flushes then some (f.offset, f.size) else w.served i.server fd) ∧
      (k = .flatten → (w'.clients c).files.lookup h = some f) := by
  have copy := holds.copy found
  cases k with
  | invalidate =>
    obtain ⟨holds', served⟩ := invalidate_spec cached holds copy done
    exact ⟨holds', by simpa [Handoff.flushes] using served, nofun⟩
  | fork =>
    obtain ⟨w₁, _, invalidated, dup⟩ := alone_bind done
    obtain ⟨holds₁, served⟩ := invalidate_spec cached holds copy invalidated
    obtain ⟨holds', same, -⟩ := fosFileDup_spec (f := { f with state := .invalid }) holds₁ ⟨copy.1, copy.2.1, rfl⟩ dup
    exact ⟨holds', by simpa [Handoff.flushes] using same.trans served, nofun⟩
  | exec =>
    have set := alone_perform done
    refine ⟨holds.set (f := .alloc f.inode f.fd) copy.1 copy.2.1 set, ?_, nofun⟩
    cases set
    simp [Handoff.flushes, served, setClient]
  | flatten =>
    obtain ⟨w₁, _, dup, rest⟩ := alone_bind done
    obtain ⟨w₂, r, new, rest⟩ := alone_bind rest
    cases rest
    obtain ⟨holds₁, same, files⟩ := fosFileDup_spec holds copy dup
    have new := alone_perform new
    have holds' := exec_holds (a := .newFile (.alloc f.inode f.fd)) trivial holds₁ new
    cases new
    refine ⟨holds', ?_, fun _ => ?_⟩
    · rw [if_neg (by simp [Handoff.flushes])]
      exact (served_congr (w := w₁) rfl).trans same
    · simp only [setClient, update_self]
      rw [AList.lookup_insert_ne (Nat.ne_of_lt holds₁.next), files]
      exact found

theorem code_holds {v : Int} (cached : x.bufferCache = true) (holds : w.Holds c h i fd st)
    (done : alone cfg c env w (o.code x h) = .ok (w', v)) : w'.Holds c h i fd (after st o) := by
  cases o with
  | read count =>
    obtain ⟨f, found, done⟩ := alone_onFile done
    obtain ⟨w₁, r, isRead, rest⟩ := alone_bind done
    cases rest
    have copy := copy_touch (o := .read count) (holds.copy found) rfl rfl
    exact holds_touch holds copy (uses_read copy) isRead
  | write buf =>
    obtain ⟨f, found, done⟩ := alone_onFile done
    have copy := copy_touch (o := .write buf) (holds.copy found) rfl rfl
    exact holds_touch holds copy (uses_write copy) done
  | lseek offset whence =>
    obtain ⟨f, found, done⟩ := alone_onFile done
    exact alone_holds (uses_lseek (holds.copy found)) holds done
  | truncate len =>
    obtain ⟨f, found, done⟩ := alone_onFile done
    obtain ⟨w₁, r, truncated, rest⟩ := alone_bind done
    cases rest
    exact alone_holds (gives_truncate (holds.copy found)).all holds truncated
  | handoff k =>
    obtain ⟨f, found, done⟩ := alone_onFile done
    obtain ⟨w₁, _, handed, rest⟩ := alone_bind done
    cases rest
    exact (handoff_spec cached holds found handed).1

/-! ### Sequences -/

theorem uses_cons {os : List (Env × FdOp)} (done : w.uses cfg c h ((env, o) :: os) = .ok w') :
    ∃ w₁ v, alone cfg c env w (o.code (cfg.client c) h) = .ok (w₁, v) ∧ w₁.uses cfg c h os = .ok w' := by
  simp only [uses, bind_eq_ok, Prod.exists] at done
  exact done

theorem uses_holds {os : List (Env × FdOp)} (cached : cfg.bufferCache = true) (holds : w.Holds c h i fd st)
    (done : w.uses cfg c h os = .ok w') : w'.Holds c h i fd ((os.map Prod.snd).foldl after st) := by
  induction os generalizing w st with
  | nil =>
    cases done
    exact holds
  | cons y os ih =>
    obtain ⟨w₁, v, first, rest⟩ := uses_cons done
    exact ih (code_holds cached holds first) rest

theorem foldl_invalid (os : List FdOp) : os.foldl after .invalid = .invalid := by
  induction os with
  | nil => rfl
  | cons o os ih =>
    have same : after .invalid o = .invalid := by
      unfold after
      split_ifs <;> simp_all
    rw [List.foldl_cons, same, ih]

theorem foldl_exclusive (os : List FdOp) : os.foldl after .exclusive = .exclusive ∨ os.foldl after .exclusive = .invalid := by
  induction os with
  | nil => exact .inl rfl
  | cons o os ih =>
    rw [List.foldl_cons]
    by_cases invalid : o.invalidates
    · rw [show after .exclusive o = .invalid from if_pos invalid, foldl_invalid]
      exact .inr rfl
    · rw [show after .exclusive o = .exclusive by simp [after, invalid]]
      exact ih

theorem foldl_of_invalidates (mem : o ∈ os) (invalid : o.invalidates = true) (st : CacheState) :
    os.foldl after st = .invalid := by
  induction mem generalizing st with
  | head os =>
    rw [List.foldl_cons, show after st o = .invalid from if_pos invalid, foldl_invalid]
  | tail o' mem ih => exact ih _

theorem foldl_of_touches (mem : o ∈ os) (touches : o.touches = true) :
    os.foldl after .shared = .exclusive ∨ os.foldl after .shared = .invalid := by
  induction mem with
  | head os =>
    rw [List.foldl_cons]
    unfold after
    split_ifs
    · exact .inr (foldl_invalid os)
    · exact foldl_exclusive os
    · simp_all
  | @tail o' os mem ih =>
    rw [List.foldl_cons]
    by_cases invalid : o'.invalidates
    · rw [show after .shared o' = .invalid from if_pos invalid, foldl_invalid]
      exact .inr rfl
    · by_cases isTouch : o'.touches
      · rw [show after .shared o' = .exclusive by simp [after, invalid, isTouch]]
        exact foldl_exclusive os
      · rw [show after .shared o' = .shared by simp [after, invalid, isTouch]]
        exact ih

theorem uses_flatten {os : List (Env × FdOp)} (cached : cfg.bufferCache = true) (holds : w.Holds c h i fd .shared)
    (found : (w.clients c).files.lookup h = some f) (all : ∀ y ∈ os, y.2 = .handoff .flatten) (done : w.uses cfg c h os = .ok w') :
    w'.served i.server fd = w.served i.server fd ∧ (w'.clients c).files.lookup h = some f := by
  induction os generalizing w with
  | nil =>
    cases done
    exact ⟨rfl, found⟩
  | cons y os ih =>
    obtain ⟨env, o⟩ := y
    cases (all _ List.mem_cons_self : o = .handoff .flatten)
    obtain ⟨w₁, v, first, rest⟩ := uses_cons done
    obtain ⟨f', found', first⟩ := alone_onFile first
    cases found.symm.trans found'
    obtain ⟨w₂, _, handed, last⟩ := alone_bind first
    cases last
    obtain ⟨holds₁, served, kept⟩ := handoff_spec (x := cfg.client c) cached holds found handed
    obtain ⟨served', found'⟩ := ih holds₁ (kept rfl) (fun y mem => all y (List.mem_cons_of_mem _ mem)) rest
    exact ⟨served'.trans (by simpa using served), found'⟩

theorem Opened.holds (opened : w.Opened c h f) : w.Holds c h f.inode f.fd .shared := by
  obtain ⟨d, g, found, same, file, -⟩ := opened.held
  exact ⟨⟨f, opened.file, rfl, rfl, opened.state⟩, opened.next, d, g, found, same, file⟩

theorem Opened.served (opened : w.Opened c h f) : w.served f.inode.server f.fd = some (f.offset, f.size) := by
  obtain ⟨d, g, found, same, file, offset, size⟩ := opened.held
  unfold Cluster.served
  rw [← same] at file
  simp only [found, file, offset, size]

/-- State hand-off: after any operations on a file that has been opened, a hand-off leaves the server with the offset and
    the size that the process had observed, provided the copy was not valid any more, or was read or written and is
    flushed, or was not used. -/
theorem served_of_handoff (cfg : Config) (cached : cfg.bufferCache = true) {w w₁ w₂ : Cluster} {c h : Nat} {f : AppFile}
    {os : List (Env × FdOp)} {env : Env} {k : Handoff} (opened : w.Opened c h f) (used : w.uses cfg c h os = .ok w₁)
    (handed : w₁.uses cfg c h [(env, .handoff k)] = .ok w₂) (covered : k.Covered (os.map Prod.snd)) :
    w₂.served f.inode.server f.fd = w₁.observed c h := by
  have holds := uses_holds cached opened.holds used
  obtain ⟨w₃, v, ran, last⟩ := uses_cons handed
  cases last
  obtain ⟨f₁, found, ran⟩ := alone_onFile ran
  obtain ⟨w₄, _, isHandoff, last⟩ := alone_bind ran
  cases last
  obtain ⟨-, served, -⟩ := handoff_spec (x := cfg.client c) cached holds found isHandoff
  obtain ⟨inode, isFd, state⟩ := holds.copy found
  rw [served, observed_of_lookup found, state, inode, isFd]
  rcases covered with ⟨o, mem, invalid⟩ | ⟨flushes, o, mem, touches⟩ | unused
  · rw [foldl_of_invalidates mem invalid]
    simp
  · rcases foldl_of_touches mem touches with exclusive | invalid
    · rw [exclusive]
      simp [flushes]
    · rw [invalid]
      simp
  · obtain ⟨same, found'⟩ := uses_flatten cached opened.holds opened.file (fun y mem => unused _ (List.mem_map_of_mem mem)) used
    cases found.symm.trans found'
    rw [← state, opened.state, same, opened.served]
    simp

/-! ### Hand-offs that lose the offset -/

def still : Env := { rand := 1, rand' := 0, stats := [] }

def created : Res Cluster := do
  let (w, _) ← alone oneCached 0 still twoBlocks (fosFileOpen oneCached root "a" { creat := true, rdwr := true } 420)
  .ok w

def fresh (w : Cluster) (c h : Nat) : Option AppFile :=
  match (w.clients c).files.lookup h with
  | none => none
  | some f =>
    match (w.servers f.inode.server).fds.lookup f.fd with
    | none => none
    | some d =>
      match (w.servers f.inode.server).files.lookup f.inode.id with
      | some (.file g) =>
        if h < (w.clients c).nextFile ∧ f.state = .shared ∧ d.id = f.inode.id ∧ d.offset = f.offset ∧ g.size = f.size then some f
        else none
      | _ => none

theorem opened_of_fresh {w : Cluster} {c h : Nat} (checked : fresh w c h = some f) : w.Opened c h f := by
  unfold fresh at checked
  split at checked
  · cases checked
  · next f' file =>
    split at checked
    · cases checked
    · next d found =>
      split at checked
      · next g isFile =>
        split_ifs at checked with all
        cases checked
        obtain ⟨next, state, same, offset, size⟩ := all
        exact ⟨file, next, state, d, g, found, same, isFile, offset, size⟩
      · cases checked

def handOff (os : List FdOp) (k : Handoff) : Option ((Nat × Fd) × Option (Nat × Nat) × Option (Nat × Nat)) := do
  let w ← created.toOption
  let f ← fresh w 0 0
  let w₁ ← (w.uses oneCached 0 0 (os.map (still, ·))).toOption
  let w₂ ← (w₁.uses oneCached 0 0 [(still, .handoff k)]).toOption
  some ((f.inode.server, f.fd), w₁.observed 0 0, w₂.served 0 1)

theorem handOff_eq {seen known : Option (Nat × Nat)} (done : handOff os k = some ((0, 1), seen, known)) :
    ∃ (w w₁ w₂ : Cluster) (f : AppFile), w.Opened 0 0 f ∧ w.uses oneCached 0 0 (os.map (still, ·)) = .ok w₁ ∧
      w₁.uses oneCached 0 0 [(still, .handoff k)] = .ok w₂ ∧ w₁.observed 0 0 = seen ∧ w₂.served f.inode.server f.fd = known := by
  simp only [handOff, bind, Option.bind_eq_some_iff, toOption_eq_some, Option.some.injEq, Prod.mk.injEq] at done
  obtain ⟨w, -, f, isFresh, w₁, used, w₂, handed, ⟨server, fd⟩, observed, served⟩ := done
  refine ⟨w, w₁, w₂, f, opened_of_fresh isFresh, used, handed, observed, ?_⟩
  rw [server, fd]
  exact served

theorem handOff_flushed : handOff [.write [7]] .fork = some ((0, 1), some (1, 1), some (1, 1)) := by decide +kernel

theorem served_written : ∃ (w w₁ w₂ : Cluster) (f : AppFile), w.Opened 0 0 f ∧ w.uses oneCached 0 0 [(still, .write [7])] = .ok w₁ ∧
    w₁.uses oneCached 0 0 [(still, .handoff .fork)] = .ok w₂ ∧ w₂.served f.inode.server f.fd = some (1, 1) ∧
    w₂.served f.inode.server f.fd = w₁.observed 0 0 := by
  obtain ⟨w, w₁, w₂, f, opened, used, handed, -, known⟩ := handOff_eq handOff_flushed
  exact ⟨w, w₁, w₂, f, opened, used, handed, known, served_of_handoff oneCached rfl opened used handed
    (.inr (.inl ⟨rfl, _, List.mem_singleton_self _, rfl⟩))⟩

def Loses (os : List FdOp) (k : Handoff) : Prop :=
  ∃ (w w₁ w₂ : Cluster) (f : AppFile), w.Opened 0 0 f ∧ w.uses oneCached 0 0 (os.map (still, ·)) = .ok w₁ ∧
    w₁.uses oneCached 0 0 [(still, .handoff k)] = .ok w₂ ∧ w₂.served f.inode.server f.fd ≠ w₁.observed 0 0

theorem loses_of_handOff {seen known : Option (Nat × Nat)}
    (done : handOff os k = some ((0, 1), seen, known)) (differ : known ≠ seen) : Loses os k := by
  obtain ⟨w, w₁, w₂, f, opened, used, handed, rfl, rfl⟩ := handOff_eq done
  exact ⟨w, w₁, w₂, f, opened, used, handed, differ⟩

theorem handOff_write_exec : handOff [.write [7]] .exec = some ((0, 1), some (1, 1), some (0, 1)) := by decide +kernel

theorem handOff_write_flatten : handOff [.write [7]] .flatten = some ((0, 1), some (1, 1), some (0, 1)) := by decide +kernel

theorem handOff_lseek_fork : handOff [.lseek 5 .set] .fork = some ((0, 1), some (5, 0), some (0, 0)) := by decide +kernel

/-- An exec and a flattening do not flush, and a fork does not when the offset has only been set. -/
theorem exists_offset_lost : Loses [.write [7]] .exec ∧ Loses [.write [7]] .flatten ∧ Loses [.lseek 5 .set] .fork :=
  ⟨loses_of_handOff handOff_write_exec (by decide), loses_of_handOff handOff_write_flatten (by decide),
    loses_of_handOff handOff_lseek_fork (by decide)⟩

end Cluster
end Faux
