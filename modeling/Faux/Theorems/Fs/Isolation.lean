import Faux.Fs.Isolation
import Faux.Theorems.Fs.Close
import Faux.Theorems.Fs.Cluster
import Faux.Theorems.Fs.Walks

/-! Blocks of open files stay with their inodes. Every open file holds a descriptor of its own, so that its
    inode is live, and the blocks of a live inode are never given to another file. -/

namespace Faux
open Function Lib
variable {h i server : Nat} {w w' : Cluster} {f : AppFile}

structure Hold where
  server : Nat
  fd : Fd
  id : FileId
  blocks : List Nat

namespace Hold

def key (x : Hold) : Nat × Fd := (x.server, x.fd)

structure Backed (w : Cluster) (x : Hold) : Prop where
  fd : ∃ d, (w.servers x.server).fds.lookup x.fd = some d ∧ d.id = x.id
  blocks : ∃ g, (w.servers x.server).files.lookup x.id = some (.file g) ∧
    ∀ b ∈ x.blocks, (w.servers x.server).bufferCache.start + b ∈ g.all

theorem Backed.later {x : Hold} (backed : x.Backed w)
    (later : (w.servers x.server).Later (w'.servers x.server)) : x.Backed w' := by
  obtain ⟨d, found, same⟩ := backed.fd
  obtain ⟨g, file, blocks⟩ := backed.blocks
  obtain ⟨d', found', same', -⟩ := later.fds _ d found
  obtain ⟨v, file', le⟩ := later.files _ _ ⟨_, d, found, same⟩ file
  refine ⟨⟨d', found', same'.trans same⟩, ?_⟩
  cases v with
  | file g' => exact ⟨g', file', fun b mem => later.start ▸ le (blocks b mem)⟩
  | dir => exact (le : False).elim
  | symlink => exact (le : False).elim

theorem Backed.congr {x : Hold} (backed : x.Backed w) (same : w'.servers = w.servers) : x.Backed w' :=
  ⟨same ▸ backed.fd, same ▸ backed.blocks⟩

end Hold

def AppFile.hold (f : AppFile) : Hold := { server := f.inode.server, fd := f.fd, id := f.inode.id, blocks := f.blocks }

/-- What a client owns: its open files, descriptors of files that it is about to open or to close, and blocks
    that it has been told of and is about to store. -/
structure Mine where
  files : AList fun _ : Nat => AppFile
  holds : List Hold
  lent : List Hold

namespace Mine

def all (m : Mine) : List Hold := m.files.entries.map (fun e => e.2.hold) ++ m.holds

theorem file_mem {m : Mine} (found : m.files.lookup h = some f) : f.hold ∈ m.all :=
  List.mem_append_left _ (List.mem_map.mpr ⟨⟨h, f⟩, AList.mem_lookup_iff.mp found, rfl⟩)

end Mine

namespace Isolation
open Cluster System
variable {parent : InodeType} {path : Name} {a : Action}

structure Inv (w : Cluster) (ghost : Nat → Mine) : Prop where
  ids : ∀ i, (w.servers i).id = i
  servers : ∀ i, (w.servers i).Inv
  parted : ∀ i, (w.servers i).Parted
  files : ∀ c, (w.clients c).files = (ghost c).files
  handles : ∀ c, ∀ h ∈ (ghost c).files, h < (w.clients c).nextFile
  backed : ∀ c, ∀ x ∈ (ghost c).all, x.Backed w
  lent : ∀ c, ∀ x ∈ (ghost c).lent, x.Backed w ∧ x.key ∈ (ghost c).all.map Hold.key
  unique : ∀ c, ((ghost c).all.map Hold.key).Nodup
  disjoint : ∀ c c', c ≠ c' → ∀ x ∈ (ghost c).all, ∀ y ∈ (ghost c').all, x.key ≠ y.key

def spec : Spec Cluster Action Fault Int Mine Action.Reply where
  inv v ghost := Inv v.world ghost
  idle _ g := g.holds = [] ∧ g.lent = []
  post _ g _ := g.holds = [] ∧ g.lent = []
  fails _ := True

/-! ### Blocks of a live inode -/

theorem parted_of_subperm {s t : Server} (parted : s.Parted) (start : t.bufferCache.start = s.bufferCache.start)
    (held : t.held.Subperm s.held) : t.Parted where
  nodup := by
    obtain ⟨l, perm, sub⟩ := held
    exact perm.nodup_iff.mp (parted.nodup.sublist sub)
  region b mem := by
    rw [start]
    exact parted.region b (held.subset mem)
  spaced a memA b memB lt := parted.spaced a (held.subset memA) b (held.subset memB) lt

structure Steady (w w' : Cluster) : Prop where
  files : ∀ c, (w'.clients c).files = (w.clients c).files ∧ (w'.clients c).nextFile = (w.clients c).nextFile
  servers : ∀ i, (w.servers i).Later (w'.servers i)

theorem Inv.steady {ghost : Nat → Mine} (inv : Inv w ghost) (steady : Steady w w') : Inv w' ghost where
  ids i := (steady.servers i).id.trans (inv.ids i)
  servers i := (steady.servers i).inv
  parted i := parted_of_subperm (inv.parted i) (steady.servers i).start (steady.servers i).held
  files c := (steady.files c).1.trans (inv.files c)
  handles c h mem := (steady.files c).2 ▸ inv.handles c h mem
  backed c x mem := (inv.backed c x mem).later (steady.servers x.server)
  lent c x mem := ⟨(inv.lent c x mem).1.later (steady.servers x.server), (inv.lent c x mem).2⟩
  unique := inv.unique
  disjoint := inv.disjoint

theorem Inv.change {ghost : Nat → Mine} {c : Nat} {g : Mine} (inv : Inv w ghost)
    (servers : w'.servers = w.servers)
    (others : ∀ c', c' ≠ c → (w'.clients c').files = (w.clients c').files ∧ (w'.clients c').nextFile = (w.clients c').nextFile)
    (files : (w'.clients c).files = g.files) (handles : ∀ h ∈ g.files, h < (w'.clients c).nextFile)
    (backed : ∀ x ∈ g.all, x.Backed w) (lent : ∀ x ∈ g.lent, x.Backed w ∧ x.key ∈ g.all.map Hold.key)
    (unique : (g.all.map Hold.key).Nodup) (apart : ∀ x ∈ g.all, ∀ c', c' ≠ c → ∀ y ∈ (ghost c').all, x.key ≠ y.key) :
    Inv w' (update ghost c g) := by
  -- every clause is about one client (or two): the one that changes, or one as before
  refine ⟨fun i => servers ▸ inv.ids i, fun i => servers ▸ inv.servers i, fun i => servers ▸ inv.parted i, ?_, ?_, ?_, ?_, ?_, ?_⟩
  · exact forall_of_update (fun c' (m : Mine) => (w'.clients c').files = m.files) rfl files fun c' ne => (others c' ne).1.trans (inv.files c')
  · refine forall_of_update (fun c' (m : Mine) => ∀ h ∈ m.files, h < (w'.clients c').nextFile) rfl handles fun c' ne h mem => ?_
    rw [(others c' ne).2]
    exact inv.handles c' h mem
  · exact forall_of_update (fun _ (m : Mine) => ∀ x ∈ m.all, x.Backed w') rfl (fun x mem => (backed x mem).congr servers)
      fun c' _ x mem => (inv.backed c' x mem).congr servers
  · exact forall_of_update (fun _ (m : Mine) => ∀ x ∈ m.lent, x.Backed w' ∧ x.key ∈ m.all.map Hold.key) rfl
      (fun x mem => ⟨(lent x mem).1.congr servers, (lent x mem).2⟩)
      fun c' _ x mem => ⟨(inv.lent c' x mem).1.congr servers, (inv.lent c' x mem).2⟩
  · exact forall_of_update (fun _ (m : Mine) => (m.all.map Hold.key).Nodup) rfl unique fun c' _ => inv.unique c'
  · intro c₁ c₂ ne x memX y memY
    by_cases same : c₁ = c
    · grind
    · rw [update_of_ne same] at memX
      by_cases same' : c₂ = c
      · grind
      · rw [update_of_ne same'] at memY
        exact inv.disjoint c₁ c₂ ne x memX y memY

/-! ### Steps -/

variable {cfg : Config} {w w' : Cluster} {ghost : Nat → Mine} {c : Nat} {g : Mine} {α β : Type} {post : Mine → α → Prop}

abbrev Fine (cfg : Config) (post : Mine → α → Prop) (c : Nat) (g : Mine) (p : FsProg α) : Prop :=
  Ok (fsSystem cfg) fileRules spec post c g p

theorem steady_of_server {s : Server} (inv : Inv w ghost) (later : (w.servers i).Later s)
    (servers : w'.servers = update w.servers i s)
    (files : ∀ c, (w'.clients c).files = (w.clients c).files ∧ (w'.clients c).nextFile = (w.clients c).nextFile) : Steady w w' where
  files := files
  servers := forall_of_update (fun j s => (w.servers j).Later s) servers later fun j _ => .refl (inv.servers j)

theorem steady_request {env : Env} {q : Request} {r : q.Reply} (inv : Inv w ghost)
    (guard : (w.servers i).Guard ⟨env, c, q⟩) (notClose : ∀ fd offset size, q ≠ .close fd offset size)
    (done : w.request cfg c env i q = .ok (w', r)) : Steady w w' := by
  obtain ⟨s, notes, handled, servers, -⟩ := request_eq_ok done
  exact steady_of_server inv (Server.handle_later (inv.servers i) guard notClose handled) servers (request_files done)

def Quiet : Action → Prop
  | .rpc _ q => ∀ fd offset size, q ≠ .close fd offset size
  | .newFile _ | .setFile .. | .deleteFile _ => False
  | _ => True

theorem setClient_files {k : Client} (files : k.files = (w.clients c).files) (next : k.nextFile = (w.clients c).nextFile) (c' : Nat) :
    ((w.setClient c k).clients c').files = (w.clients c').files ∧ ((w.setClient c k).clients c').nextFile = (w.clients c').nextFile := by
  by_cases same : c' = c
  · subst same
    simpa [setClient] using ⟨files, next⟩
  · simp [setClient, same]

theorem steady_of_quiet {v : FsScene} {env : Env} {r : a.Reply} (inv : Inv v.world ghost) (quiet : Quiet a)
    (allowed : fileRules.acts v c env a) (done : v.world.exec cfg c env a = .ok (w', r)) : Steady v.world w' := by
  obtain ⟨w, since, hist, log⟩ := v
  have same : ∀ {k : Client}, k.files = (w.clients c).files → k.nextFile = (w.clients c).nextFile → Steady w (w.setClient c k) :=
    fun files next => ⟨setClient_files files next, fun i => .refl (inv.servers i)⟩
  cases a with
  | rpc i q => exact steady_request inv allowed.1 quiet done
  | check =>
    cases done
    exact same rfl rfl
  | find parent path =>
    cases done
    exact ⟨fun _ => ⟨rfl, rfl⟩, fun i => .refl (inv.servers i)⟩
  | add parent path child =>
    cases done
    exact same rfl rfl
  | remove parent path =>
    cases done
    exact same rfl rfl
  | newFile f => exact quiet.elim
  | getFile h =>
    cases done
    exact ⟨fun _ => ⟨rfl, rfl⟩, fun i => .refl (inv.servers i)⟩
  | setFile h f => exact quiet.elim
  | deleteFile h => exact quiet.elim
  | copyIn i offset data =>
    cases done
    exact steady_of_server inv (.mem (inv.servers i)) rfl fun _ => ⟨rfl, rfl⟩
  | copyOut i offset count =>
    cases done
    exact ⟨fun _ => ⟨rfl, rfl⟩, fun i => .refl (inv.servers i)⟩
  | pick n =>
    cases done
    exact ⟨fun _ => ⟨rfl, rfl⟩, fun i => .refl (inv.servers i)⟩

theorem fine_quiet {k : a.Reply → FsProg α} (quiet : Quiet a) (next : ∀ r, Fine cfg post c g (k r)) :
    Fine cfg post c g (.act a k) := by
  rintro ⟨w, since, hist, log⟩ ghost e (inv : Inv w ghost) own allowed
  refine ⟨fun _ _ => trivial, fun w' r done => ⟨g, ?_, next r⟩⟩
  rw [← own, update_eq_self]
  exact inv.steady (steady_of_quiet inv quiet allowed done)

theorem fine_of_all {p : FsProg α} (all : p.All Quiet) (holds : ∀ v, post g v) : Fine cfg post c g p := by
  induction p with
  | ret v => exact holds v
  | fail e => trivial
  | act a k ih => exact fine_quiet all.1 fun r => ih r (all.2 r)

theorem fine_bind {p : FsProg β} {f : β → FsProg α} (all : p.All Quiet) (next : ∀ v, Fine cfg post c g (f v)) :
    Fine cfg post c g (p >>= f) :=
  Ok.bind (fine_of_all all next)

/-! ### Quiet programs -/

theorem quiet_rpc {q : Request} (notClose : ∀ fd offset size, q ≠ .close fd offset size) :
    (rpc i q).All Quiet := ⟨notClose, fun _ => trivial⟩

theorem quiet_of_walks (walks : Walks a) : Quiet a := by
  cases a with
  | rpc i q => cases q <;> first | exact walks.elim | exact fun _ _ _ => nofun
  | _ => first | exact walks.elim | trivial

theorem quiet_lookup {cached : Bool} : (fosLookup cfg parent path cached).All Quiet :=
  walks_lookup.mono fun _ => quiet_of_walks

theorem quiet_lookupParent {cached : Bool} :
    (fosLookupParent cfg parent path cached).All Quiet :=
  walks_lookupParent.mono fun _ => quiet_of_walks

theorem quiet_clearCache : (fosClearCache cfg parent path).All Quiet :=
  walks_clearCache.mono fun _ => quiet_of_walks

theorem quiet_addMap {child : InodeType} {ow : Bool} :
    (fosAddMap server parent path child ow).All Quiet := by
  refine Prog.All.bind (quiet_rpc (by simp)) fun r => ?_
  rcases r with ⟨retval, exist⟩
  simp only
  split_ifs
  · exact ⟨trivial, fun _ => trivial⟩
  · trivial

theorem quiet_create {flags : Flags} {mode : Nat} :
    (fosCreate server parent path flags mode).All Quiet := by
  unfold fosCreate
  split_ifs
  · trivial
  · exact quiet_rpc (by simp)

theorem quiet_mapCreated {inode : InodeType} :
    (mapCreated server parent path inode).All Quiet := by
  refine Prog.All.bind quiet_addMap fun r => ?_
  rcases r with ⟨retval, exist⟩
  simp only
  split_ifs
  · exact Prog.All.bind (quiet_rpc (by simp)) fun _ => Prog.All.bind all_ensure fun _ => trivial
  · trivial

theorem quiet_unlinkEntry {child : InodeType} :
    (unlinkEntry server parent path child).All Quiet := by
  unfold unlinkEntry
  split_ifs
  · refine Prog.All.bind (quiet_rpc (by simp)) fun _ => Prog.All.bind all_ensure fun _ => quiet_rpc (by simp)
  · exact quiet_rpc (by simp)

theorem quiet_unlink : (fosUnlink cfg parent path).All Quiet := by
  refine Prog.All.bind quiet_lookupParent fun r => ?_
  rcases r with ⟨found, rest⟩
  simp only
  split_ifs
  · trivial
  · refine Prog.All.bind (Prog.all_lift _) fun server => Prog.All.bind quiet_lookup fun child => ?_
    split_ifs
    · trivial
    · refine Prog.All.bind quiet_unlinkEntry fun retval => ?_
      split_ifs
      · exact ⟨trivial, fun _ => trivial⟩
      · trivial

/-! ### Open files -/

theorem fine_getFile {k : Option AppFile → FsProg α} (next : Fine cfg post c g (k (g.files.lookup h))) :
    Fine cfg post c g (.act (.getFile h) k) := by
  rintro ⟨w, since, hist, log⟩ ghost e (inv : Inv w ghost) own allowed
  refine ⟨fun _ _ => trivial, fun w' r done => ?_⟩
  cases done
  refine ⟨g, ?_, ?_⟩
  · rw [← own, update_eq_self]
    exact inv
  · rw [inv.files c, own]
    exact next

theorem all_insert_perm {m : Mine} (f' : AppFile) (found : m.files.lookup h = some f) :
    ∃ rest, m.all.Perm (f.hold :: rest) ∧ (m.files.insert h f').entries.map (fun e => e.2.hold) ++ m.holds = f'.hold :: rest := by
  refine ⟨(m.files.erase h).entries.map (fun e => e.2.hold) ++ m.holds, ?_, rfl⟩
  exact ((entries_perm_cons_erase found).map _).append_right _

theorem fine_setFile {f' : AppFile} {k : Unit → FsProg α} (found : g.files.lookup h = some f)
    (inode : f'.inode = f.inode) (fd : f'.fd = f.fd)
    (blocks : ∀ b ∈ f'.blocks, b ∈ f.blocks ∨ ∃ x ∈ g.lent, x.key = f.hold.key ∧ x.id = f.inode.id ∧ b ∈ x.blocks)
    (next : Fine cfg post c { g with files := g.files.insert h f', lent := [] } (k ())) :
    Fine cfg post c g (.act (.setFile h f') k) := by
  rintro ⟨w, since, hist, log⟩ ghost e (inv : Inv w ghost) own allowed
  refine ⟨fun _ _ => trivial, fun w' r done => ⟨_, ?_, next⟩⟩
  cases done
  subst own
  obtain ⟨rest, perm, eq⟩ := all_insert_perm f' found
  have hold : f'.hold = { f.hold with blocks := f'.blocks } := by simp [AppFile.hold, inode, fd]
  have key : f'.hold.key = f.hold.key := by rw [hold]; rfl
  have keys : ((f'.hold :: rest).map Hold.key).Perm ((ghost c).all.map Hold.key) := by
    rw [List.map_cons, key, ← List.map_cons]
    exact (perm.map _).symm
  have old : ∀ x ∈ rest, x ∈ (ghost c).all := fun x mem => perm.symm.subset (List.mem_cons_of_mem _ mem)
  have mine : f.hold ∈ (ghost c).all := Mine.file_mem found
  have backed' : f'.hold.Backed w := by
    obtain ⟨live, g₀, file, mem⟩ := inv.backed c f.hold mine
    rw [hold]
    refine ⟨live, g₀, file, fun b memB => ?_⟩
    rcases blocks b memB with memF | ⟨x, memX, sameKey, sameId, memB'⟩
    · exact mem b memF
    · obtain ⟨g₁, file₁, mem₁⟩ := (inv.lent c x memX).1.blocks
      have server : x.server = f.inode.server := congrArg Prod.fst sameKey
      rw [server, sameId] at file₁
      obtain rfl : g₀ = g₁ := by simpa [AppFile.hold] using file.symm.trans file₁
      rw [server] at mem₁
      exact mem₁ b memB'
  refine inv.change rfl (fun c' ne => by simp [setClient, ne]) (by simp [setClient, inv.files c]) ?_ ?_ (by simp) ?_ ?_
  · intro h' mem
    simp only [setClient, update_self]
    rcases (AList.mem_insert _).mp mem with rfl | mem
    · exact inv.handles c _ (mem_of_lookup found)
    · exact inv.handles c h' mem
  · intro x mem
    rw [Mine.all, eq] at mem
    rcases List.mem_cons.mp mem with rfl | mem
    · exact backed'
    · exact inv.backed c x (old x mem)
  · rw [Mine.all, eq]
    exact keys.nodup_iff.mpr (inv.unique c)
  · intro x mem c' ne y memY
    rw [Mine.all, eq] at mem
    rcases List.mem_cons.mp mem with rfl | mem
    · rw [key]
      exact inv.disjoint c c' (Ne.symm ne) _ mine y memY
    · exact inv.disjoint c c' (Ne.symm ne) x (old x mem) y memY

theorem fine_deleteFile {k : Unit → FsProg α} (found : g.files.lookup h = some f) (holds : g.holds = [])
    (next : Fine cfg post c { files := g.files.erase h, holds := [f.hold], lent := [] } (k ())) :
    Fine cfg post c g (.act (.deleteFile h) k) := by
  rintro ⟨w, since, hist, log⟩ ghost e (inv : Inv w ghost) own allowed
  refine ⟨fun _ _ => trivial, fun w' r done => ⟨_, ?_, next⟩⟩
  cases done
  subst own
  have perm : (ghost c).all.Perm ((ghost c).files.erase h |>.entries.map (fun e => e.2.hold) |>.append [f.hold]) := by
    rw [Mine.all, holds, List.append_nil]
    exact ((entries_perm_cons_erase found).map _).trans (List.perm_append_singleton _ _).symm
  refine inv.change rfl (fun c' ne => by simp [setClient, ne]) (by simp [setClient, inv.files c]) ?_ ?_ (by simp) ?_ ?_
  · intro h' mem
    simp only [setClient, update_self]
    exact inv.handles c h' (AList.mem_erase.mp mem).2
  · exact fun x mem => inv.backed c x (perm.symm.subset mem)
  · exact (perm.map _).nodup_iff.mp (inv.unique c)
  · exact fun x mem c' ne y memY => inv.disjoint c c' (Ne.symm ne) x (perm.symm.subset mem) y memY

theorem fine_newFile {k : Nat → FsProg α} (holds : g.holds = [f.hold])
    (next : ∀ h, Fine cfg post c { files := g.files.insert h f, holds := [], lent := [] } (k h)) :
    Fine cfg post c g (.act (.newFile f) k) := by
  rintro ⟨w, since, hist, log⟩ ghost e (inv : Inv w ghost) own allowed
  refine ⟨fun _ _ => trivial, fun w' h done => ⟨_, ?_, next h⟩⟩
  cases done
  subst own
  have absent : (w.clients c).nextFile ∉ (ghost c).files := fun mem => absurd (inv.handles c _ mem) (lt_irrefl _)
  have perm : (ghost c).all.Perm ((ghost c).files.insert (w.clients c).nextFile f |>.entries.map (fun e => e.2.hold) |>.append []) := by
    rw [Mine.all, holds, AList.entries_insert_of_notMem absent, List.append_eq, List.append_nil]
    exact List.perm_append_singleton _ _
  refine inv.change rfl (fun c' ne => by simp [setClient, ne]) (by simp [setClient, inv.files c]) ?_ ?_ (by simp) ?_ ?_
  · intro h' mem
    simp only [setClient, update_self]
    rcases (AList.mem_insert _).mp mem with rfl | mem
    · exact Nat.lt_succ_self _
    · exact Nat.lt_succ_of_lt (inv.handles c h' mem)
  · exact fun x mem => inv.backed c x (perm.symm.subset mem)
  · exact (perm.map _).nodup_iff.mp (inv.unique c)
  · exact fun x mem c' ne y memY => inv.disjoint c c' (Ne.symm ne) x (perm.symm.subset mem) y memY

end Isolation
end Faux
