import Faux.Fs.Locks
import Faux.Theorems.Fs.Steps

/-! The locks of `rmdir`: what the requests of a removal do to them, and why every lock has one owner. -/

namespace Faux
open Function Lib System

namespace Server
variable {s t : Server} {id dir : FileId} {phase : RmdirPhase}

structure LockOk (s : Server) (dir : FileId) : Prop where
  dirOnly : s.DirOnly dir
  vacant : s.Locked dir → s.Vacant dir

structure SameLock (dir : FileId) (s t : Server) : Prop where
  ok : s.LockOk dir → t.LockOk dir
  locked : t.Locked dir ↔ s.Locked dir

theorem SameLock.refl : SameLock dir s s := ⟨fun ok => ok, Iff.rfl⟩

theorem SameLock.of_lookup (lookup : t.files.lookup dir = s.files.lookup dir) : SameLock dir s t := by
  refine ⟨fun ok => ⟨?_, ?_⟩, ?_⟩
  · rw [DirOnly, lookup]
    exact ok.dirOnly
  · rw [Locked, Vacant, lookup]
    exact ok.vacant
  · rw [Locked, lookup]
    exact Iff.rfl

theorem sameLock_lazyDir : SameLock dir s (s.lazyDir id) := by
  simp only [lazyDir]
  split
  · exact .refl
  · next absent =>
    by_cases same : dir = id
    · subst same
      have unlocked : ∀ b, ¬Locked { s with files := s.files.insert dir (.dir (Dir.new true 511)), inodeSeq := b } dir := by
        rintro b ⟨d, found, locked⟩
        simp only [AList.lookup_insert, Option.some.injEq, VFile.dir.injEq] at found
        subst found
        cases locked
      refine ⟨fun ok => ⟨fun v found => ?_, fun locked => absurd locked (unlocked _)⟩, ⟨fun locked => absurd locked (unlocked _), ?_⟩⟩
      · simp only [AList.lookup_insert, Option.some.injEq] at found
        subst found
        rfl
      · rintro ⟨d, found, -⟩
        cases absent.symm.trans found
    · exact .of_lookup (AList.lookup_insert_ne same)

theorem any_erase {κ ν : Type} [DecidableEq κ] {m : AList fun _ : κ => ν} {k : κ} {p : (Sigma fun _ : κ => ν) → Bool}
    (none : m.entries.any p = false) : (m.erase k).entries.any p = false := by
  rw [List.any_eq_false] at none ⊢
  exact fun e mem => none e ((List.kerase_sublist k m.entries).subset mem)

theorem sameLock_removemap {app : AppId} {p : FileId} {n : Name} {st : Status} {notes : List Notify}
    (removed : s.removemap app p n = (t, st, notes)) : SameLock dir s t := by
  simp only [removemap] at removed
  split at removed
  · cases removed
    exact .refl
  · next d isDir =>
    split at removed
    · cases removed
      exact .refl
    · next entry child =>
      -- the entry goes; the flag of its directory stays
      have erased : ∀ u : Server, u.files = s.files → SameLock dir s (u.eraseChild p d n) := by
        intro u files
        by_cases same : dir = p
        · subst same
          have lookup : (u.eraseChild dir d n).files.lookup dir = some (.dir { d with children := d.children.erase n }) :=
            AList.lookup_insert _
          refine ⟨fun ok => ⟨fun v found => ?_, ?_⟩, ⟨?_, ?_⟩⟩
          · cases lookup.symm.trans found
            rfl
          · rintro ⟨d', found, locked⟩ d'' found'
            cases lookup.symm.trans found
            cases lookup.symm.trans found'
            exact any_erase (ok.vacant ⟨d, isDir, locked⟩ d isDir)
          · rintro ⟨d', found, locked⟩
            cases lookup.symm.trans found
            exact ⟨d, isDir, locked⟩
          · rintro ⟨d', found, locked⟩
            cases isDir.symm.trans found
            exact ⟨_, lookup, locked⟩
        · exact .of_lookup (by simp only [eraseChild, AList.lookup_insert_ne same, files])
      split at removed
      all_goals
        cases removed
        exact erased _ rfl
  · cases removed
    exact .refl

theorem sameLock_resolve (dir : FileId) (app : AppId) (p : FileId) {n : Name} (name : n ≠ "") : ∃ t st x, s.resolve app p n = .ok (t, st, x) ∧
    SameLock dir s t ∧ ∀ y, x = some y → s.entry p n = some y := by
  cases isEntry : s.entry p n with
  | none =>
    obtain ⟨st, resolved, -⟩ := resolve_absent app name isEntry
    exact ⟨s, st, none, resolved, .refl, fun _ isSome => by cases isSome⟩
  | some y =>
    obtain ⟨d, e, isDir, child, rfl⟩ := entry_some isEntry
    refine ⟨s.appAddLoc app e.loc, .ok, some e.inode, ?_, .of_lookup ?_, fun _ isSome => isSome⟩
    · simp [resolve, isDir, child, require, name, ok_bind]
    · simp only [appAddLoc]
      split <;> rfl

/-! ### The phases -/

theorem exists_lazyDir (ok : s.LockOk dir) : ∃ d, (s.lazyDir dir).files.lookup dir = some (.dir d) := by
  obtain ⟨v, found⟩ : ∃ v, (s.lazyDir dir).files.lookup dir = some v := mem_iff_lookup.mp mem_lazyDir
  cases v with
  | dir d => exact ⟨d, found⟩
  | file f => cases (sameLock_lazyDir.ok ok).dirOnly _ found
  | symlink dest => cases (sameLock_lazyDir.ok ok).dirOnly _ found

theorem rmdir_try (ok : s.LockOk dir) : ∃ t st, s.rmdir dir .try = .ok (t, st) ∧ t.LockOk dir ∧
    (st = .ok ∧ ¬s.Locked dir ∧ t.Locked dir ∨ st = .again ∧ s.Locked dir ∧ (t.Locked dir ↔ s.Locked dir) ∨
      st = .notEmpty ∧ (t.Locked dir ↔ s.Locked dir)) := by
  obtain ⟨d, found⟩ := exists_lazyDir ok
  have lazyOk : (s.lazyDir dir).LockOk dir := sameLock_lazyDir.ok ok
  have same : (s.lazyDir dir).Locked dir ↔ s.Locked dir := sameLock_lazyDir.locked
  simp only [rmdir, found]
  by_cases some : d.children.entries.any (fun e => e.1 ≠ "..") = true
  · exact ⟨_, _, by rw [if_pos some], lazyOk, .inr (.inr ⟨rfl, same⟩)⟩
  · rw [if_neg some]
    by_cases locked : d.locked = true
    · exact ⟨_, _, by rw [if_pos locked], lazyOk, .inr (.inl ⟨rfl, same.mp ⟨d, found, locked⟩, same⟩)⟩
    · have lookup : ((s.lazyDir dir).files.insert dir (.dir { d with locked := true })).lookup dir =
          .some (.dir { d with locked := true }) := AList.lookup_insert _
      refine ⟨_, _, by rw [if_neg locked], ⟨fun v isV => ?_, fun _ d' isD => ?_⟩, .inl ⟨rfl, fun was => ?_, ⟨_, lookup, rfl⟩⟩⟩
      · cases lookup.symm.trans isV
        rfl
      · cases lookup.symm.trans isD
        exact Bool.eq_false_iff.mpr some
      · obtain ⟨d', found', locked'⟩ := same.mpr was
        cases found.symm.trans found'
        exact locked locked'

theorem lockOk_removed {d : Dir} {type : FileType} (dirOnly : s.DirOnly dir) (found : s.files.lookup dir = some (.dir d))
    (unlocked : d.locked = false) : (s.removeInode dir type).LockOk dir ∧ ¬(s.removeInode dir type).Locked dir := by
  have notLocked : ¬s.Locked dir := by
    rintro ⟨d', found', locked⟩
    cases found.symm.trans found'
    cases unlocked.symm.trans locked
  simp only [removeInode]
  split
  · have same : SameLock dir s { s with orphans := { server := s.id, id := dir, type } :: s.orphans } := .of_lookup rfl
    exact ⟨same.ok ⟨dirOnly, fun locked => absurd locked notLocked⟩, fun locked => notLocked (same.locked.mp locked)⟩
  · have gone : (s.delete dir).files.lookup dir = none := by
      simp only [delete, found]
      exact AList.lookup_erase ..
    have none : ¬(s.delete dir).Locked dir := fun ⟨d, isD, _⟩ => by cases gone.symm.trans isD
    exact ⟨⟨fun v isV => (by cases gone.symm.trans isV), fun locked => absurd locked none⟩, none⟩

theorem rmdir_release (ok : s.LockOk dir) (locked : s.Locked dir) (release : phase = .fail ∨ phase = .success) :
    ∃ t, s.rmdir dir phase = .ok (t, .ok) ∧ t.LockOk dir ∧ ¬t.Locked dir := by
  obtain ⟨d, found, isLocked⟩ := locked
  have lazy : s.lazyDir dir = s := lazyDir_of_mem (mem_of_lookup found)
  have empty := ok.vacant ⟨d, found, isLocked⟩ d found
  have lookup : (s.files.insert dir (.dir { d with locked := false })).lookup dir = some (.dir { d with locked := false }) :=
    AList.lookup_insert _
  have dirOnly : DirOnly { s with files := s.files.insert dir (.dir { d with locked := false }) } dir := fun v isV => by
    cases lookup.symm.trans isV
    rfl
  rcases release with rfl | rfl
  · refine ⟨_, by simp only [rmdir, lazy, found, empty, isLocked, require]; rfl, ⟨dirOnly, fun ⟨d', isD, was⟩ => ?_⟩, fun ⟨d', isD, was⟩ => ?_⟩
    all_goals
      cases lookup.symm.trans isD
      cases was
  · refine ⟨_, by simp only [rmdir, lazy, found, empty, isLocked, require]; rfl, lockOk_removed dirOnly lookup rfl⟩

end Server

/-! ### Locks of calls -/

section
variable {dir : FileId} {events : List FsEvent} {e : FsEvent} {i : Nat} {phase : RmdirPhase}

theorem heldLocks_append : heldLocks dir (events ++ [e]) = lockStep dir (heldLocks dir events) e := by
  simp [heldLocks]

theorem ReleasesOwn.nil : ReleasesOwn dir [] := fun before _ _ _ _ isSplit _ => by
  cases before <;> cases isSplit

theorem ReleasesOwn.append (own : ReleasesOwn dir events)
    (last : ∀ i phase reply, e = ⟨.rpc i (.rmdir dir phase), reply⟩ → phase = .fail ∨ phase = .success → i ∈ heldLocks dir events) :
    ReleasesOwn dir (events ++ [e]) := by
  intro before i phase reply after isSplit release
  rcases List.eq_nil_or_concat after with rfl | ⟨rest, e', rfl⟩
  · obtain ⟨rfl, isLast⟩ := List.append_inj' isSplit rfl
    cases isLast
    exact last i phase reply rfl release
  · have whole : events ++ [e] = (before ++ ⟨.rpc i (.rmdir dir phase), reply⟩ :: rest) ++ [e'] := by
      rw [isSplit]
      simp
    exact own before i phase reply rest (List.append_inj' whole rfl).1 release

end

namespace Locks
open Cluster

structure Inv (dir : FileId) (v : FsScene) (ghost : Nat → List Nat) : Prop where
  ok : ∀ i, (v.world.servers i).LockOk dir
  held : ∀ c, heldLocks dir (v.hist c) = ghost c
  owner : ∀ i, (v.world.servers i).Locked dir ↔ ∃ c, i ∈ ghost c
  unique : ∀ i c c', i ∈ ghost c → i ∈ ghost c' → c = c'
  nodup : ∀ c, (ghost c).Nodup
  own : ∀ c, ReleasesOwn dir (v.hist c)
  returned : ∀ r ∈ v.log, ReleasesOwn dir r.events ∧ heldLocks dir r.events = []

def spec (dir : FileId) : Spec Cluster Action Fault Int (List Nat) Action.Reply where
  inv := Inv dir
  idle _ g := g = []
  post _ g _ := g = []
  fails err := err ≠ .assertion

variable {cfg cfg' : Config} {dir : FileId} {α β : Type} {c : Nat} {g : List Nat} {parent : InodeType} {path : Name}
  {cached : Bool} {ghost : Nat → List Nat} {post : List Nat → Status → Prop} {v : FsScene} {a : Action}

abbrev Fine (cfg : Config) (dir : FileId) (post : List Nat → α → Prop) (c : Nat) (g : List Nat) (p : FsProg α) : Prop :=
  Ok (fsSystem cfg) (lockRules cfg dir) (spec dir) post c g p

def Other (dir : FileId) : Action → Prop
  | .rpc _ (.rmdir id _) => id ≠ dir
  | _ => True

theorem lockStep_other {r : a.Reply} {held : List Nat} (other : Other dir a) : lockStep dir held ⟨a, r⟩ = held := by
  simp only [lockStep]
  split
  · next i id phase reply isEvent =>
    cases isEvent
    rw [if_neg fun both => other both.1]
  · rfl

theorem Inv.held_update {l : List FsEvent} (inv : Inv dir v ghost) (held : heldLocks dir l = ghost c) :
    ∀ c', heldLocks dir (update v.hist c l c') = ghost c' :=
  forall_of_update (fun c' l => heldLocks dir l = ghost c') rfl held fun c' _ => inv.held c'

theorem Inv.own_update {l : List FsEvent} (inv : Inv dir v ghost) (own : ReleasesOwn dir l) :
    ∀ c', ReleasesOwn dir (update v.hist c l c') :=
  forall_of_update (fun _ l => ReleasesOwn dir l) rfl own fun c' _ => inv.own c'

theorem Inv.other {r : a.Reply} {w : Cluster} (inv : Inv dir v ghost)
    (other : Other dir a) (same : ∀ i, Server.SameLock dir (v.world.servers i) (w.servers i)) :
    Inv dir (acted v c w a r) ghost := by
  refine ⟨fun i => (same i).ok (inv.ok i), inv.held_update ?_, fun i => (same i).locked.trans (inv.owner i), inv.unique, inv.nodup,
    inv.own_update ((inv.own c).append fun i phase reply isEvent _ => ?_), inv.returned⟩
  · rw [heldLocks_append, lockStep_other other, inv.held]
  · cases isEvent
    exact absurd rfl other

theorem sameLock_update {w w' : Cluster} {i : Nat} {t : Server} (servers : w'.servers = update w.servers i t)
    (same : Server.SameLock dir (w.servers i) t) (j : Nat) : Server.SameLock dir (w.servers j) (w'.servers j) := by
  exact forall_of_update (fun j s => Server.SameLock dir (w.servers j) s) servers same (fun _ _ => .refl) j

theorem fine_local {post : List Nat → a.Reply → Prop} (isLocal : Local a)
    (notCopy : ∀ i offset data, a ≠ .copyIn i offset data)
    (next : ∀ v e w r, (lockRules cfg dir).acts v c e a → v.world.exec cfg c e a = .ok (w, r) → post g r) :
    Fine cfg dir post c g (perform a) := by
  refine Ok.act fun v ghost e inv own allowed => ?_
  obtain ⟨w, r, done, -⟩ := exec_local v.world cfg c e isLocal
  refine ⟨w, r, g, done, ?_, next v e w r allowed done⟩
  rw [← own, update_eq_self]
  have servers : w.servers = v.world.servers := by
    cases a with
    | rpc i q => exact isLocal.elim
    | copyIn i offset data => exact absurd rfl (notCopy i offset data)
    | _ =>
      cases done
      rfl
  refine inv.other ?_ fun i => by rw [servers]; exact .refl
  cases a with
  | rpc i q => exact isLocal.elim
  | _ => trivial

theorem fine_resolve (parent : InodeType) {post : List Nat → Status × Option InodeType → Prop}
    (next : ∀ st x, (∀ y, x = some y → y.type.isDir = true) → post g (st, x)) :
    Fine cfg dir post c g (rpc parent.server (.resolve parent.id path)) := by
  refine Ok.act fun v ghost e inv own allowed => ?_
  obtain ⟨name, dirs⟩ := allowed
  obtain ⟨t, st, x, resolved, same, found⟩ := Server.sameLock_resolve (s := v.world.servers parent.server) dir c parent.id name
  have handled : (v.world.servers parent.server).handle cfg e c (.resolve parent.id path) = .ok (t, (st, x), []) := by
    simp only [Server.handle, resolved, ok_bind]
  obtain ⟨w, done, servers⟩ := exec_rpc handled
  refine ⟨w, _, g, done, ?_, next st x fun y isY => dirs y (found y isY)⟩
  rw [← own, update_eq_self]
  exact inv.other trivial (sameLock_update servers same)

theorem fine_removeMap {server : Nat} (next : ∀ st, post g st) :
    Fine cfg dir post c g (fosRemoveMap server parent path) := by
  refine Ok.act fun v ghost e inv own _ => ?_
  obtain ⟨t, st, notes, removed⟩ : ∃ t st notes, (v.world.servers server).removemap c parent.id path = (t, st, notes) := ⟨_, _, _, rfl⟩
  have handled : (v.world.servers server).handle cfg e c (.removeMap parent.id path) = .ok (t, st, notes) := by
    simp only [Server.handle, removed]
  obtain ⟨w, done, servers⟩ := exec_rpc handled
  refine ⟨w, _, g, done, ?_, next st⟩
  rw [← own, update_eq_self]
  exact inv.other trivial (sameLock_update servers (Server.sameLock_removemap removed))

/-! ### Lookup -/

theorem pathOwnern_dir (cfg' : Config) (path : Name) (isDir : parent.type.isDir = true) :
    ∃ server, fosPathOwnern cfg' parent path = .ok server := by
  simp only [fosPathOwnern]
  split
  · exact ⟨0, rfl⟩
  · cases type : parent.type <;> simp only [type, FileType.isDir, Bool.false_eq_true] at isDir ⊢ <;> exact ⟨_, rfl⟩

theorem pathOwner_dir (cfg' : Config) (path : Name) (isDir : parent.type.isDir = true) :
    ∃ server, fosPathOwner cfg' parent path = .ok server := by
  simp only [fosPathOwner]
  split
  · exact pathOwnern_dir cfg' path isDir
  · exact ⟨0, rfl⟩

def Leads (g : List Nat) (g' : List Nat) (found : Found) : Prop := g' = g ∧ found.inode.type.isDir = true

theorem fine_fosResolve :
    Fine cfg dir (fun g' r => g' = g ∧ ∀ y, r.2 = some y → y.type.isDir = true) c g (fosResolve parent path) := by
  simp only [fosResolve]
  split
  · refine ⟨rfl, ?_⟩
    rintro y ⟨⟩
    rfl
  · split
    · refine ⟨rfl, ?_⟩
      rintro y ⟨⟩
      rfl
    · exact fine_resolve parent fun _ _ dirs => ⟨rfl, dirs⟩

theorem fine_resolveLive (isDir : parent.type.isDir = true) :
    Fine cfg dir (Leads g) c g (resolveLive cfg' parent path cached) := by
  obtain ⟨server, owner⟩ := pathOwnern_dir cfg' path isDir
  simp only [resolveLive, owner, Prog.lift, Prog.ret_bind]
  refine Ok.bind (fine_fosResolve.mono ?_)
  rintro g' ⟨st, x⟩ ⟨rfl, dirs⟩
  cases x with
  | none => exact ⟨rfl, isDir⟩
  | some child =>
    simp only
    split
    · exact Ok.bind (fine_local trivial (fun _ _ _ => by rintro ⟨⟩) fun _ _ _ _ _ _ => ⟨rfl, dirs child rfl⟩)
    · exact ⟨rfl, isDir⟩

theorem fine_resolveCached {ended : Bool} (isDir : parent.type.isDir = true) :
    Fine cfg dir (Leads g) c g (resolveCached cfg' parent path ended cached) := by
  simp only [resolveCached]
  split
  · exact ⟨rfl, isDir⟩
  · split
    · exact ⟨rfl, isDir⟩
    · refine Ok.bind (fine_local trivial (fun _ _ _ => by rintro ⟨⟩) fun v e w r allowed done => ?_)
      cases done
      cases isChild : (v.world.clients c).cache.lookup (parent.id, path) with
      | none => exact fine_resolveLive isDir
      | some child => exact ⟨rfl, allowed child isChild⟩

theorem fine_pieces {pieces : List (Name × Bool)} : ∀ {parent : InodeType} {cached : Bool}, parent.type.isDir = true →
    Fine cfg dir (Leads g) c g (fosResolvePieces cfg' parent cached pieces) := by
  induction pieces with
  | nil => exact fun isDir => ⟨rfl, isDir⟩
  | cons piece rest ih =>
    intro parent cached isDir
    refine Ok.bind ((fine_resolveCached isDir).mono ?_)
    rintro g' found ⟨rfl, isDir'⟩
    split
    · exact ih isDir'
    · exact ⟨rfl, isDir'⟩

theorem startDir_isDir (isDir : parent.type.isDir = true) : (startDir parent path).type.isDir = true := by
  simp only [startDir]
  split
  · rfl
  · exact isDir

theorem fine_lookup (isDir : parent.type.isDir = true) :
    Fine cfg dir (Leads g) c g (fosLookup cfg' parent path cached) :=
  Ok.bind (fine_local trivial (fun _ _ _ => by rintro ⟨⟩) fun _ _ _ _ _ _ => fine_pieces (startDir_isDir isDir))

theorem fine_lookupParent (isDir : parent.type.isDir = true) :
    Fine cfg dir (fun g' r => Leads g g' r.1) c g (fosLookupParent cfg' parent path cached) := by
  refine Ok.bind (fine_local trivial (fun _ _ _ => by rintro ⟨⟩) fun _ _ _ _ _ _ => ?_)
  split
  · exact ⟨rfl, isDir⟩
  · refine Ok.bind ((fine_pieces (startDir_isDir isDir)).mono ?_)
    rintro g' found ⟨rfl, isDir'⟩
    rw [if_pos isDir']
    exact ⟨rfl, isDir'⟩

/-! ### The requests of a removal -/

theorem Inv.rmdir {w : Cluster} {i : Nat} {st : Status} {t : Server}
    (inv : Inv dir v ghost) (servers : w.servers = update v.world.servers i t) (ok : t.LockOk dir)
    (held : lockStep dir (ghost c) ⟨.rpc i (.rmdir dir phase), st⟩ = g) (nodup : g.Nodup)
    (locked : t.Locked dir ↔ i ∈ g ∨ ∃ c', c' ≠ c ∧ i ∈ ghost c') (alone : i ∈ g → ∀ c', c' ≠ c → i ∉ ghost c')
    (others : ∀ j, j ≠ i → (j ∈ g ↔ j ∈ ghost c)) (release : phase = .fail ∨ phase = .success → i ∈ ghost c) :
    Inv dir (acted v c w (.rpc i (.rmdir dir phase)) st) (update ghost c g) := by
  have members : ∀ j c', j ∈ update ghost c g c' ↔ (c' = c ∧ j ∈ g) ∨ (c' ≠ c ∧ j ∈ ghost c') := fun j c' => by
    by_cases isC : c' = c
    · subst isC
      simp
    · simp [isC]
  refine ⟨forall_of_update (fun _ s => s.LockOk dir) servers ok fun j _ => inv.ok j, fun c' => ?_, fun j => ?_, fun j c1 c2 mem1 mem2 => ?_,
    forall_of_update (fun _ => List.Nodup) rfl nodup fun c' _ => inv.nodup c',
    inv.own_update ((inv.own c).append fun i phase reply isEvent isRelease => ?_), inv.returned⟩
  · by_cases isC : c' = c
    · subst isC
      simp only [update_self, heldLocks_append, inv.held c']
      exact held
    · simp only [update_of_ne isC]
      exact inv.held c'
  · simp only [servers, members]
    by_cases isI : j = i
    · grind
    · rw [update_of_ne isI, inv.owner j]
      constructor
      · rintro ⟨c', mem⟩
        by_cases isC : c' = c
        · exact ⟨c, .inl ⟨rfl, (others j isI).mpr (isC ▸ mem)⟩⟩
        · exact ⟨c', .inr ⟨isC, mem⟩⟩
      · rintro ⟨c', ⟨-, mem⟩ | ⟨-, mem⟩⟩
        · exact ⟨c, (others j isI).mp mem⟩
        · exact ⟨c', mem⟩
  · -- a lock of this client is not one of another client
    have clash : ∀ c', c' ≠ c → j ∈ g → j ∉ ghost c' := fun c' ne mem mem' => by
      by_cases isI : j = i
      · exact alone (isI ▸ mem) c' ne (isI ▸ mem')
      · exact ne (inv.unique j c' c mem' ((others j isI).mp mem))
    rcases (members j c1).mp mem1 with ⟨rfl, own1⟩ | ⟨ne1, own1⟩ <;> rcases (members j c2).mp mem2 with ⟨rfl, own2⟩ | ⟨ne2, own2⟩
    · rfl
    · exact absurd own2 (clash c2 ne2 own1)
    · exact absurd own1 (clash c1 ne1 own2)
    · exact inv.unique j c1 c2 own1 own2
  · cases isEvent
    rw [inv.held c]
    exact release isRelease

theorem fine_try {i id : Nat}
    (next : i < cfg.serverCount → id = dir → ∀ st, (st = .ok ∧ i ∉ g → post (i :: g) st) ∧
      (st = .notEmpty → post g st) ∧ (st = .again → (cfg.scatterGather = true → g = []) → post g st)) :
    Fine cfg dir post c g (rpc i (.rmdir id .try)) := by
  refine Ok.act fun v ghost e inv own allowed => ?_
  obtain ⟨bound, rfl, -, unlocked⟩ := allowed
  obtain ⟨t, st, done, ok, result⟩ := Server.rmdir_try (inv.ok i)
  have handled : (v.world.servers i).handle cfg e c (.rmdir id .try) = .ok (t, st, []) := by
    simp only [Server.handle, done, ok_bind]
  obtain ⟨w, executed, servers⟩ := exec_rpc handled
  -- a status other than OK leaves the locks
  have kept : st ≠ .ok → (t.Locked id ↔ (v.world.servers i).Locked id) →
      Inv id (acted v c w (.rpc i (.rmdir id .try)) st) (update ghost c g) := fun notOk same => by
    refine inv.rmdir servers ok ?_ (own ▸ inv.nodup c) ?_ (fun mem c' ne mem' => ?_) (fun j _ => by rw [own]) fun release => ?_
    · simp [lockStep, notOk, own]
    · rw [same, inv.owner i]
      constructor
      · rintro ⟨c', mem⟩
        by_cases isC : c' = c
        · exact .inl (own ▸ isC ▸ mem)
        · exact .inr ⟨c', isC, mem⟩
      · rintro (mem | ⟨c', -, mem⟩)
        · exact ⟨c, own ▸ mem⟩
        · exact ⟨c', mem⟩
    · exact ne (inv.unique i c' c mem' (own ▸ mem))
    · rcases release with h | h <;> cases h
  rcases result with ⟨rfl, free, taken⟩ | ⟨rfl, was, same⟩ | ⟨rfl, same⟩
  · have nobody : ∀ c', i ∉ ghost c' := fun c' mem => free ((inv.owner i).mpr ⟨c', mem⟩)
    have mine : i ∉ g := own ▸ nobody c
    refine ⟨w, _, i :: g, executed, inv.rmdir servers ok ?_ ?_ ?_ (fun _ c' _ => nobody c') (fun j ne => ?_) fun release => ?_,
      ((next bound rfl _).1 ⟨rfl, mine⟩)⟩
    · simp [lockStep, own]
    · exact List.nodup_cons.mpr ⟨mine, own ▸ inv.nodup c⟩
    · exact ⟨fun _ => .inl (List.mem_cons_self ..), fun _ => taken⟩
    · simp [ne, own]
    · rcases release with h | h <;> cases h
  · refine ⟨w, _, g, executed, kept (by decide) same, (next bound rfl _).2.2 rfl fun gathers => ?_⟩
    by_contra some
    exact unlocked gathers rfl (by rw [inv.held c, own]; exact some) was
  · exact ⟨w, _, g, executed, kept (by decide) same, (next bound rfl _).2.1 rfl⟩

theorem fine_release {i id : Nat} (mine : i ∈ g)
    (release : phase = .fail ∨ phase = .success) (next : g.Nodup → post (g.erase i) .ok) :
    Fine cfg dir post c g (rpc i (.rmdir id phase)) := by
  refine Ok.act fun v ghost e inv own allowed => ?_
  obtain ⟨-, rfl, -⟩ := allowed
  obtain ⟨t, done, ok, unlocked⟩ := Server.rmdir_release (inv.ok i) ((inv.owner i).mpr ⟨c, own ▸ mine⟩) release
  have handled : (v.world.servers i).handle cfg e c (.rmdir id phase) = .ok (t, .ok, []) := by
    simp only [Server.handle, done, ok_bind]
  obtain ⟨w, executed, servers⟩ := exec_rpc handled
  have nodup : g.Nodup := own ▸ inv.nodup c
  have gone : i ∉ g.erase i := fun mem => (nodup.mem_erase_iff.mp mem).1 rfl
  have others : ∀ c', c' ≠ c → i ∉ ghost c' := fun c' ne mem => ne (inv.unique i c' c mem (own ▸ mine))
  refine ⟨w, _, g.erase i, executed, inv.rmdir servers ok ?_ (nodup.erase i) ?_ (fun mem => absurd mem gone) (fun j ne => ?_)
    (fun _ => own ▸ mine), next nodup⟩
  · rcases release with rfl | rfl <;> simp [lockStep, own]
  · grind
  · grind

theorem fine_ensure {b : Bool} {post : List Nat → Unit → Prop} (holds : b = true) (next : post g ()) :
    Fine cfg dir post c g (ensure b) := by
  rw [holds]
  exact next

end Locks
end Faux
