import Faux.Theorems.Fs.Carried
import Faux.Theorems.Fs.RmdirPhases

/-! `fosRmdir` by a client that acts alone: the lookups, and what the call reports. -/

namespace Faux
open Function Lib System

namespace Rmdir
open Cluster

variable {cfg : Config} {c : Nat} {w : Cluster} {x : InodeType} {n : Name} {p : FileId} {s : Server}

/-! ### Lookups -/

/-- Lookups have been made since: servers note who has been given an entry, and the client has filled its cache. -/
structure Looked (w : Cluster) (c : Nat) (cache : DirCache) (w' : Cluster) : Prop where
  servers : ∀ i, ∃ apps, w'.servers i = { w.servers i with apps }
  cache : (w'.clients c).cache = cache
  inbox : (w'.clients c).inbox = []

section
variable {cache : DirCache} {w' : Cluster}

theorem stable_looked : (fsSystem cfg).Stable (Looked w c cache) := by
  intro w₁ w₂ i looked stepped
  obtain ⟨k, polled, rfl⟩ : ∃ k, (w₁.clients i.1).poll i.2 = some k ∧ w₁.setClient i.1 k = w₂ := Option.map_eq_some_iff.mp stepped
  by_cases isC : c = i.1
  · subst isC
    -- no notification waits
    simp [Client.poll, looked.inbox] at polled
  · have same : (w₁.setClient i.1 k).clients c = w₁.clients c := update_of_ne isC ..
    exact ⟨looked.servers, by rw [same, looked.cache], by rw [same, looked.inbox]⟩

theorem alone_find (looked : Looked w c cache w') :
    Alone cfg c (fun r w₁ => r = cache.lookup (p, n) ∧ Looked w c cache w₁) (perform (.find p n)) w' :=
  Ends.perform stable_looked looked fun w₁ _ looked => ⟨w₁, _, rfl, trivial, fun _ _ _ holds stepped =>
    ⟨holds.1, stable_looked _ _ _ holds.2 stepped⟩, by rw [looked.cache], looked⟩

theorem alone_add {y : InodeType} (looked : Looked w c cache w') :
    Alone cfg c (fun _ w₁ => Looked w c (cache.add p n y) w₁) (perform (.add p n y)) w' :=
  Ends.perform stable_looked looked fun w₁ _ looked => ⟨_, _, rfl, trivial, stable_looked, looked.servers,
    by simp [setClient, looked.cache], by simp [setClient, looked.inbox]⟩

theorem alone_check (looked : Looked w c cache w') : Alone cfg c (fun _ w₁ => Looked w c cache w₁) (perform .check) w' :=
  Ends.perform stable_looked looked fun w₁ _ looked => ⟨_, _, rfl, trivial, stable_looked, looked.servers,
    by simp [setClient, Client.check, Client.notified, looked.inbox, looked.cache], by simp [setClient, Client.check]⟩

theorem resolve_apps {y : InodeType} (app : AppId) (name : n ≠ "") (found : s.entry p n = some y) :
    ∃ apps, s.resolve app p n = .ok ({ s with apps }, .ok, some y) := by
  obtain ⟨d, e, isDir, child, rfl⟩ := Server.entry_some found
  refine ⟨(s.appAddLoc app e.loc).apps, ?_⟩
  have same : s.appAddLoc app e.loc = { s with apps := (s.appAddLoc app e.loc).apps } := by
    unfold Server.appAddLoc
    split_ifs <;> rfl
  simp only [Server.resolve, isDir, child, require, name, ne_eq, not_false_eq_true, decide_true, if_true, ok_bind]
  rw [← same]

theorem alone_resolve {j : Nat} {y : InodeType} (name : n ≠ "") (found : (w.servers j).entry p n = some y)
    (looked : Looked w c cache w') : Alone cfg c (fun r w₁ => r = (.ok, some y) ∧ Looked w c cache w₁) (rpc j (.resolve p n)) w' := by
  refine Ends.perform stable_looked looked fun w₁ e looked => ?_
  obtain ⟨apps, isServer⟩ := looked.servers j
  have found' : (w₁.servers j).entry p n = some y := by
    rw [isServer]
    exact found
  obtain ⟨apps', resolved⟩ := resolve_apps c name found'
  have handled : (w₁.servers j).handle cfg e c (.resolve p n) = .ok ({ w₁.servers j with apps := apps' }, (.ok, some y), []) := by
    simp only [Server.handle, resolved, ok_bind]
  refine ⟨_, _, by simp only [fsSystem, Cluster.exec, request, handled, ok_bind]; rfl, trivial,
    fun _ _ _ holds stepped => ⟨holds.1, stable_looked _ _ _ holds.2 stepped⟩, rfl, fun i => ?_, ?_, ?_⟩
  · by_cases isJ : i = j
    · subst isJ
      refine ⟨apps', ?_⟩
      show update w₁.servers i _ i = _
      rw [update_self, isServer]
    · obtain ⟨apps, isServer⟩ := looked.servers i
      refine ⟨apps, ?_⟩
      show update w₁.servers j _ i = _
      rw [update_of_ne isJ, isServer]
  · simp [setClient, notify, setServer, Client.receive, Client.notified, looked.inbox, looked.cache]
  · simp [setClient, notify, setServer, Client.receive, looked.inbox]

variable {cfg' : Config} {y : InodeType} {cache' : DirCache}

theorem alone_resolveLive {p : InodeType} {cached : Bool} (notDot : n ≠ ".") (found : w.stored cfg' p n = some y)
    (looked : Looked w c cache w') :
    Alone cfg c (fun r w₁ => r.retval = .ok ∧ r.inode = y ∧ Looked w c (cache.add p.id n y) w₁) (resolveLive cfg' p n cached) w' := by
  obtain ⟨j, owner, reply⟩ : ∃ j, fosPathOwnern cfg' p n = .ok j ∧
      Alone cfg c (fun r w₁ => r = (.ok, some y) ∧ Looked w c cache w₁) (fosResolve { p with server := j } n) w' := by
    unfold stored at found
    split_ifs at found with empty isRoot
    · cases found
      refine ⟨0, by simp [fosPathOwnern, empty, isRoot], ?_⟩
      rw [fosResolve, if_pos ⟨isRoot, empty⟩]
      exact Ends.ret stable_looked looked fun _ looked => ⟨rfl, looked⟩
    · split at found
      · next j owner =>
        refine ⟨j, owner, ?_⟩
        rw [fosResolve, if_neg fun both => empty both.2, if_neg notDot]
        exact alone_resolve empty found looked
      · cases found
  simp only [resolveLive, owner, Prog.lift, Prog.ret_bind]
  refine Ends.bind (reply.mono ?_)
  rintro r w₁ ⟨rfl, looked₁⟩
  simp only [if_true]
  refine Ends.bind ((alone_add looked₁).mono fun _ w₂ looked₂ => ?_)
  exact Ends.ret stable_looked looked₂ fun _ looked => ⟨rfl, rfl, looked⟩

theorem alone_resolveCached {p : InodeType} {ended cached : Bool} (found : w.piece cfg' cache p n ended = some (y, cache'))
    (looked : Looked w c cache w') :
    Alone cfg c (fun r w₁ => r.retval = .ok ∧ r.inode = y ∧ Looked w c cache' w₁) (resolveCached cfg' p n ended cached) w' := by
  unfold piece at found
  unfold resolveCached
  by_cases dot : n = "."
  · rw [if_pos (.inl dot)] at found
    cases found
    rw [if_pos dot]
    exact Ends.ret stable_looked looked fun _ looked => ⟨rfl, rfl, looked⟩
  · by_cases last : n = "" ∧ ended = true
    · rw [if_pos (.inr last)] at found
      cases found
      rw [if_neg dot, if_pos last]
      exact Ends.ret stable_looked looked fun _ looked => ⟨rfl, rfl, looked⟩
    · rw [if_neg (not_or.mpr ⟨dot, last⟩)] at found
      rw [if_neg dot, if_neg last]
      refine Ends.bind ((alone_find looked).mono ?_)
      rintro r w₁ ⟨rfl, looked₁⟩
      cases isCached : cache.lookup (p.id, n) with
      | some child =>
        simp only [isCached] at found
        cases found
        exact Ends.ret stable_looked looked₁ fun _ looked => ⟨rfl, rfl, looked⟩
      | none =>
        simp only [isCached, Option.map_eq_some_iff] at found
        obtain ⟨child, isStored, same⟩ := found
        cases same
        exact alone_resolveLive dot isStored looked₁

theorem alone_pieces : ∀ {pieces : List (Name × Bool)} {p : InodeType} {cached : Bool} {cache : DirCache} {w' : Cluster},
    w.walk cfg' cache p pieces = some (y, cache') → Looked w c cache w' →
      Alone cfg c (fun r w₁ => r.retval = .ok ∧ r.inode = y ∧ Looked w c cache' w₁) (fosResolvePieces cfg' p cached pieces) w' := by
  intro pieces
  induction pieces with
  | nil =>
    intro p cached cache w' found looked
    cases found
    exact Ends.ret stable_looked looked fun _ looked => ⟨rfl, rfl, looked⟩
  | cons piece rest ih =>
    intro p cached cache w' found looked
    obtain ⟨n, ended⟩ := piece
    rw [walk] at found
    split at found
    · next child cache₁ isChild =>
      refine Ends.bind ((alone_resolveCached isChild looked).mono ?_)
      rintro r w₁ ⟨isOk, rfl, looked₁⟩
      rw [if_pos isOk]
      exact ih found looked₁
    · cases found

theorem alone_lookup {p : InodeType} (found : w.walk cfg' cache (startDir p n) (lookupPieces n) = some (y, cache'))
    (looked : Looked w c cache w') :
    Alone cfg c (fun r w₁ => r.retval = .ok ∧ r.inode = y ∧ Looked w c cache' w₁) (fosLookup cfg' p n false) w' :=
  Ends.bind ((alone_check looked).mono fun _ _ looked => alone_pieces found looked)

theorem walkParent_spec {p : InodeType} {path : Name} (found : w.walkParent cfg' cache p path = some ((y, cache'), n)) :
    path = "" ∧ y = p ∧ cache' = cache ∧ n = "" ∨ path ≠ "" ∧ y.type.isDir = true ∧ n = (splitParent path).2 ∧
      w.walk cfg' cache (startDir p path) ((splitParent path).1.map (·, false)) = some (y, cache') := by
  unfold walkParent at found
  split_ifs at found with empty
  · cases found
    exact .inl ⟨empty, rfl, rfl, empty⟩
  · grind

theorem alone_lookupParent {p : InodeType} {path : Name} (found : w.walkParent cfg' cache p path = some ((y, cache'), n))
    (looked : Looked w c cache w') :
    Alone cfg c (fun r w₁ => r.1.retval = .ok ∧ r.1.inode = y ∧ r.2 = n ∧ Looked w c cache' w₁) (fosLookupParent cfg' p path false) w' := by
  refine Ends.bind ((alone_check looked).mono fun _ w₁ looked₁ => ?_)
  obtain ⟨empty, rfl, rfl, rfl⟩ | ⟨nonempty, isDir, isName, walked⟩ := walkParent_spec found
  · rw [if_pos empty]
    exact Ends.ret stable_looked looked₁ fun _ looked => ⟨rfl, rfl, empty, looked⟩
  · rw [if_neg nonempty]
    generalize splitParent path = parts at isName walked ⊢
    obtain ⟨names, rest⟩ := parts
    refine Ends.bind ((alone_pieces walked looked₁).mono ?_)
    rintro r w₂ ⟨isOk, rfl, looked₂⟩
    rw [if_pos isDir]
    exact Ends.ret stable_looked looked₂ fun _ looked => ⟨isOk, rfl, isName.symm, looked⟩

end

/-! ### The call -/

section
variable {cache : DirCache} {w' : Cluster}

theorem Looked.names (looked : Looked w c cache w') (i : Nat) : (w'.servers i).names = (w.servers i).names := by
  obtain ⟨apps, isServer⟩ := looked.servers i
  rw [isServer]
  rfl

theorem Looked.files (looked : Looked w c cache w') (i : Nat) : (w'.servers i).files = (w.servers i).files := by
  obtain ⟨apps, isServer⟩ := looked.servers i
  rw [isServer]

theorem Looked.vacant (looked : Looked w c cache w') (i : Nat) (id : FileId) : (w'.servers i).Vacant id ↔ (w.servers i).Vacant id := by
  unfold Server.Vacant
  rw [looked.files i]

theorem Looked.empty (looked : Looked w c cache w') : w'.Empty cfg x ↔ w.Empty cfg x :=
  forall₂_congr fun i _ => looked.vacant i x.id

theorem Looked.outlives (looked : Looked w c cache w') (j : Nat) : w'.Outlives cfg x j ↔ w.Outlives cfg x j := by
  obtain ⟨apps, isServer⟩ := looked.servers j
  unfold Outlives
  rw [isServer]
  rfl

theorem Looked.hasDir (looked : Looked w c cache w') (has : w.HasDir cfg x) : w'.HasDir cfg x where
  isDir := has.isDir
  home := has.home
  present := by
    rw [looked.files]
    exact has.present
  usable i lt := by
    obtain ⟨apps, isServer⟩ := looked.servers i
    rw [isServer]
    exact ⟨(has.usable i lt).dir, (has.usable i lt).orphan⟩
  unlocked i lt := by
    unfold Server.Locked
    rw [looked.files i]
    exact has.unlocked i lt
  entries notShared i lt other := (looked.vacant i x.id).mpr (has.entries notShared i lt other)

end

def forget (p : InodeType) (n : Name) (x : InodeType) (r : Bool × Status) : FsProg Status :=
  if r.1 = true ∧ r.2 = .ok then do
    perform (.remove p.id n)
    perform (.remove x.id "..")
    .ret r.2
  else .ret r.2

theorem alone_remove : Alone cfg c (fun _ w' => w'.servers = w.servers) (perform (.remove p n)) w :=
  Ends.perform (P := fun w' => w'.servers = w.servers) stable_eq rfl fun _ _ same => ⟨_, _, rfl, trivial, stable_eq, same⟩

theorem alone_forget {p : InodeType} {r : Bool × Status} :
    Alone cfg c (fun st w' => st = r.2 ∧ w'.servers = w.servers) (forget p n x r) w := by
  unfold forget
  split_ifs
  · refine Ends.bind (alone_remove.mono fun _ w₁ same₁ => Ends.bind (alone_remove.mono fun _ w₂ same₂ => ?_))
    exact alone_ret (P := fun f => f = w.servers) (same₂.trans same₁)
  · exact alone_ret (P := fun f => f = w.servers) rfl

section
variable {t : Target} {parent : InodeType} {path : Name} {fuel : Nat} {post : Status → Cluster → Prop}

theorem target_spec (isTarget : w.target cfg c parent path = some t) : path ≠ "" ∧ ∃ cache cache',
    w.walkParent cfg (w.clients c).cache parent (stripSlash path) = some ((t.parent, cache), t.name) ∧
      w.walk cfg cache (startDir t.parent t.name) (lookupPieces t.name) = some (t.inode, cache') ∧ t.parent.type.isDir = true := by
  unfold target at isTarget
  split_ifs at isTarget with bad
  obtain ⟨nonempty, isDir⟩ := not_or.mp bad
  refine ⟨nonempty, ?_⟩
  split at isTarget
  · next dir cache name isParent =>
    split at isTarget
    · next inode cache' isInode =>
      cases isTarget
      refine ⟨cache, cache', isParent, isInode, ?_⟩
      obtain ⟨-, rfl, -, -⟩ | ⟨-, found, -, -⟩ := walkParent_spec isParent
      · simpa using isDir
      · exact found
    · cases isTarget
  · cases isTarget

theorem walk_client {pieces : List (Name × Bool)} : ∀ {cache : DirCache} {p : InodeType},
    w.walk (cfg.client c) cache p pieces = w.walk cfg cache p pieces := by
  have piece : w.piece (cfg.client c) = w.piece cfg := rfl
  induction pieces with
  | nil => exact fun {_ _} => rfl
  | cons q rest ih =>
    intro cache p
    obtain ⟨n, ended⟩ := q
    simp only [walk, piece, ih]

theorem walkParent_client {cache : DirCache} : w.walkParent (cfg.client c) cache parent path = w.walkParent cfg cache parent path := by
  simp only [walkParent, walk_client]

variable {j : Nat} (settled : (w.clients c).inbox = []) (isTarget : w.target cfg c parent path = some t)
  (owner : fosPathOwner cfg t.parent t.name = .ok j) (only : ∀ st w w', w'.servers = w.servers → post st w → post st w')
include settled isTarget owner only

theorem alone_fosRmdir
    (next : ∀ cache w₁, Looked w c cache w₁ →
      Alone cfg c (fun r w' => post r.2 w') (rmdirInode (cfg.client c) fuel j t.parent t.name t.inode) w₁) :
    Alone cfg c post (fosRmdir (cfg.client c) fuel parent path) w := by
  obtain ⟨nonempty, cache, cache', isParent, isInode, -⟩ := target_spec isTarget
  have looked : Looked w c (w.clients c).cache w := ⟨fun i => ⟨_, rfl⟩, rfl, settled⟩
  have owner' : fosPathOwner (cfg.client c) t.parent t.name = .ok j := owner
  rw [← walkParent_client (c := c)] at isParent
  rw [← walk_client (c := c)] at isInode
  rw [fosRmdir, if_neg nonempty]
  refine Ends.bind ((alone_lookupParent isParent looked).mono ?_)
  rintro ⟨found, n⟩ w₁ ⟨isOk, isFound, isName, looked₁⟩
  simp only at isOk isFound isName
  simp only [isOk, isFound, isName, owner', Prog.lift, Prog.ret_bind, ne_eq, not_true_eq_false, if_false]
  refine Ends.bind ((alone_lookup isInode looked₁).mono ?_)
  rintro child w₂ ⟨isOk', isChild, looked₂⟩
  simp only [isOk', isChild, not_true_eq_false, if_false]
  refine Ends.bind ((next _ w₂ looked₂).mono fun r w₃ done => ?_)
  refine (alone_forget (p := found.inode) (n := n) (x := child.inode) (r := r)).mono ?_
  rintro st w₄ ⟨rfl, same⟩
  exact only _ _ _ same done

theorem alone_of_fosRmdir (ends : Alone cfg c post (fosRmdir (cfg.client c) fuel parent path) w) :
    ∃ cache w₁, Looked w c cache w₁ ∧ Alone cfg c (fun r w' => post r.2 w') (rmdirInode (cfg.client c) fuel j t.parent t.name t.inode) w₁ := by
  obtain ⟨nonempty, cache, cache', isParent, isInode, -⟩ := target_spec isTarget
  have looked : Looked w c (w.clients c).cache w := ⟨fun i => ⟨_, rfl⟩, rfl, settled⟩
  have owner' : fosPathOwner (cfg.client c) t.parent t.name = .ok j := owner
  rw [← walkParent_client (c := c)] at isParent
  rw [← walk_client (c := c)] at isInode
  rw [fosRmdir, if_neg nonempty] at ends
  obtain ⟨⟨found, n⟩, w₁, rest, isOk, isFound, isName, looked₁⟩ := ends.of_bind.meet (alone_lookupParent isParent looked)
  simp only at isOk isFound isName
  simp only [isOk, isFound, isName, owner', Prog.lift, Prog.ret_bind, ne_eq, not_true_eq_false, if_false] at rest
  obtain ⟨child, w₂, rest, isOk', isChild, looked₂⟩ := rest.of_bind.meet (alone_lookup isInode looked₁)
  simp only [isOk', isChild, not_true_eq_false, if_false] at rest
  refine ⟨cache', w₂, looked₂, rest.of_bind.mono fun r w₃ last => ?_⟩
  have finish : Alone cfg c (fun st w' => st = r.2 ∧ w'.servers = w₃.servers) (forget found.inode n child.inode r) w₃ := alone_forget
  obtain ⟨st, w₄, done, rfl, same⟩ := Ends.meet last finish
  exact only _ _ _ same.symm done

end

end Rmdir

namespace Cluster
open Rmdir
variable {cfg : Config} {w : Cluster} {c fuel : Nat} {parent : InodeType} {path : Name} {t : Target}

theorem Removed.congr {w w' : Cluster} (servers : w'.servers = w.servers) (removed : w.Removed cfg t) : w'.Removed cfg t := by
  refine ⟨fun j owner => ?_, fun i lt => ?_⟩
  · rw [servers]
    exact removed.entry j owner
  · rw [servers]
    exact removed.gone i lt

theorem removed_of_unlinked {j : Nat} {f : Nat → Server} {w' : Cluster} (owner : fosPathOwner cfg t.parent t.name = .ok j)
    (unlinked : Unlinked cfg t.inode j t.parent t.name f w'.servers)
    (elsewhere : ∀ i < cfg.serverCount, ¬t.inode.Asked cfg i → (f i).names.kind t.inode.id = none) : w'.Removed cfg t := by
  refine ⟨fun j' owner' => ?_, fun i lt => ?_⟩
  · cases owner.symm.trans owner'
    exact unlinked.entry
  · by_cases asked : t.inode.Asked cfg i
    · exact unlinked.gone i asked
    · rw [unlinked.kept i asked]
      exact elsewhere i lt asked

theorem truthful_congr (st : Status) (w₁ w₂ : Cluster) (same : w₂.servers = w₁.servers) (truthful : w.Truthful cfg t st w₁) :
    w.Truthful cfg t st w₂ := ⟨truthful.empty, truthful.removed.trans ⟨.congr same, .congr same.symm⟩⟩

theorem order_of_reports {j : Nat} (settled : (w.clients c).inbox = []) (isTarget : w.target cfg c parent path = some t) (has : w.HasDir cfg t.inode)
    (owner : fosPathOwner cfg t.parent t.name = .ok j) (reports : w.Reports cfg c (fuel + 1) parent path t) (sequential : cfg.scatterGather = false)
    (shared : t.inode.type = .dirShared) (vacant : (w.servers t.inode.server).Vacant t.inode.id) : ∀ i < t.inode.server, (w.servers i).Vacant t.inode.id := by
  obtain ⟨cache, w₁, looked, ends⟩ := alone_of_fosRmdir settled isTarget owner truthful_congr reports
  have count : (cfg.client c).serverCount = cfg.serverCount := rfl
  have mode : (cfg.client c).scatterGather = cfg.scatterGather := rfl
  by_contra early
  obtain ⟨r, w', known, isOk⟩ := ends.meet (inode_early (looked.hasDir has) count mode sequential shared ((looked.vacant _ _).mpr vacant)
    (by simpa only [looked.vacant] using early))
  exact early fun i before => known.empty.mp isOk i (Nat.lt_trans before has.home)

/-! ### A directory on two servers -/

def checkPart (s : Server) (id : FileId) : Bool :=
  s.orphans.all (fun o => o.id ≠ id) &&
    match s.files.lookup id with
    | some (.dir d) => !d.locked
    | some _ => false
    | none => true

theorem part_of_check {id : FileId} (checked : checkPart s id = true) : s.Usable id ∧ ¬s.Locked id := by
  simp only [checkPart, Bool.and_eq_true, List.all_eq_true, decide_eq_true_eq] at checked
  obtain ⟨kept, part⟩ := checked
  refine ⟨⟨fun v found => ?_, fun ⟨o, mem, same⟩ => kept o mem same⟩, fun ⟨d, found, locked⟩ => ?_⟩
  · rw [found] at part
    cases v with
    | dir d => rfl
    | file f => cases part
    | symlink dest => cases part
  · simp [found, locked] at part

def checkShared (cfg : Config) (w : Cluster) (x : InodeType) : Bool :=
  x.type = .dirShared && x.server < cfg.serverCount && ((w.servers x.server).files.lookup x.id).isSome &&
    (List.range cfg.serverCount).all fun i => checkPart (w.servers i) x.id

theorem hasDir_of_check {x : InodeType} (checked : checkShared cfg w x = true) : w.HasDir cfg x := by
  simp only [checkShared, Bool.and_eq_true, decide_eq_true_eq, List.all_eq_true, List.mem_range] at checked
  obtain ⟨⟨⟨shared, home⟩, present⟩, parts⟩ := checked
  exact ⟨by rw [shared]; rfl, home, AList.lookup_isSome.mp present, fun i lt => (part_of_check (parts i lt)).1,
    fun i lt => (part_of_check (parts i lt)).2, fun notShared => absurd shared notShared⟩

def checkVacant (s : Server) (id : FileId) : Bool :=
  match s.files.lookup id with
  | some (.dir d) => !d.children.entries.any fun e => e.1 ≠ ".."
  | _ => true

theorem vacant_iff {id : FileId} : s.Vacant id ↔ checkVacant s id = true := by
  unfold Server.Vacant checkVacant
  split
  · next d found => simp [found]
  · next other => exact iff_of_true (fun d found => absurd found (other d)) rfl

def oneByOne : Config := { twoServers with scatterGather := false }

def targetD : Target := { parent := root, name := "d", inode := Knowing.dirD }

def makeD : List FsLabel := plain 0 (.mkdir root "d" 1023) 6 1

def fillD : List FsLabel := makeD ++ plain 0 (.open Knowing.dirD "x" { creat := true, rdwr := true } 420) 5 4

/-- What is seen of the directory: whether client 0 has processed its notifications and finds the directory, which server has
    entries, and the entry in the root. -/
def viewD (s : FsConf) : Bool × Option Target × Bool × Bool × Bool × Bool :=
  ((s.world.clients 0).inbox = [], s.world.target oneByOne 0 root "d", checkShared oneByOne s.world Knowing.dirD,
    checkVacant (s.world.servers 0) Knowing.dirD.id, checkVacant (s.world.servers 1) Knowing.dirD.id, ((s.world.servers 0).entry 0 "d").isSome)

theorem run_makeD : (run (fsSystem oneByOne).step (idle noBlocks) makeD).map viewD = some (true, some targetD, true, true, true, true) := by
  decide +kernel

theorem run_fillD : (run (fsSystem oneByOne).step (idle noBlocks) fillD).map viewD = some (true, some targetD, true, false, true, true) := by
  decide +kernel

theorem owner_targetD : fosPathOwner oneByOne targetD.parent targetD.name = .ok 0 := rfl

/-! ### The report -/

/-- Alone, `fosRmdir` of an existing directory reports what it did, unless a server before the home has entries and
    is asked alone, a part of the directory is not asked for, or the name under which the entry is removed is not
    there. -/
theorem reports_iff_removable (settled : (w.clients c).inbox = []) (isTarget : w.target cfg c parent path = some t)
    (has : w.HasDir cfg t.inode) : w.Reports cfg c (fuel + 1) parent path t ↔ w.Removable cfg t := by
  obtain ⟨-, -, -, -, -, isDir⟩ := target_spec isTarget
  obtain ⟨j, owner⟩ := Locks.pathOwner_dir cfg t.name isDir
  have count : (cfg.client c).serverCount = cfg.serverCount := rfl
  have mode : (cfg.client c).scatterGather = cfg.scatterGather := rfl
  constructor
  · intro reports
    obtain ⟨cache, w₁, looked, ends⟩ := alone_of_fosRmdir settled isTarget owner truthful_congr reports
    have has₁ := looked.hasDir has
    have name : w.Empty cfg t.inode → w.Unlinkable cfg t := by
      intro empty j' owner'
      cases owner.symm.trans owner'
      by_contra nameless
      refine inode_nameless has₁ count (looked.empty.mpr empty) ?_ (ends.mono fun r w' known => known.empty.mpr empty)
      rwa [Server.entry, looked.names j, looked.outlives j]
    refine ⟨order_of_reports settled isTarget has owner reports, fun notShared empty i lt other present => ?_, name⟩
    obtain ⟨found, outlives⟩ := name empty j owner
    obtain ⟨r, w', known, isOk, unlinked⟩ := ends.meet (inode_empty has₁ count (looked.empty.mpr empty)
      (by rwa [Server.entry, looked.names j]) (by rwa [looked.outlives j]))
    have gone := (known.removed.mp (by rw [isOk])).gone i lt
    have notAsked : ¬t.inode.Asked cfg i := fun asked => asked.elim other fun shared => notShared shared.1
    rw [unlinked.kept i notAsked, looked.names i, (has.usable i lt).kind present] at gone
    cases gone
  · intro removable
    refine alone_fosRmdir settled isTarget owner truthful_congr fun cache w₁ looked => ?_
    have has₁ := looked.hasDir has
    by_cases empty : w.Empty cfg t.inode
    · obtain ⟨found, outlives⟩ := removable.name empty j owner
      refine (inode_empty has₁ count (looked.empty.mpr empty) (by rwa [Server.entry, looked.names j]) (by rwa [looked.outlives j])).mono ?_
      rintro r w' ⟨rfl, unlinked⟩
      refine ⟨iff_of_true rfl empty, iff_of_true rfl (removed_of_unlinked owner unlinked fun i lt notAsked => ?_)⟩
      obtain ⟨other, notShared⟩ := not_or.mp notAsked
      rw [looked.names i]
      exact (has.usable i lt).kind_none (removable.elsewhere (fun shared => notShared ⟨shared, lt⟩) empty i lt other)
    · have order : cfg.scatterGather = false → t.inode.type = .dirShared → (w₁.servers t.inode.server).Vacant t.inode.id →
          ∀ i < t.inode.server, (w₁.servers i).Vacant t.inode.id := fun sequential shared vacant i before =>
        (looked.vacant i _).mpr (removable.order sequential shared ((looked.vacant _ _).mp vacant) i before)
      refine (inode_full has₁ count mode (looked.empty.not.mpr empty) order).mono ?_
      rintro r w' ⟨isFull, kind⟩
      have notOk : r.2 ≠ .ok := by
        rw [isFull]
        decide
      refine ⟨iff_of_false notOk empty, iff_of_false notOk fun removed => ?_⟩
      cases (removed.gone _ has.home).symm.trans kind

theorem reports_makeD : ∃ s, Reach FsConf.Start (fun _ _ => True) (fsSystem oneByOne).step s ∧ s.world.Reports oneByOne 0 5 root "d" targetD := by
  obtain ⟨s, ran, seen⟩ := Option.map_eq_some_iff.mp run_makeD
  obtain ⟨settled, isTarget, has, first, second, entry⟩ : _ ∧ _ ∧ _ ∧ _ ∧ _ ∧ _ := by simpa only [viewD, Prod.mk.injEq] using seen
  have reach : Reach FsConf.Start (fun _ _ => True) (fsSystem oneByOne).step s := .of_run start_idle ran
  refine ⟨s, reach, ?_⟩
  refine (reports_iff_removable (of_decide_eq_true settled) isTarget (hasDir_of_check has)).mpr ⟨fun _ _ _ i before => ?_, fun notShared => absurd rfl notShared,
    fun _ j owner => ?_⟩
  · obtain rfl : i = 0 := Nat.lt_one_iff.mp before
    exact vacant_iff.mpr first
  · cases owner_targetD.symm.trans owner
    exact ⟨Option.isSome_iff_ne_none.mp entry, fun same => absurd same (by decide)⟩

/-- Server 0 has an entry of the directory, whose home is server 1. -/
theorem exists_false_report : ∃ s, Reach FsConf.Start (fun _ _ => True) (fsSystem oneByOne).step s ∧ (s.world.clients 0).inbox = [] ∧
    s.world.target oneByOne 0 root "d" = some targetD ∧ s.world.HasDir oneByOne targetD.inode ∧ ¬s.world.Reports oneByOne 0 5 root "d" targetD := by
  obtain ⟨s, ran, seen⟩ := Option.map_eq_some_iff.mp run_fillD
  obtain ⟨settled, isTarget, has, first, second, -⟩ : _ ∧ _ ∧ _ ∧ _ ∧ _ ∧ _ := by simpa only [viewD, Prod.mk.injEq] using seen
  have reach : Reach FsConf.Start (fun _ _ => True) (fsSystem oneByOne).step s := .of_run start_idle ran
  refine ⟨s, reach, of_decide_eq_true settled, isTarget, hasDir_of_check has, fun reports => ?_⟩
  have vacant := order_of_reports (of_decide_eq_true settled) isTarget (hasDir_of_check has) owner_targetD reports rfl rfl (vacant_iff.mpr second) 0
    Nat.zero_lt_one
  rw [vacant_iff, show targetD.inode = Knowing.dirD from rfl, first] at vacant
  cases vacant

end Cluster
end Faux
