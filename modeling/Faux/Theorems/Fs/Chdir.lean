import Faux.Fs.Chdir
import Faux.Theorems.Fs.Resolve

/-! When `chdir` does what it reports. The notifications that wait are taken one by one, in any order; then the path is looked up
    as the cache and the servers have it. A lookup that fails leaves the process outside of Hare. -/

namespace Faux
open Lib System

/-! ### Notifications -/

namespace DirCache
variable {cache : DirCache} {a b : Inode} {k : PathPair}

def leading (cache : DirCache) (child : Inode) : List PathPair := (cache.entries.filter fun e => e.2.only = child).map (·.1)

theorem first_mem : ∀ {ks : List PathPair} {k : PathPair}, first ks = some k → k ∈ ks
  | k :: ks, k', found => by
    unfold first at found
    split at found
    · cases found
      exact List.mem_cons_self ..
    · next next isNext =>
      cases found
      split_ifs
      · exact List.mem_cons_self ..
      · exact List.mem_cons_of_mem _ (first_mem isNext)

theorem filter_kerase {p : Sigma (fun _ : PathPair => InodeType) → Bool} : ∀ {l : List (Sigma fun _ : PathPair => InodeType)},
    (∀ e ∈ l, e.1 = k → p e = false) → (l.kerase k).filter p = l.filter p
  | [], _ => rfl
  | e :: l, no => by
    by_cases same : k = e.1
    · grind [List.kerase_cons_eq, List.filter_cons_of_neg]
    · rw [List.kerase_cons_ne same, List.filter_cons, List.filter_cons, filter_kerase fun e' mem => no e' (List.mem_cons_of_mem _ mem)]

theorem leading_removeDest (ne : a ≠ b) : (cache.removeDest a).leading b = cache.leading b := by
  unfold removeDest
  split
  · rfl
  · next k isFirst =>
    obtain ⟨e, mem, rfl⟩ := List.mem_map.mp (first_mem isFirst)
    obtain ⟨mem, isA⟩ := List.mem_filter.mp mem
    refine congrArg (List.map _) (filter_kerase fun e' mem' same => ?_)
    have unique : e' = e := List.NodupKeys.eq_of_fst_eq cache.nodupKeys mem' mem same
    rw [unique]
    exact decide_eq_false fun isB => ne ((of_decide_eq_true isA).symm.trans isB)

theorem removeDest_eq : cache.removeDest a = match first (cache.leading a) with
    | none => cache
    | some k => cache.erase k := rfl

theorem removeDest_comm : (cache.removeDest a).removeDest b = (cache.removeDest b).removeDest a := by
  by_cases same : a = b
  · rw [same]
  · rw [removeDest_eq, leading_removeDest same, @removeDest_eq (cache.removeDest b), leading_removeDest (Ne.symm same), @removeDest_eq cache a,
      @removeDest_eq cache b]
    cases first (cache.leading a) with
    | none => rfl
    | some k =>
      cases first (cache.leading b) with
      | none => rfl
      | some k' => exact AList.erase_erase k k' cache

end DirCache

namespace Client

theorem notified_perm {cache : DirCache} {l m : List (Nat × Inode)} (perm : l.Perm m) : notified cache l = notified cache m := by
  induction perm generalizing cache with
  | nil => rfl
  | cons n _ ih => exact ih
  | swap n n' l => exact congrArg (fun cache => notified cache l) DirCache.removeDest_comm
  | trans _ _ ih ih' => exact ih.trans ih'

theorem poll_check {k k' : Client} {i : Nat} (polled : k.poll i = some k') : k'.check.cache = k.check.cache := by
  unfold poll at polled
  split at polled
  · cases polled
  · next n found =>
    cases polled
    obtain ⟨isFrom, before, after, isInbox, none⟩ := List.find?_eq_some_iff_append.mp found
    have erased : (k.inbox.eraseP fun n => n.1 = i) = before ++ after := by grind
    have perm : (n :: k.inbox.eraseP fun n => n.1 = i).Perm k.inbox := by
      rw [erased, isInbox]
      exact List.perm_middle.symm
    exact notified_perm perm

end Client

/-! ### Lookups that fail -/

namespace Rmdir
open Cluster

variable {cfg cfg' : Config} {c : Nat} {w w' : Cluster} {cache : DirCache} {p : InodeType} {n : Name}

structure Settling (w : Cluster) (c : Nat) (cache : DirCache) (w' : Cluster) : Prop where
  servers : ∀ i, ∃ apps, w'.servers i = { w.servers i with apps }
  cache : (w'.clients c).check.cache = cache

theorem stable_settling : (fsSystem cfg).Stable (Settling w c cache) := by
  intro w₁ w₂ i settling stepped
  obtain ⟨k, polled, rfl⟩ : ∃ k, (w₁.clients i.1).poll i.2 = some k ∧ w₁.setClient i.1 k = w₂ := Option.map_eq_some_iff.mp stepped
  refine ⟨settling.servers, ?_⟩
  by_cases isC : c = i.1
  · subst isC
    simp only [setClient, Function.update_self]
    rw [Client.poll_check polled, settling.cache]
  · simp only [setClient, Function.update_of_ne isC]
    exact settling.cache

theorem alone_settle (settling : Settling w c cache w') : Alone cfg c (fun _ w₁ => Looked w c cache w₁) (perform .check) w' :=
  Ends.perform stable_settling settling fun w₁ _ settling => ⟨_, _, rfl, trivial, stable_looked, settling.servers,
    by simpa [setClient] using settling.cache, by simp [setClient, Client.check]⟩

theorem returns_resolve {j : Nat} {id : FileId} (missing : n ≠ "" → (w.servers j).entry id n = none) (looked : Looked w c cache w') :
    (fsSystem cfg).Returns c (fun r _ => r.1 ≠ .ok) (rpc j (.resolve id n)) w' := by
  refine Returns.perform stable_looked looked fun w₁ e w₂ r looked done => ⟨fun _ _ _ holds _ => holds, ?_⟩
  obtain ⟨apps, isServer⟩ := looked.servers j
  have missing' : n ≠ "" → (w₁.servers j).entry id n = none := by
    rw [isServer]
    exact missing
  have done : w₁.request cfg c e j (.resolve id n) = .ok (w₂, r) := done
  simp only [request, Server.handle] at done
  by_cases name : n = ""
  · -- the assertion of the server
    simp only [Server.resolve, require, name, ne_eq, not_true_eq_false, decide_false, Bool.false_eq_true, if_false, error_bind] at done
    cases done
  · obtain ⟨st, resolved, failed⟩ := Server.resolve_absent c name (missing' name)
    simp only [resolved, ok_bind] at done
    cases done
    exact failed

theorem returns_resolveLive {cached : Bool} (notDot : n ≠ ".") (missing : w.stored cfg' p n = none) (looked : Looked w c cache w') :
    (fsSystem cfg).Returns c (fun r _ => r.retval ≠ .ok) (resolveLive cfg' p n cached) w' := by
  unfold resolveLive
  cases owner : fosPathOwnern cfg' p n with
  | error f => trivial
  | ok j =>
    have notRoot : ¬(p.id = 0 ∧ n = "") := by grind [stored]
    have entry : n ≠ "" → (w.servers j).entry p.id n = none := fun name => by
      rw [stored, if_neg name, owner] at missing
      exact missing
    simp only [Prog.lift, Prog.ret_bind, fosResolve, if_neg notRoot, if_neg notDot]
    refine Returns.bind ((returns_resolve entry looked).mono ?_)
    rintro ⟨st, child⟩ w₁ failed
    cases child with
    | none => exact fun _ _ => failed
    | some child =>
      simp only [if_neg failed]
      exact fun _ _ => failed

theorem returns_resolveCached {ended cached : Bool} (missing : w.piece cfg' cache p n ended = none) (looked : Looked w c cache w') :
    (fsSystem cfg).Returns c (fun r _ => r.retval ≠ .ok) (resolveCached cfg' p n ended cached) w' := by
  unfold piece at missing
  split_ifs at missing with here
  obtain ⟨notDot, notLast⟩ := not_or.mp here
  rw [resolveCached, if_neg notDot, if_neg notLast]
  have found : Alone cfg c _ (perform (.find p.id n)) w' := alone_find looked
  refine Returns.bind (found.returns.mono ?_)
  rintro r w₁ ⟨rfl, looked₁⟩
  cases isCached : cache.lookup (p.id, n) with
  | some child =>
    rw [isCached] at missing
    cases missing
  | none =>
    rw [isCached] at missing
    exact returns_resolveLive notDot (Option.map_eq_none_iff.mp missing) looked₁

theorem returns_pieces : ∀ {pieces : List (Name × Bool)} {p : InodeType} {cached : Bool} {cache : DirCache} {w' : Cluster},
    w.walk cfg' cache p pieces = none → Looked w c cache w' →
      (fsSystem cfg).Returns c (fun r _ => r.retval ≠ .ok) (fosResolvePieces cfg' p cached pieces) w' := by
  intro pieces
  induction pieces with
  | nil =>
    intro p cached cache w' missing _
    cases missing
  | cons piece rest ih =>
    intro p cached cache w' missing looked
    obtain ⟨n, ended⟩ := piece
    rw [walk] at missing
    split at missing
    · next child cache₁ isChild =>
      have resolved : Alone cfg c _ (resolveCached cfg' p n ended cached) w' := alone_resolveCached isChild looked
      refine Returns.bind (resolved.returns.mono ?_)
      rintro r w₁ ⟨isOk, rfl, looked₁⟩
      rw [if_pos isOk]
      exact ih missing looked₁
    · next isMissing =>
      refine Returns.bind ((returns_resolveCached isMissing looked).mono fun r w₁ failed => ?_)
      rw [if_neg failed]
      exact fun _ _ => failed

end Rmdir

/-! ### The call -/

namespace Cluster
open Rmdir

variable {cfg : Config} {c : Nat} {w : Cluster} {cwd : Cwd} {path : Name} {real : Status}

theorem leadsTo_client (parent : InodeType) : w.leadsTo (cfg.client c) c parent path = w.leadsTo cfg c parent path := by
  unfold leadsTo
  rw [walk_client]

theorem alone_chdir {x : InodeType} (inside : cwd.inside = true) (notExcluded : cwd.fosPathExcluded path = false)
    (leads : w.leadsTo cfg c cwd.inode path = some x) :
    Alone cfg c (fun r _ => r = ({ inode := x, inside := true }, .ok)) (cwd.chdir (cfg.client c) path real) w := by
  rw [← leadsTo_client] at leads
  obtain ⟨⟨y, cache⟩, walked, rfl⟩ := Option.map_eq_some_iff.mp leads
  have here : ¬(cwd.fosPathExcluded path = true ∨ cwd.inside = false) := by simp [inside, notExcluded]
  have settling : Settling w c (w.clients c).check.cache w := ⟨fun i => ⟨(w.servers i).apps, rfl⟩, rfl⟩
  rw [Cwd.chdir, if_neg here, fosLookup]
  refine Ends.bind (Ends.bind ((alone_settle settling).mono fun _ w₁ looked => ?_))
  refine (alone_pieces walked looked).mono ?_
  rintro r w₂ ⟨isOk, rfl, -⟩
  rw [if_neg (not_not.mpr isOk)]
  exact fun _ _ => rfl

theorem returns_chdir (inside : cwd.inside = true) (notExcluded : cwd.fosPathExcluded path = false)
    (nowhere : w.leadsTo cfg c cwd.inode path = none) :
    (fsSystem cfg).Returns c (fun r _ => r = ({ cwd with inside := false }, .notFound)) (cwd.chdir (cfg.client c) path real) w := by
  rw [← leadsTo_client] at nowhere
  have here : ¬(cwd.fosPathExcluded path = true ∨ cwd.inside = false) := by simp [inside, notExcluded]
  have settling : Settling w c (w.clients c).check.cache w := ⟨fun i => ⟨(w.servers i).apps, rfl⟩, rfl⟩
  rw [Cwd.chdir, if_neg here, fosLookup]
  have settled : Alone cfg c _ (perform .check) w := alone_settle settling
  refine Returns.bind (Returns.bind (settled.returns.mono fun _ w₁ looked => ?_))
  refine (returns_pieces (Option.map_eq_none_iff.mp nowhere) looked).mono fun r w₂ failed => ?_
  rw [if_pos failed]
  exact fun _ _ => rfl

theorem start_outside (inside : cwd.inside = true) : Cwd.start { cwd with inside := false } "" ≠ cwd.start "" := by
  simp [Cwd.start, Cwd.fosPathExcluded, inside]

/-- `chdir` is atomic exactly when the path leads to a directory: a path that leads nowhere puts the process outside of Hare, and a path
    that leads to something else becomes the working directory. -/
theorem chdir_atomic_iff (cfg : Config) (c : Nat) (w : Cluster) (cwd : Cwd) (path : Name) (real : Status) (inside : cwd.inside = true)
    (notExcluded : cwd.fosPathExcluded path = false) :
    (fsSystem cfg).Ends c (fun _ => True) (fun r _ => w.ChdirAtomic cfg c cwd path r) (cwd.chdir (cfg.client c) path real) w ↔
      ∃ x, w.leadsTo cfg c cwd.inode path = some x ∧ x.type.isDir = true := by
  constructor
  · intro ends
    cases leads : w.leadsTo cfg c cwd.inode path with
    | none =>
      obtain ⟨r, -, atomic, rfl⟩ := ends.meet_returns (returns_chdir inside notExcluded leads)
      rcases atomic with ⟨isOk, -⟩ | ⟨-, same⟩
      · exact absurd isOk (by decide : ¬Status.notFound = Status.ok)
      · exact absurd (same "") (start_outside inside)
    | some x =>
      obtain ⟨r, -, atomic, rfl⟩ := ends.meet (alone_chdir inside notExcluded leads)
      rcases atomic with ⟨-, y, leads', isDir, -⟩ | ⟨negative, -⟩
      · exact ⟨y, leads.symm.trans leads', isDir⟩
      · exact absurd negative (by decide : ¬Status.ok < 0)
  · rintro ⟨x, leads, isDir⟩
    refine (alone_chdir inside notExcluded leads).mono ?_
    rintro r _ rfl
    exact .inl ⟨rfl, x, leads, isDir, rfl⟩

def atRoot : Cwd := { inode := root, inside := true }

theorem chdir_atomic_tree : (fsSystem Server.oneServer).Ends 0 (fun _ => True) (fun r _ => tree.ChdirAtomic Server.oneServer 0 atRoot "d" r)
    (atRoot.chdir (Server.oneServer.client 0) "d" .ok) tree :=
  (chdir_atomic_iff Server.oneServer 0 tree atRoot "d" .ok rfl rfl).mpr ⟨treeD, rfl, rfl⟩

theorem throughDirs_missing : tree.ThroughDirs Server.oneServer root "x" := by
  intro names y is ne reached
  have isNames : pathNames "x" = ["x"] := by decide
  rw [isNames] at is ne
  rcases List.prefix_cons_iff.mp is with rfl | ⟨rest, rfl, isNil⟩
  · cases reached
    rfl
  · exact absurd (congrArg (fun l => "x" :: l) (List.prefix_nil.mp isNil)) ne

/-- A path that leads nowhere: `chdir` reports it, and the process has left Hare. -/
theorem chdir_leaves : (fsSystem Server.oneServer).Ends 0 (fun _ => True)
    (fun r _ => r = ({ inode := root, inside := false }, .notFound) ∧ ¬tree.ChdirAtomic Server.oneServer 0 atRoot "x" r)
    (atRoot.chdir (Server.oneServer.client 0) "x" .ok) tree := by
  have agrees : Resolve.Agrees Server.oneServer tree (fun p => p = root ∨ p = treeD) 0 tree :=
    ⟨fun i => ⟨(tree.servers i).apps, rfl⟩, cacheRight_tree⟩
  have proper : ProperPath "x" := by
    unfold ProperPath
    decide
  have looked : Rmdir.Alone Server.oneServer 0 _ (fosLookup (Server.oneServer.client 0) root "x" false) tree :=
    Resolve.alone_fosLookup directories_tree (.inl rfl) proper throughDirs_missing agrees
  refine Ends.bind (looked.mono ?_)
  rintro r w₁ ⟨is, -⟩
  have missing : tree.follow Server.oneServer (pathStart root "x") (pathNames "x") = (.notFound, root) := by
    rw [show pathNames "x" = ["x"] by decide, show pathStart root "x" = root from rfl]
    exact Resolve.follow_none (by decide) (mapping_tree_root.trans (if_neg (by decide)))
  rw [missing] at is
  obtain ⟨isMissing, -⟩ := Prod.mk.inj is
  rw [isMissing, if_pos (by decide)]
  refine fun _ _ => ⟨rfl, ?_⟩
  rintro (⟨isOk, -⟩ | ⟨-, same⟩)
  · exact absurd isOk (by decide : ¬Status.notFound = Status.ok)
  · exact absurd (same "") (start_outside rfl)

end Cluster
end Faux
