import Faux.Fs.Clearing
import Faux.Theorems.Fs.Carried
import Faux.Theorems.Fs.Locks
import Mathlib.Data.Fintype.EquivFin

/-! Clearing a path. The entries that are sure to be removed are those on the way through the cache, up to the first component that has
    to be asked for. The lookup that follows can come to more. -/

namespace Faux
open Lib DirCache

namespace Clearing
variable {cfg : Config} {cache cache' C D D' : DirCache} {p q child : InodeType} {n : Name} {ended cached : Bool} {key : PathPair}
  {pieces : List (Name × Bool)} {names : List Name} {found : Found} {piece : Name × Bool} {path : Name}
  {rest : List (Name × Bool)} {a : Action} {k : PathPair} {i : FileId}

/-- Runs of a client in the cluster are among those considered here. -/
theorem does_of_exec {w w' : Cluster} {c : Nat} {env : Env} {r : a.Reply} (done : w.exec cfg c env a = .ok (w', r)) :
    Does (w.clients c).cache a (w'.clients c).cache r := by
  cases a with
  | rpc server q =>
    obtain ⟨t, notes, -, -, clients⟩ := Cluster.request_eq_ok done
    rw [clients c, if_pos rfl]
    exact ⟨_, rfl⟩
  | check =>
    cases done
    simp only [Cluster.setClient, Function.update_self]
    exact ⟨_, rfl⟩
  | find parent path =>
    cases done
    exact ⟨rfl, rfl⟩
  | getFile h | copyIn server offset data | copyOut server offset count | pick n =>
    cases done
    rfl
  | _ =>
    cases done
    simp only [Cluster.setClient, Function.update_self]
    rfl

/-! ### What is cleared and what is looked up -/

def clearNames (path : Name) : List Name :=
  let chars := if path.toList.head? = some '/' then path.toList.tail else path.toList
  components (if chars.getLast? = some '/' then chars.dropLast else chars)

/-- Where a component leads when no server has to be asked. The root answers for itself. -/
def onward (cache : DirCache) (parent : InodeType) (piece : Name × Bool) : Option InodeType :=
  if Skipped piece then some parent
  else (cache.lookup (parent.id, piece.1)).or (if parent.id = 0 ∧ piece.1 = "" then some Cluster.root else none)

/-- The key is on the way from a directory through the cache on which no entry is used twice. The way ends
    where a server has to be asked; an assertion there ends the call. -/
def OnWay (cfg : Config) : DirCache → InodeType → List Name → PathPair → Prop
  | _, _, [], _ => False
  | _, parent, [path], key => key = (parent.id, path)
  | cache, parent, path :: next :: rest, key =>
    key = (parent.id, path) ∨
      match onward cache parent (path, false) with
      | some child => OnWay cfg (cache.erase (parent.id, path)) child (next :: rest) key
      | none => ∀ server, fosPathOwnern cfg parent path ≠ .ok server

def Cleared (cfg : Config) (cache : DirCache) (parent : InodeType) (path : Name) (key : PathPair) : Prop :=
  path ≠ "/" ∧ OnWay cfg cache (startDir parent path) (clearNames path) key

def sought (pieces : List (Name × Bool)) : List Name := (pieces.filter fun piece => ¬Skipped piece).map Prod.fst

/-- A lookup from a directory can come to the key: the first component is looked up there, and once a server
    has answered, the next ones may be looked up anywhere. -/
def Reaches (parent : FileId) : List (Name × Bool) → PathPair → Prop
  | [], _ => False
  | piece :: rest, key =>
    if Skipped piece then Reaches parent rest key
    else key = (parent, piece.1) ∨ if parent = 0 ∧ piece.1 = "" then Reaches 0 rest key else key.2 ∈ sought rest

/-- Clearing purges a path: afterwards no step of the path through the cache is left, and the lookup that
    follows never looks for an entry that is. -/
def Purges (cfg : Config) (cache : DirCache) (parent : InodeType) (path : Name) (clearer : Clearer) : Prop :=
  ∀ cache', (clearer.clear cfg parent path).Leaves Does cache cache' () →
    (∀ key ∈ cache.steps (startDir parent path) (lookupPieces path), key ∉ cache') ∧
    ∀ key : PathPair, (fosLookup cfg parent (clearer.again path) false).Asks Does cache' (.find key.1 key.2) → key ∉ cache'

/-- Every entry that is a step of the path, or that the lookup can come to, is on the way that is cleared. -/
def Covered (cfg : Config) (cache : DirCache) (parent : InodeType) (path : Name) (clearer : Clearer) : Prop :=
  ∀ key ∈ cache, key ∈ cache.steps (startDir parent path) (lookupPieces path) ∨
      Reaches (startDir parent (clearer.again path)).id (lookupPieces (clearer.again path)) key →
    Cleared cfg cache (clearer.target parent path).1 (clearer.target parent path).2 key

/-! ### One component -/

theorem resolveCached_skipped (skipped : Skipped (n, ended)) :
    resolveCached cfg p n ended cached = .ret { retval := .ok, inode := p, cached } := by
  rw [resolveCached]
  split_ifs with dot ends
  · rfl
  · rfl
  · exact absurd skipped (not_or.mpr ⟨dot, ends⟩)

theorem leaves_resolveCached (asked : ¬Skipped (n, ended)) :
    (resolveCached cfg p n ended cached).Leaves Does C D found ↔
      (∃ child, C.lookup (p.id, n) = some child ∧ D = C ∧ found = { retval := .ok, inode := child, cached := true }) ∨
        C.lookup (p.id, n) = none ∧ (resolveLive cfg p n cached).Leaves Does C D found := by
  obtain ⟨dot, ends⟩ := not_or.mp asked
  rw [resolveCached, if_neg dot, if_neg ends]
  constructor
  · rintro ⟨_, found, ⟨rfl, is⟩, leaves⟩
    cases found with
    | some child => exact .inl ⟨child, is.symm, leaves⟩
    | none => exact .inr ⟨is.symm, leaves⟩
  · rintro (⟨child, entry, leaves⟩ | ⟨miss, leaves⟩)
    · exact ⟨C, some child, ⟨rfl, entry.symm⟩, leaves⟩
    · exact ⟨C, none, ⟨rfl, miss.symm⟩, leaves⟩

theorem leaves_root (isRoot : p.id = 0 ∧ n = "") :
    (resolveLive cfg p n cached).Leaves Does C D found ↔
      D = C.add p.id n Cluster.root ∧ found = { retval := .ok, inode := Cluster.root, cached } := by
  have owner : fosPathOwnern cfg p n = .ok 0 := by rw [fosPathOwnern, if_pos ⟨isRoot.1, .inl isRoot.2⟩]
  simp only [resolveLive, owner, Prog.lift, Prog.ret_bind, fosResolve]
  rw [if_pos isRoot]
  constructor
  · rintro ⟨_, _, rfl, leaves⟩
    exact leaves
  · rintro ⟨rfl, rfl⟩
    exact ⟨_, (), rfl, rfl, rfl⟩

theorem leaves_live (dot : n ≠ ".") (notRoot : ¬(p.id = 0 ∧ n = "")) :
    (resolveLive cfg p n cached).Leaves Does C D found ↔
      (∃ server, fosPathOwnern cfg p n = .ok server) ∧ ∃ notes,
        (∃ child, D = (Client.notified C notes).add p.id n child ∧ found = { retval := .ok, inode := child, cached }) ∨
        ∃ retval, D = Client.notified C notes ∧ found = { retval, inode := p, cached } := by
  cases owner : fosPathOwnern cfg p n with
  | error fault =>
    simp only [resolveLive, owner, Prog.lift, Prog.fail_bind]
    constructor
    · exact False.elim
    · rintro ⟨⟨_, is⟩, -⟩
      cases is
  | ok server =>
    simp only [resolveLive, owner, Prog.lift, Prog.ret_bind, fosResolve]
    rw [if_neg notRoot, if_neg dot]
    constructor
    · rintro ⟨_, ⟨retval, answer⟩, ⟨notes, rfl⟩, leaves⟩
      refine ⟨⟨server, rfl⟩, notes, ?_⟩
      cases answer with
      | none => exact .inr ⟨retval, leaves⟩
      | some child =>
        by_cases ok : retval = .ok
        · rw [ok] at leaves
          obtain ⟨_, _, rfl, leaves⟩ := leaves
          exact .inl ⟨child, leaves⟩
        · simp only [Prog.bind, if_neg ok] at leaves
          exact .inr ⟨retval, leaves⟩
    · rintro ⟨-, notes, ⟨child, rfl, rfl⟩ | ⟨retval, rfl, rfl⟩⟩
      · exact ⟨_, (.ok, some child), ⟨notes, rfl⟩, _, (), rfl, rfl, rfl⟩
      · exact ⟨_, (retval, none), ⟨notes, rfl⟩, rfl, rfl⟩

def Seeks (key : PathPair) (a : Action) : Prop := ∀ i m, a = .find i m → (i, m) = key

theorem seeks_resolveLive : (resolveLive cfg p n cached).All (Seeks key) := by
  refine Prog.All.bind (Prog.all_lift _) fun server => Prog.All.bind ?_ fun r => ?_
  · unfold fosResolve
    split_ifs
    · trivial
    · trivial
    · exact all_perform fun _ _ same => nomatch same
  · rcases r with ⟨retval, _ | child⟩
    · trivial
    · simp only
      split_ifs
      · exact ⟨fun _ _ same => (nomatch same), fun _ => trivial⟩
      · trivial

theorem seeks_resolveCached : (resolveCached cfg p n ended cached).All (Seeks (p.id, n)) := by
  unfold resolveCached
  split_ifs
  · trivial
  · trivial
  · refine Prog.All.bind (all_perform fun _ _ same => by cases same; rfl) fun found => ?_
    cases found with
    | some child => trivial
    | none => exact seeks_resolveLive

theorem of_asks_resolveCached (asks : (resolveCached cfg p n ended cached).Asks Does C (.find key.1 key.2)) :
    ¬Skipped (n, ended) ∧ key = (p.id, n) := by
  refine ⟨fun skipped => ?_, seeks_resolveCached.of_asks asks _ _ rfl⟩
  rw [resolveCached_skipped skipped] at asks
  exact asks

theorem asks_resolveCached (asked : ¬Skipped (n, ended)) : (resolveCached cfg p n ended cached).Asks Does C (.find p.id n) := by
  obtain ⟨dot, ends⟩ := not_or.mp asked
  rw [resolveCached, if_neg dot, if_neg ends]
  exact .inl rfl

inductive Resolved (cfg : Config) (p : InodeType) (piece : Name × Bool) (C : DirCache) : DirCache → Found → Prop
  | known {D : DirCache} {found : Found} (ok : found.retval = .ok) (is : onward C p piece = some found.inode)
      (same : D = C ∨ (p.id = 0 ∧ piece.1 = "") ∧ D = C.insert (p.id, piece.1) Cluster.root) : Resolved cfg p piece C D found
  | answer {D : DirCache} {found : Found} (asked : onward C p piece = none) (owner : ∃ server, fosPathOwnern cfg p piece.1 = .ok server)
      (keys : ∀ key ∈ D, key ∈ C ∨ key = (p.id, piece.1)) : Resolved cfg p piece C D found

theorem onward_of_hit (asked : ¬Skipped (n, ended)) (entry : C.lookup (p.id, n) = some child) : onward C p (n, ended) = some child := by
  rw [onward, if_neg asked, entry, Option.some_or]

theorem onward_of_miss (asked : ¬Skipped (n, ended)) (miss : C.lookup (p.id, n) = none) :
    onward C p (n, ended) = if p.id = 0 ∧ n = "" then some Cluster.root else none := by
  rw [onward, if_neg asked, miss, Option.none_or]

theorem add_of_miss (miss : C.lookup k = none) : C.add k.1 k.2 child = C.insert k child :=
  if_neg (AList.lookup_eq_none.mp miss)

theorem mem_of_notified {notes : List (Nat × Inode)} (mem : key ∈ Client.notified C notes) : key ∈ C := by
  obtain ⟨x, found⟩ := mem_iff_lookup.mp mem
  exact mem_of_lookup (Knowing.lookup_notified found)

theorem mem_of_add (mem : key ∈ C.add k.1 k.2 child) : key ∈ C ∨ key = k := by
  unfold DirCache.add at mem
  split_ifs at mem
  · exact .inl mem
  · exact ((AList.mem_insert _).mp mem).symm

theorem Resolved.of_leaves (leaves : (resolveCached cfg p n ended cached).Leaves Does C D found) :
    Resolved cfg p (n, ended) C D found := by
  by_cases skipped : Skipped (n, ended)
  · rw [resolveCached_skipped skipped] at leaves
    obtain ⟨rfl, rfl⟩ := leaves
    exact .known rfl (if_pos skipped) (.inl rfl)
  · rcases (leaves_resolveCached skipped).mp leaves with ⟨child, entry, rfl, rfl⟩ | ⟨miss, live⟩
    · exact .known rfl (onward_of_hit skipped entry) (.inl rfl)
    · have is := onward_of_miss skipped miss
      by_cases isRoot : p.id = 0 ∧ n = ""
      · obtain ⟨rfl, rfl⟩ := (leaves_root isRoot).mp live
        exact .known rfl (is.trans (if_pos isRoot)) (.inr ⟨isRoot, @add_of_miss C Cluster.root (p.id, n) miss⟩)
      · rw [if_neg isRoot] at is
        obtain ⟨owner, notes, ⟨child, rfl, rfl⟩ | ⟨retval, rfl, rfl⟩⟩ := (leaves_live (not_or.mp skipped).1 isRoot).mp live
        · exact .answer is owner fun key mem => (@mem_of_add _ _ _ (p.id, n) mem).imp_left mem_of_notified
        · exact .answer is owner fun key mem => .inl (mem_of_notified mem)

theorem leaves_of_onward (is : onward C p (n, ended) = some child) :
    ∃ D found, (resolveCached cfg p n ended cached).Leaves Does C D found ∧ found.retval = .ok ∧ found.inode = child := by
  by_cases skipped : Skipped (n, ended)
  · rw [onward, if_pos skipped] at is
    rw [resolveCached_skipped skipped]
    exact ⟨_, _, ⟨rfl, rfl⟩, rfl, Option.some.inj is⟩
  · cases entry : C.lookup (p.id, n) with
    | some x =>
      have same : x = child := Option.some.inj ((onward_of_hit skipped entry).symm.trans is)
      exact ⟨_, _, (leaves_resolveCached skipped).mpr (.inl ⟨x, entry, rfl, rfl⟩), rfl, same⟩
    | none =>
      rw [onward_of_miss skipped entry] at is
      split_ifs at is with isRoot
      exact ⟨_, _, (leaves_resolveCached skipped).mpr (.inr ⟨entry, (leaves_root isRoot).mpr ⟨rfl, rfl⟩⟩), rfl, Option.some.inj is⟩

theorem leaves_of_asked (is : onward C p (n, ended) = none) (owner : ∃ server, fosPathOwnern cfg p n = .ok server) :
    (∀ child, (resolveCached cfg p n ended cached).Leaves Does C (C.insert (p.id, n) child) { retval := .ok, inode := child, cached }) ∧
      (resolveCached cfg p n ended cached).Leaves Does C C { retval := .notFound, inode := p, cached } := by
  have skipped : ¬Skipped (n, ended) := fun skipped => by
    rw [onward, if_pos skipped] at is
    cases is
  cases entry : C.lookup (p.id, n) with
  | some x => cases (onward_of_hit skipped entry).symm.trans is
  | none =>
    rw [onward_of_miss skipped entry] at is
    split_ifs at is with isRoot
    have live := @leaves_live cfg C
    refine ⟨fun child => ?_, ?_⟩
    · refine (leaves_resolveCached skipped).mpr (.inr ⟨entry, (live (not_or.mp skipped).1 isRoot).mpr ⟨owner, [], .inl ⟨child, ?_, rfl⟩⟩⟩)
      exact (@add_of_miss C child (p.id, n) entry).symm
    · exact (leaves_resolveCached skipped).mpr (.inr ⟨entry, (live (not_or.mp skipped).1 isRoot).mpr ⟨owner, [], .inr ⟨_, rfl, rfl⟩⟩⟩)

/-! ### The clearing -/

theorem mem_erase_iff : key ∈ C.erase k ↔ key ∈ C ∧ key ≠ k := by
  rw [AList.mem_erase, and_comm]

theorem Resolved.of_onward (resolved : Resolved cfg p piece C D found)
    (is : onward C p piece = some child) :
    found.retval = .ok ∧ found.inode = child ∧ (D = C ∨ (p.id = 0 ∧ piece.1 = "") ∧ D = C.insert (p.id, piece.1) Cluster.root) := by
  cases resolved with
  | known ok is' same => exact ⟨ok, Option.some.inj (is'.symm.trans is), same⟩
  | answer asked => cases asked.symm.trans is

theorem Resolved.erase_eq (resolved : Resolved cfg p piece C D found)
    (is : onward C p piece = some child) : D.erase (p.id, piece.1) = C.erase (p.id, piece.1) := by
  rcases (resolved.of_onward is).2.2 with rfl | ⟨-, rfl⟩
  · rfl
  · exact AList.ext (List.kerase_cons_eq rfl)

theorem leaves_remove {q : FsProg Unit} :
    (perform (.remove i n) >>= fun _ => q).Leaves Does C D () ↔ q.Leaves Does (C.erase (i, n)) D () := by
  constructor
  · rintro ⟨_, _, rfl, leaves⟩
    exact leaves
  · exact fun leaves => ⟨_, (), rfl, leaves⟩

theorem leaves_ret : (Prog.ret () : FsProg Unit).Leaves Does C D () ↔ D = C := and_iff_left rfl

theorem leaves_clearPieces_one : (clearPieces cfg p [n]).Leaves Does C D () ↔ D = C.erase (p.id, n) :=
  leaves_remove.trans leaves_ret

theorem leaves_clearPieces {next : Name} {rest : List Name} :
    (clearPieces cfg p (n :: next :: rest)).Leaves Does C D () ↔
      ∃ E found, (resolveCached cfg p n false false).Leaves Does C E found ∧
        if found.retval = .ok then (clearPieces cfg found.inode (next :: rest)).Leaves Does (E.erase (p.id, n)) D ()
        else D = E.erase (p.id, n) := by
  rw [clearPieces, Prog.leaves_bind]
  · refine exists_congr fun E => exists_congr fun found => and_congr_right fun _ => leaves_remove.trans ?_
    split_ifs
    · rfl
    · exact leaves_ret
  · exact List.cons_ne_nil next rest

theorem cleared_of_leaves : ∀ {names : List Name} {p : InodeType} {C : DirCache},
    (clearPieces cfg p names).Leaves Does C D () → ∀ key ∈ D, key ∈ C ∧ ¬OnWay cfg C p names key
  | [], p, C, leaves => fun key mem => ⟨leaves.1 ▸ mem, id⟩
  | [n], p, C, leaves => fun key mem => by
    rw [leaves_clearPieces_one.mp leaves] at mem
    exact mem_erase_iff.mp mem
  | n :: next :: rest, p, C, leaves => fun key mem => by
    obtain ⟨E, found, first, later⟩ := leaves_clearPieces.mp leaves
    have resolved := Resolved.of_leaves first
    rw [OnWay]
    cases is : onward C p (n, false) with
    | some child =>
      obtain ⟨ok, rfl, -⟩ := resolved.of_onward is
      rw [if_pos ok, resolved.erase_eq is] at later
      obtain ⟨mem, off⟩ := cleared_of_leaves later key mem
      obtain ⟨mem, ne⟩ := mem_erase_iff.mp mem
      exact ⟨mem, not_or.mpr ⟨ne, off⟩⟩
    | none =>
      cases resolved with
      | known _ is' => cases is'.symm.trans is
      | answer _ owner keys =>
        have erased : key ∈ E.erase (p.id, n) := by
          split_ifs at later
          · exact (cleared_of_leaves later key mem).1
          · exact later ▸ mem
        obtain ⟨mem, ne⟩ := mem_erase_iff.mp erased
        obtain ⟨server, ok⟩ := owner
        exact ⟨(keys key mem).resolve_right ne, not_or.mpr ⟨ne, fun fails => fails server ok⟩⟩

theorem leaves_of_off : ∀ {names : List Name} {p : InodeType} {C : DirCache}, key ∈ C → ¬OnWay cfg C p names key →
    ∃ D, (clearPieces cfg p names).Leaves Does C D () ∧ key ∈ D
  | [], p, C, mem, _ => ⟨C, ⟨rfl, rfl⟩, mem⟩
  | [n], p, C, mem, off => ⟨_, leaves_clearPieces_one.mpr rfl, mem_erase_iff.mpr ⟨mem, off⟩⟩
  | n :: next :: rest, p, C, mem, off => by
    rw [OnWay] at off
    obtain ⟨ne, off⟩ := not_or.mp off
    have kept : key ∈ C.erase (p.id, n) := mem_erase_iff.mpr ⟨mem, ne⟩
    cases is : onward C p (n, false) with
    | some child =>
      simp only [is] at off
      obtain ⟨E, found, first, ok, rfl⟩ := @leaves_of_onward cfg C p child n false false is
      obtain ⟨D, later, mem⟩ := leaves_of_off kept off
      refine ⟨D, leaves_clearPieces.mpr ⟨E, found, first, ?_⟩, mem⟩
      rw [if_pos ok, (Resolved.of_leaves first).erase_eq is]
      exact later
    | none =>
      simp only [is, not_forall, not_not] at off
      refine ⟨_, leaves_clearPieces.mpr ⟨C, _, (leaves_of_asked is off).2, ?_⟩, kept⟩
      exact if_neg (by decide : Status.notFound ≠ Status.ok) ▸ rfl

theorem clearCache_eq (ne : path ≠ "/") :
    fosClearCache cfg p path = clearPieces cfg (startDir p path) (clearNames path) := if_neg ne

theorem clearCache_slash : fosClearCache cfg p "/" = .ret () := if_pos rfl

theorem not_cleared (leaves : (fosClearCache cfg p path).Leaves Does C D ()) (mem : key ∈ D) :
    key ∈ C ∧ ¬Cleared cfg C p path key := by
  by_cases slash : path = "/"
  · rw [slash, clearCache_slash, leaves_ret] at leaves
    exact ⟨leaves ▸ mem, fun on => on.1 slash⟩
  · rw [clearCache_eq slash] at leaves
    exact (cleared_of_leaves leaves key mem).imp_right fun off on => off on.2

theorem leaves_of_not_cleared (mem : key ∈ C) (off : ¬Cleared cfg C p path key) :
    ∃ D, (fosClearCache cfg p path).Leaves Does C D () ∧ key ∈ D := by
  by_cases slash : path = "/"
  · rw [slash, clearCache_slash]
    exact ⟨C, leaves_ret.mpr rfl, mem⟩
  · rw [clearCache_eq slash]
    exact leaves_of_off mem fun on => off ⟨slash, on⟩

/-! ### The lookup -/

theorem sought_cons :
    sought (piece :: rest) = if Skipped piece then sought rest else piece.1 :: sought rest := by
  by_cases skipped : Skipped piece <;> simp [sought, skipped]

theorem asks_pieces :
    (fosResolvePieces cfg p cached ((n, ended) :: rest)).Asks Does C a ↔ (resolveCached cfg p n ended cached).Asks Does C a ∨
      ∃ D found, (resolveCached cfg p n ended cached).Leaves Does C D found ∧ found.retval = .ok ∧
        (fosResolvePieces cfg found.inode found.cached rest).Asks Does D a := by
  rw [fosResolvePieces, Prog.asks_bind]
  refine or_congr_right (exists_congr fun D => exists_congr fun found => and_congr_right fun _ => ?_)
  split_ifs with ok
  · exact (and_iff_right ok).symm
  · exact ⟨False.elim, fun asks => ok asks.1⟩

theorem asks_skipped (skipped : Skipped (n, ended)) :
    (fosResolvePieces cfg p cached ((n, ended) :: rest)).Asks Does C a ↔ (fosResolvePieces cfg p cached rest).Asks Does C a := by
  rw [fosResolvePieces, resolveCached_skipped skipped]
  rfl

theorem sought_of_asks : ∀ {pieces : List (Name × Bool)} {p : InodeType} {cached : Bool} {C : DirCache},
    (fosResolvePieces cfg p cached pieces).Asks Does C (.find key.1 key.2) → key.2 ∈ sought pieces
  | [], _, _, _, asks => asks.elim
  | (n, ended) :: rest, p, cached, C, asks => by
    rw [sought_cons]
    rcases asks_pieces.mp asks with here | ⟨D, found, -, -, later⟩
    · obtain ⟨asked, rfl⟩ := of_asks_resolveCached here
      rw [if_neg asked]
      exact List.mem_cons_self ..
    · have mem := sought_of_asks later
      split_ifs
      · exact mem
      · exact List.mem_cons_of_mem _ mem

theorem reaches_cons : Reaches i (piece :: rest) key ↔
    if Skipped piece then Reaches i rest key
    else key = (i, piece.1) ∨ if i = 0 ∧ piece.1 = "" then Reaches 0 rest key else key.2 ∈ sought rest := Iff.rfl

def RootNew (C D : DirCache) : Prop := ∀ child, D.lookup (0, "") = some child → (0, "") ∈ C ∨ child.id = 0 ∧ child.type.isDir = true

theorem RootNew.known (new : RootNew C D) (resolved : Resolved cfg p piece D D' found)
    (is : onward D p piece = some child) : RootNew C D' := by
  rcases (resolved.of_onward is).2.2 with rfl | ⟨⟨isRoot, isEmpty⟩, rfl⟩
  · exact new
  · intro child entry
    rw [isRoot, isEmpty, AList.lookup_insert] at entry
    exact .inr (Option.some.inj entry ▸ ⟨rfl, rfl⟩)

theorem RootNew.onward (new : RootNew C D) (absent : (0, "") ∉ C) (asked : ¬Skipped (n, ended)) (isRoot : p.id = 0 ∧ n = "") :
    ∃ child, onward D p (n, ended) = some child ∧ child.id = 0 ∧ child.type.isDir = true := by
  cases entry : D.lookup (p.id, n) with
  | some child =>
    refine ⟨child, onward_of_hit asked entry, ?_⟩
    rw [isRoot.1, isRoot.2] at entry
    exact (new child entry).resolve_left absent
  | none => exact ⟨_, (onward_of_miss asked entry).trans (if_pos isRoot), rfl, rfl⟩

/-- What is looked for is not in the cache `C` in which the lookup started; `D` is what the lookup has made of it
    while it was at the root. -/
theorem new_of_asks : ∀ {pieces : List (Name × Bool)} {p : InodeType} {cached : Bool} {D : DirCache},
    (∀ key ∈ C, ¬Reaches p.id pieces key) → RootNew C D →
    (fosResolvePieces cfg p cached pieces).Asks Does D (.find key.1 key.2) → key ∉ C
  | [], _, _, _, _, _, asks => asks.elim
  | (n, ended) :: rest, p, cached, D, clean, new, asks => fun mem => by
    have unreached := clean key mem
    rw [reaches_cons] at unreached
    rcases asks_pieces.mp asks with here | ⟨D', found, first, -, later⟩
    · obtain ⟨asked, rfl⟩ := of_asks_resolveCached here
      rw [if_neg asked] at unreached
      exact unreached (.inl rfl)
    · have resolved := Resolved.of_leaves first
      by_cases skipped : Skipped (n, ended)
      · have is : onward D p (n, ended) = some p := if_pos skipped
        have here : found.inode = p := (resolved.of_onward is).2.1
        refine new_of_asks (fun key mem reaches => clean key mem (reaches_cons.mpr ?_)) (new.known resolved is) later mem
        rw [if_pos skipped]
        exact here ▸ reaches
      · rw [if_neg skipped, not_or] at unreached
        by_cases isRoot : p.id = 0 ∧ n = ""
        · have absent : (0, "") ∉ C := fun mem => clean _ mem (reaches_cons.mpr (by
            rw [if_neg skipped]
            exact .inl (Prod.ext isRoot.1.symm isRoot.2.symm)))
          obtain ⟨child, is, isZero, -⟩ := new.onward absent skipped isRoot
          have here : found.inode = child := (resolved.of_onward is).2.1
          refine new_of_asks (fun key mem reaches => clean key mem (reaches_cons.mpr ?_)) (new.known resolved is) later mem
          rw [here, isZero] at reaches
          rw [if_neg skipped, if_pos isRoot]
          exact .inr reaches
        · rw [if_neg isRoot] at unreached
          exact unreached.2 (sought_of_asks later)

/-- After an answer that leads to the right directory the lookup looks for any key whose name is left. -/
theorem asks_of_sought : ∀ {rest : List (Name × Bool)} {D : DirCache} {k : PathPair}, key.2 ∈ sought rest →
    ∃ child : InodeType, ∀ cached, (fosResolvePieces cfg child cached rest).Asks Does (D.insert k child) (.find key.1 key.2)
  | [], _, _, mem => absurd mem List.not_mem_nil
  | (n, ended) :: rest, D, k, mem => by
    rw [sought_cons] at mem
    split_ifs at mem with skipped
    · obtain ⟨child, asks⟩ := asks_of_sought mem
      exact ⟨child, fun cached => (asks_skipped skipped).mpr (asks cached)⟩
    · by_cases name : key.2 = n
      · refine ⟨{ server := 0, id := key.1, type := .dir }, fun cached => asks_pieces.mpr (.inl ?_)⟩
        rw [name]
        exact asks_resolveCached skipped
      · -- a directory that the cache does not know
        have later := (List.mem_cons.mp mem).resolve_left name
        obtain ⟨i, fresh⟩ := Infinite.exists_notMem_finset (0 :: k.1 :: D.keys.map Prod.fst).toFinset
        simp only [List.mem_toFinset, List.mem_cons, not_or] at fresh
        let dir : InodeType := { server := 0, id := i, type := .dir }
        have miss : (D.insert k dir).lookup (dir.id, n) = none := by
          refine AList.lookup_eq_none.mpr fun mem => ?_
          rcases (AList.mem_insert _).mp mem with same | mem
          · exact fresh.2.1 (congrArg Prod.fst same)
          · exact fresh.2.2 (List.mem_map_of_mem (f := Prod.fst) (AList.mem_keys.mpr mem))
        have is : onward (D.insert k dir) dir (n, ended) = none :=
          (onward_of_miss skipped miss).trans (if_neg fun isRoot => fresh.1 isRoot.1)
        obtain ⟨child, asks⟩ := @asks_of_sought rest (D.insert k dir) (dir.id, n) later
        have owner := Locks.pathOwnern_dir cfg n (rfl : dir.type.isDir = true)
        exact ⟨dir, fun cached => asks_pieces.mpr (.inr ⟨_, _, (leaves_of_asked is owner).1 child, rfl, asks cached⟩)⟩

theorem asks_of_reaches (mem : key ∈ C) : ∀ {pieces : List (Name × Bool)} {p : InodeType} {cached : Bool} {D : DirCache},
    p.type.isDir = true → (∀ key ∈ D, key ∈ C ∨ key = (0, "")) → RootNew C D → Reaches p.id pieces key →
    ∃ found ∈ C, (fosResolvePieces cfg p cached pieces).Asks Does D (.find found.1 found.2)
  | [], _, _, _, _, _, _, reaches => reaches.elim
  | (n, ended) :: rest, p, cached, D, isDir, old, new, reaches => by
    rw [reaches_cons] at reaches
    by_cases skipped : Skipped (n, ended)
    · rw [if_pos skipped] at reaches
      obtain ⟨found, mem, asks⟩ := asks_of_reaches mem isDir old new reaches
      exact ⟨found, mem, (asks_skipped skipped).mpr asks⟩
    · by_cases there : (p.id, n) ∈ C
      · exact ⟨_, there, asks_pieces.mpr (.inl (asks_resolveCached skipped))⟩
      rw [if_neg skipped] at reaches
      have later := reaches.resolve_left fun same => there (same ▸ mem)
      by_cases isRoot : p.id = 0 ∧ n = ""
      · rw [if_pos isRoot] at later
        have absent : (0, "") ∉ C := by rwa [isRoot.1, isRoot.2] at there
        obtain ⟨child, is, isZero, isDir'⟩ := new.onward absent skipped isRoot
        obtain ⟨D', found, first, ok, here⟩ := @leaves_of_onward cfg D p child n ended cached is
        have resolved := Resolved.of_leaves first
        have old' : ∀ key ∈ D', key ∈ C ∨ key = (0, "") := by
          rcases (resolved.of_onward is).2.2 with rfl | ⟨-, rfl⟩
          · exact old
          · intro key mem
            rw [isRoot.1, isRoot.2] at mem
            exact ((AList.mem_insert _).mp mem).elim .inr (old key)
        rw [← isZero, ← here] at later
        rw [← here] at isDir'
        obtain ⟨found', mem, asks⟩ := asks_of_reaches mem isDir' old' (new.known resolved is) later
        exact ⟨found', mem, asks_pieces.mpr (.inr ⟨D', found, first, ok, asks⟩)⟩
      · rw [if_neg isRoot] at later
        have miss : D.lookup (p.id, n) = none := AList.lookup_eq_none.mpr fun mem => (old _ mem).elim there fun same =>
          isRoot ⟨congrArg Prod.fst same, congrArg Prod.snd same⟩
        obtain ⟨child, asks⟩ := @asks_of_sought cfg key rest D (p.id, n) later
        have is := (onward_of_miss skipped miss).trans (if_neg isRoot)
        exact ⟨key, mem, asks_pieces.mpr (.inr ⟨_, _, (leaves_of_asked is (Locks.pathOwnern_dir cfg n isDir)).1 child, rfl, asks _⟩)⟩

theorem asks_lookup {parent : InodeType} : (fosLookup cfg parent path cached).Asks Does C (.find i n) ↔
    ∃ notes, (fosResolvePieces cfg (startDir parent path) cached (lookupPieces path)).Asks Does (Client.notified C notes) (.find i n) := by
  constructor
  · rintro (same | ⟨_, _, ⟨notes, rfl⟩, asks⟩)
    · cases same
    · exact ⟨notes, asks⟩
  · exact fun ⟨notes, asks⟩ => .inr ⟨_, (), ⟨notes, rfl⟩, asks⟩

theorem purges_iff (cfg : Config) (cache : DirCache) (parent : InodeType) (path : Name) (clearer : Clearer)
    (isDir : parent.type.isDir = true) : Purges cfg cache parent path clearer ↔ Covered cfg cache parent path clearer := by
  constructor
  · intro purges key mem comes
    by_contra off
    obtain ⟨C, leaves, stays⟩ := leaves_of_not_cleared mem off
    obtain ⟨noStep, noFind⟩ := purges C leaves
    rcases comes with step | reaches
    · exact noStep key step stays
    · have new : RootNew C C := fun child entry => .inl (mem_of_lookup entry)
      obtain ⟨found, mem, asks⟩ := asks_of_reaches stays (Locks.startDir_isDir isDir) (fun _ mem => .inl mem) new reaches
      exact noFind found (asks_lookup.mpr ⟨[], asks⟩) mem
  · intro covered C leaves
    have clean : ∀ key ∈ C, ¬_ := fun key mem comes =>
      (not_cleared leaves mem).2 (covered key (not_cleared leaves mem).1 comes)
    refine ⟨fun key step mem => clean key mem (.inl step), fun key asks => ?_⟩
    obtain ⟨notes, asks⟩ := asks_lookup.mp asks
    refine new_of_asks (fun key mem reaches => clean key mem (.inr reaches)) ?_ asks
    exact fun child entry => .inl (mem_of_lookup (Knowing.lookup_notified entry))

def knows : DirCache :=
  ((∅ : DirCache).insert (2, "b") { server := 0, id := 3, type := .file }).insert (1, "a") { server := 0, id := 2, type := .dir }

theorem purges_two_components :
    Purges Server.oneServer knows { server := 0, id := 1, type := .dir } "a/b" .fileOpen ↔
      Covered Server.oneServer knows { server := 0, id := 1, type := .dir } "a/b" .fileOpen :=
  purges_iff Server.oneServer knows { server := 0, id := 1, type := .dir } "a/b" .fileOpen rfl

/-- Before `fosFStatAt64_` looks up `a/b` again only the entry of `b` is removed, and the lookup finds the old
    entry of `a`. -/
theorem fstat_again_through_cache :
    (∃ cache, ((Clearer.fstatAt { server := 0, id := 2, type := .dir }).clear Server.oneServer { server := 0, id := 1, type := .dir }
        "a/b").Leaves Does knows cache () ∧ (1, "a") ∈ cache ∧
      (fosLookup Server.oneServer { server := 0, id := 1, type := .dir } "a/b" false).Asks Does cache (.find 1 "a")) ∧
    ¬Purges Server.oneServer knows { server := 0, id := 1, type := .dir } "a/b" (.fstatAt { server := 0, id := 2, type := .dir }) := by
  have clears : ((Clearer.fstatAt { server := 0, id := 2, type := .dir }).clear Server.oneServer { server := 0, id := 1, type := .dir }
      "a/b").Leaves Does knows (knows.erase (2, "b")) () := ⟨_, (), rfl, rfl, rfl⟩
  have stays : ((1, "a") : PathPair) ∈ knows.erase (2, "b") := by decide
  have asks : (fosLookup Server.oneServer { server := 0, id := 1, type := .dir } "a/b" false).Asks Does (knows.erase (2, "b"))
      (.find 1 "a") := .inr ⟨_, (), ⟨[], rfl⟩, .inl rfl⟩
  exact ⟨⟨_, clears, stays, asks⟩, fun purges => (purges _ clears).2 (1, "a") asks stays⟩

end Clearing
end Faux
