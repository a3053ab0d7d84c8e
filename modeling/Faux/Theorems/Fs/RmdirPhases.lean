import Faux.Fs.Rmdir
import Faux.Theorems.Fs.Removal
import Mathlib.Data.Nat.Find

/-! The removal of a directory by a client that acts alone: the phases on one server, the loops over all servers, and
    the entry. -/

namespace Faux
open Function Lib System

/-! ### One server -/

namespace Server
variable {s t u : Server} {id : FileId}

structure Taken (id : FileId) (s t : Server) : Prop where
  locked : t.Locked id
  vacant : t.Vacant id
  kind : t.names.kind id = some .dir
  entry : t.entry = s.entry
  fds : t.fds = s.fds

structure Dropped (id : FileId) (s t : Server) : Prop where
  kind : t.names.kind id = none
  entry : ∀ p n, p ≠ id ∨ s.referenced id = true → t.entry p n = s.entry p n
  gone : s.referenced id = false → ∀ n, t.entry id n = none

theorem mem_of_not_vacant (full : ¬s.Vacant id) : ∃ d, s.files.lookup id = some (.dir d) ∧ d.children.entries.any (fun e => e.1 ≠ "..") = true := by
  by_contra none
  refine full fun d found => ?_
  by_contra some
  exact none ⟨d, found, by simpa using some⟩

theorem rmdir_full (full : ¬s.Vacant id) (phase : RmdirPhase) : s.rmdir id phase = .ok (s, .notEmpty) := by
  obtain ⟨d, found, some⟩ := mem_of_not_vacant full
  have lazy : s.lazyDir id = s := lazyDir_of_mem (mem_of_lookup found)
  simp only [rmdir, lazy, found]
  rw [if_pos some]

theorem names_setLocked {d : Dir} {locked : Bool} (found : s.files.lookup id = some (.dir d)) :
    namesOf (s.files.insert id (.dir { d with locked })) s.orphans = s.names :=
  namesOf_replace found rfl rfl

theorem lazy_vacant (usable : s.Usable id) (vacant : s.Vacant id) : ∃ d, (s.lazyDir id).files.lookup id = some (.dir d) ∧
    d.children.entries.any (fun e => e.1 ≠ "..") = false := by
  by_cases mem : id ∈ s.files
  · obtain ⟨d, found⟩ := usable.lookup mem
    exact ⟨d, by rwa [lazyDir_of_mem mem], vacant d found⟩
  · have none : s.files.lookup id = none := AList.lookup_eq_none.mpr mem
    exact ⟨Dir.new true 511, by simp [lazyDir, none], rfl⟩

theorem fds_lazyDir : (s.lazyDir id).fds = s.fds := by
  simp only [lazyDir]
  split <;> rfl

theorem rmdir_taken (usable : s.Usable id) (vacant : s.Vacant id) (free : ¬s.Locked id) :
    ∃ t, s.rmdir id .try = .ok (t, .ok) ∧ Taken id s t := by
  obtain ⟨d, found, empty⟩ := lazy_vacant usable vacant
  have open' : d.locked = false := by
    by_contra locked
    exact free (sameLock_lazyDir.locked.mp ⟨d, found, by simpa using locked⟩)
  have lookup : ((s.lazyDir id).files.insert id (.dir { d with locked := true })).lookup id = some (.dir { d with locked := true }) :=
    AList.lookup_insert _
  refine ⟨{ s.lazyDir id with files := (s.lazyDir id).files.insert id (.dir { d with locked := true }) },
    by simp only [rmdir, found, empty, open']; rfl, ⟨⟨_, lookup, rfl⟩, fun d' isD => ?_, ?_, ?_, fds_lazyDir⟩⟩
  · cases lookup.symm.trans isD
    exact empty
  · rw [names, names_setLocked found]
    exact kind_lazyDir usable
  · unfold entry
    rw [names, names_setLocked found]
    exact entry_lazyDir usable

theorem dropped_removeInode {type : FileType} (entry : t.entry = s.entry) (fds : t.fds = s.fds) :
    Dropped id s (t.removeInode id type) := by
  have same : t.referenced id = s.referenced id := by
    unfold referenced
    rw [fds]
  rw [removeInode, same]
  split_ifs with isReferenced
  · refine ⟨by simp [names, namesOf], fun p n _ => ?_, fun unused => by simp [isReferenced] at unused⟩
    exact congrFun (congrFun entry p) n
  · refine ⟨?_, fun p n other => ?_, fun _ n => ?_⟩
    · rw [names_delete, Names.kind_drop, if_pos rfl]
    · have ne : p ≠ id := other.resolve_right isReferenced
      rw [Server.entry, names_delete, Names.entry_drop, if_neg ne]
      exact congrFun (congrFun entry p) n
    · rw [Server.entry, names_delete, Names.entry_drop, if_pos rfl]

theorem rmdir_force (usable : s.Usable id) (vacant : s.Vacant id) : ∃ t, s.rmdir id .force = .ok (t, .ok) ∧ Dropped id s t := by
  obtain ⟨d, found, empty⟩ := lazy_vacant usable vacant
  exact ⟨(s.lazyDir id).removeInode id (VFile.dir d).type, by simp only [rmdir, found, empty]; rfl,
    dropped_removeInode (entry_lazyDir usable) fds_lazyDir⟩

theorem Taken.rmdir_fail (taken : Taken id s t) : ∃ u, t.rmdir id .fail = .ok (u, .ok) ∧ u.names.kind id = some .dir := by
  obtain ⟨d, found, locked⟩ := taken.locked
  have lazy : t.lazyDir id = t := lazyDir_of_mem (mem_of_lookup found)
  refine ⟨{ t with files := t.files.insert id (.dir { d with locked := false }) },
    by simp only [rmdir, lazy, found, taken.vacant d found, locked, require]; rfl, ?_⟩
  rw [names, names_setLocked found]
  exact taken.kind

theorem Taken.rmdir_success (taken : Taken id s t) : ∃ u, t.rmdir id .success = .ok (u, .ok) ∧ Dropped id s u := by
  obtain ⟨d, found, locked⟩ := taken.locked
  have lazy : t.lazyDir id = t := lazyDir_of_mem (mem_of_lookup found)
  refine ⟨removeInode { t with files := t.files.insert id (.dir { d with locked := false }) } id (VFile.dir { d with locked := false }).type,
    by simp only [rmdir, lazy, found, taken.vacant d found, locked, require]; rfl, dropped_removeInode ?_ taken.fds⟩
  unfold Server.entry
  rw [names, names_setLocked found]
  exact taken.entry

theorem removemap_some {p : FileId} {n : Name} (app : AppId) (found : s.entry p n ≠ none) : ∃ t notes, s.removemap app p n = (t, .ok, notes) ∧
    t.entry p n = none ∧ t.names.kind = s.names.kind := by
  obtain ⟨x, isX⟩ := Option.ne_none_iff_exists'.mp found
  obtain ⟨d, e, isDir, child, rfl⟩ := entry_some isX
  have erased : ∀ u : Server, u.files = s.files → u.orphans = s.orphans →
      (u.eraseChild p d n).entry p n = none ∧ (u.eraseChild p d n).names.kind = s.names.kind := by
    intro u files orphans
    have lookup : (u.eraseChild p d n).files.lookup p = some (.dir { d with children := d.children.erase n }) := AList.lookup_insert _
    refine ⟨?_, funext fun x => ?_⟩
    · rw [entry_of_lookup lookup]
      simp [VFile.entry]
    · simp only [names, namesOf, eraseChild, orphans, files]
      by_cases same : x = p
      · subst same
        simp [isDir, VFile.kind]
      · simp [AList.lookup_insert_ne same]
  refine ⟨_, _, by simp only [removemap, isDir, child]; rfl, ?_⟩
  split_ifs
  · exact erased _ rfl rfl
  · exact erased _ rfl rfl

end Server

/-! ### The loops -/

namespace Rmdir
open Cluster

variable {cfg : Config} {c : Nat} {w : Cluster} {f t : Nat → Server} {st : Nat → Status} {x : InodeType} {α : Type}
  {i fuel : Nat} {s : Server} {phase : RmdirPhase} {id : FileId}

abbrev Alone (cfg : Config) (c : Nat) (post : α → Cluster → Prop) (p : FsProg α) (w : Cluster) : Prop :=
  (fsSystem cfg).Ends c (fun _ => True) post p w

theorem stable_servers {P : (Nat → Server) → Prop} : (fsSystem cfg).Stable fun w => P w.servers := by
  intro w w' i holds stepped
  have same : w'.servers = w.servers := (intern_files stepped).1
  show P w'.servers
  rw [same]
  exact holds

instance : Nonempty Env := ⟨{ rand := 0, rand' := 0, stats := [] }⟩

theorem stable_eq : (fsSystem cfg).Stable fun w => w.servers = f := stable_servers (P := (· = f))

theorem alone_ret {P : (Nat → Server) → Prop} {v : α} (holds : P w.servers) : Alone cfg c (fun v' w' => v' = v ∧ P w'.servers) (.ret v) w :=
  Ends.ret stable_servers holds fun _ holds => ⟨rfl, holds⟩

theorem alone_rpc {q : Request} {r : q.Reply} (notes : List Server.Notify)
    (handled : ∀ e, (w.servers i).handle cfg e c q = .ok (s, r, notes)) :
    Alone cfg c (fun r' w' => r' = r ∧ w'.servers = update w.servers i s) (rpc i q) w := by
  refine Ends.perform (P := fun w' => w'.servers = w.servers) stable_eq rfl fun w' e same => ?_
  have handled' : (w'.servers i).handle cfg e c q = .ok (s, r, notes) := by
    rw [same]
    exact handled e
  obtain ⟨w'', done, servers⟩ := exec_rpc handled'
  exact ⟨w'', r, done, trivial, stable_servers (P := fun f => r = r ∧ f = update w.servers i s), rfl, by rw [servers, same]⟩

theorem alone_rmdir {st : Status}
    (done : (w.servers i).rmdir id phase = .ok (s, st)) :
    Alone cfg c (fun r w' => r = st ∧ w'.servers = update w.servers i s) (rpc i (.rmdir id phase)) w :=
  alone_rpc [] fun e => by simp only [Server.handle, done, ok_bind]

theorem alone_tryRmdir {v : Status} (done : (w.servers i).rmdir id .try = .ok (s, v))
    (free : v ≠ .again) :
    Alone cfg c (fun r w' => r = v ∧ w'.servers = update w.servers i s) (tryRmdir i id (fuel + 1)) w := by
  refine Ends.bind ((alone_rmdir done).mono ?_)
  rintro r w' ⟨rfl, servers⟩
  rw [if_neg free]
  exact alone_ret (P := fun f => f = _) servers

def overlay (l : List Nat) (t f : Nat → Server) (i : Nat) : Server := if i ∈ l then t i else f i

theorem overlay_nil : overlay [] t f = f := funext fun _ => if_neg (List.not_mem_nil)

theorem overlay_update {l : List Nat} : overlay l t (update f i (t i)) = overlay (i :: l) t f := by
  funext j
  simp only [overlay, List.mem_cons]
  by_cases mem : j ∈ l
  · simp [mem]
  · by_cases same : j = i
    · subst same
      simp [mem]
    · simp [mem, same]

theorem overlay_congr {l l' : List Nat} (same : ∀ i, i ∈ l ↔ i ∈ l') : overlay l t f = overlay l' t f := by
  funext i
  simp only [overlay, same]

theorem alone_commitAll : ∀ {l : List Nat} {w : Cluster}, l.Nodup →
    (∀ i ∈ l, (w.servers i).rmdir x.id phase = .ok (t i, .ok)) →
      Alone cfg c (fun _ w' => w'.servers = overlay l t w.servers) (commitAll x phase l) w := by
  intro l
  induction l with
  | nil =>
    intro w _ _
    exact (alone_ret (P := fun f => f = w.servers) rfl).mono fun _ _ done => done.2.trans overlay_nil.symm
  | cons i l ih =>
    intro w distinct each
    obtain ⟨fresh, distinct'⟩ := List.nodup_cons.mp distinct
    refine Ends.bind ((alone_rmdir (each i (List.mem_cons_self ..))).mono ?_)
    rintro r w' ⟨rfl, servers⟩
    refine (ih distinct' fun j mem => ?_).mono fun _ w'' done => ?_
    · have ne : j ≠ i := fun isI => fresh (isI ▸ mem)
      rw [servers, update_of_ne ne]
      exact each j (List.mem_cons_of_mem _ mem)
    · rw [done, servers, overlay_update]

theorem alone_pick {n : Nat} (pos : 0 < n) : Alone cfg c (fun i w' => i < n ∧ w'.servers = w.servers) (perform (.pick n)) w :=
  Ends.perform (P := fun w' => w'.servers = w.servers) stable_eq rfl fun w' e same =>
    ⟨w', e.rand % n, rfl, trivial, stable_servers (P := fun f => e.rand % n < n ∧ f = w.servers), Nat.mod_lt _ pos, same⟩

theorem alone_gather (t : Nat → Server) (st : Nat → Status) : ∀ {n : Nat} {l : List Nat} {w : Cluster}, l.length = n → l.Nodup →
    (∀ i ∈ l, (w.servers i).rmdir id phase = .ok (t i, st i)) →
      Alone cfg c (fun r w' => r.Perm (l.map fun i => (i, st i)) ∧ w'.servers = overlay l t w.servers) (gather id phase n l) w := by
  intro n
  induction n with
  | zero =>
    intro l w length _ _
    obtain rfl := List.length_eq_zero_iff.mp length
    refine (alone_ret (P := fun f => f = w.servers) rfl).mono ?_
    rintro r w' ⟨rfl, same⟩
    exact ⟨.refl _, same.trans overlay_nil.symm⟩
  | succ n ih =>
    intro l w length distinct each
    refine Ends.bind ((alone_pick (by omega)).mono ?_)
    rintro i w₁ ⟨lt, same₁⟩
    have found : l[i]? = some (l.get ⟨i, lt⟩) := List.getElem?_eq_getElem lt
    simp only [found]
    have perm : (l.get ⟨i, lt⟩ :: l.eraseIdx i).Perm l := List.getElem_cons_eraseIdx_perm lt
    have rest : (l.eraseIdx i).length = n := by
      rw [List.length_eraseIdx_of_lt lt]
      omega
    obtain ⟨fresh, distinct'⟩ := List.nodup_cons.mp (perm.nodup_iff.mpr distinct)
    refine Ends.bind ((alone_rmdir (by rw [same₁]; exact each _ (List.get_mem ..))).mono ?_)
    rintro r w₂ ⟨rfl, same₂⟩
    refine Ends.bind ((ih rest distinct' fun j mem => ?_).mono ?_)
    · have ne : j ≠ l.get ⟨i, lt⟩ := fun isI => fresh (isI ▸ mem)
      rw [same₂, update_of_ne ne, same₁]
      exact each j (perm.mem_iff.mp (List.mem_cons_of_mem _ mem))
    · rintro results w₃ ⟨statuses, same₃⟩
      refine Ends.ret (P := fun w' => w'.servers = w₃.servers) stable_eq rfl fun w' same => ⟨?_, ?_⟩
      · exact (statuses.cons _).trans (perm.map fun i => (i, st i))
      · rw [same, same₃, same₂, same₁, overlay_update]
        exact overlay_congr fun j => perm.mem_iff

theorem alone_tryAll {cfg' : Config} {post : Nat × Status → Cluster → Prop} {rest : List Nat} : ∀ {l : List Nat} {w : Cluster},
    l.Nodup → (∀ i ∈ l, i ≠ x.server → (w.servers i).rmdir x.id .try = .ok (t i, .ok)) →
    (∀ w', w'.servers = overlay (l.filter (· ≠ x.server)) t w.servers → Alone cfg c post (tryAll cfg' (fuel + 1) x rest) w') →
      Alone cfg c post (tryAll cfg' (fuel + 1) x (l ++ rest)) w := by
  intro l
  induction l with
  | nil => exact fun _ _ next => next _ overlay_nil.symm
  | cons i l ih =>
    intro w distinct each next
    obtain ⟨fresh, distinct'⟩ := List.nodup_cons.mp distinct
    rw [List.cons_append, tryAll]
    by_cases isHome : i = x.server
    · grind
    · rw [if_neg isHome]
      refine Ends.bind ((alone_tryRmdir (each i (List.mem_cons_self ..) isHome) (by decide)).mono ?_)
      rintro r w₁ ⟨rfl, same₁⟩
      rw [if_neg (by decide : ¬Status.ok ≠ Status.ok)]
      refine ih distinct' (fun j mem other => ?_) fun w' servers => next w' ?_
      · have ne : j ≠ i := fun isI => fresh (isI ▸ mem)
        rw [same₁, update_of_ne ne]
        exact each j (List.mem_cons_of_mem _ mem) other
      · rw [servers, same₁, overlay_update, List.filter_cons_of_pos (by simpa using isHome)]

/-! ### A shared directory -/

theorem exists_tried (has : w.HasDir cfg x) : ∃ (t : Nat → Server) (st : Nat → Status), ∀ i < cfg.serverCount,
    (w.servers i).rmdir x.id .try = .ok (t i, st i) ∧
      ((w.servers i).Vacant x.id ∧ st i = .ok ∧ Server.Taken x.id (w.servers i) (t i) ∨
        ¬(w.servers i).Vacant x.id ∧ st i = .notEmpty ∧ t i = w.servers i) := by
  have each : ∀ i < cfg.serverCount, ∃ s st, (w.servers i).rmdir x.id .try = .ok (s, st) ∧
      ((w.servers i).Vacant x.id ∧ st = .ok ∧ Server.Taken x.id (w.servers i) s ∨
        ¬(w.servers i).Vacant x.id ∧ st = .notEmpty ∧ s = w.servers i) := by
    intro i lt
    by_cases vacant : (w.servers i).Vacant x.id
    · obtain ⟨s, done, taken⟩ := Server.rmdir_taken (has.usable i lt) vacant (has.unlocked i lt)
      exact ⟨s, .ok, done, .inl ⟨vacant, rfl, taken⟩⟩
    · exact ⟨w.servers i, .notEmpty, Server.rmdir_full vacant .try, .inr ⟨vacant, rfl, rfl⟩⟩
  have : Nonempty Server := ⟨w.servers 0⟩
  choose! t st known using each
  exact ⟨t, st, known⟩

theorem exists_dropped (taken : ∀ i < cfg.serverCount, Server.Taken x.id (w.servers i) (t i)) : ∃ u : Nat → Server, ∀ i < cfg.serverCount,
    (t i).rmdir x.id .success = .ok (u i, .ok) ∧ Server.Dropped x.id (w.servers i) (u i) := by
  have : Nonempty Server := ⟨w.servers 0⟩
  choose! u known using fun i lt => (taken i lt).rmdir_success
  exact ⟨u, known⟩

theorem exists_released : ∃ u : Nat → Server, ∀ i, Server.Taken x.id (w.servers i) (t i) →
    (t i).rmdir x.id .fail = .ok (u i, .ok) ∧ (u i).names.kind x.id = some .dir := by
  have : Nonempty Server := ⟨w.servers 0⟩
  choose! u known using fun i (taken : Server.Taken x.id (w.servers i) (t i)) => taken.rmdir_fail
  exact ⟨u, known⟩

structure Cleared (id : FileId) (P : Nat → Prop) (f g : Nat → Server) : Prop where
  dropped : ∀ i, P i → Server.Dropped id (f i) (g i)
  others : ∀ i, ¬P i → g i = f i

theorem worst_ok {r : Status} {l : List Status} (all : ∀ s ∈ l, s = .ok) : worst r l = r := by
  induction l with
  | nil => rfl
  | cons s l ih =>
    obtain ⟨rfl, rest⟩ := List.forall_mem_cons.mp all
    rw [worst, if_neg (by decide)]
    exact ih rest

theorem worst_notEmpty {l : List Status} (each : ∀ s ∈ l, s = .ok ∨ s = .notEmpty) : ∀ {r : Status}, Status.notEmpty ∈ l →
    worst r l = .notEmpty := by
  induction l with
  | nil => exact fun mem => absurd mem List.not_mem_nil
  | cons s l ih =>
    intro r mem
    obtain ⟨first, rest⟩ := List.forall_mem_cons.mp each
    by_cases more : Status.notEmpty ∈ l
    · exact ih rest more
    · obtain rfl : s = .notEmpty := ((List.mem_cons.mp mem).resolve_right more).symm
      rw [worst, if_pos (by decide)]
      exact worst_ok fun s isIn => (rest s isIn).resolve_right fun isFull => more (isFull ▸ isIn)

theorem statusOf_tried {tried : List (Nat × Status)} {others : List Nat} (distinct : others.Nodup) (home : x.server ∉ others)
    (perm : tried.Perm (others.map fun i => (i, st i))) (first : st x.server = .ok) (mem : i = x.server ∨ i ∈ others) :
    statusOf ((x.server, .ok) :: tried) i = st i := by
  have keys : (((x.server, Status.ok) :: tried).map (·.1)).Perm (x.server :: others) := by
    have := (perm.map (·.1)).cons x.server
    simpa [List.map_map, Function.comp_def] using this
  have nodup : (((x.server, Status.ok) :: tried).map (·.1)).Nodup := keys.nodup_iff.mpr (List.nodup_cons.mpr ⟨home, distinct⟩)
  have listed : (i, st i) ∈ (x.server, Status.ok) :: tried := by grind
  rw [statusOf, Locks.lookup_of_mem nodup listed, Option.getD_some]

def others (cfg : Config) (x : InodeType) : List Nat := (List.range cfg.serverCount).filter (· ≠ x.server)

theorem mem_others : i ∈ others cfg x ↔ i < cfg.serverCount ∧ i ≠ x.server := by
  simp [others]

theorem mem_all (home : x.server < cfg.serverCount) : i ∈ x.server :: others cfg x ↔ i ∈ List.range cfg.serverCount := by
  rw [List.mem_cons, mem_others, List.mem_range]
  constructor
  · rintro (rfl | ⟨lt, -⟩)
    · exact home
    · exact lt
  · omega

theorem range_split {k n : Nat} (lt : k < n) : ∃ rest, List.range n = List.range k ++ k :: rest := by
  refine ⟨(List.range n).drop (k + 1), ?_⟩
  have split : (List.range n).take k ++ (List.range n).drop k = List.range n := List.take_append_drop k _
  rw [List.take_range, Nat.min_eq_left (Nat.le_of_lt lt), List.drop_eq_getElem_cons (by simpa using lt), List.getElem_range] at split
  exact split.symm

theorem alone_first_full {rest : Status → FsProg (Bool × Status)} (has : w.HasDir cfg x) (full : ¬(w.servers x.server).Vacant x.id) :
    Alone cfg c (fun r w' => r = (false, .notEmpty) ∧ (w'.servers x.server).names.kind x.id = some .dir)
      (tryRmdir x.server x.id (fuel + 1) >>= fun first => if first ≠ .ok then .ret (false, first) else rest first) w := by
  refine Ends.bind ((alone_tryRmdir (Server.rmdir_full full .try) (by decide)).mono ?_)
  rintro r w₁ ⟨rfl, same₁⟩
  rw [if_pos (by decide)]
  refine (alone_ret (P := fun f => f = w.servers) (same₁.trans (update_eq_self ..))).mono ?_
  rintro r w₂ ⟨rfl, same₂⟩
  rw [same₂]
  exact ⟨rfl, (has.usable _ has.home).kind has.present⟩

section
variable {cfg' : Config} {fuel : Nat} (has : w.HasDir cfg x) (count : cfg'.serverCount = cfg.serverCount)
include has count

theorem alone_phase1 {post : Bool × Status → Cluster → Prop}
    (tries : ∀ i < cfg.serverCount, (w.servers i).rmdir x.id .try = .ok (t i, st i)) (first : st x.server = .ok)
    (next : ∀ retvals w', (∀ i < cfg.serverCount, statusOf retvals i = st i) → w'.servers = overlay (List.range cfg.serverCount) t w.servers →
      Alone cfg c post (do
        let retval := worst .ok ((others cfg x).map (statusOf retvals))
        let phase := if retval = .ok then RmdirPhase.success else .fail
        let targets := (List.range cfg.serverCount).filter fun i => statusOf retvals i ≠ .notEmpty
        let done ← gather x.id phase targets.length targets
        ensure (done.all fun r => r.2 = .ok)
        .ret (phase = .success, retval)) w') :
    Alone cfg c post (rmdirGather cfg' (fuel + 1) x) w := by
  unfold rmdirGather
  rw [count]
  refine Ends.bind ((alone_tryRmdir (tries _ has.home) (by rw [first]; decide)).mono ?_)
  rintro r w₁ ⟨rfl, same₁⟩
  rw [first, if_neg (by decide : ¬Status.ok ≠ Status.ok)]
  have distinct : (others cfg x).Nodup := List.nodup_range.filter _
  have notHome : x.server ∉ others cfg x := fun mem => (mem_others.mp mem).2 rfl
  refine Ends.bind ((alone_gather t st rfl distinct fun i mem => ?_).mono ?_)
  · obtain ⟨lt, ne⟩ := mem_others.mp mem
    rw [same₁, update_of_ne ne]
    exact tries i lt
  · rintro tried w₂ ⟨perm, same₂⟩
    refine next _ w₂ (fun i lt => statusOf_tried distinct notHome perm first ?_) ?_
    · exact List.mem_cons.mp ((mem_all has.home).mpr (List.mem_range.mpr lt))
    · rw [same₂, same₁, overlay_update]
      exact overlay_congr fun _ => mem_all has.home

theorem gather_empty (empty : w.Empty cfg x) :
    Alone cfg c (fun r w' => r = (true, .ok) ∧ Cleared x.id (· < cfg.serverCount) w.servers w'.servers) (rmdirGather cfg' (fuel + 1) x) w := by
  obtain ⟨t, st, tried⟩ := exists_tried has
  have isOk : ∀ i < cfg.serverCount, st i = .ok ∧ Server.Taken x.id (w.servers i) (t i) := fun i lt =>
    (tried i lt).2.elim (fun yes => yes.2) fun no => absurd (empty i lt) no.1
  obtain ⟨u, dropped⟩ := exists_dropped (t := t) fun i lt => (isOk i lt).2
  refine alone_phase1 has count (fun i lt => (tried i lt).1) (isOk _ has.home).1 fun retvals w₁ statuses same₁ => ?_
  have retval : worst .ok ((others cfg x).map (statusOf retvals)) = .ok := worst_ok fun s mem => by
    obtain ⟨i, isIn, rfl⟩ := List.mem_map.mp mem
    have lt := (mem_others.mp isIn).1
    rw [statuses i lt, (isOk i lt).1]
  have targets : (List.range cfg.serverCount).filter (fun i => statusOf retvals i ≠ .notEmpty) = List.range cfg.serverCount :=
    List.filter_eq_self.mpr fun i mem => by
      have lt := List.mem_range.mp mem
      rw [statuses i lt, (isOk i lt).1]
      decide
  simp only [retval, targets, if_true]
  refine Ends.bind ((alone_gather u (fun _ => .ok) rfl List.nodup_range fun i mem => ?_).mono ?_)
  · rw [same₁, overlay, if_pos mem]
    exact (dropped i (List.mem_range.mp mem)).1
  · rintro done w₂ ⟨perm, same₂⟩
    have all : (done.all fun r => r.2 = .ok) = true := by
      rw [perm.all_eq]
      simp
    rw [all]
    refine Ends.ret (P := fun w' => w'.servers = w₂.servers) stable_eq rfl fun w' same => ⟨rfl, fun i lt => ?_, fun i past => ?_⟩
    · rw [same, same₂, overlay, if_pos (List.mem_range.mpr lt)]
      exact (dropped i lt).2
    · rw [same, same₂, overlay, if_neg (by simpa using past), same₁, overlay, if_neg (by simpa using past)]

theorem gather_full (full : ¬w.Empty cfg x) :
    Alone cfg c (fun r w' => r = (false, .notEmpty) ∧ (w'.servers x.server).names.kind x.id = some .dir) (rmdirGather cfg' (fuel + 1) x) w := by
  by_cases vacant : (w.servers x.server).Vacant x.id
  · obtain ⟨t, st, tried⟩ := exists_tried has
    have isOk : ∀ i < cfg.serverCount, st i ≠ .notEmpty → st i = .ok ∧ Server.Taken x.id (w.servers i) (t i) := fun i lt notFull =>
      (tried i lt).2.elim (fun yes => yes.2) fun no => absurd no.2.1 notFull
    have first : st x.server = .ok := (tried _ has.home).2.elim (fun yes => yes.2.1) fun no => absurd vacant no.1
    obtain ⟨u, released⟩ := exists_released (w := w) (t := t) (x := x)
    refine alone_phase1 has count (fun i lt => (tried i lt).1) first fun retvals w₁ statuses same₁ => ?_
    have retval : worst .ok ((others cfg x).map (statusOf retvals)) = .notEmpty := by
      refine worst_notEmpty (fun s mem => ?_) ?_
      · obtain ⟨i, isIn, rfl⟩ := List.mem_map.mp mem
        have lt := (mem_others.mp isIn).1
        rw [statuses i lt]
        exact (tried i lt).2.imp (fun yes => yes.2.1) fun no => no.2.1
      · obtain ⟨i, lt, isFull⟩ : ∃ i < cfg.serverCount, ¬(w.servers i).Vacant x.id := by
          simpa [Cluster.Empty] using full
        refine List.mem_map.mpr ⟨i, mem_others.mpr ⟨lt, fun isHome => isFull (isHome ▸ vacant)⟩, ?_⟩
        rw [statuses i lt]
        exact (tried i lt).2.elim (fun yes => absurd yes.1 isFull) fun no => no.2.1
    have notOk : ¬Status.notEmpty = Status.ok := by decide
    simp only [retval, if_neg notOk]
    refine Ends.bind ((alone_gather u (fun _ => .ok) rfl (List.nodup_range.filter _) fun i mem => ?_).mono ?_)
    · obtain ⟨isIn, notFull⟩ := List.mem_filter.mp mem
      have lt := List.mem_range.mp isIn
      rw [statuses i lt] at notFull
      rw [same₁, overlay, if_pos isIn]
      exact (released i (isOk i lt (by simpa using notFull)).2).1
    · rintro done w₂ ⟨perm, same₂⟩
      have all : (done.all fun r => r.2 = .ok) = true := by
        rw [perm.all_eq]
        simp
      rw [all]
      refine Ends.ret (P := fun w' => w'.servers = w₂.servers) stable_eq rfl fun w' same => ⟨rfl, ?_⟩
      have isTarget : x.server ∈ (List.range cfg.serverCount).filter fun i => statusOf retvals i ≠ .notEmpty := by
        rw [List.mem_filter, List.mem_range, statuses _ has.home, first]
        exact ⟨has.home, by decide⟩
      rw [same, same₂, overlay, if_pos isTarget]
      exact (released _ (isOk _ has.home (by rw [first]; decide)).2).2
  · exact alone_first_full has vacant

theorem sequence_empty (empty : w.Empty cfg x) :
    Alone cfg c (fun r w' => r = (true, .ok) ∧ Cleared x.id (· < cfg.serverCount) w.servers w'.servers) (rmdirSequence cfg' (fuel + 1) x) w := by
  obtain ⟨t, st, tried⟩ := exists_tried has
  have isOk : ∀ i < cfg.serverCount, st i = .ok ∧ Server.Taken x.id (w.servers i) (t i) := fun i lt =>
    (tried i lt).2.elim (fun yes => yes.2) fun no => absurd (empty i lt) no.1
  have locks : ∀ i < cfg.serverCount, (w.servers i).rmdir x.id .try = .ok (t i, .ok) := fun i lt => by
    rw [(tried i lt).1, (isOk i lt).1]
  obtain ⟨u, dropped⟩ := exists_dropped (t := t) fun i lt => (isOk i lt).2
  unfold rmdirSequence
  rw [count]
  refine Ends.bind ((alone_tryRmdir (locks _ has.home) (by decide)).mono ?_)
  rintro r w₁ ⟨rfl, same₁⟩
  rw [if_neg (by decide : ¬Status.ok ≠ Status.ok)]
  refine Ends.bind ?_
  rw [← List.append_nil (List.range cfg.serverCount)]
  refine alone_tryAll (t := t) List.nodup_range (fun i mem other => ?_) fun w₂ same₂ => ?_
  · rw [same₁, update_of_ne other]
    exact locks i (List.mem_range.mp mem)
  · have all : w₂.servers = overlay (List.range cfg.serverCount) t w.servers := by
      rw [same₂, same₁, overlay_update]
      exact overlay_congr fun _ => mem_all has.home
    refine (alone_ret (P := fun f => f = w₂.servers) rfl).mono ?_
    rintro r w₃ ⟨rfl, same₃⟩
    simp only [if_true, count]
    refine Ends.bind ((alone_commitAll (t := u) List.nodup_range fun i mem => ?_).mono fun _ w₄ same₄ => ?_)
    · rw [same₃, all, overlay, if_pos mem]
      exact (dropped i (List.mem_range.mp mem)).1
    · rw [if_neg (by rintro ⟨⟨⟩, -⟩)]
      refine Ends.ret (P := fun w' => w'.servers = w₄.servers) stable_eq rfl fun w' same => ⟨rfl, fun i lt => ?_, fun i past => ?_⟩
      · rw [same, same₄, overlay, if_pos (List.mem_range.mpr lt)]
        exact (dropped i lt).2
      · rw [same, same₄, overlay, if_neg (by simpa using past), same₃, all, overlay, if_neg (by simpa using past)]

/-- One server after the other: server `k` is the first that has entries, and is not the home. When it comes before
    the home its status is lost. -/
theorem sequence_first {k : Nat} (lt : k < cfg.serverCount) (vacant : (w.servers x.server).Vacant x.id) (full : ¬(w.servers k).Vacant x.id)
    (least : ∀ i < k, (w.servers i).Vacant x.id) :
    Alone cfg c (fun r w' => r = (false, if k < x.server then .ok else .notEmpty) ∧ (w'.servers x.server).names.kind x.id = some .dir)
      (rmdirSequence cfg' (fuel + 1) x) w := by
  obtain ⟨t, st, tried⟩ := exists_tried has
  have locks : ∀ i < cfg.serverCount, (w.servers i).Vacant x.id →
      (w.servers i).rmdir x.id .try = .ok (t i, .ok) ∧ Server.Taken x.id (w.servers i) (t i) := fun i lt vacant => by
    obtain ⟨done, yes | no⟩ := tried i lt
    · exact ⟨yes.2.1 ▸ done, yes.2.2⟩
    · exact absurd vacant no.1
  obtain ⟨u, released⟩ := exists_released (w := w) (t := t) (x := x)
  have other : k ≠ x.server := fun isHome => full (isHome ▸ vacant)
  unfold rmdirSequence
  rw [count]
  refine Ends.bind ((alone_tryRmdir (locks _ has.home vacant).1 (by decide)).mono ?_)
  rintro r w₁ ⟨rfl, same₁⟩
  rw [if_neg (by decide : ¬Status.ok ≠ Status.ok)]
  refine Ends.bind ?_
  obtain ⟨rest, split⟩ := range_split lt
  rw [split]
  refine alone_tryAll (t := t) List.nodup_range (fun i mem notHome => ?_) fun w₂ same₂ => ?_
  · have before := List.mem_range.mp mem
    rw [same₁, update_of_ne notHome]
    exact (locks i (by omega) (least i before)).1
  · rw [same₁, overlay_update] at same₂
    have untouched : k ∉ x.server :: (List.range k).filter (· ≠ x.server) := by
      simp [other]
    rw [tryAll, if_neg other]
    refine Ends.bind ((alone_tryRmdir (s := w.servers k) (v := .notEmpty) ?_ (by decide)).mono ?_)
    · rw [same₂, overlay, if_neg untouched]
      exact Server.rmdir_full full .try
    · rintro r w₃ ⟨rfl, same₃⟩
      have all : w₃.servers = overlay (x.server :: (List.range k).filter (· ≠ x.server)) t w.servers := by
        rw [same₃, ← same₂]
        refine update_eq_self_iff.mpr ?_
        rw [same₂, overlay, if_neg untouched]
      rw [if_pos (by decide : Status.notEmpty ≠ Status.ok)]
      refine (alone_ret (P := fun f => f = w₃.servers) rfl).mono ?_
      rintro r w₄ ⟨rfl, same₄⟩
      have notOk : ¬Status.notEmpty = Status.ok := by decide
      simp only [if_neg notOk]
      refine Ends.bind ((alone_commitAll (t := u) List.nodup_range fun i mem => ?_).mono fun _ w₅ same₅ => ?_)
      · have before := List.mem_range.mp mem
        have held : i ∈ x.server :: (List.range k).filter (· ≠ x.server) := by
          by_cases isHome : i = x.server
          · exact isHome ▸ List.mem_cons_self ..
          · exact List.mem_cons_of_mem _ (List.mem_filter.mpr ⟨mem, by simpa using isHome⟩)
        rw [same₄, all, overlay, if_pos held]
        exact (released i (locks i (by omega) (least i before)).2).1
      · by_cases early : k < x.server
        · simp only [early, and_self, if_true]
          have atHome : w₅.servers x.server = t x.server := by
            rw [same₅, overlay, if_neg (by simp; omega), same₄, all, overlay, if_pos (List.mem_cons_self ..)]
          have freed := released _ (locks _ has.home vacant).2
          refine Ends.bind ((alone_rmdir (s := u x.server) (by rw [atHome]; exact freed.1)).mono ?_)
          rintro r w₆ ⟨rfl, same₆⟩
          refine Ends.ret (P := fun w' => w'.servers = w₆.servers) stable_eq rfl fun w' same => ⟨rfl, ?_⟩
          rw [same, same₆, update_self]
          exact freed.2
        · simp only [early, and_false, if_false]
          refine Ends.ret (P := fun w' => w'.servers = w₅.servers) stable_eq rfl fun w' same => ⟨rfl, ?_⟩
          rw [same, same₅, overlay, if_pos (List.mem_range.mpr (by omega))]
          exact (released _ (locks _ has.home vacant).2).2

end

theorem exists_first (full : ¬w.Empty cfg x) : ∃ k < cfg.serverCount, ¬(w.servers k).Vacant x.id ∧ ∀ i < k, (w.servers i).Vacant x.id := by
  classical
  have some : ∃ i, i < cfg.serverCount ∧ ¬(w.servers i).Vacant x.id := by
    simpa [Cluster.Empty] using full
  refine ⟨Nat.find some, (Nat.find_spec some).1, (Nat.find_spec some).2, fun i before => ?_⟩
  by_contra isFull
  exact Nat.find_min some before ⟨Nat.lt_trans before (Nat.find_spec some).1, isFull⟩

section
variable {cfg' : Config} {fuel : Nat} (has : w.HasDir cfg x) (count : cfg'.serverCount = cfg.serverCount)
include has count

theorem shared_empty (empty : w.Empty cfg x) :
    Alone cfg c (fun r w' => r = (true, .ok) ∧ Cleared x.id (· < cfg.serverCount) w.servers w'.servers) (rmdirShared cfg' (fuel + 1) x) w := by
  unfold rmdirShared
  split
  · exact gather_empty has count empty
  · exact sequence_empty has count empty

theorem shared_full (mode : cfg'.scatterGather = cfg.scatterGather) (full : ¬w.Empty cfg x)
    (order : cfg.scatterGather = false → (w.servers x.server).Vacant x.id → ∀ i < x.server, (w.servers i).Vacant x.id) :
    Alone cfg c (fun r w' => r = (false, .notEmpty) ∧ (w'.servers x.server).names.kind x.id = some .dir) (rmdirShared cfg' (fuel + 1) x) w := by
  unfold rmdirShared
  rw [mode]
  split
  · exact gather_full has count full
  · next sequential =>
    by_cases vacant : (w.servers x.server).Vacant x.id
    · obtain ⟨k, lt, isFull, least⟩ := exists_first full
      have late : ¬k < x.server := fun early => isFull (order (by simpa using sequential) vacant k early)
      refine (sequence_first has count lt vacant isFull least).mono fun r w' done => ?_
      rwa [if_neg late] at done
    · exact alone_first_full has vacant

theorem shared_early (mode : cfg'.scatterGather = cfg.scatterGather) (sequential : cfg.scatterGather = false) (vacant : (w.servers x.server).Vacant x.id)
    (early : ¬∀ i < x.server, (w.servers i).Vacant x.id) :
    Alone cfg c (fun r _ => r = (false, .ok)) (rmdirShared cfg' (fuel + 1) x) w := by
  unfold rmdirShared
  rw [mode, sequential]
  have full : ¬w.Empty cfg x := fun empty => early fun i before => empty i (Nat.lt_trans before has.home)
  obtain ⟨k, lt, isFull, least⟩ := exists_first full
  have before : k < x.server := by
    by_contra late
    exact early fun i isBefore => least i (by omega)
  refine (sequence_first has count lt vacant isFull least).mono fun r w' done => ?_
  rw [done.1, if_pos before]

end

/-! ### The inode and its entry -/

theorem Cleared.entry_iff {P : Nat → Prop} {p : FileId} (cleared : Cleared id P f t) {j : Nat} {n : Name} :
    (t j).entry p n ≠ none ↔ (f j).entry p n ≠ none ∧ (p = id → (f j).referenced id = true ∨ ¬P j) := by
  by_cases asked : P j
  · have dropped := cleared.dropped j asked
    by_cases other : p ≠ id ∨ (f j).referenced id = true
    · rw [dropped.entry p n other]
      have : p = id → (f j).referenced id = true := other.resolve_left ∘ not_not_intro
      tauto
    · obtain ⟨rfl, unused⟩ : p = id ∧ (f j).referenced id = false := by simpa using other
      simp [dropped.gone unused, unused, asked]
  · rw [cleared.others j asked]
    simp [asked]

structure Unlinked (cfg : Config) (x : InodeType) (j : Nat) (p : InodeType) (n : Name) (f g : Nat → Server) : Prop where
  entry : (g j).entry p.id n = none
  gone : ∀ i, x.Asked cfg i → (g i).names.kind x.id = none
  kept : ∀ i, ¬x.Asked cfg i → (g i).names.kind = (f i).names.kind

section
variable {cfg' : Config} {fuel j : Nat} {p : InodeType} {n : Name}

theorem Cleared.unlinked (cleared : Cleared x.id (x.Asked cfg) f t) (entry : s.entry p.id n = none)
    (kind : s.names.kind = (t j).names.kind) : Unlinked cfg x j p n f (update t j s) := by
  have same : ∀ i, (update t j s i).names.kind = (t i).names.kind := by grind
  refine ⟨by rwa [update_self], fun i asked => ?_, fun i notAsked => ?_⟩
  · rw [same i]
    exact (cleared.dropped i asked).kind
  · rw [same i, cleared.others i notAsked]

theorem alone_unlink {w₁ : Cluster} (cleared : Cleared x.id (x.Asked cfg) w.servers w₁.servers) (found : (w.servers j).entry p.id n ≠ none)
    (outlives : p.id = x.id → w.Outlives cfg x j) :
    Alone cfg c (fun r w' => r = .ok ∧ Unlinked cfg x j p n w.servers w'.servers) (fosRemoveMap j p n) w₁ := by
  obtain ⟨s, notes, removed, entry, kind⟩ := Server.removemap_some c (cleared.entry_iff.mpr ⟨found, outlives⟩)
  refine (alone_rpc (s := s) (r := Status.ok) notes fun e => by simp only [Server.handle, removed]).mono ?_
  rintro r w' ⟨rfl, servers⟩
  rw [servers]
  exact ⟨rfl, cleared.unlinked entry kind⟩

theorem alone_unlink_none {w₁ : Cluster} (cleared : Cleared x.id (x.Asked cfg) w.servers w₁.servers)
    (nameless : ¬((w.servers j).entry p.id n ≠ none ∧ (p.id = x.id → w.Outlives cfg x j))) :
    Alone cfg c (fun r _ => r ≠ .ok) (fosRemoveMap j p n) w₁ := by
  have absent : (w₁.servers j).entry p.id n = none := not_not.mp fun found => nameless (cleared.entry_iff.mp found)
  obtain ⟨st, removed, failed⟩ := Server.removemap_absent c absent
  refine (alone_rpc (s := w₁.servers j) (r := st) [] fun e => by simp only [Server.handle, removed]).mono ?_
  rintro r w' ⟨rfl, -⟩
  exact failed

theorem cleared_home (notShared : x.type ≠ .dirShared) (dropped : Server.Dropped x.id (w.servers x.server) s) :
    Cleared x.id (x.Asked cfg) w.servers (update w.servers x.server s) := by
  refine ⟨fun i asked => ?_, fun i notAsked => ?_⟩
  · obtain rfl : i = x.server := asked.resolve_right fun shared => notShared shared.1
    rwa [update_self]
  · rw [update_of_ne fun isHome => notAsked (.inl isHome)]

theorem asked_shared (home : x.server < cfg.serverCount) (shared : x.type = .dirShared) : x.Asked cfg = (· < cfg.serverCount) := by
  funext i
  simp only [InodeType.Asked, shared, true_and, eq_iff_iff, or_iff_right_iff_imp]
  rintro rfl
  exact home

theorem empty_iff (has : w.HasDir cfg x) (notShared : x.type ≠ .dirShared) : w.Empty cfg x ↔ (w.servers x.server).Vacant x.id := by
  refine ⟨fun empty => empty _ has.home, fun vacant i lt => ?_⟩
  by_cases isHome : i = x.server
  · exact isHome ▸ vacant
  · exact has.entries notShared i lt isHome

variable (has : w.HasDir cfg x) (count : cfg'.serverCount = cfg.serverCount)
include has count

theorem shared_cleared (shared : x.type = .dirShared) (empty : w.Empty cfg x) :
    Alone cfg c (fun r w' => r = (true, .ok) ∧ Cleared x.id (x.Asked cfg) w.servers w'.servers) (rmdirShared cfg' (fuel + 1) x) w := by
  rw [asked_shared has.home shared]
  exact shared_empty has count empty

theorem inode_full (mode : cfg'.scatterGather = cfg.scatterGather) (full : ¬w.Empty cfg x)
    (order : cfg.scatterGather = false → x.type = .dirShared → (w.servers x.server).Vacant x.id → ∀ i < x.server, (w.servers i).Vacant x.id) :
    Alone cfg c (fun r w' => r.2 = .notEmpty ∧ (w'.servers x.server).names.kind x.id = some .dir) (rmdirInode cfg' (fuel + 1) j p n x) w := by
  have kind := (has.usable _ has.home).kind has.present
  unfold rmdirInode
  split_ifs with notShared same
  · have homeFull := (empty_iff has notShared).not.mp full
    refine Ends.bind ((alone_rpc (s := w.servers x.server) (r := Status.notEmpty) [] fun e => ?_).mono ?_)
    · simp only [Server.handle, Server.handleRmdirAndMap, Server.rmdir_full homeFull, ok_bind]
      rfl
    · rintro r w₁ ⟨rfl, servers⟩
      refine Ends.ret (P := fun w' => w'.servers = w₁.servers) stable_eq rfl fun w' same => ⟨rfl, ?_⟩
      rw [same, servers, update_self]
      exact kind
  · have homeFull := (empty_iff has notShared).not.mp full
    refine Ends.bind ((alone_rmdir (Server.rmdir_full homeFull .force)).mono ?_)
    rintro r w₁ ⟨rfl, servers⟩
    rw [if_pos (by decide : Status.notEmpty ≠ Status.ok)]
    refine Ends.ret (P := fun w' => w'.servers = w₁.servers) stable_eq rfl fun w' same => ⟨rfl, ?_⟩
    rw [same, servers, update_self]
    exact kind
  · refine Ends.bind ((shared_full has count mode full fun sequential => order sequential (not_not.mp notShared)).mono ?_)
    rintro r w₁ ⟨rfl, kind⟩
    exact Ends.ret (P := fun w' => (w'.servers x.server).names.kind x.id = some .dir)
      (stable_servers (P := fun f => (f x.server).names.kind x.id = some .dir)) kind fun w' kind => ⟨rfl, kind⟩

theorem inode_early (mode : cfg'.scatterGather = cfg.scatterGather) (sequential : cfg.scatterGather = false) (shared : x.type = .dirShared)
    (vacant : (w.servers x.server).Vacant x.id) (early : ¬∀ i < x.server, (w.servers i).Vacant x.id) :
    Alone cfg c (fun r _ => r.2 = .ok) (rmdirInode cfg' (fuel + 1) j p n x) w := by
  unfold rmdirInode
  rw [if_neg (not_not.mpr shared)]
  refine Ends.bind ((shared_early has count mode sequential vacant early).mono ?_)
  rintro r w₁ rfl
  exact fun _ _ => rfl

theorem inode_empty (empty : w.Empty cfg x) (found : (w.servers j).entry p.id n ≠ none) (outlives : p.id = x.id → w.Outlives cfg x j) :
    Alone cfg c (fun r w' => r = (true, .ok) ∧ Unlinked cfg x j p n w.servers w'.servers) (rmdirInode cfg' (fuel + 1) j p n x) w := by
  obtain ⟨s, done, dropped⟩ := Server.rmdir_force (has.usable _ has.home) (empty _ has.home)
  unfold rmdirInode
  split_ifs with notShared same
  · subst same
    have cleared : Cleared x.id (x.Asked cfg) w.servers (update w.servers x.server s) := cleared_home notShared dropped
    have left := cleared.entry_iff.mpr ⟨found, outlives⟩
    rw [update_self] at left
    obtain ⟨s', notes, removed, entry, kind⟩ := Server.removemap_some c left
    refine Ends.bind ((alone_rpc (s := s') (r := Status.ok) notes fun e => ?_).mono ?_)
    · simp [Server.handle, Server.handleRmdirAndMap, done, ok_bind, removed]
    · rintro r w₁ ⟨rfl, servers⟩
      have unlinked := cleared.unlinked (j := x.server) entry (by rw [update_self, kind])
      rw [update_idem, ← servers] at unlinked
      exact alone_ret unlinked
  · refine Ends.bind ((alone_rmdir done).mono ?_)
    rintro r w₁ ⟨rfl, servers⟩
    rw [if_neg (by decide : ¬Status.ok ≠ Status.ok)]
    refine Ends.bind ((alone_unlink (servers ▸ cleared_home notShared dropped) found outlives).mono ?_)
    rintro r w₂ ⟨rfl, unlinked⟩
    exact alone_ret unlinked
  · refine Ends.bind ((shared_cleared has count (not_not.mp notShared) empty).mono ?_)
    rintro r w₁ ⟨rfl, cleared⟩
    refine Ends.bind ((alone_unlink cleared found outlives).mono ?_)
    rintro r w₂ ⟨rfl, unlinked⟩
    exact alone_ret unlinked

theorem inode_nameless (empty : w.Empty cfg x) (nameless : ¬((w.servers j).entry p.id n ≠ none ∧ (p.id = x.id → w.Outlives cfg x j))) :
    ¬Alone cfg c (fun r _ => r.2 = .ok) (rmdirInode cfg' (fuel + 1) j p n x) w := by
  intro ends
  obtain ⟨s, done, dropped⟩ := Server.rmdir_force (has.usable _ has.home) (empty _ has.home)
  unfold rmdirInode at ends
  split_ifs at ends with notShared same
  · subst same
    have cleared : Cleared x.id (x.Asked cfg) w.servers (update w.servers x.server s) := cleared_home notShared dropped
    have absent := not_not.mp fun found => nameless (cleared.entry_iff.mp found)
    rw [update_self] at absent
    obtain ⟨st, removed, failed⟩ := Server.removemap_absent c absent
    have reply : Alone cfg c (fun r _ => r = st) (rpc x.server (.rmdirAndMap x.id p n)) w :=
      (alone_rpc (s := s) [] fun e => by
        simp only [Server.handle, Server.handleRmdirAndMap, done, ok_bind, removed, if_true]).mono fun _ _ known => known.1
    obtain ⟨r, w₁, isOk, rfl⟩ := ends.of_bind.meet reply
    exact failed (isOk w₁ .refl)
  · obtain ⟨r, w₁, rest, rfl, servers⟩ := ends.of_bind.meet (alone_rmdir done)
    rw [if_neg (by decide : ¬Status.ok ≠ Status.ok)] at rest
    obtain ⟨r, w₂, rest, failed⟩ := rest.of_bind.meet (alone_unlink_none (servers ▸ cleared_home notShared dropped) nameless)
    rw [decide_eq_false failed] at rest
    exact rest
  · obtain ⟨r, w₁, rest, rfl, cleared⟩ := ends.of_bind.meet (shared_cleared has count (not_not.mp notShared) empty)
    obtain ⟨r, w₂, isOk, failed⟩ := rest.of_bind.meet (alone_unlink_none cleared nameless)
    exact failed (isOk w₂ .refl)

end

end Rmdir
end Faux
