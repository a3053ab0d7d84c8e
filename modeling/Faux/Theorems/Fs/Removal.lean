import Faux.Theorems.Fs.Exclusive
import Faux.Theorems.Fs.Locks

/-! The two phases of `rmdir`, with all requests of a phase at once or one after the other, and the discipline of
    its locks. -/

namespace Faux
open Function Lib System

namespace Locks
open Cluster

variable {cfg cfg' : Config} {dir : FileId} {c : Nat} {g : List Nat} {child : InodeType} {id fuel : Nat}

/-! ### The loops -/

theorem fine_tryRmdir {i : Nat} {post : List Nat → Status → Prop} : ∀ {fuel : Nat},
    (i < cfg.serverCount → id = dir → (i ∉ g → post (i :: g) .ok) ∧ post g .notEmpty) →
      Fine cfg dir post c g (tryRmdir i id fuel) := by
  intro fuel next
  induction fuel with
  | zero => exact (by decide : Fault.fuel ≠ Fault.assertion)
  | succ fuel ih =>
    refine Ok.bind (fine_try fun bound isDir st => ⟨?_, ?_, ?_⟩)
    · rintro ⟨rfl, free⟩
      exact (next bound isDir).1 free
    · rintro rfl
      exact (next bound isDir).2
    · rintro rfl -
      exact ih

def Tried (g g' : List Nat) (results : List (Nat × Status)) : Prop :=
  (∀ r ∈ results, r.2 = .ok ∨ r.2 = .notEmpty) ∧ ∀ j, j ∈ g' ↔ j ∈ g ∨ (j, Status.ok) ∈ results

theorem fine_pick {n : Nat} {post : List Nat → Nat → Prop} (pos : 0 < n) (next : ∀ i < n, post g i) :
    Fine cfg dir post c g (perform (.pick n)) :=
  fine_local trivial (fun _ _ _ => by rintro ⟨⟩) fun _ _ _ r _ done => by
    cases done
    exact next _ (Nat.mod_lt _ pos)

theorem fine_gather_try (gathers : cfg.scatterGather = true) : ∀ {n : Nat} {servers g : List Nat}, servers.length = n →
    g ≠ [] → Fine cfg dir (fun g' results => (results.map (·.1)).Perm servers ∧ Tried g g' results) c g (gather id .try n servers) := by
  intro n
  induction n with
  | zero =>
    intro servers g length _
    obtain rfl := List.length_eq_zero_iff.mp length
    exact ⟨.refl _, by simp, by simp⟩
  | succ n ih =>
    intro servers g length some
    refine Ok.bind (fine_pick (by omega) fun i lt => ?_)
    have found : servers[i]? = .some (servers.get ⟨i, lt⟩) := List.getElem?_eq_getElem lt
    simp only [found]
    have perm : (servers.get ⟨i, lt⟩ :: servers.eraseIdx i).Perm servers := List.getElem_cons_eraseIdx_perm lt
    have rest : (servers.eraseIdx i).length = n := by
      rw [List.length_eraseIdx_of_lt lt]
      omega
    refine Ok.bind (fine_try fun _ _ st => ⟨?_, ?_, ?_⟩)
    · rintro ⟨rfl, -⟩
      refine Ok.bind ((ih rest (List.cons_ne_nil _ _)).mono ?_)
      rintro g' results ⟨keys, tried, held⟩
      refine ⟨(keys.cons _).trans perm, ?_, fun j => ?_⟩
      · rintro r (_ | ⟨_, mem⟩)
        · exact .inl rfl
        · exact tried r mem
      · rw [held j, List.mem_cons, List.mem_cons, Prod.mk.injEq]
        tauto
    · rintro rfl
      refine Ok.bind ((ih rest some).mono ?_)
      rintro g' results ⟨keys, tried, held⟩
      refine ⟨(keys.cons _).trans perm, ?_, fun j => ?_⟩
      · rintro r (_ | ⟨_, mem⟩)
        · exact .inr rfl
        · exact tried r mem
      · have differ : ¬Status.ok = Status.notEmpty := by decide
        rw [held j, List.mem_cons, Prod.mk.injEq]
        tauto
    · intro _ none
      exact absurd (none gathers) some

theorem fine_gather_release {phase : RmdirPhase} (release : phase = .fail ∨ phase = .success) :
    ∀ {n : Nat} {servers g : List Nat}, servers.length = n → servers.Nodup → (∀ j, j ∈ g ↔ j ∈ servers) →
      Fine cfg dir (fun g' results => g' = [] ∧ ∀ r ∈ results, r.2 = Status.ok) c g (gather id phase n servers) := by
  intro n
  induction n with
  | zero =>
    intro servers g length _ same
    obtain rfl := List.length_eq_zero_iff.mp length
    exact ⟨List.eq_nil_iff_forall_not_mem.mpr fun j mem => by simpa using (same j).mp mem, by simp⟩
  | succ n ih =>
    intro servers g length distinct same
    refine Ok.bind (fine_pick (by omega) fun i lt => ?_)
    have found : servers[i]? = some (servers.get ⟨i, lt⟩) := List.getElem?_eq_getElem lt
    simp only [found]
    have perm : (servers.get ⟨i, lt⟩ :: servers.eraseIdx i).Perm servers := List.getElem_cons_eraseIdx_perm lt
    have rest : (servers.eraseIdx i).length = n := by
      rw [List.length_eraseIdx_of_lt lt]
      omega
    obtain ⟨fresh, distinct'⟩ := List.nodup_cons.mp (perm.nodup_iff.mpr distinct)
    refine Ok.bind (fine_release ((same _).mpr (List.get_mem ..)) release fun nodup => ?_)
    refine Ok.bind ((ih rest distinct' fun j => ?_).mono ?_)
    · grind
    · rintro g' results ⟨none, ok⟩
      refine ⟨none, ?_⟩
      rintro r (_ | ⟨_, mem⟩)
      · rfl
      · exact ok r mem

theorem lookup_of_mem {results : List (Nat × Status)} {j : Nat} {st : Status} (nodup : (results.map (·.1)).Nodup)
    (mem : (j, st) ∈ results) : results.lookup j = some st := by
  induction results with
  | nil => cases mem
  | cons r results ih => grind

theorem phase_cases {p : Prop} [Decidable p] :
    (if p then RmdirPhase.success else .fail) = .fail ∨ (if p then RmdirPhase.success else .fail) = .success := by
  split
  · exact .inr rfl
  · exact .inl rfl

def Done (g : List Nat) (_ : Bool × Status) : Prop := g = []

theorem fine_rmdirGather (gathers : cfg.scatterGather = true) (count : cfg'.serverCount = cfg.serverCount) :
    Fine cfg dir Done c [] (rmdirGather cfg' fuel child) := by
  refine Ok.bind (fine_tryRmdir fun bound isDir => ⟨fun _ => ?_, rfl⟩)
  rw [if_neg (by decide : ¬Status.ok ≠ Status.ok)]
  refine Ok.bind ((fine_gather_try gathers rfl (List.cons_ne_nil _ _)).mono ?_)
  rintro g tried ⟨keys, known, held⟩
  -- the servers that the second phase goes to are those that have locked the directory
  have nodup : ((child.server, Status.ok) :: tried |>.map (·.1)).Nodup := by
    rw [List.map_cons, List.nodup_cons, keys.mem_iff, keys.nodup_iff]
    exact ⟨by simp, (List.nodup_range).filter _⟩
  have status : ∀ j st, (j, st) ∈ (child.server, Status.ok) :: tried → statusOf ((child.server, Status.ok) :: tried) j = st :=
    fun j st mem => by rw [statusOf, lookup_of_mem nodup mem, Option.getD_some]
  have targets : ∀ j, j ∈ g ↔ j ∈ (List.range cfg'.serverCount).filter
      fun i => statusOf ((child.server, Status.ok) :: tried) i ≠ .notEmpty := by
    intro j
    rw [held j, List.mem_singleton, List.mem_filter, List.mem_range, count]
    constructor
    · rintro (rfl | mem)
      · exact ⟨bound, by rw [status _ _ (List.mem_cons_self ..)]; decide⟩
      · have key : j ∈ tried.map (·.1) := List.mem_map_of_mem mem
        rw [keys.mem_iff, List.mem_filter, List.mem_range, count] at key
        exact ⟨key.1, by rw [status _ _ (List.mem_cons_of_mem _ mem)]; decide⟩
    · rintro ⟨lt, notEmpty⟩
      by_cases isChild : j = child.server
      · exact .inl isChild
      · have key : j ∈ tried.map (·.1) := keys.mem_iff.mpr (List.mem_filter.mpr ⟨List.mem_range.mpr (count ▸ lt), by simpa using isChild⟩)
        obtain ⟨⟨_, st⟩, mem, rfl⟩ := List.mem_map.mp key
        have isOk : st = .ok := (known _ mem).resolve_right fun isEmpty => by
          rw [status _ _ (List.mem_cons_of_mem _ mem), show st = _ from isEmpty] at notEmpty
          exact absurd notEmpty (by decide)
        exact .inr (isOk ▸ mem)
  refine Ok.bind ((fine_gather_release phase_cases rfl (List.nodup_range.filter _) targets).mono ?_)
  rintro g' done ⟨none, ok⟩
  refine Ok.bind (fine_ensure ?_ none)
  simpa using fun j st mem => ok (j, st) mem

theorem fine_tryAll (count : cfg'.serverCount = cfg.serverCount) : ∀ {n k : Nat} {g : List Nat},
    k + n = cfg.serverCount → (∀ j, j ∈ g ↔ j = child.server ∨ j < k) →
      Fine cfg dir (fun g' r => (∀ j, j ∈ g' ↔ j = child.server ∨ j < r.1) ∧
          (r.1 = cfg.serverCount ∧ r.2 = .ok ∨ r.1 ≠ child.server ∧ r.2 ≠ .ok))
        c g (tryAll cfg' fuel child (List.range' k n)) := by
  intro n
  induction n with
  | zero =>
    intro k g sum held
    obtain rfl : k = cfg.serverCount := sum
    exact ⟨by rw [count]; exact held, .inl ⟨count, rfl⟩⟩
  | succ n ih =>
    intro k g sum held
    rw [List.range'_succ, tryAll]
    by_cases isChild : k = child.server
    · grind
    · rw [if_neg isChild]
      refine Ok.bind (fine_tryRmdir fun _ _ => ⟨fun _ => ?_, ?_⟩)
      · grind
      · rw [if_pos (by decide : Status.notEmpty ≠ Status.ok)]
        exact ⟨held, .inr ⟨isChild, (by decide : Status.notEmpty ≠ Status.ok)⟩⟩

theorem fine_commitAll {phase : RmdirPhase} (release : phase = .fail ∨ phase = .success) :
    ∀ {servers g : List Nat}, servers.Nodup → (∀ j ∈ servers, j ∈ g) →
      Fine cfg dir (fun g' _ => ∀ j, j ∈ g' ↔ j ∈ g ∧ j ∉ servers) c g (commitAll child phase servers) := by
  intro servers
  induction servers with
  | nil => exact fun _ _ j => by simp
  | cons i servers ih =>
    intro g distinct mine
    obtain ⟨fresh, distinct'⟩ := List.nodup_cons.mp distinct
    refine Ok.bind (fine_release (mine i (List.mem_cons_self ..)) release fun nodup => Ok.bind (fine_ensure rfl ?_))
    refine (ih distinct' fun j mem => ?_).mono fun g' _ left j => ?_
    · exact nodup.mem_erase_iff.mpr ⟨fun isI => fresh (isI ▸ mem), mine j (List.mem_cons_of_mem _ mem)⟩
    · rw [left j, nodup.mem_erase_iff, List.mem_cons, not_or]
      tauto

theorem fine_rmdirSequence (count : cfg'.serverCount = cfg.serverCount) :
    Fine cfg dir Done c [] (rmdirSequence cfg' fuel child) := by
  refine Ok.bind (fine_tryRmdir fun bound isDir => ⟨fun _ => ?_, rfl⟩)
  rw [if_neg (by decide : ¬Status.ok ≠ Status.ok), List.range_eq_range']
  refine Ok.bind ((fine_tryAll count (by rw [count, Nat.zero_add]) fun j => by simp).mono ?_)
  rintro g ⟨contacted, retval⟩ ⟨held, outcome⟩
  refine Ok.bind ((fine_commitAll phase_cases List.nodup_range fun j mem => (held j).mpr (.inr (List.mem_range.mp mem))).mono ?_)
  intro g' _ left
  have members : ∀ j, j ∈ g' ↔ j = child.server ∧ ¬j < contacted := fun j => by
    rw [left j, held j, List.mem_range]
    show (j = child.server ∨ j < contacted) ∧ ¬j < contacted ↔ _
    tauto
  have release := phase_cases (p := retval = .ok)
  have failed : retval ≠ .ok → (if retval = .ok then RmdirPhase.success else .fail) = .fail := fun notOk => if_neg notOk
  generalize (if retval = .ok then RmdirPhase.success else .fail) = phase at *
  by_cases late : phase = .fail ∧ contacted < child.server
  · rw [if_pos late]
    -- the server of the directory comes after the one that has entries
    refine Ok.bind (fine_release ((members _).mpr ⟨rfl, by omega⟩) release fun nodup => Ok.bind (fine_ensure rfl ?_))
    refine List.eq_nil_iff_forall_not_mem.mpr fun j mem => ?_
    obtain ⟨ne, mem⟩ := nodup.mem_erase_iff.mp mem
    exact ne ((members j).mp mem).1
  · rw [if_neg late]
    refine List.eq_nil_iff_forall_not_mem.mpr fun j mem => ?_
    obtain ⟨rfl, past⟩ := (members j).mp mem
    rcases outcome with ⟨all, -⟩ | ⟨other, notOk⟩
    · exact past (Nat.lt_of_lt_of_eq bound all.symm)
    · exact late ⟨failed notOk, Nat.lt_of_le_of_ne (Nat.not_lt.mp past) other⟩

theorem fine_rmdirInode {dirEntryServer : Nat} {parent : InodeType} {path : Name} (count : cfg'.serverCount = cfg.serverCount)
    (mode : cfg'.scatterGather = cfg.scatterGather) :
    Fine cfg dir Done c [] (rmdirInode cfg' fuel dirEntryServer parent path child) := by
  simp only [rmdirInode]
  split
  · -- not a shared directory
    split
    · exact Ok.bind (Ok.act fun _ _ _ _ _ allowed => allowed.elim)
    · exact Ok.bind (Ok.act fun _ _ _ _ _ allowed => absurd rfl allowed.2.2.1)
  · have shared : Fine cfg dir Done c [] (rmdirShared cfg' fuel child) := by
      simp only [rmdirShared, mode]
      split
      · next gathers => exact fine_rmdirGather gathers count
      · exact fine_rmdirSequence count
    refine Ok.bind (shared.mono ?_)
    rintro g ⟨committed, retval⟩ (rfl : g = [])
    simp only
    split
    · exact Ok.bind (fine_removeMap fun _ => rfl)
    · rfl

theorem fine_remove {p : FileId} {n : Name} {post : List Nat → Unit → Prop} (next : post g ()) :
    Fine cfg dir post c g (perform (.remove p n)) :=
  fine_local trivial (fun _ _ _ => by rintro ⟨⟩) fun _ _ _ _ _ _ => next

theorem fine_fosRmdir {parent : InodeType} {path : Name} (count : cfg'.serverCount = cfg.serverCount)
    (mode : cfg'.scatterGather = cfg.scatterGather) (isDir : parent.type.isDir = true) :
    Fine cfg dir (fun g _ => g = []) c [] (fosRmdir cfg' fuel parent path) := by
  simp only [fosRmdir]
  split
  · exact (by decide : Fault.undefined ≠ Fault.assertion)
  · refine Ok.bind ((fine_lookupParent isDir).mono ?_)
    rintro g ⟨found, rest⟩ ⟨rfl, isDir'⟩
    simp only
    split
    · rfl
    · obtain ⟨server, owner⟩ := pathOwner_dir cfg' rest isDir'
      simp only [owner, Prog.lift, Prog.ret_bind]
      refine Ok.bind ((fine_lookup isDir').mono ?_)
      rintro g child ⟨rfl, -⟩
      split
      · rfl
      · refine Ok.bind ((fine_rmdirInode count mode).mono ?_)
        rintro g ⟨committed, retval⟩ (rfl : g = [])
        simp only
        split
        · exact Ok.bind (fine_remove (Ok.bind (fine_remove rfl)))
        · rfl

theorem sound : Sound (fsSystem cfg) (lockRules cfg dir) (spec dir) where
  call v ghost c o inv idle allowed := by
    obtain ⟨parent, path, fuel, rfl, isDir⟩ := allowed
    refine ⟨[], ?_, fine_fosRmdir rfl rfl isDir⟩
    have same : update ghost c [] = ghost := update_eq_self_iff.mpr (show ghost c = [] from idle).symm
    rw [same]
    exact ⟨inv.ok, inv.held_update (show ghost c = [] from idle).symm, inv.owner, inv.unique, inv.nodup, inv.own_update .nil, inv.returned⟩
  ret v ghost c x inv post := by
    have none : ghost c = [] := post
    refine ⟨[], ?_, rfl⟩
    have same : update ghost c [] = ghost := update_eq_self_iff.mpr none.symm
    rw [same]
    refine ⟨inv.ok, inv.held_update none.symm, inv.owner, inv.unique, inv.nodup, inv.own_update .nil, fun r mem => ?_⟩
    rcases List.mem_append.mp mem with old | new
    · exact inv.returned r old
    · cases List.mem_singleton.mp new
      exact ⟨inv.own c, (inv.held c).trans none⟩
  intern v ghost j w inv done := by
    have servers := (intern_files done).1
    exact ⟨by rw [servers]; exact inv.ok, inv.held, by rw [servers]; exact inv.owner, inv.unique, inv.nodup, inv.own, inv.returned⟩

end Locks

namespace Cluster
open Locks
variable {dir : FileId} {cfg : Config}

theorem lockDiscipline_of_rules (cfg : Config) (dir : FileId) (s : FsConf)
    (reach : Reach (fun s : FsConf => s.Start ∧ s.world.Unlocked dir) (lockRules cfg dir).Allow (fsSystem cfg).step s) :
    s.LockDiscipline dir ∧ NoFault (fsSystem cfg) (lockRules cfg dir) (fun err => err ≠ .assertion) s := by
  have safe : Safe (fsSystem cfg) (lockRules cfg dir) (spec dir) s := by
    refine safe_of_reach sound (fun s start => ?_) reach
    obtain ⟨start, unlocked⟩ := start
    refine ⟨fun _ => [], ⟨fun i => ⟨unlocked.dirOnly i, fun locked => absurd locked (unlocked.free i)⟩, fun c => ?_, fun i => ?_,
      fun _ _ _ mem => (by cases mem), fun _ => .nil, fun c => ?_, fun r mem => ?_⟩, fun c => ?_⟩
    · rw [start.hist c]
      rfl
    · exact ⟨fun locked => absurd locked (unlocked.free i), fun held => by simp at held⟩
    · rw [start.hist c]
      exact .nil
    · rw [start.log] at mem
      cases mem
    · rw [start.call c]
      rfl
  refine ⟨?_, safe.noFault⟩
  obtain ⟨ghost, inv, -⟩ := safe
  refine ⟨fun i => ?_, fun i c c' => ?_, inv.own, inv.returned⟩
  · simp only [inv.held]
    exact inv.owner i
  · simp only [inv.held]
    exact inv.unique i c c'

/-! ### Two clients -/

def isLocked (s : Server) (dir : FileId) : Bool :=
  match s.files.lookup dir with
  | some (.dir d) => d.locked
  | _ => false

theorem locked_of_check {s : Server} (locked : s.Locked dir) : isLocked s dir = true := by
  obtain ⟨d, found, isLocked'⟩ := locked
  simpa [isLocked, found] using isLocked'

def checkLock (cfg : Config) (dir : FileId) (v : FsScene) (c : Nat) : Action → Bool
  | .find p n => ((v.world.clients c).cache.lookup (p, n)).all fun x => x.type.isDir
  | .rpc i (.resolve p n) => n ≠ "" && ((v.world.servers i).entry p n).all fun x => x.type.isDir
  | .rpc i (.rmdir id phase) => i < cfg.serverCount && id = dir && phase ≠ .force &&
    (phase ≠ .try || heldLocks dir (v.hist c) = [] || !isLocked (v.world.servers i) dir)
  | .rpc _ (.rmdirAndMap ..) => false
  | _ => true

theorem lockRules_of_check {v : FsScene} {c : Nat} {e : Env} {a : Action}
    (checked : checkLock cfg dir v c a = true) : (lockRules cfg dir).acts v c e a := by
  cases a with
  | find p n =>
    intro x found
    simpa [checkLock, found] using checked
  | rpc i q =>
    cases q with
    | resolve p n =>
      simp only [checkLock, Bool.and_eq_true, decide_eq_true_eq] at checked
      refine ⟨checked.1, fun x found => ?_⟩
      simpa [found] using checked.2
    | rmdir id phase =>
      simp only [checkLock, Bool.and_eq_true, Bool.or_eq_true, decide_eq_true_eq] at checked
      obtain ⟨⟨⟨bound, isDir⟩, notForce⟩, free⟩ := checked
      refine ⟨bound, isDir, notForce, fun _ isTry holds locked => ?_⟩
      rw [locked_of_check locked] at free
      exact free.elim (fun h => h.elim (fun notTry => notTry isTry) holds) (by simp)
    | rmdirAndMap id parent path => cases checked
    | _ => trivial
  | _ => trivial

def removeD : Op := .rmdir root "d" 5

def checkLocks (cfg : Config) (dir : FileId) (s : FsConf) (l : FsLabel) : Bool :=
  checkAllow
    (fun _ _ o =>
      match o with
      | .rmdir parent _ _ => parent.type.isDir
      | _ => false)
    (fun v c _ a => checkLock cfg dir v c a) s l

theorem allow_of_checkLocks (s : FsConf) (l : FsLabel) (checked : checkLocks cfg dir s l = true) :
    (lockRules cfg dir).Allow s l := by
  refine allow_of_check (fun v c o checked => ?_) (fun _ _ _ _ checked => lockRules_of_check checked) s l checked
  split at checked
  · next parent path fuel => exact ⟨parent, path, fuel, rfl, checked⟩
  · cases checked

def withD : Cluster where
  servers i :=
    if i = 0 then
      { Server.boot 0 { start := 0, blocks := [], blocksFree := 0 } fun _ => 0 with
        nextLoc := 2
        files := (AList.singleton 7 (.dir (Dir.new false 1023))).insert 0 (.dir { Dir.new true 493 with
          children := AList.singleton "d" { loc := 1, inode := { server := 0, id := 7, type := .dirShared } } }) }
    else Server.boot i { start := 0, blocks := [], blocksFree := 0 } fun _ => 0
  clients _ := { cache := ∅, inbox := [], files := ∅, nextFile := 0 }

theorem unlocked_withD : withD.Unlocked 7 := by
  have lookup : ∀ i v, (withD.servers i).files.lookup 7 = some v → v = .dir (Dir.new false 1023) := by
    intro i v found
    by_cases zero : i = 0
    · subst zero
      exact (Option.some.inj found).symm
    · simp only [withD, if_neg zero, Server.boot] at found
      cases found
  refine ⟨fun i v found => ?_, fun i => ?_⟩
  · rw [lookup i v found]
    rfl
  · rintro ⟨d, found, locked⟩
    cases lookup i _ found
    cases locked

def removal : List FsLabel := plain 0 removeD 15 0

theorem run_removal : (run (fsSystem twoServers).step (idle withD) removal).map (fun s => s.log.map (·.result)) =
    some [Status.ok] := by decide +kernel

theorem checked_removal : checkRun (checkLocks twoServers 7) (fsSystem twoServers).step (idle withD) removal = true := by decide +kernel

theorem lockDiscipline_removal : ∃ s, Reach (fun s : FsConf => s.Start ∧ s.world.Unlocked 7) (lockRules twoServers 7).Allow
      (fsSystem twoServers).step s ∧ s.log.map (·.result) = [Status.ok] ∧
    s.LockDiscipline 7 ∧ NoFault (fsSystem twoServers) (lockRules twoServers 7) (fun err => err ≠ .assertion) s := by
  obtain ⟨s, ran, results⟩ := Option.map_eq_some_iff.mp run_removal
  have reach : Reach (fun s : FsConf => s.Start ∧ s.world.Unlocked 7) (lockRules twoServers 7).Allow (fsSystem twoServers).step s :=
    (Reach.init ⟨start_idle, unlocked_withD⟩).of_guarded (guarded_of_check allow_of_checkLocks _ checked_removal) ran
  exact ⟨s, reach, results, lockDiscipline_of_rules twoServers 7 s reach⟩

def stuck (cfg : Config) (s : FsConf) (c : Nat) (e : Env) : Bool :=
  match s.call c with
  | some (.act a _) =>
    match s.world.exec cfg c e a with
    | .error .assertion => true
    | _ => false
  | _ => false

theorem not_noFault {P : Op → Prop} {s : FsConf} {c : Nat} {e : Env} (isStuck : stuck cfg s c e = true) :
    ¬NoFault (fsSystem cfg) (onCalls P : FsRules) (fun err => err ≠ .assertion) s := by
  intro noFault
  simp only [stuck] at isStuck
  split at isStuck
  · next a k isAct =>
    split at isStuck
    · next failed => exact (noFault c).2 a k e .assertion isAct trivial failed rfl
    · cases isStuck
  · cases isStuck

def quiet : Env := { rand := 0, rand' := 0, stats := [] }

/-- Client 0 has locked both servers and removes the directory at server 0. Client 1 locks what it finds there, does
    not get the lock of server 1, and releases it. -/
def stolen : List FsLabel :=
  .call 0 removeD :: List.replicate 10 (.act 0 quiet) ++ .call 1 removeD :: List.replicate 12 (.act 1 quiet) ++ [.act 0 quiet]

theorem run_stolen : (run (fsSystem twoServers).step (idle withD) stolen).map
    (fun s => (heldLocks 7 (s.hist 0), isLocked (s.world.servers 1) 7, stuck twoServers s 0 quiet)) = some ([1], false, true) := by
  decide +kernel

theorem allow_stolen : ∀ l ∈ stolen, ∀ s : FsConf, (onCalls (· = removeD) : FsRules).Allow s l := by
  intro l mem s
  simp only [stolen, List.mem_append, List.mem_cons, List.mem_replicate, List.not_mem_nil, or_false] at mem
  rcases mem with ((rfl | ⟨-, rfl⟩) | rfl | ⟨-, rfl⟩) | rfl
  all_goals first | exact rfl | exact fun _ _ _ => trivial

/-- The lock of client 0 at server 1 has been released by client 1, and its own request fails an assertion. -/
theorem exists_stolen_lock : ∃ s, Reach (fun s : FsConf => s.Start ∧ s.world.Unlocked 7) (onCalls (· = removeD) : FsRules).Allow
      (fsSystem twoServers).step s ∧ ¬s.LockDiscipline 7 ∧
    ¬NoFault (fsSystem twoServers) (onCalls (· = removeD) : FsRules) (fun err => err ≠ .assertion) s := by
  obtain ⟨s, ran, view⟩ := Option.map_eq_some_iff.mp run_stolen
  simp only [Prod.mk.injEq] at view
  obtain ⟨held, free, isStuck⟩ := view
  refine ⟨s, (Reach.init ⟨start_idle, unlocked_withD⟩).of_guarded (guarded_of_forall allow_stolen _) ran, fun discipline => ?_,
    not_noFault isStuck⟩
  have locked := (discipline.owner 1).mpr ⟨0, by rw [held]; exact List.mem_singleton_self 1⟩
  rw [locked_of_check locked] at free
  cases free

end Cluster
end Faux
