import Faux.Theorems.Fs.Counts
import Faux.Theorems.Fs.Orphans

/-! What a request does to descriptors and pipe ends, told by its events, and the uniqueness of descriptor ids over whole runs. -/

namespace Faux
open Function Lib
namespace Server
variable {s t u : Server} {env : Env} {app : AppId} {id : FileId} {fd : Fd} {cfg : Config} {flags : Flags} {mode : Nat} {path : Name}
  {q : Request}

/-! ### One request -/

inductive Effect (env : Env) (q : Request) (s t : Server) : List FdEvent → Prop
  | none : t.inodeOf = s.inodeOf → t.ends = s.ends → Effect env q s t []
  | opened (fd : Fd) (id : FileId) : newFds env q = [fd] → t.inodeOf = update s.inodeOf fd (some id) → t.ends = s.ends →
    Effect env q s t [.opened fd id]
  | piped (r w : Fd) : q = .pipe → newFds env q = [r, w] →
    t.inodeOf = update (update s.inodeOf r (some s.newId)) w (some s.newId) →
    t.ends = update s.ends s.newId (some (r, w)) → Effect env q s t [.piped s.newId r w]
  | closed (fd : Fd) : newFds env q = [] → (∀ x, x ≠ fd → t.inodeOf x = s.inodeOf x) →
    (∀ id r w, s.ends id = some (r, w) → r ≠ fd → r ≠ 0 → ∃ w', t.ends id = some (r, w')) →
    (∀ id r w, s.ends id = some (r, w) → w ≠ fd → w ≠ 0 → ∃ r', t.ends id = some (r', w)) →
    (∀ id, s.ends id = none → t.ends id = none) → Effect env q s t [.closed fd]

theorem inodeOf_addFd {offset : Nat} (same : u.fds = s.fds) : (u.addFd fd id offset).inodeOf = update s.inodeOf fd (some id) := by
  funext x
  unfold inodeOf addFd
  by_cases isFd : x = fd
  · rw [isFd, AList.lookup_insert, update_self]
    rfl
  · rw [AList.lookup_insert_ne isFd, update_of_ne isFd, same]

theorem SameCounts.effect (same : SameCounts s t) : Effect env q s t [] := .none (funext same.inodes) same.ends

theorem closePipe_ends (done : s.closePipe fd id = .ok t) {x : FileId} {r w : Fd} (found : s.ends x = some (r, w))
    (still : r ≠ fd ∧ r ≠ 0 ∨ w ≠ fd ∧ w ≠ 0) :
    t.ends x = some (r, w) ∨ t.ends x = some (if r = fd then 0 else r, if w = fd then 0 else w) := by
  obtain ⟨p, q, isPipe, reads, writes, rfl⟩ := closePipe_inv done
  unfold ends at found ⊢
  by_cases isId : x = id
  · subst isId
    right
    rw [isPipe, Option.map_some, Option.some.injEq, Prod.mk.injEq] at found
    obtain ⟨rfl, rfl⟩ := found
    have kept : ¬(q.readFd = 0 ∧ q.writeFd = 0) := by grind
    rw [if_neg kept, AList.lookup_insert, Option.map_some, reads, writes]
  · left
    simp only
    split_ifs
    · rwa [AList.lookup_erase_ne isId]
    · rwa [AList.lookup_insert_ne isId]

theorem closePipe_none (done : s.closePipe fd id = .ok t) {x : FileId} (absent : s.ends x = none) : t.ends x = none := by
  obtain ⟨p, q, isPipe, -, -, rfl⟩ := closePipe_inv done
  unfold ends at absent ⊢
  have other : x ≠ id := by
    rintro rfl
    rw [isPipe] at absent
    cases absent
  simp only
  split_ifs
  · rwa [AList.lookup_erase_ne other]
  · rwa [AList.lookup_insert_ne other]

theorem close_effect {offset size : Option Nat} (done : s.close fd offset size = .ok t) : Effect env (.close fd offset size) s t [.closed fd] := by
  obtain ⟨d, d', found, rfl, ⟨-, u, last, rfl⟩ | ⟨-, more⟩⟩ := close_inv done
  · have fds : u.fds = s.fds := (closeFile_fds last).2
    have ends : (∀ x r w, s.ends x = some (r, w) → r ≠ fd → r ≠ 0 → ∃ w', u.ends x = some (r, w')) ∧
        (∀ x r w, s.ends x = some (r, w) → w ≠ fd → w ≠ 0 → ∃ r', u.ends x = some (r', w)) ∧ ∀ x, s.ends x = none → u.ends x = none := by
      rcases closeFile_cases last with same | closed
      · rw [same.ends]
        exact ⟨fun x r w found _ _ => ⟨w, found⟩, fun x r w found _ _ => ⟨r, found⟩, fun x none => none⟩
      · refine ⟨?_, ?_, fun x => closePipe_none closed⟩
        · intro x r w found ne still
          have after := closePipe_ends closed found (.inl ⟨ne, still⟩)
          rw [if_neg ne] at after
          exact after.elim (fun is => ⟨_, is⟩) fun is => ⟨_, is⟩
        · intro x r w found ne still
          have after := closePipe_ends closed found (.inr ⟨ne, still⟩)
          rw [if_neg ne] at after
          exact after.elim (fun is => ⟨_, is⟩) fun is => ⟨_, is⟩
    refine .closed fd rfl (fun x ne => ?_) ends.1 ends.2.1 ends.2.2
    unfold inodeOf
    rw [AList.lookup_erase_ne ne, fds]
  · have shared : ∀ v : Server, v.inodeOf = ({ s with fds := s.fds.insert fd { d with count := sizeSub d.count 1, offset := offset.getD d.offset } } : Server).inodeOf →
        v.ends = s.ends → Effect env (.close fd offset size) s v [.closed fd] := by
      intro v inodes ends
      refine .closed fd rfl (fun x ne => ?_) ?_ ?_ ?_
      · rw [inodes]
        unfold inodeOf
        rw [AList.lookup_insert_ne ne]
      · rw [ends]
        exact fun x r w found _ _ => ⟨w, found⟩
      · rw [ends]
        exact fun x r w found _ _ => ⟨r, found⟩
      · rw [ends]
        exact fun x none => none
    rcases closeShared_inv more with ⟨-, rfl⟩ | ⟨n, -, set⟩
    · exact shared _ rfl rfl
    · have same := setFileSize_sameFds set
      exact shared t (funext fun x => by unfold inodeOf; rw [same.fds]) same.ends

theorem open_effect {reply : Opened} (new : newFds env q = [env.rand]) (done : s.open env id flags = .ok (t, reply)) :
    Effect env q s t (match reply.fd with | some fd => [.opened fd id] | none => []) := by
  rcases open_added done with ⟨none, same⟩ | ⟨some, -, u, offset, same, rfl⟩
  · rw [none]
    exact same.sameCounts.effect
  · rw [some]
    exact .opened env.rand id new (inodeOf_addFd same.fds) same.ends

theorem createOpen_effect {parent : Inode} {reply : OpenReply} (done : s.handleCreateOpen env app parent.id path flags mode = .ok (t, reply)) :
    Effect env (.createOpen parent path flags mode) s t ((Request.createOpen parent path flags mode).events reply) := by
  rcases createOpen_added done with ⟨none, same⟩ | ⟨some, -, child, u, offset, exist, -, same, rfl⟩
  · rw [Request.events, none]
    exact same.sameCounts.effect
  · rw [Request.events, some, exist]
    exact .opened env.rand child.id rfl (inodeOf_addFd same.fds) same.ends

theorem pipe_effect : Effect env .pipe s (s.pipe env).1 [.piped s.newId env.rand env.rand'] := by
  refine .piped env.rand env.rand' rfl rfl ?_ ?_
  · rw [← inodeOf_addFd (u := { s with pipes := _, inodeSeq := s.inodeSeq + 1 }) (s := s) rfl]
    exact inodeOf_addFd rfl
  · funext x
    unfold ends pipe addFd
    by_cases isNew : x = s.newId
    · rw [isNew, AList.lookup_insert, update_self]
      rfl
    · rw [AList.lookup_insert_ne isNew, update_of_ne isNew]

theorem handle_effect {reply : q.Reply} {ns : List Notify} (done : s.handle cfg env app q = .ok (t, reply, ns)) :
    Effect env q s t (q.events reply) := by
  cases q with
  | pipe =>
    cases done
    exact pipe_effect
  | «open» id flags => exact open_effect rfl (handle_open_inv done)
  | createOpen parent path flags mode => exact createOpen_effect (answered done)
  | close fd offset size => exact close_effect (handle_close_inv done)
  | dup fd =>
    have dupped : s.dup fd = (t, reply) := by cases done; rfl
    rcases dup_inv dupped with ⟨rfl, -, -⟩ | ⟨d, i, found, rfl, -⟩
    · exact SameCounts.refl.effect
    · refine .none (funext fun x => ?_) rfl
      unfold inodeOf
      rw [lookup_insert_eq]
      split_ifs with isFd
      · rw [isFd, found]
        rfl
      · rfl
  | _ => exact (handle_sameCounts rfl done).effect

theorem inodeOf_eq_none (absent : fd ∉ s.fds) : s.inodeOf fd = none := by
  rw [inodeOf, AList.lookup_eq_none.mpr absent]
  rfl

end Server

/-! ### Runs -/

namespace FdLog
variable {s t : FdLog} {v : Server} {e : FdEvent}

theorem split_snoc {log before after : List FdEvent} {x : FdEvent} (same : log ++ [e] = before ++ x :: after) :
    (after = [] ∧ before = log ∧ x = e) ∨ ∃ rest, after = rest ++ [e] ∧ log = before ++ x :: rest := by
  rcases List.eq_nil_or_concat after with rfl | ⟨rest, y, rfl⟩
  · obtain ⟨rfl, last⟩ := List.append_inj' same rfl
    cases last
    exact .inl ⟨rfl, rfl, rfl⟩
  · rw [List.concat_eq_append, ← List.cons_append, ← List.append_assoc] at same
    obtain ⟨rfl, last⟩ := List.append_inj' same rfl
    cases last
    exact .inr ⟨rest, List.concat_eq_append, rfl⟩

theorem Unique.snoc (unique : Unique s) (nonzero : ∀ g ∈ e.gives, g.1 ≠ 0) (distinct : (e.gives.map (·.1)).Nodup)
    (fresh : ∀ g ∈ e.gives, s.server.inodeOf g.1 = none) (given : ∀ g ∈ e.gives, v.inodeOf g.1 = some g.2)
    (live : ∀ fd id, s.server.inodeOf fd = some id → e ≠ .closed fd → v.inodeOf fd = some id)
    (piped : ∀ id r w, e = .piped id r w → v.ends id = some (r, w))
    (readEnd : ∀ id r w, s.server.ends id = some (r, w) → r ≠ 0 → e ≠ .closed r → ∃ w', v.ends id = some (r, w'))
    (writeEnd : ∀ id r w, s.server.ends id = some (r, w) → w ≠ 0 → e ≠ .closed w → ∃ r', v.ends id = some (r', w)) :
    Unique { server := v, log := s.log ++ [e] } where
  nonzero x mem g gives := by
    rcases List.mem_append.mp mem with mem | mem
    · exact unique.nonzero x mem g gives
    · rw [List.mem_singleton.mp mem] at gives
      exact nonzero g gives
  distinct x mem := by
    rcases List.mem_append.mp mem with mem | mem
    · exact unique.distinct x mem
    · rw [List.mem_singleton.mp mem]
      exact distinct
  fresh before x between y after same g gives g' gives' eq := by
    rw [← List.cons_append, ← List.append_assoc] at same
    rcases split_snoc same with ⟨-, isLog, rfl⟩ | ⟨rest, -, isLog⟩
    · -- the descriptor would still be live
      by_contra notClosed
      have live := unique.live before x between isLog.symm g gives notClosed
      rw [eq, fresh g' gives'] at live
      cases live
    · refine unique.fresh before x between y rest ?_ g gives g' gives' eq
      rw [isLog, List.append_assoc, List.cons_append]
  live before x after same g gives notClosed := by
    rcases split_snoc same with ⟨-, -, rfl⟩ | ⟨rest, rfl, isLog⟩
    · exact given g gives
    · have still := unique.live before x rest isLog g gives fun mem => notClosed (List.mem_append_left _ mem)
      refine live g.1 g.2 still fun isClosed => notClosed ?_
      rw [isClosed]
      exact List.mem_append_right _ (List.mem_singleton_self _)
  readEnd before id r w after same notClosed := by
    rcases split_snoc same with ⟨-, -, is⟩ | ⟨rest, rfl, isLog⟩
    · exact ⟨w, piped id r w is.symm⟩
    · obtain ⟨w', still⟩ := unique.readEnd before id r w rest isLog fun mem => notClosed (List.mem_append_left _ mem)
      have notZero : r ≠ 0 := unique.nonzero (.piped id r w) (isLog ▸ List.mem_append_right _ (List.mem_cons_self ..)) (r, id) (by simp [FdEvent.gives])
      refine readEnd id r w' still notZero fun isClosed => notClosed ?_
      rw [isClosed]
      exact List.mem_append_right _ (List.mem_singleton_self _)
  writeEnd before id r w after same notClosed := by
    rcases split_snoc same with ⟨-, -, is⟩ | ⟨rest, rfl, isLog⟩
    · exact ⟨r, piped id r w is.symm⟩
    · obtain ⟨r', still⟩ := unique.writeEnd before id r w rest isLog fun mem => notClosed (List.mem_append_left _ mem)
      have notZero : w ≠ 0 := unique.nonzero (.piped id r w) (isLog ▸ List.mem_append_right _ (List.mem_cons_self ..)) (w, id) (by simp [FdEvent.gives])
      refine writeEnd id r' w still notZero fun isClosed => notClosed ?_
      rw [isClosed]
      exact List.mem_append_right _ (List.mem_singleton_self _)

theorem Unique.congr (unique : Unique s) (inodes : v.inodeOf = s.server.inodeOf) (ends : v.ends = s.server.ends) :
    Unique { server := v, log := s.log } where
  nonzero := unique.nonzero
  distinct := unique.distinct
  fresh := unique.fresh
  live before x after same g gives notClosed := by
    show v.inodeOf g.1 = some g.2
    rw [inodes]
    exact unique.live before x after same g gives notClosed
  readEnd before id r w after same notClosed := by
    show ∃ w', v.ends id = some (r, w')
    rw [ends]
    exact unique.readEnd before id r w after same notClosed
  writeEnd before id r w after same notClosed := by
    show ∃ r', v.ends id = some (r', w)
    rw [ends]
    exact unique.writeEnd before id r w after same notClosed

theorem update_live {fd x : Fd} {id i : FileId} {f : Fd → Option FileId} (fresh : f x = none) (live : f fd = some id) :
    update f x (some i) fd = some id := by
  have ne : fd ≠ x := by
    rintro rfl
    rw [fresh] at live
    cases live
  rw [update_of_ne ne, live]

theorem Unique.step {cfg : Config} {a : Server.Act} (unique : Unique s) (guard : Guard s a) (stepped : s.step cfg a = some t) : Unique t := by
  unfold FdLog.step at stepped
  split at stepped
  · next u r ns handled =>
    cases stepped
    have fresh : ∀ fd ∈ Server.newFds a.env a.req, s.server.inodeOf fd = none := fun fd mem => Server.inodeOf_eq_none (guard.fresh fd mem)
    have effect := Server.handle_effect handled
    generalize a.req.events r = es at effect
    cases effect with
    | none inodes ends =>
      rw [List.append_nil]
      exact unique.congr inodes ends
    | opened fd id new inodes ends =>
      have isNew : fd ∈ Server.newFds a.env a.req := new ▸ List.mem_singleton_self fd
      refine unique.snoc (by simpa [FdEvent.gives] using guard.nonzero fd isNew) (by simp [FdEvent.gives]) ?_ ?_ ?_ ?_ ?_ ?_
      · simpa [FdEvent.gives] using fresh fd isNew
      · simp [FdEvent.gives, inodes]
      · intro x i live _
        rw [inodes]
        exact update_live (fresh fd isNew) live
      · intro _ _ _ is
        cases is
      · intro i r w found _ _
        exact ⟨w, ends ▸ found⟩
      · intro i r w found _ _
        exact ⟨r, ends ▸ found⟩
    | piped r w isPipe new inodes ends =>
      have isNew : r ∈ Server.newFds a.env a.req ∧ w ∈ Server.newFds a.env a.req := by simp [new]
      have ne : r ≠ w := by
        have nodup := guard.distinct
        rw [new] at nodup
        simpa using nodup
      have newW : update s.server.inodeOf r (some s.server.newId) w = none := by
        rw [update_of_ne ne.symm]
        exact fresh w isNew.2
      have unused : s.server.ends s.server.newId = none := by
        rw [Server.ends, AList.lookup_eq_none.mpr (guard.pipe isPipe)]
        rfl
      have old : ∀ i x, s.server.ends i = some x → u.ends i = some x := by
        intro i x found
        have other : i ≠ s.server.newId := by
          rintro rfl
          rw [unused] at found
          cases found
        rw [ends, update_of_ne other, found]
      refine unique.snoc ?_ (by simpa [FdEvent.gives] using ne) ?_ ?_ ?_ ?_ ?_ ?_
      · simpa [FdEvent.gives] using ⟨guard.nonzero r isNew.1, guard.nonzero w isNew.2⟩
      · simpa [FdEvent.gives] using ⟨fresh r isNew.1, fresh w isNew.2⟩
      · simp [FdEvent.gives, inodes, update_of_ne ne]
      · intro x i live _
        rw [inodes]
        exact update_live newW (update_live (fresh r isNew.1) live)
      · intro i r' w' is
        cases is
        rw [ends, update_self]
      · exact fun i r w found _ _ => ⟨w, old i _ found⟩
      · exact fun i r w found _ _ => ⟨r, old i _ found⟩
    | closed fd new inodes reads writes made =>
      refine unique.snoc (by simp [FdEvent.gives]) (by simp [FdEvent.gives]) (by simp [FdEvent.gives]) (by simp [FdEvent.gives]) ?_ ?_ ?_ ?_
      · grind
      · intro _ _ _ is
        cases is
      · exact fun i r w found open' other => reads i r w found (fun same => other (same ▸ rfl)) open'
      · exact fun i r w found open' other => writes i r w found (fun same => other (same ▸ rfl)) open'
  · cases stepped

/-- Descriptor ids are unique in every run in which `rand()` gives values for new descriptors that are not 0, not equal and not in
    use, and in which ids of pipes are not given twice. -/
theorem unique_of_guarded (cfg : Config) {s : FdLog} (reach : Reach Start Guard (step cfg) s) : Unique s := by
  have first : ∀ s, Start s → Unique s := by
    rintro ⟨server, log⟩ ⟨-, -, rfl⟩
    constructor <;> simp
  have next : ∀ s t a, Unique s → Guard s a → step cfg s a = some t → Unique t := fun s t a unique guard stepped => unique.step guard stepped
  exact reach.invariant first next

/-! ### A run with fresh values, and two runs in which `rand()` repeats a value or gives 0 -/

def booted : FdLog := { server := Server.booted, log := [] }

theorem start_booted : Start booted := ⟨rfl, rfl, rfl⟩

def draw (rand rand' : Nat) (req : Request) : Server.Act := { env := { rand, rand', stats := [] }, app := 0, req }

def createFile (rand : Nat) (name : Name) : Server.Act := draw rand 0 (.createOpen { server := 0, id := 0 } name { creat := true } 420)

def checkGuard (s : FdLog) (a : Server.Act) : Bool :=
  decide ((∀ fd ∈ Server.newFds a.env a.req, fd ≠ 0) ∧ (Server.newFds a.env a.req).Nodup ∧ (∀ fd ∈ Server.newFds a.env a.req, fd ∉ s.server.fds) ∧
    s.server.newId ∉ s.server.pipes)

theorem guard_of_check (s : FdLog) (a : Server.Act) (checked : checkGuard s a = true) : Guard s a := by
  obtain ⟨nonzero, distinct, fresh, pipe⟩ := of_decide_eq_true checked
  exact ⟨nonzero, distinct, fresh, fun _ => pipe⟩

def openAndPipe : List Server.Act := [createFile 5 "a", draw 6 7 .pipe, draw 0 0 (.close 6 none none)]

theorem unique_openAndPipe : ∃ s, Reach Start Guard (step Server.oneServer) s ∧
    (s.server.inodeOf 5, s.server.ends 3) = (some 2, some (0, 7)) ∧ Unique s := by
  have guarded : Guarded Guard (step Server.oneServer) booted openAndPipe := guarded_of_check guard_of_check _ (by decide +kernel)
  have ran : (run (step Server.oneServer) booted openAndPipe).map (fun s => (s.server.inodeOf 5, s.server.ends 3)) = some (some 2, some (0, 7)) := by
    decide +kernel
  obtain ⟨s, ran, seen⟩ := Option.map_eq_some_iff.mp ran
  have reach : Reach Start Guard (step Server.oneServer) s := .of_guarded (.init start_booted) guarded ran
  exact ⟨s, reach, seen, unique_of_guarded Server.oneServer reach⟩

/-- A second file gets the descriptor of the first one, which is open. A pipe is made with the value 0 for its read end. -/
theorem exists_not_unique :
    (∃ s, Reach Start (fun _ _ => True) (step Server.oneServer) s ∧ s.log = [.opened 5 2, .opened 5 3] ∧ s.server.inodeOf 5 = some 3 ∧ ¬Unique s) ∧
    ∃ s, Reach Start (fun _ _ => True) (step Server.oneServer) s ∧ s.log = [.piped 2 0 7] ∧ s.server.ends 2 = some (0, 7) ∧ ¬Unique s := by
  constructor
  · have ran : (run (step Server.oneServer) booted [createFile 5 "a", createFile 5 "b"]).map (fun s => (s.log, s.server.inodeOf 5)) =
        some ([.opened 5 2, .opened 5 3], some 3) := by decide +kernel
    obtain ⟨s, ran, seen⟩ := Option.map_eq_some_iff.mp ran
    obtain ⟨log, inode⟩ := Prod.mk.inj seen
    refine ⟨s, .of_run start_booted ran, log, inode, fun unique => ?_⟩
    have live := unique.live [] (.opened 5 2) [.opened 5 3] log (5, 2) (by decide) (by decide)
    rw [inode] at live
    exact absurd live (by decide)
  · have ran : (run (step Server.oneServer) booted [draw 0 7 .pipe]).map (fun s => (s.log, s.server.ends 2)) =
        some ([.piped 2 0 7], some (0, 7)) := by decide +kernel
    obtain ⟨s, ran, seen⟩ := Option.map_eq_some_iff.mp ran
    obtain ⟨log, ends⟩ := Prod.mk.inj seen
    refine ⟨s, .of_run start_booted ran, log, ends, fun unique => ?_⟩
    exact unique.nonzero (.piped 2 0 7) (log ▸ List.mem_singleton_self _) (0, 2) (by decide) rfl

end FdLog
end Faux
