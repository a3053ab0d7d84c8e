import Faux.Fs.PipeStream
import Faux.Theorems.Fs.Survive

/-! A pipe under interleaved calls. `Flow` is the invariant: as many references count for a descriptor as there are objects that
    have not sent their close, the server's pipe has the descriptors that still count, and its count of bytes is what has been written
    and not been read. -/

namespace Faux
open Lib

/-! ### Requests on a pipe -/

namespace Server
variable {s t : Server} {fd fd' r w : Fd} {id : FileId} {n size : Nat} {retval : Status} {data : List UInt8}

/-- The pipe of the server: its descriptors are 0 once closed, and it is deleted when both are. -/
structure Carries (s : Server) (id : FileId) (r w : Fd) (size : Nat) : Prop where
  noFile : s.files.lookup id = none
  pipe : s.pipes.lookup id = if r = 0 ∧ w = 0 then none else some { size, readFd := r, writeFd := w }

/-- A descriptor stands for `n` references, and is gone when there is none. -/
def Counts (s : Server) (id : FileId) (fd : Fd) (n : Nat) : Prop :=
  (∃ d, s.fds.lookup fd = some d ∧ d.id = id ∧ d.count = n ∧ 1 ≤ n) ∨ s.fds.lookup fd = none ∧ n = 0

theorem Counts.setOffset {d : FileDescriptor} {offset : Nat} (counts : s.Counts id fd' n) (found : s.fds.lookup fd = some d)
    (fds : t.fds = s.fds.insert fd { d with offset }) : t.Counts id fd' n := by
  unfold Counts
  rw [fds]
  by_cases eq : fd' = fd
  · subst eq
    rcases counts with ⟨e, found', isPipe, refs⟩ | ⟨missing, -⟩
    · cases found.symm.trans found'
      exact .inl ⟨_, AList.lookup_insert .., isPipe, refs⟩
    · cases found.symm.trans missing
  · rwa [AList.lookup_insert_ne eq]

/-- `Pipe::read` takes what is there, as far as it is asked for, and gives 0 for the end of the file. -/
theorem pipeRead_spec {p : Pipe} {count : Nat} (pos : 0 < count) :
    (p.read count).1 = { p with size := p.size - min count p.size } ∧ (countStatus (p.read count).2).2 = min count p.size ∧
      ((countStatus (p.read count).2).1 = .ok ∧ min count p.size = 0 ↔ p.size = 0 ∧ p.writeFd = 0) := by
  by_cases empty : p.size = 0
  · by_cases closed : p.writeFd = 0
    · have isEnd : p.read count = (p, 0) := by simp [Pipe.read, empty, closed]
      have none : min count p.size = 0 := by omega
      rw [isEnd, none]
      exact ⟨rfl, rfl, iff_of_true ⟨rfl, rfl⟩ ⟨empty, closed⟩⟩
    · have isEmpty : p.read count = (p, Status.again) := by simp [Pipe.read, empty, closed]
      have none : min count p.size = 0 := by omega
      rw [isEmpty, none]
      exact ⟨rfl, rfl, iff_of_false (fun both => absurd both.1 (by decide : (countStatus Status.again).1 ≠ .ok)) fun both => closed both.2⟩
  · have taken : p.read count = ({ p with size := p.size - min count p.size }, ((min count p.size : Nat) : Int)) := by
      simp [Pipe.read, empty]
    have amount : countStatus ((min count p.size : Nat) : Int) = (.ok, min count p.size) := by
      rw [countStatus, if_pos (by omega)]
      rfl
    rw [taken, amount]
    exact ⟨rfl, rfl, iff_of_false (fun both => by have := both.2; omega) fun both => empty both.1⟩

theorem read_carries {count m : Nat} (carries : s.Carries id r w size) (left : 1 ≤ n → ¬(r = 0 ∧ w = 0))
    (pos : 0 < count) (counts : s.Counts id fd n) (done : s.read fd count = .ok (t, retval, m, data)) :
    t.Carries id r w (size - m) ∧ m = min count size ∧ data = [] ∧ (retval = .ok ∧ m = 0 ↔ size = 0 ∧ w = 0) ∧
      ∀ fd' n', s.Counts id fd' n' → t.Counts id fd' n' := by
  obtain ⟨d, found, rfl, -, pos'⟩ | ⟨missing, -⟩ := counts
  · have isPipe := carries.pipe
    rw [if_neg (left pos')] at isPipe
    obtain ⟨rest, amount, report⟩ := @pipeRead_spec { size, readFd := r, writeFd := w } count pos
    simp only [read, found, readInode, carries.noFile, isPipe, ok_bind, Except.ok.injEq, Prod.mk.injEq] at done
    obtain ⟨rfl, rfl, rfl, rfl⟩ := done
    refine ⟨⟨carries.noFile, ?_⟩, amount, rfl, ?_, fun fd' n' counts => counts.setOffset found rfl⟩
    · rw [if_neg (left pos'), amount]
      exact (AList.lookup_insert ..).trans (congrArg some rest)
    · rw [amount]
      exact report
  · simp [read, missing] at done

theorem write_carries {buf : List UInt8} {m : Nat} (carries : s.Carries id r w size) (left : 1 ≤ n → ¬(r = 0 ∧ w = 0))
    (counts : s.Counts id fd n) (done : s.write fd buf = .ok (t, retval, m)) :
    t.Carries id r w (size + m) ∧ m = buf.length ∧ ∀ fd' n', s.Counts id fd' n' → t.Counts id fd' n' := by
  obtain ⟨d, found, rfl, -, pos⟩ | ⟨missing, -⟩ := counts
  · have isPipe := carries.pipe
    rw [if_neg (left pos)] at isPipe
    simp only [write, found, writeInode, carries.noFile, isPipe, ok_bind, Except.ok.injEq, Prod.mk.injEq, Pipe.write] at done
    have amount : (countStatus (buf.length : Int)).2 = buf.length := by
      unfold countStatus
      split_ifs <;> simp only <;> omega
    obtain ⟨rfl, rfl, rfl⟩ := done
    refine ⟨⟨carries.noFile, ?_⟩, amount, fun fd' n' counts => counts.setOffset found rfl⟩
    rw [if_neg (left pos), amount]
    exact AList.lookup_insert ..
  · simp [write, missing] at done

theorem dup_carries (carries : s.Carries id r w size) (left : 1 ≤ n → ¬(r = 0 ∧ w = 0)) (counts : s.Counts id fd n)
    (done : (s.dup fd).2.1 = .ok) : (s.dup fd).1.Carries id r w size ∧ (s.dup fd).1.Counts id fd (n + 1) ∧
      ∀ fd' n', fd' ≠ fd → s.Counts id fd' n' → (s.dup fd).1.Counts id fd' n' := by
  obtain ⟨d, found, rfl, rfl, pos⟩ | ⟨missing, -⟩ := counts
  · have isPipe := carries.pipe
    rw [if_neg (left pos)] at isPipe
    simp only [dup, found, carries.noFile, isPipe, Option.map_some]
    refine ⟨⟨carries.noFile, carries.pipe⟩, .inl ⟨_, AList.lookup_insert .., rfl, rfl, by simp⟩, fun fd' n' ne counts => ?_⟩
    unfold Counts
    rwa [AList.lookup_insert_ne ne]
  · simp [dup, missing, Status.invalid, Status.ok] at done

/-- The last CLOSE of a descriptor takes it out of the pipe. -/
theorem close_carries (carries : s.Carries id r w size) (left : 1 ≤ n → ¬(r = 0 ∧ w = 0)) (counts : s.Counts id fd n)
    (small : n < 2147483648) (done : s.close fd none none = .ok t) :
    t.Carries id (if n = 1 ∧ r = fd then 0 else r) (if n = 1 ∧ w = fd then 0 else w) size ∧ t.Counts id fd (n - 1) ∧
      ∀ fd' n', fd' ≠ fd → s.Counts id fd' n' → t.Counts id fd' n' := by
  obtain ⟨d, found, rfl, rfl, pos⟩ | ⟨missing, -⟩ := counts
  · have isPipe := carries.pipe
    rw [if_neg (left pos)] at isPipe
    unfold close at done
    simp only [found, sizeSub_one pos small] at done
    rw [countInt_of_lt (by simp only; omega)] at done
    split_ifs at done with negative last
    · have one : d.count = 1 := by simp only at last; omega
      simp only [closeLast, closeFile, carries.noFile, closePipe, isPipe, ok_bind, Except.ok.injEq] at done
      subst done
      simp only [one, true_and]
      refine ⟨⟨carries.noFile, ?_⟩, .inr ⟨AList.lookup_erase .., rfl⟩, fun fd' n' ne counts => ?_⟩
      · have same : (if (if r = fd then (⟨size, 0, w⟩ : Pipe) else ⟨size, r, w⟩).writeFd = fd then
            { (if r = fd then (⟨size, 0, w⟩ : Pipe) else ⟨size, r, w⟩) with writeFd := 0 }
            else if r = fd then ⟨size, 0, w⟩ else ⟨size, r, w⟩) =
            ⟨size, if r = fd then 0 else r, if w = fd then 0 else w⟩ := by
          by_cases isRead : r = fd <;> by_cases isWrite : w = fd <;> simp [isRead, isWrite]
        simp only [same]
        split_ifs <;> simp
      · unfold Counts
        rwa [AList.lookup_erase_ne ne]
    · have more : d.count ≠ 1 := fun one => last (by simp [one])
      simp only [closeShared, Except.ok.injEq] at done
      subst done
      simp only [more, false_and, if_false]
      refine ⟨⟨carries.noFile, carries.pipe⟩, .inl ⟨_, AList.lookup_insert .., rfl, rfl, by omega⟩, fun fd' n' ne counts => ?_⟩
      unfold Counts
      rwa [AList.lookup_insert_ne ne]
  · simp [close, missing] at done

theorem pipe_carries {env : Env} (noFile : s.newId ∉ s.files) (apart : env.rand ≠ env.rand') (named : env.rand ≠ 0) :
    (s.pipe env).1.Carries s.newId env.rand env.rand' 0 ∧ (s.pipe env).1.Counts s.newId env.rand 1 ∧
      (s.pipe env).1.Counts s.newId env.rand' 1 := by
  have absent : s.files.lookup s.newId = none := AList.lookup_eq_none.mpr noFile
  simp only [pipe, addFd]
  refine ⟨⟨absent, ?_⟩, .inl ⟨{ count := 1, offset := 0, id := s.newId }, ?_, rfl, rfl, Nat.le_refl _⟩,
    .inl ⟨_, AList.lookup_insert .., rfl, rfl, Nat.le_refl _⟩⟩
  · rw [if_neg fun both => named both.1]
    exact AList.lookup_insert ..
  · rw [AList.lookup_insert_ne apart]
    exact AList.lookup_insert ..

end Server

/-! ### The invariant -/

namespace Plumbing
variable {v w : Plumbing} {a : Nat} {p : AppPipe} {fd : Fd}

def held (v : Plumbing) (fd : Fd) : Nat := v.objects.countP fun p => p.fd = fd ∧ p.haveClosed = false

/-- What the server's pipe has for an end: the descriptor, or 0 when no reference is left. -/
def endFd (v : Plumbing) (fd : Fd) : Fd := if v.held fd = 0 then 0 else fd

structure Flow (v : Plumbing) : Prop where
  named : v.readFd ≠ 0 ∧ v.writeFd ≠ 0
  apart : v.readFd ≠ v.writeFd
  ends : ∀ p ∈ v.objects, p.fd = v.readFd ∨ p.fd = v.writeFd
  few : v.objects.length < 2147483648
  counts : ∀ fd, fd = v.readFd ∨ fd = v.writeFd → v.server.Counts v.inode fd (v.held fd)
  flows : v.returned.length ≤ v.written.length
  carries : v.server.Carries v.inode (v.endFd v.readFd) (v.endFd v.writeFd) (v.written.length - v.returned.length)

theorem object_eq_ok : v.object a = .ok p ↔ v.objects[a]? = some p := by
  unfold object
  cases v.objects[a]? <;> simp

theorem mem_of_object (found : v.object a = .ok p) : p ∈ v.objects := List.mem_of_getElem? (object_eq_ok.mp found)

theorem held_lt (flow : v.Flow) (fd : Fd) : v.held fd < 2147483648 := Nat.lt_of_le_of_lt List.countP_le_length flow.few

theorem held_pos : 0 < v.held fd ↔ v.Held fd := by
  simp [held, Held, List.countP_pos_iff]

theorem endFd_eq_zero (named : fd ≠ 0) : v.endFd fd = 0 ↔ ¬v.Held fd := by
  rw [← held_pos, endFd]
  split_ifs with none
  · simp [none]
  · simp [named, none]

/-- An object whose descriptor the server still knows keeps the pipe. -/
theorem Flow.left (flow : v.Flow) (found : v.object a = .ok p) (known : 1 ≤ v.held p.fd) :
    ¬(v.endFd v.readFd = 0 ∧ v.endFd v.writeFd = 0) := by
  rintro ⟨noRead, noWrite⟩
  have holds : v.Held p.fd := held_pos.mp known
  rcases flow.ends p (mem_of_object found) with isEnd | isEnd
  · exact (endFd_eq_zero flow.named.1).mp noRead (isEnd ▸ holds)
  · exact (endFd_eq_zero flow.named.2).mp noWrite (isEnd ▸ holds)

theorem Flow.countsOf (flow : v.Flow) (found : v.object a = .ok p) : v.server.Counts v.inode p.fd (v.held p.fd) :=
  flow.counts p.fd (flow.ends p (mem_of_object found))

theorem held_set {q : AppPipe} (found : v.object a = .ok p) (same : q.fd = p.fd) (objects : w.objects = v.objects.set a q) :
    w.held fd =
      v.held fd - (if p.fd = fd ∧ p.haveClosed = false then 1 else 0) + if p.fd = fd ∧ q.haveClosed = false then 1 else 0 := by
  obtain ⟨inRange, isP⟩ := List.getElem?_eq_some_iff.mp (object_eq_ok.mp found)
  simp only [held, objects, List.countP_set inRange, isP, decide_eq_true_eq, same]

theorem Flow.setObject {q : AppPipe} {server : Server} (flow : v.Flow) (found : v.object a = .ok p) (same : q.fd = p.fd)
    (counts : ∀ fd, fd = v.readFd ∨ fd = v.writeFd → server.Counts v.inode fd (held { v with objects := v.objects.set a q } fd))
    (carries : server.Carries v.inode (endFd { v with objects := v.objects.set a q } v.readFd)
      (endFd { v with objects := v.objects.set a q } v.writeFd) (v.written.length - v.returned.length)) :
    Flow { v with server, objects := v.objects.set a q } where
  named := flow.named
  apart := flow.apart
  ends r mem := by
    rcases List.mem_or_eq_of_mem_set mem with mem | rfl
    · exact flow.ends r mem
    · rw [same]
      exact flow.ends p (mem_of_object found)
  few := by simpa using flow.few
  counts := counts
  flows := flow.flows
  carries := carries

/-- Taking away a reference changes the descriptor of its end, and only when it was the last. -/
theorem endFd_of_held (named : p.fd ≠ 0) (pos : 1 ≤ v.held p.fd)
    (after : w.held fd = v.held fd - if p.fd = fd then 1 else 0) :
    w.endFd fd = if v.held p.fd = 1 ∧ v.endFd fd = p.fd then 0 else v.endFd fd := by
  unfold endFd
  rw [after]
  by_cases eq : p.fd = fd
  · grind
  · grind

theorem Flow.closeOnce (flow : v.Flow) (found : v.object a = .ok p) (done : v.closeOnce a p = .ok w) : w.Flow := by
  unfold Plumbing.closeOnce at done
  split at done
  · cases done
    exact flow
  · next sent =>
    obtain ⟨server, closed, done⟩ := bind_eq_ok.mp done
    cases done
    have unsent : p.haveClosed = false := by simpa using sent
    have after : ∀ fd, held { v with objects := v.objects.set a { p with haveClosed := true } } fd =
        v.held fd - if p.fd = fd then 1 else 0 := fun fd => by
      rw [held_set (q := { p with haveClosed := true }) found rfl rfl]
      simp [unsent]
    have pos : 1 ≤ v.held p.fd := held_pos.mpr ⟨p, mem_of_object found, rfl, unsent⟩
    have named : p.fd ≠ 0 := by
      rcases flow.ends p (mem_of_object found) with isEnd | isEnd
      · exact isEnd ▸ flow.named.1
      · exact isEnd ▸ flow.named.2
    obtain ⟨carries, own, others⟩ :=
      Server.close_carries flow.carries (flow.left found) (flow.countsOf found) (held_lt flow _) closed
    refine flow.setObject found rfl (fun fd isEnd => ?_) ?_
    · rw [after]
      by_cases eq : p.fd = fd
      · rw [if_pos eq, ← eq]
        exact own
      · rw [if_neg eq]
        exact others fd _ (Ne.symm eq) (flow.counts fd isEnd)
    · grind [endFd_of_held]

theorem Flow.testClose {closing : Bool} (flow : v.Flow) (done : v.testClose a = .ok (w, closing)) : w.Flow := by
  obtain ⟨p, found, done⟩ := bind_eq_ok.mp done
  split at done
  · obtain ⟨u, once, done⟩ := bind_eq_ok.mp done
    cases done
    exact flow.closeOnce found once
  · cases done
    exact flow

/-- `Pipe::close` leaves the server's references. -/
theorem Flow.closeEnd (flow : v.Flow) (done : v.closeEnd a = .ok w) : w.Flow := by
  obtain ⟨p, found, done⟩ := bind_eq_ok.mp done
  cases done
  have same : ∀ fd, held { v with objects := v.objects.set a { p with shouldClose := true } } fd = v.held fd := fun fd => by
    rw [held_set (q := { p with shouldClose := true }) found rfl rfl]
    split_ifs with holds
    · exact Nat.sub_add_cancel (held_pos.mpr ⟨p, mem_of_object found, holds⟩)
    · rfl
  refine flow.setObject found rfl (fun fd isEnd => ?_) ?_
  · rw [same]
    exact flow.counts fd isEnd
  · simp only [endFd, same]
    exact flow.carries

theorem held_append {f : Fd} (objects : w.objects = v.objects ++ [.alloc f]) :
    w.held fd = v.held fd + if f = fd then 1 else 0 := by
  simp [held, objects, AppPipe.alloc, List.countP_append, List.countP_singleton]

theorem Flow.dupEnd (flow : v.Flow) (few : v.objects.length < 2147483647) (done : v.dupEnd a = .ok w) : w.Flow := by
  obtain ⟨p, found, done⟩ := bind_eq_ok.mp done
  have dupped := Server.dup_carries flow.carries (flow.left found) (flow.countsOf found)
  have known : (v.server.dup p.fd).2.1 = .ok → 1 ≤ v.held p.fd := by
    intro isOk
    rcases flow.countsOf found with ⟨-, -, -, -, pos⟩ | ⟨missing, -⟩
    · exact pos
    · simp [Server.dup, missing, Status.invalid, Status.ok] at isOk
  obtain ⟨u, isOk, done⟩ := bind_eq_ok.mp done
  obtain rfl : { v with server := (v.server.dup p.fd).1, objects := v.objects ++ [.alloc p.fd] } = w := Except.ok.inj done
  have isOk : (v.server.dup p.fd).2.1 = .ok := of_decide_eq_true (Server.require_eq_ok.mp isOk)
  obtain ⟨carries, own, others⟩ := dupped isOk
  have more : ∀ fd, held { v with server := (v.server.dup p.fd).1, objects := v.objects ++ [.alloc p.fd] } fd =
      v.held fd + if p.fd = fd then 1 else 0 := fun fd => held_append rfl
  have same : ∀ fd, endFd { v with server := (v.server.dup p.fd).1, objects := v.objects ++ [.alloc p.fd] } fd = v.endFd fd := fun fd => by
    unfold endFd
    rw [more]
    by_cases eq : p.fd = fd
    · grind
    · rw [if_neg eq, Nat.add_zero]
  refine ⟨flow.named, flow.apart, fun r mem => ?_, ?_, fun fd isEnd => ?_, flow.flows, ?_⟩
  · rcases List.mem_append.mp mem with mem | mem
    · exact flow.ends r mem
    · cases List.mem_singleton.mp mem
      exact flow.ends p (mem_of_object found)
  · rw [List.length_append]
    exact Nat.add_lt_add_right few 1
  · rw [more]
    by_cases eq : p.fd = fd
    · rw [if_pos eq, ← eq]
      exact own
    · rw [if_neg eq]
      exact others fd _ (Ne.symm eq) (flow.counts fd isEnd)
  · rw [same, same]
    exact carries

theorem Flow.fosFdWrite {n : Nat} (flow : v.Flow)
    (done : v.fosFdWrite a data = .ok (w, retval, n)) : w.Flow := by
  obtain ⟨p, found, done⟩ := bind_eq_ok.mp done
  obtain ⟨⟨server, ret, m⟩, wrote, done⟩ := bind_eq_ok.mp done
  cases done
  obtain ⟨carries, rfl, kept⟩ := Server.write_carries flow.carries (flow.left found) (flow.countsOf found) wrote
  have le := flow.flows
  refine { flow with counts := fun fd isEnd => kept _ _ (flow.counts fd isEnd), flows := ?_, carries := ?_ }
  · simp only [List.take_length, List.length_append]
    omega
  · simp only [List.take_length, List.length_append]
    rwa [Nat.sub_add_comm le]

/-- What a READ takes from the pipe, and when its reply reports the end of the file. -/
theorem Flow.fosFdRead {buffer : Nat → UInt8} {count n : Nat} (flow : v.Flow) (pos : 0 < count)
    (done : v.fosFdRead buffer a count = .ok (w, retval, n, data)) : w.Flow ∧ n = min count (v.written.length - v.returned.length) ∧
      data = (List.range n).map buffer ∧
      (retval = .ok ∧ n = 0 ↔ v.returned.length = v.written.length ∧ ¬v.Held v.writeFd) := by
  obtain ⟨p, found, done⟩ := bind_eq_ok.mp done
  obtain ⟨⟨server, ret, m, bytes⟩, got, done⟩ := bind_eq_ok.mp done
  cases done
  obtain ⟨carries, amount, rfl, report, kept⟩ :=
    Server.read_carries flow.carries (flow.left found) pos (flow.countsOf found) got
  have le := flow.flows
  refine ⟨{ flow with counts := fun fd isEnd => kept _ _ (flow.counts fd isEnd), flows := ?_, carries := ?_ }, amount, rfl, ?_⟩
  · grind
  · simp only [List.length_append, List.length_map, List.length_range]
    rwa [← Nat.sub_sub]
  · rw [report, endFd_eq_zero flow.named.2]
    exact and_congr_left fun _ => by omega

/-! ### Runs -/

def Asks : PipeAction → Prop
  | .read _ count => 0 < count
  | _ => True

theorem perform_asks {x : PipeAction} (asks : Asks x) : (PipeOp.perform x).All Asks := ⟨asks, fun _ => trivial⟩

theorem closing_asks {retry : Bool} : (PipeOp.closing a retry).All Asks := by
  unfold PipeOp.closing
  split
  · trivial
  · exact perform_asks trivial

theorem readLoop_asks {count : Nat} : ∀ {fuel : Nat} {retry : Bool} {readCount : Nat},
    (PipeOp.readLoop a count fuel retry readCount).All Asks := by
  intro fuel
  induction fuel with
  | zero => exact fun {_ _} => trivial
  | succ fuel ih =>
    intro retry readCount
    unfold PipeOp.readLoop
    split
    · next more =>
      have asks : Asks (.read a (min (count - readCount) fsChunkSize)) := by
        have : 0 < fsChunkSize := by decide
        show 0 < min _ _
        omega
      refine closing_asks.bind fun isClosing => ?_
      split
      · trivial
      · refine (perform_asks asks).bind fun reply => ?_
        obtain ⟨ret, readSize, data⟩ := reply
        simp only
        split
        · refine Prog.All.bind (perform_asks (by trivial)) fun interrupted => ?_
          split
          · split <;> trivial
          · exact ih
        · split
          · trivial
          · split
            · trivial
            · exact ih
    · trivial

theorem writeLoop_asks : ∀ {fuel written : Nat} {buf : List UInt8}, (PipeOp.writeLoop a fuel written buf).All Asks := by
  intro fuel
  induction fuel with
  | zero => exact fun {_ _} => trivial
  | succ fuel ih =>
    intro written buf
    unfold PipeOp.writeLoop
    split
    · trivial
    · refine Prog.All.bind (perform_asks (by trivial)) fun reply => ?_
      obtain ⟨ret, n⟩ := reply
      simp only
      split
      · trivial
      · split
        · trivial
        · exact ih

theorem code_asks (o : PipeOp) : o.code.All Asks := by
  cases o with
  | read a count fuel => exact readLoop_asks
  | write a buf => exact writeLoop_asks
  | dup a => exact Prog.All.bind (perform_asks (by trivial)) fun _ => trivial
  | close a => exact Prog.All.bind (perform_asks (by trivial)) fun _ => trivial

theorem Flow.exec {s : Scene Plumbing PipeAction Int PipeAction.Reply} {c : Nat} {buffer : Nat → UInt8} {x : PipeAction} {r : x.Reply}
    (flow : s.world.Flow) (asks : Asks x) (allowed : streamRules.acts s c buffer x) (done : s.world.exec c buffer x = .ok (w, r)) :
    w.Flow := by
  cases x with
  | test a => exact flow.testClose done
  | read a count =>
    obtain ⟨retval, n, data⟩ := r
    exact (flow.fosFdRead asks done).1
  | write a data =>
    obtain ⟨retval, n⟩ := r
    exact flow.fosFdWrite done
  | dup a =>
    obtain ⟨u, dupped, done⟩ := bind_eq_ok.mp done
    cases done
    exact flow.dupEnd allowed dupped
  | close a =>
    obtain ⟨u, closed, done⟩ := bind_eq_ok.mp done
    cases done
    exact flow.closeEnd closed
  | interrupted =>
    cases done
    exact { flow with }

theorem flow_start {s : PipeConf} (start : Start s) : s.world.Flow := by
  obtain ⟨server, env, isOpened, noFile, -, -, apart, namedRead, namedWrite⟩ := start.opened
  obtain ⟨carries, reads, writes⟩ := Server.pipe_carries noFile apart namedRead
  rw [isOpened]
  have one : ∀ fd, fd = env.rand ∨ fd = env.rand' → held (fosPipeOpen server env) fd = 1 := by
    rintro fd (rfl | rfl) <;> simp [held, fosPipeOpen, Server.pipe, AppPipe.alloc, apart, Ne.symm apart]
  refine ⟨⟨namedRead, namedWrite⟩, apart, fun p mem => ?_, by simp [fosPipeOpen], fun fd isEnd => ?_, Nat.le_refl _, ?_⟩
  · rcases List.mem_pair.mp mem with rfl | rfl
    · exact .inl rfl
    · exact .inr rfl
  · rw [one fd isEnd]
    rcases isEnd with rfl | rfl
    · exact reads
    · exact writes
  · have isEnd : ∀ fd, fd = env.rand ∨ fd = env.rand' → endFd (fosPipeOpen server env) fd = fd := fun fd isEnd => by
      rw [endFd, one fd isEnd, if_neg Nat.one_ne_zero]
    have reads := isEnd _ (.inl rfl)
    have writes := isEnd _ (.inr rfl)
    exact reads.symm ▸ writes.symm ▸ carries

/-- The law of a pipe, in every run of any number of processes. -/
theorem law_of_guarded {s : PipeConf} (reach : Reach Start streamRules.Allow pipeSystem.step s) : Law s := by
  obtain ⟨flow, asks⟩ := System.kept_of_reach (S := pipeSystem) (P := Asks) (J := Flow) (fun _ o => code_asks o)
    (fun _ _ _ _ _ _ flow asks allowed done => flow.exec asks allowed done)
    (fun _ _ _ flow done => by cases done; exact { flow with }) (fun s start => ⟨flow_start start, start.call⟩) reach
  refine ⟨flow.flows, fun c a count k buffer w retval n data isRead done => ?_, ?_⟩
  · have asked : Asks (.read a count) := (asks c _ isRead).1
    exact (flow.fosFdRead asked done).2
  · rw [← AList.lookup_isSome, flow.carries.pipe]
    have noRead := endFd_eq_zero (v := s.world) flow.named.1
    have noWrite := endFd_eq_zero (v := s.world) flow.named.2
    split_ifs with gone
    · exact iff_of_false Bool.false_ne_true fun left => left.elim (noRead.mp gone.1) (noWrite.mp gone.2)
    · exact iff_of_true rfl (by tauto)

/-! ### Runs that break the law of a stream of bytes, and a run to the end of the file -/

def opened : PipeConf where
  world := fosPipeOpen (Server.boot 0 { start := 0, blocks := [], blocksFree := 0 } fun _ => 0) { rand := 8, rand' := 9, stats := [] }
  since := fun _ => fosPipeOpen (Server.boot 0 { start := 0, blocks := [], blocksFree := 0 } fun _ => 0) { rand := 8, rand' := 9, stats := [] }
  call := fun _ => none
  hist := fun _ => []
  log := []

theorem start_opened : Start opened where
  opened := ⟨_, _, rfl, by decide, by decide, by decide, by decide, by decide⟩
  call _ := rfl

def pass (b : UInt8) : List PipeLabel :=
  System.wholeCall 1 (.write 1 [7]) [fun _ => 0] ++ System.wholeCall 2 (.read 0 1 2) [fun _ => 0, fun _ => b]

def abandon : List PipeLabel :=
  [.call 2 (.read 0 1 2), .act 2 fun _ => 0] ++ System.wholeCall 1 (.close 1) [fun _ => 0] ++ System.wholeCall 3 (.close 0) [fun _ => 0]

structure View where
  written : List UInt8
  returned : List UInt8
  inode : FileId
  readFd : Fd
  writeFd : Fd
  objects : List AppPipe
  pipes : List FileId
  reads : Option (Nat × Nat)
  reply : Option (Status × Nat × List UInt8)
  deriving DecidableEq

def view (s : PipeConf) : View where
  written := s.world.written
  returned := s.world.returned
  inode := s.world.inode
  readFd := s.world.readFd
  writeFd := s.world.writeFd
  objects := s.world.objects
  pipes := s.world.server.pipes.keys
  reads :=
    match s.call 2 with
    | some (.act (.read a count) _) => some (a, count)
    | _ => none
  reply := (s.world.fosFdRead (fun _ => 0) 0 1).toOption.map (·.2)

theorem call_of_view {s : PipeConf} {a count : Nat} (seen : (view s).reads = some (a, count)) :
    ∃ k, s.call 2 = some (.act (.read a count) k) := by
  simp only [view] at seen
  split at seen
  · next k inCall =>
    cases seen
    exact ⟨k, inCall⟩
  · cases seen

/-- A read returns a byte that nobody has written. And when both ends are closed, a read of the empty pipe has to be tried
    again, and the pipe stays. -/
theorem exists_broken :
    (∃ s, Reach Start (fun _ _ => True) pipeSystem.step s ∧ ¬s.world.returned <+: s.world.written) ∧
    ∃ s, Reach Start (fun _ _ => True) pipeSystem.step s ∧ s.world.returned = s.world.written ∧
      ¬s.world.Open s.world.readFd ∧ ¬s.world.Open s.world.writeFd ∧ s.world.inode ∈ s.world.server.pipes ∧
      ∃ k w, s.call 2 = some (.act (.read 0 1) k) ∧ s.world.fosFdRead (fun _ => 0) 0 1 = .ok (w, .again, 0, []) := by
  have garbled : (run pipeSystem.step opened (pass 0)).map (fun s => (s.world.written, s.world.returned)) = some ([7], [0]) := by
    decide +kernel
  have abandoned : (run pipeSystem.step opened abandon).map view =
      some ⟨[], [], 2, 8, 9, [⟨8, true, false⟩, ⟨9, true, false⟩], [2], some (0, 1), some (.again, 0, [])⟩ := by decide +kernel
  obtain ⟨s, ran, seen⟩ := Option.map_eq_some_iff.mp garbled
  obtain ⟨t, ran', seen'⟩ := Option.map_eq_some_iff.mp abandoned
  obtain ⟨written, returned⟩ := Prod.mk.inj seen
  have objects : t.world.objects = [⟨8, true, false⟩, ⟨9, true, false⟩] := congrArg View.objects seen'
  have inode : t.world.inode = 2 := congrArg View.inode seen'
  have shut : ∀ fd, ¬t.world.Open fd := by
    rintro fd ⟨p, mem, -, isOpen⟩
    rw [objects] at mem
    rcases List.mem_pair.mp mem with rfl | rfl <;> cases isOpen
  refine ⟨⟨s, Reach.of_run start_opened ran, ?_⟩, t, Reach.of_run start_opened ran', ?_, shut _, shut _, ?_, ?_⟩
  · rw [written, returned]
    decide
  · exact (congrArg View.returned seen').trans (congrArg View.written seen').symm
  · rw [inode, AList.mem_keys, show t.world.server.pipes.keys = [2] from congrArg View.pipes seen']
    exact List.mem_singleton_self _
  · obtain ⟨k, inCall⟩ := call_of_view (congrArg View.reads seen')
    obtain ⟨⟨w, reply⟩, done, rfl⟩ := Option.map_eq_some_iff.mp (congrArg View.reply seen')
    exact ⟨k, w, inCall, toOption_eq_some.mp done⟩

def checkAct (v : Plumbing) : PipeAction → Bool
  | .dup _ => v.objects.length < 2147483647
  | _ => true

theorem allow_of_checkAct (s : PipeConf) (l : PipeLabel)
    (checked : System.checkAllow (fun _ _ _ => true) (fun s _ _ a => checkAct s.world a) s l = true) : streamRules.Allow s l := by
  refine System.allow_of_check (fun _ _ _ _ => trivial) (fun v c buffer x checked => ?_) s l checked
  cases x with
  | dup a =>
    have few := of_decide_eq_true checked
    exact few
  | _ => trivial

/-- An end is closed; a read of the closed object sends its CLOSE. -/
def shut (a : Nat) : List PipeLabel :=
  System.wholeCall 1 (.close a) [fun _ => 0] ++ System.wholeCall 1 (.read a 1 1) [fun _ => 0]

/-- A byte goes through the pipe, the write end is shared, both references to it are closed, and a read has asked for more. -/
def relay : List PipeLabel :=
  pass 7 ++ System.wholeCall 1 (.dup 1) [fun _ => 0] ++ shut 1 ++ shut 2 ++ [.call 2 (.read 0 1 1), .act 2 fun _ => 0]

/-- The reader gets the end of the file, and then the pipe goes with its other end. -/
theorem law_relay : ∃ s t, run pipeSystem.step opened relay = some s ∧
    run pipeSystem.step opened (relay ++ [.act 2 fun _ => 0] ++ shut 0) = some t ∧ s.world.returned = [7] ∧
    (view s).reply = some (.ok, 0, []) ∧ (view s).pipes = [2] ∧ (view t).pipes = [] ∧ Law s ∧ Law t := by
  have ends : (run pipeSystem.step opened relay).map view = some ⟨[7], [7], 2, 8, 9,
      [⟨8, false, false⟩, ⟨9, true, true⟩, ⟨9, true, true⟩], [2], some (0, 1), some (.ok, 0, [])⟩ := by decide +kernel
  have ends' : (run pipeSystem.step opened (relay ++ [.act 2 fun _ => 0] ++ shut 0)).map (fun t => (view t).pipes) = some [] := by
    decide +kernel
  have checked : checkRun (System.checkAllow (fun _ _ _ => true) fun s _ _ a => checkAct s.world a) pipeSystem.step opened relay = true := by
    decide +kernel
  have checked' : checkRun (System.checkAllow (fun _ _ _ => true) fun s _ _ a => checkAct s.world a) pipeSystem.step opened
      (relay ++ [.act 2 fun _ => 0] ++ shut 0) = true := by decide +kernel
  obtain ⟨s, ran, seen⟩ := Option.map_eq_some_iff.mp ends
  obtain ⟨t, ran', seen'⟩ := Option.map_eq_some_iff.mp ends'
  refine ⟨s, t, ran, ran', congrArg View.returned seen, congrArg View.reply seen, congrArg View.pipes seen, seen',
    law_of_guarded ?_, law_of_guarded ?_⟩
  · exact (Reach.init start_opened).of_guarded (guarded_of_check allow_of_checkAct _ checked) ran
  · exact (Reach.init start_opened).of_guarded (guarded_of_check allow_of_checkAct _ checked') ran'

end Plumbing
end Faux
