import Faux.Utilities.Lock
import Mathlib.Algebra.Order.BigOperators.Group.Finset

/-! Writers exclude others as long as the byte of a spin lock can count the threads that wait for it. -/

namespace Faux
open Lib

namespace Place

@[grind] def holds : Place → Int
  | .writing | .load _ | .store _ _ | .unlock _ => 1
  | _ => 0

@[grind] def waits : Place → Int
  | .wait _ => 1
  | _ => 0

@[grind] def decs : Place → Int
  | .dec _ => 1
  | _ => 0

/-- The part of `num_readers` that a thread stands for. -/
@[grind] def reads : Place → Int
  | .reading => 1
  | .dec op | .wait op | .load op | .store op _ => if op = .releaseRead then 1 else 0
  | .unlock op => if op.delta = 1 then 1 else 0
  | _ => 0

/-- What a thread that holds the lock has found out, and what `spin_trylock` is for. -/
@[grind] def Right (numReaders : Int) : Place → Prop
  | .writing => numReaders = 0
  | .store op v => v = numReaders + op.delta
  | .swap op => op ≠ .releaseRead
  | _ => True

theorem holds_nonneg (p : Place) : 0 ≤ p.holds := by cases p <;> grind

theorem reads_nonneg (p : Place) : 0 ≤ p.reads := by cases p <;> grind

theorem waits_nonneg (p : Place) : 0 ≤ p.waits := by cases p <;> grind

theorem decs_nonneg (p : Place) : 0 ≤ p.decs := by cases p <;> grind

theorem one_at_most (p : Place) : p.holds + p.waits + p.decs ≤ 1 := by cases p <;> grind

theorem Right.of_not_holds {p : Place} {r r' : Int} (right : p.Right r) (not : p.holds = 0) : p.Right r' := by
  cases p <;> first | exact right | cases not

end Place

namespace RWLock
variable {n : Nat} {s t : RWLock n} {i j : Fin n} {p : Place} {f : Place → Int}

def total (s : RWLock n) (f : Place → Int) : Int := ∑ i, f (s.place i)

@[simp] theorem place_goto : (s.goto i p).place i = p := Function.update_self ..

theorem place_goto_of_ne (other : j ≠ i) : (s.goto i p).place j = s.place j := Function.update_of_ne other ..

theorem total_goto : (s.goto i p).total f = s.total f - f (s.place i) + f p := by
  have change : (s.goto i p).total f - s.total f = f p - f (s.place i) := by
    rw [total, total, ← Finset.sum_sub_distrib, Finset.sum_eq_single i]
    · rw [place_goto]
    · intro j _ other
      rw [place_goto_of_ne other, Int.sub_self]
    · exact fun none => absurd (Finset.mem_univ i) none
  omega

theorem le_total (nonneg : ∀ p, 0 ≤ f p) : f (s.place i) ≤ s.total f :=
  Finset.single_le_sum (f := fun i => f (s.place i)) (fun _ _ => nonneg _) (Finset.mem_univ i)

theorem total_nonneg (nonneg : ∀ p, 0 ≤ f p) : 0 ≤ s.total f := Finset.sum_nonneg fun _ _ => nonneg _

theorem total_eq_zero (nonneg : ∀ p, 0 ≤ f p) (zero : s.total f = 0) : f (s.place i) = 0 :=
  Int.le_antisymm (zero ▸ le_total nonneg) (nonneg _)

structure Inv (s : RWLock n) : Prop where
  one : s.total Place.holds ≤ 1
  free : s.total Place.holds = 0 → s.slock = 1
  /-- Threads that wait have counted the byte down by at most one each. -/
  held : s.total Place.holds = 1 → s.slock ≤ 0 ∧ -s.slock ≤ s.total Place.waits
  readers : s.numReaders = s.total Place.reads
  right : ∀ i, (s.place i).Right s.numReaders

theorem Inv.alone (h : Inv s) (holdsI : (s.place i).holds = 1) (other : j ≠ i) : (s.place j).holds = 0 := by
  -- without the first thread nobody holds the lock
  have rest : (s.goto i .idle).total Place.holds = 0 := by
    have := h.one
    have le := le_total (s := s) (i := i) Place.holds_nonneg
    rw [total_goto, holdsI]
    rw [holdsI] at le
    simp only [Place.holds]
    omega
  have zero := total_eq_zero (i := j) Place.holds_nonneg rest
  rwa [place_goto_of_ne other] at zero

/-- A thread goes on, and has changed the number of readers only if it holds the lock. -/
theorem Inv.goto {q : Place} {b r : Int} (h : Inv s) (was : s.place i = q) (one : s.total Place.holds - q.holds + p.holds ≤ 1)
    (free : s.total Place.holds - q.holds + p.holds = 0 → b = 1)
    (held : s.total Place.holds - q.holds + p.holds = 1 → b ≤ 0 ∧ -b ≤ s.total Place.waits - q.waits + p.waits)
    (readers : r = s.numReaders - q.reads + p.reads) (same : r = s.numReaders ∨ q.holds = 1) (right : p.Right r) :
    Inv ({ s with slock := b, numReaders := r }.goto i p) := by
  subst was
  refine ⟨total_goto.trans_le one, fun zero => free (total_goto.symm.trans zero), fun isOne => ?_, ?_, fun j => ?_⟩
  · rw [total_goto]
    exact held (total_goto.symm.trans isOne)
  · rw [h.readers] at readers
    exact readers.trans total_goto.symm
  by_cases own : j = i
  · subst own
    rw [place_goto]
    exact right
  · rw [place_goto_of_ne own]
    rcases same with rfl | holdsI
    · exact h.right j
    · exact (h.right j).of_not_holds (h.alone holdsI own)

/-- A thread that counts the byte down does not wait for it, and neither does the one that holds the lock. -/
theorem Inv.decb_eq (few : n ≤ 129) (h : Inv s) {op : LockOp} (isDec : s.place i = .dec op) : decb s.slock = s.slock - 1 := by
  have all : s.total Place.holds + s.total Place.waits + s.total Place.decs ≤ n := by
    have le : ∑ i, ((s.place i).holds + (s.place i).waits + (s.place i).decs) ≤ ∑ _i : Fin n, (1 : Int) :=
      Finset.sum_le_sum fun i _ => Place.one_at_most _
    simpa [Finset.sum_add_distrib, total] using le
  have counted := le_total (s := s) (i := i) Place.decs_nonneg
  rw [isDec] at counted
  have := h.one
  have := h.free
  have := h.held
  have := le_total (s := s) (i := i) Place.holds_nonneg
  rw [decb, if_neg]
  grind

theorem Inv.step (few : n ≤ 129) (h : Inv s) {i : Fin n} {call : LockOp} (next : s.step (i, call) = some t) : Inv t := by
  have one := h.one
  have free := h.free
  have held := h.held
  have right := h.right i
  have holders := le_total (s := s) (i := i) Place.holds_nonneg
  have waiters := total_nonneg (s := s) Place.waits_nonneg
  simp only [RWLock.step] at next
  split at next
  case h_1 op isDec =>
    have := h.decb_eq few isDec
    cases next
    refine h.goto isDec ?_ ?_ ?_ ?_ (.inl rfl) ?_ <;> split_ifs <;> grind
  case h_2 op isWait =>
    cases next
    split_ifs with isFree
    · refine h.goto isWait ?_ ?_ ?_ ?_ (.inl rfl) ?_ <;> grind
    · exact h
  case h_3 op isSwap =>
    cases next
    refine h.goto isSwap ?_ ?_ ?_ ?_ (.inl rfl) ?_ <;> split_ifs <;> grind
  case h_4 op isLoad =>
    cases next
    refine h.goto isLoad ?_ ?_ ?_ ?_ (.inl rfl) ?_ <;> unfold Place.loaded <;> split_ifs <;> grind [LockOp.delta]
  case h_5 op v isStore =>
    cases next
    refine h.goto isStore ?_ ?_ ?_ ?_ (.inr rfl) ?_ <;> cases op <;> grind [LockOp.delta]
  case h_6 op isUnlock =>
    cases next
    refine h.goto isUnlock ?_ ?_ ?_ ?_ (.inl rfl) ?_ <;> cases op <;> grind [LockOp.delta, Place.released]
  case h_7 =>
    obtain ⟨p, called, rfl⟩ := Option.map_eq_some_iff.mp next
    have out : p.holds = (s.place i).holds ∧ p.waits = (s.place i).waits ∧ p.reads = (s.place i).reads ∧ p.Right s.numReaders := by
      unfold Place.call at called
      split at called <;> cases called <;> simp_all [Place.holds, Place.waits, Place.reads, Place.Right, LockOp.delta]
    exact h.goto rfl (by omega) (by omega) (by omega) (by omega) (.inl rfl) out.2.2.2

theorem inv_init : Inv (init : RWLock n) := by
  have none : ∀ f : Place → Int, f .idle = 0 → (init : RWLock n).total f = 0 := fun f zero => by simp [total, init, zero]
  refine ⟨by rw [none _ rfl]; decide, fun _ => rfl, fun one => ?_, (none _ rfl).symm, fun _ => trivial⟩
  rw [none _ rfl] at one
  cases one

theorem Inv.exclusive (h : Inv s) : s.Exclusive := by
  intro i j writes others
  by_contra ne
  rcases others with writes' | reads
  · have := h.alone (i := i) (j := j) (by rw [writes]; rfl) (Ne.symm ne)
    rw [writes'] at this
    cases this
  · have noReaders := h.right i
    have counted := le_total (s := s) (i := j) Place.reads_nonneg
    rw [writes] at noReaders
    rw [reads, ← h.readers, noReaders] at counted
    exact absurd counted (by decide)

abbrev Reached (s : RWLock n) : Prop := Reach (· = init) (fun _ _ => True) step s

section
variable (reach : Reached s) (idle : s.place i = .idle)
include reach idle

theorem reach_called : Reached (s.goto i (.dec .acquireWrite)) := reach.step (i, .acquireWrite) trivial (by simp only [RWLock.step, idle]; rfl)

/-- A thread calls `fosRWLockAcquireWrite`, counts the byte down and has to wait. -/
theorem reach_wait (taken : ¬0 ≤ decb s.slock) : Reached ({ s with slock := decb s.slock }.goto i (.wait .acquireWrite)) :=
  (reach_called reach idle).step (i, .acquireWrite) trivial (by simp [RWLock.step, RWLock.goto, taken])

theorem reach_writing (free : 0 ≤ decb s.slock) (noReaders : s.numReaders = 0) : Reached ({ s with slock := decb s.slock }.goto i .writing) := by
  have counted : Reached ({ s with slock := decb s.slock }.goto i (.load .acquireWrite)) :=
    (reach_called reach idle).step (i, .acquireWrite) trivial (by simp [RWLock.step, RWLock.goto, free])
  exact counted.step (i, .acquireWrite) trivial (by simp [RWLock.step, RWLock.goto, Place.loaded, LockOp.delta, noReaders])

end

/-- One thread writes and `k` others wait. -/
theorem crowd (many : 129 < n) : ∀ k : Nat, k ≤ 128 → ∃ s : RWLock n, Reached s ∧ s.slock = -(k : Int) ∧ s.numReaders = 0 ∧
    s.place ⟨0, by omega⟩ = .writing ∧ ∀ j : Fin n, k < j.val → s.place j = .idle
  | 0, _ => by
    refine ⟨_, reach_writing (i := ⟨0, by omega⟩) (.init rfl) rfl (by simp [init, decb]) rfl, rfl, rfl, place_goto, fun j after => ?_⟩
    exact place_goto_of_ne fun same => absurd after (by simp [same])
  | k + 1, le => by
    obtain ⟨s, reach, isSlock, noReaders, writes, idle⟩ := crowd many k (by omega)
    have down : decb s.slock = -((k + 1 : Nat) : Int) := by
      rw [decb, isSlock, if_neg (by omega)]
      omega
    have counted := reach_wait reach (idle ⟨k + 1, by omega⟩ (Nat.lt_succ_self k)) (by omega)
    refine ⟨_, counted, down, noReaders, ?_, fun j after => ?_⟩
    · exact (place_goto_of_ne (by simp)).trans writes
    · exact (place_goto_of_ne fun same => absurd after (by simp [same])).trans (idle j (by omega))

/-- Writers are alone just if there are too few threads to count the byte down around zero. -/
theorem writers_exclude_iff (n : Nat) : (∀ s : RWLock n, Reach (· = init) (fun _ _ => True) step s → s.Exclusive) ↔ n ≤ 129 := by
  constructor
  · intro exclusive
    by_contra many
    obtain ⟨s, reach, isSlock, noReaders, writes, idle⟩ := crowd (Nat.lt_of_not_le many) 128 (Nat.le_refl _)
    have wrapped : 0 ≤ decb s.slock := by simp [isSlock, decb]
    have both := reach_writing reach (idle ⟨129, by omega⟩ (by simp)) wrapped noReaders
    have same := exclusive _ both ⟨0, by omega⟩ ⟨129, by omega⟩ ((place_goto_of_ne (by simp)).trans writes) (.inl place_goto)
    exact absurd same (by simp)
  · intro few s reach
    have inv : Inv s := reach.invariant (by rintro _ rfl; exact inv_init) fun s t a h _ next => h.step few next
    exact inv.exclusive

end RWLock
end Faux
