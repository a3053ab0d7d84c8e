import Faux.Lib.Run
import Mathlib.Algebra.BigOperators.Fin
import Mathlib.Logic.Function.Basic

/-! # Reader-writer locks

`libs/utilities/lock.c` over the spin locks of `arch_spinlock.h`, for threads that acquire and release one lock. A step is
one instruction on the lock or on the number of readers. -/

namespace Faux

inductive LockOp where
  | acquireRead
  | tryRead
  | releaseRead
  | acquireWrite
  | tryWrite
  | releaseWrite
  deriving DecidableEq

namespace LockOp

/-- What the operation adds to `num_readers`. -/
def delta : LockOp → Int
  | .acquireRead | .tryRead => 1
  | .releaseRead => -1
  | _ => 0

end LockOp

/-- Where a thread is. -/
inductive Place where
  | idle
  | reading
  | writing
  /-- `lock decb` of `spin_lock`. -/
  | dec (op : LockOp)
  /-- `cmpb` of `spin_lock`. -/
  | wait (op : LockOp)
  /-- `xchgb` of `spin_trylock`. -/
  | swap (op : LockOp)
  | load (op : LockOp)
  | store (op : LockOp) (numReaders : Int)
  /-- `xchgb` of `spin_unlock`. -/
  | unlock (op : LockOp)
  deriving DecidableEq

namespace Place

/-- The first instruction of an operation. A thread that reads or writes releases the lock next. -/
def call : Place → LockOp → Option Place
  | .idle, .acquireRead => some (.dec .acquireRead)
  | .idle, .tryRead => some (.swap .tryRead)
  | .reading, .releaseRead => some (.dec .releaseRead)
  | .idle, .acquireWrite => some (.dec .acquireWrite)
  | .idle, .tryWrite => some (.swap .tryWrite)
  | .writing, .releaseWrite => some (.unlock .releaseWrite)
  | _, _ => none

/-- Where `num_readers` leads a thread that holds the lock: a writer tests it, a reader changes it. -/
def loaded (numReaders : Int) (op : LockOp) : Place :=
  if op.delta = 0 then if numReaders = 0 then .writing else .unlock op else .store op (numReaders + op.delta)

/-- After `fosLockRelease`: a writer that has found readers tries again, or gives up. -/
def released : LockOp → Place
  | .acquireRead | .tryRead => .reading
  | .acquireWrite => .dec .acquireWrite
  | _ => .idle

end Place

structure RWLock (n : Nat) where
  /-- The low byte, as a `signed char`. -/
  slock : Int
  numReaders : Int
  place : Fin n → Place

namespace RWLock
variable {n : Nat}

def init : RWLock n where
  slock := 1
  numReaders := 0
  place _ := .idle

def decb (b : Int) : Int := if b = -128 then 127 else b - 1

def goto (s : RWLock n) (i : Fin n) (p : Place) : RWLock n := { s with place := Function.update s.place i p }

/-- The next step of thread `i`, which calls `op` if it is in no call. -/
def step (s : RWLock n) : Fin n × LockOp → Option (RWLock n)
  | (i, call) =>
    match s.place i with
    | .dec op =>
      let b := decb s.slock
      some ({ s with slock := b }.goto i (if 0 ≤ b then .load op else .wait op))
    | .wait op => some (if 0 < s.slock then s.goto i (.dec op) else s)
    | .swap op => some ({ s with slock := 0 }.goto i (if 0 < s.slock then .load op else .idle))
    | .load op => some (s.goto i (.loaded s.numReaders op))
    | .store op numReaders => some ({ s with numReaders }.goto i (.unlock op))
    | .unlock op => some ({ s with slock := 1 }.goto i (.released op))
    | p => (p.call call).map (s.goto i)

/-- A writer is alone. -/
def Exclusive (s : RWLock n) : Prop := ∀ i j, s.place i = .writing → s.place j = .writing ∨ s.place j = .reading → i = j

end RWLock
end Faux
