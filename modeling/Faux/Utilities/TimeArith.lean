import Mathlib.Tactic.Common

/-! # Time arithmetic

`libs/utilities/time_arith.c`, for seconds that do not overflow. -/

namespace Faux

structure Timeval where
  tvSec : Int
  tvUsec : Int
deriving DecidableEq, Repr

/-- What `timeval_subtract` leaves: the difference when there is a place for it, the subtrahend it has
    updated, and the value it returns. -/
structure TimevalSubtracted where
  result : Option Timeval
  y : Timeval
  returned : Int
deriving DecidableEq, Repr

/-- The first update of the subtrahend: whole seconds are borrowed for the microseconds that `x` lacks. -/
def timevalBorrow (x y : Timeval) : Timeval :=
  if x.tvUsec < y.tvUsec then
    let nsec := (y.tvUsec - x.tvUsec).tdiv 1000000 + 1
    { tvUsec := y.tvUsec - 1000000 * nsec, tvSec := y.tvSec + nsec }
  else y

/-- The second update: whole seconds among the microseconds of the difference are carried. -/
def timevalCarry (x y : Timeval) : Timeval :=
  if x.tvUsec - y.tvUsec > 1000000 then
    let nsec := (x.tvUsec - y.tvUsec).tdiv 1000000
    { tvUsec := y.tvUsec + 1000000 * nsec, tvSec := y.tvSec - nsec }
  else y

/-- `store`: the caller gives a place for the result. -/
def timevalSubtract (store : Bool) (x y : Timeval) : TimevalSubtracted :=
  let y := timevalCarry x (timevalBorrow x y)
  { result := if store then some { tvSec := x.tvSec - y.tvSec, tvUsec := x.tvUsec - y.tvUsec } else none
    y
    returned := if x.tvSec < y.tvSec ∨ (x.tvSec = y.tvSec ∧ x.tvUsec < y.tvUsec) then 1 else 0 }

def timevalAdd (x y : Timeval) : Timeval :=
  let tmp : Timeval := { tvSec := x.tvSec + y.tvSec, tvUsec := x.tvUsec + y.tvUsec }
  if tmp.tvUsec > 1000000 then { tvSec := tmp.tvSec + 1, tvUsec := tmp.tvUsec - 1000000 } else tmp

end Faux
