import Faux.Utilities.TimeArith

/-! Time arithmetic: a sum is normalised unless the microseconds come to exactly one second, which the test
    of the carry misses. -/

namespace Faux
namespace Timeval
variable {x y z : Timeval}

def Normalised (t : Timeval) : Prop := 0 ≤ t.tvUsec ∧ t.tvUsec < 1000000

instance (t : Timeval) : Decidable t.Normalised := inferInstanceAs (Decidable (_ ∧ _))

def micros (t : Timeval) : Int := t.tvSec * 1000000 + t.tvUsec

/-- The value that a subtraction returns says which of its arguments is earlier. -/
def Compares (x y : Timeval) : Prop := ∀ store, (timevalSubtract store x y).returned = 1 ↔ x.micros < y.micros

structure Adds (x y sum : Timeval) : Prop where
  normalised : sum.Normalised
  denotes : sum.micros = x.micros + y.micros
  inverse : (timevalSubtract true sum y).result = some x
  addends : Compares x y
  compares : ∀ z : Timeval, z.Normalised → Compares sum z ∧ Compares z sum

/-- Every addition of the list, to what has been added up so far, is as it should be. -/
def AddsUp : Timeval → List Timeval → Prop
  | _, [] => True
  | x, y :: ys => Adds x y (timevalAdd x y) ∧ AddsUp (timevalAdd x y) ys

/-- Microseconds other than none never bring a total that starts at `usec` to whole seconds. -/
def NoWholeSecond : Int → List Timeval → Prop
  | _, [] => True
  | usec, y :: ys => ((usec + y.tvUsec) % 1000000 = 0 → y.tvUsec = 0) ∧ NoWholeSecond (usec + y.tvUsec) ys

theorem timevalBorrow_eq (hx : x.Normalised) (hy : y.Normalised) :
    timevalBorrow x y = if x.tvUsec < y.tvUsec then ⟨y.tvSec + 1, y.tvUsec - 1000000⟩ else y := by
  have less : x.tvUsec < y.tvUsec → (y.tvUsec - x.tvUsec).tdiv 1000000 = 0 := by
    intro lt
    have := hx.1
    have := hy.2
    exact Int.tdiv_eq_zero_of_lt (by omega) (by omega)
  rw [timevalBorrow]
  split_ifs with lt
  · rw [less lt]
    rfl
  · rfl

/-- The second update does nothing: after the first one the microseconds of the difference are normalised. -/
theorem updated_eq (hx : x.Normalised) (hy : y.Normalised) :
    timevalCarry x (timevalBorrow x y) = if x.tvUsec < y.tvUsec then ⟨y.tvSec + 1, y.tvUsec - 1000000⟩ else y := by
  rw [timevalBorrow_eq hx hy, timevalCarry, if_neg]
  obtain ⟨x_nonneg, x_lt⟩ := hx
  obtain ⟨y_nonneg, y_lt⟩ := hy
  split_ifs with lt
  · change ¬x.tvUsec - (y.tvUsec - 1000000) > 1000000
    omega
  · omega

theorem result_eq (hx : x.Normalised) (hy : y.Normalised) (z_is : z.Normalised) (denotes : x.micros = z.micros + y.micros) :
    (timevalSubtract true x y).result = some z := by
  obtain ⟨z_nonneg, z_lt⟩ := z_is
  rw [timevalSubtract, updated_eq hx hy]
  obtain ⟨x_nonneg, x_lt⟩ := hx
  obtain ⟨y_nonneg, y_lt⟩ := hy
  obtain ⟨sec, usec⟩ := z
  simp only [micros] at denotes z_nonneg z_lt
  simp only [if_true, Option.some.injEq, Timeval.mk.injEq]
  split_ifs
  · simp only
    omega
  · omega

theorem compares (hx : x.Normalised) (hy : y.Normalised) : Compares x y := by
  intro store
  rw [timevalSubtract, updated_eq hx hy]
  obtain ⟨x_nonneg, x_lt⟩ := hx
  obtain ⟨y_nonneg, y_lt⟩ := hy
  simp only [micros]
  split_ifs <;> simp_all <;> omega

theorem micros_add : (timevalAdd x y).micros = x.micros + y.micros := by
  simp only [timevalAdd, micros]
  split_ifs <;> simp only <;> omega

theorem normalised_add_iff (hx : x.Normalised) (hy : y.Normalised) :
    (timevalAdd x y).Normalised ↔ x.tvUsec + y.tvUsec ≠ 1000000 := by
  obtain ⟨x_nonneg, x_lt⟩ := hx
  obtain ⟨y_nonneg, y_lt⟩ := hy
  simp only [timevalAdd, Normalised]
  split_ifs <;> simp only <;> omega

theorem adds_iff (hx : x.Normalised) (hy : y.Normalised) : Adds x y (timevalAdd x y) ↔ x.tvUsec + y.tvUsec ≠ 1000000 := by
  refine ⟨fun adds => (normalised_add_iff hx hy).mp adds.normalised, fun ne => ?_⟩
  have normalised := (normalised_add_iff hx hy).mpr ne
  exact
    { normalised
      denotes := micros_add
      inverse := result_eq normalised hy hx micros_add
      addends := compares hx hy
      compares := fun z hz => ⟨compares normalised hz, compares hz normalised⟩ }

theorem usec_add_modEq : (timevalAdd x y).tvUsec % 1000000 = (x.tvUsec + y.tvUsec) % 1000000 := by
  simp only [timevalAdd]
  split_ifs
  · simp only
    omega
  · rfl

/-- `usec` is the total of the microseconds, of which `x` has what is over whole seconds. -/
theorem addsUp_iff : ∀ {ys : List Timeval} {x : Timeval} {usec : Int}, x.Normalised → (∀ y ∈ ys, y.Normalised) →
    usec % 1000000 = x.tvUsec → (AddsUp x ys ↔ NoWholeSecond usec ys)
  | [], _, _, _, _, _ => Iff.rfl
  | y :: ys, x, usec, hx, all, total => by
    have hy := all y (List.mem_cons_self ..)
    have whole : x.tvUsec + y.tvUsec ≠ 1000000 ↔ ((usec + y.tvUsec) % 1000000 = 0 → y.tvUsec = 0) := by
      obtain ⟨x_nonneg, x_lt⟩ := hx
      obtain ⟨y_nonneg, y_lt⟩ := hy
      omega
    have step := adds_iff hx hy
    rw [AddsUp, NoWholeSecond, step, whole]
    refine and_congr_right fun ne => ?_
    have normalised := (normalised_add_iff hx hy).mpr (whole.mpr ne)
    refine addsUp_iff normalised (fun z mem => all z (List.mem_cons_of_mem _ mem)) ?_
    have carry := @usec_add_modEq x y
    obtain ⟨nonneg, lt⟩ := normalised
    omega

theorem additions_are_exact_iff (x : Timeval) (ys : List Timeval) (hx : x.Normalised) (hys : ∀ y ∈ ys, y.Normalised) :
    AddsUp x ys ↔ NoWholeSecond x.tvUsec ys :=
  addsUp_iff hx hys (Int.emod_eq_of_lt hx.1 hx.2)

theorem additions_are_exact_twice :
    AddsUp ⟨3, 600000⟩ [⟨1, 500000⟩, ⟨0, 899999⟩] ↔ NoWholeSecond 600000 [⟨1, 500000⟩, ⟨0, 899999⟩] :=
  additions_are_exact_iff ⟨3, 600000⟩ [⟨1, 500000⟩, ⟨0, 899999⟩] (by decide) (by decide)

/-- Half a second added to half a second has 1000000 microseconds, and is then taken for earlier than the
    second that it is. -/
theorem second_not_carried :
    timevalAdd ⟨0, 500000⟩ ⟨0, 500000⟩ = ⟨0, 1000000⟩ ∧ ¬AddsUp ⟨0, 500000⟩ [⟨0, 500000⟩] ∧
      (timevalSubtract false (timevalAdd ⟨0, 500000⟩ ⟨0, 500000⟩) ⟨1, 0⟩).returned = 1 := by
  refine ⟨by decide, fun adds => ?_, by decide⟩
  exact absurd adds.1.normalised (by decide)

end Timeval
end Faux
