import Mathlib.Tactic.Common

/-! # Sequences of fallible steps

Inversion of `do` blocks over `Except`: a block succeeds when all its steps do, and fails with the error of
the first step that fails. -/

namespace Lib

section
variable {ε α β : Type} {x : Except ε α} {f : α → Except ε β}

theorem bind_eq_ok {b : β} : x >>= f = .ok b ↔ ∃ a, x = .ok a ∧ f a = .ok b := by
  cases x with
  | error e => simp [bind, Except.bind]
  | ok a => simp [bind, Except.bind]

theorem bind_eq_error {e : ε} : x >>= f = .error e ↔ x = .error e ∨ ∃ a, x = .ok a ∧ f a = .error e := by
  cases x with
  | error e' => simp [bind, Except.bind]
  | ok a => simp [bind, Except.bind]

theorem ok_bind {a : α} : (Except.ok a : Except ε α) >>= f = f a := rfl

theorem error_bind {e : ε} : (Except.error e : Except ε α) >>= f = .error e := rfl

theorem toOption_eq_some {v : α} : x.toOption = some v ↔ x = .ok v := by
  cases x <;> simp [Except.toOption]

end
end Lib
