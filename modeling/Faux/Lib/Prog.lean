import Faux.Lib.Except

/-! # Programs of a client

A program performs actions and continues with their replies; it returns a value or fails. What an action does is left to an
interpreter. -/

namespace Lib

/-- A program with actions `A`, where `R a` is the type of the reply to `a`. -/
inductive Prog (A : Type) (R : A → Type) (ε α : Type) : Type
  | ret (v : α)
  | fail (e : ε)
  | act (a : A) (k : R a → Prog A R ε α)

namespace Prog
variable {A : Type} {R : A → Type} {ε α β W : Type} {p : Prog A R ε α} {f : α → Prog A R ε β} {P : A → Prop}
  {Q : α → Prop}

/-- One action. -/
def perform (a : A) : Prog A R ε (R a) := .act a .ret

/-- A computation without actions. -/
def lift : Except ε α → Prog A R ε α
  | .ok v => .ret v
  | .error e => .fail e

protected def bind : Prog A R ε α → (α → Prog A R ε β) → Prog A R ε β
  | .ret v, f => f v
  | .fail e, _ => .fail e
  | .act a k, f => .act a fun r => (k r).bind f

instance : Monad (Prog A R ε) where
  pure := .ret
  bind := Prog.bind

@[simp] theorem ret_bind {v : α} : (Prog.ret v >>= f) = f v := rfl

@[simp] theorem fail_bind {e : ε} : (Prog.fail e >>= f) = .fail e := rfl

@[simp] theorem act_bind {a : A} {k : R a → Prog A R ε α} :
    (Prog.act a k >>= f) = .act a fun r => k r >>= f := rfl

/-- All actions that the program may perform are of one kind. -/
def All (P : A → Prop) : Prog A R ε α → Prop
  | .ret _ => True
  | .fail _ => True
  | .act a k => P a ∧ ∀ r, (k r).All P

theorem All.bind (all : p.All P) (rest : ∀ v, (f v).All P) :
    (p >>= f).All P := by
  induction p with
  | ret v => exact rest v
  | fail e => trivial
  | act a k ih => exact ⟨all.1, fun r => ih r (all.2 r)⟩

theorem all_lift (x : Except ε α) : (lift x : Prog A R ε α).All P := by
  cases x <;> trivial

theorem All.mono {Q : A → Prop} (all : p.All P) (imp : ∀ a, P a → Q a) : p.All Q := by
  induction p with
  | ret v => trivial
  | fail e => trivial
  | act a k ih => exact ⟨imp a all.1, fun r => ih r (all.2 r)⟩

/-- All actions are of one kind and all values that are returned are of another. -/
def Gives (P : A → Prop) (Q : α → Prop) : Prog A R ε α → Prop
  | .ret v => Q v
  | .fail _ => True
  | .act a k => P a ∧ ∀ r, (k r).Gives P Q

theorem All.gives (all : p.All P) (holds : ∀ v, Q v) : p.Gives P Q := by
  induction p with
  | ret v => exact holds v
  | fail e => trivial
  | act a k ih => exact ⟨all.1, fun r => ih r (all.2 r)⟩

theorem Gives.all (gives : p.Gives P Q) : p.All P := by
  induction p with
  | ret v => trivial
  | fail e => trivial
  | act a k ih => exact ⟨gives.1, fun r => ih r (gives.2 r)⟩

theorem Gives.bind {Q' : β → Prop} (gives : p.Gives P Q)
    (rest : ∀ v, Q v → (f v).Gives P Q') : (p >>= f).Gives P Q' := by
  induction p with
  | ret v => exact rest v gives
  | fail e => trivial
  | act a k ih => exact ⟨gives.1, fun r => ih r (gives.2 r)⟩

theorem Gives.all_bind (gives : p.Gives P Q)
    (rest : ∀ v, Q v → (f v).All P) : (p >>= f).All P := by
  induction p with
  | ret v => exact rest v gives
  | fail e => trivial
  | act a k ih => exact ⟨gives.1, fun r => ih r (gives.2 r)⟩

/-- For some replies to its actions the program returns the value. -/
def Yields : Prog A R ε α → α → Prop
  | .ret v, x => v = x
  | .fail _, _ => False
  | .act _ k, x => ∃ r, (k r).Yields x

theorem yields_bind {x : β} : (p >>= f).Yields x ↔ ∃ v, p.Yields v ∧ (f v).Yields x := by
  induction p with
  | ret v => exact ⟨fun yields => ⟨v, rfl, yields⟩, fun ⟨_, same, yields⟩ => by cases same; exact yields⟩
  | fail e => exact ⟨False.elim, fun ⟨_, yields, _⟩ => yields⟩
  | act a k ih =>
    constructor
    · rintro ⟨r, yields⟩
      obtain ⟨v, first, second⟩ := (ih r).mp yields
      exact ⟨v, ⟨r, first⟩, second⟩
    · rintro ⟨v, ⟨r, first⟩, second⟩
      exact ⟨r, (ih r).mpr ⟨v, first, second⟩⟩

theorem bind_congr {g : α → Prog A R ε β} (same : ∀ v, p.Yields v → f v = g v) : (p >>= f) = (p >>= g) := by
  induction p with
  | ret v => exact same v rfl
  | fail e => rfl
  | act a k ih => exact congrArg (Prog.act a) (funext fun r => ih r fun v yields => same v ⟨r, yields⟩)

theorem bind_assoc {γ : Type} {g : β → Prog A R ε γ} :
    (p >>= f >>= g) = (p >>= fun v => f v >>= g) := by
  induction p with
  | ret v => rfl
  | fail e => rfl
  | act a k ih => exact congrArg (Prog.act a) (funext ih)

/-- All actions are of one kind as long as the replies are. -/
def AllIf (P : A → Prop) (Q : (a : A) → R a → Prop) : Prog A R ε α → Prop
  | .ret _ => True
  | .fail _ => True
  | .act a k => P a ∧ ∀ r, Q a r → (k r).AllIf P Q

theorem AllIf.bind {Q : (a : A) → R a → Prop} (all : p.AllIf P Q)
    (rest : ∀ v, (f v).AllIf P Q) : (p >>= f).AllIf P Q := by
  induction p with
  | ret v => exact rest v
  | fail e => trivial
  | act a k ih => exact ⟨all.1, fun r reply => ih r (all.2 r reply)⟩

theorem All.allIf {Q : (a : A) → R a → Prop} (all : p.All P) : p.AllIf P Q := by
  induction p with
  | ret v => trivial
  | fail e => trivial
  | act a k ih => exact ⟨all.1, fun r _ => ih r (all.2 r)⟩

/-! ### Any replies

An environment is a relation: `does s a t r` when action `a` can lead from state `s` to `t` with reply `r`. -/

section
variable {σ : Type}

/-- The program can return `x` in state `t`. -/
def Leaves (does : σ → (a : A) → σ → R a → Prop) : Prog A R ε α → σ → σ → α → Prop
  | .ret v, s, t, x => t = s ∧ x = v
  | .fail _, _, _, _ => False
  | .act a k, s, t, x => ∃ u r, does s a u r ∧ (k r).Leaves does u t x

/-- The program can come to action `b`. -/
def Asks (does : σ → (a : A) → σ → R a → Prop) : Prog A R ε α → σ → A → Prop
  | .ret _, _, _ => False
  | .fail _, _, _ => False
  | .act a k, s, b => b = a ∨ ∃ u r, does s a u r ∧ (k r).Asks does u b

variable {does : σ → (a : A) → σ → R a → Prop} {s t : σ} {b : A} {p : Prog A R ε α} {f : α → Prog A R ε β}

theorem leaves_bind {x : β} : (p >>= f).Leaves does s t x ↔ ∃ u v, p.Leaves does s u v ∧ (f v).Leaves does u t x := by
  induction p generalizing s with
  | ret v => exact ⟨fun leaves => ⟨s, v, ⟨rfl, rfl⟩, leaves⟩, fun ⟨_, _, ⟨at_s, is⟩, leaves⟩ => by subst at_s is; exact leaves⟩
  | fail e => exact ⟨False.elim, fun ⟨_, _, leaves, _⟩ => leaves⟩
  | act a k ih =>
    constructor
    · rintro ⟨u, r, done, leaves⟩
      obtain ⟨u', v, first, second⟩ := (ih r).mp leaves
      exact ⟨u', v, ⟨u, r, done, first⟩, second⟩
    · rintro ⟨u', v, ⟨u, r, done, first⟩, second⟩
      exact ⟨u, r, done, (ih r).mpr ⟨u', v, first, second⟩⟩

theorem asks_bind : (p >>= f).Asks does s b ↔ p.Asks does s b ∨ ∃ u v, p.Leaves does s u v ∧ (f v).Asks does u b := by
  induction p generalizing s with
  | ret v =>
    constructor
    · exact fun asks => .inr ⟨s, v, ⟨rfl, rfl⟩, asks⟩
    · rintro (asks | ⟨_, _, ⟨at_s, is⟩, asks⟩)
      · exact asks.elim
      · subst at_s is
        exact asks
  | fail e => exact ⟨False.elim, fun asks => asks.elim id fun ⟨_, _, leaves, _⟩ => leaves⟩
  | act a k ih =>
    constructor
    · rintro (is | ⟨u, r, done, asks⟩)
      · exact .inl (.inl is)
      · rcases (ih r).mp asks with first | ⟨u', v, first, second⟩
        · exact .inl (.inr ⟨u, r, done, first⟩)
        · exact .inr ⟨u', v, ⟨u, r, done, first⟩, second⟩
    · rintro ((is | ⟨u, r, done, first⟩) | ⟨u', v, ⟨u, r, done, first⟩, second⟩)
      · exact .inl is
      · exact .inr ⟨u, r, done, (ih r).mpr (.inl first)⟩
      · exact .inr ⟨u, r, done, (ih r).mpr (.inr ⟨u', v, first, second⟩)⟩

theorem All.of_asks (all : p.All P) (asks : p.Asks does s b) : P b := by
  induction p generalizing s with
  | ret v => exact asks.elim
  | fail e => exact asks.elim
  | act a k ih =>
    rcases asks with rfl | ⟨u, r, -, asks⟩
    · exact all.1
    · exact ih r (all.2 r) asks

end

/-- The state and the value that a program ends with. -/
def run (exec : W → (a : A) → Except ε (W × R a)) : W → Prog A R ε α → Except ε (W × α)
  | w, .ret v => .ok (w, v)
  | _, .fail e => .error e
  | w, .act a k => exec w a >>= fun x => run exec x.1 (k x.2)

section
variable {exec : W → (a : A) → Except ε (W × R a)} {w : W}

@[simp] theorem run_ret {v : α} : run exec w (.ret v : Prog A R ε α) = .ok (w, v) := rfl

@[simp] theorem run_fail {e : ε} : run exec w (.fail e : Prog A R ε α) = .error e := rfl

theorem run_act {a : A} {k : R a → Prog A R ε α} :
    run exec w (.act a k) = exec w a >>= fun x => run exec x.1 (k x.2) := rfl

theorem run_bind :
    run exec w (p >>= f) = run exec w p >>= fun x => run exec x.1 (f x.2) := by
  induction p generalizing w with
  | ret v => rfl
  | fail e => rfl
  | act a k ih =>
    simp only [act_bind, run_act]
    cases exec w a with
    | error e => rfl
    | ok x => exact ih x.2

end
end Prog
end Lib
