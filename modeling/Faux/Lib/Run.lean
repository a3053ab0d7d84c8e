import Mathlib.Tactic.Common

/-! # Runs of a transition system

A system is a partial step function on states. A guarded run takes only actions that its guard allows in the state they are taken
from. -/

namespace Lib

section
variable {σ α : Type} {inv P : σ → Prop} {as : List α}

/-- The state after a list of actions, when every one of them can be taken. -/
def run (step : σ → α → Option σ) (s : σ) : List α → Option σ
  | [] => some s
  | a :: as => (step s a).bind fun t => run step t as

theorem run_append {step : σ → α → Option σ} {bs : List α} :
    ∀ {s : σ}, run step s (as ++ bs) = (run step s as).bind fun t => run step t bs := by
  induction as with
  | nil => exact rfl
  | cons a as ih =>
    intro s
    simp only [List.cons_append, run, Option.bind_assoc, ih]

/-- The states that guarded steps lead to from an initial state. -/
inductive Reach (init : σ → Prop) (guard : σ → α → Prop) (step : σ → α → Option σ) : σ → Prop
  | init {s : σ} : init s → Reach init guard step s
  | step {s t : σ} (a : α) : Reach init guard step s → guard s a → step s a = some t → Reach init guard step t

variable {init : σ → Prop} {guard guard' : σ → α → Prop} {step : σ → α → Option σ} {s t : σ}

theorem Reach.invariant (hinit : ∀ s, init s → inv s)
    (hstep : ∀ s t a, inv s → guard s a → step s a = some t → inv t) (h : Reach init guard step s) : inv s := by
  induction h with
  | init h0 => exact hinit _ h0
  | step a _ hg hs ih => exact hstep _ _ a ih hg hs

/-- Every action of the list is allowed in the state it is taken from. -/
def Guarded (guard : σ → α → Prop) (step : σ → α → Option σ) : σ → List α → Prop
  | _, [] => True
  | s, a :: as => guard s a ∧ ∀ t, step s a = some t → Guarded guard step t as

theorem Reach.of_guarded (hr : Reach init guard step s) (hg : Guarded guard step s as)
    (h : run step s as = some t) : Reach init guard step t := by
  induction as generalizing s with
  | nil =>
    simp only [run, Option.some.injEq] at h
    exact h ▸ hr
  | cons a as ih =>
    simp only [run, Option.bind_eq_some_iff] at h
    obtain ⟨u, hu, h⟩ := h
    exact ih (.step a hr hg.1 hu) (hg.2 u hu) h

/-- Every action of the list can be taken, and the property holds in every state on the way. -/
def Along (P : σ → Prop) (step : σ → α → Option σ) : σ → List α → Prop
  | s, [] => P s
  | s, a :: as => P s ∧ ∃ t, step s a = some t ∧ Along P step t as

theorem along_of_guarded (sound : ∀ s, inv s → P s)
    (enough : ∀ s a, inv s → guard s a → ∃ t, step s a = some t ∧ inv t) :
    ∀ {as : List α} {s : σ}, inv s → Guarded guard step s as → Along P step s as
  | [], s, holds, _ => sound s holds
  | a :: as, s, holds, ⟨allowed, later⟩ => by
    obtain ⟨t, stepped, holds'⟩ := enough s a holds allowed
    exact ⟨sound s holds, t, stepped, along_of_guarded sound enough holds' (later t stepped)⟩

/-- A guard that lets an invariant go on, and that no step to a state with the property breaks, is what a run needs to have the property. -/
theorem along_iff_guarded (sound : ∀ s, inv s → P s)
    (enough : ∀ s a, inv s → guard s a → ∃ t, step s a = some t ∧ inv t)
    (needed : ∀ s a t, inv s → step s a = some t → P t → guard s a) :
    ∀ {as : List α} {s : σ}, inv s → (Along P step s as ↔ Guarded guard step s as)
  | [], s, holds => iff_of_true (sound s holds) trivial
  | a :: as, s, holds => by
    constructor
    · rintro ⟨-, t, stepped, along⟩
      have property : P t := by
        cases as with
        | nil => exact along
        | cons b bs => exact along.1
      have allowed := needed s a t holds stepped property
      refine ⟨allowed, fun u again => ?_⟩
      obtain ⟨u', again', holds'⟩ := enough s a holds allowed
      cases Option.some.inj (stepped.symm.trans again)
      cases Option.some.inj (stepped.symm.trans again')
      exact (along_iff_guarded sound enough needed holds').mp along
    · exact along_of_guarded sound enough holds

/-- The property holds in every state on the way, as far as the actions of the list can be taken. -/
def Throughout (P : σ → Prop) (step : σ → α → Option σ) : σ → List α → Prop
  | s, [] => P s
  | s, a :: as => P s ∧ ∀ t, step s a = some t → Throughout P step t as

theorem Throughout.holds : ∀ {as : List α} {s : σ}, Throughout P step s as → P s
  | [], _, h => h
  | _ :: _, _, h => h.1

/-- Within a domain of runs, a guard that keeps an invariant, and without which a step loses the property, is what a run needs to have
    the property. -/
theorem throughout_iff_guarded {dom : σ → α → Prop} (sound : ∀ s, inv s → P s)
    (keeps : ∀ s a t, inv s → dom s a → guard s a → step s a = some t → inv t)
    (needed : ∀ s a, inv s → dom s a → ¬guard s a → ∃ t, step s a = some t ∧ ¬P t) :
    ∀ {as : List α} {s : σ}, inv s → Guarded dom step s as → (Throughout P step s as ↔ Guarded guard step s as)
  | [], s, holds, _ => iff_of_true (sound s holds) trivial
  | a :: as, s, holds, ⟨inDom, inDom'⟩ => by
    constructor
    · rintro ⟨-, later⟩
      have allowed : guard s a := Classical.byContradiction fun no => by
        obtain ⟨t, stepped, lost⟩ := needed s a holds inDom no
        exact lost (later t stepped).holds
      refine ⟨allowed, fun t stepped => ?_⟩
      have holds' := keeps s a t holds inDom allowed stepped
      exact (throughout_iff_guarded sound keeps needed holds' (inDom' t stepped)).mp (later t stepped)
    · rintro ⟨allowed, later⟩
      refine ⟨sound s holds, fun t stepped => ?_⟩
      have holds' := keeps s a t holds inDom allowed stepped
      exact (throughout_iff_guarded sound keeps needed holds' (inDom' t stepped)).mpr (later t stepped)

/-- `Guarded` as a test. -/
def checkRun (check : σ → α → Bool) (step : σ → α → Option σ) : σ → List α → Bool
  | _, [] => true
  | s, a :: as => check s a && (step s a).all fun t => checkRun check step t as

theorem guarded_of_check {check : σ → α → Bool} (sound : ∀ s a, check s a = true → guard s a) :
    ∀ s : σ, checkRun check step s as = true → Guarded guard step s as := by
  induction as with
  | nil => exact fun _ _ => trivial
  | cons a as ih =>
    intro s checked
    simp only [checkRun, Bool.and_eq_true, Option.all_eq_true] at checked
    exact ⟨sound s a checked.1, fun t stepped => ih t (checked.2 t stepped)⟩

theorem guarded_of_forall (all : ∀ a ∈ as, ∀ s, guard s a) : ∀ s : σ, Guarded guard step s as := by
  induction as with
  | nil => exact fun _ => trivial
  | cons a as ih =>
    intro s
    exact ⟨all a (List.mem_cons_self ..) s, fun t _ => ih (fun b mem => all b (List.mem_cons_of_mem _ mem)) t⟩

theorem guarded_true : ∀ (as : List α) (s : σ), Guarded (fun _ _ => True) step s as
  | [], _ => trivial
  | _ :: as, _ => ⟨trivial, fun t _ => guarded_true as t⟩

theorem Reach.of_run (h0 : init s) (h : run step s as = some t) :
    Reach init (fun _ _ => True) step t :=
  (Reach.init h0).of_guarded (guarded_true as s) h

end
end Lib
