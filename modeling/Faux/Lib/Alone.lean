import Faux.Lib.Interleave

/-! # Programs that run alone

Total correctness of one program while all other clients wait. Its actions find whatever environment there is, and between them the
world may take internal steps. -/

namespace Lib
namespace System
variable {W A O ε α E I : Type} {R : A → Type} (S : System W A O ε α E I R) {P : W → Prop}

/-- Internal steps lead from one world to the other. -/
inductive Drift (w : W) : W → Prop
  | refl : Drift w w
  | step {w₁ w₂ : W} {i : I} : Drift w w₁ → S.intern w₁ i = some w₂ → Drift w w₂

/-- A condition that internal steps keep. -/
def Stable (P : W → Prop) : Prop := ∀ w w' i, P w → S.intern w i = some w' → P w'

/-- Client `c` runs the program alone: it ends as `post` says, and every world on the way is as `J` says. -/
def Ends {β : Type} (c : Nat) (J : W → Prop) (post : β → W → Prop) : Prog A R ε β → W → Prop
  | .ret x, w => ∀ w₁, S.Drift w w₁ → post x w₁
  | .fail _, _ => False
  | .act a k, w => ∀ w₁, S.Drift w w₁ → ∀ e, ∃ w₂ r, S.exec w₁ c e a = .ok (w₂, r) ∧ J w₂ ∧ Ends c J post (k r) w₂

variable {S} {β γ : Type} {c : Nat} {J : W → Prop} {w w₁ w₂ : W}

theorem Drift.trans (first : S.Drift w w₁) (second : S.Drift w₁ w₂) : S.Drift w w₂ := by
  induction second with
  | refl => exact first
  | step _ stepped ih => exact .step ih stepped

theorem Stable.drift (stable : S.Stable P) (drift : S.Drift w w₁) (holds : P w) : P w₁ := by
  induction drift with
  | refl => exact holds
  | step _ stepped ih => exact stable _ _ _ ih stepped

theorem Ends.drift {post : β → W → Prop} {p : Prog A R ε β} (ends : S.Ends c J post p w) (drift : S.Drift w w₁) :
    S.Ends c J post p w₁ := by
  cases p with
  | ret x => exact fun w₂ more => ends w₂ (drift.trans more)
  | fail err => exact ends
  | act a k => exact fun w₂ more => ends w₂ (drift.trans more)

theorem Ends.mono {post post' : β → W → Prop} {p : Prog A R ε β} (ends : S.Ends c J post p w)
    (imp : ∀ x w, post x w → post' x w) : S.Ends c J post' p w := by
  induction p generalizing w with
  | ret x => exact fun w₁ drift => imp x w₁ (ends w₁ drift)
  | fail err => exact ends
  | act a k ih =>
    intro w₁ drift e
    obtain ⟨w₂, r, done, good, rest⟩ := ends w₁ drift e
    exact ⟨w₂, r, done, good, ih r rest⟩

theorem Ends.bind {post : γ → W → Prop} {p : Prog A R ε β} {f : β → Prog A R ε γ}
    (ends : S.Ends c J (fun x w => S.Ends c J post (f x) w) p w) : S.Ends c J post (p >>= f) w := by
  induction p generalizing w with
  | ret x => exact ends w .refl
  | fail err => exact ends
  | act a k ih =>
    intro w₁ drift e
    obtain ⟨w₂, r, done, good, rest⟩ := ends w₁ drift e
    exact ⟨w₂, r, done, good, ih r rest⟩

theorem Ends.of_bind {post : γ → W → Prop} {p : Prog A R ε β} {f : β → Prog A R ε γ} (ends : S.Ends c J post (p >>= f) w) :
    S.Ends c J (fun x w => S.Ends c J post (f x) w) p w := by
  induction p generalizing w with
  | ret x => exact fun w₁ drift => Ends.drift ends drift
  | fail err => exact ends
  | act a k ih =>
    intro w₁ drift e
    obtain ⟨w₂, r, done, good, rest⟩ := ends w₁ drift e
    exact ⟨w₂, r, done, good, ih r rest⟩

theorem Ends.meet [Nonempty E] {post post' : β → W → Prop} {p : Prog A R ε β} (ends : S.Ends c J post p w)
    (ends' : S.Ends c J post' p w) : ∃ x w', post x w' ∧ post' x w' := by
  induction p generalizing w with
  | ret x => exact ⟨x, w, ends w .refl, ends' w .refl⟩
  | fail err => exact ends.elim
  | act a k ih =>
    obtain ⟨e⟩ := ‹Nonempty E›
    obtain ⟨w₂, r, done, -, rest⟩ := ends w .refl e
    obtain ⟨w₂', r', done', -, rest'⟩ := ends' w .refl e
    cases done.symm.trans done'
    exact ih r rest rest'

theorem Ends.ret {post : β → W → Prop} {x : β} (stable : S.Stable P) (holds : P w) (each : ∀ w, P w → post x w) :
    S.Ends c J post (.ret x) w := fun w₁ drift => each w₁ (stable.drift drift holds)

theorem Ends.act {post : β → W → Prop} {a : A} {k : R a → Prog A R ε β} (stable : S.Stable P) (holds : P w)
    (each : ∀ w e, P w → ∃ w' r, S.exec w c e a = .ok (w', r) ∧ J w' ∧ S.Ends c J post (k r) w') :
    S.Ends c J post (.act a k) w := fun w₁ drift e => each w₁ e (stable.drift drift holds)

theorem Ends.perform {a : A} {post : R a → W → Prop} (stable : S.Stable P) (holds : P w)
    (each : ∀ w e, P w → ∃ w' r, S.exec w c e a = .ok (w', r) ∧ J w' ∧ S.Stable (post r) ∧ post r w') :
    S.Ends c J post (Prog.perform a : Prog A R ε (R a)) w := by
  refine Ends.act stable holds fun w e known => ?_
  obtain ⟨w', r, done, good, kept, next⟩ := each w e known
  exact ⟨w', r, done, good, Ends.ret kept next fun _ reached => reached⟩

/-! ### Programs that may fail -/

/-- Client `c` runs the program alone: if it returns, then as `post` says. -/
def Returns (S : System W A O ε α E I R) {β : Type} (c : Nat) (post : β → W → Prop) : Prog A R ε β → W → Prop
  | .ret x, w => ∀ w₁, S.Drift w w₁ → post x w₁
  | .fail _, _ => True
  | .act a k, w => ∀ w₁, S.Drift w w₁ → ∀ e w₂ r, S.exec w₁ c e a = .ok (w₂, r) → Returns S c post (k r) w₂

theorem Ends.returns {post : β → W → Prop} {p : Prog A R ε β} (ends : S.Ends c J post p w) : S.Returns c post p w := by
  induction p generalizing w with
  | ret x => exact ends
  | fail err => trivial
  | act a k ih =>
    intro w₁ drift e w₂ r done
    obtain ⟨w₂', r', done', -, rest⟩ := ends w₁ drift e
    cases done.symm.trans done'
    exact ih r rest

theorem Returns.mono {post post' : β → W → Prop} {p : Prog A R ε β} (returns : S.Returns c post p w)
    (imp : ∀ x w, post x w → post' x w) : S.Returns c post' p w := by
  induction p generalizing w with
  | ret x => exact fun w₁ drift => imp x w₁ (returns w₁ drift)
  | fail err => trivial
  | act a k ih => exact fun w₁ drift e w₂ r done => ih r (returns w₁ drift e w₂ r done)

theorem Returns.bind {post : γ → W → Prop} {p : Prog A R ε β} {f : β → Prog A R ε γ}
    (returns : S.Returns c (fun x w => S.Returns c post (f x) w) p w) : S.Returns c post (p >>= f) w := by
  induction p generalizing w with
  | ret x => exact returns w .refl
  | fail err => trivial
  | act a k ih => exact fun w₁ drift e w₂ r done => ih r (returns w₁ drift e w₂ r done)

theorem Returns.perform {a : A} {post : R a → W → Prop} (stable : S.Stable P) (holds : P w)
    (each : ∀ w e w' r, P w → S.exec w c e a = .ok (w', r) → S.Stable (post r) ∧ post r w') :
    S.Returns c post (Prog.perform a : Prog A R ε (R a)) w := by
  intro w₁ drift e w₂ r done
  obtain ⟨kept, next⟩ := each w₁ e w₂ r (stable.drift drift holds) done
  exact fun w₃ more => kept.drift more next

theorem Ends.meet_returns [Nonempty E] {post post' : β → W → Prop} {p : Prog A R ε β} (ends : S.Ends c J post p w)
    (returns : S.Returns c post' p w) : ∃ x w', post x w' ∧ post' x w' := by
  induction p generalizing w with
  | ret x => exact ⟨x, w, ends w .refl, returns w .refl⟩
  | fail err => exact ends.elim
  | act a k ih =>
    obtain ⟨e⟩ := ‹Nonempty E›
    obtain ⟨w₂, r, done, -, rest⟩ := ends w .refl e
    exact ih r rest (returns w .refl e w₂ r done)

end System
end Lib
