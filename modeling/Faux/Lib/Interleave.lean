import Faux.Lib.Prog
import Faux.Lib.Run
import Mathlib.Logic.Function.Basic

/-! # Interleaved programs

Clients call operations whose programs act on a shared world, one action at a time and in any order. The events of calls and the
results of those that have returned are kept for guards. The proof rule is that of a global invariant with a ghost for every client:
what a client relies on between its actions has to follow from the invariant and its ghost. -/

namespace Lib
open Function

/-- What holds of the value that is changed and of the others as they were holds of all. -/
theorem forall_of_update {α β : Type} [DecidableEq α] {f g : α → β} {a : α} {b : β} (P : α → β → Prop) (changed : g = update f a b)
    (own : P a b) (rest : ∀ x, x ≠ a → P x (f x)) (x : α) : P x (g x) := by
  rw [changed]
  exact (Function.forall_update_iff f P).mpr ⟨own, rest⟩ x

section
variable (W A O ε α : Type) (R : A → Type)

/-- An action with its reply. -/
structure Event where
  act : A
  reply : R act

/-- A call that has returned: the world in which it started, its events and its result. -/
structure Record where
  client : Nat
  before : W
  events : List (Event A R)
  result : α

/-- A world with what its clients have done: for a call in flight the world in which it started and its events,
    and all results so far. -/
structure Scene where
  world : W
  since : Nat → W
  hist : Nat → List (Event A R)
  log : List (Record W A α R)

/-- A scene with clients, each idle or in a call. -/
structure Conf extends Scene W A α R where
  call : Nat → Option (Prog A R ε α)

/-- What happens next: client `c` calls an operation, performs the next action of its call, or returns; or the
    world does something by itself. -/
inductive Label (E I : Type) where
  | call (c : Nat) (o : O)
  | act (c : Nat) (e : E)
  | ret (c : Nat)
  | intern (i : I)

end

/-- A system: what actions and internal steps do, and the programs of the operations. -/
structure System (W A O ε α E I : Type) (R : A → Type) where
  exec : W → Nat → E → (a : A) → Except ε (W × R a)
  intern : W → I → Option W
  code : Nat → O → Prog A R ε α

namespace System
variable {W A O ε α E I γ : Type} {R : A → Type} (S : System W A O ε α E I R)

/-- One step. `none`: it cannot be taken, or the world stops. -/
def step (s : Conf W A ε α R) : Label O E I → Option (Conf W A ε α R)
  | .call c o =>
    match s.call c with
    | some _ => none
    | none => some { s with
        since := update s.since c s.world
        call := update s.call c (some (S.code c o))
        hist := update s.hist c [] }
  | .act c e =>
    match s.call c with
    | some (.act a k) =>
      match S.exec s.world c e a with
      | .ok (w, r) => some { s with
          world := w
          call := update s.call c (some (k r))
          hist := update s.hist c (s.hist c ++ [⟨a, r⟩]) }
      | .error _ => none
    | _ => none
  | .ret c =>
    match s.call c with
    | some (.ret v) => some { s with
        call := update s.call c none
        hist := update s.hist c []
        log := s.log ++ [{ client := c, before := s.since c, events := s.hist c, result := v }] }
    | _ => none
  | .intern i => (S.intern s.world i).map fun w => { s with world := w }

/-- The calls and actions that are allowed. -/
structure Rules (W A O α E : Type) (R : A → Type) where
  calls : Scene W A α R → Nat → O → Prop
  acts : Scene W A α R → Nat → E → A → Prop

/-- A step that the rules allow. -/
def Rules.Allow (rules : Rules W A O α E R) (s : Conf W A ε α R) : Label O E I → Prop
  | .call c o => rules.calls s.toScene c o
  | .act c e => ∀ a k, s.call c = some (.act a k) → rules.acts s.toScene c e a
  | .ret _ => True
  | .intern _ => True

/-- `Allow` as a test. -/
def checkAllow (calls : Scene W A α R → Nat → O → Bool) (acts : Scene W A α R → Nat → E → A → Bool)
    (s : Conf W A ε α R) : Label O E I → Bool
  | .call c o => calls s.toScene c o
  | .act c e =>
    match s.call c with
    | some (.act a _) => acts s.toScene c e a
    | _ => true
  | .ret _ => true
  | .intern _ => true

theorem allow_of_check {rules : Rules W A O α E R} {calls : Scene W A α R → Nat → O → Bool}
    {acts : Scene W A α R → Nat → E → A → Bool} (soundCalls : ∀ v c o, calls v c o = true → rules.calls v c o)
    (soundActs : ∀ v c e a, acts v c e a = true → rules.acts v c e a) (s : Conf W A ε α R) (l : Label O E I)
    (checked : checkAllow calls acts s l = true) : rules.Allow s l := by
  cases l with
  | call c o => exact soundCalls _ _ _ checked
  | act c e =>
    intro a k isAct
    simp only [checkAllow, isAct] at checked
    exact soundActs _ _ _ _ checked
  | ret c => trivial
  | intern i => trivial

/-- Rules about calls only. -/
def onCalls (P : O → Prop) : Rules W A O α E R where
  calls _ _ o := P o
  acts _ _ _ _ := True

/-- A whole call: its start, one action for each of the events, and its return. -/
def wholeCall (c : Nat) (o : O) (es : List E) : List (Label O E I) := .call c o :: es.map (.act c) ++ [.ret c]

theorem allow_wholeCall {P : O → Prop} {c : Nat} {o : O} {es : List E} {l : Label O E I} (allowed : P o)
    (mem : l ∈ wholeCall c o es) (s : Conf W A ε α R) : (onCalls P : Rules W A O α E R).Allow s l := by
  simp only [wholeCall, List.mem_append, List.mem_cons, List.mem_map, List.not_mem_nil, or_false] at mem
  rcases mem with (rfl | ⟨e, -, rfl⟩) | rfl
  · exact allowed
  · exact fun _ _ _ => trivial
  · trivial

/-- The operation that client `c` has called last, after a run that started when it was `o`. -/
def lastCall (c : Nat) (o : Option O) : List (Label O E I) → Option O
  | [] => o
  | .call c' o' :: ls => lastCall c (if c' = c then some o' else o) ls
  | _ :: ls => lastCall c o ls

theorem lastCall_append {c : Nat} {ls₁ ls₂ : List (Label O E I)} :
    ∀ {o : Option O}, lastCall c o (ls₁ ++ ls₂) = lastCall c (lastCall c o ls₁) ls₂ := by
  induction ls₁ with
  | nil => exact rfl
  | cons l ls ih => cases l <;> exact ih

/-- What every allowed step keeps, with the operation that a client has called last, holds after a run. -/
theorem kept_of_run {c : Nat} {guard : Conf W A ε α R → Label O E I → Prop} {J : Conf W A ε α R → Option O → Prop}
    (keeps : ∀ s o l t, J s o → guard s l → S.step s l = some t → J t (lastCall c o [l])) {ls : List (Label O E I)} :
    ∀ {s t : Conf W A ε α R} {o : Option O}, J s o → Guarded guard S.step s ls → run S.step s ls = some t → J t (lastCall c o ls) := by
  induction ls with
  | nil =>
    intro s t o holds _ ran
    cases ran
    exact holds
  | cons l ls ih =>
    intro s t o holds allowed ran
    obtain ⟨u, stepped, ran⟩ := Option.bind_eq_some_iff.mp ran
    rw [← List.singleton_append, lastCall_append]
    exact ih (keeps s o l u holds allowed.1 stepped) (allowed.2 u stepped) ran

/-! ### The proof rule -/

/-- An invariant over the scene and the ghosts; what is known of idle clients and of returning calls; and the
    faults that may happen. -/
structure Spec (W A ε α γ : Type) (R : A → Type) where
  inv : Scene W A α R → (Nat → γ) → Prop
  idle : Nat → γ → Prop
  post : Nat → γ → α → Prop
  fails : ε → Prop

/-- The scene after an action of client `c`. -/
abbrev acted (v : Scene W A α R) (c : Nat) (w : W) (a : A) (r : R a) : Scene W A α R :=
  { v with world := w, hist := update v.hist c (v.hist c ++ [⟨a, r⟩]) }

/-- The scene after client `c` has called an operation. -/
abbrev called (v : Scene W A α R) (c : Nat) : Scene W A α R :=
  { v with since := update v.since c v.world, hist := update v.hist c [] }

/-- The scene after a call of client `c` has returned. -/
abbrev returned (v : Scene W A α R) (c : Nat) (x : α) : Scene W A α R :=
  { v with hist := update v.hist c [], log := v.log ++ [{ client := c, before := v.since c, events := v.hist c, result := x }] }

/-- The actions of the program that the rules allow keep the invariant. -/
def Ok (S : System W A O ε α E I R) (rules : Rules W A O α E R) (T : Spec W A ε α γ R) {β : Type} (post : γ → β → Prop)
    (c : Nat) : γ → Prog A R ε β → Prop
  | g, .ret x => post g x
  | _, .fail err => T.fails err
  | g, .act a k => ∀ v ghost e, T.inv v ghost → ghost c = g → rules.acts v c e a →
      (∀ err, S.exec v.world c e a = .error err → T.fails err) ∧
      ∀ w r, S.exec v.world c e a = .ok (w, r) → ∃ g',
        T.inv (acted v c w a r) (update ghost c g') ∧ Ok S rules T post c g' (k r)

section
variable {S} {rules : Rules W A O α E R} {T : Spec W A ε α γ R} {β δ : Type} {c : Nat} {g : γ} {post : γ → β → Prop}

theorem ok_ret {x : β} : Ok S rules T post c g (.ret x) ↔ post g x := Iff.rfl

theorem Ok.mono {post' : γ → β → Prop} {p : Prog A R ε β} (ok : Ok S rules T post c g p)
    (imp : ∀ g x, post g x → post' g x) : Ok S rules T post' c g p := by
  induction p generalizing g with
  | ret x => exact imp g x ok
  | fail err => exact ok
  | act a k ih =>
    intro v ghost e inv own allowed
    obtain ⟨safe, next⟩ := ok v ghost e inv own allowed
    refine ⟨safe, fun w r done => ?_⟩
    obtain ⟨g', inv', ok'⟩ := next w r done
    exact ⟨g', inv', ih r ok'⟩

theorem Ok.bind {post : γ → δ → Prop} {p : Prog A R ε β} {f : β → Prog A R ε δ}
    (ok : Ok S rules T (fun g x => Ok S rules T post c g (f x)) c g p) : Ok S rules T post c g (p >>= f) := by
  induction p generalizing g with
  | ret x => exact ok
  | fail err => exact ok
  | act a k ih =>
    intro v ghost e inv own allowed
    obtain ⟨safe, next⟩ := ok v ghost e inv own allowed
    refine ⟨safe, fun w r done => ?_⟩
    obtain ⟨g', inv', ok'⟩ := next w r done
    exact ⟨g', inv', ih r ok'⟩

theorem Ok.act {a : A} {k : R a → Prog A R ε β}
    (each : ∀ v ghost e, T.inv v ghost → ghost c = g → rules.acts v c e a → ∃ w r g', S.exec v.world c e a = .ok (w, r) ∧
      T.inv (acted v c w a r) (update ghost c g') ∧ Ok S rules T post c g' (k r)) :
    Ok S rules T post c g (.act a k) := by
  intro v ghost e inv own allowed
  obtain ⟨w, r, g', done, inv', ok⟩ := each v ghost e inv own allowed
  refine ⟨fun err failed => ?_, fun w' r' done' => ?_⟩
  · cases done.symm.trans failed
  · cases done.symm.trans done'
    exact ⟨g', inv', ok⟩

/-- The obligations of a proof: calls start and return well, and internal steps keep the invariant. -/
structure Sound (S : System W A O ε α E I R) (rules : Rules W A O α E R) (T : Spec W A ε α γ R) : Prop where
  call : ∀ v ghost c o, T.inv v ghost → T.idle c (ghost c) → rules.calls v c o → ∃ g',
    T.inv (called v c) (update ghost c g') ∧ Ok S rules T (T.post c) c g' (S.code c o)
  ret : ∀ v ghost c x, T.inv v ghost → T.post c (ghost c) x → ∃ g',
    T.inv (returned v c x) (update ghost c g') ∧ T.idle c g'
  intern : ∀ v ghost i w, T.inv v ghost → S.intern v.world i = some w → T.inv { v with world := w } ghost

/-- Every client is idle as known, or in a call whose actions keep the invariant. -/
def Clients (S : System W A O ε α E I R) (rules : Rules W A O α E R) (T : Spec W A ε α γ R)
    (call : Nat → Option (Prog A R ε α)) (ghost : Nat → γ) : Prop :=
  ∀ c, match call c with
    | none => T.idle c (ghost c)
    | some p => Ok S rules T (T.post c) c (ghost c) p

def Safe (S : System W A O ε α E I R) (rules : Rules W A O α E R) (T : Spec W A ε α γ R) (s : Conf W A ε α R) : Prop :=
  ∃ ghost, T.inv s.toScene ghost ∧ Clients S rules T s.call ghost

variable {s t : Conf W A ε α R} {l : Label O E I}

theorem Clients.update {ghost : Nat → γ} {call : Nat → Option (Prog A R ε α)} (clients : Clients S rules T call ghost)
    {p : Option (Prog A R ε α)}
    (own : match p with
      | none => T.idle c g
      | some p => Ok S rules T (T.post c) c g p) :
    Clients S rules T (update call c p) (update ghost c g) := by
  intro c'
  by_cases same : c' = c
  · subst same
    simpa [update_self] using own
  · have known := clients c'
    simpa [update_of_ne same] using known

theorem safe_step (sound : Sound S rules T) (safe : Safe S rules T s) (allowed : rules.Allow s l)
    (stepped : S.step s l = some t) : Safe S rules T t := by
  obtain ⟨ghost, inv, clients⟩ := safe
  cases l with
  | call c o =>
    have known := clients c
    simp only [step] at stepped
    split at stepped
    · cases stepped
    · next isIdle =>
      cases stepped
      simp only [isIdle] at known
      obtain ⟨g, inv', ok⟩ := sound.call s.toScene ghost c o inv known allowed
      exact ⟨_, inv', clients.update ok⟩
  | act c e =>
    have known := clients c
    simp only [step] at stepped
    split at stepped
    · next a k isAct =>
      simp only [isAct] at known
      obtain ⟨-, next⟩ := known s.toScene ghost e inv rfl (allowed a k isAct)
      split at stepped
      · next w r done =>
        cases stepped
        obtain ⟨g, inv', ok⟩ := next w r done
        exact ⟨_, inv', clients.update ok⟩
      · cases stepped
    · cases stepped
  | ret c =>
    have known := clients c
    simp only [step] at stepped
    split at stepped
    · next x isRet =>
      cases stepped
      simp only [isRet] at known
      obtain ⟨g, inv', idle⟩ := sound.ret s.toScene ghost c x inv known
      exact ⟨_, inv', clients.update idle⟩
    · cases stepped
  | intern i =>
    simp only [step, Option.map_eq_some_iff] at stepped
    obtain ⟨w, done, rfl⟩ := stepped
    exact ⟨ghost, sound.intern s.toScene ghost i w inv done, clients⟩

theorem safe_of_reach {init : Conf W A ε α R → Prop} (sound : Sound S rules T) (start : ∀ s, init s → Safe S rules T s)
    (reach : Reach init rules.Allow S.step s) : Safe S rules T s :=
  reach.invariant start fun _ _ _ safe allowed stepped => safe_step sound safe allowed stepped

end

/-- What every action of one kind keeps of the world holds in every state when the programs have no other actions, and a call in
    flight has no other actions left. -/
theorem kept_of_reach {rules : Rules W A O α E R} {init : Conf W A ε α R → Prop} {P : A → Prop} {J : W → Prop} {s : Conf W A ε α R}
    (code : ∀ c o, (S.code c o).All P)
    (acts : ∀ v c e a w r, J v.world → P a → rules.acts v c e a → S.exec v.world c e a = .ok (w, r) → J w)
    (interns : ∀ w w' i, J w → S.intern w i = some w' → J w')
    (start : ∀ s, init s → J s.world ∧ ∀ c, s.call c = none) (reach : Reach init rules.Allow S.step s) :
    J s.world ∧ ∀ c p, s.call c = some p → p.All P := by
  have first : ∀ s, init s → J s.world ∧ ∀ c p, s.call c = some p → p.All P := fun s isFirst =>
    ⟨(start s isFirst).1, fun c p inCall => by cases ((start s isFirst).2 c).symm.trans inCall⟩
  have next : ∀ s t l, (J s.world ∧ ∀ c p, s.call c = some p → p.All P) → rules.Allow s l → S.step s l = some t →
      J t.world ∧ ∀ c p, t.call c = some p → p.All P := by
    intro s t l known allowed stepped
    obtain ⟨holds, left⟩ := known
    have others : ∀ {c : Nat} {x : Option (Prog A R ε α)}, (∀ p, x = some p → p.All P) →
        ∀ c' p, update s.call c x c' = some p → p.All P := fun own =>
      forall_of_update (fun _ (x : Option (Prog A R ε α)) => ∀ p, x = some p → p.All P) rfl own fun c' _ => left c'
    cases l with
    | call c o =>
      simp only [step] at stepped
      split at stepped
      · cases stepped
      · cases stepped
        exact ⟨holds, others fun p eq => by cases eq; exact code c o⟩
    | act c e =>
      simp only [step] at stepped
      split at stepped
      · next a k isAct =>
        split at stepped
        · next w r done =>
          cases stepped
          have all := left c _ isAct
          exact ⟨acts s.toScene c e a w r holds all.1 (allowed a k isAct) done, others fun p eq => by cases eq; exact all.2 r⟩
        · cases stepped
      · cases stepped
    | ret c =>
      simp only [step] at stepped
      split at stepped
      · cases stepped
        exact ⟨holds, others fun p eq => by cases eq⟩
      · cases stepped
    | intern i =>
      simp only [step, Option.map_eq_some_iff] at stepped
      obtain ⟨w, done, rfl⟩ := stepped
      exact ⟨interns _ _ i holds done, left⟩
  have all := reach.invariant first next
  exact all

/-- No call has failed, and no action that the rules allow fails, except with the given faults. -/
def NoFault (rules : Rules W A O α E R) (fails : ε → Prop) (s : Conf W A ε α R) : Prop :=
  ∀ c, (∀ err, s.call c = some (.fail err) → fails err) ∧
    ∀ a k e err, s.call c = some (.act a k) → rules.acts s.toScene c e a → S.exec s.world c e a = .error err → fails err

theorem Safe.noFault {rules : Rules W A O α E R} {T : Spec W A ε α γ R} {s : Conf W A ε α R} (safe : Safe S rules T s) :
    NoFault S rules T.fails s := by
  obtain ⟨ghost, inv, clients⟩ := safe
  intro c
  have known := clients c
  refine ⟨fun err failed => ?_, fun a k e err isAct allowed failed => ?_⟩
  · simp only [failed] at known
    exact known
  · simp only [isAct] at known
    exact (known s.toScene ghost e inv rfl allowed).1 err failed

end System
end Lib
