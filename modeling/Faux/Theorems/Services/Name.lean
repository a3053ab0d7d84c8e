import Mathlib.Data.List.Perm.Basic
import Mathlib.Data.List.Rotate
import Faux.Lib.Run
import Faux.Services.Name

/-! The name server: its lists hold the registrations, up to their order, and lookups go around a list. -/

namespace Faux
open Lib

theorem NameConfig.coreToSock_lt (cfg : NameConfig) (core : Nat) : cfg.coreToSock core < cfg.sockNum :=
  Nat.lt_of_le_of_lt Nat.and_le_right (Nat.sub_one_lt_of_lt cfg.some)

namespace NameServer
variable {cfg : NameConfig} {s t : NameServer} {sock name : Nat} {list : Option (List Nat)}

def listOf (s : NameServer) (sock name : Nat) : List Nat := (s.addrs sock name).getD []

theorem addrs_set (sock' name' : Nat) :
    (s.set sock name list).addrs sock' name' = if sock' = sock ∧ name' = name then list else s.addrs sock' name' := by
  simp only [set]
  by_cases isSock : sock' = sock
  · subst isSock
    rw [Function.update_self]
    by_cases isName : name' = name
    · rw [isName, Function.update_self, if_pos ⟨rfl, rfl⟩]
    · rw [Function.update_of_ne isName, if_neg fun both => isName both.2]
  · rw [Function.update_of_ne isSock, if_neg fun both => isSock both.1]

def Proper (s : NameServer) : Prop := ∀ sock name list, s.addrs sock name = some list → list ≠ [] ∧ invalidAddress ∉ list

theorem Proper.set (proper : Proper s) (isProper : ∀ l, list = some l → l ≠ [] ∧ invalidAddress ∉ l) : Proper (s.set sock name list) := by
  intro sock' name' l isList
  rw [addrs_set] at isList
  split_ifs at isList
  · exact isProper l isList
  · exact proper sock' name' l isList

theorem listOf_of_none (none : s.addrs sock name = none) : s.listOf sock name = [] := by
  rw [listOf, none]
  rfl

theorem listOf_of_some {list : List Nat} (some : s.addrs sock name = some list) : s.listOf sock name = list := by
  rw [listOf, some]
  rfl

theorem Proper.invalid_notMem (proper : Proper s) : invalidAddress ∉ s.listOf sock name := by
  cases isList : s.addrs sock name with
  | none =>
    rw [listOf_of_none isList]
    exact List.not_mem_nil
  | some list =>
    rw [listOf_of_some isList]
    exact (proper sock name list isList).2

theorem listOf_set (sock' name' : Nat) :
    (s.set sock name list).listOf sock' name' = if sock' = sock ∧ name' = name then list.getD [] else s.listOf sock' name' := by
  unfold listOf
  rw [addrs_set]
  split_ifs <;> rfl

/-! ### Changes -/

theorem register_spec {core epAddr : Nat} (proper : Proper s) (valid : epAddr ≠ invalidAddress) : Proper (s.nameRegister cfg core name epAddr) ∧
    ∀ sock' name', (s.nameRegister cfg core name epAddr).listOf sock' name' =
      if sock' = cfg.coreToSock core ∧ name' = name then epAddr :: s.listOf sock' name' else s.listOf sock' name' := by
  have registered : s.nameRegister cfg core name epAddr = s.set (cfg.coreToSock core) name (some (epAddr :: s.listOf (cfg.coreToSock core) name)) := by
    grind [nameRegister, listOf]
  rw [registered]
  refine ⟨proper.set fun l isList => ?_, fun sock' name' => ?_⟩
  · cases isList
    refine ⟨List.cons_ne_nil _ _, fun mem => ?_⟩
    rcases List.mem_cons.mp mem with same | mem
    · exact valid same.symm
    · exact proper.invalid_notMem mem
  · grind [listOf_set]

theorem unregister_spec {core epAddr : Nat} (proper : Proper s) : Proper (s.nameUnregister cfg core name epAddr) ∧
    ∀ sock' name', (s.nameUnregister cfg core name epAddr).listOf sock' name' =
      if sock' = cfg.coreToSock core ∧ name' = name then (s.listOf sock' name').filter (· ≠ epAddr) else s.listOf sock' name' := by
  simp only [nameUnregister]
  cases isList : s.addrs (cfg.coreToSock core) name with
  | none => grind [listOf_of_none]
  | some list =>
    simp only
    have lists : ∀ new : Option (List Nat), new.getD [] = list.filter (· ≠ epAddr) → ∀ sock' name',
        (s.set (cfg.coreToSock core) name new).listOf sock' name' =
          if sock' = cfg.coreToSock core ∧ name' = name then (s.listOf sock' name').filter (· ≠ epAddr) else s.listOf sock' name' := by
      intro new isNew sock' name'
      rw [listOf_set]
      split_ifs with here
      · rw [isNew, here.1, here.2, listOf_of_some isList]
      · rfl
    by_cases empty : (list.filter (· ≠ epAddr)).length = 0
    · rw [if_pos empty]
      exact ⟨proper.set fun l none => (Option.some_ne_none l none.symm).elim, lists none (List.length_eq_zero_iff.mp empty).symm⟩
    · rw [if_neg empty]
      refine ⟨proper.set fun l isL => ?_, lists _ rfl⟩
      cases isL
      exact ⟨fun nil => empty (congrArg List.length nil), fun mem => (proper _ _ list isList).2 (List.mem_filter.mp mem).1⟩

/-! ### Lookups -/

/-- What a lookup can come to: a socket has served it, the socket `first` if that has the name, or no socket has the name. -/
inductive Looked (s : NameServer) (first name : Nat) (socks : List Nat) : NameServer → Nat → Option Nat → Prop
  | nowhere (absent : ∀ sock ∈ socks, s.listOf sock name = []) : Looked s first name socks s invalidAddress none
  | found {sock epAddr : Nat} {rest : List Nat} (mem : sock ∈ socks) (list : s.listOf sock name = epAddr :: rest) (valid : epAddr ≠ invalidAddress)
      (isFirst : s.listOf first name ≠ [] → sock = first) : Looked s first name socks (s.set sock name (some (rest ++ [epAddr]))) epAddr (some sock)

theorem Proper.rotate (proper : Proper s) {list : List Nat} (isList : s.addrs sock name = some list) : ∃ epAddr rest, list = epAddr :: rest ∧ epAddr ≠ invalidAddress ∧
    s.rotate sock name list = some (s.set sock name (some (rest ++ [epAddr])), epAddr) := by
  obtain ⟨some, valid⟩ := proper sock name list isList
  cases list with
  | nil => exact absurd rfl some
  | cons epAddr rest => exact ⟨epAddr, rest, rfl, fun invalid => valid (invalid ▸ List.mem_cons_self), rfl⟩

theorem lookupOthers_spec (proper : Proper s) {first : Nat} (none : s.addrs first name = none) : ∀ {socks : List Nat},
    ∃ t epAddr served, s.lookupOthers first name socks = some (t, epAddr, served) ∧ Looked s first name socks t epAddr served
  | [] => ⟨s, invalidAddress, _, rfl, .nowhere fun sock mem => absurd mem List.not_mem_nil⟩
  | sockI :: socks => by
    obtain ⟨t, epAddr, served, looked, isLooked⟩ := @lookupOthers_spec proper first none socks
    -- a socket without the name is passed over
    have pass : s.addrs sockI name = Option.none → Looked s first name (sockI :: socks) t epAddr served := by
      intro absent
      cases isLooked with
      | nowhere none' =>
        refine .nowhere fun sock mem => ?_
        rcases List.mem_cons.mp mem with rfl | mem
        · exact listOf_of_none absent
        · exact none' sock mem
      | found mem list valid isFirst => exact .found (List.mem_cons_of_mem _ mem) list valid isFirst
    rw [lookupOthers]
    by_cases isFirst : sockI = first
    · grind
    · rw [if_neg isFirst]
      cases isList : s.addrs sockI name with
      | none => exact ⟨t, epAddr, served, looked, pass isList⟩
      | some list =>
        obtain ⟨epAddr, rest, rfl, valid, rotated⟩ := proper.rotate isList
        refine ⟨_, epAddr, some sockI, by simp only [rotated]; rfl, .found List.mem_cons_self (listOf_of_some isList) valid fun some => ?_⟩
        exact absurd (listOf_of_none none) some

theorem nameLookup_spec (cfg : NameConfig) (core name : Nat) (proper : Proper s) : ∃ t epAddr served,
    s.nameLookup cfg core name = some (t, { epAddr, ack := epAddr ≠ invalidAddress }, served) ∧
      Looked s (cfg.coreToSock core) name (List.range cfg.sockNum) t epAddr served := by
  simp only [nameLookup]
  cases isList : s.addrs (cfg.coreToSock core) name with
  | none =>
    obtain ⟨t, epAddr, served, looked, isLooked⟩ := @lookupOthers_spec s name proper _ isList (List.range cfg.sockNum)
    exact ⟨t, epAddr, served, by simp [looked], isLooked⟩
  | some list =>
    obtain ⟨epAddr, rest, rfl, valid, rotated⟩ := proper.rotate isList
    refine ⟨_, epAddr, some (cfg.coreToSock core), by simp only [rotated]; simp [valid]; rfl, ?_⟩
    exact .found (List.mem_range.mpr (cfg.coreToSock_lt core)) (listOf_of_some isList) valid fun _ => rfl

end NameServer

/-! ### Runs -/

namespace NameSystem
variable {cfg : NameConfig} {s t : NameSystem} {sock name : Nat}

theorem mem_onSock {q : Registration} : q ∈ s.onSock cfg sock name ↔ q ∈ s.registered ∧ On cfg sock name q := by
  rw [onSock, List.mem_filter, decide_eq_true_iff]

structure Inv (cfg : NameConfig) (s : NameSystem) : Prop where
  proper : s.server.Proper
  lists : ∀ sock name, (s.server.listOf sock name).Perm ((s.onSock cfg sock name).map (·.epAddr))

theorem Inv.init : Inv cfg init :=
  ⟨fun _ _ _ isList => (Option.some_ne_none _ isList.symm).elim, fun _ _ => .nil⟩

theorem Inv.mem (inv : Inv cfg s) {epAddr : Nat} : epAddr ∈ s.server.listOf sock name ↔ ∃ q ∈ s.registered, On cfg sock name q ∧ q.epAddr = epAddr := by
  rw [(inv.lists sock name).mem_iff, List.mem_map]
  simp only [mem_onSock, and_assoc]

theorem Inv.listOf_ne_nil (inv : Inv cfg s) : s.server.listOf sock name ≠ [] ↔ ∃ q ∈ s.registered, On cfg sock name q := by
  constructor
  · intro some
    obtain ⟨epAddr, mem⟩ := List.exists_mem_of_ne_nil _ some
    obtain ⟨q, isReg, on, -⟩ := inv.mem.mp mem
    exact ⟨q, isReg, on⟩
  · rintro ⟨q, isReg, on⟩
    exact List.ne_nil_of_mem (inv.mem.mpr ⟨q, isReg, on, rfl⟩)

theorem Inv.register (inv : Inv cfg s) {r : Registration} (valid : r.epAddr ≠ invalidAddress) :
    Inv cfg { s with server := s.server.nameRegister cfg r.core r.name r.epAddr, registered := r :: s.registered } := by
  obtain ⟨proper, lists⟩ := @NameServer.register_spec cfg s.server r.name r.core r.epAddr inv.proper valid
  refine ⟨proper, fun sock name => ?_⟩
  rw [lists, onSock, List.filter_cons]
  by_cases on : On cfg sock name r
  · rw [if_pos ⟨on.2.symm, on.1.symm⟩, if_pos (decide_eq_true on)]
    exact (inv.lists sock name).cons _
  · rw [if_neg fun both => on ⟨both.2.symm, both.1.symm⟩, if_neg (by simpa using on)]
    exact inv.lists sock name

/-- Among the registrations on the socket, those with another address are those that the request leaves. -/
theorem Inv.unregister (inv : Inv cfg s) {r : Registration} :
    Inv cfg { s with
      server := s.server.nameUnregister cfg r.core r.name r.epAddr
      registered := s.registered.filter fun q => ¬q.Same cfg r } := by
  obtain ⟨proper, lists⟩ := @NameServer.unregister_spec cfg s.server r.name r.core r.epAddr inv.proper
  refine ⟨proper, fun sock name => ?_⟩
  rw [lists, onSock, List.filter_comm]
  change List.Perm _ (((s.onSock cfg sock name).filter fun q => ¬q.Same cfg r).map (·.epAddr))
  split_ifs with here
  · obtain ⟨rfl, rfl⟩ := here
    have same : ((s.onSock cfg (cfg.coreToSock r.core) r.name).filter fun q => ¬q.Same cfg r) =
        (s.onSock cfg (cfg.coreToSock r.core) r.name).filter ((· ≠ r.epAddr) ∘ (·.epAddr)) := by
      refine List.filter_congr fun q mem => decide_eq_decide.mpr (not_congr ⟨fun isR => isR.2.1, fun isAddr => ?_⟩)
      obtain ⟨-, isName, isSock⟩ := mem_onSock.mp mem
      exact ⟨isName, isAddr, isSock⟩
    rw [same, ← List.filter_map]
    exact (inv.lists _ _).filter _
  · have other : ∀ q ∈ s.onSock cfg sock name, decide (¬q.Same cfg r) = true := by
      intro q mem
      obtain ⟨-, isName, isSock⟩ := mem_onSock.mp mem
      exact decide_eq_true fun isR => here ⟨isSock.symm.trans isR.2.2, isName.symm.trans isR.1⟩
    rw [List.filter_eq_self.mpr other]
    exact inv.lists sock name

theorem Inv.lookup (inv : Inv cfg s) (core name : Nat) : ∃ t answer, s.step cfg (.lookup core name) = some t ∧ t.answers = s.answers ++ Option.toList answer ∧
    t.registered = s.registered ∧ t.server.Proper ∧ (∀ a ∈ answer, a.name = name ∧ (s.server.listOf a.sock name).head? = some a.epAddr) ∧
    ∀ sock name', t.server.listOf sock name' = (s.server.listOf sock name').rotate (servedBy sock name' answer.toList).length := by
  obtain ⟨server, epAddr, served, looked, isLooked⟩ := NameServer.nameLookup_spec cfg core name inv.proper
  refine ⟨{ s with server, answers := s.answers ++ (served.map fun sock => { name, sock, epAddr }).toList }, _, ?_, rfl, rfl, ?_⟩
  · rw [step, looked]
    rfl
  cases isLooked with
  | nowhere absent => exact ⟨inv.proper, fun a none => (Option.not_mem_none a none).elim, fun sock name' => List.rotate_zero _ |>.symm⟩
  | @found sock epAddr rest mem list valid isFirst =>
    refine ⟨inv.proper.set fun l isList => ?_, fun a isAnswer => ?_, fun sock' name' => ?_⟩
    · cases isList
      refine ⟨List.concat_ne_nil _ _, fun mem => (@NameServer.Proper.invalid_notMem s.server sock name inv.proper) ?_⟩
      rw [list]
      exact (List.perm_append_singleton _ _).mem_iff.mp mem
    · cases isAnswer
      exact ⟨rfl, by rw [list]; rfl⟩
    · rw [NameServer.listOf_set]
      by_cases here : sock' = sock ∧ name' = name
      · obtain ⟨rfl, rfl⟩ := here
        rw [if_pos ⟨rfl, rfl⟩, list]
        simp [servedBy]
      · have other : servedBy sock' name' [{ name, sock, epAddr }] = [] := by
          simp [servedBy]
          exact fun isName isSock => here ⟨isSock.symm, isName.symm⟩
        rw [if_neg here, show (Option.map _ _).toList = [_] from rfl, other]
        exact (List.rotate_zero _).symm

theorem step_spec (inv : Inv cfg s) {e : NameEvent} (allowed : s.Allowed e) : ∃ t, s.step cfg e = some t ∧ Inv cfg t := by
  cases e with
  | register r => exact ⟨_, rfl, inv.register allowed⟩
  | unregister r => exact ⟨_, rfl, inv.unregister⟩
  | lookup core name =>
    obtain ⟨t, answer, stepped, -, registered, proper, -, rotated⟩ := inv.lookup core name
    refine ⟨t, stepped, proper, fun sock name' => ?_⟩
    rw [rotated, onSock, registered]
    exact (List.rotate_perm _ _).trans (inv.lists sock name')

theorem run_spec : ∀ {events : List NameEvent} {s : NameSystem}, Inv cfg s → Guarded Allowed (step cfg) s events →
    ∃ t, run (step cfg) s events = some t ∧ Inv cfg t
  | [], s, inv, _ => ⟨s, rfl, inv⟩
  | e :: events, s, inv, guarded => by
    obtain ⟨t, stepped, inv'⟩ := step_spec inv guarded.1
    obtain ⟨u, ran, inv''⟩ := run_spec inv' (guarded.2 t stepped)
    exact ⟨u, by rw [run, stepped]; exact ran, inv''⟩

/-! ### Turns -/

/-- The answers from a list, one after the other: they are its addresses in their order, and the list has been rotated by as many. -/
structure Turns (sock name : Nat) (s t : NameSystem) (new : List NameAnswer) : Prop where
  answers : t.answers = s.answers ++ new
  rotated : t.server.listOf sock name = (s.server.listOf sock name).rotate (servedBy sock name new).length
  served : (servedBy sock name new).length ≤ (s.server.listOf sock name).length →
    (servedBy sock name new).map (·.epAddr) = (s.server.listOf sock name).take (servedBy sock name new).length

theorem servedBy_append (a b : List NameAnswer) : servedBy sock name (a ++ b) = servedBy sock name a ++ servedBy sock name b :=
  List.filter_append ..

theorem Turns.none (answers : t.answers = s.answers) (same : t.server.listOf sock name = s.server.listOf sock name) : Turns sock name s t [] :=
  ⟨by rw [answers, List.append_nil], same.trans (List.rotate_zero _).symm, fun _ => rfl⟩

theorem Turns.trans {u : NameSystem} {new new' : List NameAnswer} (first : Turns sock name s t new) (second : Turns sock name t u new') :
    Turns sock name s u (new ++ new') where
  answers := by rw [second.answers, first.answers, List.append_assoc]
  rotated := by rw [second.rotated, first.rotated, List.rotate_rotate, servedBy_append, List.length_append]
  served := fun le => by
    rw [servedBy_append, List.length_append] at le ⊢
    have isList : t.server.listOf sock name = (s.server.listOf sock name).drop (servedBy sock name new).length ++
        (s.server.listOf sock name).take (servedBy sock name new).length := by
      rw [first.rotated, List.rotate_eq_drop_append_take (by omega)]
    have le' : (servedBy sock name new').length ≤ ((s.server.listOf sock name).drop (servedBy sock name new).length).length := by
      rw [List.length_drop]
      omega
    have same := second.served (by rw [first.rotated, List.length_rotate]; omega)
    rw [List.map_append, first.served (by omega), same, isList, List.take_append_of_le_length le', List.take_add]

theorem step_turns (inv : Inv cfg s) {e : NameEvent} (allowed : s.Allowed e) (same : ¬s.Changes cfg sock name e) (stepped : s.step cfg e = some t) :
    ∃ new, Turns sock name s t new := by
  cases e with
  | register r =>
    cases stepped
    refine ⟨[], .none rfl ?_⟩
    rw [(NameServer.register_spec inv.proper allowed).2, if_neg fun here => same ⟨here.2.symm, here.1.symm⟩]
  | unregister r =>
    cases stepped
    refine ⟨[], .none rfl ?_⟩
    rw [(NameServer.unregister_spec inv.proper).2]
    split_ifs with here
    · obtain ⟨rfl, rfl⟩ := here
      refine List.filter_eq_self.mpr fun epAddr mem => decide_eq_true fun isAddr => ?_
      obtain ⟨q, isReg, on, rfl⟩ := inv.mem.mp mem
      exact same ⟨⟨rfl, rfl⟩, q, isReg, on.1, isAddr, on.2⟩
    · rfl
  | lookup core name' =>
    obtain ⟨t, answer, stepped', answers, -, -, served, rotated⟩ := inv.lookup core name'
    cases Option.some.inj (stepped.symm.trans stepped')
    refine ⟨answer.toList, answers, rotated sock name, fun _ => ?_⟩
    cases answer with
    | none => rfl
    | some a =>
      obtain ⟨isName, isHead⟩ := served a rfl
      by_cases here : a.name = name ∧ a.sock = sock
      · have isServed : servedBy sock name (Option.toList (some a)) = [a] := by simp [servedBy, here]
        obtain ⟨isName', rfl⟩ := here
        cases isName.symm.trans isName'
        obtain ⟨rest, isList⟩ := List.head?_eq_some_iff.mp isHead
        rw [isServed, isList]
        rfl
      · grind [servedBy]

theorem run_turns : ∀ {events : List NameEvent} {s : NameSystem}, Inv cfg s →
    Guarded (fun s e => s.Allowed e ∧ ¬s.Changes cfg sock name e) (step cfg) s events → run (step cfg) s events = some t → ∃ new, Turns sock name s t new
  | [], s, _, _, ran => ⟨[], by cases ran; exact .none rfl rfl⟩
  | e :: events, s, inv, guarded, ran => by
    obtain ⟨⟨allowed, same⟩, guarded⟩ := guarded
    obtain ⟨u, stepped, inv'⟩ := step_spec inv allowed
    rw [run, stepped] at ran
    obtain ⟨new, turns⟩ := step_turns inv allowed same stepped
    obtain ⟨new', turns'⟩ := run_turns inv' (guarded u stepped) ran
    exact ⟨new ++ new', turns.trans turns'⟩

/-- A lookup succeeds when a registration of the name is left, and gives the address of one, from the socket of the core that asks if
    that has one. As long as what is registered under a name on a socket stays the same, as many lookups as there are registrations
    get each of them once. -/
theorem lookups_find_registrations_in_turn (cfg : NameConfig) (events : List NameEvent)
    (allowed : Guarded Allowed (step cfg) init events) :
    ∃ s, run (step cfg) init events = some s ∧
      (∀ core name, ∃ t r served, s.server.nameLookup cfg core name = some (t, r, served) ∧
        (r.ack = true ↔ ∃ q ∈ s.registered, q.name = name) ∧
        (r.ack = true → ∃ q ∈ s.registered, q.name = name ∧ q.epAddr = r.epAddr ∧ served = some (cfg.coreToSock q.core) ∧
          ((∃ p ∈ s.registered, p.name = name ∧ cfg.coreToSock p.core = cfg.coreToSock core) →
            cfg.coreToSock q.core = cfg.coreToSock core))) ∧
      ∀ sock name more t, Guarded (fun s e => s.Allowed e ∧ ¬s.Changes cfg sock name e) (step cfg) s more →
        run (step cfg) s more = some t →
        ∃ new, t.answers = s.answers ++ new ∧ ((servedBy sock name new).length = (s.onSock cfg sock name).length →
          ((servedBy sock name new).map (·.epAddr)).Perm ((s.onSock cfg sock name).map (·.epAddr))) := by
  obtain ⟨s, ran, inv⟩ := run_spec Inv.init allowed
  refine ⟨s, ran, fun core name => ?_, fun sock name more t guarded ran' => ?_⟩
  · obtain ⟨t, epAddr, served, looked, isLooked⟩ := NameServer.nameLookup_spec cfg core name inv.proper
    refine ⟨t, _, served, looked, ?_⟩
    cases isLooked with
    | nowhere absent =>
      have unknown : ¬∃ q ∈ s.registered, q.name = name := by
        rintro ⟨q, isReg, isName⟩
        exact inv.listOf_ne_nil.mpr ⟨q, isReg, isName, rfl⟩ (absent _ (List.mem_range.mpr (cfg.coreToSock_lt q.core)))
      simp [unknown]
    | @found sock epAddr rest mem list valid isFirst =>
      obtain ⟨q, isReg, on, isAddr⟩ := inv.mem.mp (list ▸ List.mem_cons_self)
      refine ⟨by simpa [valid] using ⟨q, isReg, on.1⟩, fun _ => ⟨q, isReg, on.1, isAddr, congrArg some on.2.symm, fun some => ?_⟩⟩
      rw [on.2]
      exact isFirst (inv.listOf_ne_nil.mpr some)
  · obtain ⟨new, turns⟩ := run_turns inv guarded ran'
    refine ⟨new, turns.answers, fun all => ?_⟩
    have isLength : (s.server.listOf sock name).length = (s.onSock cfg sock name).length := by
      rw [(inv.lists sock name).length_eq, List.length_map]
    rw [turns.served (by omega), all, ← isLength, List.take_length]
    exact inv.lists sock name

/-- An address is registered twice and unregistered once: one registration is outstanding, and the lookup fails. -/
theorem one_request_unregisters_both :
    outstanding [.register ⟨0, 7, 100⟩, .register ⟨0, 7, 100⟩, .unregister ⟨0, 7, 100⟩] = [⟨0, 7, 100⟩] ∧
    ∃ s, run (step ⟨1, Nat.one_pos⟩) init [.register ⟨0, 7, 100⟩, .register ⟨0, 7, 100⟩, .unregister ⟨0, 7, 100⟩] = some s ∧
      (s.server.nameLookup ⟨1, Nat.one_pos⟩ 0 7).map (·.2.1.ack) = some false :=
  ⟨by decide, _, rfl, by decide⟩

def twoSockets : List NameEvent :=
  [.register ⟨0, 7, 100⟩, .register ⟨2, 7, 101⟩, .register ⟨1, 7, 102⟩, .register ⟨4, 7, 103⟩, .lookup 0 7, .unregister ⟨2, 7, 101⟩]

/-- Two registrations are left on the even socket. Two lookups from its cores, with a request for another name and a lookup on the
    other socket between them, get both. -/
theorem lookups_on_two_sockets : ∃ s, run (step ⟨2, Nat.two_pos⟩) init twoSockets = some s ∧
    (∀ core name, ∃ t r served, s.server.nameLookup ⟨2, Nat.two_pos⟩ core name = some (t, r, served) ∧
      (r.ack = true ↔ ∃ q ∈ s.registered, q.name = name)) ∧
    ∃ t new, run (step ⟨2, Nat.two_pos⟩) s [.lookup 0 7, .register ⟨0, 8, 9⟩, .lookup 1 7, .lookup 2 7] = some t ∧
      t.answers = s.answers ++ new ∧ ((servedBy 0 7 new).map (·.epAddr)).Perm [103, 100] := by
  have checked : checkRun (fun s e => decide (s.Allowed e)) (step ⟨2, Nat.two_pos⟩) init twoSockets = true := rfl
  have allowed := guarded_of_check (fun _ _ => of_decide_eq_true) init checked
  obtain ⟨s, ran, found, inTurn⟩ := lookups_find_registrations_in_turn ⟨2, Nat.two_pos⟩ twoSockets allowed
  obtain rfl := Option.some.inj (ran.symm.trans rfl)
  refine ⟨_, rfl, fun core name => ?_, ?_⟩
  · obtain ⟨t, r, served, looked, isAck, -⟩ := found core name
    exact ⟨t, r, served, looked, isAck⟩
  · obtain ⟨new, answers, perm⟩ := inTurn 0 7 [.lookup 0 7, .register ⟨0, 8, 9⟩, .lookup 1 7, .lookup 2 7] _
      ⟨⟨trivial, id⟩, fun _ _ => ⟨⟨(by decide : 9 ≠ invalidAddress), fun on => absurd on.1 (by decide)⟩, fun _ _ =>
        ⟨⟨trivial, id⟩, fun _ _ => ⟨⟨trivial, id⟩, fun _ _ => trivial⟩⟩⟩⟩ rfl
    refine ⟨_, new, rfl, answers, perm ?_⟩
    obtain rfl := List.append_cancel_left (answers.symm.trans rfl)
    rfl

end NameSystem
end Faux
