import Faux.Lib.Cyclic
import Faux.Lib.Places
import Faux.Lib.Run
import Faux.Services.Core

/-! The core server: a request moves a core from its group to a process, and a sweep moves the cores of a process back. -/

namespace Faux
open Function Lib
namespace CoreServer

def IsCore (cfg : CoreConfig) (core : Nat) : Prop := 0 < core ∧ core < cfg.cores

structure Inv (cfg : CoreConfig) (s : CoreServer) : Prop where
  placed : Placed s.coresAt (IsCore cfg)
  own : ∀ group, ∀ core ∈ s.coregroup group, core % cfg.groups = group
  polled : ∀ pid, pid ∈ s.pollpids ↔ (s.pidcore pid).isSome = true
  sorted : s.pollpids.Pairwise (· < ·)

section
variable {cfg : CoreConfig} {s t : CoreServer} {pid : Int} {group core : Nat} {cores : List Nat}

/-! ### The start -/

theorem coregroup_pushBacks : ∀ (cores : List Nat) (s : CoreServer) (group : Nat),
    (cores.foldl (fun s i => s.pushBack (i % cfg.groups) i) s).coregroup group = s.coregroup group ++ cores.filter (· % cfg.groups = group)
  | [], s, group => by simp
  | core :: cores, s, group => by
    rw [List.foldl_cons, coregroup_pushBacks cores]
    by_cases isGroup : core % cfg.groups = group
    · subst isGroup
      simp [pushBack]
    · simp [pushBack, isGroup, update_of_ne (Ne.symm isGroup)]

theorem pushBacks_others : ∀ (cores : List Nat) (s : CoreServer), (cores.foldl (fun s i => s.pushBack (i % cfg.groups) i) s).pidcore = s.pidcore ∧
    (cores.foldl (fun s i => s.pushBack (i % cfg.groups) i) s).pollpids = s.pollpids
  | [], _ => ⟨rfl, rfl⟩
  | core :: cores, s => pushBacks_others cores (s.pushBack (core % cfg.groups) core)

theorem coregroup_init (group : Nat) : (init cfg).coregroup group = (List.range' 1 (cfg.cores - 1)).filter (· % cfg.groups = group) := by
  rw [init, coregroup_pushBacks, List.nil_append]

theorem mem_init : core ∈ (init cfg).coregroup group ↔ IsCore cfg core ∧ core % cfg.groups = group := by
  rw [coregroup_init, List.mem_filter, List.mem_range'_1, decide_eq_true_eq, IsCore]
  constructor
  · omega
  · rintro ⟨range, isGroup⟩
    exact ⟨by omega, isGroup⟩

theorem inv_init : Inv cfg (init cfg) where
  placed := by
    have nobody : ∀ pid, (init cfg).coresAt (.held pid) = [] := fun pid => by rw [coresAt, init, (pushBacks_others ..).1]; rfl
    intro core
    constructor
    · intro isCore
      refine ⟨.free (core % cfg.groups), ?_, ?_⟩
      · have nodup : ((init cfg).coregroup (core % cfg.groups)).Nodup := by
          rw [coregroup_init]
          exact (List.nodup_range' ..).filter _
        exact List.count_eq_one_of_mem nodup (mem_init.mpr ⟨isCore, rfl⟩)
      · intro place other mem
        cases place with
        | free group => exact other (congrArg CorePlace.free (mem_init.mp mem).2.symm)
        | held pid =>
          rw [nobody] at mem
          cases mem
    · intro no place mem
      cases place with
      | free group => exact no (mem_init.mp mem).1
      | held pid =>
        rw [nobody] at mem
        cases mem
  own := fun group core mem => (mem_init.mp mem).2
  polled := fun pid => by
    rw [init, (pushBacks_others ..).1, (pushBacks_others ..).2]
    exact iff_of_false List.not_mem_nil Bool.false_ne_true
  sorted := by
    rw [init, (pushBacks_others ..).2]
    exact .nil

theorem mem_insertPid {p : Int} : ∀ {ps : List Int}, p ∈ insertPid pid ps ↔ p = pid ∨ p ∈ ps
  | [] => by simp [insertPid]
  | q :: ps => by
    rw [insertPid]
    split_ifs with less same
    · rw [List.mem_cons]
    · subst same
      rw [List.mem_cons]
      tauto
    · rw [List.mem_cons, mem_insertPid, List.mem_cons]
      tauto

theorem sorted_insertPid : ∀ {ps : List Int}, ps.Pairwise (· < ·) → (insertPid pid ps).Pairwise (· < ·)
  | [], _ => List.pairwise_singleton ..
  | q :: ps, sorted => by
    obtain ⟨first, sorted'⟩ := List.pairwise_cons.mp sorted
    rw [insertPid]
    split_ifs with less same
    · refine List.pairwise_cons.mpr ⟨fun p mem => ?_, sorted⟩
      rcases List.mem_cons.mp mem with rfl | mem
      · exact less
      · exact Int.lt_trans less (first p mem)
    · exact sorted
    · refine List.pairwise_cons.mpr ⟨fun p mem => ?_, sorted_insertPid sorted'⟩
      rcases mem_insertPid.mp mem with rfl | mem
      · omega
      · exact first p mem

/-! ### A request -/

/-- The search ends. It finds the first core of a group, of the one where it starts if that has a core, or no group has a core. -/
theorem searchGroup_spec {start : Nat} (startLt : start < cfg.groups) : ∀ {fuel group : Nat}, group < cfg.groups →
    cfg.groups ≤ cyclicDistance cfg.groups start group + fuel →
    (∀ g < cfg.groups, cyclicDistance cfg.groups start g < cyclicDistance cfg.groups start group → s.coregroup g = []) →
    (s.searchGroup cfg start fuel group = some none ∧ s.Exhausted cfg) ∨
      ∃ g core rest, s.searchGroup cfg start fuel group = some (some (g, core, rest)) ∧ s.coregroup g = core :: rest ∧ (s.coregroup start ≠ [] → g = start) := by
  intro fuel
  induction fuel with
  | zero =>
    intro group lt enough _
    have := cyclicDistance_lt startLt lt
    omega
  | succ fuel ih =>
    intro group lt enough before
    rw [searchGroup]
    cases free : s.coregroup group with
    | cons core rest => grind [cyclicDistance]
    | nil =>
      have nextLt : (group + 1) % cfg.groups < cfg.groups := Nat.mod_lt _ cfg.some
      have seen : ∀ g < cfg.groups, cyclicDistance cfg.groups start g ≤ cyclicDistance cfg.groups start group → s.coregroup g = [] := by
        intro g gLt le
        rcases Nat.lt_or_eq_of_le le with less | same
        · exact before g gLt less
        · rwa [cyclicDistance_inj startLt gLt lt same]
      simp only
      by_cases back : (group + 1) % cfg.groups = start
      · refine .inl ⟨if_neg (not_not.mpr back), fun g gLt => seen g gLt ?_⟩
        have := cyclicDistance_last lt back
        have := cyclicDistance_lt startLt gLt
        omega
      · rw [if_pos back]
        have next := cyclicDistance_next startLt lt back
        exact ih nextLt (by omega) fun g gLt less => seen g gLt (by omega)

def handOut (s : CoreServer) (pid : Int) (group core : Nat) (rest : List Nat) : CoreServer where
  coregroup := update s.coregroup group rest
  pidcore := update s.pidcore pid (some ((s.pidcore pid).getD [] ++ [core]))
  pollpids := insertPid pid s.pollpids

theorem coresAt_handOut {rest : List Nat} (place : CorePlace) : (s.handOut pid group core rest).coresAt place =
    if place = .free group then rest else if place = .held pid then s.coresAt place ++ [core] else s.coresAt place := by
  cases place with
  | free g =>
    simp only [coresAt, handOut, CorePlace.free.injEq, reduceCtorEq, if_false]
    by_cases same : g = group
    · rw [same, update_self, if_pos rfl]
    · rw [update_of_ne same, if_neg same]
  | held p =>
    simp only [coresAt, handOut, CorePlace.held.injEq, reduceCtorEq, if_false]
    by_cases same : p = pid
    · rw [same, update_self, if_pos rfl]
      rfl
    · rw [update_of_ne same, if_neg same]

theorem inv_handOut {rest : List Nat} (inv : Inv cfg s) (free : s.coregroup group = core :: rest) :
    Inv cfg (s.handOut pid group core rest) where
  placed := by
    have free' : s.coresAt (.free group) = core :: rest := free
    have mem : core ∈ s.coresAt (.free group) := free' ▸ List.mem_cons_self
    obtain ⟨once, others⟩ := inv.placed.only mem
    refine inv.placed.moves fun x => ?_
    by_cases isCore : x = core
    · subst isCore
      refine .inr ⟨inv.placed.thing mem, .held pid, ?_, fun place other inPlace => ?_⟩
      · grind [coresAt_handOut]
      · rw [coresAt_handOut] at inPlace
        split_ifs at inPlace with isGroup
        · grind
        · exact others place isGroup inPlace
    · grind [coresAt_handOut]
  own := by
    intro g x mem
    refine inv.own g x ?_
    by_cases same : g = group
    · subst same
      rw [free]
      simp only [handOut, update_self] at mem
      exact List.mem_cons_of_mem _ mem
    · simpa only [handOut, update_of_ne same] using mem
  polled := by
    intro p
    rw [handOut, mem_insertPid]
    by_cases same : p = pid
    · grind
    · simp only [update_of_ne same, same, false_or]
      exact inv.polled p
  sorted := sorted_insertPid inv.sorted

/-- A request is refused when no core is free, and else moves a core, of the group that was asked for if it can. -/
theorem coreGet_spec (inv : Inv cfg s) (pid : Int) (group : Nat) : ∃ t r, s.coreGet cfg pid group = some (t, r) ∧ Inv cfg t ∧
    (r.ack = false ↔ s.Exhausted cfg) ∧ (r.ack = true → r.core ∈ t.coresAt (.held pid)) ∧
    (group < cfg.groups → s.coregroup group ≠ [] → r.ack = true ∧ r.core ∈ s.coregroup group) := by
  have start : (if group ≥ cfg.groups then 0 else group) < cfg.groups := by
    split_ifs with beyond
    · exact cfg.some
    · exact Nat.lt_of_not_le beyond
  have here : cyclicDistance cfg.groups (if group ≥ cfg.groups then 0 else group) (if group ≥ cfg.groups then 0 else group) = 0 := by simp [cyclicDistance]
  rw [coreGet]
  rcases searchGroup_spec start start (Nat.le_add_left ..) (fun g _ less => absurd (here ▸ less) (Nat.not_lt_zero _)) with ⟨searched, exhausted⟩ | ⟨g, core, rest, searched, free, first⟩
  · refine ⟨s, { core := sizeMod - 1, ack := false }, by rw [searched]; rfl, inv, ⟨fun _ => exhausted, fun _ => rfl⟩, fun ack => absurd ack Bool.false_ne_true, ?_⟩
    exact fun valid some => absurd (exhausted group valid) some
  · refine ⟨s.handOut pid g core rest, { core, ack := true }, by rw [searched]; rfl, inv_handOut inv free, ⟨fun ack => absurd ack.symm Bool.false_ne_true, fun exhausted => ?_⟩, fun _ => ?_, ?_⟩
    · have valid : g < cfg.groups := by
        rw [← inv.own g core (free ▸ List.mem_cons_self)]
        exact Nat.mod_lt _ cfg.some
      rw [exhausted g valid] at free
      cases free
    · simp [coresAt_handOut]
    · grind

/-! ### A sweep -/

theorem pushFronts_eq : ∀ (cores : List Nat) (groups : Nat → List Nat) (group : Nat),
    cores.reverse.foldl (fun groups core => pushFront groups (core % cfg.groups) core) groups group = cores.filter (· % cfg.groups = group) ++ groups group
  | [], groups, group => rfl
  | core :: cores, groups, group => by
    rw [List.reverse_cons, List.foldl_append, List.foldl_cons, List.foldl_nil, pushFront]
    by_cases isGroup : core % cfg.groups = group
    · subst isGroup
      simp [pushFronts_eq cores]
    · rw [update_of_ne (Ne.symm isGroup), pushFronts_eq cores, List.filter_cons_of_neg (by simpa using isGroup)]

def giveBack (cfg : CoreConfig) (s : CoreServer) (pid : Int) (cores : List Nat) : CoreServer where
  coregroup := cores.reverse.foldl (fun groups core => pushFront groups (core % cfg.groups) core) s.coregroup
  pidcore := update s.pidcore pid none
  pollpids := s.pollpids.filter (· ≠ pid)

theorem coregroup_giveBack (group : Nat) :
    (s.giveBack cfg pid cores).coregroup group = cores.filter (· % cfg.groups = group) ++ s.coregroup group := pushFronts_eq ..

theorem coresAt_giveBack (p : Int) : (s.giveBack cfg pid cores).coresAt (.held p) = if p = pid then [] else s.coresAt (.held p) := by
  simp only [coresAt, giveBack]
  by_cases same : p = pid
  · rw [same, update_self, if_pos rfl]
    rfl
  · rw [update_of_ne same, if_neg same]

theorem placed_giveBack (inv : Inv cfg s) (held : s.coresAt (.held pid) = cores) :
    Placed (s.giveBack cfg pid cores).coresAt (IsCore cfg) := by
  refine inv.placed.moves fun core => ?_
  by_cases mem : core ∈ cores
  · have mem' : core ∈ s.coresAt (.held pid) := held ▸ mem
    obtain ⟨once, others⟩ := inv.placed.only mem'
    refine .inr ⟨inv.placed.thing mem', .free (core % cfg.groups), ?_, fun place other inPlace => ?_⟩
    · have notFree : core ∉ s.coregroup (core % cfg.groups) := others (.free _) (by simp)
      rw [held] at once
      rw [coresAt, coregroup_giveBack, List.count_append, List.count_filter (by simp), once, List.count_eq_zero_of_not_mem notFree]
    · cases place with
      | free group =>
        rw [coresAt, coregroup_giveBack, List.mem_append, List.mem_filter] at inPlace
        rcases inPlace with ⟨-, isGroup⟩ | old
        · exact other (congrArg CorePlace.free (of_decide_eq_true isGroup).symm)
        · exact others (.free group) (by simp) old
      | held p => grind [coresAt_giveBack]
  · refine .inl fun place => ?_
    cases place with
    | free group =>
      have none : core ∉ cores.filter (· % cfg.groups = group) := fun inFilter => mem (List.mem_filter.mp inFilter).1
      rw [coresAt, coregroup_giveBack, List.count_append, List.count_eq_zero_of_not_mem none, Nat.zero_add]
      rfl
    | held p =>
      rw [coresAt_giveBack]
      split_ifs with same
      · rw [same, held, List.count_eq_zero_of_not_mem mem, List.count_nil]
      · rfl

theorem reclaim_spec (inv : Inv cfg s) (polled : pid ∈ s.pollpids) : ∃ t, s.reclaim cfg pid = some t ∧ Inv cfg t ∧
    ∀ p ∈ s.pollpids, p ≠ pid → p ∈ t.pollpids := by
  obtain ⟨cores, held⟩ := Option.isSome_iff_exists.mp ((inv.polled pid).mp polled)
  have isHeld : s.coresAt (.held pid) = cores := by rw [coresAt, held]; rfl
  refine ⟨s.giveBack cfg pid cores, by rw [reclaim, held]; rfl, ⟨placed_giveBack inv isHeld, ?_, ?_, inv.sorted.filter _⟩, ?_⟩
  · intro group core mem
    rw [coregroup_giveBack, List.mem_append, List.mem_filter] at mem
    rcases mem with ⟨-, isGroup⟩ | old
    · exact of_decide_eq_true isGroup
    · exact inv.own group core old
  · intro p
    rw [giveBack, List.mem_filter, decide_eq_true_eq]
    by_cases same : p = pid
    · subst same
      simp
    · simp only [update_of_ne same, ne_eq, same, not_false_eq_true, and_true]
      exact inv.polled p
  · exact fun p mem other => List.mem_filter.mpr ⟨mem, decide_eq_true other⟩

theorem sweep_spec (alive : Int → Bool) : ∀ {pids : List Int} {s : CoreServer}, Inv cfg s → pids.Nodup → (∀ pid ∈ pids, pid ∈ s.pollpids) →
    ∃ t, s.sweep cfg alive pids = some t ∧ Inv cfg t
  | [], s, inv, _, _ => ⟨s, rfl, inv⟩
  | pid :: pids, s, inv, nodup, polled => by
    obtain ⟨new, nodup⟩ := List.nodup_cons.mp nodup
    obtain ⟨first, others⟩ := List.forall_mem_cons.mp polled
    rw [sweep]
    by_cases isAlive : alive pid = true
    · rw [if_pos isAlive]
      exact sweep_spec alive inv nodup others
    · rw [if_neg isAlive]
      obtain ⟨t, reclaimed, inv', kept⟩ := reclaim_spec inv first
      obtain ⟨u, swept, inv''⟩ := sweep_spec alive inv' nodup fun p mem => kept p (others p mem) fun same => new (same ▸ mem)
      exact ⟨u, by rw [reclaimed]; exact swept, inv''⟩

theorem step_spec (inv : Inv cfg s) (e : Event) : ∃ t, s.step cfg e = some t ∧ Inv cfg t := by
  cases e with
  | coreGet pid group =>
    obtain ⟨t, r, got, inv', -⟩ := coreGet_spec inv pid group
    exact ⟨t, by rw [step, got]; rfl, inv'⟩
  | idle alive => exact sweep_spec alive inv (inv.sorted.imp Int.ne_of_lt) fun _ mem => mem

theorem run_spec : ∀ (events : List Event) {s : CoreServer}, Inv cfg s → ∃ t, run (step cfg) s events = some t ∧ Inv cfg t
  | [], s, inv => ⟨s, rfl, inv⟩
  | e :: events, s, inv => by
    obtain ⟨t, stepped, inv'⟩ := step_spec inv e
    obtain ⟨u, ran, inv''⟩ := run_spec events inv'
    exact ⟨u, by rw [run, stepped]; exact ran, inv''⟩

end

/-- After any events every core but core 0 is in one place, the free list of its own group or the list of a process, and nothing else is
    handed out. A request is refused when no core is free in any group, and else moves a free core to the process; it is a core of
    the group that was asked for whenever that group has one. -/
theorem cores_are_exclusive (cfg : CoreConfig) (events : List Event) : ∃ s, run (step cfg) (init cfg) events = some s ∧
    (∀ core, 0 < core → core < cfg.cores → ∃ place, (place = .free (core % cfg.groups) ∨ ∃ pid, place = .held pid) ∧ InOnePlace s.coresAt core place) ∧
    (∀ place, ∀ core ∈ s.coresAt place, 0 < core ∧ core < cfg.cores) ∧
    ∀ pid group, ∃ t r, s.coreGet cfg pid group = some (t, r) ∧ (r.ack = false ↔ s.Exhausted cfg) ∧ (r.ack = true → r.core ∈ t.coresAt (.held pid)) ∧
      (group < cfg.groups → s.coregroup group ≠ [] → r.ack = true ∧ r.core ∈ s.coregroup group) := by
  obtain ⟨s, ran, inv⟩ := run_spec events (@inv_init cfg)
  refine ⟨s, ran, fun core some lt => ?_, fun place core mem => inv.placed.thing mem, fun pid group => ?_⟩
  · obtain ⟨place, once, others⟩ := (inv.placed core).1 ⟨some, lt⟩
    refine ⟨place, ?_, once, others⟩
    cases place with
    | free group =>
      have mem : core ∈ s.coregroup group := List.count_pos_iff.mp (Nat.lt_of_lt_of_eq Nat.one_pos once.symm)
      exact .inl (congrArg CorePlace.free (inv.own group core mem).symm)
    | held pid => exact .inr ⟨pid, rfl⟩
  · obtain ⟨t, r, got, -, done⟩ := coreGet_spec inv pid group
    exact ⟨t, r, got, done⟩

end CoreServer
end Faux
