import Faux.Sched.Environ
import Faux.Theorems.Fs.Carried
import Faux.Theorems.Fs.Inherit

/-! A program that is executed has the descriptors of the process that executes it: each of the variables that `__execve` writes
    is found by its name and read back, and the list of descriptors is skipped by what each of them takes. -/

namespace Faux
open Lib

/-! ### Variables -/

section
variable {a b s t value : List UInt8} {env : List Variable} {v : Variable} {fd : Nat}

theorem eq_of_append_eq : ∀ {a b : List UInt8}, 61 ∉ a → 61 ∉ b → a ++ 61 :: s = b ++ 61 :: t → a = b ∧ s = t
  | [], [], _, _, same => ⟨rfl, (List.cons.inj same).2⟩
  | [], _ :: _, _, plain, same => absurd (List.cons.inj same).1 (List.ne_of_not_mem_cons plain)
  | _ :: _, [], plain, _, same => absurd (List.cons.inj same).1.symm (List.ne_of_not_mem_cons plain)
  | _ :: a, _ :: b, plain, plain', same => by
    obtain ⟨head, tail⟩ := List.cons.inj same
    obtain ⟨rest, rest'⟩ := eq_of_append_eq (List.not_mem_of_not_mem_cons plain) (List.not_mem_of_not_mem_cons plain') tail
    exact ⟨by rw [head, rest], rest'⟩

def HasName (name : List UInt8) (v : Variable) : Prop := (name ++ [61]).isPrefixOf v = true

theorem hasName_iff : HasName a v ↔ ∃ t, v = assign a t := by
  rw [HasName, List.isPrefixOf_iff_prefix]
  constructor
  · rintro ⟨t, rfl⟩
    exact ⟨t, by rw [assign, List.append_assoc, List.singleton_append]⟩
  · rintro ⟨t, rfl⟩
    exact ⟨t, by rw [assign, List.append_assoc, List.singleton_append]⟩

theorem hasName_unique (plain : 61 ∉ a) (plain' : 61 ∉ b) (named : HasName a v) (named' : HasName b v) : a = b := by
  obtain ⟨s, rfl⟩ := hasName_iff.mp named
  obtain ⟨t, same⟩ := hasName_iff.mp named'
  exact (eq_of_append_eq plain plain' same).1

theorem getenv_assign : getenv (assign a value :: env) a = some value := by
  have named : HasName a (assign a value) := hasName_iff.mpr ⟨value, rfl⟩
  have drop : (assign a value).drop (a.length + 1) = value := by
    rw [assign, ← List.drop_drop, List.drop_left, List.drop_one, List.tail_cons]
  rw [getenv, List.find?_cons_of_pos named, Option.map_some, drop]

theorem getenv_skip : ∀ {vars : List Variable}, (∀ v ∈ vars, ¬HasName a v) → getenv (vars ++ env) a = getenv env a
  | [], _ => rfl
  | v :: vars, others => by
    have rest : getenv (vars ++ env) a = getenv env a := getenv_skip fun v' mem => others v' (List.mem_cons_of_mem _ mem)
    unfold getenv at rest ⊢
    rw [List.cons_append, List.find?_cons_of_neg (others v (List.mem_cons_self ..)), rest]

theorem getenv_eq_none (others : ∀ v ∈ env, ¬HasName a v) : getenv env a = none := by
  have skipped : getenv (env ++ []) a = none := getenv_skip others
  rw [List.append_nil] at skipped
  exact skipped

theorem getenv_isSome (mem : assign a value ∈ env) : (getenv env a).isSome = true := by
  rw [getenv, Option.isSome_map, List.find?_isSome]
  exact ⟨_, mem, hasName_iff.mpr ⟨value, rfl⟩⟩

theorem getenv_unsetenv (plain : 61 ∉ a) (plain' : 61 ∉ b) (ne : a ≠ b) : getenv (unsetenv env a) b = getenv env b := by
  unfold getenv unsetenv
  rw [List.find?_filter]
  congr 2
  funext v
  cases named : (b ++ [61]).isPrefixOf v with
  | false => simp
  | true =>
    have other : (a ++ [61]).isPrefixOf v = false := by
      rw [← Bool.not_eq_true]
      exact fun named' => ne (hasName_unique plain plain' named' named)
    simp [other]

end

/-! ### Numbers -/

section
variable {base n m : Nat} {c : UInt8} {s : List UInt8}

theorem not_mem_showNat (pos : 0 < base) (le : base ≤ 16) (notDigit : digitValue c = 16) : c ∉ showNat base n := fun mem => by
  have lt := mem_showDigits pos le mem
  omega

theorem showNat_inj (same : showNat 10 n = showNat 10 m) : n = m := by
  have one : scanNat 10 (showNat 10 n ++ []) = some (n, []) := scanNat_showNat (by decide) (by decide) fun _ => (by simp)
  have two : scanNat 10 (showNat 10 m ++ []) = some (m, []) := scanNat_showNat (by decide) (by decide) fun _ => (by simp)
  rw [same] at one
  exact (Prod.mk.inj (Option.some.inj (one.symm.trans two))).1

theorem stops_cons (notDigit : digitValue c = 16) (le : base ≤ 16) : Stops base (c :: s) := fun c' mem => by
  cases mem
  omega

theorem stops_nil : Stops base [] := fun _ mem => by cases mem

theorem plain_fdVariable : 61 ∉ fdVariable n := by
  unfold fdVariable
  rw [List.mem_append]
  rintro (mem | mem)
  · exact absurd mem (by decide)
  · exact not_mem_showNat (by decide) (by decide) (by decide) mem

theorem fdVariable_inj (same : fdVariable n = fdVariable m) : n = m := showNat_inj (List.append_cancel_left same)

theorem length_showNat (small : fd < 256) : (showNat 16 fd).length + 1 = fdWidth fd := by
  unfold showNat fdWidth
  rw [if_neg (by omega : ¬fd > 0xFF), if_neg (by omega : ¬fd > 0xFFF)]
  cases fd with
  | zero => rfl
  | succ fd =>
    unfold showDigits
    split_ifs with one more more
    · omega
    · rfl
    · cases fd with
      | zero => omega
      | succ fd => grind [showDigits]
    · omega

end

section
variable {n : Nat} {fd : Fd} {x : InodeType}

theorem strstr_externalValue : strstr [58, 58, 58, 58] (externalValue n) = true :=
  strstr_iff.mpr (List.suffix_append _ _).isInfix

theorem scanNat_externalValue : scanNat 10 (externalValue n) = some (n, [58, 58, 58, 58]) :=
  scanNat_showNat (by decide) (by decide) (stops_cons (by decide) (by decide))

theorem strstr_internalValue (x : ExecInode) : strstr [58, 58, 58, 58] (internalValue n fd x) = false := by
  rw [← Bool.not_eq_true, strstr_iff]
  intro inside
  have colons : ∀ base k, 0 < base → base ≤ 16 → (showNat base k).count 58 = 0 := fun base k pos le =>
    List.count_eq_zero.mpr (not_mem_showNat pos le (by decide))
  have count : (internalValue n fd x).count 58 = 3 := by
    simp only [internalValue, List.count_append, List.count_cons, colons 10 _ (by decide) (by decide), colons 16 _ (by decide) (by decide)]
    decide
  have four : ([58, 58, 58, 58] : List UInt8).count 58 ≤ _ := inside.sublist.count_le 58
  rw [count] at four
  exact absurd four (by decide)

theorem scanInternal_internalValue (x : ExecInode) : scanInternal (internalValue n fd x) = some (n, fd, x) := by
  have last : scanNat 16 (showNat 16 x.type) = some (x.type, []) := by
    have scanned : scanNat 16 (showNat 16 x.type ++ []) = _ := scanNat_showNat (by decide) (by decide) stops_nil
    rwa [List.append_nil] at scanned
  have decimal : ∀ k s, scanNat 10 (showNat 10 k ++ 58 :: s) = some (k, 58 :: s) := fun _ _ =>
    scanNat_showNat (by decide) (by decide) (stops_cons (by decide) (by decide))
  have hex : ∀ k s, scanNat 16 (showNat 16 k ++ 58 :: s) = some (k, 58 :: s) := fun _ _ =>
    scanNat_showNat (by decide) (by decide) (stops_cons (by decide) (by decide))
  have hex' : ∀ k s, scanNat 16 (showNat 16 k ++ 64 :: s) = some (k, 64 :: s) := fun _ _ =>
    scanNat_showNat (by decide) (by decide) (stops_cons (by decide) (by decide))
  simp only [scanInternal, internalValue, decimal, hex, hex', last, scanByte_cons, Option.bind_eq_bind, Option.bind_some]

end

/-! ### The environment of a process -/

section
variable {p : Process} {fds : List Nat} {env : List Variable} {q : Process} {addrs : List (Nat × Nat)}
  {envp : List Variable} {cwd : Cwd}

def Process.valueOf (p : Process) (fd : Nat) : List UInt8 :=
  match p.map fd with
  | .free => []
  | .external n => externalValue n
  | .internal _ =>
    match p.fdGet fd with
    | .ok (n, _, e) => internalValue n e.object.fd e.object.inode.exec
    | .error _ => []

def Process.mapped (p : Process) (fds : List Nat) : List Nat := fds.filter fun fd => p.map fd ≠ .free

def Process.variables (p : Process) (fds : List Nat) : List Variable := fds.map fun fd => assign (fdVariable fd) (p.valueOf fd)

def fdList (fds : List Nat) : List UInt8 := fds.flatMap fun fd => showNat 16 fd ++ [58]

theorem fdList_cons : fdList (fd :: fds) = showNat 16 fd ++ 58 :: fdList fds := by
  rw [fdList, List.flatMap_cons, List.append_assoc]
  rfl

theorem variables_cons : p.variables (fd :: fds) = assign (fdVariable fd) (p.valueOf fd) :: p.variables fds := rfl

theorem mapped_cons_free (isFree : p.map fd = .free) : p.mapped (fd :: fds) = p.mapped fds :=
  List.filter_cons_of_neg (by simp [isFree])

theorem mapped_cons (notFree : p.map fd ≠ .free) : p.mapped (fd :: fds) = fd :: p.mapped fds :=
  List.filter_cons_of_pos (decide_eq_true notFree)

theorem fdEntries_eq (wf : p.Wf) : ∀ fds, fdEntries p fds = .ok (p.variables (p.mapped fds), fdList (p.mapped fds))
  | [] => rfl
  | fd :: fds => by
    unfold fdEntries
    cases slot : p.map fd with
    | free => rw [mapped_cons_free slot, fdEntries_eq wf fds]
    | external n =>
      have value : p.valueOf fd = externalValue n := by rw [Process.valueOf, slot]
      rw [mapped_cons (by simp [slot]), fdEntries_eq wf fds, fdList_cons, variables_cons, value]
      rfl
    | internal n =>
      obtain ⟨a, e, got⟩ := wf.fdGet slot
      have value : p.valueOf fd = internalValue n e.object.fd e.object.inode.exec := by
        rw [Process.valueOf, slot]
        simp only [got]
      simp only [got, ok_bind]
      rw [mapped_cons (by simp [slot]), fdEntries_eq wf fds, fdList_cons, variables_cons, value]
      rfl

theorem not_hasName_variables {name : List UInt8} (plain : 61 ∉ name) (other : ∀ fd, name ≠ fdVariable fd) :
    ∀ v ∈ p.variables fds, ¬HasName name v := fun v mem named => by
  obtain ⟨fd, -, rfl⟩ := List.mem_map.mp mem
  exact other fd (hasName_unique plain plain_fdVariable named (hasName_iff.mpr ⟨_, rfl⟩))

theorem getenv_variables {rest : List Variable} :
    ∀ {fds : List Nat}, fd ∈ fds → getenv (p.variables fds ++ rest) (fdVariable fd) = some (p.valueOf fd)
  | fd' :: fds, mem => by
    rw [variables_cons, List.cons_append]
    by_cases same : fd = fd'
    · subst same
      exact getenv_assign
    · have others : ∀ v ∈ [assign (fdVariable fd') (p.valueOf fd')], ¬HasName (fdVariable fd) v := fun v isHead named => by
        rw [List.mem_singleton.mp isHead] at named
        exact same (fdVariable_inj (hasName_unique plain_fdVariable plain_fdVariable named (hasName_iff.mpr ⟨_, rfl⟩)))
      exact (getenv_skip others).trans (getenv_variables ((List.mem_cons.mp mem).resolve_left same))

/-! ### The copy -/

theorem copyFds_nil {fuel : Nat} : Process.copyFds (fuel + 1) [] env q = .ok q := rfl

theorem copyFds_eq_inherit (wf : p.Wf) : ∀ {fds : List Nat} {fuel : Nat} {env : List Variable} {q : Process}, fds.length < fuel →
    fds.Nodup → (∀ fd ∈ fds, fd < fdCount ∧ p.map fd ≠ .free ∧ getenv env (fdVariable fd) = some (p.valueOf fd)) →
    Process.copyFds fuel (fdList fds) env q = p.inherit fds q
  | [], fuel + 1, _, _, _, _, _ => copyFds_nil
  | fd :: fds, fuel + 1, env, q, enough, nodup, values => by
    obtain ⟨notMem, nodup⟩ := List.nodup_cons.mp nodup
    obtain ⟨lt, notFree, value⟩ := values fd (List.mem_cons_self ..)
    have scanned : scanNat 16 (fdList (fd :: fds)) = some (fd, 58 :: fdList fds) := by
      rw [fdList_cons]
      exact scanNat_showNat (by decide) (by decide) (stops_cons (by decide) (by decide))
    have skipped : (fdList (fd :: fds)).drop (fdWidth fd) = fdList fds := by
      rw [fdList_cons, ← length_showNat lt, ← List.drop_drop, List.drop_left, List.drop_one, List.tail_cons]
    have rest : ∀ q, Process.copyFds fuel (fdList fds) (unsetenv env (fdVariable fd)) q = p.inherit fds q := fun q => by
      refine copyFds_eq_inherit wf (Nat.lt_of_succ_lt_succ enough) nodup fun fd' mem => ?_
      obtain ⟨lt', notFree', value'⟩ := values fd' (List.mem_cons_of_mem _ mem)
      have ne : fdVariable fd ≠ fdVariable fd' := fun same => notMem (fdVariable_inj same ▸ mem)
      exact ⟨lt', notFree', (getenv_unsetenv plain_fdVariable plain_fdVariable ne).trans value'⟩
    unfold Process.copyFds Process.inherit
    simp only [scanned, if_pos lt, value, skipped, rest]
    cases slot : p.map fd with
    | free => exact absurd slot notFree
    | external n =>
      have isValue : p.valueOf fd = externalValue n := by rw [Process.valueOf, slot]
      rw [isValue, Process.copyFd, if_pos strstr_externalValue, scanNat_externalValue]
      rfl
    | internal n =>
      obtain ⟨a, e, got⟩ := wf.fdGet slot
      have isValue : p.valueOf fd = internalValue n e.object.fd e.object.inode.exec := by
        rw [Process.valueOf, slot]
        simp only [got]
      rw [isValue, Process.copyFd, strstr_internalValue, scanInternal_internalValue]
      simp only [Bool.false_eq_true, if_false, start_exec, got, ok_bind]
      cases q.fdCreate (.alloc e.object.inode e.object.fd) false with
      | error f => rfl
      | ok r => rfl

theorem inherit_mapped : ∀ {fds : List Nat} {q : Process}, p.inherit (p.mapped fds) q = p.inherit fds q
  | [], _ => rfl
  | fd :: fds, q => by
    cases slot : p.map fd with
    | free =>
      rw [mapped_cons_free slot, inherit_mapped]
      conv_rhs => unfold Process.inherit
      simp only [slot]
    | external n =>
      rw [mapped_cons (by simp [slot])]
      unfold Process.inherit
      simp only [slot]
      exact inherit_mapped
    | internal n =>
      rw [mapped_cons (by simp [slot])]
      unfold Process.inherit
      simp only [slot, inherit_mapped]

/-! ### The whole environment -/

theorem mapped_nodup (nodup : fds.Nodup) : (p.mapped fds).Nodup := nodup.filter _

theorem mem_mapped : fd ∈ p.mapped fds ↔ fd ∈ fds ∧ p.map fd ≠ .free := by
  rw [Process.mapped, List.mem_filter, decide_eq_true_eq]

theorem length_fdList : ∀ {fds : List Nat}, (∀ fd ∈ fds, fd < 256) → fds.length ≤ (fdList fds).length ∧ (fdList fds).length ≤ 3 * fds.length
  | [], _ => ⟨Nat.le_refl _, Nat.le_refl _⟩
  | fd :: fds, small => by
    obtain ⟨low, high⟩ := length_fdList fun fd' mem => small fd' (List.mem_cons_of_mem _ mem)
    have width := length_showNat (small fd (List.mem_cons_self ..))
    have le : fdWidth fd ≤ 3 := by
      have lt := small fd (List.mem_cons_self ..)
      unfold fdWidth
      rw [if_neg (by omega : ¬fd > 0xFF), if_neg (by omega : ¬fd > 0xFFF)]
      split_ifs <;> omega
    rw [fdList_cons, List.length_append, List.length_cons, List.length_cons]
    omega

theorem fdList_eq_nil : fdList fds = [] ↔ fds = [] := by
  cases fds with
  | nil => exact ⟨fun _ => rfl, fun _ => rfl⟩
  | cons fd fds =>
    rw [fdList_cons]
    simp

/-- An environment that `__execve` is called with: a variable has a `=`. Without a descriptor there is no list, and one that is there
    already would be read. -/
structure Callable (p : Process) (envp : List Variable) : Prop where
  assigned : ∀ v ∈ envp, 61 ∈ v
  noList : (∀ fd < fdCount, p.map fd = .free) → ∀ v ∈ envp, ¬HasName hareFdList v

theorem environSize_eq (assigned : ∀ v ∈ envp, 61 ∈ v) {m n : Nat} :
    environSize envp m n = envp.length + m + n + 4 := by
  have all : envp.filter (fun v => !strstr v hare) = envp := by
    refine List.filter_eq_self.mpr fun v mem => ?_
    have absent : strstr v hare = false := by
      rw [← Bool.not_eq_true, strstr_iff]
      exact fun inside => absurd (inside.subset (assigned v mem)) (by decide)
    rw [absent]
    rfl
  rw [environSize, all]

def otherVariables (list : List UInt8) (cwd : Cwd) (addrs : List (Nat × Nat)) (envp : List Variable) : List Variable :=
  (if list = [] then [] else [assign hareFdList list]) ++
    assign hareCwd (cwdValue cwd) :: (addrs.map fun a => assign (hareFsAddr a.1) (showNat 16 a.2)) ++ envp

theorem execve_eq (wf : p.Wf) (callable : Callable p envp) :
    execve p cwd addrs envp = .ok (p.variables (p.mapped (List.range fdCount)) ++
      otherVariables (fdList (p.mapped (List.range fdCount))) cwd addrs envp) := by
  have few : (p.mapped (List.range fdCount)).length ≤ 256 := by
    have le := List.length_filter_le (fun fd => decide (p.map fd ≠ .free)) (List.range fdCount)
    rwa [List.length_range] at le
  have short : (fdList (p.mapped (List.range fdCount))).length < fdListSize := by
    have le := (length_fdList fun fd mem => List.mem_range.mp (mem_mapped.mp mem).1 : _ ∧ (fdList (p.mapped (List.range fdCount))).length ≤ _).2
    unfold fdListSize
    omega
  unfold execve
  rw [fdEntries_eq wf, ok_bind]
  simp only [if_pos short, otherVariables]
  rw [if_pos]
  · simp only [List.append_assoc, List.cons_append]
  · rw [environSize_eq callable.assigned]
    simp only [List.length_append, List.length_cons, List.length_map]
    split_ifs <;> simp only [List.length_nil, List.length_singleton] <;> omega

theorem hareFdList_ne_fdVariable (fd : Nat) : hareFdList ≠ fdVariable fd := fun same => by
  have digits : [108, 105, 115, 116] = showNat 10 fd := List.append_cancel_left same
  have mem : (108 : UInt8) ∈ showNat 10 fd := digits ▸ List.mem_cons_self ..
  exact not_mem_showNat (by decide) (by decide) (by decide) mem

theorem not_hasName_others :
    ∀ v ∈ assign hareCwd (cwdValue cwd) :: addrs.map fun a => assign (hareFsAddr a.1) (showNat 16 a.2), ¬HasName hareFdList v := by
  intro v mem named
  obtain ⟨value, same⟩ := hasName_iff.mp named
  -- the sixth letter, or the seventh
  have letters : v.drop 5 = 102 :: 100 :: 95 :: 108 :: 105 :: 115 :: 116 :: 61 :: value := by
    rw [same]
    rfl
  rcases List.mem_cons.mp mem with rfl | mem
  · cases letters
  · obtain ⟨addr, -, rfl⟩ := List.mem_map.mp mem
    cases letters

theorem decodeFds_execve {env : List Variable} (wf : p.Wf) (callable : Callable p envp)
    (called : execve p cwd addrs envp = .ok env) : decodeFds env = p.inherit (List.range fdCount) .blank := by
  rw [execve_eq wf callable] at called
  obtain rfl := Except.ok.inj called
  set ds := p.mapped (List.range fdCount) with isMapped
  have values : ∀ fd ∈ ds, fd < fdCount ∧ p.map fd ≠ .free ∧
      getenv (p.variables ds ++ otherVariables (fdList ds) cwd addrs envp) (fdVariable fd) = some (p.valueOf fd) := fun fd mem => by
    obtain ⟨mem', notFree⟩ := mem_mapped.mp mem
    exact ⟨List.mem_range.mp mem', notFree, getenv_variables mem⟩
  have skipped : getenv (p.variables ds ++ otherVariables (fdList ds) cwd addrs envp) hareFdList =
      getenv (otherVariables (fdList ds) cwd addrs envp) hareFdList :=
    getenv_skip (not_hasName_variables (by decide) hareFdList_ne_fdVariable)
  unfold decodeFds
  rw [skipped, ← inherit_mapped, ← isMapped]
  by_cases none : ds = []
  · -- no list
    have allFree : ∀ fd < fdCount, p.map fd = .free := fun fd lt => by
      by_contra notFree
      exact absurd (mem_mapped.mpr ⟨List.mem_range.mpr lt, notFree⟩) (by rw [← isMapped, none]; simp)
    have absent : getenv (otherVariables (fdList ds) cwd addrs envp) hareFdList = Option.none := by
      refine getenv_eq_none fun v mem => ?_
      rw [otherVariables, if_pos (fdList_eq_nil.mpr none), List.nil_append] at mem
      rcases List.mem_append.mp mem with mem | mem
      · exact not_hasName_others v mem
      · exact callable.noList allFree v mem
    rw [absent, none]
    rfl
  · have list : getenv (otherVariables (fdList ds) cwd addrs envp) hareFdList = some (fdList ds) := by
      rw [otherVariables, if_neg fun empty => none (fdList_eq_nil.mp empty)]
      exact getenv_assign
    rw [list]
    refine copyFds_eq_inherit wf ?_ (mapped_nodup List.nodup_range) values
    have le := (length_fdList fun fd mem => (values fd mem).1 : ds.length ≤ _ ∧ _).1
    omega

theorem fauxInit_execve {env : List Variable} {value : List UInt8} (wf : p.Wf)
    (callable : Callable p envp) (called : execve p cwd addrs envp = .ok env) (initted : assign fauxInitted value ∈ envp) :
    fauxInit env = decodeFds env := by
  rw [execve_eq wf callable] at called
  obtain rfl := Except.ok.inj called
  have mem : assign fauxInitted value ∈ otherVariables (fdList (p.mapped (List.range fdCount))) cwd addrs envp :=
    List.mem_append_right _ initted
  obtain ⟨value', isValue⟩ := Option.isSome_iff_exists.mp (getenv_isSome (List.mem_append_right (p.variables _) mem))
  rw [fauxInit, isValue]

end

/-- `__execve` writes the descriptors of a process into an environment, and from that environment they are read again. -/
theorem descriptors_survive_exec (cfg : Config) (s : Session) (cwd : Cwd) (addrs : List (Nat × Nat)) (envp : List Variable) (wf : s.proc.Wf)
    (known : s.Known) (noFlag : ∀ a e, s.proc.heap.lookup a = some e → e.cloexec = false) (callable : Callable s.proc envp) :
    ∃ t env q, s.prepareExec cfg = .ok t ∧ execve t.proc cwd addrs envp = .ok env ∧ decodeFds env = .ok q ∧ s.proc.Survives q ∧
      ((∃ value, assign fauxInitted value ∈ envp) → fauxInit env = .ok q) := by
  obtain ⟨t, prepared, wfT, same⟩ : ∃ t, s.prepareExec cfg = .ok t ∧ t.proc.Wf ∧ ∀ fd, s.proc.SameSlot t.proc fd :=
    Session.prepareExec_keeps wf known noFlag
  have callableT : Callable t.proc envp := by
    refine ⟨callable.assigned, fun free => callable.noList fun fd lt => ?_⟩
    have isFree := free fd lt
    cases slot : s.proc.map fd with
    | free => rfl
    | external n => cases isFree.symm.trans ((Process.sameSlot_external slot).mp (same fd))
    | internal n =>
      obtain ⟨_, _, _, m, _, _, _, got, _⟩ := (Process.sameSlot_internal slot).mp (same fd)
      cases isFree.symm.trans (Process.fdGet_eq_ok.mp got).1
  obtain ⟨q, inherited, survives⟩ := Process.inherit_survives wfT
  have called : execve t.proc cwd addrs envp = .ok _ := execve_eq wfT callableT
  have decoded := (decodeFds_execve wfT callableT called).trans inherited
  refine ⟨t, _, q, prepared, called, decoded, ⟨fun fd lt => (same fd).trans (survives.same fd lt), survives.own⟩, ?_⟩
  rintro ⟨value, initted⟩
  exact (fauxInit_execve wfT callableT called initted).trans decoded

def rootOpened : Session where
  servers i := (Server.boot i { start := 0, blocks := [], blocksFree := 0 } fun _ => 0).addFd 7 0 0
  proc := (Process.fresh.addEntry 3 (.alloc { server := 0, id := 0, type := .dir } 7) false).setSlot 3 (.internal 3)

theorem wf_rootOpened : rootOpened.proc.Wf :=
  Process.wf_fresh.addEntry (AList.notMem_empty 3) (by decide) fun n eq => by cases eq

theorem callable_rootOpened : Callable rootOpened.proc [assign fauxInitted [116]] where
  assigned := fun v mem => List.mem_singleton.mp mem ▸ by decide
  noList := fun free => by cases free 0 (by decide)

theorem descriptors_survive_exec_rootOpened : ∃ t env q, rootOpened.prepareExec Server.oneServer = .ok t ∧
    execve t.proc { inode := { server := 0, id := 0, type := .dir }, inside := true } [] [assign fauxInitted [116]] = .ok env ∧
    decodeFds env = .ok q ∧ rootOpened.proc.Survives q ∧
    ((∃ value, assign fauxInitted value ∈ [assign fauxInitted [116]]) → fauxInit env = .ok q) := by
  have entries : ∀ a e, rootOpened.proc.heap.lookup a = some e → e.object.inode.server = 0 ∧ e.object.fd = 7 ∧ e.cloexec = false :=
    fun a e found => by
      rcases lookup_insert_some.mp found with ⟨-, rfl⟩ | ⟨-, none⟩
      · exact ⟨rfl, rfl, rfl⟩
      · cases none
  refine descriptors_survive_exec _ rootOpened _ _ _ wf_rootOpened (fun a e found => ?_)
    (fun a e found => (entries a e found).2.2) callable_rootOpened
  rw [(entries a e found).1, (entries a e found).2.1]
  rfl

end Faux
