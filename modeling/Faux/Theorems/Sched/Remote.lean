import Faux.Theorems.Sched.Environ
import Faux.Theorems.Sched.Exec

/-! Descriptors over a remote exec: the environment of `__execve` gets through the request of `fosExec` as it is. -/

namespace Faux
open Lib

theorem length_showDigits {base : Nat} : ∀ {fuel n : Nat}, (showDigits base fuel n).length ≤ fuel + 1
  | 0, _ => Nat.le_refl _
  | fuel + 1, n => by
    have rest := @length_showDigits base fuel (n / base)
    unfold showDigits
    split_ifs
    · simp
    · simpa using rest

theorem nul_showNat {base n : Nat} (pos : 0 < base) (le : base ≤ 16) : 0 ∉ showNat base n := not_mem_showNat pos le (by decide)

/-- A variable that a remote exec hands on. -/
structure Handed (v : Variable) : Prop where
  nul : 0 ∉ v
  nonempty : v ≠ []
  scannable : Scannable v

theorem handed_assign {name value : List UInt8} (nul : 0 ∉ name) (nul' : 0 ∉ value) (scannable : Scannable (assign name value)) :
    Handed (assign name value) :=
  ⟨by simp [assign, nul, nul'], by simp [assign], scannable⟩

theorem nul_valueOf {p : Process} {fd : Nat} : 0 ∉ p.valueOf fd := by
  have ten : ∀ n, 0 ∉ showNat 10 n := fun n => nul_showNat (by decide) (by decide)
  have sixteen : ∀ n, 0 ∉ showNat 16 n := fun n => nul_showNat (by decide) (by decide)
  unfold Process.valueOf
  split
  · exact List.not_mem_nil
  · simp [externalValue, ten]
  · split
    · simp [internalValue, ten, sixteen]
    · exact List.not_mem_nil

theorem handed_variable {p : Process} {fd : Nat} (small : fd < fdCount) : Handed (assign (fdVariable fd) (p.valueOf fd)) := by
  refine handed_assign ?_ nul_valueOf fun _ _ => ?_
  · simp [fdVariable, hareFd, nul_showNat]
  · have digits : (showNat 10 fd).length ≤ fd + 1 := length_showDigits
    have after : (assign (fdVariable fd) (p.valueOf fd)).drop 8 = showNat 10 fd ++ 61 :: p.valueOf fd := by
      simp [assign, fdVariable, hareFd]
    have isSmall : fd < 256 := small
    rw [after, List.take_append]
    refine List.mem_append_right _ ?_
    obtain ⟨k, isK⟩ : ∃ k, 1023 - (showNat 10 fd).length = k + 1 := ⟨1022 - (showNat 10 fd).length, by omega⟩
    rw [isK, List.take_succ_cons]
    exact List.mem_cons_self

variable {p : Process} {cwd : Cwd} {addrs : List (Nat × Nat)} {envp env : List Variable}

theorem handed_others {fds : List Nat} (handed : ∀ v ∈ envp, Handed v) : ∀ v ∈ otherVariables (fdList fds) cwd addrs envp, Handed v := by
  have ten : ∀ n, 0 ∉ showNat 10 n := fun n => nul_showNat (by decide) (by decide)
  have sixteen : ∀ n, 0 ∉ showNat 16 n := fun n => nul_showNat (by decide) (by decide)
  intro v mem
  rw [otherVariables, List.mem_append, List.mem_append, List.mem_cons, List.mem_map] at mem
  rcases mem with (isList | rfl | ⟨a, -, rfl⟩) | inEnv
  · split_ifs at isList with empty
    · cases isList
    rw [List.mem_singleton.mp isList]
    refine handed_assign (by decide) ?_ fun _ notList => absurd rfl notList
    simp [fdList, sixteen]
  · exact handed_assign (by decide) (by simp [cwdValue, ten, sixteen]) fun isFd => by simp [assign, hareCwd, hare, hareFd] at isFd
  · exact handed_assign (by simp [hareFsAddr, hare, ten]) (sixteen _) fun isFd => by simp [assign, hareFsAddr, hare, hareFd] at isFd
  · exact handed v inEnv

/-- A program that is executed on another core gets the file name, the arguments and the environment of `__execve`, and its
    `faux_init` reads the descriptors of the process from it. -/
theorem descriptors_survive_remote_exec (pid : Int) (filename : List UInt8) (argv : List (List UInt8)) (wf : p.Wf)
    (callable : Callable p envp) (initted : ∃ value, assign fauxInitted value ∈ envp) (fileNul : 0 ∉ filename)
    (argNul : ∀ s ∈ argv, 0 ∉ s) (envNul : ∀ v ∈ envp, 0 ∉ v ∧ Scannable v) (called : execve p cwd addrs envp = .ok env)
    (fits : execRequestSize filename argv env + sizeofDispatchHeader + sizeofMessage ≤ sharedSize - cachelineSize) :
    ∃ q, (fosExec pid filename argv env >>= SchedServer.exec) = .ok (filename, argv, env) ∧ fauxInit env = .ok q ∧ p.Survives q := by
  obtain ⟨q, inherited, survives⟩ := Process.inherit_survives wf
  obtain ⟨value, initted⟩ := initted
  have decoded := (decodeFds_execve wf callable called).trans inherited
  refine ⟨q, ?_, (fauxInit_execve wf callable called initted).trans decoded, survives⟩
  have handed : ∀ v ∈ env, Handed v := by
    rw [execve_eq wf callable] at called
    obtain rfl := Except.ok.inj called
    intro v mem
    rcases List.mem_append.mp mem with inFds | inOthers
    · obtain ⟨fd, mapped, rfl⟩ := List.mem_map.mp inFds
      exact handed_variable (List.mem_range.mp (mem_mapped.mp mapped).1)
    · refine handed_others (fun v inEnv => ⟨(envNul v inEnv).1, ?_, (envNul v inEnv).2⟩) v inOthers
      exact List.ne_nil_of_mem (callable.assigned v inEnv)
  rw [fosExec_eq fits fun v mem => (handed v mem).scannable, ok_bind, exec_request fileNul argNul (fun v mem => (handed v mem).nul) rfl rfl]
  rw [List.takeWhile_eq_self_iff.mpr fun v mem => decide_eq_true (handed v mem).nonempty]

theorem descriptors_survive_remote_exec_rootOpened : ∃ env q,
    execve rootOpened.proc { inode := { server := 0, id := 0, type := .dir }, inside := true } [] [assign fauxInitted [116]] = .ok env ∧
    (fosExec 1 [47, 97] [[97], [98, 99]] env >>= SchedServer.exec) = .ok ([47, 97], [[97], [98, 99]], env) ∧
    fauxInit env = .ok q ∧ rootOpened.proc.Survives q := by
  obtain ⟨env, called, fits⟩ : ∃ env, execve rootOpened.proc { inode := { server := 0, id := 0, type := .dir }, inside := true } []
      [assign fauxInitted [116]] = .ok env ∧
      execRequestSize [47, 97] [[97], [98, 99]] env + sizeofDispatchHeader + sizeofMessage ≤ sharedSize - cachelineSize :=
    ⟨_, rfl, by decide +kernel⟩
  obtain ⟨q, handed⟩ := descriptors_survive_remote_exec 1 [47, 97] [[97], [98, 99]] wf_rootOpened callable_rootOpened
    ⟨[116], List.mem_singleton_self _⟩ (by decide) (by decide) (by decide) called fits
  exact ⟨env, q, called, handed⟩

end Faux
