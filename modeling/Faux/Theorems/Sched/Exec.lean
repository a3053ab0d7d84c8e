import Faux.Channel.Basic
import Faux.Lib.Except
import Faux.Sched.Exec
import Mathlib.Data.List.TakeWhile

/-! What the scheduler server reads out of the request of an exec. -/

namespace Faux
open Lib

section
variable {data s tail : List UInt8} {ss : List (List UInt8)} {p : Nat}

namespace SchedServer

theorem strAt_of (lies : data.drop p = s ++ 0 :: tail) (noNul : 0 ∉ s) : strAt data p = .ok s := by
  rw [strAt, lies, cstr_append noNul]

theorem drop_of (lies : data.drop p = s ++ 0 :: tail) : data.drop (p + s.length + 1) = tail := by
  rw [Nat.add_assoc, ← List.drop_drop, lies, ← List.drop_drop, List.drop_left]
  rfl

theorem countArgs_packed {envs : Int} : ∀ {ss : List (List UInt8)} {p fuel ac : Nat}, (∀ s ∈ ss, 0 ∉ s) → data.drop p = packed ss ++ tail →
    envs = p + (packed ss).length + 1 → ss.length < fuel → countArgs data envs fuel p ac = .ok (ac + ss.length, p + (packed ss).length)
  | [], p, fuel + 1, ac, _, _, isEnvs, _ => by
    rw [countArgs, if_neg (by rw [isEnvs]; simp [packed])]
    rfl
  | s :: ss, p, fuel + 1, ac, noNul, lies, isEnvs, enough => by
    obtain ⟨first, others⟩ := List.forall_mem_cons.mp noNul
    rw [packed_cons] at lies
    rw [length_packed_cons] at isEnvs ⊢
    rw [countArgs, if_pos (by omega), strAt_of lies first, ok_bind,
      countArgs_packed others (drop_of lies) (by push_cast at isEnvs ⊢; omega) (Nat.lt_of_succ_lt_succ enough), List.length_cons]
    congr 2 <;> omega

theorem countEnvs_packed : ∀ {ss : List (List UInt8)} {p fuel ec : Nat}, (∀ s ∈ ss, 0 ∉ s) → data.drop p = packed ss ++ 0 :: tail → ss.length < fuel →
    countEnvs data fuel p ec = .ok (ec + (ss.takeWhile (· ≠ [])).length, p + (packed (ss.takeWhile (· ≠ []))).length)
  | [], p, fuel + 1, ec, _, lies, _ => by
    rw [countEnvs, strAt_of (s := []) lies (List.not_mem_nil), ok_bind, if_pos rfl]
    rfl
  | s :: ss, p, fuel + 1, ec, noNul, lies, enough => by
    obtain ⟨first, others⟩ := List.forall_mem_cons.mp noNul
    rw [packed_cons] at lies
    rw [countEnvs, strAt_of lies first, ok_bind]
    by_cases empty : s = []
    · rw [if_pos empty, List.takeWhile_cons_of_neg (by simpa using empty)]
      rfl
    · rw [if_neg empty, List.takeWhile_cons_of_pos (by simpa using empty), countEnvs_packed others (drop_of lies) (Nat.lt_of_succ_lt_succ enough),
        length_packed_cons, List.length_cons]
      congr 2 <;> omega

theorem copyStrings_packed : ∀ {ss : List (List UInt8)} {p : Nat}, (∀ s ∈ ss, 0 ∉ s) → data.drop p = packed ss ++ tail →
    copyStrings data ss.length p = .ok (ss, p + (packed ss).length)
  | [], p, _, _ => rfl
  | s :: ss, p, noNul, lies => by
    obtain ⟨first, others⟩ := List.forall_mem_cons.mp noNul
    rw [packed_cons] at lies
    rw [List.length_cons, copyStrings, strAt_of lies first, ok_bind, copyStrings_packed others (drop_of lies), length_packed_cons, ok_bind]
    refine congrArg (fun q => Except.ok (s :: ss, q)) ?_
    omega

end SchedServer
end

section
variable {filename : List UInt8} {argv envp : List (List UInt8)} {pid : Int}

theorem length_le_packed : ∀ {ss : List (List UInt8)}, ss.length ≤ (packed ss).length
  | [] => Nat.le_refl _
  | s :: ss => by
    have rest := @length_le_packed ss
    rw [length_packed_cons, List.length_cons]
    omega

theorem copyEnv_eq : ∀ {envp : List (List UInt8)} {out : List UInt8}, (∀ e ∈ envp, Scannable e) → copyEnv envp out = .ok (out ++ packed envp)
  | [], out, _ => by simp [copyEnv, packed]
  | e :: envp, out, scannable => by
    obtain ⟨first, others⟩ := List.forall_mem_cons.mp scannable
    rw [copyEnv, scanStream, if_pos first, ok_bind, copyEnv_eq others, List.append_assoc]
    rfl

theorem scannable_of_copyEnv : ∀ {envp : List (List UInt8)} {out out' : List UInt8}, copyEnv envp out = .ok out' → ∀ e ∈ envp, Scannable e
  | [], _, _, _ => fun e mem => absurd mem List.not_mem_nil
  | e :: envp, out, out', copied => by
    rw [copyEnv, bind_eq_ok] at copied
    obtain ⟨_, scanned, copied⟩ := copied
    have first : Scannable e := by
      by_contra not
      rw [scanStream, if_neg not] at scanned
      cases scanned
    exact List.forall_mem_cons.mpr ⟨first, scannable_of_copyEnv copied⟩

/-- The strings before an empty one, and one that is empty, are among those of an environment and its end. -/
theorem packed_takeWhile : ∀ {envp : List (List UInt8)}, ∃ tail, packed envp ++ [0] = packed (envp.takeWhile (· ≠ []) ++ [[]]) ++ tail
  | [] => ⟨[], rfl⟩
  | e :: envp => by
    by_cases empty : e = []
    · subst empty
      exact ⟨packed envp ++ [0], by simp [packed]⟩
    · obtain ⟨tail, rest⟩ := @packed_takeWhile envp
      refine ⟨tail, ?_⟩
      rw [List.takeWhile_cons_of_pos (by simpa using empty), List.cons_append, packed_cons, packed_cons, rest]

/-- What the scheduler server makes of a request: the environment ends with the first empty string. -/
theorem exec_request {request : ExecRequest} (fileNul : 0 ∉ filename) (argNul : ∀ s ∈ argv, 0 ∉ s) (envNul : ∀ s ∈ envp, 0 ∉ s)
    (offset : request.envpOffset = (filename.length + 1 + (packed argv).length + 1 : Nat))
    (bytes : request.filename = filename ++ 0 :: (packed argv ++ 0 :: (packed envp ++ [0]))) :
    SchedServer.exec request = .ok (filename, argv, envp.takeWhile (· ≠ [])) := by
  have atStart : request.filename.drop 0 = filename ++ 0 :: (packed argv ++ 0 :: (packed envp ++ [0])) := bytes
  have atArgs : request.filename.drop (filename.length + 1) = packed argv ++ 0 :: (packed envp ++ [0]) := by
    rw [← Nat.zero_add (filename.length)]
    exact SchedServer.drop_of atStart
  have atEnvs : request.filename.drop (filename.length + 1 + (packed argv).length + 1) = packed envp ++ 0 :: [] := SchedServer.drop_of atArgs
  have length : request.filename.length = filename.length + 1 + (packed argv).length + 1 + (packed envp).length + 1 := by
    grind
  have fewArgs := @length_le_packed argv
  have fewEnvs := @length_le_packed envp
  obtain ⟨tail, split⟩ := @packed_takeWhile envp
  have taken : ∀ s ∈ envp.takeWhile (· ≠ []) ++ [[]], 0 ∉ s := by
    intro s mem
    rcases List.mem_append.mp mem with inEnv | isEmpty
    · exact envNul s ((List.takeWhile_prefix _).subset inEnv)
    · rw [List.mem_singleton.mp isEmpty]
      exact List.not_mem_nil
  have strings := SchedServer.copyStrings_packed taken (atEnvs.trans split)
  rw [List.length_append, List.length_singleton] at strings
  unfold SchedServer.exec
  simp only
  rw [SchedServer.strAt_of atStart fileNul, ok_bind,
    SchedServer.countArgs_packed argNul atArgs (by rw [offset]; push_cast; omega) (by omega), ok_bind]
  simp only [Nat.zero_add]
  rw [SchedServer.countEnvs_packed envNul atEnvs (by omega), ok_bind]
  simp only [Nat.zero_add]
  rw [SchedServer.copyStrings_packed argNul atArgs, ok_bind]
  simp only
  rw [strings, ok_bind]
  have fits : filename.length + 1 + (packed argv).length + (packed (envp.takeWhile (· ≠ []) ++ [[]])).length ≤
      filename.length + 1 + (packed argv).length + 1 + (packed (envp.takeWhile (· ≠ []))).length + 1024 := by
    simp only [packed, List.flatMap_append, List.length_append, List.flatMap_cons, List.flatMap_nil, List.length_cons, List.length_nil]
    omega
  simp only [if_pos fits, List.dropLast_concat]

theorem fosExec_eq (fits : execRequestSize filename argv envp + sizeofDispatchHeader + sizeofMessage ≤ sharedSize - cachelineSize) (scannable : ∀ e ∈ envp, Scannable e) :
    fosExec pid filename argv envp = .ok
      { pid, envpOffset := (filename.length + 1 + (packed argv).length + 1 : Nat)
        filename := filename ++ 0 :: (packed argv ++ 0 :: (packed envp ++ [0])) } := by
  have length : (filename ++ 0 :: packed argv ++ [0]).length = filename.length + 1 + (packed argv).length + 1 := by
    grind
  have small : filename.length + 1 + (packed argv).length + 1 < 65536 := by
    have largest : sharedSize - cachelineSize = 65472 := rfl
    rw [execRequestSize, largest] at fits
    omega
  have isInt : Int.bmod (filename.length + 1 + (packed argv).length + 1 : Nat) 4294967296 = (filename.length + 1 + (packed argv).length + 1 : Nat) := by
    apply Int.bmod_eq_of_le <;> omega
  rw [fosExec, copyEnv_eq scannable, ok_bind, length, isInt]
  simp

/-- Remote exec hands on the file, the arguments and the environment just if no variable is empty, and each that tells of a descriptor
    has a `=`. -/
theorem exec_roundtrip_iff (pid : Int) (filename : List UInt8) (argv envp : List (List UInt8)) (fileNul : 0 ∉ filename) (argNul : ∀ s ∈ argv, 0 ∉ s)
    (envNul : ∀ s ∈ envp, 0 ∉ s) (fits : execRequestSize filename argv envp + sizeofDispatchHeader + sizeofMessage ≤ sharedSize - cachelineSize) :
    (fosExec pid filename argv envp >>= SchedServer.exec) = .ok (filename, argv, envp) ↔ ∀ e ∈ envp, e ≠ [] ∧ Scannable e := by
  by_cases scannable : ∀ e ∈ envp, Scannable e
  · rw [fosExec_eq fits scannable, ok_bind, exec_request fileNul argNul envNul rfl rfl]
    simp only [Except.ok.injEq, Prod.mk.injEq, true_and]
    rw [List.takeWhile_eq_self_iff]
    constructor
    · exact fun some e mem => ⟨of_decide_eq_true (some e mem), scannable e mem⟩
    · exact fun both e mem => decide_eq_true (both e mem).1
  · refine iff_of_false (fun handed => scannable ?_) fun both => scannable fun e mem => (both e mem).2
    obtain ⟨request, built, -⟩ := bind_eq_ok.mp handed
    obtain ⟨out, copied, -⟩ := bind_eq_ok.mp built
    exact scannable_of_copyEnv copied

theorem exec_roundtrip_emptyArg : (fosExec 1 [47, 97] [[97], []] [[80, 61]] >>= SchedServer.exec) = .ok ([47, 97], [[97], []], [[80, 61]]) :=
  (exec_roundtrip_iff 1 [47, 97] [[97], []] [[80, 61]] (by decide) (by decide) (by decide) (by decide)).mpr (by decide)

/-- An empty variable is taken for the end of the environment. -/
theorem exec_emptyVariable : (fosExec 1 [47, 97] [] [[], [80, 61]] >>= SchedServer.exec) = .ok ([47, 97], [], []) := by decide

end
end Faux
