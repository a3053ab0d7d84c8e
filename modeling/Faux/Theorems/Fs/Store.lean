import Faux.Theorems.Fs.Data

/-! The files of a server are sequences of bytes, as long as no operation opens a gap over bytes that are not
    zero. -/

namespace Faux
open Function Lib
namespace Store
variable {s t : Store} {o : DataOp} {os : List DataOp} {k : Nat} {g : File} {bc : BufferCache} {m : Memory}

theorem pairwise_perm {a b : List Nat} (perm : a.Perm b) : a.Pairwise Apart ↔ b.Pairwise Apart :=
  perm.pairwise_iff fun apart => apart.symm

theorem Wf.solid (wf : s.Wf) (k : Nat) : (s.files k).Solid s.cache where
  blocks := wf.blocks k
  free := wf.free
  apart := by
    have all := (pairwise_perm List.perm_append_comm).mp (wf.apart k)
    rw [File.all, List.append_assoc] at all
    have sub : List.Sublist ((s.files k).memoryBlocks ++ s.cache.blocks)
        ((s.files k).memoryBlocks ++ ((s.files k).orphanBlocks ++ s.cache.blocks)) :=
      (List.Sublist.refl _).append (List.sublist_append_right ..)
    exact all.sublist sub

theorem Wf.setFile (wf : s.Wf) (blocks : g.memoryBlocks.length = blocksNr g.size) (free : bc.blocksFree = bc.blocks.length)
    (same : (g.all ++ bc.blocks).Perm ((s.files k).all ++ s.cache.blocks)) : (s.setFile k g bc m).Wf := by
  have mem : ∀ x, x ∈ g.all ∨ x ∈ bc.blocks → x ∈ (s.files k).all ∨ x ∈ s.cache.blocks := fun x held =>
    List.mem_append.mp (same.mem_iff.mp (List.mem_append.mpr held))
  have apart : ∀ l, l ≠ k → ∀ x, x ∈ g.all ∨ x ∈ bc.blocks → ∀ b ∈ (s.files l).all, Apart x b := by
    intro l other x held b memB
    rcases mem x held with own | isFree
    · exact wf.other k l (Ne.symm other) x own b memB
    · exact (List.pairwise_append.mp (wf.apart l)).2.2 x isFree b memB
  have file : ∀ l, l ≠ k → (s.setFile k g bc m).files l = s.files l := fun l other => update_of_ne other ..
  have own : (s.setFile k g bc m).files k = g := update_self ..
  have whole : (bc.blocks ++ g.all).Pairwise Apart :=
    (pairwise_perm (List.perm_append_comm.trans (same.trans List.perm_append_comm))).mpr (wf.apart k)
  refine ⟨fun l => ?_, free, fun l => ?_, fun l l' differ a memA b memB => ?_⟩
  · by_cases isK : l = k
    · rw [isK, own]
      exact blocks
    · rw [file l isK]
      exact wf.blocks l
  · by_cases isK : l = k
    · rw [isK, own]
      exact whole
    · rw [file l isK]
      refine List.pairwise_append.mpr ⟨(List.pairwise_append.mp whole).1, (List.pairwise_append.mp (wf.apart l)).2.1, ?_⟩
      exact fun x isFree b memB => apart l isK x (.inr isFree) b memB
  · by_cases isK : l = k
    · grind
    · rw [file l isK] at memA
      by_cases isL : l' = k
      · rw [isL, own] at memB
        exact (apart l isK b (.inl memB) a memA).symm
      · rw [file l' isL] at memB
        exact wf.other l l' differ a memA b memB

theorem view_setFile (wf : s.Wf) (same : (g.all ++ bc.blocks).Perm ((s.files k).all ++ s.cache.blocks))
    (kept : ∀ x, (∀ b ∈ g.memoryBlocks, x < b ∨ b + blockSize ≤ x) → m x = s.mem x) :
    (s.setFile k g bc m).view = update s.view k (g.contents m) := by
  funext l
  by_cases isK : l = k
  · subst isK
    simp [view, setFile]
  · rw [update_of_ne isK]
    simp only [view, setFile, update_of_ne isK, File.contents]
    refine List.map_congr_left fun i mem => kept _ fun b memB => ?_
    have lt : i < (s.files l).memoryBlocks.length * blockSize := by
      rw [wf.blocks l]
      exact Nat.lt_of_lt_of_le (List.mem_range.mp mem) (le_blocksNr _)
    obtain ⟨b', memB', found⟩ := exists_block _ _ lt
    have held := List.mem_append.mp (same.mem_iff.mp (List.mem_append_left _ (List.mem_append_left _ memB)))
    have apart : Apart b b' := by
      rcases held with own | isFree
      · exact wf.other k l (Ne.symm isK) b own b' (List.mem_append_left _ memB')
      · exact (List.pairwise_append.mp (wf.apart l)).2.2 b isFree b' (List.mem_append_left _ memB')
    have mod := Nat.mod_lt i blockSize_pos
    rw [addr_eq found]
    simp only [Apart] at apart
    omega

theorem step_refines (wf : s.Wf) (fits : s.Fits o) (zero : s.GapZero o) :
    ∃ t, s.step o = .ok (t, (o.model s.view).2) ∧ t.view = (o.model s.view).1 ∧ t.Wf := by
  cases o with
  | write k buf offset =>
    obtain ⟨g, bc, m, done, contents, blocks, free, same, orphans, kept⟩ := File.write_spec (m := s.mem) (wf.solid k) fits zero
    have perm : (g.all ++ bc.blocks).Perm ((s.files k).all ++ s.cache.blocks) := by
      have comm : ∀ a b c : List Nat, (a ++ b ++ c).Perm (a ++ c ++ b) := fun a b c => by
        simpa using List.perm_append_comm.append_left a
      rw [File.all, File.all, orphans]
      exact (comm ..).trans ((List.Perm.of_eq (congrArg (· ++ _) same)).trans (comm ..))
    refine ⟨s.setFile k g bc m, ?_, ?_, wf.setFile blocks free perm⟩
    · simp only [step, done, ok_bind, DataOp.model]
    · rw [view_setFile wf perm kept, contents]
      rfl
  | truncate k len =>
    obtain ⟨g, bc, done, contents, blocks, free, same⟩ := File.truncate_spec (wf.solid k) fits zero
    refine ⟨s.setFile k g bc s.mem, ?_, ?_, wf.setFile blocks free same⟩
    · simp only [step, done, ok_bind, DataOp.model]
    · rw [view_setFile wf same fun _ _ => rfl, contents]
      rfl
  | read k count offset =>
    refine ⟨s, ?_, rfl, wf⟩
    simp only [step, File.read_spec (wf.blocks k), ok_bind, DataOp.model, view]

/-- Every sequence of operations in which no allocation fails and every gap is zero returns what the reference
    model returns, and leaves its bytes and sizes. -/
theorem run_refines (s : Store) (os : List DataOp) (wf : s.Wf) (fits : s.Along Fits os) (zero : s.Along GapZero os) :
    ∃ t, s.run os = .ok (t, (DataOp.models s.view os).2) ∧ t.view = (DataOp.models s.view os).1 ∧
      ∀ k, (t.files k).size = ((DataOp.models s.view os).1 k).length := by
  have all : ∀ (os : List DataOp) (s : Store), s.Wf → s.Along Fits os → s.Along GapZero os →
      ∃ t, s.run os = .ok (t, (DataOp.models s.view os).2) ∧ t.view = (DataOp.models s.view os).1 := by
    intro os
    induction os with
    | nil => exact fun s _ _ _ => ⟨s, rfl, rfl⟩
    | cons o os ih =>
      intro s wf fits zero
      obtain ⟨t, stepped, view, wf'⟩ := step_refines wf fits.1 zero.1
      obtain ⟨u, rest, last⟩ := ih t wf' (fits.2 t _ stepped) (zero.2 t _ stepped)
      refine ⟨u, ?_, ?_⟩
      · simp only [run, stepped, ok_bind, rest, DataOp.models, view]
      · simp only [last, DataOp.models, view]
  obtain ⟨t, done, view⟩ := all os s wf fits zero
  refine ⟨t, done, view, fun k => ?_⟩
  rw [← view, Store.view, File.length_contents]

theorem along_of_check {P : Store → DataOp → Prop} [∀ s, DecidablePred (P s)] : ∀ (os : List DataOp) (s : Store),
    s.checkAlong (fun s o => P s o) os = true → s.Along P os := by
  intro os
  induction os with
  | nil => exact fun _ _ => trivial
  | cons o os ih =>
    intro s checked
    simp only [checkAlong, Bool.and_eq_true, decide_eq_true_eq] at checked
    refine ⟨checked.1, fun t reply stepped => ih t ?_⟩
    rw [stepped] at checked
    exact checked.2

def empty (m : Memory) : Store :=
  { files := fun _ => File.new, cache := { start := 4096, blocks := [4096, 8192], blocksFree := 2 }, mem := m }

theorem wf_empty {m : Memory} : (empty m).Wf where
  blocks _ := by simp [empty, File.new, blocksNr]
  free := rfl
  apart _ := by
    simp [empty, File.all, File.new, Apart, blockSize]
  other _ _ _ a mem := absurd mem (by simp [empty, File.all, File.new])

def sparse : List DataOp := [.write 0 [7] 2, .truncate 0 4, .read 0 9 1]

theorem run_refines_sparse : (empty fun _ => 0).Wf ∧ ∃ t,
    (empty fun _ => 0).run sparse = .ok (t, (DataOp.models (empty fun _ => 0).view sparse).2) ∧
      t.view = (DataOp.models (empty fun _ => 0).view sparse).1 ∧
      ∀ k, (t.files k).size = ((DataOp.models (empty fun _ => 0).view sparse).1 k).length :=
  ⟨wf_empty, run_refines (empty fun _ => 0) sparse wf_empty (along_of_check _ _ (by decide +kernel))
    (along_of_check _ _ (by decide +kernel))⟩

def regrown : List DataOp := [.write 0 [1, 1] 0, .truncate 0 1, .truncate 0 2, .read 0 2 0]

/-- The byte that was cut off is back. -/
theorem regrown_not_zero : (empty fun _ => 0).Wf ∧ (empty fun _ => 0).Along Fits regrown ∧
    ((empty fun _ => 0).run regrown).toOption.map (·.2) = some [(2, []), (0, []), (0, []), (2, [1, 1])] ∧
    (DataOp.models (empty fun _ => 0).view regrown).2 = [(2, []), (0, []), (0, []), (2, [1, 0])] :=
  ⟨wf_empty, along_of_check _ _ (by decide +kernel), by decide +kernel, by decide +kernel⟩

end Store
end Faux
