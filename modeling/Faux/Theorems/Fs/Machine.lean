import Faux.Theorems.Fs.Orphans
import Faux.Theorems.Fs.Holders

/-! The reference law of descriptors: however processes open, duplicate, hand on and close descriptors, a server
    counts the file objects that hold them. -/

namespace Faux
open Lib

variable {cfg : Config}

/-! ### Exec -/

namespace Process

theorem wf_blank : blank.Wf where
  mapped := ⟨fun _ _ eq => (by cases eq), fun _ _ _ eq => (by cases eq), fun n mem => absurd mem (AList.notMem_empty n)⟩
  linked := ⟨fun _ _ found => (by cases found), fun _ _ found => (by cases found), fun n mem => absurd mem (AList.notMem_empty n)⟩

theorem wf_fresh : fresh.Wf where
  mapped := by
    refine ⟨fun fd n eq => ?_, fun fd _ n eq => ?_, fun n mem => absurd mem (AList.notMem_empty n)⟩
    · simp only [fresh] at eq
      split_ifs at eq
    · simp only [fresh] at eq
      split_ifs at eq
  linked := wf_blank.linked

theorem inherit_spec {old : Process} : ∀ {fds : List Nat} {p q : Process}, p.Wf → fds.Nodup → (∀ fd ∈ fds, fd < fdCount ∧ p.map fd = .free) →
    old.inherit fds p = .ok q → q.Wf ∧ ∀ i x, q.holding i x = p.holding i x + total (old.holdsAt i x) fds
  | [], _, _, wf, _, _, done => by
    cases done
    exact ⟨wf, fun _ _ => rfl⟩
  | fd :: fds, p, q, wf, nodup, free, done => by
    obtain ⟨notMem, nodup⟩ := List.nodup_cons.mp nodup
    obtain ⟨lt, isFree⟩ := free fd (List.mem_cons_self ..)
    have unused : ∀ n, p.map fd ≠ .internal n := fun n eq => by cases isFree.symm.trans eq
    have rest : ∀ slot, ∀ fd' ∈ fds, fd' < fdCount ∧ Function.update p.map fd slot fd' = .free := fun slot fd' mem => by
      have ne : fd' ≠ fd := fun same => notMem (same ▸ mem)
      rw [Function.update_of_ne ne]
      exact free fd' (List.mem_cons_of_mem _ mem)
    have outside : (∀ n, old.map fd ≠ .internal n) → ∀ i x, old.holdsAt i x fd = 0 := fun outside i x => by
      unfold holdsAt
      split
      · next n a e got => exact absurd (fdGet_eq_ok.mp got).1 (outside n)
      · rfl
    unfold inherit at done
    cases slot : old.map fd with
    | free =>
      simp only [slot] at done
      obtain ⟨wfQ, holding⟩ := inherit_spec wf nodup (fun fd' mem => free fd' (List.mem_cons_of_mem _ mem)) done
      refine ⟨wfQ, fun i x => ?_⟩
      rw [holding, total_cons, outside (fun n eq => by cases slot.symm.trans eq), Nat.zero_add]
    | external n =>
      simp only [slot] at done
      have wf' : (p.setSlot fd (.external n)).Wf := ⟨wf.mapped.other unused fun _ => by simp, wf.linked⟩
      obtain ⟨wfQ, holding⟩ := inherit_spec wf' nodup (rest _) done
      refine ⟨wfQ, fun i x => ?_⟩
      rw [holding, total_cons, outside (fun n eq => by cases slot.symm.trans eq), Nat.zero_add]
      rfl
    | internal n =>
      simp only [slot, fdCreate, bind_eq_ok, Prod.exists] at done
      obtain ⟨n', a, e, got, p', k, ⟨k', unusedFd, created⟩, done⟩ := done
      cases created
      have wf' : ((p.addEntry k (.alloc e.object.inode e.object.fd) false).setSlot fd (.internal k)).Wf :=
        wf.addEntry (fdFindUnusedFD_absent unusedFd) lt unused
      obtain ⟨wfQ, holding⟩ := inherit_spec wf' nodup (rest _) done
      refine ⟨wfQ, fun i x => ?_⟩
      have one : old.holdsAt i x fd = (AppFile.alloc e.object.inode e.object.fd).holds i x := by
        unfold holdsAt
        rw [got]
        rfl
      have two : (p.addEntry k (.alloc e.object.inode e.object.fd) false).holding i x = _ := wf.holding_addEntry
      have three : ((p.addEntry k (.alloc e.object.inode e.object.fd) false).setSlot fd (.internal k)).holding i x =
          (p.addEntry k (.alloc e.object.inode e.object.fd) false).holding i x := rfl
      rw [holding, total_cons, one, three, two]
      omega

end Process

end Faux
