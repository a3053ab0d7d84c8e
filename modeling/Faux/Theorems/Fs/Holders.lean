import Faux.Theorems.Fs.Process

/-! Operations of one process balance what they do at the servers with what they do to the file objects of the
    process: a descriptor gains a reference for every object that is made for it, and loses one with every object
    that is closed. -/

namespace Faux
open Lib

namespace Process
variable {p : Process} {fd n a : Nat} {e : FdEntry} {object : AppFile} {i : Nat} {x : Fd}

def holdsAt (p : Process) (i : Nat) (x : Fd) (fd : Nat) : Nat :=
  match p.fdGet fd with
  | .ok (_, _, e) => e.object.holds i x
  | .error _ => 0

theorem fdFindUnusedFD_absent (found : p.fdFindUnusedFD = .ok n) : n ∉ p.table := by
  unfold fdFindUnusedFD at found
  split at found
  · next k isFirst =>
    cases found
    have test := List.find?_some isFirst
    exact (of_decide_eq_true test).2
  · cases found

theorem Wf.addEntry (wf : p.Wf) (absent : n ∉ p.table) (lt : fd < fdCount) (unused : ∀ n, p.map fd ≠ .internal n) {cloexec : Bool} :
    ((p.addEntry n object cloexec).setSlot fd (.internal n)).Wf :=
  ⟨wf.mapped.add lt unused absent fun _ => AList.mem_insert _, wf.linked.addEntry absent⟩

theorem Wf.holding_addEntry (wf : p.Wf) {cloexec : Bool} :
    (p.addEntry n object cloexec).holding i x = p.holding i x + object.holds i x := by
  have inserted := valTotal_insert (f := fun e : FdEntry => e.object.holds i x) (m := p.heap) (k := p.nextEntry)
    (v := { numFd := 1, object, cloexec })
  rw [valAt_of_notMem wf.linked.next_absent] at inserted
  exact inserted

theorem Wf.flatten (wf : p.Wf) (got : p.fdGet fd = .ok (n, a, e)) (shared : 1 < e.numFd) : (p.fdFlatten n a e object).Wf := by
  obtain ⟨-, points, found⟩ := fdGet_eq_ok.mp got
  have keys : ∀ k, k ∈ p.table.insert n p.nextEntry ↔ k ∈ p.table := fun k => by
    rw [AList.mem_insert]
    exact ⟨fun mem => mem.elim (fun same => same ▸ mem_of_lookup points) id, .inr⟩
  refine ⟨⟨fun fd' k eq => ?_, wf.mapped.inj, fun k mem => wf.mapped.onto k ((keys k).mp mem)⟩, wf.linked.flatten points found shared⟩
  exact ⟨(wf.mapped.slot fd' k eq).1, (keys k).mpr (wf.mapped.slot fd' k eq).2⟩

end Process
end Faux
