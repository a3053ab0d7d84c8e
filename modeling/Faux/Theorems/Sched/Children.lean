import Faux.Sched.Children
import Mathlib.Data.List.Nodup

/-! Every exit of a child is reported once, however exits and signals fall between the steps of the server. -/

namespace Faux
open Lib

namespace SchedChildren
variable {s t : SchedChildren} {e : ChildEvent} {pid : Nat}

structure Inv (s : SchedChildren) : Prop extends Reported s where
  keys : s.children = s.processes.map fun q => (q.pid, q.pipe)
  nodup : (s.processes.map (·.pid)).Nodup

theorem Inv.split {p : ChildProcess → Bool} {q : ChildProcess} (h : Inv s) (found : s.processes.find? p = some q) :
    ∃ l r, s.processes = l ++ q :: r ∧ p q = true ∧ ∀ x ∈ l ++ r, x.pid ≠ q.pid := by
  obtain ⟨holds, l, r, split, -⟩ := List.find?_eq_some_iff_append.mp found
  have nodup := h.nodup
  rw [split] at nodup
  exact ⟨l, r, split, holds, by grind⟩

theorem Inv.exit {status : Nat} (h : Inv s) (stepped : s.step (.exit pid status) = some t) : Inv t := by
  obtain ⟨q, found, same⟩ := Option.bind_eq_some_iff.mp stepped
  obtain rfl := Option.some.inj same
  obtain ⟨l, r, split, running, others⟩ := h.split found
  obtain ⟨rfl, alive⟩ := of_decide_eq_true running
  have stay : ∀ m : List ChildProcess, (∀ x ∈ m, x.pid ≠ q.pid) → m.map (fun x => if x.pid = q.pid then { x with status := some status } else x) = m :=
    fun m differ => (List.map_congr_left fun x mem => if_neg (differ x mem)).trans (List.map_id m)
  have map : s.processes.map (fun x => if x.pid = q.pid then { x with status := some status } else x) = l ++ { q with status := some status } :: r := by
    simp [split, stay l (by grind), stay r (by grind)]
  have once := h.once
  have known := h.known
  have nodup := h.nodup
  rw [split] at once known nodup
  refine ⟨⟨?_, ?_, fun _ => .inl rfl⟩, ?_, ?_⟩ <;> rw [map]
  · grind [ChildProcess.report]
  · grind
  · rw [h.keys, split]
    simp
  · simpa using nodup

theorem Inv.reap (h : Inv s) (stepped : s.step (.reap pid) = some t) : Inv t := by
  obtain ⟨q, found, stepped⟩ := Option.bind_eq_some_iff.mp stepped
  obtain ⟨e, lookup, stepped⟩ := Option.bind_eq_some_iff.mp stepped
  obtain ⟨rc, isRc, stepped⟩ := Option.bind_eq_some_iff.mp stepped
  obtain ⟨l, r, split, exited, others⟩ := h.split found
  obtain ⟨rfl, -⟩ := of_decide_eq_true exited
  split_ifs at stepped with waits
  obtain rfl := Option.some.inj stepped
  have left : s.processes.filter (fun x => x.pid ≠ q.pid) = l ++ r := by
    rw [split, List.filter_append, List.filter_cons_of_neg (by simp), ← List.filter_append]
    exact List.filter_eq_self.mpr fun x mem => decide_eq_true (others x mem)
  have own : e.2 = q.pipe := by
    have mem := List.mem_of_find?_eq_some lookup
    have same : e.1 = q.pid := by simpa using List.find?_some lookup
    rw [h.keys, split] at mem
    grind
  have once := h.once
  have nodup := h.nodup
  rw [split] at once nodup
  refine ⟨⟨?_, ?_, fun _ => .inr (.inr (by simp [waits]))⟩, ?_, ?_⟩ <;> rw [left]
  · simp only [List.filterMap_append, List.filterMap_cons, ChildProcess.report, isRc, Option.map_some, own] at once ⊢
    rw [← List.append_assoc] at once
    rw [List.cons_append, ← List.append_assoc]
    exact List.perm_middle.symm.trans once
  · have := h.known
    grind
  · rw [h.keys, List.filter_map, ← left]
    rfl
  · exact nodup.sublist (((List.sublist_cons_self q r).append_left l).map _)

theorem inv_init : Inv init := ⟨⟨List.Perm.refl _, by simp [init], by simp [init]⟩, rfl, List.nodup_nil⟩

theorem Inv.step (h : Inv s) (stepped : s.step e = some t) : Inv t := by
  have ⟨⟨once, known, noticed⟩, keys, nodup⟩ := h
  cases e with
  | exit pid status => exact h.exit stepped
  | reap pid => exact h.reap stepped
  | exec pid pipe =>
    simp only [SchedChildren.step] at stepped
    split_ifs at stepped with fresh
    obtain rfl := Option.some.inj stepped
    refine ⟨⟨once, ?_, ?_⟩, by simp [keys], List.nodup_cons.mpr ⟨fresh.2, nodup⟩⟩ <;> grind
  | signal | clear | noChild =>
    simp only [SchedChildren.step] at stepped
    split_ifs at stepped with enabled
    obtain rfl := Option.some.inj stepped
    refine ⟨⟨once, known, ?_⟩, keys, nodup⟩
    grind
  | idle =>
    simp only [SchedChildren.step] at stepped
    split_ifs at stepped with outside nothing
    · exact Option.some.inj stepped ▸ h
    · obtain rfl := Option.some.inj stepped
      exact ⟨⟨once, known, fun _ => .inr (.inr (by simp))⟩, keys, nodup⟩

theorem exits_are_reported (es : List ChildEvent) : Throughout Reported step init es :=
  (throughout_iff_guarded (fun _ => Inv.toReported) (fun _ _ _ h _ _ => h.step) (fun _ _ _ _ not => absurd trivial not) inv_init
    (guarded_true es init)).mpr (guarded_true es init)

end SchedChildren
end Faux
