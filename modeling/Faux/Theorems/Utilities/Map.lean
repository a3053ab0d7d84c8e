import Faux.Lib.Run
import Faux.Utilities.Map

/-! A map stands for a finite map as long as it is not full: the end of a full map is its first entry. -/

namespace Faux
open Lib

variable {κ ν : Type} {capacity : Nat}

namespace Map
variable {m : Map κ ν capacity} {key : κ} {value : ν}

/-- In `size_t` the offset of an iterator leads back to it, whatever the rotation. -/
theorem rmIterator_eq {it : Nat} (fits : capacity < sizeMod) (start_lt : m.start < capacity) (it_lt : it < capacity) :
    m.rmIterator it = m.rm it := by
  have back : (m.start + sizeSub it m.start) % sizeMod = it := by
    simp only [sizeSub, sizeMod] at fits ⊢
    omega
  rw [rmIterator, rmOffset, back, Nat.mod_eq_of_lt it_lt]

variable [DecidableEq κ]

theorem find_lt (pos : 0 < capacity) : m.find key < capacity := by
  rw [CircularQueue.find]
  split
  · exact Nat.mod_lt _ pos
  · exact Nat.mod_lt _ pos

/-- The first key of a full map is found at the end. -/
theorem find_first_of_full (full : m.size = capacity) (pos : 0 < capacity) : m.find (m.get 0).1 = m.endIndex := by
  have first : (List.range m.size).find? (fun i => (m.get i).1 = (m.get 0).1) = some 0 := by
    obtain ⟨n, is⟩ := Nat.exists_eq_succ_of_ne_zero (Nat.ne_of_gt pos)
    rw [full.trans is, List.range_succ_eq_map]
    exact List.find?_cons_of_pos (decide_eq_true rfl)
  rw [CircularQueue.find, first, CircularQueue.endIndex, full]
  exact (Nat.add_mod_right ..).symm

end Map

namespace MapUse
variable {s t : MapUse κ ν capacity} {key : κ} {value : ν}

structure Stands (s : MapUse κ ν capacity) : Prop where
  entries : (s.map.toList.map fun e => (⟨e.1, e.2⟩ : (_ : κ) × ν)).Perm s.present.entries
  start_lt : s.map.start < capacity

theorem Stands.length_keys (h : Stands s) : s.present.keys.length = s.map.size := by
  rw [AList.keys, List.keys, List.length_map, ← h.entries.length_eq, List.length_map, CircularQueue.length_toList]

theorem Stands.emptyAt {start : Nat} (start_lt : start < capacity) (data : Nat → κ × ν) :
    Stands { map := (Map.emptyAt start data : Map κ ν capacity), present := ∅ } := ⟨List.Perm.nil, start_lt⟩

variable [DecidableEq κ]

/-- The iterator that is found for a key differs from the end exactly when the key is present, and then it
    is one to the value of the key. -/
def Finds (s : MapUse κ ν capacity) : Prop :=
  ∀ key, (s.map.find key ≠ s.map.endIndex ↔ key ∈ s.present) ∧
    ∀ value, s.present.lookup key = some value → s.map.data (s.map.find key) = (key, value)

/-- Only absent keys are inserted, as many as there is room for, and only present ones are taken out. -/
def Proper (s : MapUse κ ν capacity) : MapCall κ ν → Prop
  | .insert key _ => key ∉ s.present ∧ s.present.keys.length < capacity
  | .find _ => True
  | .take key => key ∈ s.present

instance (s : MapUse κ ν capacity) : ∀ call, Decidable (Proper s call)
  | .insert key _ => inferInstanceAs (Decidable (key ∉ s.present ∧ s.present.keys.length < capacity))
  | .find _ => inferInstanceAs (Decidable True)
  | .take key => inferInstanceAs (Decidable (key ∈ s.present))

def LeavesRoom (s : MapUse κ ν capacity) : MapCall κ ν → Prop
  | .insert _ _ => s.present.keys.length + 1 < capacity
  | .find _ => True
  | .take _ => True

namespace Stands

theorem mem_toList (h : Stands s) : (key, value) ∈ s.map.toList ↔ s.present.lookup key = some value := by
  rw [← Option.mem_def, AList.mem_lookup_iff, ← h.entries.mem_iff, List.mem_map]
  constructor
  · exact fun mem => ⟨_, mem, rfl⟩
  · rintro ⟨e, mem, is⟩
    cases is
    exact mem

theorem mem_keys (h : Stands s) : key ∈ s.map.keys ↔ key ∈ s.present := by
  rw [mem_iff_lookup, CircularQueue.keys, List.mem_map]
  constructor
  · rintro ⟨⟨key, value⟩, mem, rfl⟩
    exact ⟨value, h.mem_toList.mp mem⟩
  · rintro ⟨value, found⟩
    exact ⟨_, h.mem_toList.mpr found, rfl⟩

/-- A present key in a map that is not full: what its iterator points to, and what its removal leaves. -/
theorem found (h : Stands s) (room : s.map.size < capacity) (is : s.present.lookup key = some value) :
    s.map.find key ≠ s.map.endIndex ∧ s.map.data (s.map.find key) = (key, value) ∧
      ((key, value) :: (s.map.rm (s.map.find key)).toList).Perm s.map.toList := by
  obtain ⟨ne, key_is, removed⟩ := CircularQueue.find_of_mem room (h.mem_keys.mpr (mem_of_lookup is))
  have there : s.map.data (s.map.find key) = (key, value) := by
    have mem := removed.subset (List.mem_cons_self ..)
    rw [← Prod.mk.eta (p := s.map.data (s.map.find key)), key_is] at mem ⊢
    rw [Option.some.inj ((h.mem_toList.mp mem).symm.trans is)]
  exact ⟨ne, there, there ▸ removed⟩

theorem finds (h : Stands s) (room : s.map.size < capacity) : Finds s := by
  intro key
  refine ⟨⟨fun ne => ?_, fun mem => ?_⟩, fun value is => (h.found room is).2.1⟩
  · by_contra absent
    exact ne (CircularQueue.find_of_not_mem (mt h.mem_keys.mp absent))
  · obtain ⟨value, is⟩ := mem_iff_lookup.mp mem
    exact (h.found room is).1

theorem insert (h : Stands s) (room : s.map.size < capacity) (absent : key ∉ s.present) :
    Stands { map := s.map.insert key value, present := s.present.insert key value } := by
  refine ⟨?_, ?_⟩
  · rw [CircularQueue.toList_insert room, List.map_append, AList.entries_insert_of_notMem absent]
    exact (List.perm_append_singleton ..).trans (h.entries.cons _)
  · obtain ⟨m, pushed, -⟩ := CircularQueue.toList_push (q := s.map) (a := (key, value)) room
    have start : m.start = s.map.start := by
      rw [CircularQueue.push, dif_neg (Nat.ne_of_lt room)] at pushed
      rw [← Option.some.inj pushed]
    rw [CircularQueue.insert, pushed, Option.getD_some, start]
    exact h.start_lt

theorem size_insert (h : Stands s) (room : s.map.size < capacity) (absent : key ∉ s.present) :
    (s.map.insert key value).size = s.present.keys.length + 1 := by
  have inserted : Stands { map := s.map.insert key value, present := s.present.insert key value } := h.insert room absent
  rw [← inserted.length_keys, AList.keys, AList.entries_insert_of_notMem absent]
  rfl

theorem take (h : Stands s) (room : s.map.size < capacity) (fits : capacity < sizeMod)
    (is : s.present.lookup key = some value) :
    (s.map.take key).1 = some value ∧ Stands { map := (s.map.take key).2, present := s.present.erase key } ∧
      (s.map.take key).2.size = s.map.size - 1 := by
  obtain ⟨ne, there, removed⟩ := h.found room is
  have taken : s.map.take key = (some value, s.map.rm (s.map.find key)) := by
    have pos := Nat.zero_lt_of_lt h.start_lt
    rw [Map.take, if_pos ne, there, Map.rmIterator_eq fits h.start_lt (Map.find_lt pos)]
  rw [taken]
  refine ⟨rfl, ⟨?_, h.start_lt⟩, rfl⟩
  have entries := (removed.map fun e => (⟨e.1, e.2⟩ : (_ : κ) × ν)).trans h.entries
  exact (entries.trans (entries_perm_cons_erase is)).cons_inv

end Stands

/-- In a full map the first key is present and found at the end. -/
theorem not_finds_of_full (h : Stands s) (full : s.map.size = capacity) : ¬Finds s := by
  intro finds
  have pos := Nat.zero_lt_of_lt h.start_lt
  have first : s.map.get 0 ∈ s.map.toList := List.mem_map.mpr ⟨0, List.mem_range.mpr (by omega), rfl⟩
  have mem := h.mem_keys.mp (List.mem_map_of_mem first)
  exact (finds _).1.mpr mem (Map.find_first_of_full full pos)

theorem stands_step {call : MapCall κ ν} (fits : capacity < sizeMod) (h : Stands s) (room : s.map.size < capacity)
    (proper : Proper s call) (leaves : LeavesRoom s call) (stepped : s.step call = some t) :
    Stands t ∧ t.map.size < capacity := by
  cases call with
  | insert key value =>
    cases stepped
    exact ⟨h.insert room proper.1, h.size_insert room proper.1 ▸ leaves⟩
  | find key =>
    cases stepped
    exact ⟨h, room⟩
  | take key =>
    cases stepped
    obtain ⟨value, is⟩ := mem_iff_lookup.mp proper
    obtain ⟨-, stands, size⟩ := h.take room fits is
    exact ⟨stands, size ▸ Nat.lt_of_le_of_lt (Nat.sub_le ..) room⟩

theorem fills {call : MapCall κ ν} (h : Stands s) (room : s.map.size < capacity) (proper : Proper s call)
    (fills : ¬LeavesRoom s call) : ∃ t, s.step call = some t ∧ Stands t ∧ t.map.size = capacity := by
  cases call with
  | insert key value =>
    refine ⟨_, rfl, h.insert room proper.1, ?_⟩
    exact (h.size_insert room proper.1).trans (Nat.le_antisymm proper.2 (Nat.not_lt.mp fills))
  | find key => exact absurd trivial fills
  | take key => exact absurd trivial fills

theorem map_refines_iff (fits : 2 * capacity ≤ sizeMod) (start : Nat) (start_lt : start < capacity) (data : Nat → κ × ν)
    (calls : List (MapCall κ ν))
    (proper : Guarded Proper step { map := (Map.emptyAt start data : Map κ ν capacity), present := ∅ } calls) :
    Throughout Finds step { map := (Map.emptyAt start data : Map κ ν capacity), present := ∅ } calls ↔
      Guarded LeavesRoom step { map := (Map.emptyAt start data : Map κ ν capacity), present := ∅ } calls := by
  have fits' : capacity < sizeMod := by omega
  have sound : ∀ s : MapUse κ ν capacity, Stands s ∧ s.map.size < capacity → Finds s := fun s holds => holds.1.finds holds.2
  refine throughout_iff_guarded sound
    (fun s call t holds proper leaves stepped => stands_step fits' holds.1 holds.2 proper leaves stepped)
    (fun s call holds proper full => ?_) ⟨.emptyAt start_lt data, Nat.zero_lt_of_lt start_lt⟩ proper
  obtain ⟨t, stepped, stands, size⟩ := fills holds.1 holds.2 proper full
  exact ⟨t, stepped, not_finds_of_full stands size⟩

/-- In a ring of four, from the last place on: three keys are found around its end, and one is taken out. -/
theorem map_refines_three :
    Throughout Finds step { map := (Map.emptyAt 3 fun _ => (0, 0) : Map Nat Nat 4), present := ∅ }
        [.insert 5 50, .insert 6 60, .insert 7 70, .take 6] ↔
      Guarded LeavesRoom step { map := (Map.emptyAt 3 fun _ => (0, 0) : Map Nat Nat 4), present := ∅ }
        [.insert 5 50, .insert 6 60, .insert 7 70, .take 6] := by
  have sound : ∀ (s : MapUse Nat Nat 4) call, decide (Proper s call) = true → Proper s call := fun _ _ => of_decide_eq_true
  exact map_refines_iff (by decide) 3 (by decide) _ _ (guarded_of_check sound _ (by decide))

/-- Two keys fill a map of two. The first is present, and what is found for it is the end. -/
theorem full_map_loses_first :
    (∃ s, run step { map := (Map.emptyAt 0 fun _ => (0, 0) : Map Nat Nat 2), present := ∅ } [.insert 5 50, .insert 6 60] = some s ∧
      5 ∈ s.present ∧ s.map.find 5 = s.map.endIndex) ∧
    ¬Throughout Finds step { map := (Map.emptyAt 0 fun _ => (0, 0) : Map Nat Nat 2), present := ∅ } [.insert 5 50, .insert 6 60] := by
  refine ⟨⟨_, rfl, by decide, by decide⟩, fun finds => ?_⟩
  have last := (finds.2 _ rfl).2 _ rfl
  have found := (last 5).1.mpr (by decide)
  exact found (by decide)

end MapUse
end Faux
