import Mathlib.Logic.Function.Basic
import Mathlib.Data.List.Perm.Basic
import Mathlib.Data.Nat.ModEq

/-! # Bounded containers

A queue in an array of fixed size, a map as a queue of its entries, and a pool of elements that are handed out by index. An iterator
of the map is an index of the array, and the end is the index after the last entry, which in a full map is the index of the
first. -/

namespace Lib
open Function

/-- `size` elements of `data` from the index `start` on, around the end of the array. -/
structure CircularQueue (α : Type) (capacity : Nat) where
  start : Nat
  size : Nat
  data : Nat → α
  size_le : size ≤ capacity

namespace CircularQueue
variable {α : Type} {capacity : Nat} {q r : CircularQueue α capacity} {a : α} {i j : Nat}

def empty (capacity : Nat) (a : α) : CircularQueue α capacity :=
  { start := 0, size := 0, data := fun _ => a, size_le := Nat.zero_le _ }

def index (q : CircularQueue α capacity) (offset : Nat) : Nat := (q.start + offset) % capacity

def get (q : CircularQueue α capacity) (offset : Nat) : α := q.data (q.index offset)

def front (q : CircularQueue α capacity) : α := q.get 0

/-- `none`: the queue is full. -/
def push (q : CircularQueue α capacity) (a : α) : Option (CircularQueue α capacity) :=
  if full : q.size = capacity then none
  else some
    { start := q.start
      size := q.size + 1
      data := update q.data (q.index q.size) a
      size_le := Nat.lt_of_le_of_ne q.size_le full }

/-- `none`: there is nothing to pop. -/
def pop (q : CircularQueue α capacity) : Option (CircularQueue α capacity) :=
  if q.size = 0 then none
  else some
    { start := (q.start + 1) % capacity
      size := q.size - 1
      data := q.data
      size_le := Nat.le_trans (Nat.sub_le ..) q.size_le }

/-- The last element takes the place of the one at the index `it` of the array. -/
def rm (q : CircularQueue α capacity) (it : Nat) : CircularQueue α capacity :=
  { start := q.start
    size := q.size - 1
    data := update q.data it (q.get (q.size - 1))
    size_le := Nat.le_trans (Nat.sub_le ..) q.size_le }

def toList (q : CircularQueue α capacity) : List α := (List.range q.size).map q.get

@[simp] theorem length_toList : q.toList.length = q.size := by
  simp [toList]

@[simp] theorem toList_empty : (empty capacity a).toList = [] := rfl

theorem getElem?_toList : q.toList[i]? = if i < q.size then some (q.get i) else none := by
  rw [toList, List.getElem?_map]
  by_cases lt : i < q.size
  · rw [if_pos lt, List.getElem?_range lt]
    rfl
  · grind

theorem toList_eq_nil_iff : q.toList = [] ↔ q.size = 0 := by
  rw [← List.length_eq_zero_iff, length_toList]

theorem index_inj (i_lt : i < capacity) (j_lt : j < capacity) (same : q.index i = q.index j) : i = j :=
  Nat.ModEq.eq_of_lt_of_lt (Nat.ModEq.add_left_cancel' q.start same) i_lt j_lt

theorem toList_push (room : q.size < capacity) : ∃ r, q.push a = some r ∧ r.toList = q.toList ++ [a] := by
  have not_full : ¬q.size = capacity := Nat.ne_of_lt room
  refine ⟨_, dif_neg not_full, List.ext_getElem? fun i => ?_⟩
  rw [List.getElem?_append, getElem?_toList, getElem?_toList, length_toList]
  rcases Nat.lt_trichotomy i q.size with lt | rfl | gt
  · have other : q.index i ≠ q.index q.size := fun same =>
      Nat.ne_of_lt lt (index_inj (Nat.lt_trans lt room) room same)
    rw [if_pos (Nat.lt_succ_of_lt lt), if_pos lt, if_pos lt]
    exact congrArg some (update_of_ne other ..)
  · rw [if_pos (Nat.lt_succ_self _), if_neg (Nat.lt_irrefl _), Nat.sub_self]
    exact congrArg some (update_self ..)
  · grind

theorem toList_of_push (pushed : q.push a = some r) : r.toList = q.toList ++ [a] := by
  have room : q.size < capacity := by grind [push]
  obtain ⟨r', again, list⟩ := toList_push (a := a) room
  cases Option.some.inj (pushed.symm.trans again)
  exact list

theorem toList_pop {l : List α} (queued : q.toList = a :: l) :
    q.front = a ∧ ∃ r, q.pop = some r ∧ r.toList = l := by
  have size : q.size = l.length + 1 := by rw [← length_toList, queued, List.length_cons]
  have at_i : ∀ i, (a :: l)[i]? = if i < q.size then some (q.get i) else none := fun i => by
    rw [← queued, getElem?_toList]
  have first := at_i 0
  rw [List.getElem?_cons_zero, if_pos (by omega)] at first
  refine ⟨(Option.some.inj first).symm, _, if_neg (by omega), List.ext_getElem? fun i => ?_⟩
  have next := at_i (i + 1)
  rw [List.getElem?_cons_succ] at next
  rw [getElem?_toList, next]
  by_cases lt : i < q.size - 1
  · rw [if_pos lt, if_pos (by omega)]
    have shift : ((q.start + 1) % capacity + i) % capacity = (q.start + (i + 1)) % capacity := by
      rw [Nat.mod_add_mod, Nat.add_assoc, Nat.add_comm 1 i]
    exact congrArg (fun k => some (q.data k)) shift
  · rw [if_neg lt, if_neg (by omega)]

theorem toList_of_pop (popped : q.pop = some r) : q.toList = q.front :: r.toList := by
  cases queued : q.toList with
  | nil =>
    rw [pop, if_pos (toList_eq_nil_iff.mp queued)] at popped
    cases popped
  | cons a l =>
    obtain ⟨rfl, s, again, rfl⟩ := toList_pop queued
    cases Option.some.inj (again.symm.trans popped)
    rfl

theorem pop_of_pos (pos : 0 < q.size) : ∃ r, q.pop = some r := ⟨_, if_neg (Nat.ne_of_gt pos)⟩

theorem toList_rm (i_lt : i < q.size) : (q.get i :: (q.rm (q.index i)).toList).Perm q.toList := by
  obtain ⟨n, size⟩ : ∃ n, q.size = n + 1 := ⟨q.size - 1, by omega⟩
  have le := q.size_le
  let l := (List.range n).map q.get
  have length : l.length = n := by rw [List.length_map, List.length_range]
  have split : q.toList = l ++ [q.get n] := by
    rw [toList, size, List.range_succ, List.map_append, List.map_singleton]
  have get_rm : ∀ j < n, (q.rm (q.index i)).get j = if j = i then q.get n else q.get j := by
    intro j j_lt
    show update q.data (q.index i) (q.get (q.size - 1)) (q.index j) = _
    rw [size, Nat.add_sub_cancel]
    by_cases same : j = i
    · rw [if_pos same, same, update_self]
    · rw [if_neg same, update_of_ne fun eq => same (index_inj (by omega) (by omega) eq)]
      rfl
  have removed : (q.rm (q.index i)).toList = (List.range n).map fun j => if j = i then q.get n else q.get j := by
    show (List.range (q.size - 1)).map _ = _
    rw [size, Nat.add_sub_cancel]
    exact List.map_congr_left fun j mem => get_rm j (List.mem_range.mp mem)
  rw [split]
  by_cases last : i = n
  · have keep : (q.rm (q.index i)).toList = l := removed.trans
      (List.map_congr_left fun j mem => if_neg (last ▸ Nat.ne_of_lt (List.mem_range.mp mem)))
    rw [keep, last]
    exact (List.perm_append_singleton ..).symm
  · -- the last element now stands at `i`
    have at_i : i < l.length := by omega
    have moved : (q.rm (q.index i)).toList = l.set i (q.get n) := by
      refine removed.trans (List.ext_getElem (by simp [l]) fun j j_lt _ => ?_)
      rw [List.getElem_set]
      simp only [List.getElem_map, List.getElem_range, l, eq_comm]
    have here : l[i] = q.get i := by simp only [l, List.getElem_map, List.getElem_range]
    rw [moved]
    calc q.get i :: l.set i (q.get n)
        |>.Perm (q.get i :: q.get n :: l.eraseIdx i) := (List.set_perm_cons_eraseIdx at_i _).cons _
      _ |>.Perm (q.get n :: q.get i :: l.eraseIdx i) := List.Perm.swap ..
      _ |>.Perm (q.get n :: l) := (here ▸ List.getElem_cons_eraseIdx_perm at_i).cons _
      _ |>.Perm (l ++ [q.get n]) := (List.perm_append_singleton ..).symm

/-! ### Maps -/

section
variable {κ ν : Type} {m : CircularQueue (κ × ν) capacity} {key : κ} {value : ν}

def keys (m : CircularQueue (κ × ν) capacity) : List κ := m.toList.map Prod.fst

/-- A full map is left as it is. -/
def insert (m : CircularQueue (κ × ν) capacity) (key : κ) (value : ν) : CircularQueue (κ × ν) capacity :=
  (m.push (key, value)).getD m

def endIndex (m : CircularQueue (κ × ν) capacity) : Nat := m.index m.size

theorem toList_insert (room : m.size < capacity) : (m.insert key value).toList = m.toList ++ [(key, value)] := by
  obtain ⟨r, pushed, list⟩ := toList_push (a := (key, value)) room
  rw [insert, pushed, Option.getD_some, list]

variable [DecidableEq κ]

def find (m : CircularQueue (κ × ν) capacity) (key : κ) : Nat :=
  match (List.range m.size).find? fun i => (m.get i).1 = key with
  | some i => m.index i
  | none => m.endIndex

theorem find_of_not_mem (free : key ∉ m.keys) : m.find key = m.endIndex := by
  have none : (List.range m.size).find? (fun i => (m.get i).1 = key) = none := by
    refine List.find?_eq_none.mpr fun i mem is => free ?_
    exact List.mem_map.mpr ⟨m.get i, List.mem_map.mpr ⟨i, mem, rfl⟩, of_decide_eq_true is⟩
  rw [find, none]

theorem find_ne_end (found : m.find key ≠ m.endIndex) :
    (m.data (m.find key)).1 = key ∧ (m.data (m.find key) :: (m.rm (m.find key)).toList).Perm m.toList := by
  cases first : (List.range m.size).find? fun i => (m.get i).1 = key with
  | none => exact absurd (by rw [find, first]) found
  | some i =>
    have here : m.find key = m.index i := by rw [find, first]
    have is := List.find?_some first
    rw [here]
    exact ⟨of_decide_eq_true is, toList_rm (List.mem_range.mp (List.mem_of_find?_eq_some first))⟩

theorem find_of_mem (room : m.size < capacity) (mem : key ∈ m.keys) :
    m.find key ≠ m.endIndex ∧ (m.data (m.find key)).1 = key ∧
      (m.data (m.find key) :: (m.rm (m.find key)).toList).Perm m.toList := by
  obtain ⟨_, entry, is⟩ := List.mem_map.mp mem
  obtain ⟨k, k_mem, rfl⟩ := List.mem_map.mp entry
  have found : ((List.range m.size).find? fun i => (m.get i).1 = key).isSome :=
    List.find?_isSome.mpr ⟨k, k_mem, decide_eq_true is⟩
  obtain ⟨i, first⟩ := Option.isSome_iff_exists.mp found
  have i_lt : i < m.size := List.mem_range.mp (List.mem_of_find?_eq_some first)
  have here : m.find key = m.index i := by rw [find, first]
  have inside : m.find key ≠ m.endIndex := fun same =>
    Nat.ne_of_lt i_lt (index_inj (Nat.lt_trans i_lt room) room (here ▸ same))
  exact ⟨inside, find_ne_end inside⟩

end

end CircularQueue

/-- Elements named by their index, and the indices not handed out, the next one first. -/
structure Pool (α : Type) where
  heap : Nat → α
  freeList : List Nat

namespace Pool
variable {α : Type}

def init (n : Nat) (a : α) : Pool α := { heap := fun _ => a, freeList := (List.range n).reverse }

/-- `none`: every element has been handed out. -/
def allocate (p : Pool α) : Option (Nat × Pool α) :=
  match p.freeList with
  | [] => none
  | i :: rest => some (i, { p with freeList := rest })

def free (p : Pool α) (i : Nat) : Pool α := { p with freeList := i :: p.freeList }

def set (p : Pool α) (i : Nat) (a : α) : Pool α := { p with heap := update p.heap i a }

end Pool
end Lib
