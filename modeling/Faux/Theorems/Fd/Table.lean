import Faux.Fd.Table
import Faux.Lib.Cells
import Faux.Theorems.Utilities.SpaceAlloc
import Mathlib.Data.Finset.Card

/-! # The descriptor table is consistent

Every call fills or empties slots, and maps or unmaps descriptors. The map has fewer descriptors than the table has slots, so the table
is never expanded. -/

namespace Faux
open Lib SpaceAllocState Function

namespace Descriptors
variable {d : Descriptors} {fd : Nat} {newfd : Nat} {real : Bool}

theorem set_eq_self {x : Descriptor} (is : d.get fd = x) : d.set fd x = d := by
  rw [set, ← is, update_eq_self]

theorem get_of_number (external : (d.get fd).number = none) : d.get fd = .free ∨ ∃ n, d.get fd = .external n := by
  cases is : d.get fd with
  | free => exact .inl rfl
  | external n => exact .inr ⟨n, rfl⟩
  | file n p => simp [is, Descriptor.number] at external

theorem close_eq_set (external : (d.get fd).number = none) : d.close fd = d.set fd .free := by
  rcases get_of_number external with is | ⟨n, is⟩ <;> simp only [close, is]

theorem flatten_eq_self (external : (d.get fd).number = none) : d.flatten fd = d := by
  rcases get_of_number external with is | ⟨n, is⟩ <;> simp only [flatten, is]

theorem dup_eq {real : Option Nat} (external : (d.get fd).number = none) : d.dup fd real = d.dupReal real := by
  rcases get_of_number external with is | ⟨n, is⟩ <;> simp only [dup, is]

theorem dup2_eq (external : (d.get fd).number = none) :
    d.dup2 fd newfd real = d.dup2Real fd newfd real := by
  rcases get_of_number external with is | ⟨n, is⟩ <;> simp only [dup2, is]

theorem get_close {g : Nat} (ne : g ≠ fd) : (d.close fd).get g = d.get g := by
  unfold close
  split <;> exact update_of_ne ne ..

/-- A duplicate that gets a file of its own at once. -/
theorem flatten_set {n : Nat} {p : Bool} (inRange : fd < fdCount) (other : fd ≠ newfd) (is : (d.get fd).number = some n) :
    (d.set newfd (.file n p)).flatten newfd = { d.set newfd (.file d.opened p) with opened := d.opened + 1 } := by
  have get : (d.set newfd (.file n p)).get newfd = .file n p := update_self ..
  have shared : (d.set newfd (.file n p)).shared newfd n = true := by
    refine List.any_eq_true.mpr ⟨fd, List.mem_range.mpr inRange, decide_eq_true ⟨other, ?_⟩⟩
    simpa only [set, update_of_ne other] using is
  simp only [flatten, get, shared, if_true]
  simp [set]

end Descriptors

namespace FosFdTable
variable {t t' : FosFdTable} {fd slot entry : Nat} {e : FosFdEntry} {isPipe : Bool} {realloc : Option (Nat → BitWord)}
  {s : Slot} {v : Option Nat}

/-- The map and the slots: descriptors have slots of their own that are not empty, and only the three reserved slots have no
    descriptor; no other slot has the entry of one of these. -/
structure Maps (map : Nat → Slot) (entries : Nat → Option Nat) : Prop where
  mapped : ∀ {fd slot}, map fd = .internal slot → fd < fdCount ∧ 3 ≤ slot ∧ (entries slot).isSome = true
  own : ∀ {fd other slot}, map fd = .internal slot → map other = .internal slot → fd = other
  used : ∀ {slot}, 3 ≤ slot → (entries slot).isSome = true → ∃ fd, map fd = .internal slot
  taken : ∀ {slot}, slot < 3 → (entries slot).isSome = true
  apart : ∀ {slot other entry}, slot < 3 → entries slot = some entry → entries other = some entry → other = slot

/-- How many slots an entry counts. -/
def refs (t : FosFdTable) (entry : Nat) : Nat := (t.heap entry).elim 0 (·.numFd)

/-- The slots and the entries: a number is marked as long as its slot is not empty, an entry is there as long as it is counted, and
    its close operation is called when it goes. -/
structure Slots (t : FosFdTable) : Prop where
  low : t.allocState.Lowest
  size : t.allocState.arraySize = 1024
  marked : ∀ slot, (t.fdEntries slot).isSome = true ↔ t.allocState.spaceAllocIsAllocated slot = true
  counted : ∀ entry, t.refs entry = (t.slotsOf entry).length
  positive : ∀ {entry e}, t.heap entry = some e → 0 < e.numFd
  once : ∀ entry, t.closed.count entry + (t.heap entry).isSome.toNat = if entry < t.nextEntry then 1 else 0

structure Inv (t : FosFdTable) : Prop where
  slots : t.Slots
  maps : Maps t.fdMap t.fdEntries
  onceOnly : ∀ {slot}, 3 ≤ slot → slot < bitarrayBitsPerInt → fosBitArrayIsSet t.onceOnlyFds slot = false

/-! ### Maps -/

namespace Maps
variable {map : Nat → Slot} {entries : Nat → Option Nat} {s : Slot}

theorem unmapped (h : Maps map entries) (free : entries slot = none) (g : Nat) : map g ≠ .internal slot := fun is => by
  have := (h.mapped is).2.2
  simp [free] at this

/-- An empty slot is filled for a descriptor that has none. -/
theorem attach (h : Maps map entries) (inRange : fd < fdCount) (external : ∀ k, map fd ≠ .internal k)
    (free : entries slot = none) (apart : ∀ k < 3, entries k ≠ some entry) :
    Maps (update map fd (.internal slot)) (update entries slot (some entry)) := by
  have notMapped := h.unmapped free
  have le : 3 ≤ slot := Nat.le_of_not_lt fun lt => by
    have := h.taken lt
    simp [free] at this
  obtain ⟨mapped, own, used, taken, apart'⟩ := h
  refine ⟨?_, ?_, fun {k} le' some => ?_, ?_, ?_⟩
  case refine_3 =>
    by_cases here : k = slot
    · exact ⟨fd, by rw [here, update_self]⟩
    · obtain ⟨g, is⟩ := used le' (by rwa [update_of_ne here] at some)
      have other : g ≠ fd := fun same => external k (same ▸ is)
      exact ⟨g, by rw [update_of_ne other, is]⟩
  all_goals grind [update_apply]

/-- The slot of a descriptor is emptied, and the descriptor is not internal any more. -/
theorem detach (h : Maps map entries) (is : map fd = .internal slot) (external : ∀ k, s ≠ .internal k) :
    Maps (update map fd s) (update entries slot none) := by
  have le := (h.mapped is).2.1
  obtain ⟨mapped, own, used, taken, apart⟩ := h
  refine ⟨?_, ?_, fun {k} le' some => ?_, ?_, ?_⟩
  case refine_3 =>
    obtain ⟨g, is'⟩ := used le' (by grind [update_apply])
    exact ⟨g, by grind [update_apply]⟩
  all_goals grind [update_apply]

theorem replace (h : Maps map entries) (some : (entries slot).isSome = true) (le : 3 ≤ slot)
    (apart : ∀ k < 3, entries k ≠ .some entry) : Maps map (update entries slot (.some entry)) := by
  obtain ⟨mapped, own, used, taken, apart'⟩ := h
  constructor <;> grind [update_apply]

theorem other (h : Maps map entries) (external : ∀ k, map fd ≠ .internal k) (external' : ∀ k, s ≠ .internal k) :
    Maps (update map fd s) entries := by
  have iff : ∀ g k, update map fd s g = .internal k ↔ map g = .internal k := by grind [update_apply]
  obtain ⟨mapped, own, used, taken, apart⟩ := h
  constructor <;> simpa only [iff]

theorem room (h : Maps map entries) : ∃ slot < 1024, ¬(entries slot).isSome = true := by
  refine @exists_not_of_lt 1024 fdCount 3 (fun k => (entries k).isSome = true) (fun g k => map g = .internal k) (by decide) ?_ ?_
  · intro k le some
    obtain ⟨g, is⟩ := h.used le some
    exact ⟨g, (h.mapped is).1, is⟩
  · intro k k' g is is'
    exact Slot.internal.inj (is.symm.trans is')

end Maps

/-! ### Slots -/

theorem slotsOf_update (size : t'.allocState.arraySize = t.allocState.arraySize)
    (entries : t'.fdEntries = update t.fdEntries slot v) (lt : slot < t.allocState.arraySize) (entry : Nat) :
    (t'.slotsOf entry).length + (decide (t.fdEntries slot = some entry)).toNat =
      (t.slotsOf entry).length + (decide (v = some entry)).toNat := by
  unfold slotsOf
  rw [size, entries]
  exact @length_filter_update _ _ _ (fun x => decide (x = some entry)) _ _ _ _ List.nodup_range (List.mem_range.mpr lt)

theorem mem_slotsOf : slot ∈ t.slotsOf entry ↔ slot < t.allocState.arraySize ∧ t.fdEntries slot = some entry := by
  simp [slotsOf]

/-- The number of a slot is taken. -/
def mark (t : FosFdTable) (slot : Nat) : FosFdTable :=
  { t with allocState := { t.allocState with bitArray := fosBitArraySet t.allocState.bitArray slot } }

def share (t : FosFdTable) (slot entry : Nat) (e : FosFdEntry) : FosFdTable :=
  { t.mark slot with
    heap := update t.heap entry (some { e with numFd := e.numFd + 1 })
    fdEntries := update t.fdEntries slot (some entry) }

/-- An entry loses one of its slots, and goes with the last one. -/
def unshare (t : FosFdTable) (entry : Nat) (e : FosFdEntry) : FosFdTable :=
  { t with heap := update t.heap entry (if e.numFd ≤ 1 then none else some { e with numFd := e.numFd - 1 }) }

def empty (t : FosFdTable) (slot entry : Nat) (e : FosFdEntry) (allocState : SpaceAllocState) : FosFdTable :=
  { t.unshare entry e with
    allocState
    fdEntries := update t.fdEntries slot none
    closed := if e.numFd = 1 then t.closed ++ [entry] else t.closed }

/-- What the change of a slot has to do for the entry `a`: its count follows, and its close operation is called when it goes. -/
structure Follows (t t' : FosFdTable) (old new : Option Nat) (a : Nat) : Prop where
  refs : t'.refs a + (decide (old = some a)).toNat = t.refs a + (decide (new = some a)).toNat
  positive : ∀ {e}, t'.heap a = some e → 0 < e.numFd
  once : t'.closed.count a + (t'.heap a).isSome.toNat = if a < t'.nextEntry then 1 else 0

namespace Slots

theorem lt_size (h : t.Slots) (some : (t.fdEntries slot).isSome = true) : slot < t.allocState.arraySize :=
  (isAllocated_iff.mp ((h.marked slot).mp some)).1

theorem live (h : t.Slots) (points : t.fdEntries slot = some entry) : ∃ e, t.heap entry = some e := by
  have lt : slot < t.allocState.arraySize := h.lt_size (by simp [points])
  have pos := List.length_pos_of_mem (mem_slotsOf.mpr ⟨lt, points⟩)
  rw [← h.counted, refs] at pos
  cases is : t.heap entry with
  | none => simp [is] at pos
  | some e => exact ⟨e, rfl⟩

theorem one_lt_iff (h : t.Slots) (points : t.fdEntries slot = some entry) (live : t.heap entry = some e) :
    1 < e.numFd ↔ ∃ other ≠ slot, t.fdEntries other = some entry := by
  have counts := h.counted entry
  rw [refs, live] at counts
  have mem : ∀ {k}, k ∈ (t.slotsOf entry).toFinset ↔ t.fdEntries k = some entry := fun {k} => by
    rw [List.mem_toFinset, mem_slotsOf, and_iff_right_of_imp fun points' => h.lt_size (by simp [points'])]
  have nodup : (t.slotsOf entry).Nodup := List.nodup_range.filter _
  rw [show e.numFd = _ from counts, ← List.toFinset_card_of_nodup nodup]
  constructor
  · intro more
    obtain ⟨k, there, ne⟩ := Finset.exists_mem_ne more slot
    exact ⟨k, ne, mem.mp there⟩
  · rintro ⟨k, ne, points'⟩
    exact Finset.one_lt_card.mpr ⟨k, mem.mpr points', slot, mem.mpr points, ne⟩

theorem heap_lt (h : t.Slots) (live : t.heap entry = some e) : entry < t.nextEntry := by
  have := h.once entry
  simp only [live, Option.isSome_some, Bool.toNat_true] at this
  by_contra le
  simp [le] at this

theorem entry_lt (h : t.Slots) (points : t.fdEntries slot = some entry) : entry < t.nextEntry := by
  obtain ⟨e, live⟩ := h.live points
  exact h.heap_lt live

theorem heap_next (h : t.Slots) : t.heap t.nextEntry = none := by
  by_contra some
  obtain ⟨e, live⟩ := Option.ne_none_iff_exists'.mp some
  exact Nat.lt_irrefl _ (h.heap_lt live)

theorem closed_next (h : t.Slots) : t.closed.count t.nextEntry = 0 := by
  have := h.once t.nextEntry
  simpa [h.heap_next] using this

theorem closed_live (h : t.Slots) (live : t.heap entry = some e) : t.closed.count entry = 0 := by
  have := h.once entry
  simpa [live, h.heap_lt live] using this

theorem follows_of_live {old new : Option Nat} {a : Nat} (heap : t'.heap a = some e)
    (counts : e.numFd + (decide (old = some a)).toNat = t.refs a + (decide (new = some a)).toNat) (pos : 0 < e.numFd)
    (closed : t'.closed.count a = 0) (lt : a < t'.nextEntry) : Follows t t' old new a where
  refs := by rw [refs, heap]; exact counts
  positive := fun live => Option.some.inj (heap.symm.trans live) ▸ pos
  once := by rw [heap, closed, if_pos lt]; rfl

theorem follows_of_ne {old new : Option Nat} {a : Nat} (h : t.Slots) (heap : t'.heap a = t.heap a)
    (closed : t'.closed.count a = t.closed.count a) (next : a < t'.nextEntry ↔ a < t.nextEntry) (notOld : old ≠ some a)
    (notNew : new ≠ some a) : Follows t t' old new a where
  refs := by simp [refs, heap, notOld, notNew]
  positive := fun live => h.positive (heap ▸ live)
  once := by rw [heap, closed, h.once, if_congr next rfl rfl]

theorem change (h : t.Slots) (lt : slot < t.allocState.arraySize) (low : t'.allocState.Lowest)
    (size : t'.allocState.arraySize = t.allocState.arraySize) (entries : t'.fdEntries = update t.fdEntries slot v)
    (marked : ∀ other, t'.allocState.spaceAllocIsAllocated other = true ↔
      if other = slot then v.isSome = true else t.allocState.spaceAllocIsAllocated other = true)
    (follows : ∀ a, Follows t t' (t.fdEntries slot) v a) : t'.Slots where
  low := low
  size := size.trans h.size
  marked := fun other => by
    rw [marked, entries, update_apply]
    split_ifs
    · rfl
    · exact h.marked other
  counted := fun a => by
    have := slotsOf_update size entries lt a
    have := (follows a).refs
    have := h.counted a
    omega
  positive := fun {a _} => (follows a).positive
  once := fun a => (follows a).once

theorem marked_mark (h : t.Slots) (lt : slot < t.allocState.arraySize) (v : Nat) (other : Nat) :
    (t.mark slot).allocState.spaceAllocIsAllocated other = true ↔
      if other = slot then (some v).isSome = true else t.allocState.spaceAllocIsAllocated other = true := by
  rw [mark, h.low.isAllocated_set lt]
  split_ifs with here <;> simp [here]

theorem create (h : t.Slots) (lt : slot < t.allocState.arraySize) (free : t.fdEntries slot = none) :
    ((t.mark slot).newEntry slot isPipe).Slots := by
  refine h.change lt h.low.set rfl rfl (h.marked_mark lt t.nextEntry) fun a => ?_
  by_cases isNew : a = t.nextEntry
  · subst isNew
    refine follows_of_live (update_self ..) ?_ Nat.one_pos h.closed_next (Nat.lt_succ_self _)
    simp [refs, mark, free, h.heap_next]
  · refine h.follows_of_ne (update_of_ne isNew ..) rfl ?_ (by simp [free]) (by simp [mark, Ne.symm isNew])
    show a < t.nextEntry + 1 ↔ a < t.nextEntry
    omega

theorem duplicate (h : t.Slots) (lt : slot < t.allocState.arraySize) (free : t.fdEntries slot = none)
    (live : t.heap entry = some e) : (t.share slot entry e).Slots := by
  refine h.change lt h.low.set rfl rfl (h.marked_mark lt entry) fun a => ?_
  by_cases same : a = entry
  · subst same
    refine follows_of_live (update_self ..) ?_ (Nat.succ_pos _) (h.closed_live live) (h.heap_lt live)
    simp [refs, free, live]
  · exact h.follows_of_ne (update_of_ne same ..) rfl .rfl (by simp [free]) (by simp [Ne.symm same])

/-- A slot is emptied. -/
theorem release {allocState : SpaceAllocState} (h : t.Slots) (points : t.fdEntries slot = some entry)
    (live : t.heap entry = some e) (low : allocState.Lowest) (size : allocState.arraySize = t.allocState.arraySize)
    (freed : ∀ other, allocState.spaceAllocIsAllocated other = true ↔
      other ≠ slot ∧ t.allocState.spaceAllocIsAllocated other = true) :
    (t.empty slot entry e allocState).Slots := by
  have pos := h.positive live
  have lt := h.heap_lt live
  have closed := h.closed_live live
  refine @change t _ slot none h (h.lt_size (by simp [points])) low size rfl (fun other => ?_) fun a => ?_
  · rw [show (t.empty slot entry e allocState).allocState = allocState from rfl, freed]
    split_ifs with here <;> simp [here]
  · by_cases same : a = entry
    · subst same
      by_cases last : e.numFd = 1
      · constructor <;> simp_all [refs, empty, unshare]
      · have more : ¬e.numFd ≤ 1 := by omega
        refine @follows_of_live t _ { e with numFd := e.numFd - 1 } _ _ a (by simp [empty, unshare, more]) ?_ ?_ ?_ lt
        · simp [refs, points, live]
          omega
        · show 0 < e.numFd - 1
          omega
        · simpa [empty, last] using closed
    · refine h.follows_of_ne (update_of_ne same ..) ?_ .rfl (by simp [points, Ne.symm same]) (by simp)
      simp only [empty]
      split_ifs <;> simp [Ne.symm same]

/-- A slot gets an entry of its own. -/
theorem flatten (h : t.Slots) (points : t.fdEntries slot = some entry) (live : t.heap entry = some e) (more : 1 < e.numFd) :
    ((t.unshare entry e).newEntry slot e.isPipe).Slots := by
  have lt := h.heap_lt live
  refine h.change (h.lt_size (by simp [points])) h.low rfl rfl (fun other => ?_) fun a => ?_
  · split_ifs with here
    · exact iff_of_true (here ▸ (h.marked slot).mp (by simp [points])) rfl
    · rfl
  · by_cases isNew : a = t.nextEntry
    · subst isNew
      refine follows_of_live (update_self ..) ?_ Nat.one_pos h.closed_next (Nat.lt_succ_self _)
      simp [refs, unshare, points, h.heap_next, Nat.ne_of_lt lt]
    · have kept : ((t.unshare entry e).newEntry slot e.isPipe).heap a = (t.unshare entry e).heap a := update_of_ne isNew ..
      by_cases same : a = entry
      · subst same
        have heap : (t.unshare a e).heap a = some { e with numFd := e.numFd - 1 } := by
          simp [unshare, Nat.not_le.mpr more]
        refine follows_of_live (kept.trans heap) ?_ ?_ (h.closed_live live) (Nat.lt_succ_of_lt lt)
        · simp [refs, points, live, unshare, Ne.symm isNew]
          omega
        · show 0 < e.numFd - 1
          omega
      · refine h.follows_of_ne (kept.trans (update_of_ne same ..)) rfl ?_ (by simp [points, Ne.symm same])
          (by simp [unshare, Ne.symm isNew])
        show a < t.nextEntry + 1 ↔ a < t.nextEntry
        omega

theorem setMap (h : t.Slots) : (t.setMap fd s).Slots := ⟨h.low, h.size, h.marked, h.counted, h.positive, h.once⟩

end Slots

/-! ### Descriptors -/

theorem descriptor_of_points (is : t.fdMap fd = .internal slot) (points : t.fdEntries slot = some entry)
    (live : t.heap entry = some e) : t.descriptor fd = .file entry e.isPipe := by
  simp [descriptor, is, points, live]

theorem number_descriptor : (t.descriptor fd).number = some entry ↔
    ∃ slot, t.fdMap fd = .internal slot ∧ t.fdEntries slot = some entry := by
  unfold descriptor
  cases t.fdMap fd with
  | free => simp [Descriptor.number]
  | external n => simp [Descriptor.number]
  | internal slot => cases points : t.fdEntries slot <;> simp [Descriptor.number, points]

/-- A change of one slot is seen in no other descriptor than the one it is for. -/
theorem descriptor_update (map : t'.fdMap = update t.fdMap fd s)
    (entries : t'.fdEntries = update t.fdEntries slot v) (unmapped : ∀ g ≠ fd, t.fdMap g ≠ .internal slot)
    (kind : ∀ {k a}, k ≠ slot → t.fdEntries k = some a → (t'.heap a).any (·.isPipe) = (t.heap a).any (·.isPipe)) :
    t'.descriptor = update t.descriptor fd (t'.descriptor fd) := by
  funext g
  by_cases here : g = fd
  · rw [here, update_self]
  · rw [update_of_ne here]
    unfold descriptor
    rw [map, update_of_ne here]
    cases is : t.fdMap g with
    | free => rfl
    | external n => rfl
    | internal k =>
      have other : k ≠ slot := fun same => unmapped g here (same ▸ is)
      simp only [entries, update_of_ne other]
      cases points : t.fdEntries k with
      | none => rfl
      | some a => simp only [kind other points]

theorem view_eq {d : Descriptors} (get : t.descriptor = d.get) (opened : t.nextEntry = d.opened)
    (closed : t.closed = d.closed) : t.view = d := by
  rw [view, get, opened, closed]

theorem view_setMap : (t.setMap fd s).view = t.view.set fd ((t.setMap fd s).descriptor fd) := by
  refine view_eq ?_ rfl rfl
  funext g
  by_cases here : g = fd
  · simp [here, Descriptors.set]
  · simp [here, Descriptors.set, view, descriptor, setMap]

theorem view_fdRemove : (t.fdRemove fd).view = t.view.set fd .free := by
  rw [fdRemove, view_setMap]
  simp [descriptor, setMap]

theorem view_fdSetExternal {n : Nat} : (t.fdSetExternal fd n).view = t.view.set fd (.external n) := by
  rw [fdSetExternal, view_setMap]
  simp [descriptor, setMap]

theorem number_eq_none (external : ∀ k, t.fdMap fd ≠ .internal k) : (t.view.get fd).number = none := by
  cases is : (t.descriptor fd).number with
  | none => exact is
  | some entry =>
    obtain ⟨k, is', -⟩ := number_descriptor.mp is
    exact absurd is' (external k)

namespace Inv

theorem points (h : t.Inv) (is : t.fdMap fd = .internal slot) : ∃ entry e, t.fdEntries slot = some entry ∧ t.heap entry = some e := by
  obtain ⟨entry, points⟩ := Option.isSome_iff_exists.mp (h.maps.mapped is).2.2
  obtain ⟨e, live⟩ := h.slots.live points
  exact ⟨entry, e, points, live⟩

theorem descriptor_eq_free (h : t.Inv) : t.descriptor fd = .free ↔ t.fdMap fd = .free := by
  cases is : t.fdMap fd with
  | free => simp [descriptor, is]
  | external n => simp [descriptor, is]
  | internal slot =>
    obtain ⟨entry, e, points, live⟩ := h.points is
    simp [descriptor_of_points is points live]

/-- An entry is counted more than once when another descriptor has it. -/
theorem shared_iff (h : t.Inv) (is : t.fdMap fd = .internal slot) (points : t.fdEntries slot = some entry)
    (live : t.heap entry = some e) : t.view.shared fd entry = true ↔ 1 < e.numFd := by
  rw [h.slots.one_lt_iff points live]
  simp only [Descriptors.shared, List.any_eq_true, List.mem_range, decide_eq_true_iff]
  constructor
  · rintro ⟨g, -, other, number⟩
    obtain ⟨k, is', points'⟩ := number_descriptor.mp number
    exact ⟨k, fun same => other (h.maps.own is' (same ▸ is)), points'⟩
  · rintro ⟨k, ne, points'⟩
    have le : 3 ≤ k := Nat.le_of_not_lt fun lt => ne (h.maps.apart lt points' points).symm
    obtain ⟨g, is'⟩ := h.maps.used le (by simp [points'])
    have other : g ≠ fd := fun same => by
      rw [same, is] at is'
      exact ne (Slot.internal.inj is').symm
    exact ⟨g, (h.maps.mapped is').1, other, number_descriptor.mpr ⟨k, is', points'⟩⟩

theorem create (h : t.Inv) (lt : slot < t.allocState.arraySize) (free : t.fdEntries slot = none) (inRange : fd < fdCount)
    (external : ∀ k, t.fdMap fd ≠ .internal k) :
    (((t.mark slot).newEntry slot isPipe).fdSetInternal fd slot).Inv ∧
      (((t.mark slot).newEntry slot isPipe).fdSetInternal fd slot).view =
        { t.view.set fd (.file t.nextEntry isPipe) with opened := t.nextEntry + 1 } := by
  refine ⟨⟨(h.slots.create lt free).setMap, h.maps.attach inRange external free fun k _ points => ?_, h.onceOnly⟩,
    view_eq ?_ rfl rfl⟩
  · exact Nat.lt_irrefl _ (h.slots.entry_lt points)
  · have new : (((t.mark slot).newEntry slot isPipe).fdSetInternal fd slot).descriptor fd = .file t.nextEntry isPipe := by
      simp [descriptor, fdSetInternal, FosFdTable.setMap, newEntry, mark]
    rw [descriptor_update rfl rfl (fun g _ => h.maps.unmapped free g) fun _ points => ?_, new]
    · rfl
    · exact congrArg _ (update_of_ne (Nat.ne_of_lt (h.slots.entry_lt points)) ..)

theorem duplicate (h : t.Inv) (lt : slot < t.allocState.arraySize) (free : t.fdEntries slot = none) (live : t.heap entry = some e)
    (apart : ∀ k < 3, t.fdEntries k ≠ some entry) (inRange : fd < fdCount) (external : ∀ k, t.fdMap fd ≠ .internal k) :
    ((t.share slot entry e).fdSetInternal fd slot).Inv ∧
      ((t.share slot entry e).fdSetInternal fd slot).view = t.view.set fd (.file entry e.isPipe) := by
  refine ⟨⟨(h.slots.duplicate lt free live).setMap, h.maps.attach inRange external free apart, h.onceOnly⟩, view_eq ?_ rfl rfl⟩
  have new : ((t.share slot entry e).fdSetInternal fd slot).descriptor fd = .file entry e.isPipe := by
    simp [descriptor, fdSetInternal, FosFdTable.setMap, share]
  rw [descriptor_update rfl rfl (fun g _ => h.maps.unmapped free g) fun {_ a} _ _ => ?_, new]
  · rfl
  · by_cases same : a = entry
    · simp [fdSetInternal, FosFdTable.setMap, share, same, live]
    · exact congrArg _ (update_of_ne same ..)

theorem external (h : t.Inv) (before : ∀ k, t.fdMap fd ≠ .internal k) (after : ∀ k, s ≠ .internal k) : (t.setMap fd s).Inv :=
  ⟨h.slots.setMap, h.maps.other before after, h.onceOnly⟩

/-- The entries of the reserved slots are not those of descriptors. -/
theorem apart (h : t.Inv) (is : t.fdMap fd = .internal slot) (points : t.fdEntries slot = some entry) (k : Nat) (lt : k < 3) :
    t.fdEntries k ≠ some entry := fun points' => by
  have same := h.maps.apart lt points' points
  have le := (h.maps.mapped is).2.1
  omega

theorem release {allocState : SpaceAllocState} (h : t.Inv) (is : t.fdMap fd = .internal slot) (points : t.fdEntries slot = some entry)
    (live : t.heap entry = some e) (low : allocState.Lowest) (size : allocState.arraySize = t.allocState.arraySize)
    (freed : ∀ other, allocState.spaceAllocIsAllocated other = true ↔
      other ≠ slot ∧ t.allocState.spaceAllocIsAllocated other = true) :
    ((t.empty slot entry e allocState).fdRemove fd).Inv ∧
      ((t.empty slot entry e allocState).fdRemove fd).view = t.view.close fd := by
  have pos := h.slots.positive live
  have shared := h.shared_iff is points live
  refine ⟨⟨(h.slots.release points live low size freed).setMap, h.maps.detach is fun k => Slot.noConfusion, h.onceOnly⟩, ?_⟩
  have closes : t.view.close fd = { t.view.set fd .free with
      closed := if t.view.shared fd entry then t.closed else t.closed ++ [entry] } := by
    rw [Descriptors.close, show t.view.get fd = _ from descriptor_of_points is points live]
    rfl
  rw [closes]
  refine view_eq ?_ rfl ?_
  · have gone : ((t.empty slot entry e allocState).fdRemove fd).descriptor fd = .free := by
      simp [descriptor, fdRemove, FosFdTable.setMap]
    have own : ∀ g ≠ fd, t.fdMap g ≠ .internal slot := fun g other is' => other (h.maps.own is' is)
    rw [descriptor_update rfl rfl own fun {k a} other points' => ?_, gone]
    · rfl
    · by_cases same : a = entry
      · -- another slot has the entry, which stays
        subst same
        have more : 1 < e.numFd := (h.slots.one_lt_iff points live).mpr ⟨k, other, points'⟩
        simp [fdRemove, FosFdTable.setMap, empty, unshare, live, Nat.not_le.mpr more]
      · exact congrArg _ (update_of_ne same ..)
  · show (if e.numFd = 1 then t.closed ++ [entry] else t.closed) = _
    by_cases last : e.numFd = 1
    · rw [if_pos last, if_neg (fun more => by have := shared.mp more; omega)]
    · rw [if_neg last, if_pos (shared.mpr (by omega))]

theorem flatten (h : t.Inv) (is : t.fdMap fd = .internal slot) (points : t.fdEntries slot = some entry) (live : t.heap entry = some e)
    (more : 1 < e.numFd) : ((t.unshare entry e).newEntry slot e.isPipe).Inv ∧
      ((t.unshare entry e).newEntry slot e.isPipe).view =
        { t.view.set fd (.file t.nextEntry e.isPipe) with opened := t.nextEntry + 1 } := by
  obtain ⟨-, le, some⟩ := h.maps.mapped is
  refine ⟨⟨h.slots.flatten points live more, h.maps.replace some le fun k _ points' => ?_, h.onceOnly⟩, view_eq ?_ rfl rfl⟩
  · exact Nat.lt_irrefl _ (h.slots.entry_lt points')
  · have new : ((t.unshare entry e).newEntry slot e.isPipe).descriptor fd = .file t.nextEntry e.isPipe := by
      simp [descriptor, newEntry, unshare, is]
    have map : ((t.unshare entry e).newEntry slot e.isPipe).fdMap = update t.fdMap fd (.internal slot) := by
      rw [← is, update_eq_self]
      rfl
    have own : ∀ g ≠ fd, t.fdMap g ≠ .internal slot := fun g other is' => other (h.maps.own is' is)
    rw [descriptor_update map rfl own fun {k a} _ points' => ?_, new]
    · rfl
    · have old := Nat.ne_of_lt (h.slots.entry_lt points')
      by_cases same : a = entry
      · simp [newEntry, unshare, same ▸ old, same, live, Nat.not_le.mpr more]
      · simp [newEntry, unshare, old, same]

end Inv

/-! ### The calls -/

/-- The lowest slot that is empty. -/
theorem Slots.fdFindUnusedFD_spec (h : t.Slots) (room : ∃ slot < 1024, ¬(t.fdEntries slot).isSome = true) :
    ∃ slot < t.allocState.arraySize, t.fdEntries slot = none ∧ (∀ lower < slot, (t.fdEntries lower).isSome = true) ∧
      t.fdFindUnusedFD realloc = .ok (t.mark slot, some slot) := by
  rcases h.low.allocate realloc with ⟨slot, lt, free, lowest, gives⟩ | ⟨full, -⟩
  · refine ⟨slot, lt, ?_, fun lower below => (h.marked lower).mpr (lowest lower below), ?_⟩
    · refine Option.not_isSome_iff_eq_none.mp fun some => ?_
      rw [(h.marked slot).mp some] at free
      cases free
    · simp only [fdFindUnusedFD, gives, if_pos lt]
      rfl
  · obtain ⟨slot, lt, free⟩ := room
    exact absurd ((h.marked slot).mpr (full slot (h.size ▸ lt))) free

theorem Slots.fdCreate_spec (h : t.Slots) (room : ∃ slot < 1024, ¬(t.fdEntries slot).isSome = true) (isPipe : Bool) :
    ∃ slot < t.allocState.arraySize, t.fdEntries slot = none ∧ (∀ lower < slot, (t.fdEntries lower).isSome = true) ∧
      t.fdCreate isPipe realloc = .ok ((t.mark slot).newEntry slot isPipe, some slot) := by
  obtain ⟨slot, lt, free, lowest, found⟩ := @fdFindUnusedFD_spec t realloc h room
  exact ⟨slot, lt, free, lowest, by rw [fdCreate, found, ok_bind]⟩

theorem Slots.fdGet_eq (h : t.Slots) (points : t.fdEntries slot = some entry) (live : t.heap entry = some e) :
    t.fdGet slot = .ok (entry, e) := by
  have lt := @lt_size t slot h (by simp [points])
  simp only [fdGet, if_pos lt, points, live]

namespace Inv

/-- A duplicate of the file of a descriptor, for one that is not internal. -/
theorem fdDuplicate_spec (h : t.Inv) (is : t.fdMap fd = .internal slot) (points : t.fdEntries slot = some entry)
    (file : t.descriptor fd = .file entry isPipe) (inRange : newfd < fdCount) (external : ∀ k, t.fdMap newfd ≠ .internal k) :
    ∃ newSlot t', t.fdDuplicate entry realloc = .ok (t', newSlot) ∧ t'.fdMap = t.fdMap ∧ (t'.fdSetInternal newfd newSlot).Inv ∧
      (t'.fdSetInternal newfd newSlot).view = t.view.set newfd (.file entry isPipe) := by
  obtain ⟨e, live⟩ := h.slots.live points
  obtain ⟨newSlot, lt, free, -, found⟩ := @Slots.fdFindUnusedFD_spec t realloc h.slots h.maps.room
  obtain ⟨-, rfl⟩ := Descriptor.file.inj ((descriptor_of_points is points live).symm.trans file)
  refine ⟨newSlot, t.share newSlot entry e, ?_, rfl, h.duplicate lt free live (h.apart is points) inRange external⟩
  rw [fdDuplicate, found, ok_bind]
  simp only [mark, free, ok_bind, live, share]

theorem destroy_spec (h : t.Inv) (is : t.fdMap fd = .internal slot) (points : t.fdEntries slot = some entry)
    (live : t.heap entry = some e) : ∃ t', (t.closeLast entry e).fdDestroy slot = .ok t' ∧ t'.fdMap = t.fdMap ∧
      t'.fdEntries = update t.fdEntries slot none ∧ (t'.fdRemove fd).Inv ∧ (t'.fdRemove fd).view = t.view.close fd := by
  obtain ⟨-, le, some⟩ := h.maps.mapped is
  have allocated := (h.slots.marked slot).mp some
  obtain ⟨allocState, released, low, size, -, freed⟩ := h.slots.low.release (h.slots.lt_size some)
  refine ⟨t.empty slot entry e allocState, ?_, rfl, rfl, h.release is points live low size freed⟩
  have closes : t.closeLast entry e = { t with closed := if e.numFd = 1 then t.closed ++ [entry] else t.closed } := by
    unfold closeLast
    split_ifs <;> rfl
  have notOnce : bitarrayBitsPerInt ≤ slot ∨ fosBitArrayIsSet t.onceOnlyFds slot = false :=
    (Nat.lt_or_ge slot bitarrayBitsPerInt).symm.imp_right (h.onceOnly le)
  simp only [closes, fdDestroy, allocated, if_true, points, if_pos notOnce, FosFdTable.release, released, ok_bind, fdFree, live]
  unfold empty unshare
  split_ifs <;> rfl

theorem fdAdd_spec (h : t.Inv) (some : 1 ≤ t.unmapped.length) :
    ∃ fd < fdCount, t.fdMap fd = .free ∧ (∀ x, t.view.add x = t.view.set fd x) ∧
      ∀ {t' : FosFdTable} {s : Slot}, t'.fdMap = t.fdMap → t'.fdAdd s = .ok (t'.setMap fd s) := by
  obtain ⟨g, mem⟩ := List.exists_mem_of_length_pos some
  obtain ⟨inRange, free⟩ := List.mem_filter.mp mem
  have isSome : ((List.range fdCount).find? fun i => t.fdMap i = .free).isSome = true := List.find?_isSome.mpr ⟨g, inRange, free⟩
  obtain ⟨fd, found⟩ := Option.isSome_iff_exists.mp isSome
  have isFree := List.find?_some found
  refine ⟨fd, List.mem_range.mp (List.mem_of_find?_eq_some found), of_decide_eq_true isFree, fun x => ?_, fun {t' s} same => ?_⟩
  · have free_iff : ∀ i, t.view.get i = .free ↔ t.fdMap i = .free := fun i => h.descriptor_eq_free
    simp only [Descriptors.add, free_iff, found]
  · rw [fdAdd, same, found]

theorem openInternal_spec (h : t.Inv) (isPipe : Bool) (room : 1 ≤ t.unmapped.length) :
    ∃ t', t.openInternal isPipe realloc = .ok t' ∧ t'.Inv ∧ t'.view = t.view.create isPipe := by
  obtain ⟨slot, lt, free, -, created⟩ := @Slots.fdCreate_spec t realloc h.slots h.maps.room isPipe
  obtain ⟨fd, inRange, unused, lowest, adds⟩ := h.fdAdd_spec room
  obtain ⟨inv, view⟩ := @create t fd slot isPipe h lt free inRange fun k => unused ▸ Slot.noConfusion
  refine ⟨_, ?_, inv, view.trans ?_⟩
  · simp only [openInternal, created, ok_bind]
    exact adds rfl
  · rw [Descriptors.create, lowest]
    rfl

theorem flatten_spec (h : t.Inv) (is : t.fdMap fd = .internal slot) :
    ∃ t', t.fsFlattenFdInternal slot = .ok t' ∧ t'.Inv ∧ t'.view = t.view.flatten fd := by
  obtain ⟨entry, e, points, live⟩ := h.points is
  have shared := h.shared_iff is points live
  simp only [fsFlattenFdInternal, h.slots.fdGet_eq points live, ok_bind, Descriptors.flatten,
    show t.view.get fd = _ from descriptor_of_points is points live]
  split_ifs with more
  · refine ⟨_, ?_, h.flatten is points live more⟩
    simp only [fdFlatten, require, more, decide_true, if_true, ok_bind, unshare, if_neg (Nat.not_le.mpr more)]
  · exact absurd (shared.mpr more) ‹_›
  · exact absurd (shared.mp ‹_›) more
  · exact ⟨t, rfl, h, rfl⟩

theorem close_spec (h : t.Inv) : ∃ t', t.close fd = .ok t' ∧ t'.Inv ∧ t'.view = t.view.close fd ∧
    t'.fdMap fd = .free ∧ ∀ g ≠ fd, t'.fdMap g = t.fdMap g := by
  have map : ∀ {t' : FosFdTable}, t'.fdMap = t.fdMap →
      (t'.fdRemove fd).fdMap fd = .free ∧ ∀ g ≠ fd, (t'.fdRemove fd).fdMap g = t.fdMap g :=
    fun same => ⟨update_self .., fun g ne => (update_of_ne ne ..).trans (congrFun same g)⟩
  unfold close
  split_ifs with notMapped
  · have free : t.view.get fd = .free := h.descriptor_eq_free.mpr notMapped.2
    refine ⟨t, rfl, h, ?_, notMapped.2, fun g _ => rfl⟩
    rw [Descriptors.close_eq_set (by rw [free]; rfl), Descriptors.set_eq_self free]
  · split
    · rename_i slot is
      obtain ⟨entry, e, points, live⟩ := h.points is
      obtain ⟨t', destroyed, same, -, inv, view⟩ := h.destroy_spec is points live
      refine ⟨_, ?_, inv, view, map same⟩
      simp only [closeInt, h.slots.fdGet_eq points live, ok_bind, destroyed]
    · rename_i external
      refine ⟨_, rfl, h.external external fun k => Slot.noConfusion, ?_, map rfl⟩
      rw [view_fdRemove, Descriptors.close_eq_set (number_eq_none external)]

theorem dup_spec {real : Option Nat} (h : t.Inv) (room : 1 ≤ t.unmapped.length) :
    ∃ t', t.dup fd real realloc = .ok t' ∧ t'.Inv ∧ t'.view = t.view.dup fd real := by
  obtain ⟨newfd, inRange, free, lowest, adds⟩ := h.fdAdd_spec room
  have notInternal : ∀ k, t.fdMap newfd ≠ .internal k := fun k => free ▸ Slot.noConfusion
  unfold dup
  split
  · rename_i slot is
    obtain ⟨entry, e, points, live⟩ := h.points is
    have file : t.view.get fd = _ := descriptor_of_points is points live
    obtain ⟨newSlot, t', duplicated, map, inv, view⟩ :=
      @fdDuplicate_spec t fd slot entry e.isPipe realloc newfd h is points file inRange notInternal
    have added : t'.fdAddInternal newSlot = .ok (t'.fdSetInternal newfd newSlot) := adds map
    simp only [h.slots.fdGet_eq points live, ok_bind, duplicated, added, Descriptors.dup, file]
    split_ifs with pipe
    · obtain ⟨u, flattened, inv', view'⟩ := inv.flatten_spec (update_self ..)
      have other : fd ≠ newfd := fun same => notInternal slot (same ▸ is)
      refine ⟨u, flattened, inv', view'.trans ?_⟩
      rw [view, pipe, Descriptors.flatten_set (h.maps.mapped is).1 other (by rw [file]; rfl), Descriptors.create, lowest]
    · grind
  · rename_i external
    rw [Descriptors.dup_eq (number_eq_none external)]
    unfold Descriptors.dupReal
    split
    · split_ifs
      · exact ⟨_, adds rfl, h.external notInternal fun k => Slot.noConfusion, view_fdSetExternal.trans (lowest _).symm⟩
      · exact ⟨t, rfl, h, rfl⟩
    · exact ⟨t, rfl, h, rfl⟩

theorem setExternal_spec (h : t.Inv) (newExternal : ∀ k, t.fdMap newfd ≠ .internal k)
    (oldExternal : ∀ k, t.fdMap fd ≠ .internal k) :
    ∃ t', (if t.fdExt fd = newfd then
        if fd = newfd then .ok (t.fdSetExternal newfd newfd) else .ok ((t.fdSetExternal newfd newfd).fdSetExternal fd fd)
      else if real = true then .ok (t.fdSetExternal newfd newfd) else .ok t : Res FosFdTable) = .ok t' ∧ t'.Inv ∧
      t'.view = if t.view.ext fd = newfd then (t.view.set newfd (.external newfd)).set fd (.external fd)
        else if real = true then t.view.set newfd (.external newfd) else t.view := by
  have first : (t.fdSetExternal newfd newfd).Inv := h.external newExternal fun k => Slot.noConfusion
  have ext : t.view.ext fd = t.fdExt fd := by
    cases is : t.fdMap fd with
    | internal k => exact absurd is (oldExternal k)
    | _ => simp [Descriptors.ext, fdExt, view, descriptor, is]
  rw [ext]
  split_ifs with under same
  · refine ⟨_, rfl, first, view_fdSetExternal.trans ?_⟩
    rw [same]
    exact (Descriptors.set_eq_self (update_self ..)).symm
  · refine ⟨_, rfl, first.external (fun k => ?_) fun k => Slot.noConfusion, ?_⟩
    · show update t.fdMap newfd _ fd ≠ _
      rw [update_of_ne same]
      exact oldExternal k
    · exact view_fdSetExternal.trans (by rw [view_fdSetExternal])
  · exact ⟨_, rfl, first, view_fdSetExternal⟩
  · exact ⟨_, rfl, h, rfl⟩

theorem dup2_spec (h : t.Inv) (inRange : newfd < fdCount) :
    ∃ t', t.dup2 fd newfd real realloc = .ok t' ∧ t'.Inv ∧ t'.view = t.view.dup2 fd newfd real := by
  unfold dup2
  split
  · rename_i oldSlot is
    obtain ⟨oldfile, e, points, live⟩ := h.points is
    have file : t.view.get fd = _ := descriptor_of_points is points live
    simp only [Descriptors.dup2, file]
    split_ifs with same
    · exact ⟨t, rfl, h, rfl⟩
    · -- with what the new descriptor was closed, and the file of the old one still open
      have onto : ∀ {u : FosFdTable}, u.Inv → u.view = t.view.close newfd → u.fdMap fd = .internal oldSlot →
          u.fdEntries oldSlot = some oldfile → (∀ k, u.fdMap newfd ≠ .internal k) →
          ∃ slot v, u.fdDuplicate oldfile realloc = .ok (v, slot) ∧ (v.fdSetInternal newfd slot).Inv ∧
            (v.fdSetInternal newfd slot).view = (t.view.close newfd).set newfd (.file oldfile e.isPipe) := by
        intro u inv view is' points' external
        have file' : u.descriptor fd = .file oldfile e.isPipe := by
          rw [show u.descriptor fd = u.view.get fd from rfl, view, Descriptors.get_close same, file]
        obtain ⟨slot, v, duplicated, -, inv', view'⟩ :=
          @fdDuplicate_spec u fd oldSlot oldfile e.isPipe realloc newfd inv is' points' file' inRange external
        exact ⟨slot, v, duplicated, inv', view'.trans (by rw [view])⟩
      simp only [h.slots.fdGet_eq points live, ok_bind]
      cases isNew : t.fdMap newfd with
      | internal newSlot =>
        obtain ⟨newfile, e', points', live'⟩ := h.points isNew
        obtain ⟨u, destroyed, map, entries, inv, view⟩ := h.destroy_spec isNew points' live'
        have other : oldSlot ≠ newSlot := fun both => same (h.maps.own is (both ▸ isNew))
        obtain ⟨slot, v, duplicated, inv', view'⟩ := onto inv view
          (by rw [fdRemove, setMap, map]; exact (update_of_ne same ..).trans is)
          (by rw [fdRemove, setMap, entries]; exact (update_of_ne other ..).trans points)
          (fun k => by simp [fdRemove, setMap])
        exact ⟨_, by simp only [h.slots.fdGet_eq points' live', ok_bind, destroyed, duplicated], inv', view'⟩
      | external n =>
        have external : ∀ k, t.fdMap newfd ≠ .internal k := fun k => isNew ▸ Slot.noConfusion
        have inv : (t.fdRemove newfd).Inv := h.external external fun k => Slot.noConfusion
        obtain ⟨slot, v, duplicated, inv', view'⟩ := onto inv
          (view_fdRemove.trans (Descriptors.close_eq_set (number_eq_none external)).symm) ((update_of_ne same ..).trans is) points
          (fun k => by simp [fdRemove, setMap])
        exact ⟨_, by simp only [ok_bind, duplicated], inv', view'⟩
      | free =>
        have free : t.view.get newfd = .free := h.descriptor_eq_free.mpr isNew
        have closed : t.view = t.view.close newfd := by
          rw [Descriptors.close_eq_set (by rw [free]; rfl), Descriptors.set_eq_self free]
        obtain ⟨slot, v, duplicated, inv', view'⟩ := onto h closed is points fun k => isNew ▸ Slot.noConfusion
        exact ⟨_, by simp only [ok_bind, duplicated], inv', view'⟩
  · rename_i external
    rw [Descriptors.dup2_eq (number_eq_none external), Descriptors.dup2Real]
    cases isNew : t.fdMap newfd with
    | internal newSlot =>
      obtain ⟨u, closed, inv, view, gone, others⟩ := @close_spec t newfd h
      obtain ⟨entry, e, points, live⟩ := h.points isNew
      have other : fd ≠ newfd := fun same => external newSlot (same ▸ isNew)
      have number : (t.view.get newfd).number.isSome = true := by
        rw [show t.view.get newfd = _ from descriptor_of_points isNew points live]
        rfl
      simp only [closed, ok_bind, number, if_true, ← view]
      refine inv.setExternal_spec (fun k => gone ▸ Slot.noConfusion) fun k => ?_
      rw [others fd other]
      exact external k
    | external n =>
      have newExternal : ∀ k, t.fdMap newfd ≠ .internal k := fun k => isNew ▸ Slot.noConfusion
      simp only [number_eq_none newExternal, Option.isSome_none, if_false, Bool.false_eq_true]
      exact h.setExternal_spec newExternal external
    | free =>
      have newExternal : ∀ k, t.fdMap newfd ≠ .internal k := fun k => isNew ▸ Slot.noConfusion
      simp only [number_eq_none newExternal, Option.isSome_none, if_false, Bool.false_eq_true]
      exact h.setExternal_spec newExternal external

theorem unmapped_setMap (inRange : fd < fdCount) (free : t.fdMap fd = .free) (ne : s ≠ .free) :
    (t.setMap fd s).unmapped.length + 1 = t.unmapped.length := by
  have update := @length_filter_update _ _ _ (fun x => decide (x = Slot.free)) t.fdMap _ fd s List.nodup_range (List.mem_range.mpr inRange)
  rw [decide_eq_true free, decide_eq_false ne] at update
  exact update

/-- The two ends are made one after the other, before the first one is mapped. -/
theorem pipe2_spec (h : t.Inv) (room : 2 ≤ t.unmapped.length) :
    ∃ t', t.pipe2 realloc = .ok t' ∧ t'.Inv ∧ t'.view = (t.view.create true).create true := by
  obtain ⟨readSlot, lt, free, -, createdRead⟩ := @Slots.fdCreate_spec t realloc h.slots h.maps.room true
  obtain ⟨readFd, inRange, unused, lowest, adds⟩ := h.fdAdd_spec (Nat.le_of_succ_le room)
  obtain ⟨inv, view⟩ := @create t readFd readSlot true h lt free inRange fun k => unused ▸ Slot.noConfusion
  let u := (t.mark readSlot).newEntry readSlot true
  have left : 1 ≤ (u.fdSetInternal readFd readSlot).unmapped.length := by
    have := @unmapped_setMap u readFd (.internal readSlot) inRange unused Slot.noConfusion
    have same : u.unmapped = t.unmapped := rfl
    rw [same] at this
    show 1 ≤ (u.setMap readFd (.internal readSlot)).unmapped.length
    omega
  obtain ⟨writeFd, inRange', unused', lowest', adds'⟩ := inv.fdAdd_spec left
  obtain ⟨writeSlot, lt', free', -, createdWrite⟩ := @Slots.fdCreate_spec u realloc (h.slots.create lt free) inv.maps.room true
  obtain ⟨inv', view'⟩ := @create _ writeFd writeSlot true inv lt' free' inRange' fun k => unused' ▸ Slot.noConfusion
  refine ⟨_, ?_, inv', view'.trans ?_⟩
  · have added : ((u.mark writeSlot).newEntry writeSlot true).fdAddInternal readSlot = .ok _ := adds rfl
    have added' : (((u.mark writeSlot).newEntry writeSlot true).setMap readFd (.internal readSlot)).fdAddInternal writeSlot = .ok _ :=
      adds' rfl
    simp only [pipe2, createdRead, ok_bind, createdWrite, added, added', u]
    rfl
  · have created : t.view.create true = (u.fdSetInternal readFd readSlot).view := by
      rw [view, Descriptors.create, lowest]
      rfl
    rw [created, Descriptors.create, lowest']
    rfl

end Inv

/-! ### The start and the runs -/

/-- With the slots below `k` taken, the next one is `k`. -/
theorem create_first {k : Nat} (slots : t.Slots) (taken : ∀ slot, (t.fdEntries slot).isSome = true ↔ slot < k)
    (own : ∀ slot < k, t.fdEntries slot = some slot) (next : t.nextEntry = k) (lt : k < 1024) :
    ∃ t', t.fdCreate isPipe realloc = .ok (t', some k) ∧ t'.Slots ∧ (∀ slot, (t'.fdEntries slot).isSome = true ↔ slot < k + 1) ∧
      (∀ slot < k + 1, t'.fdEntries slot = some slot) ∧ t'.nextEntry = k + 1 ∧ t'.fdMap = t.fdMap ∧
      t'.onceOnlyFds = t.onceOnlyFds := by
  have room : ∃ slot < 1024, ¬(t.fdEntries slot).isSome = true := ⟨k, lt, fun some => Nat.lt_irrefl k ((taken k).mp some)⟩
  obtain ⟨slot, lt', free, lowest, created⟩ := @Slots.fdCreate_spec t realloc slots room isPipe
  have ge : k ≤ slot := Nat.le_of_not_lt fun below => by
    have := (taken slot).mpr below
    simp [free] at this
  have le : slot ≤ k := Nat.le_of_not_lt fun above => Nat.lt_irrefl k ((taken k).mp (lowest k above))
  obtain rfl := Nat.le_antisymm le ge
  have entries : ((t.mark slot).newEntry slot isPipe).fdEntries = update t.fdEntries slot (some slot) := by
    rw [← next]
    rfl
  refine ⟨_, created, slots.create lt' free, fun other => ?_, fun other below => ?_, congrArg (· + 1) next, rfl, rfl⟩
  · by_cases here : other = slot
    · simp [entries, here]
    · rw [entries, update_of_ne here, taken]
      omega
  · by_cases here : other = slot
    · simp [entries, here]
    · rw [entries, update_of_ne here, own other (by omega)]

theorem slots_fdInitialize : fdInitialize.Slots where
  low := .init fdTableSizes
  size := rfl
  marked := fun _ => iff_of_false Bool.noConfusion (Bool.eq_false_iff.mp (not_isAllocated_init fdTableSizes true))
  counted := fun _ => by simp [refs, slotsOf, fdInitialize]
  positive := fun live => absurd live (Option.some_ne_none _).symm
  once := fun _ => by simp [fdInitialize]

theorem isSet_onceOnly (large : 3 ≤ slot) : fosBitArrayIsSet (fosBitArraySet (fosBitArraySet (fosBitArraySet [0#32] 0) 1) 2) slot = false := by
  have clear : ¬fosBitArrayIsSet [0#32] slot = true := by grind [isSet_iff]
  refine Bool.eq_false_iff.mpr fun isSet => ?_
  rw [isSet_set (by decide), isSet_set (by decide), isSet_set (by decide)] at isSet
  rcases isSet with rfl | rfl | rfl | isSet
  · exact absurd large (by decide)
  · exact absurd large (by decide)
  · exact absurd large (by decide)
  · exact clear isSet

theorem inheritFds_spec : ∀ {fds : List (Nat × InheritedFd)} {t : FosFdTable}, t.Inv → (∀ p ∈ fds, p.1 < fdCount) →
    (fds.map Prod.fst).Nodup → (∀ p ∈ fds, ∀ k, t.fdMap p.1 ≠ .internal k) → ∃ t', inheritFds realloc fds t = .ok t' ∧ t'.Inv
  | [], t, inv, _, _, _ => ⟨t, rfl, inv⟩
  | (i, inherited) :: fds, t, inv, inRange, distinct, external => by
    obtain ⟨notMem, distinct'⟩ := List.nodup_cons.mp distinct
    have inRange' : ∀ p ∈ fds, p.1 < fdCount := fun p mem => inRange p (List.mem_cons_of_mem _ mem)
    have here := external (i, inherited) (List.mem_cons_self ..)
    have later : ∀ {u : FosFdTable} {s : Slot}, u.fdMap = t.fdMap → ∀ p ∈ fds, ∀ k, (u.setMap i s).fdMap p.1 ≠ .internal k := by
      intro u s same p mem k
      have ne : p.1 ≠ i := fun is => notMem (List.mem_map.mpr ⟨p, mem, is⟩)
      show update u.fdMap i s p.1 ≠ _
      rw [update_of_ne ne, same]
      exact external p (List.mem_cons_of_mem _ mem) k
    cases inherited with
    | external n =>
      rw [inheritFds]
      exact inheritFds_spec (inv.external here fun k => Slot.noConfusion) inRange' distinct' (later rfl)
    | internal isPipe =>
      obtain ⟨slot, lt, free, -, created⟩ := @Slots.fdCreate_spec t realloc inv.slots inv.maps.room isPipe
      rw [inheritFds, created, ok_bind]
      exact inheritFds_spec (inv.create lt free (inRange _ (List.mem_cons_self ..)) here).1 inRange' distinct' (later rfl)

theorem fauxInit_spec (inherited : Option InheritedFds) (realloc : Option (Nat → BitWord)) :
    ∃ t, fauxInit inherited realloc = .ok t ∧ t.Inv := by
  obtain ⟨t₁, created₁, slots₁, taken₁, own₁, next₁, map₁, once₁⟩ :=
    @create_first fdInitialize false realloc 0 slots_fdInitialize (fun slot => iff_of_false Bool.noConfusion (Nat.not_lt_zero _))
      (fun slot lt => absurd lt (Nat.not_lt_zero _)) rfl (by decide)
  obtain ⟨t₂, created₂, slots₂, taken₂, own₂, next₂, map₂, once₂⟩ := @create_first t₁ false realloc 1 slots₁ taken₁ own₁ next₁ (by decide)
  obtain ⟨t₃, created₃, slots₃, taken₃, own₃, -, map₃, once₃⟩ := @create_first t₂ false realloc 2 slots₂ taken₂ own₂ next₂ (by decide)
  let t := ((t₃.fdOnceOnly 0).fdOnceOnly 1).fdOnceOnly 2
  have free : ∀ fd, t.fdMap fd = .free := fun fd => congrFun ((map₃.trans map₂).trans map₁) fd
  have external : ∀ fd k, t.fdMap fd ≠ .internal k := fun fd k => free fd ▸ Slot.noConfusion
  have maps : Maps t.fdMap t₃.fdEntries := by
    refine ⟨fun is => absurd is (external _ _), fun is => absurd is (external _ _), fun large some => ?_, (taken₃ _).mpr,
      fun {slot other entry} lt points points' => ?_⟩
    · exact absurd ((taken₃ _).mp some) (Nat.not_lt.mpr large)
    · grind
  have inv : t.Inv := by
    refine ⟨⟨slots₃.low, slots₃.size, slots₃.marked, slots₃.counted, slots₃.positive, slots₃.once⟩, maps, fun {slot} large _ => ?_⟩
    show fosBitArrayIsSet (fosBitArraySet (fosBitArraySet (fosBitArraySet t₃.onceOnlyFds 0) 1) 2) slot = false
    rw [(once₃.trans once₂).trans once₁]
    exact isSet_onceOnly large
  cases inherited with
  | some inherited =>
    have begins : fauxInit (some inherited) realloc = inheritFds realloc inherited.fds t := by
      simp only [fauxInit, created₁, ok_bind, created₂, created₃]
      rfl
    rw [begins]
    exact inheritFds_spec inv inherited.inRange inherited.distinct fun p _ => external p.1
  | none =>
    have begins : fauxInit none realloc = .ok (((t.fdSetExternal 0 0).fdSetExternal 1 1).fdSetExternal 2 2) := by
      simp only [fauxInit, created₁, ok_bind, created₂, created₃]
      rfl
    rw [begins]
    have first := @Inv.external t 0 (.external 0) inv (external 0) fun k => Slot.noConfusion
    have second := @Inv.external _ 1 (.external 1) first (fun k => external 1 k) fun k => Slot.noConfusion
    exact ⟨_, rfl, second.external (fun k => external 2 k) fun k => Slot.noConfusion⟩

/-- A call does to the descriptors what it is for. -/
theorem step_spec (t : FosFdTable) (c : DescriptorCall) (h : t.Inv) (allowed : t.Allowed c) :
    ∃ t', t.step c = .ok t' ∧ t'.Inv ∧ t'.view = t.view.step c.event := by
  obtain ⟨event, realloc⟩ := c
  cases event with
  | openInternal isPipe => exact h.openInternal_spec isPipe allowed
  | openExternal n =>
    obtain ⟨fd, -, free, lowest, adds⟩ := h.fdAdd_spec allowed
    exact ⟨_, adds rfl, h.external (fun k => free ▸ Slot.noConfusion) fun k => Slot.noConfusion,
      view_fdSetExternal.trans (lowest _).symm⟩
  | pipe2 => exact h.pipe2_spec allowed
  | dup oldfd real => exact h.dup_spec allowed.2
  | dup2 oldfd newfd real => exact h.dup2_spec allowed.2
  | flatten fd =>
    simp only [step]
    split
    · rename_i slot is
      exact h.flatten_spec is
    · rename_i external
      refine ⟨t, rfl, h, ?_⟩
      rw [Descriptors.step, Descriptors.flatten_eq_self (number_eq_none external)]
  | close fd =>
    obtain ⟨t', closed, inv, view, -⟩ := @Inv.close_spec t fd h
    exact ⟨t', closed, inv, view⟩

theorem next_spec (t : FosFdTable) (c : DescriptorCall) (h : t.Inv) (allowed : t.Allowed c) :
    ∃ t', t.next c = some t' ∧ t'.Inv ∧ t'.view = t.view.step c.event := by
  obtain ⟨t', stepped, inv, view⟩ := step_spec t c h allowed
  exact ⟨t', toOption_eq_some.mpr stepped, inv, view⟩

theorem Slots.slotsOf_eq_nil_iff (h : t.Slots) : t.slotsOf entry = [] ↔ t.heap entry = none := by
  rw [← List.length_eq_zero_iff, ← h.counted, refs]
  cases live : t.heap entry with
  | none => simp
  | some e => simp [Nat.ne_of_gt (h.positive live)]

theorem Inv.consistent (t : FosFdTable) (h : t.Inv) : t.Consistent where
  mapped := fun fd _ slot is => ⟨h.slots.lt_size (h.maps.mapped is).2.2, (h.maps.mapped is).2.2⟩
  own := fun fd _ other _ slot is is' => h.maps.own is is'
  marked := fun slot _ => h.slots.marked slot
  live := fun slot entry points => Option.isSome_iff_exists.mpr (h.slots.live points)
  counted := fun entry e live => by
    have := h.slots.counted entry
    rwa [refs, live] at this
  closedOnce := fun entry lt => by
    have := h.slots.once entry
    simp only [h.slots.slotsOf_eq_nil_iff]
    rw [if_pos lt] at this
    cases live : t.heap entry <;> simp_all

/-- The run of the table is the run of what it stands for. -/
theorem run_spec {calls : List DescriptorCall} : ∀ {t : FosFdTable}, t.Inv → Guarded Allowed next t calls →
    (run next t calls).map view = some ((calls.map DescriptorCall.event).foldl Descriptors.step t.view) := by
  induction calls with
  | nil => exact fun _ _ => rfl
  | cons c calls ih =>
    rintro t inv ⟨allowed, later⟩
    obtain ⟨t', stepped, inv', view⟩ := next_spec t c inv allowed
    rw [run, stepped, Option.bind_some, ih inv' (later t' stepped), view]
    rfl

/-- A process starts, and along every sequence of calls for which the map has room the calls end, the table is consistent, and the
    descriptors are what the calls are for. -/
theorem descriptors_are_consistent (inherited : Option InheritedFds) (realloc : Option (Nat → BitWord)) :
    ∃ t, fauxInit inherited realloc = .ok t ∧ ∀ calls, Guarded Allowed next t calls → Along Consistent next t calls ∧
      (run next t calls).map view = some ((calls.map DescriptorCall.event).foldl Descriptors.step t.view) := by
  obtain ⟨t, starts, inv⟩ := fauxInit_spec inherited realloc
  refine ⟨t, starts, fun calls allowed => ⟨along_of_guarded Inv.consistent (fun t c h allowed => ?_) inv allowed, run_spec inv allowed⟩⟩
  obtain ⟨t', stepped, inv', -⟩ := next_spec t c h allowed
  exact ⟨t', stepped, inv'⟩

/-- `dup2` onto the descriptor itself, onto a duplicate of its file and onto one of the operating system, and the ends of a pipe. -/
def session : List DescriptorCall :=
  [.openInternal false, .dup 3 none, .dup2 3 3 true, .dup2 3 4 true, .dup2 3 1 true, .pipe2, .dup 5 none, .flatten 4,
    .close 3, .close 1, .close 4].map fun event => { event, realloc := none }

theorem descriptors_are_consistent_session : ∃ t, fauxInit none none = .ok t ∧ Along Consistent next t session ∧
    (run next t session).map (fun t => (t.closed, t.view.get 4, t.view.get 7)) = some ([3, 7], .free, .file 6 true) := by
  let seen (d : Descriptors) := (d.closed, d.get 4, d.get 7)
  let ended (t : FosFdTable) := (session.map DescriptorCall.event).foldl Descriptors.step t.view
  obtain ⟨t, starts, holds⟩ := descriptors_are_consistent none none
  have checked : (fauxInit none none).toOption.all (fun t => checkRun (fun t c => decide (t.Allowed c)) next t session) = true := by
    decide +kernel
  have ends : (fauxInit none none).toOption.map (seen ∘ ended) = some ([3, 7], .free, .file 6 true) := by decide +kernel
  rw [starts] at checked ends
  obtain ⟨along, view⟩ := holds session (guarded_of_check (fun _ _ => of_decide_eq_true) t checked)
  refine ⟨t, starts, along, ?_⟩
  have := congrArg (Option.map seen) view
  rw [Option.map_map] at this
  exact this.trans ends

end FosFdTable
end Faux
