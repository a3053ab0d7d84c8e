import Faux.Theorems.Utilities.BitArray
import Faux.Utilities.SpaceAlloc

/-! The space allocator: in the mode that searches for the lowest value it is exact as long as its table is not expanded. -/

namespace Faux
open Lib

namespace SpaceAllocState
variable {s t : SpaceAllocState} {value : Nat}

structure Lowest (s : SpaceAllocState) : Prop where
  counter : s.counter = linearCounterDisabled
  words : s.bitArray.length * 32 = s.arraySize
  nonempty : 0 < s.arraySize
  unsigned : s.arraySize < unsignedMod

theorem Lowest.init (sizes : SpaceSizes) : Lowest (spaceAllocInit sizes true) where
  counter := rfl
  words := by
    have := sizes.initialWords
    simp only [spaceAllocInit, List.length_replicate]
    omega
  nonempty := Nat.pos_of_ne_zero sizes.initialSome
  unsigned := sizes.initialUnsigned

theorem isAllocated_iff : s.spaceAllocIsAllocated value = true ↔ value < s.arraySize ∧ fosBitArrayIsSet s.bitArray value = true := by
  simp [spaceAllocIsAllocated]

theorem not_isAllocated_init (sizes : SpaceSizes) (alwaysLowest : Bool) : (spaceAllocInit sizes alwaysLowest).spaceAllocIsAllocated value = false := by
  refine Bool.eq_false_iff.mpr fun isAllocated => ?_
  obtain ⟨-, isSet⟩ := isAllocated_iff.mp isAllocated
  rw [isSet_iff] at isSet
  simp [spaceAllocInit, List.getD_eq_getElem?_getD, List.getElem?_replicate] at isSet
  split_ifs at isSet <;> simp at isSet

theorem Lowest.word_lt (low : Lowest s) (lt : value < s.arraySize) : value / 32 < s.bitArray.length := by
  have := low.words
  omega

theorem Lowest.allocate (low : Lowest s) (realloc : Option (Nat → BitWord)) :
    (∃ value, value < s.arraySize ∧ s.spaceAllocIsAllocated value = false ∧ (∀ lower < value, s.spaceAllocIsAllocated lower = true) ∧
      s.spaceAllocAllocate realloc = some ({ s with bitArray := fosBitArraySet s.bitArray value }, some value)) ∨
    ((∀ value < s.arraySize, s.spaceAllocIsAllocated value = true) ∧
      s.spaceAllocAllocate realloc = if s.expansionSize ≠ 0 then s.spaceAllocExpandTable realloc else some (s, none)) := by
  have high : ¬s.counter < s.arraySize := by
    have := low.unsigned
    rw [low.counter, linearCounterDisabled]
    rw [unsignedMod] at this
    omega
  have found := @findClear_spec s.bitArray s.arraySize (by have := low.words; omega)
  rw [spaceAllocAllocate, if_neg high]
  rcases Nat.eq_or_lt_of_le found.le with full | lt
  · refine .inr ⟨fun value lt => isAllocated_iff.mpr ⟨lt, found.before value (Nat.lt_of_lt_of_eq lt full.symm)⟩, ?_⟩
    simp [full]
  · refine .inl ⟨_, lt, ?_, fun lower below => isAllocated_iff.mpr ⟨Nat.lt_trans below lt, found.before lower below⟩, if_pos lt⟩
    exact Bool.eq_false_iff.mpr fun isAllocated => Bool.eq_false_iff.mp (found.here lt) (isAllocated_iff.mp isAllocated).2

theorem Lowest.set (low : Lowest s) : Lowest { s with bitArray := fosBitArraySet s.bitArray value } :=
  { low with words := by rw [length_set]; exact low.words }

theorem Lowest.isAllocated_set (low : Lowest s) (lt : value < s.arraySize) {other : Nat} :
    spaceAllocIsAllocated { s with bitArray := fosBitArraySet s.bitArray value } other = true ↔
      other = value ∨ s.spaceAllocIsAllocated other = true := by
  rw [isAllocated_iff, isAllocated_iff, isSet_set (low.word_lt lt)]
  constructor
  · grind
  · grind

theorem Lowest.release (low : Lowest s) (lt : value < s.arraySize) : ∃ t, s.spaceAllocRelease value = some t ∧ Lowest t ∧ t.arraySize = s.arraySize ∧
    t.expansionSize = s.expansionSize ∧ ∀ other, t.spaceAllocIsAllocated other = true ↔ other ≠ value ∧ s.spaceAllocIsAllocated other = true := by
  have other : value ≠ (s.counter + unsignedMod - 1) % unsignedMod := by
    have := low.words
    have := low.unsigned
    rw [low.counter, linearCounterDisabled]
    rw [unsignedMod] at this ⊢
    omega
  refine ⟨{ s with bitArray := fosBitArrayClear s.bitArray value }, ?_, { low with words := by rw [length_clear]; exact low.words }, rfl, rfl, fun other => ?_⟩
  · rw [spaceAllocRelease, bitarrayBitsPerInt, if_pos (low.word_lt lt)]
    simp only [if_neg other]
  · rw [isAllocated_iff, isAllocated_iff, isSet_clear (low.word_lt lt)]
    exact and_left_comm

theorem Lowest.expandTable (low : Lowest s) (contents : Nat → BitWord) : s.spaceAllocExpandTable (some contents) = none := by
  have outside : clearWords (s.bitArray ++ (List.range (s.expansionSize / 4)).map contents) (s.arraySize / 8) (s.expansionSize / 4) = none := by
    rw [clearWords, if_neg]
    have := low.words
    have := low.nonempty
    simp only [List.length_append, List.length_map, List.length_range]
    omega
  simp only [spaceAllocExpandTable, outside]

end SpaceAllocState

namespace SpaceSystem
variable {alwaysLowest : Bool} {s t : SpaceSystem}

structure Inv (s : SpaceSystem) : Prop where
  low : s.alloc.Lowest
  exact : s.Exact

theorem Inv.init (sizes : SpaceSizes) : Inv (init sizes true) :=
  ⟨.init sizes, fun _ => iff_of_false (Bool.eq_false_iff.mp (SpaceAllocState.not_isAllocated_init sizes true)) List.not_mem_nil⟩

theorem Inv.lt (inv : Inv s) {value : Nat} (mem : value ∈ s.allocated) : value < s.alloc.arraySize :=
  (SpaceAllocState.isAllocated_iff.mp ((inv.exact value).mpr mem)).1

theorem Inv.full_iff (inv : Inv s) : (∀ value < s.alloc.arraySize, s.alloc.spaceAllocIsAllocated value = true) ↔ ¬∃ value < s.alloc.arraySize, value ∉ s.allocated := by
  push Not
  exact forall₂_congr fun value _ => inv.exact value

theorem step_spec (inv : Inv s) {e : SpaceEvent} (releases : s.Releases e) (sure : s.Sure true e) :
    s.GivesFree true e ∧ ∃ t, s.step e = some t ∧ Inv t := by
  cases e with
  | release value =>
    obtain ⟨alloc, released, low, -, -, freed⟩ := inv.low.release (inv.lt releases)
    refine ⟨trivial, _, by rw [step, released]; rfl, low, fun other => ?_⟩
    rw [freed, inv.exact, List.mem_filter, decide_eq_true_iff]
    exact and_comm
  | allocate realloc =>
    rcases inv.low.allocate realloc with ⟨value, lt, isFree, lowest, called⟩ | ⟨full, called⟩
    · have notMem : value ∉ s.allocated := fun mem => Bool.eq_false_iff.mp isFree ((inv.exact value).mpr mem)
      refine ⟨fun alloc value' called' => ?_, _, by rw [step, called]; rfl, inv.low.set, fun other => ?_⟩
      · cases called.symm.trans called'
        exact ⟨notMem, fun _ lower below => (inv.exact lower).mp (lowest lower below)⟩
      · rw [inv.low.isAllocated_set lt, inv.exact]
        exact List.mem_cons.symm
    · -- the table is not expanded
      have stays : s.alloc.spaceAllocAllocate realloc = some (s.alloc, none) := by
        rw [called]
        rcases sure.2 with free | fixed | noMemory
        · exact absurd free (inv.full_iff.mp full)
        · rw [if_neg (not_not_intro fixed)]
        · cases Option.isNone_iff_eq_none.mp noMemory
          exact ite_self _
      refine ⟨fun alloc value called' => ?_, s, by rw [step, stays]; rfl, inv⟩
      exact absurd (stays.symm.trans called') (by simp)

theorem sure_of_step (inv : Inv s) {e : SpaceEvent} (stepped : s.step e = some t) : s.Sure true e := by
  cases e with
  | release value => trivial
  | allocate realloc =>
    refine ⟨rfl, ?_⟩
    by_contra expands
    push Not at expands
    obtain ⟨full, grows, memory⟩ := expands
    obtain ⟨contents, rfl⟩ : ∃ contents, realloc = some contents := by
      cases realloc with
      | none => exact absurd rfl memory
      | some contents => exact ⟨contents, rfl⟩
    rcases inv.low.allocate (some contents) with ⟨value, lt, isFree, -, -⟩ | ⟨-, called⟩
    · exact Bool.eq_false_iff.mp isFree ((inv.exact value).mpr (full value lt))
    · rw [step, called, if_pos grows, inv.low.expandTable] at stepped
      cases stepped

theorem right_iff : ∀ {events : List SpaceEvent} {s : SpaceSystem}, Inv s → Guarded Releases step s events →
    (Right true s events ↔ Guarded (Sure true) step s events)
  | [], _, inv, _ => iff_of_true inv.exact trivial
  | e :: events, s, inv, releases => by
    constructor
    · rintro ⟨-, -, t, stepped, right⟩
      have sure := sure_of_step inv stepped
      obtain ⟨-, t', stepped', inv'⟩ := step_spec inv releases.1 sure
      cases Option.some.inj (stepped.symm.trans stepped')
      refine ⟨sure, fun u again => ?_⟩
      cases Option.some.inj (stepped.symm.trans again)
      exact (right_iff inv' (releases.2 t stepped)).mp right
    · rintro ⟨sure, later⟩
      obtain ⟨free, t, stepped, inv'⟩ := step_spec inv releases.1 sure
      exact ⟨inv.exact, free, t, stepped, (right_iff inv' (releases.2 t stepped)).mpr (later t stepped)⟩

/-! ### The linear mode -/

theorem linear_first (sizes : SpaceSizes) (realloc : Option (Nat → BitWord)) :
    ∃ t, (init sizes false).step (.allocate realloc) = some t ∧ 0 ∈ t.allocated ∧ t.alloc.spaceAllocIsAllocated 0 = false := by
  have called : (init sizes false).alloc.spaceAllocAllocate realloc =
      some ({ SpaceAllocState.spaceAllocInit sizes false with counter := 1 }, some 0) := if_pos (Nat.pos_of_ne_zero sizes.initialSome)
  refine ⟨_, by rw [step, called]; rfl, List.mem_cons_self, ?_⟩
  exact SpaceAllocState.not_isAllocated_init sizes false

theorem Right.exact {events : List SpaceEvent} (right : Right alwaysLowest s events) : s.Exact := by
  cases events with
  | nil => exact right
  | cons e events => exact right.1

theorem linear_right_iff (sizes : SpaceSizes) {events : List SpaceEvent} (releases : Guarded Releases step (init sizes false) events) :
    Right false (init sizes false) events ↔ Guarded (Sure false) step (init sizes false) events := by
  cases events with
  | nil => exact iff_of_true (fun _ => iff_of_false (Bool.eq_false_iff.mp (SpaceAllocState.not_isAllocated_init sizes false)) List.not_mem_nil) trivial
  | cons e events =>
    cases e with
    | release value => exact absurd releases.1 List.not_mem_nil
    | allocate realloc =>
      refine iff_of_false ?_ fun sure => Bool.noConfusion sure.1.1
      rintro ⟨-, -, t, stepped, right⟩
      obtain ⟨t', stepped', given, unmarked⟩ := linear_first sizes realloc
      cases Option.some.inj (stepped.symm.trans stepped')
      exact Bool.eq_false_iff.mp unmarked ((right.exact 0).mpr given)

/-- An allocator gives only free values, the lowest ones if it is to, and knows what is allocated, throughout a run if and only if every
    allocation is in the mode that searches and does not expand the table. -/
theorem space_is_unique_iff (sizes : SpaceSizes) (alwaysLowest : Bool) (events : List SpaceEvent)
    (releases : Guarded Releases step (init sizes alwaysLowest) events) :
    Right alwaysLowest (init sizes alwaysLowest) events ↔ Guarded (Sure alwaysLowest) step (init sizes alwaysLowest) events := by
  cases alwaysLowest with
  | false => exact linear_right_iff sizes releases
  | true => exact right_iff (.init sizes) releases

def oneWord : SpaceSizes := ⟨32, 32, by decide, by decide, by decide, by decide, by decide⟩

theorem space_is_unique_for_three : Right true (init oneWord true) [.allocate none, .allocate none, .release 0, .allocate none] := by
  have releases : Guarded Releases step (init oneWord true) [.allocate none, .allocate none, .release 0, .allocate none] := by
    refine ⟨trivial, fun s first => ⟨trivial, fun t second => ⟨?_, fun u third => ⟨trivial, fun v fourth => trivial⟩⟩⟩⟩
    cases first
    cases second
    exact List.mem_cons_of_mem _ List.mem_cons_self
  refine (space_is_unique_iff oneWord true _ releases).mpr ?_
  exact ⟨⟨rfl, .inr (.inr rfl)⟩, fun s _ => ⟨⟨rfl, .inr (.inr rfl)⟩, fun t _ => ⟨trivial, fun u _ => ⟨⟨rfl, .inr (.inr rfl)⟩, fun v _ => trivial⟩⟩⟩⟩

/-- The first value of the linear mode is allocated and not marked. -/
theorem linear_value_unmarked : ¬Right false (init oneWord false) [.allocate none] := by
  rintro ⟨-, -, t, stepped, exact⟩
  cases stepped
  exact Bool.noConfusion ((exact 0).mpr List.mem_cons_self)

end SpaceSystem
end Faux
