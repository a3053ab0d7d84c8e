import Faux.Lib.Run
import Faux.Utilities.BitArray

/-! # The space allocator

`libs/utilities/space_alloc.c` and `space_alloc.h`, where `unsigned` and `unsigned long` are of 32 bits. A value is given by its bits, so
that those above the range of an `int` stand for negative ones; `-1` is told apart. `none` for a new state stands for a write outside
of the bit array. -/

namespace Faux

/-- `unsigned` counts modulo this. -/
def unsignedMod : Nat := 4294967296

def linearCounterDisabled : Nat := 4294967295

structure SpaceAllocState where
  counter : Nat
  bitArray : List BitWord
  arraySize : Nat
  expansionSize : Nat

/-- The sizes that `spaceAllocInit` asserts. -/
structure SpaceSizes where
  initialSize : Nat
  expansionSize : Nat
  initialSome : initialSize ≠ 0
  initialWords : initialSize % 32 = 0
  initialUnsigned : initialSize < unsignedMod
  expansionWords : expansionSize % 32 = 0
  expansionUnsigned : expansionSize < unsignedMod

/-- `memset` to 0 of words from an index on. -/
def clearWords (words : List BitWord) (start count : Nat) : Option (List BitWord) :=
  if start + count ≤ words.length then some (words.take start ++ List.replicate count 0#32 ++ words.drop (start + count)) else none

namespace SpaceAllocState

/-- `spaceAllocInit`, when there is memory. -/
def spaceAllocInit (sizes : SpaceSizes) (alwaysLowest : Bool) : SpaceAllocState where
  counter := if alwaysLowest then linearCounterDisabled else 0
  bitArray := List.replicate (sizes.initialSize / 32) 0#32
  arraySize := sizes.initialSize
  expansionSize := sizes.expansionSize / 8

/-- `spaceAllocExpandTable`, with what `realloc` gives: nothing, or new memory with any contents. -/
def spaceAllocExpandTable (s : SpaceAllocState) : Option (Nat → BitWord) → Option (SpaceAllocState × Option Nat)
  | none => some (s, none)
  | some contents =>
    let result := s.arraySize
    let currentBytes := s.arraySize / 8
    let newSize := currentBytes + s.expansionSize
    let newBitArray := s.bitArray ++ (List.range (s.expansionSize / 4)).map contents
    -- the number of bytes is added to a pointer to words
    match clearWords newBitArray currentBytes (s.expansionSize / 4) with
    | none => none
    | some bitArray =>
      let counter := if s.counter ≠ linearCounterDisabled then (s.counter + 1) % unsignedMod else s.counter
      some ({ s with bitArray, arraySize := newSize * 8 % unsignedMod, counter }, some result)

def spaceAllocAllocate (s : SpaceAllocState) (realloc : Option (Nat → BitWord)) : Option (SpaceAllocState × Option Nat) :=
  if s.counter < s.arraySize then some ({ s with counter := (s.counter + 1) % unsignedMod }, some s.counter)
  else
    let result := fosBitArrayFindClear s.bitArray s.arraySize
    if result < s.arraySize then some ({ s with bitArray := fosBitArraySet s.bitArray result }, some result)
    else if s.expansionSize ≠ 0 then s.spaceAllocExpandTable realloc
    else some (s, none)

def spaceAllocRelease (s : SpaceAllocState) (value : Nat) : Option SpaceAllocState :=
  if value / bitarrayBitsPerInt < s.bitArray.length then
    let bitArray := fosBitArrayClear s.bitArray value
    if value = (s.counter + unsignedMod - 1) % unsignedMod then some { s with bitArray, counter := value } else some { s with bitArray }
  else none

def spaceAllocIsAllocated (s : SpaceAllocState) (value : Nat) : Bool := value < s.arraySize && fosBitArrayIsSet s.bitArray value

end SpaceAllocState

/-- An allocator, and the values that it has given and not got back. -/
structure SpaceSystem where
  alloc : SpaceAllocState
  allocated : List Nat

inductive SpaceEvent where
  | allocate (realloc : Option (Nat → BitWord))
  | release (value : Nat)

namespace SpaceSystem

def init (sizes : SpaceSizes) (alwaysLowest : Bool) : SpaceSystem := { alloc := .spaceAllocInit sizes alwaysLowest, allocated := [] }

def step (s : SpaceSystem) : SpaceEvent → Option SpaceSystem
  | .allocate realloc => do
    let (alloc, result) ← s.alloc.spaceAllocAllocate realloc
    some { alloc, allocated := result.toList ++ s.allocated }
  | .release value => do
    let alloc ← s.alloc.spaceAllocRelease value
    some { alloc, allocated := s.allocated.filter (· ≠ value) }

/-- Only values that are allocated are released. -/
def Releases (s : SpaceSystem) : SpaceEvent → Prop
  | .allocate _ => True
  | .release value => value ∈ s.allocated

/-- The allocator knows which values are allocated. -/
def Exact (s : SpaceSystem) : Prop := ∀ value, s.alloc.spaceAllocIsAllocated value = true ↔ value ∈ s.allocated

/-- A value that an event gives is not allocated, and it is the lowest such value if it has to be. -/
def GivesFree (alwaysLowest : Bool) (s : SpaceSystem) : SpaceEvent → Prop
  | .allocate realloc => ∀ alloc value, s.alloc.spaceAllocAllocate realloc = some (alloc, some value) →
      value ∉ s.allocated ∧ (alwaysLowest = true → ∀ lower < value, lower ∈ s.allocated)
  | .release _ => True

/-- Every event has an effect that is defined, gives only free values, and leaves the allocator exact. -/
def Right (alwaysLowest : Bool) (s : SpaceSystem) : List SpaceEvent → Prop
  | [] => s.Exact
  | e :: events => s.Exact ∧ s.GivesFree alwaysLowest e ∧ ∃ t, s.step e = some t ∧ Right alwaysLowest t events

/-- Values are given in the mode that searches for the lowest one, and the table is not expanded: some value is free, or the table
    is of a fixed size, or there is no memory for a larger one. -/
def Sure (alwaysLowest : Bool) (s : SpaceSystem) : SpaceEvent → Prop
  | .allocate realloc => alwaysLowest = true ∧
      ((∃ value < s.alloc.arraySize, value ∉ s.allocated) ∨ s.alloc.expansionSize = 0 ∨ realloc.isNone = true)
  | .release _ => True

end SpaceSystem
end Faux
