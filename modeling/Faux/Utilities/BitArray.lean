import Mathlib.Tactic.Common

/-! # Bit arrays

`libs/utilities/include/bitarray.h`, where `unsigned long` is of 32 bits. -/

namespace Faux

abbrev BitWord := BitVec 32

def bitarrayBitsPerInt : Nat := 32

def bitarrayCreateMask (bit : Nat) : BitWord := 1#32 <<< (bit % bitarrayBitsPerInt)

def fosBitArrayIsSet (bitarray : List BitWord) (bit : Nat) : Bool :=
  (bitarray.getD (bit / bitarrayBitsPerInt) 0#32 &&& bitarrayCreateMask bit) ≠ 0#32

def fosBitArraySet (bitarray : List BitWord) (bit : Nat) : List BitWord :=
  bitarray.modify (bit / bitarrayBitsPerInt) (· ||| bitarrayCreateMask bit)

def fosBitArrayClear (bitarray : List BitWord) (bit : Nat) : List BitWord :=
  bitarray.modify (bit / bitarrayBitsPerInt) (· &&& ~~~bitarrayCreateMask bit)

/-- The loop of `fosBitArrayFindFirstSet`, which ends when the mask has been shifted out. -/
def findFirstSetLoop (value : BitWord) : Nat → BitWord → Nat → Nat
  | 0, _, _ => bitarrayBitsPerInt
  | steps + 1, mask, index =>
    if mask = 0#32 then bitarrayBitsPerInt
    else if value &&& mask ≠ 0#32 then index
    else findFirstSetLoop value steps (mask <<< 1) (index + 1)

def fosBitArrayFindFirstSet (value : BitWord) : Nat := findFirstSetLoop value (bitarrayBitsPerInt + 1) 1#32 0

/-- The loop of `fosBitArrayFindClear`, with the number of words that are left. -/
def findClearLoop (bitarray : List BitWord) (nbits : Nat) : Nat → Nat → Nat
  | 0, _ => nbits
  | left + 1, arrayI =>
    if bitarray.getD arrayI 0#32 ≠ ~~~0#32 then arrayI * bitarrayBitsPerInt + fosBitArrayFindFirstSet (~~~bitarray.getD arrayI 0#32)
    else findClearLoop bitarray nbits left (arrayI + 1)

def fosBitArrayFindClear (bitarray : List BitWord) (nbits : Nat) : Nat := findClearLoop bitarray nbits (nbits / bitarrayBitsPerInt) 0

end Faux
