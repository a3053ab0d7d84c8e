import Mathlib.Logic.Function.Basic
import Mathlib.Tactic.Common

/-! # Byte memory

A memory is a total map from addresses to bytes. Single bytes, 16-bit little-endian fields and runs of
bytes are read and written; each write comes with what it leaves alone. -/

namespace Lib

/-- A byte-addressed memory. -/
abbrev Memory := Nat → UInt8

namespace Memory

/-- Stores one byte. -/
def set (m : Memory) (a : Nat) (b : UInt8) : Memory := fun x => if x = a then b else m x

/-- The 16-bit little-endian field at `a`. -/
def get16 (m : Memory) (a : Nat) : Nat := (m a).toNat + 256 * (m (a + 1)).toNat

/-- Stores the low 16 bits of `v` at `a`. -/
def set16 (m : Memory) (a v : Nat) : Memory :=
  (m.set a (UInt8.ofNat v)).set (a + 1) (UInt8.ofNat (v / 256))

/-- The `n` bytes from `a` on. -/
def read (m : Memory) (a n : Nat) : List UInt8 := (List.range n).map fun i => m (a + i)

/-- Stores the bytes `bs` from `a` on. -/
def write (m : Memory) (a : Nat) (bs : List UInt8) : Memory := fun x =>
  if a ≤ x then (bs[x - a]?).getD (m x) else m x

section
variable {m m' : Memory} {a b n v x : Nat} {bs : List UInt8}

@[simp] theorem set_self {y : UInt8} : m.set a y a = y := by simp [set]

theorem set_of_ne {y : UInt8} (h : x ≠ a) : m.set a y x = m x := by simp [set, h]

theorem set16_of_ne (h : x ≠ a) (h' : x ≠ a + 1) : m.set16 a v x = m x := by
  simp [set16, set, h, h']

theorem get16_set16 : (m.set16 a v).get16 a = v % 65536 := by
  have h1 : (m.set16 a v) a = UInt8.ofNat v := by simp [set16, set]
  have h2 : (m.set16 a v) (a + 1) = UInt8.ofNat (v / 256) := by simp [set16, set]
  simp only [get16, h1, h2, UInt8.toNat_ofNat']
  omega

theorem get16_congr (h0 : m a = m' a) (h1 : m (a + 1) = m' (a + 1)) : m.get16 a = m'.get16 a := by
  simp only [get16, h0, h1]

theorem write_of_lt (h : x < a) : m.write a bs x = m x := by
  simp [write, Nat.not_le.mpr h]

theorem write_of_ge (h : a + bs.length ≤ x) : m.write a bs x = m x := by
  have : bs[x - a]? = none := List.getElem?_eq_none (by omega)
  simp [write, this]

theorem read_congr (h : ∀ i < n, m (a + i) = m' (a + i)) : m.read a n = m'.read a n := by
  simp only [read]
  exact List.map_congr_left fun i hi => h i (List.mem_range.mp hi)

theorem read_write : (m.write a bs).read a bs.length = bs := by
  apply List.ext_getElem
  · simp [read]
  · intro i h1 h2
    simp [read, write, h2]

end
end Memory
end Lib
