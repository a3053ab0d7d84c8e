import Mathlib.Tactic.Common

/-! # Files as byte sequences

What reading, writing and resizing mean for a file that is a sequence of bytes: a write past the end and a
larger size fill the gap with zeros. A sequence is known by its bytes, found by index. -/

namespace Lib
namespace Bytes

/-- The size is set: bytes past the new end are lost, and new ones are zero. -/
def resize (bs : List UInt8) (n : Nat) : List UInt8 := bs.take n ++ List.replicate (n - bs.length) 0

/-- The bytes `buf` from `offset` on. Writing nothing does not move the end. -/
def write (bs : List UInt8) (offset : Nat) (buf : List UInt8) : List UInt8 :=
  if buf = [] then bs else resize bs offset ++ buf ++ bs.drop (offset + buf.length)

/-- At most `count` bytes from `offset` on. -/
def read (bs : List UInt8) (offset count : Nat) : List UInt8 := (bs.drop offset).take count

section
variable {bs buf : List UInt8} {n i offset count : Nat}

@[simp] theorem length_resize : (resize bs n).length = n := by
  simp only [resize, List.length_append, List.length_take, List.length_replicate]
  omega

theorem getElem?_resize : (resize bs n)[i]? = if i < n then some ((bs[i]?).getD 0) else none := by
  by_cases lt : i < n
  · rw [if_pos lt]
    by_cases old : i < bs.length
    · rw [resize, List.getElem?_append_left (by simp only [List.length_take]; omega), List.getElem?_take_of_lt lt]
      simp [old]
    · grind [resize]
  · grind [length_resize]

theorem length_write (data : buf ≠ []) : (write bs offset buf).length = max bs.length (offset + buf.length) := by
  simp only [write, if_neg data, List.length_append, length_resize, List.length_drop]
  omega

theorem getElem?_write (data : buf ≠ []) : (write bs offset buf)[i]? =
    if offset ≤ i ∧ i < offset + buf.length then buf[i - offset]?
    else if i < max bs.length (offset + buf.length) then some ((bs[i]?).getD 0) else none := by
  simp only [write, if_neg data, List.append_assoc]
  by_cases before : i < offset
  · grind [List.getElem?_append_left, getElem?_resize]
  · rw [List.getElem?_append_right (by simpa using before), length_resize]
    by_cases inside : i < offset + buf.length
    · rw [List.getElem?_append_left (by omega), if_pos ⟨by omega, inside⟩]
    · grind

theorem write_length : write bs bs.length buf = bs ++ buf := by
  by_cases nothing : buf = []
  · simp [write, nothing]
  · simp [write, nothing, resize]

theorem write_within (within : offset ≤ bs.length) : (write bs offset buf).length = max bs.length (offset + buf.length) ∧
    (∀ j < buf.length, (write bs offset buf)[offset + j]? = buf[j]?) ∧
    ∀ j, j < offset ∨ offset + buf.length ≤ j → (write bs offset buf)[j]? = bs[j]? := by
  by_cases nothing : buf = []
  · subst nothing
    simp [write, within]
  refine ⟨length_write nothing, fun j lt => ?_, fun j out => ?_⟩
  · rw [getElem?_write nothing, if_pos ⟨Nat.le_add_right .., by omega⟩, Nat.add_sub_cancel_left]
  · grind [getElem?_write]

theorem write_append {more : List UInt8} :
    write (write bs offset buf) (offset + buf.length) more = write bs offset (buf ++ more) := by
  by_cases first : buf = []
  · simp [first, write]
  by_cases second : more = []
  · simp [second, write]
  have both : buf ++ more ≠ [] := fun nil => first (List.append_eq_nil_iff.mp nil).1
  refine List.ext_getElem? fun i => ?_
  rw [getElem?_write second, getElem?_write first, getElem?_write both, length_write first, List.length_append]
  by_cases inFirst : offset ≤ i ∧ i < offset + buf.length
  · grind
  by_cases inSecond : offset + buf.length ≤ i ∧ i < offset + buf.length + more.length
  · grind
  · grind

theorem length_read : (read bs offset count).length = min count (bs.length - offset) := by
  simp only [read, List.length_take, List.length_drop]

theorem read_zero : read bs offset 0 = [] := List.take_zero ..

theorem read_append (le : n ≤ count) :
    read bs offset n ++ read bs (offset + (read bs offset n).length) (count - (read bs offset n).length) = read bs offset count := by
  have short : read bs offset n = (bs.drop offset).take (read bs offset n).length := by
    rw [length_read, read, List.take_eq_take_iff, List.length_drop]
    omega
  have bound : (read bs offset n).length ≤ count := by
    rw [length_read]
    omega
  generalize (read bs offset n).length = m at short bound
  rw [short, read, read, ← List.drop_drop, ← List.take_append_drop m ((bs.drop offset).take count), List.take_take,
    Nat.min_eq_left bound, List.drop_take]

theorem getElem?_read (lt : i < count) : (read bs offset count)[i]? = bs[offset + i]? := by
  rw [read, List.getElem?_take_of_lt lt, List.getElem?_drop]

end
end Bytes
end Lib
