import Faux.Theorems.Channel.Layout

/-! What the operations of a half channel write into its memory, and which bytes they leave alone. -/

namespace Faux
open Lib

variable {m m' : Memory} {a len x : Nat} {v : Bool}

def Agree (m m' : Memory) (a len : Nat) : Prop := ∀ x, a ≤ x → x < a + len → m' x = m x

namespace Agree

theorem msgSize (h : Agree m m' a len) (hl : cachelineSize ≤ len) : msgSize m' a = msgSize m a := by
  simp only [cachelineSize] at hl
  exact Memory.get16_congr (h a (by omega) (by omega)) (h (a + 1) (by omega) (by omega))

theorem msgAlloced (h : Agree m m' a len) (hl : cachelineSize ≤ len) : msgAlloced m' a = msgAlloced m a := by
  simp only [cachelineSize] at hl
  exact Memory.get16_congr (h (a + 2) (by omega) (by omega)) (h (a + 2 + 1) (by omega) (by omega))

theorem read (h : Agree m m' a len) {n : Nat} (hn : n + sizeofMessage ≤ len) :
    m'.read (a + sizeofMessage) n = m.read (a + sizeofMessage) n := by
  simp only [sizeofMessage] at *
  exact Memory.read_congr fun i hi => h _ (by omega) (by omega)

theorem line (h : Agree m m' a len) {i : Nat} (hi : cachelineSize * i < len) (hl : len % cachelineSize = 0) :
    m' (a + cachelineSize * i + 4) = m (a + cachelineSize * i + 4) := by
  simp only [cachelineSize] at *
  exact h _ (by omega) (by omega)

end Agree

theorem msgReady_true : msgReady m a true = true ↔ m (a + 4) = 1 := by simp [msgReady]

theorem msgReady_false : msgReady m a false = true ↔ m (a + 4) = 0 := by simp [msgReady]

theorem setReady_self : setReady m a v (a + 4) = if v then 1 else 0 := by
  simp [setReady]

theorem setReady_of_ne (h : x ≠ a + 4) : setReady m a v x = m x := Memory.set_of_ne h

theorem msgSize_setReady : msgSize (setReady m a v) a = msgSize m a :=
  Memory.get16_congr (setReady_of_ne (by omega)) (setReady_of_ne (by omega))

theorem msgAlloced_setReady : msgAlloced (setReady m a v) a = msgAlloced m a :=
  Memory.get16_congr (setReady_of_ne (by omega)) (setReady_of_ne (by omega))

theorem writeHeader_of_ne (h : x < a ∨ a + 5 ≤ x) : writeHeader m a len x = m x := by
  simp only [writeHeader, setAlloced, setSize]
  rw [Memory.set16_of_ne (by omega) (by omega), setReady_of_ne (by omega), Memory.set16_of_ne (by omega) (by omega)]

theorem msgSize_writeHeader : msgSize (writeHeader m a len) a = 0 := by
  have h : msgSize (writeHeader m a len) a = msgSize (setSize m a 0) a := by
    refine Memory.get16_congr ?_ ?_ <;> simp only [writeHeader, setAlloced] <;>
      rw [Memory.set16_of_ne (by omega) (by omega), setReady_of_ne (by omega)]
  rw [h]
  exact Memory.get16_set16

theorem msgAlloced_writeHeader (h : len < 65536) : msgAlloced (writeHeader m a len) a = len := by
  have := Memory.get16_set16 (m := setReady (setSize m a 0) a true) (a := a + 2) (v := len)
  rw [Nat.mod_eq_of_lt h] at this
  exact this

theorem ready_writeHeader : writeHeader m a len (a + 4) = 1 := by
  simp only [writeHeader, setAlloced]
  rw [Memory.set16_of_ne (by omega) (by omega), setReady_self]
  rfl

theorem writeSentinel_of_ne (h : x < a ∨ a + 5 ≤ x) : writeSentinel m a x = m x := by
  simp only [writeSentinel, setAlloced, setSize]
  rw [setReady_of_ne (by omega), Memory.set16_of_ne (by omega) (by omega), Memory.set16_of_ne (by omega) (by omega)]

theorem msgSize_writeSentinel : msgSize (writeSentinel m a) a = sentinelSize := by
  simp only [writeSentinel]
  rw [msgSize_setReady]
  have h : msgSize (setAlloced (setSize m a sentinelSize) a (sharedSize - a)) a = msgSize (setSize m a sentinelSize) a := by
    refine Memory.get16_congr ?_ ?_ <;> simp only [setAlloced] <;> rw [Memory.set16_of_ne (by omega) (by omega)]
  rw [h]
  exact Memory.get16_set16

theorem msgAlloced_writeSentinel (h : 0 < a) : msgAlloced (writeSentinel m a) a = sharedSize - a := by
  simp only [writeSentinel]
  rw [msgAlloced_setReady]
  have := Memory.get16_set16 (m := setSize m a sentinelSize) (a := a + 2) (v := sharedSize - a)
  rw [Nat.mod_eq_of_lt (by simp only [sharedSize]; omega)] at this
  exact this

theorem ready_writeSentinel : writeSentinel m a (a + 4) = 1 := by
  simp only [writeSentinel]
  rw [setReady_self]
  rfl

section
variable {p : List UInt8}

def sendMem (m : Memory) (a : Nat) (p : List UInt8) : Memory := setSize (m.write (a + sizeofMessage) p) a p.length

theorem sendMem_of_ne (h : x < a ∨ (a + 2 ≤ x ∧ x < a + sizeofMessage) ∨ a + sizeofMessage + p.length ≤ x) :
    sendMem m a p x = m x := by
  simp only [sendMem, setSize, sizeofMessage] at *
  rw [Memory.set16_of_ne (by omega) (by omega)]
  by_cases hx : x < a + 8
  · exact Memory.write_of_lt hx
  · exact Memory.write_of_ge (by omega)

theorem msgSize_sendMem (h : p.length < 65536) : msgSize (sendMem m a p) a = p.length := by
  have := Memory.get16_set16 (m := m.write (a + sizeofMessage) p) (a := a) (v := p.length)
  rw [Nat.mod_eq_of_lt h] at this
  exact this

theorem msgAlloced_sendMem : msgAlloced (sendMem m a p) a = msgAlloced m a :=
  Memory.get16_congr (sendMem_of_ne (by simp only [sizeofMessage]; omega))
    (sendMem_of_ne (by simp only [sizeofMessage]; omega))

theorem read_sendMem : (sendMem m a p).read (a + sizeofMessage) p.length = p := by
  have : (sendMem m a p).read (a + sizeofMessage) p.length =
      (m.write (a + sizeofMessage) p).read (a + sizeofMessage) p.length :=
    Memory.read_congr fun i _ => by
      simp only [sendMem, setSize, sizeofMessage]
      rw [Memory.set16_of_ne (by omega) (by omega)]
  rw [this]
  exact Memory.read_write

end

theorem freeLoop_eq {fuel : Nat} (hl : len % cachelineSize = 0) (hf : len ≤ cachelineSize * fuel) :
    freeLoop fuel m a (a + len) x = if a ≤ x ∧ x < a + len ∧ (x - a) % cachelineSize = 4 then 0 else m x := by
  simp only [cachelineSize] at *
  induction fuel generalizing m a len with
  | zero =>
    have : ¬(a ≤ x ∧ x < a + len ∧ (x - a) % 64 = 4) := by omega
    simp [freeLoop, this]
  | succ fuel ih =>
    by_cases h0 : len = 0
    · subst h0
      have : ¬(a ≤ x ∧ x < a + 0 ∧ (x - a) % 64 = 4) := by omega
      simp only [freeLoop, this, if_false]
      simp
    · have hlt : a < a + len := by omega
      simp only [freeLoop, hlt, if_true, cachelineSize]
      have hstop : a + len = (a + 64) + (len - 64) := by omega
      rw [hstop, ih (by omega) (by omega)]
      by_cases hx : x = a + 4
      · grind [setReady_self]
      · rw [setReady_of_ne hx]
        exact if_congr (by omega) rfl rfl

end Faux
