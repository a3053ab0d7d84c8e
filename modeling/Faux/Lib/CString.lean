import Mathlib.Tactic.Common

/-! # Strings of C

A string is a run of bytes up to a zero, read from where a pointer points to. Strings that have no zero in them are read back
from bytes into which they were copied one after the other. -/

namespace Lib

/-- The string that some bytes start with; without a zero it has no end. -/
def cstr : List UInt8 → Option (List UInt8)
  | [] => none
  | b :: bs => if b = 0 then some [] else (cstr bs).map (b :: ·)

/-- Strings one after the other, each with its zero. -/
def packed (ss : List (List UInt8)) : List UInt8 := ss.flatMap (· ++ [0])

/-- `strstr` that finds something. -/
def strstr (needle : List UInt8) : List UInt8 → Bool
  | [] => needle.isEmpty
  | c :: s => needle.isPrefixOf (c :: s) || strstr needle s

section
variable {s tail : List UInt8} {ss : List (List UInt8)}

theorem cstr_append : ∀ {s : List UInt8}, 0 ∉ s → cstr (s ++ 0 :: tail) = some s
  | [], _ => rfl
  | b :: s, noNul => by
    have notNul : ¬b = 0 := (List.ne_of_not_mem_cons noNul).symm
    rw [List.cons_append, cstr, if_neg notNul, cstr_append (List.not_mem_of_not_mem_cons noNul)]
    rfl

theorem packed_cons : packed (s :: ss) ++ tail = s ++ 0 :: (packed ss ++ tail) := by
  simp [packed]

theorem length_packed_cons : (packed (s :: ss)).length = s.length + 1 + (packed ss).length := by
  simp only [packed, List.flatMap_cons, List.length_append, List.length_cons, List.length_nil]

theorem strstr_iff {needle : List UInt8} : ∀ {s : List UInt8}, strstr needle s = true ↔ needle <:+: s
  | [] => by rw [strstr, List.isEmpty_iff, List.infix_nil]
  | c :: s => by rw [strstr, Bool.or_eq_true, List.isPrefixOf_iff_prefix, strstr_iff, List.infix_cons_iff]

end

/-! ### Strings in memory

The same over characters: a string starts where a pointer points to, and a pointer that moves within it finds the rest of it. -/

/-- The character that ends a string. -/
def nul : Char := Char.ofNat 0

/-- The string at a pointer. -/
def strAt (m : List Char) (p : Nat) : List Char := (m.drop p).takeWhile (· ≠ nul)

def strlen (m : List Char) (p : Nat) : Nat := (strAt m p).length

/-- `strrchr`, as an index. -/
def strrchr (c : Char) : List Char → Option Nat
  | [] => none
  | d :: s =>
    match strrchr c s with
    | some i => some (i + 1)
    | none => if d = c then some 0 else none

section
variable {α : Type} {f : α → Bool}

theorem takeWhile_drop : ∀ {l : List α} {k : Nat}, k ≤ (l.takeWhile f).length → (l.drop k).takeWhile f = (l.takeWhile f).drop k
  | _, 0, _ => rfl
  | [], k + 1, le => absurd le (Nat.not_succ_le_zero k)
  | a :: l, k + 1, le => by
    by_cases holds : f a = true
    · rw [List.takeWhile_cons_of_pos holds] at le ⊢
      exact takeWhile_drop (Nat.le_of_succ_le_succ le)
    · grind [List.takeWhile_cons_of_neg]

/-- A change within the part that is taken, to something that is taken too or to something that ends it. -/
theorem takeWhile_set {c : α} : ∀ {l : List α} {i : Nat}, i < (l.takeWhile f).length →
    (l.set i c).takeWhile f = if f c then (l.takeWhile f).set i c else (l.takeWhile f).take i
  | [], _, lt => absurd lt (Nat.not_lt_zero _)
  | a :: l, i, lt => by
    by_cases holds : f a = true
    · rw [List.takeWhile_cons_of_pos holds] at lt ⊢
      cases i with
      | zero =>
        rw [List.set_cons_zero, List.takeWhile_cons]
        rfl
      | succ i =>
        rw [List.set_cons_succ, List.takeWhile_cons_of_pos holds, takeWhile_set (Nat.lt_of_succ_lt_succ lt)]
        split <;> rfl
    · rw [List.takeWhile_cons_of_neg holds] at lt
      exact absurd lt (Nat.not_lt_zero _)

end

section
variable {m : List Char} {p k i : Nat} {c : Char}

theorem strAt_add (le : k ≤ strlen m p) : strAt m (p + k) = (strAt m p).drop k := by
  rw [strAt, ← List.drop_drop]
  exact takeWhile_drop le

theorem add_strlen (le : k ≤ strlen m p) : p + k + strlen m (p + k) = p + strlen m p := by
  rw [strlen, strAt_add le, List.length_drop]
  unfold strlen at le ⊢
  omega

theorem getElem?_strAt (lt : i < strlen m p) : (strAt m p)[i]? = m[p + i]? := by
  have isPrefix : strAt m p <+: m.drop p := List.takeWhile_prefix _
  obtain ⟨rest, split⟩ := isPrefix
  rw [← List.getElem?_drop, ← split, List.getElem?_append_left lt]

theorem strAt_set (lt : i < strlen m p) (notNul : c ≠ nul) : strAt (m.set (p + i) c) p = (strAt m p).set i c := by
  rw [strAt, List.drop_set, if_neg (by omega), Nat.add_sub_cancel_left, takeWhile_set lt, if_pos (by simpa using notNul)]
  rfl

theorem strAt_set_nul (lt : i < strlen m p) : strAt (m.set (p + i) nul) p = (strAt m p).take i := by
  rw [strAt, List.drop_set, if_neg (by omega), Nat.add_sub_cancel_left, takeWhile_set lt, if_neg (by simp)]
  rfl

theorem strAt_set_of_lt (lt : i < p) : strAt (m.set i c) p = strAt m p := by
  rw [strAt, List.drop_set, if_pos lt]
  rfl

theorem set_set_self {a : Char} (found : m[i]? = some a) : (m.set i c).set i a = m := by
  obtain ⟨lt, rfl⟩ := List.getElem?_eq_some_iff.mp found
  rw [List.set_set, List.set_getElem_self]

theorem strrchr_eq_none : ∀ {s : List Char}, strrchr c s = none ↔ c ∉ s
  | [] => by simp [strrchr]
  | d :: s => by
    have ih := @strrchr_eq_none s
    rw [strrchr]
    cases found : strrchr c s with
    | some i => simp [← ih, found]
    | none => simp [← ih, found, eq_comm]

theorem of_strrchr : ∀ {s : List Char} {i : Nat}, strrchr c s = some i → s = s.take i ++ c :: s.drop (i + 1) ∧ c ∉ s.drop (i + 1)
  | [], _, found => by cases found
  | d :: s, i, found => by
    rw [strrchr] at found
    cases rest : strrchr c s with
    | some j =>
      rw [rest] at found
      cases found
      obtain ⟨split, last⟩ := of_strrchr rest
      exact ⟨congrArg (d :: ·) split, last⟩
    | none =>
      rw [rest] at found
      by_cases here : d = c
      · rw [if_pos here] at found
        cases found
        exact ⟨congrArg (· :: s) here, strrchr_eq_none.mp rest⟩
      · rw [if_neg here] at found
        cases found

theorem strrchr_append {d : Char} (other : d ≠ c) : ∀ {s : List Char}, strrchr c (s ++ [d]) = strrchr c s
  | [] => by simp [strrchr, other]
  | e :: s => by rw [List.cons_append, strrchr, strrchr, strrchr_append other]

end
end Lib
