import Faux.Lib.CString

/-! # Numbers in strings

`sprintf` writes a number with the digits of a base, and `sscanf` reads the digits that a string starts with. -/

namespace Lib

/-- `0` to `9`, and then `a` to `f`. -/
def digitByte (d : Nat) : UInt8 := UInt8.ofNat (if d < 10 then 48 + d else 87 + d)

/-- The value of a digit, which may be a capital letter. -/
def digitValue (c : UInt8) : Nat :=
  if 48 ≤ c.toNat ∧ c.toNat ≤ 57 then c.toNat - 48
  else if 97 ≤ c.toNat ∧ c.toNat ≤ 102 then c.toNat - 87
  else if 65 ≤ c.toNat ∧ c.toNat ≤ 70 then c.toNat - 55
  else 16

def showDigits (base : Nat) : Nat → Nat → List UInt8
  | 0, n => [digitByte (n % base)]
  | fuel + 1, n => if n < base then [digitByte n] else showDigits base fuel (n / base) ++ [digitByte (n % base)]

/-- `%d` or `%x`. -/
def showNat (base n : Nat) : List UInt8 := showDigits base n n

def scanDigits (base : Nat) : Nat → List UInt8 → Nat × List UInt8
  | acc, [] => (acc, [])
  | acc, c :: s => if digitValue c < base then scanDigits base (acc * base + digitValue c) s else (acc, c :: s)

/-- `%d` or `%x`: a number has a digit. -/
def scanNat (base : Nat) : List UInt8 → Option (Nat × List UInt8)
  | [] => none
  | c :: s => if digitValue c < base then some (scanDigits base 0 (c :: s)) else none

/-- A character of the format that has to be there. -/
def scanByte (b : UInt8) : List UInt8 → Option (List UInt8)
  | [] => none
  | c :: s => if c = b then some s else none

section
variable {base n fuel acc : Nat} {c : UInt8} {s : List UInt8}

theorem digitValue_digitByte : ∀ d < 16, digitValue (digitByte d) = d := by decide

/-- Reading stops where there is no digit. -/
def Stops (base : Nat) (s : List UInt8) : Prop := ∀ c ∈ s.head?, ¬digitValue c < base

theorem scanDigits_stop (stops : Stops base s) : scanDigits base acc s = (acc, s) := by
  cases s with
  | nil => rfl
  | cons c s => rw [scanDigits, if_neg (stops c rfl)]

theorem mem_showDigits (pos : 0 < base) (le : base ≤ 16) : ∀ {fuel n : Nat}, c ∈ showDigits base fuel n → digitValue c < base := by
  have digit : ∀ d < base, digitValue (digitByte d) < base := fun d lt => by
    rw [digitValue_digitByte d (Nat.lt_of_lt_of_le lt le)]
    exact lt
  intro fuel
  induction fuel with
  | zero =>
    intro n mem
    rw [List.mem_singleton.mp mem]
    exact digit _ (Nat.mod_lt n pos)
  | succ fuel ih =>
    intro n mem
    unfold showDigits at mem
    split_ifs at mem with small
    · rw [List.mem_singleton.mp mem]
      exact digit n small
    · rcases List.mem_append.mp mem with mem | mem
      · exact ih mem
      · rw [List.mem_singleton.mp mem]
        exact digit _ (Nat.mod_lt n pos)

/-- Reading what is written scales the number before it by a power of the base, and adds the number. -/
theorem scanDigits_showDigits (two : 2 ≤ base) (le : base ≤ 16) : ∀ {fuel n : Nat}, n ≤ fuel →
    ∃ k, ∀ acc s, scanDigits base acc (showDigits base fuel n ++ s) = scanDigits base (acc * k + n) s := by
  have digit : ∀ (d acc : Nat) (s : List UInt8), d < base →
      scanDigits base acc ([digitByte d] ++ s) = scanDigits base (acc * base + d) s := fun d acc s lt => by
    have value := digitValue_digitByte d (Nat.lt_of_lt_of_le lt le)
    rw [List.singleton_append, scanDigits, value, if_pos lt]
  intro fuel
  induction fuel with
  | zero =>
    intro n zero
    obtain rfl : n = 0 := Nat.le_zero.mp zero
    refine ⟨base, fun acc s => ?_⟩
    rw [showDigits, Nat.zero_mod, digit 0 acc s (Nat.lt_of_lt_of_le Nat.zero_lt_two two)]
  | succ fuel ih =>
    intro n enough
    unfold showDigits
    split_ifs with small
    · exact ⟨base, fun acc s => digit n acc s small⟩
    · have pos : 0 < n := by omega
      have shorter : n / base ≤ fuel := Nat.le_of_lt_succ (Nat.lt_of_lt_of_le (Nat.div_lt_self pos two) enough)
      have whole : base * (n / base) + n % base = n := Nat.div_add_mod n base
      obtain ⟨k, scanned⟩ := ih shorter
      refine ⟨k * base, fun acc s => ?_⟩
      rw [List.append_assoc, scanned, digit _ _ s (Nat.mod_lt n (by omega))]
      congr 1
      calc (acc * k + n / base) * base + n % base
          = acc * (k * base) + (base * (n / base) + n % base) := by rw [Nat.add_mul, Nat.mul_assoc, Nat.add_assoc, Nat.mul_comm (n / base)]
        _ = _ := by rw [whole]

theorem scanNat_showNat (two : 2 ≤ base) (le : base ≤ 16) (stops : Stops base s) : scanNat base (showNat base n ++ s) = some (n, s) := by
  obtain ⟨k, scanned⟩ := @scanDigits_showDigits base two le n n (Nat.le_refl n)
  cases shown : showNat base n with
  | nil =>
    exfalso
    unfold showNat at shown
    cases n with
    | zero => cases shown
    | succ n =>
      unfold showDigits at shown
      split_ifs at shown
      exact List.append_ne_nil_of_right_ne_nil _ (List.cons_ne_nil _ _) shown
  | cons c t =>
    have isDigit : digitValue c < base := mem_showDigits (by omega) le (shown ▸ List.mem_cons_self .. : c ∈ showNat base n)
    rw [List.cons_append, scanNat, if_pos isDigit, ← List.cons_append, ← shown]
    unfold showNat
    rw [scanned, scanDigits_stop stops, Nat.zero_mul, Nat.zero_add]

theorem scanByte_cons {b : UInt8} : scanByte b (b :: s) = some s := if_pos rfl

end
end Lib
