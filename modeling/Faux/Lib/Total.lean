import Faux.Lib.AList

/-! # Totals

The total of a number over a list, and over the values of a finite map. -/

namespace Lib

section
variable {α : Type} {f g : α → Nat} {l l' : List α}

/-- The sum of `f` over a list. -/
def total (f : α → Nat) (l : List α) : Nat := l.foldr (fun a n => f a + n) 0

@[simp] theorem total_nil : total f [] = 0 := rfl

@[simp] theorem total_cons {a : α} : total f (a :: l) = f a + total f l := rfl

theorem total_perm (perm : l.Perm l') : total f l = total f l' := by
  induction perm with
  | nil => rfl
  | cons a _ ih => simp only [total_cons, ih]
  | swap a b l => simp only [total_cons]; omega
  | trans _ _ ih ih' => exact ih.trans ih'

theorem total_eq_zero (zero : ∀ a ∈ l, f a = 0) : total f l = 0 := by
  induction l with
  | nil => rfl
  | cons a l ih =>
    rw [total_cons, zero a (List.mem_cons_self ..), ih fun b mem => zero b (List.mem_cons_of_mem _ mem)]

end

section
variable {κ ν : Type} [DecidableEq κ] {f : ν → Nat} {m : AList fun _ : κ => ν} {k : κ} {v : ν}

/-- The sum of `f` over the values of a map. -/
def valTotal (f : ν → Nat) (m : AList fun _ : κ => ν) : Nat := total (fun e => f e.2) m.entries

/-- The part that one key has in a total. -/
def valAt (f : ν → Nat) (m : AList fun _ : κ => ν) (k : κ) : Nat := (m.lookup k).elim 0 f

omit [DecidableEq κ] in
@[simp] theorem valTotal_empty : valTotal f (∅ : AList fun _ : κ => ν) = 0 := rfl

theorem valAt_of_lookup (found : m.lookup k = some v) : valAt f m k = f v := by rw [valAt, found]; rfl

theorem valAt_of_notMem (absent : k ∉ m) : valAt f m k = 0 := by
  rw [valAt, AList.lookup_eq_none.mpr absent]
  rfl

theorem valTotal_erase : valTotal f (m.erase k) + valAt f m k = valTotal f m := by
  cases found : m.lookup k with
  | none =>
    have absent := AList.lookup_eq_none.mp found
    have same : (m.erase k).entries = m.entries := List.kerase_of_notMem_keys (AList.mem_keys.not.mp absent)
    rw [valAt_of_notMem absent, valTotal, same]
    rfl
  | some v =>
    rw [valAt_of_lookup found, valTotal, valTotal, total_perm (entries_perm_cons_erase found), total_cons]
    exact Nat.add_comm ..

theorem valTotal_insert : valTotal f (m.insert k v) + valAt f m k = valTotal f m + f v := by
  have erased := valTotal_erase (f := f) (m := m) (k := k)
  have inserted : valTotal f (m.insert k v) = f v + valTotal f (m.erase k) := by
    rw [valTotal, entries_insert_eq, total_cons]
    rfl
  omega

end
end Lib
