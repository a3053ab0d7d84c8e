import Faux.Theorems.Fs.Counts

/-! The tables of a process. Descriptors and internal descriptors correspond to each other one to one, and an entry
    counts the internal descriptors that point to it, so that it is freed with the last of them. -/

namespace Faux
open Function Lib
namespace Process

variable {p : Process} {map : Nat → Slot} {table table' : AList fun _ : Nat => Nat} {heap : AList fun _ : Nat => FdEntry}
variable {fd n a b next : Nat} {e : FdEntry} {object : AppFile} {cloexec : Bool} {i : Nat} {x : Fd}

structure Mapped (map : Nat → Slot) (table : AList fun _ : Nat => Nat) : Prop where
  slot : ∀ fd n, map fd = .internal n → fd < fdCount ∧ n ∈ table
  inj : ∀ fd fd' n, map fd = .internal n → map fd' = .internal n → fd = fd'
  onto : ∀ n ∈ table, ∃ fd, map fd = .internal n

def pointing (table : AList fun _ : Nat => Nat) (a : Nat) : Nat := valTotal (fun b => if b = a then 1 else 0) table

structure Linked (table : AList fun _ : Nat => Nat) (heap : AList fun _ : Nat => FdEntry) (next : Nat) : Prop where
  entry : ∀ n a, table.lookup n = some a → a ∈ heap
  counted : ∀ a e, heap.lookup a = some e → e.numFd = pointing table a ∧ 0 < e.numFd
  fresh : ∀ a ∈ heap, a < next

structure Wf (p : Process) : Prop where
  mapped : Mapped p.map p.table
  linked : Linked p.table p.heap p.nextEntry

/-! ### The map -/

theorem fdIsInternal_iff : p.fdIsInternal fd = true ↔ ∃ n, p.map fd = .internal n := by
  unfold fdIsInternal
  split <;> simp_all

theorem Mapped.add (mapped : Mapped map table) (lt : fd < fdCount) (unused : ∀ n, map fd ≠ .internal n) (absent : n ∉ table)
    (keys : ∀ k, k ∈ table' ↔ k = n ∨ k ∈ table) : Mapped (update map fd (.internal n)) table' := by
  have cases_of : ∀ fd' k, update map fd (.internal n) fd' = .internal k →
      fd' = fd ∧ k = n ∨ fd' ≠ fd ∧ map fd' = .internal k := by
    intro fd' k eq
    by_cases same : fd' = fd
    · grind
    · rw [update_of_ne same] at eq
      exact .inr ⟨same, eq⟩
  refine ⟨fun fd' k eq => ?_, fun fd' fd'' k eq eq' => ?_, fun k mem => ?_⟩
  · rcases cases_of fd' k eq with ⟨rfl, rfl⟩ | ⟨-, eq⟩
    · exact ⟨lt, (keys k).mpr (.inl rfl)⟩
    · exact ⟨(mapped.slot fd' k eq).1, (keys k).mpr (.inr (mapped.slot fd' k eq).2)⟩
  · rcases cases_of fd' k eq with ⟨same, rfl⟩ | ⟨-, old⟩
    · rcases cases_of fd'' k eq' with ⟨same', -⟩ | ⟨-, old'⟩
      · exact same.trans same'.symm
      · exact absurd (mapped.slot fd'' k old').2 absent
    · rcases cases_of fd'' k eq' with ⟨-, rfl⟩ | ⟨-, old'⟩
      · exact absurd (mapped.slot fd' k old).2 absent
      · exact mapped.inj fd' fd'' k old old'
  · rcases (keys k).mp mem with rfl | mem
    · exact ⟨fd, update_self ..⟩
    · obtain ⟨fd', eq⟩ := mapped.onto k mem
      have ne : fd' ≠ fd := fun same => unused k (same ▸ eq)
      exact ⟨fd', (update_of_ne ne ..).trans eq⟩

theorem Mapped.other {o : Slot} (mapped : Mapped map table) (unused : ∀ n, map fd ≠ .internal n)
    (outside : ∀ n, o ≠ .internal n) : Mapped (update map fd o) table := by
  have same : ∀ fd' k, update map fd o fd' = .internal k ↔ map fd' = .internal k := by grind
  exact ⟨fun fd' k eq => mapped.slot fd' k ((same fd' k).mp eq),
    fun fd' fd'' k eq eq' => mapped.inj fd' fd'' k ((same fd' k).mp eq) ((same fd'' k).mp eq'),
    fun k mem => (mapped.onto k mem).imp fun fd' eq => (same fd' k).mpr eq⟩

/-! ### Entries -/

theorem fdGet_eq_ok : p.fdGet fd = .ok (n, a, e) ↔ p.map fd = .internal n ∧ p.table.lookup n = some a ∧ p.heap.lookup a = some e := by
  unfold fdGet
  split
  · next k isInternal =>
    rw [isInternal]
    split
    · next b found =>
      split
      · next e' found' =>
        constructor
        · rintro ⟨⟩
          exact ⟨rfl, found, found'⟩
        · grind
      · next none =>
        constructor
        · rintro ⟨⟩
        · grind
    · next none =>
      constructor
      · rintro ⟨⟩
      · rintro ⟨⟨⟩, found'', -⟩
        cases none.symm.trans found''
  · next other =>
    constructor
    · rintro ⟨⟩
    · rintro ⟨isInternal, -⟩
      exact absurd isInternal (other n)

theorem Wf.fdGet (wf : p.Wf) (isInternal : p.map fd = .internal n) : ∃ a e, p.fdGet fd = .ok (n, a, e) := by
  obtain ⟨a, found⟩ := mem_iff_lookup.mp (wf.mapped.slot fd n isInternal).2
  obtain ⟨e, found'⟩ := mem_iff_lookup.mp (wf.linked.entry n a found)
  exact ⟨a, e, fdGet_eq_ok.mpr ⟨isInternal, found, found'⟩⟩

theorem pointing_insert (absent : n ∉ table) : pointing (table.insert n b) a = pointing table a + if b = a then 1 else 0 := by
  have inserted := valTotal_insert (f := fun b => if b = a then 1 else 0) (m := table) (k := n) (v := b)
  rw [valAt_of_notMem absent] at inserted
  exact inserted

theorem pointing_replace (found : table.lookup n = some b) {c : Nat} :
    pointing (table.insert n c) a + (if b = a then 1 else 0) = pointing table a + if c = a then 1 else 0 := by
  have inserted := valTotal_insert (f := fun b => if b = a then 1 else 0) (m := table) (k := n) (v := c)
  rw [valAt_of_lookup found] at inserted
  exact inserted

theorem pointing_erase (found : table.lookup n = some b) :
    pointing (table.erase n) a + (if b = a then 1 else 0) = pointing table a := by
  have erased := valTotal_erase (f := fun b => if b = a then 1 else 0) (m := table) (k := n)
  rw [valAt_of_lookup found] at erased
  exact erased

section
variable (linked : Linked table heap next)
include linked

theorem Linked.next_absent : next ∉ heap := fun mem => absurd (linked.fresh next mem) (Nat.lt_irrefl _)

theorem Linked.pointing_absent (absent : a ∉ heap) : pointing table a = 0 := by
  refine total_eq_zero fun e mem => if_neg ?_
  rintro rfl
  exact absent (linked.entry e.1 e.2 (AList.mem_lookup_iff.mpr mem))

theorem Linked.addEntry (absent : n ∉ table) :
    Linked (table.insert n next) (heap.insert next { numFd := 1, object, cloexec }) (next + 1) := by
  have unpointed := linked.pointing_absent linked.next_absent
  refine ⟨fun k b found => ?_, fun b e found => ?_, fun b mem => ?_⟩
  · rcases lookup_insert_some.mp found with ⟨-, rfl⟩ | ⟨-, found⟩
    · exact (AList.mem_insert _).mpr (.inl rfl)
    · exact (AList.mem_insert _).mpr (.inr (linked.entry k b found))
  · rw [pointing_insert absent]
    rcases lookup_insert_some.mp found with ⟨rfl, rfl⟩ | ⟨ne, found⟩
    · rw [unpointed, if_pos rfl]
      exact ⟨rfl, Nat.one_pos⟩
    · rw [if_neg (Ne.symm ne)]
      exact linked.counted b e found
  · rcases (AList.mem_insert _).mp mem with rfl | mem
    · exact Nat.lt_succ_self _
    · exact Nat.lt_succ_of_lt (linked.fresh b mem)

theorem Linked.dropShared (points : table.lookup n = some a) (found : heap.lookup a = some e) (shared : 1 < e.numFd) :
    Linked (table.erase n) (heap.insert a { e with numFd := e.numFd - 1 }) next := by
  obtain ⟨numFd, pos⟩ := linked.counted a e found
  refine ⟨fun k b found' => ?_, fun b e' found' => ?_, fun b mem => ?_⟩
  · exact (AList.mem_insert _).mpr (.inr (linked.entry k b (lookup_erase_some.mp found').2))
  · have erased := pointing_erase (a := b) points
    rcases lookup_insert_some.mp found' with ⟨rfl, rfl⟩ | ⟨ne, found'⟩
    · rw [if_pos rfl] at erased
      simp only
      omega
    · rw [if_neg (Ne.symm ne)] at erased
      rw [show pointing (table.erase n) b = pointing table b from erased]
      exact linked.counted b e' found'
  · rcases (AList.mem_insert _).mp mem with rfl | mem
    · exact linked.fresh b (mem_of_lookup found)
    · exact linked.fresh b mem

theorem Linked.flatten (points : table.lookup n = some a) (found : heap.lookup a = some e) (shared : 1 < e.numFd) :
    Linked (table.insert n next) ((heap.insert a { e with numFd := e.numFd - 1 }).insert next { numFd := 1, object, cloexec })
      (next + 1) := by
  have dropped := linked.dropShared points found shared
  have added : Linked ((table.erase n).insert n next) ((heap.insert a { e with numFd := e.numFd - 1 }).insert next { numFd := 1, object, cloexec }) (next + 1) :=
    dropped.addEntry (by simp [AList.mem_erase])
  -- erasing before inserting makes no difference
  refine ⟨fun k b found' => added.entry k b ?_, fun b e' found' => ?_, added.fresh⟩
  · rcases lookup_insert_some.mp found' with same | ⟨ne, found'⟩
    · exact lookup_insert_some.mpr (.inl same)
    · exact lookup_insert_some.mpr (.inr ⟨ne, lookup_erase_some.mpr ⟨ne, found'⟩⟩)
  · have counted := added.counted b e' found'
    rw [pointing_insert (by simp [AList.mem_erase])] at counted
    have erased := pointing_erase (a := b) points
    have replaced := pointing_replace (a := b) points (c := next)
    omega

end
end Process
end Faux
