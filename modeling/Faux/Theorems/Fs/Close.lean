import Faux.Theorems.Fs.Requests

/-! Closing a descriptor, and the theorem about open-but-removed objects. -/

namespace Faux
open Lib
namespace Server

variable {s t u : Server} {env : Env} {app : AppId} {id : FileId} {fd : Fd} {d : FileDescriptor} {cfg : Config}
variable {offset size : Option Nat}

structure Closed (fd : Fd) (s t : Server) : Prop where
  inv : Inv t
  id : t.id = s.id
  start : t.bufferCache.start = s.bufferCache.start
  others : ∀ fd', fd' ≠ fd → t.fds.lookup fd' = s.fds.lookup fd'
  self : ∀ d, s.fds.lookup fd = some d → 1 < d.count →
    ∃ d', t.fds.lookup fd = some d' ∧ d'.id = d.id ∧ d'.count + 1 = d.count
  orphans : ∀ id, s.Orphan id → t.Orphan id ∨ ¬t.Present id
  files : ∀ id v, t.Live id → s.files.lookup id = some v → ∃ w, t.files.lookup id = some w ∧ v.Le w
  held : t.held.Subperm s.held

theorem Closed.grows (closed : Closed fd s t) (grows : Grows [] t u) : Closed fd s u := by
  have later : Later t u := later_grows closed.inv grows (by simp)
  refine ⟨later.inv, later.id.trans closed.id, later.start.trans closed.start, ?_, ?_, ?_, ?_, later.held.trans closed.held⟩
  · rw [grows.fds]
    exact closed.others
  · rw [grows.fds]
    exact closed.self
  · intro x orphan
    refine (closed.orphans x orphan).imp (later.orphans x) fun absent present => absent ?_
    rcases present with mem | mem
    · rcases grows.new x mem with mem | mem
      · exact .inl mem
      · cases mem
    · rw [grows.pipes] at mem
      exact .inr mem
  · intro x v live found
    have live' : t.Live x := by rwa [Live, grows.fds] at live
    obtain ⟨w, found', le⟩ := closed.files x v live' found
    obtain ⟨w', found'', le'⟩ := grows.old x w found'
    exact ⟨w', found'', le.trans le'⟩

theorem closed_shared {n : Nat} (inv : Inv s) (found : s.fds.lookup fd = some d) (more : 1 < d.count) :
    Closed fd s { s with fds := s.fds.insert fd { d with count := d.count - 1, offset := n } } := by
  have small := (inv.counted fd d found).2
  refine ⟨inv_insertFd inv ?_ ⟨by simp; omega, by simp; omega⟩ (inv.present fd d found), rfl, rfl,
    fun fd' ne => AList.lookup_insert_ne ne, ?_, fun _ orphan => .inl orphan, fun _ v _ found => ⟨v, found, .refl v⟩,
    .refl _⟩
  · grind
  · intro d' found' _
    obtain rfl : d = d' := Option.some.inj (found.symm.trans found')
    refine ⟨_, AList.lookup_insert _, rfl, ?_⟩
    simp only
    omega

/-! ### The last reference -/

theorem not_more_of_last (found : s.fds.lookup fd = some d) (last : d.count = 1) (d' : FileDescriptor)
    (found' : s.fds.lookup fd = some d') : ¬1 < d'.count := by
  obtain rfl : d = d' := Option.some.inj (found.symm.trans found')
  omega

section
variable (inv : Inv s) (found : s.fds.lookup fd = some d) (last : d.count = 1)
include inv found last

theorem closed_erase (kept : s.Orphan d.id → d.id ∉ s.files) : Closed fd s { s with fds := s.fds.erase fd } := by
  refine ⟨⟨?_, ?_, inv.apart, ?_⟩, rfl, rfl, fun fd' ne => AList.lookup_erase_ne ne, ?_, fun _ orphan => .inl orphan,
    fun _ v _ found => ⟨v, found, .refl v⟩, .refl _⟩
  · intro fd' d' found'
    exact inv.counted fd' d' (lookup_erase_some.mp found').2
  · intro fd' d' found'
    exact inv.present fd' d' (lookup_erase_some.mp found').2
  · intro x orphan mem
    obtain ⟨fd', d', found', eq⟩ := inv.orphaned x orphan mem
    have ne : fd' ≠ fd := by
      rintro rfl
      obtain rfl : d = d' := Option.some.inj (found.symm.trans found')
      exact kept (eq ▸ orphan) (eq ▸ mem)
    exact ⟨fd', d', (AList.lookup_erase_ne ne).trans found', eq⟩
  · exact fun d' found' more => absurd more (not_more_of_last found last d' found')

theorem closed_pipe {p p' : Pipe} (noFile : s.files.lookup d.id = none) (foundP : s.pipes.lookup d.id = some p)
    (reads : ∀ fd', fd' ≠ fd → p.readFd = fd' → p'.readFd = fd') (writes : ∀ fd', fd' ≠ fd → p.writeFd = fd' → p'.writeFd = fd') :
    Closed fd s { s with pipes := if p'.readFd = 0 ∧ p'.writeFd = 0 then s.pipes.erase d.id else s.pipes.insert d.id p',
                         fds := s.fds.erase fd } := by
  have sub : ∀ x, x ∈ (if p'.readFd = 0 ∧ p'.writeFd = 0 then s.pipes.erase d.id else s.pipes.insert d.id p') → x ∈ s.pipes := by
    intro x mem
    split_ifs at mem
    · exact (AList.mem_erase.mp mem).2
    · rcases (AList.mem_insert _).mp mem with rfl | mem
      · exact mem_of_lookup foundP
      · exact mem
  have erased := closed_erase inv found last fun _ => AList.lookup_eq_none.mp noFile
  refine { erased with
    inv := ⟨erased.inv.counted, fun fd' d' found' => ?_, fun x mem => inv.apart x (sub x mem), erased.inv.orphaned⟩
    orphans := fun _ orphan => .inl orphan }
  obtain ⟨ne, found'⟩ := lookup_erase_some.mp found'
  rcases inv.present fd' d' found' with file | ⟨q, foundQ, nonzero, ends⟩
  · exact .inl file
  · right
    by_cases same : d'.id = d.id
    · rw [same] at foundQ ⊢
      obtain rfl : p = q := Option.some.inj (foundP.symm.trans foundQ)
      have ends' : p'.readFd = fd' ∨ p'.writeFd = fd' := ends.imp (reads fd' ne) (writes fd' ne)
      have left : ¬(p'.readFd = 0 ∧ p'.writeFd = 0) := by
        rintro ⟨zero, zero'⟩
        rcases ends' with eq | eq
        · exact nonzero (eq.symm.trans zero)
        · exact nonzero (eq.symm.trans zero')
      simp only [if_neg left]
      exact ⟨p', AList.lookup_insert _, nonzero, ends'⟩
    · refine ⟨q, ?_, nonzero, ends⟩
      show AList.lookup d'.id (if _ then _ else _) = _
      split_ifs
      · exact (AList.lookup_erase_ne same).trans foundQ
      · exact (AList.lookup_insert_ne same).trans foundQ

theorem closed_orphan (mem : d.id ∈ s.files) (only : ∀ fd' d', s.fds.lookup fd' = some d' → d'.id = d.id → fd' = fd)
    (deleted : Server.delete { s with orphans := s.orphans.eraseP (·.id = d.id) } d.id = u) :
    Closed fd s { u with fds := u.fds.erase fd } := by
  have heldU : u.held.Subperm s.held := deleted ▸ delete_held.subperm
  obtain ⟨fds, pipes, orphans, files, ids, start⟩ : u.fds = s.fds ∧ u.pipes = s.pipes ∧
      u.orphans = s.orphans.eraseP (·.id = d.id) ∧ u.files = s.files.erase d.id ∧ u.id = s.id ∧
      u.bufferCache.start = s.bufferCache.start := deleted ▸ delete_fields _ _
  rw [fds]
  have other : ∀ fd' d', (s.fds.erase fd).lookup fd' = some d' → s.fds.lookup fd' = some d' ∧ d'.id ≠ d.id := by
    intro fd' d' found'
    obtain ⟨ne, found'⟩ := lookup_erase_some.mp found'
    exact ⟨found', fun same => ne (only fd' d' found' same)⟩
  have lookup : ∀ x, x ≠ d.id → u.files.lookup x = s.files.lookup x := fun x ne => by
    rw [files]
    exact AList.lookup_erase_ne ne
  refine ⟨⟨?_, ?_, ?_, ?_⟩, ids, start, fun fd' ne => AList.lookup_erase_ne ne, ?_, ?_, ?_, ?_⟩
  · intro fd' d' found'
    exact inv.counted fd' d' (other fd' d' found').1
  · intro fd' d' found'
    obtain ⟨found', ne⟩ := other fd' d' found'
    rcases inv.present fd' d' found' with ⟨v, foundV, notLink⟩ | pipe
    · exact .inl ⟨v, (lookup _ ne).trans foundV, notLink⟩
    · refine .inr ?_
      rwa [pipes]
  · intro x memX
    rw [pipes] at memX
    obtain ⟨noFile, noOrphan⟩ := inv.apart x memX
    rw [files]
    refine ⟨fun memF => noFile (AList.mem_erase.mp memF).2, ?_⟩
    rintro ⟨o, memO, rfl⟩
    rw [orphans] at memO
    exact noOrphan ⟨o, List.mem_of_mem_eraseP memO, rfl⟩
  · rintro x ⟨o, memO, rfl⟩ memX
    rw [orphans] at memO
    rw [files] at memX
    obtain ⟨ne, memX⟩ := AList.mem_erase.mp memX
    obtain ⟨fd', d', found', eq⟩ := inv.orphaned o.id ⟨o, List.mem_of_mem_eraseP memO, rfl⟩ memX
    have ne' : fd' ≠ fd := by grind
    exact ⟨fd', d', (AList.lookup_erase_ne ne').trans found', eq⟩
  · exact fun d' found' more => absurd more (not_more_of_last found last d' found')
  · rintro x ⟨o, memO, rfl⟩
    by_cases same : o.id = d.id
    · refine .inr ?_
      rintro (memX | memX)
      · rw [files, same] at memX
        exact (AList.mem_erase.mp memX).1 rfl
      · rw [pipes, same] at memX
        exact (inv.apart d.id memX).1 mem
    · refine .inl ⟨o, ?_, rfl⟩
      rw [orphans]
      exact (List.mem_eraseP_of_neg (by simpa using same)).mpr memO
  · rintro x v ⟨fd', d', found', rfl⟩ foundV
    exact ⟨v, (lookup _ (other fd' d' found').2).trans foundV, .refl v⟩
  · exact heldU

theorem closeLast_closed
    (only : s.Orphan d.id → ∀ fd' d', s.fds.lookup fd' = some d' → d'.id = d.id → fd' = fd)
    (done : s.closeLast fd d.id size = .ok t) : Closed fd s t := by
  simp only [closeLast, bind_eq_ok] at done
  obtain ⟨s', closed, done⟩ := done
  cases done
  rcases closeFile_inv closed with ⟨noFile, closed⟩ | ⟨v, foundV, ⟨o, isOrphan, rfl⟩ | ⟨noOrphan, closed⟩⟩
  · obtain ⟨p, q, foundP, reads, writes, rfl⟩ := closePipe_inv closed
    refine closed_pipe inv found last noFile foundP ?_ ?_
    · intro fd' ne eq
      rw [reads, eq, if_neg ne]
    · intro fd' ne eq
      rw [writes, eq, if_neg ne]
  · have orphan : s.Orphan d.id := ⟨o, List.mem_of_find?_eq_some isOrphan, by simpa using List.find?_some isOrphan⟩
    exact closed_orphan inv found last (mem_of_lookup foundV) (only orphan) rfl
  · have kept : ¬s.Orphan d.id := by
      rintro ⟨o, memO, same⟩
      exact absurd same (by simpa using List.find?_eq_none.mp noOrphan o memO)
    have erased := closed_erase inv found last fun orphan => absurd orphan kept
    rcases closed with ⟨-, rfl⟩ | ⟨n, -, set⟩
    · exact erased
    · refine erased.grows ?_
      have grows := setFileSize_grows set
      exact { grows with fds := by rw [grows.fds] }

end

theorem close_closed (inv : Inv s) (guard : Guard s ⟨env, app, .close fd offset size⟩)
    (done : s.close fd offset size = .ok t) : Closed fd s t := by
  unfold close at done
  split at done
  · cases done
  · next d found =>
    obtain ⟨pos, small⟩ := inv.counted fd d found
    simp only [sizeSub_one pos small] at done
    rw [countInt_of_lt (by simp only; omega)] at done
    split_ifs at done with negative last
    · have one : d.count = 1 := by simp only at last; omega
      exact closeLast_closed inv found one (guard.close fd offset size d rfl found one) done
    · have more : 1 < d.count := by simp only at last; omega
      have shared := closed_shared (n := offset.getD d.offset) inv found more
      simp only [closeShared] at done
      split at done
      · exact shared.grows (setFileSize_grows done)
      · cases done
        exact shared

end Server
end Faux
