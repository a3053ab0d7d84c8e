import Faux.Fs.Descriptors
import Faux.Theorems.Fs.Frame

/-! Descriptors keep what they refer to. `Inv` is the invariant of a server in which no defect has been run
    into; `Later` says what a request other than a close does to it, and `Closed` what a close does. -/

namespace Faux
open Lib
namespace Server

variable {s t u : Server} {env : Env} {app : AppId} {id : FileId} {fd : Fd} {d : FileDescriptor} {v w : VFile}
variable {new : List FileId} {cfg : Config}

def Refers (s : Server) (fd : Fd) (id : FileId) : Prop :=
  (∃ v, s.files.lookup id = some v ∧ ∀ dest, v ≠ .symlink dest) ∨
    ∃ p, s.pipes.lookup id = some p ∧ fd ≠ 0 ∧ (p.readFd = fd ∨ p.writeFd = fd)

structure Inv (s : Server) : Prop where
  counted : ∀ fd d, s.fds.lookup fd = some d → 1 ≤ d.count ∧ d.count < 2147483648
  present : ∀ fd d, s.fds.lookup fd = some d → s.Refers fd d.id
  apart : ∀ id ∈ s.pipes, id ∉ s.files ∧ ¬s.Orphan id
  orphaned : ∀ id, s.Orphan id → id ∈ s.files → s.Live id

theorem inv_of_fresh (fresh : Fresh s) : Inv s where
  counted fd d found := by simp [fresh.fds] at found
  present fd d found := by simp [fresh.fds] at found
  apart id mem := by simp [fresh.pipes] at mem
  orphaned id orphan := by simp [Orphan, fresh.orphans] at orphan

theorem Refers.present (refers : s.Refers fd id) : s.Present id := by
  rcases refers with ⟨v, found, -⟩ | ⟨p, found, -⟩
  · exact .inl (mem_of_lookup found)
  · exact .inr (mem_of_lookup found)

theorem Inv.live_present (inv : Inv s) (live : s.Live id) : s.Present id := by
  obtain ⟨fd, d, found, rfl⟩ := live
  exact (inv.present fd d found).present

theorem Inv.orphan_present_iff (inv : Inv s) (orphan : s.Orphan id) : s.Present id ↔ s.Live id := by
  refine ⟨?_, inv.live_present⟩
  rintro (mem | mem)
  · exact inv.orphaned id orphan mem
  · exact absurd orphan (inv.apart id mem).2

theorem countInt_of_lt (small : d.count < 2147483648) : d.countInt = d.count := by
  simp only [FileDescriptor.countInt, toInt32]
  rw [Nat.mod_eq_of_lt (by omega), if_pos small]
  omega

theorem sizeSub_one {n : Nat} (pos : 1 ≤ n) (small : n < 2147483648) : sizeSub n 1 = n - 1 := by
  simp only [sizeSub, sizeMod]
  omega

theorem Inv.referenced_iff (inv : Inv s) : s.referenced id = true ↔ s.Live id := by
  simp only [referenced, List.any_eq_true, decide_eq_true_eq, Live]
  constructor
  · rintro ⟨⟨fd, d⟩, mem, same, -⟩
    exact ⟨fd, d, AList.mem_lookup_iff.mpr mem, same⟩
  · rintro ⟨fd, d, found, same⟩
    obtain ⟨pos, small⟩ := inv.counted fd d found
    refine ⟨⟨fd, d⟩, AList.mem_lookup_iff.mp found, same, ?_⟩
    rw [countInt_of_lt small]
    omega

/-! ### Requests other than a close -/

structure Later (s t : Server) : Prop where
  inv : Inv t
  id : t.id = s.id
  start : t.bufferCache.start = s.bufferCache.start
  fds : ∀ fd d, s.fds.lookup fd = some d → ∃ d', t.fds.lookup fd = some d' ∧ d'.id = d.id ∧ d.count ≤ d'.count
  orphans : ∀ id, s.Orphan id → t.Orphan id
  files : ∀ id v, s.Live id → s.files.lookup id = some v → ∃ w, t.files.lookup id = some w ∧ v.Le w
  held : t.held.Subperm s.held

theorem Later.live (later : Later s t) (live : s.Live id) : t.Live id := by
  obtain ⟨fd, d, found, same⟩ := live
  obtain ⟨d', found', same', -⟩ := later.fds fd d found
  exact ⟨fd, d', found', same'.trans same⟩

theorem Later.mem {m : Memory} (inv : Inv s) : Later s { s with mem := m } where
  inv := ⟨inv.counted, inv.present, inv.apart, inv.orphaned⟩
  id := rfl
  start := rfl
  fds _ d found := ⟨d, found, rfl, le_rfl⟩
  orphans _ orphan := orphan
  files _ v _ found := ⟨v, found, .refl v⟩
  held := .refl _

theorem Later.refl (inv : Inv s) : Later s s := .mem (m := s.mem) inv

theorem Later.trans (first : Later s t) (second : Later t u) : Later s u where
  inv := second.inv
  id := second.id.trans first.id
  start := second.start.trans first.start
  fds fd d found := by
    obtain ⟨d', found', same, le⟩ := first.fds fd d found
    obtain ⟨d'', found'', same', le'⟩ := second.fds fd d' found'
    exact ⟨d'', found'', same'.trans same, Nat.le_trans le le'⟩
  orphans id orphan := second.orphans id (first.orphans id orphan)
  files id v live found := by
    obtain ⟨v', found', le⟩ := first.files id v live found
    obtain ⟨w, found'', le'⟩ := second.files id v' (first.live live) found'
    exact ⟨w, found'', le.trans le'⟩
  held := second.held.trans first.held

theorem later_grows (inv : Inv s) (grows : Grows new s t) (fresh : ∀ x ∈ new, x ∈ s.files ∨ s.Unused x) : Later s t := by
  -- ids that were not there were unused
  have unused : ∀ x ∈ t.files, x ∈ s.files ∨ s.Unused x := fun x mem => by
    rcases grows.new x mem with mem | mem
    · exact .inl mem
    · exact fresh x mem
  have orphan_iff : ∀ x, t.Orphan x ↔ s.Orphan x := fun x => by simp only [Orphan, grows.orphans]
  have live_iff : ∀ x, t.Live x ↔ s.Live x := fun x => by simp only [Live, grows.fds]
  refine ⟨⟨?_, ?_, ?_, ?_⟩, grows.id, grows.start, ?_, fun x => (orphan_iff x).mpr, fun x v _ => grows.old x v, grows.held⟩
  · rw [grows.fds]
    exact inv.counted
  · intro fd d found
    rcases inv.present fd d (grows.fds ▸ found) with ⟨v, foundV, notLink⟩ | pipe
    · obtain ⟨w, foundW, le⟩ := grows.old _ v foundV
      exact .inl ⟨w, foundW, le.not_link notLink⟩
    · exact .inr (by rwa [grows.pipes])
  · intro x mem
    rw [grows.pipes] at mem
    rw [orphan_iff]
    refine ⟨fun mem' => ?_, (inv.apart x mem).2⟩
    rcases unused x mem' with mem' | free
    · exact (inv.apart x mem).1 mem'
    · exact free.1 (.inr mem)
  · intro x orphan mem
    rw [orphan_iff] at orphan
    rw [live_iff]
    rcases unused x mem with mem | free
    · exact inv.orphaned x orphan mem
    · exact absurd orphan free.2
  · intro fd d found
    exact ⟨d, by rwa [grows.fds], rfl, le_rfl⟩

theorem inv_insertFd (inv : Inv s) (same : ∀ d', s.fds.lookup fd = some d' → d.id = d'.id)
    (counted : 1 ≤ d.count ∧ d.count < 2147483648) (refers : s.Refers fd d.id) :
    Inv { s with fds := s.fds.insert fd d } := by
  refine ⟨?_, ?_, inv.apart, ?_⟩
  · intro fd' d' found
    rcases lookup_insert_some.mp found with ⟨-, rfl⟩ | ⟨-, found⟩
    · exact counted
    · exact inv.counted fd' d' found
  · intro fd' d' found
    rcases lookup_insert_some.mp found with ⟨rfl, rfl⟩ | ⟨-, found⟩
    · exact refers
    · exact inv.present fd' d' found
  · intro x orphan mem
    obtain ⟨fd', d', found, eq⟩ := inv.orphaned x orphan mem
    by_cases self : fd' = fd
    · subst self
      exact ⟨fd', d, AList.lookup_insert _, (same d' found).trans eq⟩
    · exact ⟨fd', d', (AList.lookup_insert_ne self).trans found, eq⟩

theorem later_insertFd (inv : Inv s) (same : ∀ d', s.fds.lookup fd = some d' → d.id = d'.id ∧ d'.count ≤ d.count)
    (counted : 1 ≤ d.count ∧ d.count < 2147483648) (refers : s.Refers fd d.id) :
    Later s { s with fds := s.fds.insert fd d } := by
  refine ⟨inv_insertFd inv (fun d' found => (same d' found).1) counted refers, rfl, rfl, ?_, fun _ orphan => orphan,
    fun _ v _ found => ⟨v, found, .refl v⟩, .refl _⟩
  intro fd' d' found
  by_cases eq : fd' = fd
  · subst eq
    exact ⟨d, AList.lookup_insert _, same d' found⟩
  · exact ⟨d', (AList.lookup_insert_ne eq).trans found, rfl, le_rfl⟩

theorem later_addFd {offset : Nat} (inv : Inv s) (absent : fd ∉ s.fds) (refers : s.Refers fd id) :
    Later s (s.addFd fd id offset) := by
  refine later_insertFd inv (fun d' found => absurd (mem_of_lookup found) absent) ⟨le_rfl, ?_⟩ refers
  simp

theorem later_setFd {d' : FileDescriptor} (inv : Inv s) (found : s.fds.lookup fd = some d) (same : d'.id = d.id)
    (le : d.count ≤ d'.count) (small : d'.count < 2147483648) : Later s { s with fds := s.fds.insert fd d' } := by
  refine later_insertFd inv (fun d'' found' => ?_) ⟨Nat.le_trans (inv.counted fd d found).1 le, small⟩ ?_
  · grind
  · rw [same]
    exact inv.present fd d found

theorem later_setPipe {p p' : Pipe} (inv : Inv s) (found : s.pipes.lookup id = some p) (reads : p'.readFd = p.readFd)
    (writes : p'.writeFd = p.writeFd) : Later s { s with pipes := s.pipes.insert id p' } := by
  refine ⟨⟨inv.counted, ?_, ?_, inv.orphaned⟩, rfl, rfl, fun fd d found => ⟨d, found, rfl, le_rfl⟩,
    fun _ orphan => orphan, fun _ v _ found => ⟨v, found, .refl v⟩, .refl _⟩
  · intro fd d foundD
    rcases inv.present fd d foundD with file | ⟨q, foundQ, nonzero, ends⟩
    · exact .inl file
    · by_cases same : d.id = id
      · rw [same] at foundQ ⊢
        obtain rfl : p = q := Option.some.inj (found.symm.trans foundQ)
        exact .inr ⟨p', AList.lookup_insert _, nonzero, by rwa [reads, writes]⟩
      · exact .inr ⟨q, (AList.lookup_insert_ne same).trans foundQ, nonzero, ends⟩
  · intro x mem
    rcases (AList.mem_insert _).mp mem with rfl | mem
    · exact inv.apart x (mem_of_lookup found)
    · exact inv.apart x mem

/-! ### Removing an inode -/

theorem delete_fields (s : Server) (id : FileId) : (s.delete id).fds = s.fds ∧ (s.delete id).pipes = s.pipes ∧ (s.delete id).orphans = s.orphans ∧
    (s.delete id).files = s.files.erase id ∧ (s.delete id).id = s.id ∧
    (s.delete id).bufferCache.start = s.bufferCache.start := by
  unfold delete
  split <;> exact ⟨rfl, rfl, rfl, rfl, rfl, rfl⟩

theorem delete_held : (s.delete id).held.Perm s.held := by
  unfold delete
  split
  · next f found =>
    simp only [held, File.release, BufferCache.put]
    refine List.Perm.trans ?_ ((fileBlocks_erase found).append_left _)
    simp only [VFile.blocks, File.all, List.append_assoc]
    refine (List.perm_append_comm_assoc _ _ _).trans (((List.perm_append_comm_assoc _ _ _).append_left _).trans ?_)
    exact (List.perm_append_comm_assoc _ _ _).trans ((List.Perm.refl _).append_left _)
  · next other =>
    refine List.Perm.append_left _ ?_
    cases found : s.files.lookup id with
    | none => rw [fileBlocks_erase_of_not_mem (AList.lookup_eq_none.mp found)]
    | some v =>
      have blocks := fileBlocks_erase found
      cases v with
      | file f => exact absurd found (other f)
      | _ => exact blocks

theorem later_delete (inv : Inv s) (dead : ¬s.Live id) : Later s (s.delete id) := by
  obtain ⟨fds, pipes, orphans, files, ids, start⟩ := delete_fields s id
  have live_iff : ∀ x, (s.delete id).Live x ↔ s.Live x := fun x => by simp only [Live, fds]
  have orphan_iff : ∀ x, (s.delete id).Orphan x ↔ s.Orphan x := fun x => by simp only [Orphan, orphans]
  have lookup : ∀ x v, s.Live x → s.files.lookup x = some v → (s.delete id).files.lookup x = some v := by
    intro x v live found
    have ne : x ≠ id := fun same => dead (same ▸ live)
    rw [files, AList.lookup_erase_ne ne]
    exact found
  refine ⟨⟨?_, ?_, ?_, ?_⟩, ids, start, ?_, fun x => (orphan_iff x).mpr, ?_, delete_held.subperm⟩
  · rw [fds]
    exact inv.counted
  · intro fd d found
    rw [fds] at found
    rcases inv.present fd d found with ⟨v, foundV, notLink⟩ | pipe
    · exact .inl ⟨v, lookup _ v ⟨fd, d, found, rfl⟩ foundV, notLink⟩
    · exact .inr (by rwa [pipes])
  · intro x mem
    rw [pipes] at mem
    rw [orphan_iff, files]
    exact ⟨fun mem' => (inv.apart x mem).1 (AList.mem_erase.mp mem').2, (inv.apart x mem).2⟩
  · intro x orphan mem
    rw [files] at mem
    rw [live_iff]
    exact inv.orphaned x ((orphan_iff x).mp orphan) (AList.mem_erase.mp mem).2
  · intro fd d found
    exact ⟨d, by rwa [fds], rfl, le_rfl⟩
  · intro x v live found
    exact ⟨v, lookup x v live found, .refl v⟩

theorem later_removeInode {type : FileType} (inv : Inv s) (mem : id ∈ s.files) : Later s (s.removeInode id type) := by
  unfold removeInode
  split_ifs with referenced
  · have live : s.Live id := inv.referenced_iff.mp referenced
    refine ⟨⟨inv.counted, inv.present, ?_, ?_⟩, rfl, rfl, fun fd d found => ⟨d, found, rfl, le_rfl⟩, ?_,
      fun _ v _ found => ⟨v, found, .refl v⟩, .refl _⟩
    · intro x memX
      refine ⟨(inv.apart x memX).1, ?_⟩
      rintro ⟨o, memO, rfl⟩
      rcases List.mem_cons.mp memO with rfl | memO
      · exact (inv.apart id memX).1 mem
      · exact (inv.apart o.id memX).2 ⟨o, memO, rfl⟩
    · rintro x ⟨o, memO, rfl⟩ memX
      rcases List.mem_cons.mp memO with rfl | memO
      · exact live
      · exact inv.orphaned o.id ⟨o, memO, rfl⟩ memX
    · rintro x ⟨o, memO, rfl⟩
      exact ⟨o, List.mem_cons_of_mem _ memO, rfl⟩
  · exact later_delete inv fun live => referenced (inv.referenced_iff.mpr live)

theorem removeInode_present_iff {type : FileType} (inv : Inv s) (mem : id ∈ s.files) :
    (s.removeInode id type).Present id ↔ (s.removeInode id type).Live id := by
  have later : Later s (s.removeInode id type) := later_removeInode inv mem
  refine ⟨fun present => ?_, later.inv.live_present⟩
  unfold removeInode at present later ⊢
  split_ifs at present later ⊢ with referenced
  · exact inv.referenced_iff.mp referenced
  · obtain ⟨-, pipes, -, files, -⟩ := delete_fields s id
    rcases present with mem' | mem'
    · rw [files] at mem'
      exact absurd rfl (AList.mem_erase.mp mem').1
    · rw [pipes] at mem'
      exact absurd mem (inv.apart id mem').1

end Server
end Faux
