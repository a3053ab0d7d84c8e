import Faux.Theorems.Fs.Close

/-! Open-but-removed objects survive until the last close, as long as an orphan is closed for the last time
    when no other descriptor refers to it. -/

namespace Faux
open Lib
namespace Server

variable {s t : Server} {env : Env} {app : AppId} {id : FileId} {fd : Fd} {d : FileDescriptor} {cfg : Config}
variable {a : Act}

theorem step_later (inv : Inv s) (guard : Guard s a) (notClose : ∀ fd offset size, a.req ≠ .close fd offset size)
    (stepped : s.step cfg a = some t) : Later s t := by
  unfold step at stepped
  split at stepped
  · next handled =>
    cases stepped
    exact handle_later inv guard notClose handled
  · cases stepped

theorem step_closed {offset size : Option Nat} (inv : Inv s) (guard : Guard s ⟨env, app, .close fd offset size⟩)
    (stepped : s.step cfg ⟨env, app, .close fd offset size⟩ = some t) : Closed fd s t := by
  unfold step at stepped
  split at stepped
  · next handled =>
    cases stepped
    exact close_closed inv guard (handle_close_inv handled)
  · cases stepped

theorem inv_step (inv : Inv s) (guard : Guard s a) (stepped : s.step cfg a = some t) : Inv t := by
  obtain ⟨env, app, q⟩ := a
  by_cases isClose : ∃ fd offset size, q = .close fd offset size
  · obtain ⟨fd, offset, size, rfl⟩ := isClose
    exact (step_closed inv guard stepped).inv
  · exact (step_later inv guard (fun fd offset size eq => isClose ⟨fd, offset, size, eq⟩) stepped).inv

theorem orphan_step (inv : Inv s) (guard : Guard s a) (stepped : s.step cfg a = some t) (orphan : s.Orphan id) :
    t.Orphan id ∨ ¬t.Present id := by
  obtain ⟨env, app, q⟩ := a
  by_cases isClose : ∃ fd offset size, q = .close fd offset size
  · obtain ⟨fd, offset, size, rfl⟩ := isClose
    exact (step_closed inv guard stepped).orphans id orphan
  · exact .inl ((step_later inv guard (fun fd offset size eq => isClose ⟨fd, offset, size, eq⟩) stepped).orphans id orphan)

theorem inv_of_reach (reach : Reach Fresh Guard (step cfg) s) : Inv s :=
  reach.invariant (fun _ => inv_of_fresh) fun _ _ _ inv guard stepped => inv_step inv guard stepped

/-! ### Assertions -/

theorem close_asserts {offset size : Option Nat} (inv : Inv s) (found : s.fds.lookup fd = some d) :
    s.close fd offset size ≠ .error .assertion := by
  have setSize : ∀ (u : Server) id n, u.setFileSize id n ≠ .error .assertion := fun u id n => by
    unfold setFileSize
    split <;> simp
  have closeFile : s.closeFile fd d.id size ≠ .error .assertion := by
    unfold Server.closeFile
    split
    · next noFile =>
      rcases inv.present fd d found with ⟨v, file, -⟩ | ⟨p, pipe, -⟩
      · rw [noFile] at file
        cases file
      · simp [closePipe, pipe]
    · split
      · simp
      · split
        · exact setSize _ _ _
        · simp
  obtain ⟨pos, small⟩ := inv.counted fd d found
  unfold close
  simp only [found, sizeSub_one pos small]
  rw [countInt_of_lt (by simp only; omega)]
  split_ifs with negative last
  · simp only at negative
    omega
  · grind [closeLast, bind_eq_error]
  · simp only [closeShared]
    split
    · exact setSize _ _ _
    · simp

theorem readLoop_asserts {m : Memory} {blocks : List Nat} :
    ∀ fuel offset count, File.readLoop m blocks fuel offset count ≠ .error .assertion
  | 0, _, _ => by simp [File.readLoop]
  | fuel + 1, offset, count => by
    unfold File.readLoop
    split
    · simp
    · simp only
      split
      · simp
      · simp only [ne_eq, bind_eq_error, not_or, not_exists, not_and]
        exact ⟨readLoop_asserts fuel _ _, fun _ _ => by simp⟩

theorem read_asserts {count : Nat} (inv : Inv s) (found : s.fds.lookup fd = some d)
    (notDir : ∀ dir, s.files.lookup d.id ≠ some (.dir dir)) : s.read fd count ≠ .error .assertion := by
  have readInode : s.readInode d.id d.offset count ≠ .error .assertion := by
    unfold Server.readInode
    split
    · simp only [ne_eq, bind_eq_error, not_or, not_exists, not_and]
      refine ⟨?_, fun _ _ => by simp⟩
      unfold File.read
      split
      · exact readLoop_asserts _ _ _
      · simp
    · next v notFile file =>
      rcases inv.present fd d found with ⟨w, file', notLink⟩ | ⟨p, pipe, -⟩
      · obtain rfl : v = w := Option.some.inj (file.symm.trans file')
        cases v with
        | file f => exact absurd rfl (notFile f)
        | dir dir => exact absurd file (notDir dir)
        | symlink dest => exact absurd rfl (notLink dest)
      · exact absurd (mem_of_lookup file) (inv.apart _ (mem_of_lookup pipe)).1
    · split <;> simp
  unfold Server.read
  simp only [found, ne_eq, bind_eq_error, not_or, not_exists, not_and]
  exact ⟨readInode, fun _ _ => by simp⟩

/-! ### Removal -/

theorem present_iff_of_grows (grows : Grows [] s t) : t.Present id ↔ s.Present id := by
  rw [Present, Present, grows.pipes]
  refine or_congr_left ⟨fun mem => ?_, grows.mem⟩
  rcases grows.new id mem with mem | mem
  · exact mem
  · cases mem

theorem destroy_present_iff (inv : Inv s) (dead : ∀ dir, s.files.lookup id = some (.dir dir) → ¬s.Live id)
    (done : s.destroy id = (t, .ok)) : t.Present id ↔ t.Live id := by
  unfold destroy at done
  split at done
  · cases done
  · next dir found =>
    cases done
    have notLive := dead dir found
    have removed : s.removeInode id .dir = s.delete id := by
      simp only [removeInode, ite_eq_right_iff]
      exact fun referenced => absurd (inv.referenced_iff.mp referenced) notLive
    rw [← removed]
    exact removeInode_present_iff inv (mem_of_lookup found)
  · next found =>
    cases done
    exact removeInode_present_iff inv (mem_of_lookup found)

theorem unlink_present_iff (inv : Inv s) (done : s.unlink id = .ok (t, .ok)) : t.Present id ↔ t.Live id := by
  obtain ⟨destroyed, noDir⟩ := unlink_inv done
  exact destroy_present_iff inv (fun d found => absurd found (noDir d)) destroyed

theorem handleUnlink_present_iff {entry : Option (FileId × Name)} {ns : List Notify} (inv : Inv s)
    (done : s.handleUnlink app id entry = .ok (t, .ok, ns)) : t.Present id ↔ t.Live id := by
  rcases handleUnlink_inv done with ⟨parent, path, u, st', -, removal, ⟨-, unlinked⟩ | ⟨notOk, -, ok⟩⟩ | ⟨-, unlinked, -⟩
  · have removed : Later s u := later_grows inv (removemap_grows removal) (by simp)
    exact unlink_present_iff removed.inv unlinked
  · exact absurd ok.symm notOk
  · exact unlink_present_iff inv unlinked

theorem rmdir_present_iff {phase : RmdirPhase} (inv : Inv s) (lazy : id ∉ s.files → s.Unused id)
    (removes : phase = .force ∨ phase = .success) (done : s.rmdir id phase = .ok (t, .ok)) :
    t.Present id ↔ t.Live id := by
  have start : Later s (s.lazyDir id) := later_grows inv grows_lazyDir fun x mem => by
    rw [List.mem_singleton.mp mem]
    exact or_iff_not_imp_left.mpr lazy
  rcases rmdir_inv done with ⟨-, notOk⟩ | ⟨dir, found, -, -, ⟨rfl, -, -⟩ | ⟨rfl, -, -⟩ | ⟨-, -, rfl⟩ | ⟨-, rfl⟩⟩
  · exact absurd rfl notOk
  · simp at removes
  · simp at removes
  · have set : Later (s.lazyDir id) { s.lazyDir id with
        files := (s.lazyDir id).files.insert id (.dir { dir with locked := false }) } :=
      later_grows start.inv (grows_setDir found) (by simp)
    exact removeInode_present_iff set.inv ((AList.mem_insert _).mpr (.inl rfl))
  · exact removeInode_present_iff start.inv (mem_of_lookup found)

theorem handleRmdirAndMap_present_iff {parent : FileId} {path : Name} {ns : List Notify} (inv : Inv s)
    (lazy : id ∉ s.files → s.Unused id) (done : s.handleRmdirAndMap app id parent path = .ok (t, .ok, ns)) :
    t.Present id ↔ t.Live id := by
  obtain ⟨u, st', removed, ⟨rfl, unmapped⟩ | ⟨notOk, -, ok, -⟩⟩ := handleRmdirAndMap_inv done
  · have grows : Grows [] u t := removemap_grows unmapped
    rw [present_iff_of_grows grows, Live, grows.fds]
    exact rmdir_present_iff inv lazy (.inl rfl) removed
  · exact absurd ok.symm notOk

theorem survives_of_inv (inv : Inv s) : Survives cfg Guard s where
  present _ live := inv.live_present live
  closes env app fd offset size live _ := by
    obtain ⟨d, found⟩ := Option.ne_none_iff_exists'.mp live
    exact close_asserts inv found
  reads env app fd count live guard := by
    obtain ⟨d, found⟩ := Option.ne_none_iff_exists'.mp live
    exact read_asserts inv found fun dir => guard.read fd count d dir rfl found
  orphans id a t orphan guard stepped := by
    have inv' := inv_step inv guard stepped
    rcases orphan_step inv guard stepped orphan with orphan' | absent
    · exact inv'.orphan_present_iff orphan'
    · exact ⟨fun present => absurd present absent, inv'.live_present⟩
  destroyed env app id t notes guard done := by
    simp only [handle, Except.ok.injEq, Prod.mk.injEq] at done
    exact destroy_present_iff inv (fun dir found => guard.destroy id dir rfl found) (Prod.ext done.1 done.2.1)
  unlinked env app id entry t notes _ done := handleUnlink_present_iff inv done
  rmdired env app id phase t notes guard removes done :=
    rmdir_present_iff inv (guard.lazy id rfl) removes (answered done)
  unmapped env app id parent path t notes guard done :=
    handleRmdirAndMap_present_iff inv (guard.lazy id rfl) done

/-- In every run whose requests meet the guard, objects survive until the last close. -/
theorem survives_of_guarded (cfg : Config) (s : Server) (reach : Reach Fresh Guard (step cfg) s) :
    Survives cfg Guard s := survives_of_inv (inv_of_reach reach)

theorem unused_of_check (checked : s.unused id = true) : s.Unused id := by
  simp only [unused, Bool.and_eq_true, decide_eq_true_eq, List.all_eq_true] at checked
  obtain ⟨⟨noFile, noPipe⟩, noOrphan⟩ := checked
  refine ⟨not_or.mpr ⟨noFile, noPipe⟩, ?_⟩
  rintro ⟨o, mem, same⟩
  exact noOrphan o mem same

theorem guard_of_check {a : Act} (checked : s.checkGuard a = true) : Guard s a := by
  obtain ⟨env, app, req⟩ := a
  simp only [checkGuard, Bool.and_eq_true, decide_eq_true_eq, List.all_eq_true, Option.all_eq_true, Bool.or_eq_true] at checked
  obtain ⟨⟨⟨⟨nodup, fresh⟩, lazy⟩, alloc⟩, kind⟩ := checked
  refine ⟨⟨nodup, fresh⟩, ?_, fun id eq absent => ?_, fun u eq => unused_of_check (alloc u eq), ?_, ?_, ?_, ?_⟩
  · rintro rfl
    simpa [checkKind] using kind
  · exact unused_of_check ((lazy id eq).resolve_left absent)
  · rintro fd d rfl found
    simpa [checkKind, found] using kind
  · rintro id dir rfl found
    simp only [checkKind, found, List.all_eq_true, decide_eq_true_eq] at kind
    rintro ⟨fd, d, isFd, same⟩
    exact kind ⟨fd, d⟩ (AList.mem_lookup_iff.mp isFd) same
  · rintro fd count d dir rfl found isDir
    simp [checkKind, found, isDir] at kind
  · rintro fd offset size d rfl found last ⟨o, mem, same⟩ fd' d' found' same'
    simp only [checkKind, found, Option.all_some, Bool.or_eq_true, decide_eq_true_eq, List.all_eq_true] at kind
    rcases kind with (more | noOrphan) | only
    · exact absurd last more
    · exact absurd same (noOrphan o mem)
    · exact (only ⟨fd', d'⟩ (AList.mem_lookup_iff.mp found')).resolve_left (not_not.mpr same')

/-! ### An orphan, and two descriptors for one orphan -/

def request (rand : Nat) (req : Request) : Act := { env := { rand, rand' := 0, stats := [] }, app := 0, req }

def booted : Server := boot 0 { start := 0, blocks := [], blocksFree := 0 } fun _ => 0

theorem fresh_booted : Fresh booted := ⟨rfl, rfl, rfl⟩

def oneServer : Config := { serverCount := 1, affinity := false, socketMap := fun _ => 0, near := fun _ => 0, destServer := 0,
                            bufferCache := false, scatterGather := true }

def createA : Act := request 1 (.createOpen { server := 0, id := 0 } "a" { creat := true } 420)
def unlinkA : Act := request 0 (.unlink 2 (some (0, "a")))

theorem guard_createA : Guard booted createA := guard_of_check (by decide +kernel)

theorem guard_unlinkA (s : Server) : Guard s unlinkA := by
  constructor <;> simp [newFds, lazyId, allocIn, unlinkA, request]

theorem survives_unlinkA : ∃ s, Reach Fresh Guard (step oneServer) s ∧ s.Orphan 2 ∧ s.Live 2 ∧ Survives oneServer Guard s := by
  have ran : (run (step oneServer) booted [createA, unlinkA]).map (fun s => (s.orphans.map (·.id), s.fds.entries.map (·.2.id))) =
      some ([2], [2]) := by decide +kernel
  obtain ⟨s, ran, seen⟩ := Option.map_eq_some_iff.mp ran
  have guarded : Guarded Guard (step oneServer) booted [createA, unlinkA] :=
    ⟨guard_createA, fun t _ => ⟨guard_unlinkA t, fun _ _ => trivial⟩⟩
  have reach : Reach Fresh Guard (step oneServer) s := Reach.of_guarded (.init fresh_booted) guarded ran
  have orphan : s.Orphan 2 := by
    obtain ⟨o, mem, eq⟩ := List.mem_map.mp ((Prod.mk.inj seen).1 ▸ List.mem_singleton.mpr rfl : (2 : FileId) ∈ s.orphans.map (·.id))
    exact ⟨o, mem, eq⟩
  have live : s.Live 2 := by
    obtain ⟨⟨fd, d⟩, mem, eq⟩ :=
      List.mem_map.mp ((Prod.mk.inj seen).2 ▸ List.mem_singleton.mpr rfl : (2 : FileId) ∈ s.fds.entries.map (·.2.id))
    exact ⟨fd, d, AList.mem_lookup_iff.mpr mem, eq⟩
  exact ⟨s, reach, orphan, live, survives_of_guarded oneServer s reach⟩

def closeFirst : List Act :=
  [createA, request 2 (.open 2 {}), unlinkA, request 0 (.close 1 none none)]

def view (s : Server) (fd : Fd) : Option (FileId × Bool × Bool × Bool) :=
  (s.fds.lookup fd).map fun d => (d.id, d.id ∈ s.files, d.id ∈ s.pipes,
    match s.close fd none none with
    | .error .assertion => true
    | _ => false)

theorem run_closeFirst : (run (step oneServer) booted closeFirst).map (fun s => s.view 2) =
    some (some (2, false, false, true)) := by decide +kernel

/-- The inode is gone while a descriptor refers to it, and closing that descriptor fails an assertion. -/
theorem exists_lost : ∃ s fd d, Reach Fresh (fun _ _ => True) (step oneServer) s ∧ s.fds.lookup fd = some d ∧
    ¬s.Present d.id ∧ s.close fd none none = .error .assertion ∧ ¬Survives oneServer (fun _ _ => True) s := by
  obtain ⟨s, ran, seen⟩ := Option.map_eq_some_iff.mp run_closeFirst
  obtain ⟨d, found, seen⟩ := Option.map_eq_some_iff.mp seen
  simp only [Prod.mk.injEq, decide_eq_false_iff_not] at seen
  obtain ⟨-, noFile, noPipe, fails⟩ := seen
  have lost : ¬s.Present d.id := not_or.mpr ⟨noFile, noPipe⟩
  refine ⟨s, 2, d, .of_run fresh_booted ran, found, lost, ?_, fun survives => lost (survives.present _ ⟨2, d, found, rfl⟩)⟩
  split at fails
  · assumption
  · cases fails

end Server
end Faux
