import Faux.Theorems.Fs.Machine

/-! What a process leaves to the program that it executes: flattening keeps what each descriptor is, and so does the copy of
    the descriptors into blank tables. -/

namespace Faux
open Function Lib

variable {cfg : Config}

namespace Process
variable {p q r : Process} {fd n a : Nat} {e : FdEntry} {object : AppFile} {cloexec : Bool}

/-! ### The same descriptor in two processes -/

/-- A descriptor is the same in both: not mapped, or mapped to the same descriptor of the operating system, or internal with
    an object for the same descriptor of a server and the same inode. -/
def SameSlot (p q : Process) (fd : Nat) : Prop :=
  match p.map fd with
  | .free => q.map fd = .free
  | .external n => q.map fd = .external n
  | .internal _ => ∃ n a e m b f, p.fdGet fd = .ok (n, a, e) ∧ q.fdGet fd = .ok (m, b, f) ∧
      f.object.fd = e.object.fd ∧ f.object.inode = e.object.inode

theorem sameSlot_free (isFree : p.map fd = .free) : p.SameSlot q fd ↔ q.map fd = .free := by
  unfold SameSlot
  rw [isFree]

theorem sameSlot_external (isExternal : p.map fd = .external n) : p.SameSlot q fd ↔ q.map fd = .external n := by
  unfold SameSlot
  rw [isExternal]

theorem sameSlot_internal (isInternal : p.map fd = .internal n) : p.SameSlot q fd ↔ ∃ n a e m b f, p.fdGet fd = .ok (n, a, e) ∧
    q.fdGet fd = .ok (m, b, f) ∧ f.object.fd = e.object.fd ∧ f.object.inode = e.object.inode := by
  unfold SameSlot
  rw [isInternal]

theorem sameSlot_of_fdGet {m b : Nat} {f : FdEntry} (got : p.fdGet fd = .ok (n, a, e)) (got' : q.fdGet fd = .ok (m, b, f))
    (sameFd : f.object.fd = e.object.fd) (sameInode : f.object.inode = e.object.inode) : p.SameSlot q fd :=
  (sameSlot_internal (fdGet_eq_ok.mp got).1).mpr ⟨n, a, e, m, b, f, got, got', sameFd, sameInode⟩

theorem Wf.sameSlot_refl (wf : p.Wf) (fd : Nat) : p.SameSlot p fd := by
  cases slot : p.map fd with
  | free => exact (sameSlot_free slot).mpr slot
  | external n => exact (sameSlot_external slot).mpr slot
  | internal n =>
    obtain ⟨a, e, got⟩ := wf.fdGet slot
    exact sameSlot_of_fdGet got got rfl rfl

theorem SameSlot.trans (first : p.SameSlot q fd) (second : q.SameSlot r fd) : p.SameSlot r fd := by
  cases slot : p.map fd with
  | free => exact (sameSlot_free slot).mpr ((sameSlot_free ((sameSlot_free slot).mp first)).mp second)
  | external n => exact (sameSlot_external slot).mpr ((sameSlot_external ((sameSlot_external slot).mp first)).mp second)
  | internal n =>
    obtain ⟨n, a, e, m, b, f, got, got', sameFd, sameInode⟩ := (sameSlot_internal slot).mp first
    obtain ⟨m', b', f', k, c, g, again, got'', sameFd', sameInode'⟩ := (sameSlot_internal (fdGet_eq_ok.mp got').1).mp second
    cases got'.symm.trans again
    exact sameSlot_of_fdGet got got'' (sameFd'.trans sameFd) (sameInode'.trans sameInode)

/-! ### Flattening -/

theorem Wf.sameSlot_flatten (wf : p.Wf) (got : p.fdGet fd = .ok (n, a, e)) (fd' : Nat) :
    p.SameSlot (p.fdFlatten n a e (.alloc e.object.inode e.object.fd)) fd' := by
  obtain ⟨slot, points, found⟩ := fdGet_eq_ok.mp got
  cases slot' : p.map fd' with
  | free => exact (sameSlot_free slot').mpr slot'
  | external k => exact (sameSlot_external slot').mpr slot'
  | internal k =>
    obtain ⟨b, f, got'⟩ := wf.fdGet slot'
    obtain ⟨-, points', found'⟩ := fdGet_eq_ok.mp got'
    have fresh : ∀ c g, p.heap.lookup c = some g → c ≠ p.nextEntry := fun c g found same =>
      wf.linked.next_absent (same ▸ mem_of_lookup found)
    by_cases same : k = n
    · subst same
      cases points.symm.trans points'
      cases found.symm.trans found'
      refine sameSlot_of_fdGet got' (fdGet_eq_ok.mpr ⟨slot', AList.lookup_insert _, AList.lookup_insert _⟩) rfl rfl
    · by_cases shared : b = a
      · subst shared
        cases found.symm.trans found'
        refine sameSlot_of_fdGet (f := { e with numFd := e.numFd - 1 }) got'
          (fdGet_eq_ok.mpr ⟨slot', (AList.lookup_insert_ne same).trans points', ?_⟩) rfl rfl
        exact (AList.lookup_insert_ne (fresh b e found)).trans (AList.lookup_insert _)
      · refine sameSlot_of_fdGet got' (fdGet_eq_ok.mpr ⟨slot', (AList.lookup_insert_ne same).trans points', ?_⟩) rfl rfl
        exact (AList.lookup_insert_ne (fresh b f found')).trans ((AList.lookup_insert_ne shared).trans found')

end Process

namespace Session
variable {s t : Session} {fd : Nat}

def Known (s : Session) : Prop := ∀ a e, s.proc.heap.lookup a = some e → ((s.servers e.object.inode.server).dup e.object.fd).2.1 = .ok

theorem dup_ok_iff {v : Server} {x : Fd} : (v.dup x).2.1 = .ok ↔ ∃ d, v.fds.lookup x = some d ∧ (d.id ∈ v.files ∨ d.id ∈ v.pipes) := by
  unfold Server.dup
  cases found : v.fds.lookup x with
  | none => simp [Status.ok, Status.invalid]
  | some d =>
    simp only [Option.some.injEq, exists_eq_left']
    cases isFile : v.files.lookup d.id with
    | some vfile => simp [mem_of_lookup isFile]
    | none =>
      cases isPipe : v.pipes.lookup d.id with
      | some pipe => simp [mem_of_lookup isPipe]
      | none => simp [Status.ok, Status.notFound, AList.lookup_eq_none.mp isFile, AList.lookup_eq_none.mp isPipe]

theorem dup_known {v : Server} {x y : Fd} (known : (v.dup x).2.1 = .ok) : ((v.dup y).1.dup x).2.1 = .ok := by
  obtain ⟨d, found, present⟩ := dup_ok_iff.mp known
  rcases @Server.dup_cases v y with same | ⟨d', found', same⟩
  · rw [same]
    exact known
  · rw [same]
    refine dup_ok_iff.mpr ?_
    by_cases isY : x = y
    · subst isY
      cases found.symm.trans found'
      exact ⟨{ d with count := d.count + 1 }, AList.lookup_insert _, present⟩
    · exact ⟨d, (AList.lookup_insert_ne isY).trans found, present⟩

theorem fsFlattenFdInternal_keeps (wf : s.proc.Wf) (known : s.Known) (isInternal : s.proc.fdIsInternal fd = true) :
    ∃ t, s.fsFlattenFdInternal fd = .ok t ∧ t.proc.Wf ∧ t.Known ∧ ∀ fd', s.proc.SameSlot t.proc fd' := by
  obtain ⟨n, slot⟩ := Process.fdIsInternal_iff.mp isInternal
  obtain ⟨a, e, got⟩ := wf.fdGet slot
  obtain ⟨-, -, found⟩ := Process.fdGet_eq_ok.mp got
  unfold fsFlattenFdInternal
  rw [got, ok_bind]
  simp only
  split_ifs with shared
  · have duped : s.fosFileDup e.object.inode.server e.object.fd =
        .ok (s.setServer e.object.inode.server ((s.servers e.object.inode.server).dup e.object.fd).1) := by
      unfold fosFileDup
      simp only [known a e found, require]
      rfl
    refine ⟨_, by rw [duped]; rfl, wf.flatten got shared, fun b f found' => ?_, wf.sameSlot_flatten got⟩
    -- an object of the new tables is that of an entry of the old ones
    have old : ∃ b' f', s.proc.heap.lookup b' = some f' ∧ f'.object.inode = f.object.inode ∧ f'.object.fd = f.object.fd := by
      rcases lookup_insert_some.mp found' with ⟨-, rfl⟩ | ⟨-, found'⟩
      · exact ⟨a, e, found, rfl, rfl⟩
      · rcases lookup_insert_some.mp found' with ⟨-, rfl⟩ | ⟨-, found'⟩
        · exact ⟨a, e, found, rfl, rfl⟩
        · exact ⟨b, f, found', rfl, rfl⟩
    obtain ⟨b', f', found', sameInode, sameFd⟩ := old
    have knew := known b' f' found'
    rw [sameInode, sameFd] at knew
    show ((update s.servers e.object.inode.server _ f.object.inode.server).dup f.object.fd).2.1 = .ok
    by_cases server : f.object.inode.server = e.object.inode.server
    · rw [server] at knew ⊢
      rw [update_self]
      exact dup_known knew
    · rw [update_of_ne server]
      exact knew
  · exact ⟨s, rfl, wf, known, wf.sameSlot_refl⟩

theorem flattenFds_keeps : ∀ (fds : List Nat) {s : Session}, s.proc.Wf → s.Known →
    ∃ t, eachInternal fsFlattenFdInternal fds s = .ok t ∧ t.proc.Wf ∧ ∀ fd, s.proc.SameSlot t.proc fd
  | [], s, wf, _ => ⟨s, rfl, wf, wf.sameSlot_refl⟩
  | fd :: fds, s, wf, known => by
    unfold eachInternal
    split_ifs with isInternal
    · obtain ⟨u, first, wf', known', same⟩ := fsFlattenFdInternal_keeps wf known isInternal
      obtain ⟨t, rest, wf'', same'⟩ := flattenFds_keeps fds wf' known'
      exact ⟨t, by rw [first]; exact rest, wf'', fun fd' => (same fd').trans (same' fd')⟩
    · exact flattenFds_keeps fds wf known

theorem closeOnExec_none (wf : s.proc.Wf) (noFlag : ∀ a e, s.proc.heap.lookup a = some e → e.cloexec = false) :
    ∀ fds : List Nat, eachInternal (closeOnExec cfg) fds s = .ok s
  | [] => rfl
  | fd :: fds => by
    unfold eachInternal
    split_ifs with isInternal
    · obtain ⟨n, slot⟩ := Process.fdIsInternal_iff.mp isInternal
      obtain ⟨a, e, got⟩ := wf.fdGet slot
      have kept : closeOnExec cfg s fd = .ok s := by
        unfold closeOnExec
        rw [got, ok_bind]
        simp only
        rw [noFlag a e (Process.fdGet_eq_ok.mp got).2.2]
        rfl
      rw [kept]
      exact closeOnExec_none wf noFlag fds
    · exact closeOnExec_none wf noFlag fds

theorem prepareExec_keeps (wf : s.proc.Wf) (known : s.Known) (noFlag : ∀ a e, s.proc.heap.lookup a = some e → e.cloexec = false) :
    ∃ t, s.prepareExec cfg = .ok t ∧ t.proc.Wf ∧ ∀ fd, s.proc.SameSlot t.proc fd := by
  unfold prepareExec
  rw [closeOnExec_none wf noFlag]
  exact flattenFds_keeps _ wf known

end Session

namespace Process
variable {p q : Process} {fd n a : Nat} {e : FdEntry} {object : AppFile} {cloexec : Bool}

/-! ### Blank tables -/

theorem fdCreate_room (room : q.table.keys.length < 1021) : ∃ n, q.fdCreate object cloexec = .ok (q.addEntry n object cloexec, n) ∧ n ∉ q.table := by
  have some : ∃ n, q.fdFindUnusedFD = .ok n := by
    unfold fdFindUnusedFD
    split
    · next n _ => exact ⟨n, rfl⟩
    · next none =>
      exfalso
      have all : (List.range' 3 1021) ⊆ q.table.keys := fun n mem => by
        obtain ⟨low, high⟩ := List.mem_range'_1.mp mem
        have used := List.find?_eq_none.mp none n (List.mem_range.mpr (by omega))
        simp only [decide_eq_true_eq, not_and, not_not] at used
        exact used low
      have length := (List.subperm_of_subset (List.nodup_range' ..) all).length_le
      rw [List.length_range'] at length
      omega
  obtain ⟨n, unused⟩ := some
  refine ⟨n, ?_, fdFindUnusedFD_absent unused⟩
  rw [fdCreate, unused]
  rfl

def Frame (q r : Process) (fds : List Nat) : Prop := ∀ fd ∉ fds, r.map fd = q.map fd ∧ ∀ x, q.fdGet fd = .ok x → r.fdGet fd = .ok x

theorem Frame.sameSlot {r : Process} {fds : List Nat} (frame : Frame q r fds) (notMem : fd ∉ fds) (same : p.SameSlot q fd) : p.SameSlot r fd := by
  obtain ⟨map, got⟩ := frame fd notMem
  cases slot : p.map fd with
  | free => exact (sameSlot_free slot).mpr (map.trans ((sameSlot_free slot).mp same))
  | external n => exact (sameSlot_external slot).mpr (map.trans ((sameSlot_external slot).mp same))
  | internal n =>
    obtain ⟨n, a, e, m, b, f, gotP, gotQ, sameFd, sameInode⟩ := (sameSlot_internal slot).mp same
    exact sameSlot_of_fdGet gotP (got _ gotQ) sameFd sameInode

theorem frame_setSlot (slot : Slot) : Frame q (q.setSlot fd slot) [fd] := fun fd' notMem => by
  have map : (q.setSlot fd slot).map fd' = q.map fd' := update_of_ne (List.ne_of_not_mem_cons notMem) _ _
  refine ⟨map, fun x got => ?_⟩
  obtain ⟨n, a, e⟩ := x
  obtain ⟨isInternal, points, found⟩ := fdGet_eq_ok.mp got
  exact fdGet_eq_ok.mpr ⟨map.trans isInternal, points, found⟩

theorem Wf.frame_addEntry (wf : q.Wf) (absent : n ∉ q.table) : Frame q (q.addEntry n object cloexec) [] := fun fd _ => by
  refine ⟨rfl, fun x got => ?_⟩
  obtain ⟨k, a, e⟩ := x
  obtain ⟨isInternal, points, found⟩ := fdGet_eq_ok.mp got
  have ne : k ≠ n := fun same => absent (same ▸ mem_of_lookup points)
  have old : a ≠ q.nextEntry := fun same => wf.linked.next_absent (same ▸ mem_of_lookup found)
  exact fdGet_eq_ok.mpr ⟨isInternal, (AList.lookup_insert_ne ne).trans points, (AList.lookup_insert_ne old).trans found⟩

theorem Frame.trans {r o : Process} {l m : List Nat} (first : Frame q r l) (second : Frame r o m) : Frame q o (l ++ m) := fun fd notMem => by
  obtain ⟨map, got⟩ := first fd fun mem => notMem (List.mem_append_left _ mem)
  obtain ⟨map', got'⟩ := second fd fun mem => notMem (List.mem_append_right _ mem)
  exact ⟨map'.trans map, fun x found => got' x (got x found)⟩

theorem inherit_slots (wfP : p.Wf) : ∀ {fds : List Nat} {q : Process}, q.Wf → fds.Nodup → (∀ fd ∈ fds, fd < fdCount ∧ q.map fd = .free) →
    q.table.keys.length + fds.length ≤ 1021 →
    ∃ r, p.inherit fds q = .ok r ∧ (∀ fd ∈ fds, p.SameSlot r fd) ∧ Frame q r fds
  | [], q, _, _, _, _ => ⟨q, rfl, fun _ mem => absurd mem (by simp), fun fd _ => ⟨rfl, fun _ got => got⟩⟩
  | fd :: fds, q, wf, nodup, free, room => by
    obtain ⟨notMem, nodup⟩ := List.nodup_cons.mp nodup
    obtain ⟨lt, isFree⟩ := free fd (List.mem_cons_self ..)
    have unused : ∀ n, q.map fd ≠ .internal n := fun n eq => by cases isFree.symm.trans eq
    rw [List.length_cons] at room
    -- what the first descriptor becomes stays while the others are copied
    have step : ∀ u : Process, u.Wf → Frame q u [fd] → p.SameSlot u fd → u.table.keys.length ≤ q.table.keys.length + 1 →
        ∃ r, p.inherit fds u = .ok r ∧ (∀ fd' ∈ fd :: fds, p.SameSlot r fd') ∧ Frame q r (fd :: fds) := fun u wfU frame same length => by
      have free' : ∀ fd' ∈ fds, fd' < fdCount ∧ u.map fd' = .free := fun fd' mem => by
        have ne : fd' ∉ [fd] := fun mem' => notMem (List.mem_singleton.mp mem' ▸ mem)
        obtain ⟨lt', isFree'⟩ := free fd' (List.mem_cons_of_mem _ mem)
        exact ⟨lt', (frame fd' ne).1.trans isFree'⟩
      obtain ⟨r, inherited, slots, frame'⟩ := inherit_slots wfP wfU nodup free' (by omega)
      refine ⟨r, inherited, fun fd' mem => ?_, frame.trans frame'⟩
      rcases List.mem_cons.mp mem with rfl | mem
      · exact frame'.sameSlot notMem same
      · exact slots fd' mem
    unfold inherit
    cases slot : p.map fd with
    | free => exact step q wf (fun _ _ => ⟨rfl, fun _ got => got⟩) ((sameSlot_free slot).mpr isFree) (Nat.le_succ _)
    | external n =>
      refine step _ ⟨wf.mapped.other unused fun _ => by simp, wf.linked⟩ (frame_setSlot _) ?_ (Nat.le_succ _)
      exact (sameSlot_external slot).mpr (update_self ..)
    | internal n =>
      obtain ⟨a, e, got⟩ := wfP.fdGet slot
      have created : ∃ k, q.fdCreate (.alloc e.object.inode e.object.fd) false = .ok (q.addEntry k _ false, k) ∧ k ∉ q.table :=
        fdCreate_room (by omega)
      obtain ⟨k, created, absent⟩ := created
      simp only [got, ok_bind, created]
      refine step _ (wf.addEntry absent lt unused) ((wf.frame_addEntry absent).trans (frame_setSlot _)) ?_ ?_
      · refine sameSlot_of_fdGet got (fdGet_eq_ok.mpr ⟨update_self .., AList.lookup_insert _, AList.lookup_insert _⟩) rfl rfl
      · show (q.table.insert k q.nextEntry).keys.length ≤ _
        rw [AList.keys_insert, List.length_cons, List.erase_of_not_mem absent]

structure Survives (p q : Process) : Prop where
  same : ∀ fd < fdCount, p.SameSlot q fd
  own : ∀ fd fd' n, q.map fd = .internal n → q.map fd' = .internal n → fd = fd'

theorem inherit_survives (wf : p.Wf) : ∃ q, p.inherit (List.range fdCount) .blank = .ok q ∧ p.Survives q := by
  have free : ∀ fd ∈ List.range fdCount, fd < fdCount ∧ blank.map fd = .free := fun fd mem => ⟨List.mem_range.mp mem, rfl⟩
  obtain ⟨q, inherited, slots, -⟩ := inherit_slots wf wf_blank List.nodup_range free (by
    rw [List.length_range]
    decide)
  obtain ⟨wfQ, -⟩ := inherit_spec wf_blank List.nodup_range free inherited
  exact ⟨q, inherited, fun fd lt => slots fd (List.mem_range.mpr lt), wfQ.mapped.inj⟩

end Process
end Faux
