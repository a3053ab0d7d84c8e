import Faux.Fs.NameSpace
import Faux.Theorems.Fs.Survive

/-! What every operation of a server does to the name space. -/

namespace Faux
open Function Lib

namespace Names
variable {N : Names} {id x dir p : FileId} {k : Kind} {name n : Name} {i : InodeType}

theorem kind_add : (N.add id k).kind x = if x = id then some k else N.kind x := update_apply ..

@[simp] theorem entry_add : (N.add id k).entry = N.entry := rfl

theorem kind_lazy : (N.lazy id).kind x = if x = id ∧ N.kind id = none then some .dir else N.kind x := by
  by_cases absent : N.kind id = none
  · simp [lazy, absent, kind_add]
  · simp [lazy, absent]

theorem lazy_of_some (isSome : N.kind id = some k) : N.lazy id = N := by
  rw [lazy, if_neg (by simp [isSome])]

@[simp] theorem entry_lazy : (N.lazy id).entry = N.entry := by
  unfold lazy
  split_ifs <;> rfl

@[simp] theorem kind_bind : (N.bind dir name i).kind = N.kind := rfl

theorem entry_bind : (N.bind dir name i).entry p n = if p = dir ∧ n = name then some i else N.entry p n := by
  by_cases same : p = dir
  · subst same
    by_cases name' : n = name <;> simp [bind, name']
  · simp [bind, same]

theorem kind_drop : (N.drop id).kind x = if x = id then none else N.kind x := update_apply ..

theorem entry_drop : (N.drop id).entry p n = if p = id then none else N.entry p n := by
  by_cases same : p = id <;> simp [drop, same]

end Names

namespace Server
variable {s t : Server} {env : Env} {app : AppId} {id p x : FileId} {n : Name} {i y : InodeType} {v : VFile} {d : Dir}
  {bc : BufferCache} {m : Memory}
variable {files : AList fun _ : FileId => VFile} {orphans : List InodeType}

theorem any_orphans : s.orphans.any (·.id = id) = true ↔ s.Orphan id := by
  simp [Orphan]

theorem kind_eq : s.names.kind id = if s.orphans.any (·.id = id) then none else (s.files.lookup id).map VFile.kind := rfl

theorem kind_of_orphan (orphan : s.Orphan id) : s.names.kind id = none := by
  rw [kind_eq, if_pos (any_orphans.mpr orphan)]

theorem kind_of_not_orphan (kept : ¬s.Orphan id) : s.names.kind id = (s.files.lookup id).map VFile.kind := by
  rw [kind_eq, if_neg (any_orphans.not.mpr kept)]

theorem kind_some {k : Kind} : s.names.kind id = some k ↔ ¬s.Orphan id ∧ ∃ v, s.files.lookup id = some v ∧ v.kind = k := by
  by_cases orphan : s.Orphan id
  · simp [kind_of_orphan orphan, orphan]
  · simp [kind_of_not_orphan orphan, orphan, Option.map_eq_some_iff]

theorem entry_of_lookup (found : s.files.lookup p = some v) : s.entry p n = v.entry n := by
  simp [entry, names, namesOf, found]

theorem entry_of_none (absent : s.files.lookup p = none) : s.entry p n = none := by
  simp [entry, names, namesOf, absent]

theorem entry_some (found : s.entry p n = some i) : ∃ d e, s.files.lookup p = some (.dir d) ∧ d.children.lookup n = some e ∧ e.inode = i := by
  obtain ⟨v, isObject, entry⟩ := Option.bind_eq_some_iff.mp found
  cases v with
  | dir d =>
    obtain ⟨e, child, inode⟩ := Option.map_eq_some_iff.mp entry
    exact ⟨d, e, isObject, child, inode⟩
  | file f => cases entry
  | symlink dest => cases entry

/-! ### Changing the objects -/

theorem namesOf_insert (kept : orphans.any (·.id = id) = false) :
    namesOf (files.insert id v) orphans =
      { kind := update (namesOf files orphans).kind id (some v.kind)
        entry := update (namesOf files orphans).entry id v.entry } := by
  ext1
  · funext x
    by_cases same : x = id
    · subst same
      simp only [namesOf, kept, Bool.false_eq_true, if_false, AList.lookup_insert, update_self, Option.map_some]
    · simp [namesOf, same]
  · funext x
    by_cases same : x = id
    · subst same
      funext n
      simp [namesOf]
    · simp [namesOf, same]

theorem namesOf_erase : namesOf (files.erase id) orphans = (namesOf files orphans).drop id := by
  ext1
  · funext x
    by_cases same : x = id
    · subst same
      simp [namesOf, Names.drop]
    · simp [namesOf, Names.drop, same]
  · funext x
    by_cases same : x = id
    · subst same
      funext n
      simp [namesOf, Names.drop]
    · simp [namesOf, Names.drop, same]

theorem namesOf_replace (found : files.lookup id = some v) {w : VFile} (kind : w.kind = v.kind) (entry : w.entry = v.entry) :
    namesOf (files.insert id w) orphans = namesOf files orphans := by
  ext1
  · funext x
    by_cases same : x = id
    · subst same
      simp [namesOf, found, kind]
    · simp [namesOf, same]
  · funext x
    by_cases same : x = id
    · subst same
      funext n
      simp [namesOf, found, entry]
    · simp [namesOf, same]

theorem not_any_orphans (kept : ¬s.Orphan id) : s.orphans.any (·.id = id) = false :=
  Bool.eq_false_iff.mpr (any_orphans.not.mpr kept)

theorem names_new (absent : id ∉ s.files) (kept : ¬s.Orphan id) (empty : v.entry = fun _ => none) :
    namesOf (s.files.insert id v) s.orphans = s.names.add id v.kind := by
  rw [namesOf_insert (not_any_orphans kept)]
  refine Names.ext rfl ?_
  have none : s.files.lookup id = none := AList.lookup_eq_none.mpr absent
  funext x
  by_cases same : x = id
  · subst same
    funext n
    simp [empty, names, namesOf, none, Names.add]
  · simp [same, names, Names.add]

theorem Usable.lookup (usable : s.Usable id) (mem : id ∈ s.files) : ∃ d, s.files.lookup id = some (.dir d) := by
  obtain ⟨v, found⟩ := mem_iff_lookup.mp mem
  cases v with
  | dir d => exact ⟨d, found⟩
  | file f => cases usable.dir _ found
  | symlink dest => cases usable.dir _ found

theorem Usable.kind (usable : s.Usable id) (mem : id ∈ s.files) : s.names.kind id = some .dir := by
  obtain ⟨d, found⟩ := usable.lookup mem
  exact kind_some.mpr ⟨usable.orphan, _, found, rfl⟩

theorem Usable.kind_none (usable : s.Usable id) (absent : id ∉ s.files) : s.names.kind id = none := by
  rw [kind_of_not_orphan usable.orphan, AList.lookup_eq_none.mpr absent]
  rfl

theorem names_lazyDir (usable : s.Usable p) : (s.lazyDir p).names = s.names.lazy p := by
  by_cases mem : p ∈ s.files
  · rw [lazyDir_of_mem mem, Names.lazy, if_neg (by simp [usable.kind mem])]
  · have none : s.files.lookup p = none := AList.lookup_eq_none.mpr mem
    rw [Names.lazy, if_pos (usable.kind_none mem)]
    simp only [lazyDir, none]
    exact names_new mem usable.orphan rfl

theorem entry_lazyDir (usable : s.Usable p) : (s.lazyDir p).entry = s.entry := by
  unfold entry
  rw [names_lazyDir usable, Names.entry_lazy]

theorem lookup_lazyDir (usable : s.Usable p) : ∃ d, (s.lazyDir p).files.lookup p = some (.dir d) ∧
    ∀ n, (d.children.lookup n).map (·.inode) = s.entry p n := by
  by_cases mem : p ∈ s.files
  · obtain ⟨d, found⟩ := usable.lookup mem
    refine ⟨d, by rwa [lazyDir_of_mem mem], fun n => ?_⟩
    rw [entry_of_lookup found]
    rfl
  · have none : s.files.lookup p = none := AList.lookup_eq_none.mpr mem
    refine ⟨Dir.new true 511, by simp [lazyDir, none], fun n => ?_⟩
    rw [entry_of_none none]
    rfl

theorem orphans_lazyDir : (s.lazyDir p).orphans = s.orphans := grows_lazyDir.orphans

theorem names_setDir (isDir : s.names.kind p = some .dir) :
    namesOf (s.files.insert p (.dir d)) s.orphans = { s.names with entry := update s.names.entry p (VFile.dir d).entry } := by
  obtain ⟨kept, -⟩ := kind_some.mp isDir
  rw [namesOf_insert (not_any_orphans kept)]
  refine Names.ext (update_eq_self_iff.mpr isDir.symm) rfl

theorem names_addChild (isDir : s.names.kind p = some .dir)
    (others : ∀ m, m ≠ n → (d.children.lookup m).map (·.inode) = s.entry p m) : (s.addChild p d n i).names = s.names.bind p n i := by
  refine (names_setDir isDir).trans (Names.ext rfl (congrArg (update s.names.entry p) (funext fun m => ?_)))
  by_cases same : m = n
  · subst same
    simp [VFile.entry]
  · simpa [VFile.entry, same, entry] using others m same

theorem names_appAddLoc {loc : Nat} : (s.appAddLoc app loc).names = s.names := by
  unfold appAddLoc
  split_ifs <;> rfl

theorem inodeSeq_appAddLoc {loc : Nat} : (s.appAddLoc app loc).inodeSeq = s.inodeSeq := by
  unfold appAddLoc
  split_ifs <;> rfl

theorem inodeSeq_addEntry : (s.addEntry app p d n i).inodeSeq = s.inodeSeq := by
  unfold addEntry
  split_ifs
  · rfl
  · rw [inodeSeq_appAddLoc]
    rfl

theorem inodeSeq_lazyDir : s.inodeSeq ≤ (s.lazyDir p).inodeSeq := by
  unfold lazyDir
  split
  · exact le_rfl
  · exact Nat.le_succ _

/-! ### Operations -/

theorem create_exist {flags : Flags} {mode : Nat} (name : n ≠ "") (found : s.entry p n = some y) :
    s.create p n flags mode = .ok (s, if y.type = .symlink then .isSym else .exist, some y) := by
  obtain ⟨d, e, isDir, child, rfl⟩ := entry_some found
  have same : s.lazyDir p = s := lazyDir_of_mem (mem_of_lookup isDir)
  simp [create, same, isDir, child, require, name, ok_bind]

def newFile (flags : Flags) (mode : Nat) : VFile := if flags.directory then .dir (Dir.new false mode) else .file File.new

def alloc (s : Server) (v : VFile) : Server := { s with files := s.files.insert s.newId v, inodeSeq := s.inodeSeq + 1 }

theorem create_new {flags : Flags} {mode : Nat} (name : n ≠ "") (usable : s.Usable p) (absent : s.entry p n = none) :
    s.create p n flags mode = .ok ((s.lazyDir p).alloc (newFile flags mode), .ok,
      some { server := s.id, id := (s.lazyDir p).newId, type := (newFile flags mode).type }) := by
  obtain ⟨d, isDir, entries⟩ := lookup_lazyDir usable
  have child : d.children.lookup n = none := Option.map_eq_none_iff.mp ((entries n).trans absent)
  rw [← (grows_lazyDir.id : (s.lazyDir p).id = s.id)]
  simp only [create, isDir, child, require, name, ne_eq, not_false_eq_true, decide_true, if_true, ok_bind]
  rfl

theorem names_alloc (fresh : s.Unused s.newId) (empty : v.entry = fun _ => none) : (s.alloc v).names = s.names.add s.newId v.kind :=
  names_new (fun mem => fresh.1 (.inl mem)) fresh.2 empty

theorem names_addEntry (isDir : s.names.kind p = some .dir)
    (others : ∀ m, m ≠ n → (d.children.lookup m).map (·.inode) = s.entry p m) : (s.addEntry app p d n i).names = s.names.bind p n i := by
  unfold addEntry
  split_ifs
  · exact names_addChild isDir others
  · rw [names_appAddLoc]
    exact names_addChild isDir others

theorem addmap_new (env : Env) (app : AppId) (i : InodeType) (overwrite : Bool) (name : n ≠ "stats") (usable : s.Usable p) (absent : s.entry p n = none) :
    ∃ t, s.addmap env app p n i overwrite = .ok (t, .ok, i, []) ∧ t.names = (s.names.lazy p).bind p n i ∧ s.inodeSeq ≤ t.inodeSeq := by
  obtain ⟨d, isDir, entries⟩ := lookup_lazyDir usable
  have child : d.children.lookup n = none := Option.map_eq_none_iff.mp ((entries n).trans absent)
  refine ⟨(s.lazyDir p).addEntry app p d n i, ?_, ?_, Nat.le_trans inodeSeq_lazyDir (Nat.le_of_eq inodeSeq_addEntry.symm)⟩
  · simp [addmap, noteStats, name, ok_bind, isDir, child]
  · have kept : ¬(s.lazyDir p).Orphan p := by
      rw [Orphan, orphans_lazyDir]
      exact usable.orphan
    rw [names_addEntry (kind_some.mpr ⟨kept, _, isDir, rfl⟩) fun m _ => (entries m).trans (by rw [entry_lazyDir usable]),
      names_lazyDir usable]

theorem removemap_absent (app : AppId) (absent : s.entry p n = none) : ∃ st, s.removemap app p n = (s, st, []) ∧ st ≠ .ok := by
  unfold removemap
  split
  · exact ⟨_, rfl, by decide⟩
  · next d isDir =>
    have child : d.children.lookup n = none := Option.map_eq_none_iff.mp ((entry_of_lookup isDir).symm.trans absent)
    simp only [child]
    exact ⟨_, rfl, by decide⟩
  · exact ⟨_, rfl, by decide⟩

theorem resolve_absent (app : AppId) (name : n ≠ "") (absent : s.entry p n = none) : ∃ st, s.resolve app p n = .ok (s, st, none) ∧ st ≠ .ok := by
  simp only [resolve, require, name, ne_eq, not_false_eq_true, decide_true, if_true, ok_bind]
  split
  · exact ⟨_, rfl, by decide⟩
  · next d isDir =>
    have child : d.children.lookup n = none := Option.map_eq_none_iff.mp ((entry_of_lookup isDir).symm.trans absent)
    simp only [child]
    exact ⟨_, rfl, by decide⟩
  · exact ⟨_, rfl, by decide⟩

theorem names_delete : (s.delete id).names = s.names.drop id := by
  obtain ⟨-, -, orphans, files, -, -⟩ := delete_fields s id
  rw [names, orphans, files]
  exact namesOf_erase

theorem names_setFile {f g : File} (found : s.files.lookup id = some (.file f)) :
    namesOf (s.files.insert id (.file g)) s.orphans = s.names :=
  namesOf_replace found rfl rfl

theorem openTrunc_defined (f : File) (bc : BufferCache) (trunc : Bool) : ∃ g bc', f.openTrunc bc trunc = .ok (g, bc') := by
  unfold File.openTrunc
  split_ifs
  · unfold File.truncate
    split_ifs with grows shrinks
    · exact absurd grows (Nat.not_lt_zero _)
    · have zero : blocksNr 0 = 0 := rfl
      simp only [File.shrink, zero]
      split_ifs with empty less
      · exact ⟨_, _, rfl⟩
      · exact absurd less (Nat.not_lt_zero _)
      · exact ⟨_, _, rfl⟩
    · exact ⟨_, _, rfl⟩
  · exact ⟨_, _, rfl⟩

theorem lookup_boot {j : Nat} (found : (boot j bc m).files.lookup 0 = some v) :
    ∃ d, v = .dir d ∧ ∀ n, n ≠ ".." → d.children.lookup n = none := by
  unfold boot at found
  dsimp only at found
  split_ifs at found
  · refine ⟨_, (Option.some.inj found).symm, fun n ne => AList.lookup_eq_none.mpr fun mem => ne ?_⟩
    exact List.mem_singleton.mp mem
  · cases found

theorem usable_boot {j : Nat} : (boot j bc m).Usable 0 := by
  refine ⟨fun v found => ?_, ?_⟩
  · obtain ⟨d, rfl, -⟩ := lookup_boot found
    rfl
  · rintro ⟨o, mem, -⟩
    cases mem

theorem entry_boot {j : Nat} (notDots : n ≠ "..") : (boot j bc m).entry 0 n = none := by
  cases found : (boot j bc m).files.lookup 0 with
  | none => exact entry_of_none found
  | some v =>
    obtain ⟨d, rfl, empty⟩ := lookup_boot found
    rw [entry_of_lookup found]
    exact Option.map_eq_none_iff.mpr (empty n notDots)

end Server
end Faux
