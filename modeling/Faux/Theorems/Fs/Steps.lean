import Faux.Theorems.Fs.Cluster
import Faux.Theorems.Fs.NameSpace

/-! What an action of a client does to the name spaces of the servers. -/

namespace Faux
open Function Lib

namespace Server
variable {s t u : Server} {gone more : List FileId} {N : Names} {id : FileId}

/-- A step of a server: its name space becomes `N`, and only objects of `gone` become orphans. -/
structure Becomes (gone : List FileId) (s t : Server) (N : Names) : Prop where
  id : t.id = s.id
  pipes : t.pipes = s.pipes
  seq : s.inodeSeq ≤ t.inodeSeq
  names : t.names = N
  orphans : ∀ x, t.Orphan x → s.Orphan x ∨ x ∈ gone

theorem Becomes.refl : Becomes [] s s s.names := ⟨rfl, rfl, le_rfl, rfl, fun _ orphan => .inl orphan⟩

theorem Becomes.of_grows {new : List FileId} (grows : Grows new s t) (seq : s.inodeSeq ≤ t.inodeSeq) (names : t.names = N) :
    Becomes [] s t N :=
  ⟨grows.id, grows.pipes, seq, names, fun x orphan => .inl (by rwa [Orphan, grows.orphans] at orphan)⟩

theorem Becomes.trans {N' : Names} (first : Becomes gone s t N) (second : Becomes more t u N') : Becomes (gone ++ more) s u N' :=
  ⟨second.id.trans first.id, second.pipes.trans first.pipes, Nat.le_trans first.seq second.seq, second.names, fun x orphan => by
    rcases second.orphans x orphan with orphan | mem
    · exact (first.orphans x orphan).imp_right (List.mem_append_left _)
    · exact .inr (List.mem_append_right _ mem)⟩

theorem usable_iff : s.Usable id ↔ ¬s.Orphan id ∧ ∀ k, s.names.kind id = some k → k = .dir := by
  refine ⟨fun usable => ⟨usable.orphan, fun k isK => ?_⟩, fun ⟨kept, dir⟩ => ⟨fun v found => ?_, kept⟩⟩
  · obtain ⟨-, v, found, rfl⟩ := kind_some.mp isK
    exact usable.dir v found
  · exact dir v.kind (kind_some.mpr ⟨kept, v, found, rfl⟩)

theorem Becomes.usable (becomes : Becomes gone s t N) (usable : s.Usable id) (notGone : id ∉ gone)
    (kind : ∀ k, N.kind id = some k → s.names.kind id = some k ∨ k = .dir) : t.Usable id := by
  rw [usable_iff] at usable ⊢
  refine ⟨fun orphan => (becomes.orphans id orphan).elim usable.1 notGone, fun k isK => ?_⟩
  rw [becomes.names] at isK
  exact (kind k isK).elim (usable.2 k) fun eq => eq

/-! ### Requests -/

variable {env : Env} {app : AppId} {p : FileId} {n : Name} {x y : InodeType} {flags : Flags} {mode : Nat} {cfg : Config}

theorem becomes_lazyDir (usable : s.Usable p) : Becomes [] s (s.lazyDir p) (s.names.lazy p) :=
  .of_grows grows_lazyDir inodeSeq_lazyDir (names_lazyDir usable)

theorem kind_lazyDir (usable : s.Usable p) : (s.lazyDir p).names.kind p = some .dir := by
  obtain ⟨d, isDir, -⟩ := lookup_lazyDir usable
  refine kind_some.mpr ⟨?_, _, isDir, rfl⟩
  rw [Orphan, orphans_lazyDir]
  exact usable.orphan

theorem becomes_alloc {v : VFile} (usable : s.Usable p) (fresh : (s.lazyDir p).Unused (s.lazyDir p).newId)
    (empty : v.entry = fun _ => none) :
    Becomes [] s ((s.lazyDir p).alloc v) ((s.names.lazy p).add (s.lazyDir p).newId v.kind) := by
  refine (becomes_lazyDir usable).trans ⟨rfl, rfl, Nat.le_succ _, ?_, fun _ orphan => .inl orphan⟩
  rw [names_alloc fresh empty, names_lazyDir usable]

theorem newId_ne (usable : s.Usable p) (fresh : (s.lazyDir p).Unused (s.lazyDir p).newId) : p ≠ (s.lazyDir p).newId := by
  intro same
  obtain ⟨d, isDir, -⟩ := lookup_lazyDir usable
  exact fresh.1 (.inl (same ▸ mem_of_lookup isDir))

theorem handleCreate_file (cfg : Config) (env : Env) (app : AppId) (mode : Nat) {parent : InodeType} (name : n ≠ "") (usable : s.Usable parent.id) (absent : s.entry parent.id n = none)
    (fresh : (s.lazyDir parent.id).Unused (s.lazyDir parent.id).newId) (notDir : flags.directory = false) :
    ∃ t, s.handleCreate cfg env app parent n flags mode =
        .ok (t, .ok, some { server := s.id, id := (s.lazyDir parent.id).newId, type := .file }) ∧
      Becomes [] s t ((s.names.lazy parent.id).add (s.lazyDir parent.id).newId .file) := by
  have isFile : newFile flags mode = .file File.new := by simp [newFile, notDir]
  refine ⟨(s.lazyDir parent.id).alloc (.file File.new), ?_, becomes_alloc usable fresh rfl⟩
  simp only [handleCreate, create_new name usable absent, isFile, ok_bind, notDir, Bool.false_eq_true, and_false, if_false]
  rfl

theorem handle_create {parent : InodeType} {st : Status} {i : Option InodeType}
    (done : s.handleCreate cfg env app parent n flags mode = .ok (t, st, i)) :
    s.handle cfg env app (.create parent n flags mode) = .ok (t, (st, i), []) := by
  simp only [handle, done, ok_bind]

theorem handle_createOpen (cfg : Config) (parent : Inode) {reply : OpenReply} (done : s.handleCreateOpen env app parent.id n flags mode = .ok (t, reply)) :
    s.handle cfg env app (.createOpen parent n flags mode) = .ok (t, reply, []) := by
  simp only [handle, done, ok_bind]

theorem handle_open (cfg : Config) (app : AppId) {reply : Opened} (done : s.open env id flags = .ok (t, reply)) :
    s.handle cfg env app (.open id flags) = .ok (t, { reply with exist := none }, []) := by
  simp only [handle, done, ok_bind]

theorem handle_blocks (cfg : Config) (env : Env) (app : AppId) {offset count : Nat} {reply : Status × List Nat} (done : s.blocks id offset count = .ok reply) :
    s.handle cfg env app (.blocks id offset count) = .ok (s, reply, []) := by
  simp only [handle, done, ok_bind]

theorem handleAddMap_new (env : Env) (app : AppId) (x : InodeType) (overwrite : Bool) (name : n ≠ "stats") (usable : s.Usable p) (absent : s.entry p n = none) :
    ∃ t, s.handleAddMap env app p n x overwrite = .ok (t, (.ok, x), []) ∧ Becomes [] s t ((s.names.lazy p).bind p n x) := by
  obtain ⟨t, mapped, names, seq⟩ := addmap_new env app x overwrite name usable absent
  refine ⟨t, ?_, .of_grows (addmap_grows mapped) seq names⟩
  simp only [handleAddMap, mapped, ok_bind, require]
  rfl

theorem mustAddMap_new (env : Env) (app : AppId) (x : InodeType) (name : n ≠ "stats") (usable : s.Usable p) (absent : s.entry p n = none) :
    ∃ t, s.mustAddMap env app p n x = .ok t ∧ Becomes [] s t ((s.names.lazy p).bind p n x) := by
  obtain ⟨t, mapped, names, seq⟩ := addmap_new env app x false name usable absent
  refine ⟨t, ?_, .of_grows (addmap_grows mapped) seq names⟩
  simp only [mustAddMap, mapped, ok_bind, require]
  rfl

theorem handleCreateOpen_excl (env : Env) (app : AppId) (mode : Nat) (name : n ≠ "") (found : s.entry p n = some y) (notLink : y.type ≠ .symlink) (excl : flags.excl = true) :
    s.handleCreateOpen env app p n flags mode = .ok (s, { openFail .exist with exist := some y }) := by
  simp only [handleCreateOpen, create_exist name found, if_neg notLink, ok_bind, excl]
  rfl

theorem open_becomes {f : File} (env : Env) (flags : Flags) (found : s.files.lookup id = some (.file f)) (notDir : flags.directory = false) :
    ∃ t size, s.open env id flags = .ok (t, { retval := .ok, fd := some env.rand, type := some .file, size := some size, state := .shared }) ∧
      Becomes [] s t s.names := by
  obtain ⟨g, bc, truncated⟩ := openTrunc_defined f s.bufferCache flags.trunc
  simp only [«open», found, notDir, Bool.false_eq_true, if_false, truncated, ok_bind]
  exact ⟨_, g.size, rfl, rfl, rfl, le_rfl, names_setFile found, fun _ orphan => .inl orphan⟩

theorem lookup_file (isFile : s.names.kind id = some .file) : ∃ f, s.files.lookup id = some (.file f) := by
  obtain ⟨-, v, found, kind⟩ := kind_some.mp isFile
  cases v with
  | file f => exact ⟨f, found⟩
  | dir d => cases kind
  | symlink dest => cases kind

theorem handleCreateOpen_new (env : Env) (app : AppId) (mode : Nat) (name : n ≠ "") (notStats : n ≠ "stats") (usable : s.Usable p) (absent : s.entry p n = none)
    (fresh : (s.lazyDir p).Unused (s.lazyDir p).newId) (notDir : flags.directory = false) :
    ∃ t size, s.handleCreateOpen env app p n flags mode = .ok (t,
        { retval := .ok, fd := some env.rand, type := some .file, size := some size, state := .shared,
          exist := some { server := s.id, id := (s.lazyDir p).newId, type := .file } }) ∧
      Becomes [] s t (((s.names.lazy p).add (s.lazyDir p).newId .file).bind p n
        { server := s.id, id := (s.lazyDir p).newId, type := .file }) := by
  have isFile : newFile flags mode = .file File.new := by simp [newFile, notDir]
  -- the file is made, gets its entry, and is opened
  have made := becomes_alloc (v := .file File.new) usable fresh rfl
  have dir : ((s.lazyDir p).alloc (.file File.new)).names.kind p = some .dir := by
    rw [made.names, Names.kind_add, if_neg (newId_ne usable fresh), ← names_lazyDir usable, kind_lazyDir usable]
  have usable' : ((s.lazyDir p).alloc (.file File.new)).Usable p :=
    usable_iff.mpr ⟨(kind_some.mp dir).1, fun k isK => Option.some.inj (isK.symm.trans dir)⟩
  have absent' : ((s.lazyDir p).alloc (.file File.new)).entry p n = none := by
    rw [entry, made.names, Names.entry_add, Names.entry_lazy]
    exact absent
  obtain ⟨t, mapped, becomes⟩ := mustAddMap_new env app
    { server := s.id, id := (s.lazyDir p).newId, type := .file } notStats usable' absent'
  rw [Names.lazy_of_some dir, made.names] at becomes
  have kind : t.names.kind (s.lazyDir p).newId = some .file := by
    rw [becomes.names, Names.kind_bind, Names.kind_add, if_pos rfl]
    rfl
  obtain ⟨f, found⟩ := lookup_file kind
  obtain ⟨u, size, isOpen, same⟩ := open_becomes env { flags with creat := false } found notDir
  have here : s.id = t.id := (made.id.symm.trans becomes.id.symm)
  refine ⟨u, size, ?_, ?_⟩
  · simp only [handleCreateOpen, create_new name usable absent, isFile, ok_bind, mapOpen, decide_true, if_true, or_true]
    simp only [VFile.type, mapped, ok_bind, if_pos here, isOpen]
  · have all := (made.trans becomes).trans same
    rwa [becomes.names] at all

end Server

namespace Cluster
variable {w w' : Cluster} {cfg : Config} {c i j : Nat} {env : Env} {a : Action}

def Same (w w' : Cluster) : Prop := ∀ i, Server.Becomes [] (w.servers i) (w'.servers i) (w.servers i).names

theorem same_of_servers (servers : w'.servers = w.servers) : Same w w' := fun i => by
  rw [servers]
  exact .refl

def Local : Action → Prop
  | .rpc .. => False
  | _ => True

theorem exec_local (w : Cluster) (cfg : Config) (c : Nat) (env : Env) (isLocal : Local a) : ∃ w' r, w.exec cfg c env a = .ok (w', r) ∧ Same w w' := by
  cases a with
  | rpc i q => exact isLocal.elim
  | copyIn i offset data =>
    refine ⟨_, _, rfl, fun j => ?_⟩
    by_cases same : j = i
    · subst same
      simp only [setServer, update_self]
      exact ⟨rfl, rfl, le_rfl, rfl, fun _ orphan => .inl orphan⟩
    · simp only [setServer, update_of_ne same]
      exact .refl
  | _ => exact ⟨_, _, rfl, same_of_servers rfl⟩

theorem same_of_becomes {t : Server} (servers : w'.servers = update w.servers i t)
    (becomes : Server.Becomes [] (w.servers i) t (w.servers i).names) : Same w w' := fun j => by
  rw [servers]
  by_cases same : j = i
  · subst same
    rw [update_self]
    exact becomes
  · rw [update_of_ne same]
    exact .refl

end Cluster
end Faux
