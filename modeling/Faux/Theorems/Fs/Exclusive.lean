import Faux.Fs.Exclusive
import Faux.Theorems.Fs.Orphans
import Faux.Theorems.Fs.Paths
import Faux.Theorems.Fs.Steps

/-! At most one exclusive open succeeds, in every run that meets the rules. The entry is what decides: a call that
    adds it wins, and no two calls do. -/

namespace Faux
open Function Lib

namespace Exclusive
open Cluster System

/-- Where a client is: it has an inode without an entry, it has added the entry, or it has found one. -/
inductive Phase where
  | idle
  | start
  | made (x : Inode)
  | won (x : Inode)
  | lost

/-! ### The name space grows -/

/-- What holds after any action: files stay, and the only new entry with the name is that of a file at its owner. -/
structure Later (i : Nat) (p : FileId) (n : Name) (w w' : Cluster) : Prop where
  ids : ∀ j, (w'.servers j).id = (w.servers j).id
  usable : ∀ j, (w.servers j).Usable p → (w'.servers j).Usable p
  files : ∀ j id, (w.servers j).names.kind id = some .file → (w'.servers j).names.kind id = some .file
  entry : ∀ j x, (w'.servers j).entry p n = some x → (w.servers j).entry p n = some x ∨ j = i ∧ x.type = .file
  named : ∀ j, w.Named j p n → w'.Named j p n

section
variable {w w' : Cluster} {i j : Nat} {p : FileId} {n : Name} {t : Server} {N : Names} {x : InodeType}
  {offset count : Nat} {name : Name} {x : Inode}

theorem later_same (same : Same w w') : Later i p n w w' where
  ids j := (same j).id
  usable j usable := (same j).usable usable (List.not_mem_nil) fun _ isK => .inl isK
  files j id isFile := by rwa [(same j).names]
  entry j x found := .inl (by rwa [Server.entry, (same j).names] at found)
  named j found := by rwa [Named, Server.entry, (same j).names]

theorem later_of_becomes (servers : w'.servers = update w.servers j t) (becomes : Server.Becomes [] (w.servers j) t N)
    (dirs : ∀ k, N.kind p = some k → (w.servers j).names.kind p = some k ∨ k = .dir)
    (files : ∀ id, (w.servers j).names.kind id = some .file → N.kind id = some .file)
    (entry : ∀ x, N.entry p n = some x → (w.servers j).entry p n = some x ∨ j = i ∧ x.type = .file)
    (named : (w.servers j).entry p n ≠ none → N.entry p n ≠ none) : Later i p n w w' := by
  refine ⟨forall_of_update (fun j' s => s.id = (w.servers j').id) servers becomes.id fun _ _ => rfl,
    forall_of_update (fun j' s => (w.servers j').Usable p → s.Usable p) servers
      (fun usable => becomes.usable usable List.not_mem_nil dirs) fun _ _ h => h,
    forall_of_update (fun j' s => ∀ id, (w.servers j').names.kind id = some .file → s.names.kind id = some .file) servers
      (by rw [becomes.names]; exact files) fun _ _ _ h => h,
    forall_of_update (fun j' s => ∀ x, s.entry p n = some x → (w.servers j').entry p n = some x ∨ j' = i ∧ x.type = .file) servers
      (by rw [Server.entry, becomes.names]; exact entry) fun _ _ _ h => .inl h,
    forall_of_update (fun j' (s : Server) => (w.servers j').entry p n ≠ none → s.entry p n ≠ none) servers
      (fun there => by rw [Server.entry, becomes.names]; exact named there) fun _ _ h => h⟩

theorem dirs_lazy {N : Names} {k : Kind} (isK : (N.lazy p).kind p = some k) : N.kind p = some k ∨ k = .dir := by
  rw [Names.kind_lazy] at isK
  split_ifs at isK
  · exact .inr (Option.some.inj isK).symm
  · exact .inl isK

theorem kind_lazy_of_some {N : Names} {id : FileId} {k : Kind} (isK : N.kind id = some k) : (N.lazy p).kind id = some k := by
  rw [Names.kind_lazy, if_neg]
  · exact isK
  · rintro ⟨rfl, none⟩
    rw [isK] at none
    cases none

end

theorem Opens.later {w w' : Cluster} {i : Nat} {p : FileId} {n : Name} (opens : w.Opens i p n) (later : Later i p n w w') :
    w'.Opens i p n where
  ids j := (later.ids j).trans (opens.ids j)
  usable j := later.usable j (opens.usable j)
  owner j named := by
    obtain ⟨x, found⟩ := Option.ne_none_iff_exists'.mp named
    rcases later.entry j x found with found' | ⟨here, -⟩
    · exact opens.owner j (by rw [Named, found']; exact Option.some_ne_none x)
    · exact here
  notLink j x found := by
    rcases later.entry j x found with found' | ⟨-, file⟩
    · exact opens.notLink j x found'
    · rw [file]
      decide

/-! ### The invariant -/

/-- Who has won: nobody while the name is absent, and then one client, in its call or in the log. -/
structure Inv (i : Nat) (p : FileId) (n : Name) (v : FsScene) (ghost : Nat → Phase) : Prop where
  opens : v.world.Opens i p n
  live : ∀ c x, ghost c = .made x ∨ ghost c = .won x → (v.world.servers x.server).names.kind x.id = some .file
  since : ∀ c, (ghost c = .start ∨ ∃ x, ghost c = .made x) → (v.since c).Named i p n → v.world.Named i p n
  named : ∀ c x, ghost c = .won x → v.world.Named i p n
  unique : ∀ c c' x x', ghost c = .won x → ghost c' = .won x' → c = c'
  before : ∀ c x, ghost c = .won x → ¬(v.since c).Named i p n
  apart : ∀ c x, ghost c = .won x → ∀ r ∈ v.log, r.result ≠ Status.ok
  logged : ∀ r ∈ v.log, r.result = Status.ok → v.world.Named i p n ∧ ¬r.before.Named i p n
  once : (v.log.filter fun r => r.result = Status.ok).length ≤ 1
  results : ∀ r ∈ v.log, r.result = Status.ok ∨ r.result = Status.exist

section
variable {i : Nat} {p : FileId} {n : Name} {v : FsScene} {ghost : Nat → Phase} {c : Nat} {w' : Cluster} {h : Nat → List FsEvent}
variable {x : Inode}

theorem Inv.later (inv : Inv i p n v ghost) (later : Later i p n v.world w') : Inv i p n { v with world := w', hist := h } ghost where
  opens := Opens.later inv.opens later
  live c x mine := later.files _ _ (inv.live c x mine)
  since c early there := later.named i (inv.since c early there)
  named c x won := later.named i (inv.named c x won)
  unique := inv.unique
  before := inv.before
  apart := inv.apart
  logged r mem ok := ⟨later.named i (inv.logged r mem ok).1, (inv.logged r mem ok).2⟩
  once := inv.once
  results := inv.results

theorem update_cases {g g' : Phase} {c' : Nat} (eq : update ghost c g c' = g') : c' = c ∧ g = g' ∨ c' ≠ c ∧ ghost c' = g' := by
  by_cases same : c' = c
  · subst same
    rw [update_self] at eq
    exact .inl ⟨rfl, eq⟩
  · rw [update_of_ne same] at eq
    exact .inr ⟨same, eq⟩

theorem Inv.leave {g : Phase} (inv : Inv i p n v ghost) (away : g = .lost ∨ g = .idle) : Inv i p n v (update ghost c g) := by
  have other : ∀ {c' : Nat} {g' : Phase}, update ghost c g c' = g' → g' ≠ .lost → g' ≠ .idle → ghost c' = g' := by
    grind
  refine ⟨inv.opens, fun c' x mine => inv.live c' x ?_, fun c' early => inv.since c' ?_,
    fun c' x won => inv.named c' x (other won (by simp) (by simp)),
    fun c₁ c₂ x₁ x₂ won₁ won₂ => inv.unique c₁ c₂ x₁ x₂ (other won₁ (by simp) (by simp)) (other won₂ (by simp) (by simp)),
    fun c' x won => inv.before c' x (other won (by simp) (by simp)), fun c' x won => inv.apart c' x (other won (by simp) (by simp)),
    inv.logged, inv.once, inv.results⟩
  · exact mine.imp (other · (by simp) (by simp)) (other · (by simp) (by simp))
  · exact early.imp (other · (by simp) (by simp)) fun ⟨x, made⟩ => ⟨x, other made (by simp) (by simp)⟩

theorem Inv.make (inv : Inv i p n v ghost) (start : ghost c = .start)
    (live : (v.world.servers x.server).names.kind x.id = some .file) : Inv i p n v (update ghost c (.made x)) := by
  have other : ∀ {c' : Nat} {y : Inode}, update ghost c (.made x) c' = .won y → ghost c' = .won y := by grind
  refine ⟨inv.opens, fun c' y mine => ?_, fun c' early => ?_, fun c' y won => inv.named c' y (other won),
    fun c₁ c₂ x₁ x₂ won₁ won₂ => inv.unique c₁ c₂ x₁ x₂ (other won₁) (other won₂),
    fun c' y won => inv.before c' y (other won), fun c' y won => inv.apart c' y (other won), inv.logged, inv.once, inv.results⟩
  · rcases mine with made | won
    · rcases update_cases made with ⟨-, eq⟩ | ⟨-, eq⟩
      · cases eq
        exact live
      · exact inv.live c' y (.inl eq)
    · exact inv.live c' y (.inr (other won))
  · by_cases same : c' = c
    · rw [same]
      exact inv.since c (.inl start)
    · rw [update_of_ne same] at early
      exact inv.since c' early

theorem Inv.win (inv : Inv i p n v ghost) (early : ghost c = .start ∨ ∃ y, ghost c = .made y) (absent : ¬v.world.Named i p n)
    (later : Later i p n v.world w') (named : w'.Named i p n) (live : (w'.servers x.server).names.kind x.id = some .file) :
    Inv i p n { v with world := w', hist := h } (update ghost c (.won x)) := by
  have inv' : Inv i p n { v with world := w', hist := h } ghost := inv.later later
  have nobody : ∀ c' y, ghost c' ≠ .won y := fun c' y won => absent (inv.named c' y won)
  have noOk : ∀ r ∈ v.log, r.result ≠ Status.ok := fun r mem ok => absent (inv.logged r mem ok).1
  have mine : ∀ {c' : Nat} {y : Inode}, update ghost c (.won x) c' = .won y → c' = c := by grind
  refine ⟨inv'.opens, fun c' y isMine => ?_, fun c' early' _ => named, fun _ _ _ => named,
    fun c₁ c₂ x₁ x₂ won₁ won₂ => (mine won₁).trans (mine won₂).symm, fun c' y won => ?_, fun _ _ _ => noOk, inv'.logged, inv'.once,
    inv'.results⟩
  · rcases isMine with made | won
    · rcases update_cases made with ⟨-, eq⟩ | ⟨-, eq⟩
      · cases eq
      · exact inv'.live c' y (.inl eq)
    · rcases update_cases won with ⟨-, eq⟩ | ⟨-, eq⟩
      · cases eq
        exact live
      · exact absurd eq (nobody c' y)
  · rw [mine won]
    exact fun there => absent (inv.since c early there)

theorem Inv.call (inv : Inv i p n v ghost) : Inv i p n (called v c) (update ghost c .start) := by
  have other : ∀ {c' : Nat} {y : Inode}, update ghost c .start c' = .won y → ghost c' = .won y ∧ c' ≠ c := by
    grind
  refine ⟨inv.opens, fun c' y mine => ?_, fun c' early there => ?_, fun c' y won => inv.named c' y (other won).1,
    fun c₁ c₂ x₁ x₂ won₁ won₂ => inv.unique c₁ c₂ x₁ x₂ (other won₁).1 (other won₂).1, fun c' y won => ?_,
    fun c' y won => inv.apart c' y (other won).1, inv.logged, inv.once, inv.results⟩
  · rcases mine with made | won
    · rcases update_cases made with ⟨-, eq⟩ | ⟨-, eq⟩
      · cases eq
      · exact inv.live c' y (.inl eq)
    · exact inv.live c' y (.inr (other won).1)
  · by_cases same : c' = c
    · simp only [same, update_self] at there
      exact there
    · simp only [update_of_ne same] at early there
      exact inv.since c' early there
  · simp only [update_of_ne (other won).2]
    exact inv.before c' y (other won).1

def Decided (g : Phase) (st : Int) : Prop := (∃ x, g = .won x ∧ st = Status.ok) ∨ g = .lost ∧ st = Status.exist

theorem Inv.ret {st : Int} (inv : Inv i p n v ghost) (decided : Decided (ghost c) st) :
    Inv i p n (returned v c st) (update ghost c .idle) := by
  have left : Inv i p n v (update ghost c .idle) := inv.leave (.inr rfl)
  rcases decided with ⟨x, won, rfl⟩ | ⟨lost, rfl⟩
  · have none : ∀ c' y, update ghost c .idle c' ≠ .won y := by
      intro c' y eq
      rcases update_cases eq with ⟨-, eq⟩ | ⟨ne, eq⟩
      · cases eq
      · exact ne (inv.unique c' c y x eq won)
    have empty : (v.log.filter fun r => r.result = Status.ok) = [] :=
      List.filter_eq_nil_iff.mpr fun r mem => by simpa using inv.apart c x won r mem
    refine ⟨left.opens, left.live, left.since, left.named, left.unique, left.before, fun c' y won' => absurd won' (none c' y), ?_, ?_, ?_⟩
    · intro r mem ok
      rcases List.mem_append.mp mem with mem | mem
      · exact left.logged r mem ok
      · rw [List.mem_singleton.mp mem]
        exact ⟨inv.named c x won, inv.before c x won⟩
    · simp [List.filter_append, empty]
    · intro r mem
      rcases List.mem_append.mp mem with mem | mem
      · exact left.results r mem
      · rw [List.mem_singleton.mp mem]
        exact .inl rfl
  · have notOk : ¬(Status.exist = Status.ok) := by decide
    refine ⟨left.opens, left.live, left.since, left.named, left.unique, left.before, ?_, ?_, ?_, ?_⟩
    · intro c' y won r mem
      rcases List.mem_append.mp mem with mem | mem
      · exact left.apart c' y won r mem
      · rw [List.mem_singleton.mp mem]
        exact notOk
    · intro r mem ok
      rcases List.mem_append.mp mem with mem | mem
      · exact left.logged r mem ok
      · rw [List.mem_singleton.mp mem] at ok
        exact absurd ok notOk
    · simp [List.filter_append, notOk, left.once]
    · intro r mem
      rcases List.mem_append.mp mem with mem | mem
      · exact left.results r mem
      · rw [List.mem_singleton.mp mem]
        exact .inr rfl

end

/-! ### Actions -/

def spec (i : Nat) (p : FileId) (n : Name) : Spec Cluster Action Fault Int Phase Action.Reply where
  inv v ghost := Inv i p n v ghost
  idle _ g := g = .idle
  post _ g st := Decided g st
  fails _ := False

variable {cfg : Config} {parent : InodeType} {name : Name} {i c : Nat} {g : Phase} {α : Type} {post : Phase → α → Prop}

abbrev Fine (cfg : Config) (parent : InodeType) (name : Name) (i : Nat) (post : Phase → α → Prop) (c : Nat) (g : Phase)
    (prog : FsProg α) : Prop :=
  Ok (fsSystem cfg) (exclRules parent name) (spec i parent.id name) post c g prog

theorem fine_local {a : Action} {post : Phase → a.Reply → Prop} (isLocal : Local a) (next : ∀ r, post g r) :
    Fine cfg parent name i post c g (perform a) := by
  refine Ok.act fun v ghost e (inv : Inv i parent.id name v ghost) own _ => ?_
  obtain ⟨w', r, done, same⟩ := exec_local v.world cfg c e isLocal
  refine ⟨w', r, g, done, ?_, next r⟩
  rw [← own, update_eq_self]
  exact inv.later (later_same same)

theorem fine_ensure {b : Bool} {post : Phase → Unit → Prop} (holds : b = true) (next : post g ()) :
    Fine cfg parent name i post c g (ensure b) := by
  subst holds
  exact next

theorem blocks_covered {s : Server} {id : Nat} (covers : s.Covers id offset count) :
    ∃ list, s.blocks id offset count = .ok (.ok, list) := by
  obtain ⟨f, found, small, covered⟩ := covers
  have int : ∀ {n : Nat}, n < 2147483648 → toInt32 n = n := fun {n} lt => by
    simp only [toInt32]
    rw [Nat.mod_eq_of_lt (by omega), if_pos lt]
    omega
  simp only [Server.blocks, found, File.blocks, int (show offset < 2147483648 by omega), int (show count < 2147483648 by omega)]
  rw [if_neg (by omega), if_neg]
  · exact ⟨_, rfl⟩
  · grind

theorem fine_getBlocklist {inode : InodeType} {post : Phase → List Nat → Prop} (next : ∀ list, post g list) :
    Fine cfg parent name i post c g (AppFile.getBlocklist inode offset count) := by
  refine Ok.bind (Ok.act fun v ghost e (inv : Inv i parent.id name v ghost) own allowed => ?_)
  obtain ⟨list, asked⟩ := blocks_covered (allowed.2.2 _ _ _ rfl)
  obtain ⟨w', done, servers⟩ := exec_rpc (Server.handle_blocks cfg e c asked)
  refine ⟨w', _, g, done, ?_, Ok.bind (fine_ensure rfl (next list))⟩
  rw [← own, update_eq_self]
  exact inv.later (later_same (same_of_becomes servers .refl))

theorem fine_cacheLoop {h : Nat} : ∀ {fuel n : Nat} {f : AppFile},
    Fine cfg parent name i (fun g' _ => g' = g) c g (AppFile.cacheLoop h fuel f n count) := by
  intro fuel
  induction fuel with
  | zero => exact fun {_ _} => rfl
  | succ fuel ih =>
    intro n f
    unfold AppFile.cacheLoop
    split_ifs
    · exact Ok.bind (fine_getBlocklist fun list => Ok.bind (fine_local trivial fun _ => ih))
    · exact rfl

theorem fine_openDone {cfg' : Config} {inode : InodeType} {reply : OpenReply} {fd : Fd} {size : Nat} {flags : Flags} {dir : InodeType}
    {path : Name} {post : Phase → OpenResult → Prop} (type : reply.type = some .file) (isFd : reply.fd = some fd)
    (isSize : reply.size = some size) (next : ∀ h, post g (.ok, h)) :
    Fine cfg parent name i post c g (openDone cfg' inode reply flags dir path) := by
  simp only [openDone, type, isFd, isSize]
  refine Ok.bind (fine_local trivial fun h => ?_)
  have cached : Fine cfg parent name i (fun g' _ => g' = g) c g (AppFile.cacheBlocks cfg' h
      { inode := { inode with type := .file }, fd, blocks := [], size, state := .invalid, offset := 0 }) := by
    unfold AppFile.cacheBlocks
    split_ifs
    · exact fine_cacheLoop
    · exact rfl
  refine Ok.bind (cached.mono fun g' f same => ?_)
  subst same
  refine Ok.bind (fine_local trivial fun _ => ?_)
  split_ifs
  · exact Ok.bind (fine_local trivial fun _ => next _)
  · exact next _

/-! ### Requests -/

variable {flags : Flags} {mode : Nat}

theorem fine_createOpen {post : Phase → OpenReply → Prop} (component : Component name) (notStats : name ≠ "stats")
    (excl : flags.excl = true) (notDir : flags.directory = false)
    (lost : ∀ y, post .lost { Server.openFail .exist with exist := some y })
    (won : ∀ x fd size, post (.won x) { retval := .ok, fd := some fd, type := some .file, size := some size, state := .shared, exist := some { server := x.server, id := x.id, type := .file } }) :
    Fine cfg parent name i post c .start (rpc i (.createOpen parent.only name flags mode)) := by
  refine Ok.act fun v ghost e (inv : Inv i parent.id name v ghost) own allowed => ?_
  cases found : (v.world.servers i).entry parent.id name with
  | some y =>
    have refused := Server.handleCreateOpen_excl e c mode component.nonempty found (inv.opens.notLink i y found) excl
    obtain ⟨w', done, servers⟩ := exec_rpc (Server.handle_createOpen cfg parent.only refused)
    refine ⟨w', _, .lost, done, ?_, lost y⟩
    exact (inv.later (later_same (same_of_becomes servers .refl))).leave (.inl rfl)
  | none =>
    have usable := inv.opens.usable i
    have fresh := allowed.1 _ rfl
    obtain ⟨t, size, created, becomes⟩ :=
      Server.handleCreateOpen_new e c mode component.nonempty notStats usable found fresh notDir
    obtain ⟨w', done, servers⟩ := exec_rpc (Server.handle_createOpen cfg parent.only created)
    refine ⟨w', _, .won { server := (v.world.servers i).id, id := ((v.world.servers i).lazyDir parent.id).newId }, done, ?_, won _ _ _⟩
    have later : Later i parent.id name v.world w' := by
      refine later_of_becomes servers becomes (fun k isK => ?_) (fun id isFile => ?_) (fun x isX => ?_) fun there => absurd found there
      · rw [Names.kind_bind, Names.kind_add, if_neg (Server.newId_ne usable fresh)] at isK
        exact dirs_lazy isK
      · rw [Names.kind_bind, Names.kind_add]
        split_ifs
        · rfl
        · exact kind_lazy_of_some isFile
      · grind [Names.entry_bind]
    refine inv.win (.inl own) (fun there => there found) later ?_ ?_
    · rw [Named, Server.entry, servers, update_self, becomes.names, Names.entry_bind, if_pos ⟨rfl, rfl⟩]
      exact Option.some_ne_none _
    · simp only [inv.opens.ids i, servers, update_self, becomes.names, Names.kind_bind, Names.kind_add, if_true]

theorem fine_create {j : Nat} {post : Phase → Status × Option InodeType → Prop} (component : Component name)
    (notDir : flags.directory = false) (away : j ≠ i) (made : ∀ id, post (.made { server := j, id }) (.ok, some { server := j, id, type := .file })) :
    Fine cfg parent name i post c .start (fosCreate j parent name flags mode) := by
  have notRoot : ¬(parent.id = 0 ∧ name = "/") := fun root => component.noSlash (by rw [root.2]; decide)
  rw [fosCreate, if_neg notRoot]
  refine Ok.act fun v ghost e (inv : Inv i parent.id name v ghost) own allowed => ?_
  have usable := inv.opens.usable j
  have fresh := allowed.1 _ rfl
  have absent : (v.world.servers j).entry parent.id name = none := by
    by_contra there
    exact away (inv.opens.owner j there)
  obtain ⟨t, created, becomes⟩ := Server.handleCreate_file cfg e c mode component.nonempty usable absent fresh notDir
  rw [inv.opens.ids j] at created
  obtain ⟨w', done, servers⟩ := exec_rpc (Server.handle_create created)
  refine ⟨w', _, .made { server := j, id := ((v.world.servers j).lazyDir parent.id).newId }, done, ?_, made _⟩
  have later : Later i parent.id name v.world w' := by
    refine later_of_becomes servers becomes (fun k isK => ?_) (fun id isFile => ?_) (fun x isX => ?_) fun there => absurd absent there
    · rw [Names.kind_add, if_neg (Server.newId_ne usable fresh)] at isK
      exact dirs_lazy isK
    · rw [Names.kind_add]
      split_ifs
      · rfl
      · exact kind_lazy_of_some isFile
    · rw [Names.entry_add, Names.entry_lazy] at isX
      exact .inl isX
  refine (inv.later later).make own ?_
  simp only [servers, update_self, becomes.names, Names.kind_add, if_true]

theorem fine_addMap {post : Phase → Status × InodeType → Prop} (notStats : name ≠ "stats")
    (won : post (.won x) (.ok, { server := x.server, id := x.id, type := .file })) :
    Fine cfg parent name i post c (.made x) (fosAddMap i parent name { server := x.server, id := x.id, type := .file } false) := by
  refine Ok.bind (Ok.act fun v ghost e (inv : Inv i parent.id name v ghost) own allowed => ?_)
  have usable := inv.opens.usable i
  have absent : (v.world.servers i).entry parent.id name = none := not_not.mp (allowed.2.1 _ _ _ _ rfl)
  obtain ⟨t, mapped, becomes⟩ :=
    Server.handleAddMap_new e c { server := x.server, id := x.id, type := .file } false notStats usable absent
  have handled : (v.world.servers i).handle cfg e c (.addMap parent.only name { server := x.server, id := x.id, type := .file } false) =
    .ok (t, _, []) := mapped
  obtain ⟨w', done, servers⟩ := exec_rpc handled
  have later : Later i parent.id name v.world w' := by
    refine later_of_becomes servers becomes (fun k isK => ?_) (fun id isFile => ?_) (fun x isX => ?_) fun there => absurd absent there
    · rw [Names.kind_bind] at isK
      exact dirs_lazy isK
    · rw [Names.kind_bind]
      exact kind_lazy_of_some isFile
    · grind [Names.entry_bind]
  refine ⟨w', _, .won x, done, inv.win (.inr ⟨x, own⟩) (fun there => there absent) later ?_ ?_, ?_⟩
  · rw [Named, Server.entry, servers, update_self, becomes.names, Names.entry_bind, if_pos ⟨rfl, rfl⟩]
    exact Option.some_ne_none _
  · exact later.files _ _ (inv.live c x (.inl own))
  · exact Ok.bind (fine_local trivial fun _ => won)

theorem fine_open {type : FileType} {post : Phase → OpenReply → Prop} (notDir : flags.directory = false)
    (next : ∀ fd size, post (.won x) { retval := .ok, fd := some fd, type := some .file, size := some size, state := .shared, exist := none }) :
    Fine cfg parent name i post c (.won x) (fosOpen { server := x.server, id := x.id, type } flags) := by
  refine Ok.act fun v ghost e (inv : Inv i parent.id name v ghost) own allowed => ?_
  obtain ⟨f, found⟩ := Server.lookup_file (inv.live c x (.inr own))
  obtain ⟨t, size, isOpen, becomes⟩ := Server.open_becomes e flags found notDir
  obtain ⟨w', done, servers⟩ := exec_rpc (Server.handle_open cfg c isOpen)
  refine ⟨w', _, .won x, done, ?_, next _ _⟩
  rw [← own, update_eq_self]
  exact inv.later (later_same (same_of_becomes servers becomes))

/-! ### The call -/

section
variable {cfg' : Config} {saveParent : InodeType} {savePath : Name} {cached : Bool}

def Opened (g : Phase) (r : OpenResult) : Prop := Decided g r.1

theorem fine_openCreate (component : Component name) (notStats : name ≠ "stats") (excl : flags.excl = true)
    (notDir : flags.directory = false) :
    Fine cfg parent name i Opened c .start (openCreate cfg' saveParent savePath parent name flags mode cached i) := by
  have notRoot : ¬(parent.id = 0 ∧ name = "/") := fun root => component.noSlash (by rw [root.2]; decide)
  refine Ok.bind (fine_ensure (decide_eq_true notRoot) ?_)
  refine Ok.bind (fine_createOpen component notStats excl notDir (fun y => ?_) fun x fd size => ?_)
  · simp only [Server.openFail, excl, if_true]
    exact .inr ⟨rfl, rfl⟩
  · have notExist : ¬(Status.ok = Status.exist) := by decide
    simp only [if_neg notExist, ne_eq, not_true_eq_false, if_false]
    exact fine_openDone rfl rfl rfl fun h => .inl ⟨x, rfl, rfl⟩

theorem fine_openInode {type : FileType} (notDir : flags.directory = false) :
    Fine cfg parent name i Opened c (.won x)
      (openInode cfg' saveParent savePath parent name flags cached { server := x.server, id := x.id, type }) := by
  refine Ok.bind (fine_open notDir fun fd size => ?_)
  have notStale : ¬(cached = true ∧ Status.ok = Status.notFound) := fun stale => absurd stale.2 (by decide)
  simp only [if_neg notStale, ne_eq, not_true_eq_false, if_false]
  exact fine_openDone rfl rfl rfl fun h => .inl ⟨x, rfl, rfl⟩

theorem fine_openCreate3 {j : Nat} (component : Component name) (notStats : name ≠ "stats") (notDir : flags.directory = false) (away : j ≠ i) :
    Fine cfg parent name i Opened c .start (openCreate3 cfg' saveParent savePath parent name flags mode cached j i) := by
  have notRoot : ¬(parent.id = 0 ∧ name = "/") := fun root => component.noSlash (by rw [root.2]; decide)
  refine Ok.bind (fine_create component notDir away fun id => ?_)
  have mapped : Fine cfg parent name i (fun g inode => g = .won { server := j, id } ∧ inode = { server := j, id, type := .file }) c
      (.made { server := j, id }) (mapCreated i parent name { server := j, id, type := .file }) := by
    refine Ok.bind (fine_addMap (x := { server := j, id }) notStats ?_)
    exact ⟨rfl, rfl⟩
  refine Ok.bind (mapped.mono fun g inode decided => ?_)
  obtain ⟨rfl, rfl⟩ := decided
  exact Ok.bind (fine_ensure (decide_eq_true notRoot) (fine_openInode notDir))

theorem fine_fileOpen (isDir : parent.type.isDir = true) (owner : fosPathOwner cfg' parent name = .ok i) (component : Component name)
    (notStats : name ≠ "stats") (creat : flags.creat = true) (excl : flags.excl = true) (notDir : flags.directory = false) :
    Fine cfg parent name i Opened c .start (fosFileOpen cfg' parent name flags mode) := by
  unfold fosFileOpen
  rw [if_neg (by simp [notDir]), component.fosLookupParent_eq isDir]
  refine Ok.bind (Ok.bind (fine_local trivial fun _ => ?_))
  simp only [ok_ret, creat, if_true, owner, Prog.lift, ne_eq, not_true_eq_false, if_false, Prog.ret_bind]
  split_ifs with same
  · rw [same]
    exact fine_openCreate component notStats excl notDir
  · exact fine_openCreate3 component notStats notDir same

end

theorem sound (isDir : parent.type.isDir = true) (owner : fosPathOwner cfg parent name = .ok i) (component : Component name)
    (notStats : name ≠ "stats") : Sound (fsSystem cfg) (exclRules parent name) (spec i parent.id name) where
  call v ghost c o inv idle allowed := by
    refine ⟨.start, Inv.call inv, ?_⟩
    cases o with
    | «open» p n flags mode =>
      obtain ⟨rfl, rfl, creat, excl, notDir⟩ := allowed
      refine Ok.bind ((fine_fileOpen isDir ?_ component notStats creat excl notDir).mono fun g r decided => decided)
      exact owner
    | _ => exact allowed.elim
  ret v ghost c x inv decided := ⟨.idle, Inv.ret inv decided, rfl⟩
  intern v ghost j w inv done := by
    have done : ((v.world.clients j.1).poll j.2).map (fun k => v.world.setClient j.1 k) = some w := done
    obtain ⟨k, polled, rfl⟩ := Option.map_eq_some_iff.mp done
    exact Inv.later inv (later_same (same_of_servers rfl))

theorem safe_of_start {s : FsConf} {p : FileId} (start : s.Start) (opens : s.world.Opens i p name) :
    Safe (fsSystem cfg) (exclRules parent name) (spec i p name) s := by
  refine ⟨fun _ => .idle, ⟨opens, by simp, by simp, by simp, by simp, by simp, by simp, ?_, ?_, ?_⟩, ?_⟩
  · simp [start.log]
  · simp [start.log]
  · simp [start.log]
  · intro c
    rw [start.call c]
    rfl

end Exclusive

namespace Cluster
open System

/-- In every run that meets the rules, at most one exclusive open of a name succeeds. -/
theorem exclusive_of_rules (cfg : Config) (parent : InodeType) (name : Name) (i : Nat) (isDir : parent.type.isDir = true)
    (owner : fosPathOwner cfg parent name = .ok i) (component : Component name) (notStats : name ≠ "stats") (s : FsConf)
    (reach : Reach (fun s : FsConf => s.Start ∧ s.world.Opens i parent.id name) (exclRules parent name).Allow (fsSystem cfg).step s) :
    s.Exclusive i parent.id name ∧ NoFault (fsSystem cfg) (exclRules parent name) (fun _ => False) s := by
  have safe := safe_of_reach (Exclusive.sound isDir owner component notStats)
    (fun s init => Exclusive.safe_of_start init.1 init.2) reach
  refine ⟨?_, safe.noFault⟩
  obtain ⟨ghost, inv, -⟩ := safe
  exact ⟨inv.once, fun r mem ok => (inv.logged r mem ok).2, inv.results⟩

/-! ### Runs -/

theorem freshIds_of_check {s : Server} {q : Request} (checked : s.checkFresh q = true) : s.FreshIds q := by
  intro u isU
  simp only [Server.checkFresh, isU, Option.all_some] at checked
  exact Server.unused_of_check checked

theorem covers_of_check {s : Server} {id : Nat} (checked : s.checkCovers (.blocks id offset count) = true) :
    s.Covers id offset count := by
  simp only [Server.checkCovers] at checked
  split at checked
  · next f found => exact ⟨f, found, of_decide_eq_true checked⟩
  · cases checked

theorem exclRules_of_check {parent : InodeType} {v : FsScene} {c : Nat} {env : Env} {a : Action}
    (checked : checkExcl v.world a = true) : (exclRules parent name).acts v c env a := by
  cases a with
  | rpc i q =>
    simp only [checkExcl, Bool.and_eq_true] at checked
    refine ⟨freshIds_of_check checked.1.1, ?_, ?_⟩
    · rintro p n x overwrite rfl
      exact not_not.mpr (of_decide_eq_true checked.2)
    · rintro id offset count rfl
      exact covers_of_check checked.1.2
  | _ => trivial

def checkExclusive (parent : InodeType) (name : Name) (s : FsConf) (l : FsLabel) : Bool :=
  checkAllow (fun _ _ o => decide (o.exclusive parent name)) (fun v _ _ a => checkExcl v.world a) s l

theorem allow_of_checkExclusive {parent : InodeType} (s : FsConf) (l : FsLabel)
    (checked : checkExclusive parent name s l = true) : (exclRules parent name).Allow s l :=
  allow_of_check (fun _ _ o checked => of_decide_eq_true (p := o.exclusive parent name) checked)
    (fun _ _ _ _ checked => exclRules_of_check checked) s l checked

def twoServers : Config := { Server.oneServer with serverCount := 2 }

def noBlocks : Cluster := boot { start := 0, blocks := [], blocksFree := 0 }

theorem opens_noBlocks {i : Nat} (notDots : name ≠ "..") : noBlocks.Opens i 0 name where
  ids _ := rfl
  usable _ := Server.usable_boot
  owner _ named := absurd (Server.entry_boot notDots) named
  notLink _ x found := by
    cases (Server.entry_boot notDots).symm.trans found

def openExcl (name : Name) : Op := .open root name { creat := true, excl := true, rdwr := true } 420

def createTwice : List FsLabel := plain 0 (openExcl "a") 5 1 ++ plain 1 (openExcl "a") 2 2

theorem checked_createTwice : checkRun (checkExclusive root "a") (fsSystem twoServers).step (idle noBlocks) createTwice = true := by
  decide +kernel

theorem run_createTwice : (run (fsSystem twoServers).step (idle noBlocks) createTwice).map (fun s => s.log.map (·.result)) =
    some [Status.ok, Status.exist] := by decide +kernel

theorem exclusive_createTwice : ∃ s, Reach (fun s : FsConf => s.Start ∧ s.world.Opens 0 root.id "a") (exclRules root "a").Allow
      (fsSystem twoServers).step s ∧ s.log.map (·.result) = [Status.ok, Status.exist] ∧
    s.Exclusive 0 root.id "a" ∧ NoFault (fsSystem twoServers) (exclRules root "a") (fun _ => False) s := by
  obtain ⟨s, ran, results⟩ := Option.map_eq_some_iff.mp run_createTwice
  have reach : Reach (fun s : FsConf => s.Start ∧ s.world.Opens 0 root.id "a") (exclRules root "a").Allow
      (fsSystem twoServers).step s :=
    (Reach.init ⟨start_idle, opens_noBlocks (by decide)⟩).of_guarded (guarded_of_check allow_of_checkExclusive _ checked_createTwice) ran
  exact ⟨s, reach, results, exclusive_of_rules twoServers root "a" 0 rfl rfl ⟨by decide, by decide⟩ (by decide) s reach⟩

def createBoth : List FsLabel := plain 0 (openExcl "b") 7 1 ++ plain 1 (openExcl "b") 7 2

theorem run_createBoth : (run (fsSystem twoServers).step (idle noBlocks) createBoth).map (fun s => s.log.map (·.result)) =
    some [Status.ok, Status.ok] := by decide +kernel

theorem allow_createBoth : ∀ l ∈ createBoth, ∀ s : FsConf, (onCalls (Op.exclusive root "b") : FsRules).Allow s l := by
  intro l mem s
  rcases List.mem_append.mp mem with mem | mem
  all_goals exact allow_wholeCall ⟨rfl, rfl, rfl, rfl, rfl⟩ mem s

/-- Both succeed: the second one has found the entry, and opens what it leads to. -/
theorem exists_two_winners : ∃ s, Reach (fun s : FsConf => s.Start ∧ s.world.Opens 0 root.id "b")
      (onCalls (Op.exclusive root "b") : FsRules).Allow (fsSystem twoServers).step s ∧
    s.log.map (·.result) = [Status.ok, Status.ok] ∧ ¬s.Exclusive 0 root.id "b" := by
  obtain ⟨s, ran, results⟩ := Option.map_eq_some_iff.mp run_createBoth
  refine ⟨s, (Reach.init ⟨start_idle, opens_noBlocks (by decide)⟩).of_guarded (guarded_of_forall allow_createBoth _) ran, results,
    fun exclusive => ?_⟩
  have count : ((s.log.map (·.result)).filter fun st => st = Status.ok).length ≤ 1 := by
    rw [List.filter_map, List.length_map]
    exact exclusive.once
  rw [results] at count
  exact absurd count (by decide)

end Cluster
end Faux
