import Faux.Fs.Marshall
import Faux.Lib.Run

/-! # Descriptors and removed inodes

One server that takes requests of any clients in any order. A descriptor is live while it is in `m_fds`. An
inode that is removed while a live descriptor refers to it becomes an orphan. -/

namespace Faux
open Lib
namespace Server

structure Act where
  env : Env
  app : AppId
  req : Request

/-- The server after a request. `none`: the server has stopped. -/
def step (cfg : Config) (s : Server) (a : Act) : Option Server :=
  match s.handle cfg a.env a.app a.req with
  | .ok (t, _) => some t
  | .error _ => none

def Live (s : Server) (id : FileId) : Prop := ∃ fd d, s.fds.lookup fd = some d ∧ d.id = id

def Orphan (s : Server) (id : FileId) : Prop := ∃ o ∈ s.orphans, o.id = id

structure Fresh (s : Server) : Prop where
  fds : s.fds = ∅
  pipes : s.pipes = ∅
  orphans : s.orphans = []

def Present (s : Server) (id : FileId) : Prop := id ∈ s.files ∨ id ∈ s.pipes

/-- Objects survive until the last close: what a live descriptor refers to is there, closing and reading
    through a live descriptor does not fail an assertion, and an inode that has been removed is there
    exactly as long as a live descriptor refers to it. -/
structure Survives (cfg : Config) (allowed : Server → Act → Prop) (s : Server) : Prop where
  present : ∀ id, s.Live id → s.Present id
  closes : ∀ env app fd offset size, s.fds.lookup fd ≠ none → allowed s ⟨env, app, .close fd offset size⟩ →
    s.close fd offset size ≠ .error .assertion
  reads : ∀ env app fd count, s.fds.lookup fd ≠ none → allowed s ⟨env, app, .read fd count⟩ →
    s.read fd count ≠ .error .assertion
  orphans : ∀ id a t, s.Orphan id → allowed s a → s.step cfg a = some t → (t.Present id ↔ t.Live id)
  destroyed : ∀ env app id t notes, allowed s ⟨env, app, .destroy id⟩ →
    s.handle cfg env app (.destroy id) = .ok (t, .ok, notes) → (t.Present id ↔ t.Live id)
  unlinked : ∀ env app id entry t notes, allowed s ⟨env, app, .unlink id entry⟩ →
    s.handle cfg env app (.unlink id entry) = .ok (t, .ok, notes) → (t.Present id ↔ t.Live id)
  rmdired : ∀ env app id phase t notes, allowed s ⟨env, app, .rmdir id phase⟩ → phase = .force ∨ phase = .success →
    s.handle cfg env app (.rmdir id phase) = .ok (t, .ok, notes) → (t.Present id ↔ t.Live id)
  unmapped : ∀ env app id parent path t notes, allowed s ⟨env, app, .rmdirAndMap id parent path⟩ →
    s.handle cfg env app (.rmdirAndMap id parent path) = .ok (t, .ok, notes) → (t.Present id ↔ t.Live id)

def newFds (env : Env) : Request → List Fd
  | .open .. | .createOpen .. => [env.rand]
  | .pipe => [env.rand, env.rand']
  | _ => []

def lazyId : Request → Option FileId
  | .create parent .. => some parent.id
  | .addMap parent .. => some parent.id
  | .updateMap parent .. => some parent.id
  | .createOpen parent .. => some parent.id
  | .rmdir id _ => some id
  | .rmdirAndMap id .. => some id
  | .symlink parent .. => some parent
  | _ => none

def allocIn (s : Server) : Request → Option Server
  | .create parent .. => some (s.lazyDir parent.id)
  | .createOpen parent .. => some (s.lazyDir parent.id)
  | .symlink parent .. => some (s.lazyDir parent)
  | .pipe => some s
  | _ => none

def Unused (s : Server) (id : FileId) : Prop := ¬s.Present id ∧ ¬s.Orphan id

/-- The requests that do not run into a defect: descriptors and inode ids are not given twice, counts do not
    overflow, directories are not destroyed or read through a descriptor, and an orphan is closed for the last
    time through a descriptor when no other descriptor refers to it. -/
structure Guard (s : Server) (a : Act) : Prop where
  fds : (newFds a.env a.req).Nodup ∧ ∀ fd ∈ newFds a.env a.req, fd ∉ s.fds
  pipeFds : a.req = .pipe → a.env.rand ≠ 0 ∧ a.env.rand' ≠ 0
  lazy : ∀ id, lazyId a.req = some id → id ∉ s.files → s.Unused id
  alloc : ∀ u, s.allocIn a.req = some u → u.Unused u.newId
  dup : ∀ fd d, a.req = .dup fd → s.fds.lookup fd = some d → d.count + 1 < 2147483648
  destroy : ∀ id d, a.req = .destroy id → s.files.lookup id = some (.dir d) → ¬s.Live id
  read : ∀ fd count d dir, a.req = .read fd count → s.fds.lookup fd = some d → s.files.lookup d.id ≠ some (.dir dir)
  close : ∀ fd offset size d, a.req = .close fd offset size → s.fds.lookup fd = some d → d.count = 1 → s.Orphan d.id →
    ∀ fd' d', s.fds.lookup fd' = some d' → d'.id = d.id → fd' = fd

def unused (s : Server) (id : FileId) : Bool := id ∉ s.files && id ∉ s.pipes && s.orphans.all fun o => o.id ≠ id

def checkKind (s : Server) (env : Env) : Request → Bool
  | .pipe => env.rand ≠ 0 && env.rand' ≠ 0
  | .dup fd => (s.fds.lookup fd).all fun d => d.count + 1 < 2147483648
  | .destroy id =>
    match s.files.lookup id with
    | some (.dir _) => s.fds.entries.all fun e => e.2.id ≠ id
    | _ => true
  | .read fd _ => (s.fds.lookup fd).all fun d =>
    match s.files.lookup d.id with
    | some (.dir _) => false
    | _ => true
  | .close fd _ _ => (s.fds.lookup fd).all fun d =>
    d.count ≠ 1 || (s.orphans.all fun o => o.id ≠ d.id) || s.fds.entries.all fun e => e.2.id ≠ d.id || e.1 = fd
  | _ => true

def checkGuard (s : Server) (a : Act) : Bool :=
  decide (newFds a.env a.req).Nodup && ((newFds a.env a.req).all fun fd => fd ∉ s.fds) &&
    ((lazyId a.req).all fun id => id ∈ s.files || s.unused id) && ((s.allocIn a.req).all fun u => u.unused u.newId) &&
    s.checkKind a.env a.req

end Server
end Faux
