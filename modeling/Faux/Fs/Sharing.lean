import Faux.Fs.Process
import Faux.Fs.Store
import Faux.Fs.System

/-! # Shared descriptors

Seeking, and what a process does with the copy of a file when the descriptor is handed to another process or
object (`sys/fs/lib/file.cpp`, `sys/fs/lib/misc.cpp`, `libs/basicp`). -/

namespace Faux
open Lib

namespace AppFile
variable (cfg : Config)

/-- `File::lseek`. Offsets are of type `uint64_t`. -/
def lseek (h : Nat) (f : AppFile) (offset : Nat) (whence : Whence) : FsProg Int :=
  if cfg.bufferCache ∧ f.state ≠ .invalid then do
    let offset ← Prog.lift (Server.seekTo offset f.offset f.size whence)
    perform (.setFile h { f with offset })
    .ret offset
  else do
    let offset ← rpc f.inode.server (.lseek f.fd offset whence)
    .ret offset

/-- `File::state(CACHE_INVALID)`: only an exclusive copy is flushed. -/
def invalidate (h : Nat) (f : AppFile) : FsProg Unit :=
  if cfg.bufferCache ∧ f.state = .exclusive then do
    let _ ← rpc f.inode.server (.flush f.fd f.size f.offset)
    perform (.setFile h { f with state := .invalid })
  else perform (.setFile h { f with state := .invalid })

/-- `fosFileDup`, with the assertion of its callers. -/
def fosFileDup (f : AppFile) : FsProg Unit := do
  let (retval, _) ← rpc f.inode.server (.dup f.fd)
  ensure (retval = .ok)

/-- `fsCloneFds` for one descriptor: what a fork does with it in the parent. -/
def clone (h : Nat) (f : AppFile) : FsProg Unit := do
  invalidate cfg h f
  fosFileDup f

/-- `fsFlattenFdInternal` of a shared entry: the descriptor gets an object of its own. -/
def flatten (f : AppFile) : FsProg Unit := do
  fosFileDup f
  let _ ← perform (.newFile (.alloc f.inode f.fd))

def exec (h : Nat) (f : AppFile) : FsProg Unit := perform (.setFile h (.alloc f.inode f.fd))

end AppFile

def cloneFiles (cfg : Config) : List Nat → FsProg Int
  | [] => .ret 0
  | h :: hs => do
    match ← perform (.getFile h) with
    | some f => do
      f.clone cfg h
      cloneFiles cfg hs
    | none => .fail .assertion

/-- The operations of a process: those of a client, and those that hand descriptors on. -/
inductive ShareOp where
  | plain (o : Op)
  | lseek (h offset : Nat) (whence : Whence)
  /-- A duplicate shares the object, without a request. -/
  | dup (h : Nat)
  | flatten (h : Nat)
  | fork (hs : List Nat)
  /-- A child or a new program gets a descriptor, with a copy that is not valid. -/
  | inherit (f : AppFile)

def ShareOp.code (cfg : Config) : ShareOp → FsProg Int
  | .plain o => o.code cfg
  | .lseek h offset whence => onFile h fun f => f.lseek cfg h offset whence
  | .dup h => onFile h fun _ => .ret 0
  | .flatten h => onFile h fun f => do
    f.flatten
    .ret 0
  | .fork hs => cloneFiles cfg hs
  | .inherit f => do
    let _ ← perform (.newFile { f with state := .invalid })
    .ret 0

def shareSystem (cfg : Config) : System Cluster Action ShareOp Fault Int Env (Nat × Nat) Action.Reply where
  exec := Cluster.exec cfg
  intern := Cluster.intern
  code c o := o.code (cfg.client c)

/-! ### One descriptor of one process -/

/-- The ways in which a descriptor is handed on. -/
inductive Handoff where
  /-- The copy is invalidated, as it is when the descriptor is closed. -/
  | invalidate
  | fork
  | exec
  | flatten
  deriving DecidableEq

namespace Handoff

def code (cfg : Config) (h : Nat) (f : AppFile) : Handoff → FsProg Unit
  | invalidate => f.invalidate cfg h
  | fork => f.clone cfg h
  | exec => f.exec h
  | flatten => f.flatten

def flushes : Handoff → Bool
  | invalidate | fork => true
  | exec | flatten => false

end Handoff

/-- What a process does with a descriptor. -/
inductive FdOp where
  | read (count : Nat)
  | write (buf : List UInt8)
  | lseek (offset : Nat) (whence : Whence)
  | truncate (len : Nat)
  | handoff (k : Handoff)

namespace FdOp

def code (cfg : Config) (h : Nat) : FdOp → FsProg Int
  | read count => (Op.read h count).code cfg
  | write buf => (Op.write h buf).code cfg
  | lseek offset whence => (ShareOp.lseek h offset whence).code cfg
  | truncate len => (Op.truncate h len).code cfg
  | handoff k => onFile h fun f => do
    k.code cfg h f
    .ret 0

def touches : FdOp → Bool
  | read _ | write _ => true
  | _ => false

def invalidates : FdOp → Bool
  | handoff k => k ≠ .flatten
  | _ => false

end FdOp

namespace Cluster

def uses (cfg : Config) (c h : Nat) (w : Cluster) : List (Env × FdOp) → Res Cluster
  | [] => .ok w
  | (env, o) :: os => do
    let (w, _) ← Prog.run (fun w a => w.exec cfg c env a) w (o.code (cfg.client c) h)
    uses cfg c h w os

def served (w : Cluster) (i : Nat) (fd : Fd) : Option (Nat × Nat) :=
  match (w.servers i).fds.lookup fd with
  | some d =>
    match (w.servers i).files.lookup d.id with
    | some (.file g) => some (d.offset, g.size)
    | _ => none
  | none => none

/-- The offset and the size that the process observes: those of its copy, or those of the server when the copy is not
    valid. -/
def observed (w : Cluster) (c h : Nat) : Option (Nat × Nat) :=
  match (w.clients c).files.lookup h with
  | some f => if f.state ≠ .invalid then some (f.offset, f.size) else w.served f.inode.server f.fd
  | none => none

structure Opened (w : Cluster) (c h : Nat) (f : AppFile) : Prop where
  file : (w.clients c).files.lookup h = some f
  next : h < (w.clients c).nextFile
  state : f.state = .shared
  held : ∃ d g, (w.servers f.inode.server).fds.lookup f.fd = some d ∧ d.id = f.inode.id ∧
    (w.servers f.inode.server).files.lookup f.inode.id = some (.file g) ∧ d.offset = f.offset ∧ g.size = f.size

end Cluster

/-- A hand-off after these operations finds the server up to date, or makes it so: the copy is not valid any more, or it
    has been read or written and is flushed, or it has not been used. -/
def Handoff.Covered (k : Handoff) (os : List FdOp) : Prop :=
  (∃ o ∈ os, o.invalidates) ∨ k.flushes ∧ (∃ o ∈ os, o.touches) ∨ ∀ o ∈ os, o = .handoff .flatten

/-- An operation that only reads: open without `O_TRUNC`, read, lseek, dup, the hand-off of a fork, and close. -/
def ShareOp.Reads : ShareOp → Prop
  | .plain (.open _ _ flags _) => flags.trunc = false
  | .plain (.read ..) | .plain (.close ..) => True
  | .plain _ => False
  | _ => True

namespace Cluster

/-- A step of client `c` has changed neither the size nor the contents of a file, for the servers and for all other
    clients. Files that no descriptor refers to may have gone. -/
structure Unchanged (c : Nat) (w w' : Cluster) : Prop where
  files : ∀ i id g, (w.servers i).files.lookup id = some (.file g) →
    (∃ g', (w'.servers i).files.lookup id = some (.file g') ∧ g'.size = g.size ∧
      g'.contents (w'.servers i).mem = g.contents (w.servers i).mem) ∨
    id ∉ (w'.servers i).files ∧ (w'.servers i).referenced id = false
  clients : ∀ c', c' ≠ c → (w'.clients c').files = (w.clients c').files

/-- A request does not run into a defect: the descriptor of an orphan that is closed is the only one, a new inode gets an id
    that is not in use, and the entry that is added is not the one of the statistics. -/
def Mild (w : Cluster) : Action → Prop
  | .rpc i (.close fd _ _) => ∀ d, (w.servers i).fds.lookup fd = some d → (∃ o ∈ (w.servers i).orphans, o.id = d.id) →
      ∀ fd' d', (w.servers i).fds.lookup fd' = some d' → d'.id = d.id → fd' = fd
  | .rpc i (.create parent ..) => ((w.servers i).lazyDir parent.id).newId ∉ ((w.servers i).lazyDir parent.id).files
  | .rpc i (.createOpen parent path ..) => path ≠ "stats" ∧
      ((w.servers i).lazyDir parent.id).newId ∉ ((w.servers i).lazyDir parent.id).files
  | .rpc _ (.addMap _ path ..) => path ≠ "stats"
  | _ => True

end Cluster

/-! ### The copy of a reader -/

/-- An action that writes no block and changes no file, except that a flush sets its size. -/
def Action.Reads : Action → Prop
  | .rpc _ (.create _ _ flags _) => flags.directory = false
  | .rpc _ (.open _ flags) | .rpc _ (.createOpen _ _ flags _) => flags.trunc = false
  | .rpc _ (.addMap _ _ _ overwrite) => overwrite = false
  | .rpc _ (.close _ offset size) => offset = none ∧ size = none
  | .rpc _ (.destroy _) | .rpc _ (.read ..) | .rpc _ (.lseek ..) | .rpc _ (.dup _) | .rpc _ (.resolve ..)
  | .rpc _ (.blocks ..) | .rpc _ (.flush ..) => True
  | .rpc _ _ | .copyIn .. => False
  | _ => True

/-- The server and the descriptor of a flush. -/
def Action.flushed : Action → Option (Nat × Fd)
  | .rpc i (.flush fd _ _) => some (i, fd)
  | _ => none

/-- An object of a client, with the server and the descriptor that it is of. -/
structure Object where
  h : Nat
  server : Nat
  fd : Fd

/-- An action that has nothing to do with the object and does not flush its descriptor. -/
def Action.Spares (x : Object) : Action → Prop
  | .setFile h _ | .deleteFile h => h ≠ x.h
  | a => a.flushed ≠ some (x.server, x.fd)

/-- A copy is of the object, and has the size if it is valid. -/
def AppFile.Of (f : AppFile) (x : Object) (size : Nat) : Prop :=
  f.inode.server = x.server ∧ f.fd = x.fd ∧ (f.state ≠ .invalid → f.size = size)

namespace Cluster

/-- The file that the descriptor refers to, and its size. -/
def sizeOf (w : Cluster) (x : Object) : Option (FileId × Nat) :=
  match (w.servers x.server).fds.lookup x.fd with
  | none => none
  | some d =>
    match (w.servers x.server).files.lookup d.id with
    | some (.file g) => some (d.id, g.size)
    | _ => none

/-- The copy of client `c` has the size of the file, as after an open. -/
structure Copied (w : Cluster) (c : Nat) (x : Object) (size : Nat) : Prop where
  next : x.h < (w.clients c).nextFile
  own : ∀ f, (w.clients c).files.lookup x.h = some f → f.Of x size
  current : ∀ id n, w.sizeOf x = some (id, n) → n = size

/-- The other valid copies of the client are of other descriptors. -/
def Single (w : Cluster) (c : Nat) (x : Object) : Prop := ∀ h ≠ x.h, ∀ f, (w.clients c).files.lookup h = some f →
  f.state ≠ .invalid → ¬(f.inode.server = x.server ∧ f.fd = x.fd)

/-- While client `c` has the object it does nothing else with it than a reader and has no other valid copy under the same
    descriptor. Nobody else changes the size of the file, nor does the client itself in another way than by a reader's
    action; what that does to the size is left open, but the descriptor and the inode are not given to another file. -/
def Undisturbed (cfg : Config) (c : Nat) (x : Object) (s : FsConf) : Label ShareOp Env (Nat × Nat) → Prop
  | .call c' o => c' = c → o.Reads ∨ (o.code (cfg.client c)).All (Action.Spares x)
  | .act c' env => s.world.Single c x ∧ ∀ a k w r, s.call c' = some (.act a k) → s.world.exec cfg c' env a = .ok (w, r) →
      w.sizeOf x = none ∨ w.sizeOf x = s.world.sizeOf x ∨
      c' = c ∧ a.Reads ∧ s.world.Mild a ∧ (a.flushed = none ∨ a.flushed = some (x.server, x.fd)) ∧
        (w.sizeOf x).map Prod.fst = (s.world.sizeOf x).map Prod.fst
  | _ => True

/-- At some moment of the run client `c` was in no call and had a copy under the descriptor with the size of the file, and it has
    not been disturbed since. -/
def Kept (cfg : Config) (c i : Nat) (fd : Fd) (s : FsConf) (ls : List (Label ShareOp Env (Nat × Nat))) : Prop :=
  ∃ before after m h size, ls = before ++ after ∧ run (shareSystem cfg).step s before = some m ∧ m.call c = none ∧
    m.world.Copied c ⟨h, i, fd⟩ size ∧ Guarded (Undisturbed cfg c ⟨h, i, fd⟩) (shareSystem cfg).step m after

end Cluster
end Faux
