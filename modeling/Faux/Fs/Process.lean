import Faux.Fs.AppFile
import Faux.Lib.Total

/-! # Processes and their descriptors

The descriptors of a process (`libs/fd/fd.c`, `libs/basicp`, `sys/fs/lib/misc.cpp`). An internal descriptor points to an entry, and an
entry holds a file object. Duplicates share an entry until it is flattened. Of a directory or a pipe object only the inode and
the server's descriptor are used. -/

namespace Faux
open Lib

def fdCount : Nat := 256

inductive Slot where
  | free
  | internal (n : Nat)
  | external (n : Nat)
  deriving DecidableEq

structure FdEntry where
  numFd : Nat
  object : AppFile
  cloexec : Bool

/-- The tables of a process: `fd_map`, `fd_entries` with the addresses of entries, and the entries. Internal
    descriptors below 3 are never given out. -/
structure Process where
  map : Nat → Slot
  table : AList fun _ : Nat => Nat
  heap : AList fun _ : Nat => FdEntry
  nextEntry : Nat

def AppFile.alloc (inode : InodeType) (fd : Fd) : AppFile :=
  { inode, fd, blocks := [], size := 0, state := .invalid, offset := 0 }

namespace Process

/-- `faux_init` of a process that inherits nothing. -/
def fresh : Process where
  map fd := if fd < 3 then .external fd else .free
  table := ∅
  heap := ∅
  nextEntry := 0

def setSlot (p : Process) (fd : Nat) (slot : Slot) : Process := { p with map := Function.update p.map fd slot }

def fdIsInternal (p : Process) (fd : Nat) : Bool :=
  match p.map fd with
  | .internal _ => true
  | _ => false

def fdGet (p : Process) (fd : Nat) : Res (Nat × Nat × FdEntry) :=
  match p.map fd with
  | .internal n =>
    match p.table.lookup n with
    | some a =>
      match p.heap.lookup a with
      | some e => .ok (n, a, e)
      -- the entry has been freed
      | none => .error .undefined
    | none => .error .assertion
  | _ => .error .assertion

/-- `fdFindUnusedFD`. A process has at most `fdCount` descriptors, so that the table of 1024 elements is never
    expanded. -/
def fdFindUnusedFD (p : Process) : Res Nat :=
  match (List.range 1024).find? fun n => 3 ≤ n ∧ n ∉ p.table with
  | some n => .ok n
  | none => .error .undefined

def addEntry (p : Process) (n : Nat) (object : AppFile) (cloexec : Bool) : Process :=
  { p with
    table := p.table.insert n p.nextEntry
    heap := p.heap.insert p.nextEntry { numFd := 1, object, cloexec }
    nextEntry := p.nextEntry + 1 }

def fdCreate (p : Process) (object : AppFile) (cloexec : Bool) : Res (Process × Nat) := do
  let n ← p.fdFindUnusedFD
  .ok (p.addEntry n object cloexec, n)

def fdFree (p : Process) (a : Nat) (e : FdEntry) : Process :=
  if e.numFd ≤ 1 then { p with heap := p.heap.erase a }
  else { p with heap := p.heap.insert a { e with numFd := e.numFd - 1 } }

def fdDestroy (p : Process) (n a : Nat) (e : FdEntry) : Process := { p with table := p.table.erase n }.fdFree a e

def fdFlatten (p : Process) (n a : Nat) (e : FdEntry) (object : AppFile) : Process :=
  { p with heap := p.heap.insert a { e with numFd := e.numFd - 1 } }.addEntry n object e.cloexec

end Process

/-! ### A process at work -/

structure Session where
  servers : Nat → Server
  proc : Process

namespace Session
variable (cfg : Config)

def setServer (s : Session) (i : Nat) (v : Server) : Session := { s with servers := Function.update s.servers i v }

def setProc (s : Session) (p : Process) : Session := { s with proc := p }

/-- `fosFileDup`, with the assertion of its callers. -/
def fosFileDup (s : Session) (server : Nat) (fd : Fd) : Res Session := do
  let (v, retval, _) := (s.servers server).dup fd
  require (retval = .ok)
  .ok (s.setServer server v)

def fosFdClose (s : Session) (server : Nat) (fd : Fd) : Res Session := do
  let v ← (s.servers server).close fd none none
  .ok (s.setServer server v)

/-- `File::state(CACHE_INVALID)`: changes are flushed. -/
def invalidate (s : Session) (f : AppFile) : Res Session :=
  if cfg.bufferCache ∧ f.state = .exclusive then do
    let (v, _) ← (s.servers f.inode.server).flush f.fd f.size f.offset
    .ok (s.setServer f.inode.server v)
  else .ok s

/-- `fosFileClose`. A pipe tells nothing to its server. -/
def fosFileClose (s : Session) (f : AppFile) : Res Session :=
  match f.inode.type with
  | .dir | .dirShared => s.fosFdClose f.inode.server f.fd
  | .pipe => .ok s
  | _ => do
    let s ← s.invalidate cfg f
    s.fosFdClose f.inode.server f.fd

def closeEntry (s : Session) (e : FdEntry) : Res Session := if e.numFd = 1 then s.fosFileClose cfg e.object else .ok s

def closeInt (s : Session) (fd : Nat) : Res Session := do
  let (n, a, e) ← s.proc.fdGet fd
  let s ← s.closeEntry cfg e
  .ok (s.setProc ((s.proc.fdDestroy n a e).setSlot fd .free))

/-- `fsFlattenFdInternal`: a descriptor that shares its entry gets an entry and an object of its own. -/
def fsFlattenFdInternal (s : Session) (fd : Nat) : Res Session := do
  let (n, a, e) ← s.proc.fdGet fd
  if e.numFd > 1 then do
    let s ← s.fosFileDup e.object.inode.server e.object.fd
    .ok (s.setProc (s.proc.fdFlatten n a e (.alloc e.object.inode e.object.fd)))
  else .ok s

def eachInternal (body : Session → Nat → Res Session) : List Nat → Session → Res Session
  | [], s => .ok s
  | fd :: fds, s =>
    if s.proc.fdIsInternal fd then do
      let s ← body s fd
      eachInternal body fds s
    else eachInternal body fds s

def fsFlattenFds (s : Session) : Res Session := eachInternal fsFlattenFdInternal (List.range fdCount) s

def closeOnExec (s : Session) (fd : Nat) : Res Session := do
  let (_, _, e) ← s.proc.fdGet fd
  if e.cloexec then s.closeInt cfg fd else .ok s

def prepareExec (s : Session) : Res Session := do
  let s ← eachInternal (closeOnExec cfg) ((List.range fdCount).drop 2) s
  s.fsFlattenFds

end Session

/-- `faux_init` after an `exec`: every descriptor of the list gets a new object for what it was before. -/
def Process.inherit (old : Process) : List Nat → Process → Res Process
  | [], p => .ok p
  | fd :: fds, p =>
    match old.map fd with
    | .external n => old.inherit fds (p.setSlot fd (.external n))
    | .internal _ => do
      let (_, _, e) ← old.fdGet fd
      let (p, n) ← p.fdCreate (.alloc e.object.inode e.object.fd) false
      old.inherit fds (p.setSlot fd (.internal n))
    | .free => old.inherit fds p

def Process.blank : Process := { Process.fresh with map := fun _ => .free }

def Request.keepsFds : Request → Bool
  | .open .. | .createOpen .. | .pipe | .dup .. | .close .. => false
  | _ => true

def AppFile.holds (i : Nat) (fd : Fd) (f : AppFile) : Nat := if f.inode.server = i ∧ f.fd = fd then 1 else 0

def Process.holding (p : Process) (i : Nat) (fd : Fd) : Nat := valTotal (fun e => e.object.holds i fd) p.heap

end Faux
