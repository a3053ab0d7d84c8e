import Faux.Fs.File

/-! # The file system server

The state and the operations of `FilesystemServer` (`sys/fs/server.cpp`), with directories
(`Dir` of `sys/fs/file.cpp`). The key of an object in `files` and `pipes` is its inode id. The orphan
directory, which is `m_files[-1]` in the source, is a field of its own: no reply or entry holds the id -1.
Its entries are named after time stamps; the names are left out. -/

namespace Faux
open Lib

/-- `VFileLoc`, a directory entry. Tracking sets hold pointers to entries, so that an entry has an identity. -/
structure VFileLoc where
  loc : Nat
  inode : InodeType

structure Dir where
  vdir : Bool
  shared : Bool
  locked : Bool
  children : AList fun _ : Name => VFileLoc

/-- `Dir::Dir`, with directory distribution. -/
def Dir.new (vdir : Bool) (mode : Nat) : Dir :=
  { vdir, shared := isShr mode || vdir, locked := false, children := ∅ }

inductive VFile where
  | file (f : File)
  | dir (d : Dir)
  | symlink (dest : Name)

def VFile.type : VFile → FileType
  | .file _ => .file
  | .dir d => if d.shared then .dirShared else .dir
  | .symlink _ => .symlink

def VFile.size : VFile → Nat
  | .file f => f.size
  | .dir _ => 4096
  | .symlink dest => dest.utf8ByteSize

def VFile.blocks : VFile → List Nat
  | .file f => f.all
  | _ => []

structure FileDescriptor where
  count : Nat
  offset : Nat
  id : FileId

def toInt32 (n : Nat) : Int := if n % 4294967296 < 2147483648 then n % 4294967296 else (n % 4294967296 : Int) - 4294967296

def FileDescriptor.countInt (d : FileDescriptor) : Int := toInt32 d.count

/-- What a request finds in its environment: two values of `rand()`, and the text of the statistics. -/
structure Env where
  rand : Nat
  rand' : Nat
  stats : List UInt8

structure Server where
  id : Nat
  files : AList fun _ : FileId => VFile
  pipes : AList fun _ : FileId => Pipe
  orphans : List InodeType
  fds : AList fun _ : Fd => FileDescriptor
  bufferCache : BufferCache
  mem : Memory
  /-- `m_apps`: the client has been given the entry. -/
  apps : List (AppId × Nat)
  inodeSeq : Nat
  nextLoc : Nat

namespace Server

/-- `FilesystemServer::FilesystemServer`: server 0 holds the root, which is its own parent. The root and the
    orphan directory have taken the first two ids. -/
def boot (id : Nat) (bufferCache : BufferCache) (mem : Memory) : Server where
  id
  files :=
    if id = 0 then
      AList.singleton 0 (.dir { Dir.new true 493 with
        children := AList.singleton ".." { loc := 0, inode := { server := 0, id := 0, type := .dir } } })
    else ∅
  pipes := ∅
  orphans := []
  fds := ∅
  bufferCache
  mem
  apps := []
  inodeSeq := 2
  nextLoc := 1

def fileBlocks (files : AList fun _ : FileId => VFile) : List Nat := files.entries.flatMap fun e => e.2.blocks

def held (s : Server) : List Nat := s.bufferCache.blocks ++ fileBlocks s.files

def newId (s : Server) : FileId :=
  if s.id = 0 then s.inodeSeq else s.inodeSeq % 67108864 + s.id * 67108864 % 4294967296

def appAddLoc (s : Server) (app : AppId) (loc : Nat) : Server :=
  if (app, loc) ∈ s.apps then s else { s with apps := (app, loc) :: s.apps }

def appAddCache (s : Server) (app : AppId) (parent : FileId) (path : Name) : Res Server :=
  match s.files.lookup parent with
  | some (.dir p) =>
    match p.children.lookup path with
    | some entry => .ok (s.appAddLoc app entry.loc)
    | none => .error .assertion
  | _ => .error .assertion

/-- A notification to a client: entries that lead to the inode are stale. -/
abbrev Notify := AppId × Inode

/-- `appRemoveCache`: every client that was given the entry forgets it; all but the requester are notified. -/
def appRemoveCache (s : Server) (app : AppId) (entry : VFileLoc) : Server × List Notify :=
  ({ s with apps := s.apps.filter fun t => t.2 ≠ entry.loc },
    (s.apps.filter fun t => t.2 = entry.loc ∧ t.1 ≠ app).map fun t => (t.1, entry.inode.only))

/-- The directory that an operation creates when it does not find its parent. -/
def lazyDir (s : Server) (id : FileId) : Server :=
  match s.files.lookup id with
  | some _ => s
  | none => { s with files := s.files.insert id (.dir (Dir.new true 511)), inodeSeq := s.inodeSeq + 1 }

def addChild (s : Server) (dir : FileId) (d : Dir) (path : Name) (inode : InodeType) : Server :=
  { s with
    files := s.files.insert dir (.dir { d with children := d.children.insert path { loc := s.nextLoc, inode } })
    nextLoc := s.nextLoc + 1 }

def eraseChild (s : Server) (dir : FileId) (d : Dir) (path : Name) : Server :=
  { s with files := s.files.insert dir (.dir { d with children := d.children.erase path }) }

def delete (s : Server) (id : FileId) : Server :=
  match s.files.lookup id with
  | some (.file f) => { s with files := s.files.erase id, bufferCache := f.release s.bufferCache }
  | _ => { s with files := s.files.erase id }

def referenced (s : Server) (id : FileId) : Bool :=
  s.fds.entries.any fun e => e.2.id = id ∧ e.2.countInt ≠ 0

/-- The inode becomes an orphan while a descriptor refers to it, else it is deleted. -/
def removeInode (s : Server) (id : FileId) (type : FileType) : Server :=
  if s.referenced id then { s with orphans := { server := s.id, id, type } :: s.orphans } else s.delete id

/-! ### Inode creation and mapping -/

/-- `create`: the status, and the inode that exists or has been created. -/
def create (s : Server) (parent : FileId) (path : Name) (flags : Flags) (mode : Nat) :
    Res (Server × Status × Option InodeType) :=
  let s := s.lazyDir parent
  match s.files.lookup parent with
  | some (.dir p) => do
    require (path ≠ "")
    match p.children.lookup path with
    | some entry =>
      -- The test for ISDIR, `! flags & O_DIRECTORY`, is never true.
      .ok (s, if entry.inode.type = .symlink then .isSym else .exist, some entry.inode)
    | none =>
      let vfile := if flags.directory then .dir (Dir.new false mode) else .file File.new
      let exist := { server := s.id, id := s.newId, type := vfile.type }
      .ok ({ s with files := s.files.insert s.newId vfile, inodeSeq := s.inodeSeq + 1 }, .ok, some exist)
  | _ => .ok (s, .invalid, none)

def destroy (s : Server) (id : FileId) : Server × Status :=
  match s.files.lookup id with
  | none => (s, .notFound)
  | some (.dir _) => (s.delete id, .ok)
  | some vfile => (s.removeInode id vfile.type, .ok)

def updateStatFile (s : Server) (env : Env) (id : FileId) : Res Server :=
  match s.files.lookup id with
  | none => .error .assertion
  | some (.file f) => do
    let (f, bc, _) ← f.truncate s.bufferCache env.stats.length
    let (f, bc, m, _) ← f.write bc s.mem env.stats 0
    .ok { s with files := s.files.insert id (.file f), bufferCache := bc, mem := m }
  | some _ => .error .undefined

/-- An entry named `stats` is a file into which the server writes its statistics. -/
def noteStats (s : Server) (env : Env) (path : Name) (child : FileId) : Res Server :=
  if path = "stats" then s.updateStatFile env child else .ok s

/-- `addChild` in `addmap`: the requester is given the new entry, unless it is `..`. -/
def addEntry (s : Server) (app : AppId) (parent : FileId) (p : Dir) (path : Name) (child : InodeType) : Server :=
  if path = ".." then s.addChild parent p path child
  else (s.addChild parent p path child).appAddLoc app s.nextLoc

/-- `addmap`: the status, the inode that the entry leads to, and the notifications. -/
def addmap (s : Server) (env : Env) (app : AppId) (parent : FileId) (path : Name) (child : InodeType)
    (overwrite : Bool) : Res (Server × Status × InodeType × List Notify) := do
  let s ← s.noteStats env path child.id
  let s := s.lazyDir parent
  match s.files.lookup parent with
  | some (.dir p) =>
    match p.children.lookup path with
    | some entry =>
      if overwrite then
        let (s, notes) := s.appRemoveCache app entry
        .ok (s.addEntry app parent { p with children := p.children.erase path } path child, .exist, entry.inode, notes)
      else .ok (s, .exist, entry.inode, [])
    | none => .ok (s.addEntry app parent p path child, .ok, child, [])
  -- the parent is not a directory
  | _ => .error .undefined

def removemap (s : Server) (app : AppId) (parent : FileId) (path : Name) : Server × Status × List Notify :=
  match s.files.lookup parent with
  | none => (s, .notFound, [])
  | some (.dir p) =>
    match p.children.lookup path with
    | none => (s, .notFound, [])
    | some entry =>
      let (s, notes) := if path ≠ ".." then s.appRemoveCache app entry else (s, [])
      (s.eraseChild parent p path, .ok, notes)
  | some _ => (s, .notDir, [])

def resolve (s : Server) (app : AppId) (parent : FileId) (path : Name) : Res (Server × Status × Option InodeType) := do
  require (path ≠ "")
  match s.files.lookup parent with
  | none => .ok (s, .notFound, none)
  | some (.dir p) =>
    match p.children.lookup path with
    | none => .ok (s, .notFound, none)
    | some entry => .ok (s.appAddLoc app entry.loc, .ok, some entry.inode)
  | some _ => .ok (s, .invalid, none)

def symlink (s : Server) (parent : FileId) (src dest : Name) : Server × Status :=
  let s := s.lazyDir parent
  match s.files.lookup parent with
  | some (.dir p) =>
    match p.children.lookup src with
    | some _ => (s, .exist)
    | none =>
      let inode := { server := s.id, id := s.newId, type := .symlink }
      let s := { s with files := s.files.insert s.newId (.symlink dest), inodeSeq := s.inodeSeq + 1 }
      (s.addChild parent p src inode, .ok)
  | _ => (s, .notDir)

def unlink (s : Server) (id : FileId) : Res (Server × Status) :=
  match s.files.lookup id with
  | none => .ok (s, .notFound)
  | some (.dir _) => .error .assertion
  | some vfile => .ok (s.removeInode id vfile.type, .ok)

def rmdir (s : Server) (id : FileId) (phase : RmdirPhase) : Res (Server × Status) :=
  let s := s.lazyDir id
  match s.files.lookup id with
  | some (.dir d) =>
    if d.children.entries.any fun e => e.1 ≠ ".." then .ok (s, .notEmpty)
    else
      match phase with
      | .try =>
        if d.locked then .ok (s, .again)
        else .ok ({ s with files := s.files.insert id (.dir { d with locked := true }) }, .ok)
      | .fail => do
        require d.locked
        .ok ({ s with files := s.files.insert id (.dir { d with locked := false }) }, .ok)
      | .success => do
        require d.locked
        let d := { d with locked := false }
        let s := { s with files := s.files.insert id (.dir d) }
        .ok (s.removeInode id (VFile.dir d).type, .ok)
      | .force => .ok (s.removeInode id (VFile.dir d).type, .ok)
  | _ => .ok (s, .notDir)

def readlink (s : Server) (id : FileId) : Res (Status × Name) :=
  match s.files.lookup id with
  | none => .ok (.notFound, "")
  | some (.symlink dest) => do
    require (dest.utf8ByteSize < 4096)
    .ok (.ok, dest)
  | some _ => .error .assertion

def truncate (s : Server) (id : FileId) (len : Nat) : Res (Server × Status) :=
  match s.files.lookup id with
  | none => .ok (s, .notFound)
  | some (.symlink _) => .ok (s, .isSym)
  | some (.dir _) => .ok (s, .isDir)
  | some (.file f) => do
    let (f, bc, _) ← f.truncate s.bufferCache len
    .ok ({ s with files := s.files.insert id (.file f), bufferCache := bc }, .ok)

/-! ### Descriptors -/

def addFd (s : Server) (fd : Fd) (id : FileId) (offset : Nat) : Server :=
  { s with fds := s.fds.insert fd { count := 1, offset, id } }

structure Opened where
  retval : Status
  fd : Option Fd
  type : Option FileType
  size : Option Nat
  state : CacheState

def openFail (retval : Status) : Opened := { retval, fd := none, type := none, size := none, state := .invalid }

def «open» (s : Server) (env : Env) (id : FileId) (flags : Flags) : Res (Server × Opened) :=
  match s.files.lookup id with
  | none => .ok (s, openFail .notFound)
  | some (.file f) =>
    if flags.directory then .ok (s, openFail .notDir)
    else do
      let (f, bc) ← f.openTrunc s.bufferCache flags.trunc
      let s := { s with files := s.files.insert id (.file f), bufferCache := bc }
      .ok (s.addFd env.rand id (if flags.append then f.size else 0),
        { retval := .ok, fd := some env.rand, type := some .file, size := some f.size, state := .shared })
  | some (.dir d) =>
    if flags.creat || flags.trunc || flags.wronly || flags.rdwr then .ok (s, openFail .isDir)
    else .ok (s.addFd env.rand id 0,
      { retval := .ok, fd := some env.rand, type := some (VFile.dir d).type, size := some (VFile.dir d).size,
        state := .shared })
  -- no descriptor, just the type of the link
  | some (.symlink _) => .ok (s, { openFail .ok with type := some .symlink })

/-- `pipe`: the two descriptors and the inode. -/
def pipe (s : Server) (env : Env) : Server × Fd × Fd × Inode :=
  let id := s.newId
  let s := { s with pipes := s.pipes.insert id { size := 0, readFd := env.rand, writeFd := env.rand' },
                    inodeSeq := s.inodeSeq + 1 }
  ((s.addFd env.rand id 0).addFd env.rand' id 0, env.rand, env.rand', { server := s.id, id })

/-- `dup`: the status, and the inode, type and size. -/
def dup (s : Server) (fd : Fd) : Server × Status × Option (Inode × FileType × Nat) :=
  match s.fds.lookup fd with
  | none => (s, .invalid, none)
  | some d =>
    let found :=
      match s.files.lookup d.id with
      | some vfile => some (vfile.type, vfile.size)
      | none => (s.pipes.lookup d.id).map fun _ => (.pipe, 0)
    match found with
    | none => (s, .notFound, none)
    | some (type, size) =>
      ({ s with fds := s.fds.insert fd { d with count := d.count + 1 } }, .ok,
        some ({ server := s.id, id := d.id }, type, size))

def countStatus (retval : Int) : Status × Nat := if retval > 0 then (.ok, retval.toNat) else (retval, 0)

/-- `read(inode, offset, buf, count)`: the status, the count and the bytes. Nothing is read out of a pipe. -/
def readInode (s : Server) (id : FileId) (offset count : Nat) : Res (Server × Status × Nat × List UInt8) :=
  match s.files.lookup id with
  | some (.file f) => do
    let data ← f.read s.mem count offset
    let (retval, count) := countStatus data.length
    .ok (s, retval, count, data)
  | some _ => .error .assertion
  | none =>
    match s.pipes.lookup id with
    | none => .ok (s, .notFound, 0, [])
    | some p =>
      let (p, n) := p.read count
      let (retval, count) := countStatus n
      .ok ({ s with pipes := s.pipes.insert id p }, retval, count, [])

def read (s : Server) (fd : Fd) (count : Nat) : Res (Server × Status × Nat × List UInt8) :=
  match s.fds.lookup fd with
  | none => .error .assertion
  | some d => do
    let (s, retval, count, data) ← s.readInode d.id d.offset count
    .ok ({ s with fds := s.fds.insert fd { d with offset := d.offset + count } }, retval, count, data)

def writeInode (s : Server) (id : FileId) (offset : Nat) (buf : List UInt8) : Res (Server × Status × Nat) :=
  match s.files.lookup id with
  | some (.file f) => do
    let (f, bc, m, n) ← f.write s.bufferCache s.mem buf offset
    let (retval, count) := countStatus n
    .ok ({ s with files := s.files.insert id (.file f), bufferCache := bc, mem := m }, retval, count)
  | some _ => .error .undefined
  | none =>
    match s.pipes.lookup id with
    | none => .ok (s, .notFound, buf.length)
    | some p =>
      let (p, n) := p.write buf.length
      let (retval, count) := countStatus n
      .ok ({ s with pipes := s.pipes.insert id p }, retval, count)

def write (s : Server) (fd : Fd) (buf : List UInt8) : Res (Server × Status × Nat) :=
  match s.fds.lookup fd with
  | none => .error .assertion
  | some d => do
    let (s, retval, count) ← s.writeInode d.id d.offset buf
    .ok ({ s with fds := s.fds.insert fd { d with offset := d.offset + count } }, retval, count)

def setFileSize (s : Server) (id : FileId) (size : Nat) : Res Server :=
  match s.files.lookup id with
  | some (.file f) => .ok { s with files := s.files.insert id (.file { f with size }) }
  | _ => .error .undefined

def closePipe (s : Server) (fd : Fd) (id : FileId) : Res Server :=
  match s.pipes.lookup id with
  | none => .error .assertion
  | some p =>
    let p := if p.readFd = fd then { p with readFd := 0 } else p
    let p := if p.writeFd = fd then { p with writeFd := 0 } else p
    .ok { s with pipes := if p.readFd = 0 ∧ p.writeFd = 0 then s.pipes.erase id else s.pipes.insert id p }

def closeFile (s : Server) (fd : Fd) (id : FileId) (size : Option Nat) : Res Server :=
  match s.files.lookup id with
  | none => s.closePipe fd id
  | some _ =>
    match s.orphans.find? (·.id = id) with
    | some _ => .ok (Server.delete { s with orphans := s.orphans.eraseP (·.id = id) } id)
    | none =>
      match size with
      | some size => s.setFileSize id size
      | none => .ok s

def closeLast (s : Server) (fd : Fd) (id : FileId) (size : Option Nat) : Res Server := do
  let s ← s.closeFile fd id size
  .ok { s with fds := s.fds.erase fd }

def closeShared (s : Server) (fd : Fd) (d : FileDescriptor) (offset size : Option Nat) : Res Server :=
  let s := { s with fds := s.fds.insert fd { d with offset := offset.getD d.offset } }
  match size with
  | some size => s.setFileSize d.id size
  | none => .ok s

/-- `close`, with `none` for the offset -1 and the size `UINT64_MAX`. -/
def close (s : Server) (fd : Fd) (offset size : Option Nat) : Res Server :=
  match s.fds.lookup fd with
  | none => .error .assertion
  | some d =>
    let d : FileDescriptor := { d with count := sizeSub d.count 1 }
    if d.countInt < 0 then .error .assertion
    else if d.countInt = 0 then s.closeLast fd d.id size
    else s.closeShared fd d offset size

def seekTo (offset oldOffset size : Nat) : Whence → Res Nat
  | .set => .ok offset
  | .cur => .ok ((offset + oldOffset) % sizeMod)
  | .end => .ok ((size + offset) % sizeMod)
  | .data => .ok oldOffset
  | .hole => .ok size
  | .other => .error .assertion

def lseek (s : Server) (fd : Fd) (offset : Nat) (whence : Whence) : Res (Server × Nat) :=
  match s.fds.lookup fd with
  | none => .error .assertion
  | some d =>
    match s.files.lookup d.id with
    | some (.file f) => do
      let offset ← seekTo offset d.offset f.size whence
      .ok ({ s with fds := s.fds.insert fd { d with offset } }, offset)
    | _ => .error .assertion

def flush (s : Server) (fd : Fd) (size offset : Nat) : Res (Server × Status) :=
  match s.fds.lookup fd with
  | none => .ok (s, .invalid)
  | some d => do
    let s ← { s with fds := s.fds.insert fd { d with offset } }.setFileSize d.id size
    .ok (s, .ok)

/-- `blocks`. The offset and the count are converted to `int`. -/
def blocks (s : Server) (id : FileId) (offset count : Nat) : Res (Status × List Nat) :=
  match s.files.lookup id with
  | some (.file f) => f.blocks s.bufferCache (toInt32 offset) (toInt32 count)
  | _ => .error .assertion

end Server
end Faux
