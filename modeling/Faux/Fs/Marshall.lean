import Faux.Fs.Server

/-! # Requests

The requests of `sys/fs/include/interface.h` and their handlers (`sys/fs/marshall.cpp`). A handler runs to
its end before the server takes the next request, so that it is one step: `create` adds entries after its
reply has been sent, but nobody sees the server in between. -/

namespace Faux

inductive Request where
  | create (parent : InodeType) (path : Name) (flags : Flags) (mode : Nat)
  | destroy (id : FileId)
  | addMap (parent : Inode) (path : Name) (child : InodeType) (overwrite : Bool)
  | updateMap (parent : Inode) (path : Name) (child : InodeType) (overwrite : Bool) (oldParent : InodeType) (oldPath : Name)
  | removeMap (parent : FileId) (path : Name)
  | pipe
  | open (id : FileId) (flags : Flags)
  | createOpen (parent : Inode) (path : Name) (flags : Flags) (mode : Nat)
  | read (fd : Fd) (count : Nat)
  | write (fd : Fd) (data : List UInt8)
  | lseek (fd : Fd) (offset : Nat) (whence : Whence)
  | close (fd : Fd) (offset size : Option Nat)
  | dup (fd : Fd)
  | unlink (id : FileId) (entry : Option (FileId × Name))
  | readlink (id : FileId)
  | rmdir (id : FileId) (phase : RmdirPhase)
  | rmdirAndMap (id : FileId) (parent : InodeType) (path : Name)
  | truncate (id : FileId) (len : Nat)
  | resolve (parent : FileId) (path : Name)
  | symlink (parent : FileId) (src dest : Name)
  | blocks (id : FileId) (offset count : Nat)
  | flush (fd : Fd) (size offset : Nat)

structure OpenReply extends Server.Opened where
  exist : Option InodeType

/-- The reply to a request. A field that a handler leaves uninitialised is `none`. -/
abbrev Request.Reply : Request → Type
  | .create .. => Status × Option InodeType
  | .addMap .. | .updateMap .. => Status × InodeType
  | .pipe => Fd × Fd × Inode
  | .open .. | .createOpen .. => OpenReply
  | .read .. => Status × Nat × List UInt8
  | .write .. => Status × Nat
  | .lseek .. => Nat
  | .dup .. => Status × Option (Inode × FileType × Nat)
  | .readlink .. => Status × Name
  | .resolve .. => Status × Option InodeType
  | .blocks .. => Status × List Nat
  | .destroy .. | .removeMap .. | .close .. | .unlink .. | .rmdir .. | .rmdirAndMap .. | .truncate .. | .symlink ..
  | .flush .. => Status

namespace Server
variable (cfg : Config)

/-- An `addmap` without overwriting that must succeed. -/
def mustAddMap (s : Server) (env : Env) (app : AppId) (parent : FileId) (path : Name) (child : InodeType) : Res Server := do
  let (s, retval, _, _) ← s.addmap env app parent path child false
  require (retval = .ok)
  .ok s

/-- `mustAddMap` when the entry lives on this server. -/
def mapIf (s : Server) (env : Env) (app : AppId) (c : Bool) (parent : FileId) (path : Name) (child : InodeType) : Res Server :=
  if c then s.mustAddMap env app parent path child else .ok s

/-- The server that holds `..` of a new directory. -/
def dotDotServer (child : InodeType) : Res Nat :=
  if child.type = .dirShared then fosPathOwner cfg child ".." else .ok child.server

def mapDir (s : Server) (env : Env) (app : AppId) (parent : InodeType) (path : Name) (child : InodeType) : Res Server := do
  let dotDot ← dotDotServer cfg child
  -- we just added a new directory, so add the mapping as well
  let s ← s.mapIf env app (parent.server = child.server ∨ parent.type = .dirShared) parent.id path child
  -- add the mapping for .. if it lives local
  s.mapIf env app (dotDot = s.id) child.id ".." parent

def handleCreate (s : Server) (env : Env) (app : AppId) (parent : InodeType) (path : Name) (flags : Flags) (mode : Nat) :
    Res (Server × Status × Option InodeType) := do
  let (s, retval, exist) ← s.create parent.id path flags mode
  match exist with
  | some child =>
    if retval = .ok ∧ flags.directory then do
      let s ← s.mapDir cfg env app parent path child
      .ok (s, retval, exist)
    else .ok (s, retval, exist)
  | none => .ok (s, retval, exist)

def handleAddMap (s : Server) (env : Env) (app : AppId) (parent : FileId) (path : Name) (child : InodeType) (overwrite : Bool) :
    Res (Server × (Status × InodeType) × List Notify) := do
  let (s, retval, exist, notes) ← s.addmap env app parent path child overwrite
  require (retval = .ok ∨ retval = .exist)
  .ok (s, (retval, exist), notes)

/-- The handler of ADDMAP with the update flag: add, then remove. -/
def handleUpdateMap (s : Server) (env : Env) (app : AppId) (parent : FileId) (path : Name) (child : InodeType)
    (overwrite : Bool) (oldParent : FileId) (oldPath : Name) : Res (Server × (Status × InodeType) × List Notify) := do
  let (s, reply, notes) ← s.handleAddMap env app parent path child overwrite
  let (s, retval, notes') := s.removemap app oldParent oldPath
  require (retval = .ok)
  .ok (s, reply, notes ++ notes')

/-- The handler of OPEN with `O_CREAT`, once the inode exists: a new inode gets its entry, an existing entry is
    given to the client. -/
def mapOpen (s : Server) (env : Env) (app : AppId) (created : Bool) (parent : FileId) (path : Name) (child : InodeType) :
    Res Server :=
  if created then s.mustAddMap env app parent path child else s.appAddCache app parent path

/-- The handler of OPEN with `O_CREAT`: create, add the map and open in one. -/
def handleCreateOpen (s : Server) (env : Env) (app : AppId) (parent : FileId) (path : Name) (flags : Flags) (mode : Nat) :
    Res (Server × OpenReply) := do
  let (s, retval, exist) ← s.create parent path flags mode
  match exist with
  | some child =>
    if retval = .exist ∧ ¬flags.excl ∨ retval = .ok then do
      let s ← s.mapOpen env app (retval = .ok) parent path child
      -- if the file exists on this server then we can open it immediately
      if child.server = s.id then do
        let (s, reply) ← s.open env child.id { flags with creat := false }
        .ok (s, { reply with exist })
      else .ok (s, { openFail .exist with exist })
    else .ok (s, { openFail retval with exist })
  | none => .ok (s, { openFail retval with exist })

/-- The handler of UNLINK: the entry goes first when it is given. -/
def handleUnlink (s : Server) (app : AppId) (id : FileId) (entry : Option (FileId × Name)) :
    Res (Server × Status × List Notify) :=
  match entry with
  | some (parent, path) =>
    let (s, retval, notes) := s.removemap app parent path
    if retval = .ok then do
      let (s, retval) ← s.unlink id
      .ok (s, retval, notes)
    else .ok (s, retval, notes)
  | none => do
    let (s, retval) ← s.unlink id
    .ok (s, retval, [])

def handleRmdirAndMap (s : Server) (app : AppId) (id : FileId) (parent : FileId) (path : Name) :
    Res (Server × Status × List Notify) := do
  let (s, retval) ← s.rmdir id .force
  if retval = .ok then .ok (s.removemap app parent path) else .ok (s, retval, [])

def handle (s : Server) (env : Env) (app : AppId) : (q : Request) → Res (Server × q.Reply × List Notify)
  | .create parent path flags mode => do
    let (s, reply) ← s.handleCreate cfg env app parent path flags mode
    .ok (s, reply, [])
  | .destroy id =>
    let (s, retval) := s.destroy id
    .ok (s, retval, [])
  | .addMap parent path child overwrite => s.handleAddMap env app parent.id path child overwrite
  | .updateMap parent path child overwrite oldParent oldPath =>
    s.handleUpdateMap env app parent.id path child overwrite oldParent.id oldPath
  | .removeMap parent path => .ok (s.removemap app parent path)
  | .pipe =>
    let (s, reply) := s.pipe env
    .ok (s, reply, [])
  | .open id flags => do
    let (s, reply) ← s.open env id flags
    .ok (s, { reply with exist := none }, [])
  | .createOpen parent path flags mode => do
    let (s, reply) ← s.handleCreateOpen env app parent.id path flags mode
    .ok (s, reply, [])
  | .read fd count => do
    let (s, reply) ← s.read fd count
    .ok (s, reply, [])
  | .write fd data => do
    let (s, reply) ← s.write fd data
    .ok (s, reply, [])
  | .lseek fd offset whence => do
    let (s, reply) ← s.lseek fd offset whence
    .ok (s, reply, [])
  | .close fd offset size => do
    let s ← s.close fd offset size
    .ok (s, Status.ok, [])
  | .dup fd =>
    let (s, reply) := s.dup fd
    .ok (s, reply, [])
  | .unlink id entry => s.handleUnlink app id entry
  | .readlink id => do
    let reply ← s.readlink id
    .ok (s, reply, [])
  | .rmdir id phase => do
    let (s, retval) ← s.rmdir id phase
    .ok (s, retval, [])
  | .rmdirAndMap id parent path => s.handleRmdirAndMap app id parent.id path
  | .truncate id len => do
    let (s, retval) ← s.truncate id len
    .ok (s, retval, [])
  | .resolve parent path => do
    let (s, reply) ← s.resolve app parent path
    .ok (s, reply, [])
  | .symlink parent src dest =>
    let (s, retval) := s.symlink parent src dest
    .ok (s, retval, [])
  | .blocks id offset count => do
    let reply ← s.blocks id offset count
    .ok (s, reply, [])
  | .flush fd size offset => do
    let (s, retval) ← s.flush fd size offset
    .ok (s, retval, [])

end Server
end Faux
