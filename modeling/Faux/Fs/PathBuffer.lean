import Faux.Fs.Calls
import Faux.Lib.CString

/-! # The caller's path buffers

The calls of `sys/fs/lib/lib.cpp` on paths once more, with the memory that the paths are in: they overwrite a slash at the end of a
path for a while, and move their pointers before they put it back. The paths are pointers into the memory, and each call returns the
memory as it leaves it. -/

namespace Faux
open Lib

def nameAt (m : List Char) (path : Nat) : Name := String.ofList (strAt m path)

variable (cfg : Config)

def lookedUp (found : Found) (path : Nat) (m : List Char) : Found × Nat × List Char :=
  if found.inode.type.isDir then (found, path, m) else ({ found with retval := -.invalid }, path, m)

/-- `fosLookupParent`: a slash at the end is a `0` while the parent is looked up. -/
def fosLookupParentAt (parent : InodeType) (m : List Char) (path : Nat) (cached : Bool) : FsProg (Found × Nat × List Char) := do
  perform .check
  if strAt m path = [] then .ret ({ retval := .ok, inode := parent, cached }, path, m)
  else
    let parent := if m[path]? = some '/' then { parent with id := 0, type := .dir } else parent
    let last := path + strlen m path - 1
    let lastsep := decide (strlen m path > 1 ∧ m[last]? = some '/')
    let m := if lastsep then m.set last '0' else m
    match strrchr '/' (strAt m path) with
    | some sep => do
      let found ← fosResolvePieces cfg parent cached ((components ((strAt m path).take sep)).map (·, false))
      .ret (lookedUp found (path + sep + 1) (if lastsep then m.set last '/' else m))
    | none => .ret (lookedUp { retval := .ok, inode := parent, cached } path (if lastsep then m.set last '/' else m))

/-! ### Open -/

def clearPiecesAt (parent : InodeType) (path : Nat) : List Name → FsProg Nat
  | [] => .ret path
  | [name] => do
    perform (.remove parent.id name)
    .ret path
  | name :: rest => do
    let found ← resolveCached cfg parent name false false
    perform (.remove parent.id name)
    if found.retval = .ok then clearPiecesAt found.inode (path + name.length + 1) rest else .ret (path + name.length + 1)

def clearCacheAt (parent : InodeType) (m : List Char) (path : Nat) : FsProg (List Char) :=
  let pathlen := strlen m path
  -- nothing lies before the memory
  if path + pathlen = 0 then .fail .undefined
  else do
    let last := path + pathlen - 1
    let lastsep := decide (m[last]? = some '/')
    let m := if lastsep then m.set last nul else m
    -- no entry has the length -1
    let path ← if lastsep ∧ pathlen = 0 then .ret path else clearPiecesAt cfg parent path (components (strAt m path))
    .ret (if lastsep then m.set (path + strlen m path) '/' else m)

def fosClearCacheAt (parent : InodeType) (m : List Char) (path : Nat) : FsProg (List Char) :=
  if m[path]? = some '/' then clearCacheAt cfg { parent with id := 0, type := .dir } m (path + 1) else clearCacheAt cfg parent m path

def openInodeAt (saveParent : InodeType) (savePath : Nat) (parent : InodeType) (m : List Char) (path : Nat) (flags : Flags)
    (cached : Bool) (inode : InodeType) : FsProg (OpenResult × List Char) := do
  let reply ← fosOpen inode flags
  if cached ∧ reply.retval = .notFound then do
    let m ← fosClearCacheAt cfg saveParent m savePath
    let found ← fosLookup cfg saveParent (nameAt m savePath) false
    ensureNotRoot parent (nameAt m path)
    if found.retval ≠ .ok then .ret ((found.retval, none), m)
    else do
      let reply ← fosOpen found.inode flags
      if reply.retval ≠ .ok then .ret ((reply.retval, none), m)
      else do
        let opened ← openDone cfg found.inode reply flags parent (nameAt m path)
        .ret (opened, m)
  else if reply.retval ≠ .ok then .ret ((reply.retval, none), m)
  else do
    let opened ← openDone cfg inode reply flags parent (nameAt m path)
    .ret (opened, m)

def openCreateAt (saveParent : InodeType) (savePath : Nat) (parent : InodeType) (m : List Char) (path : Nat) (flags : Flags)
    (mode : Nat) (cached : Bool) (server : Nat) : FsProg (OpenResult × List Char) := do
  ensureNotRoot parent (nameAt m path)
  let reply ← rpc server (.createOpen parent.only (nameAt m path) flags mode)
  match reply.exist with
  | some exist =>
    if reply.retval = .exist then
      if flags.excl then .ret ((.exist, none), m)
      else if exist.server ≠ server then
        openInodeAt cfg saveParent savePath parent m path { flags with creat := false } cached exist
      else .fail .undefined
    else if reply.retval ≠ .ok then .ret ((reply.retval, none), m)
    else do
      let opened ← openDone cfg exist reply flags parent (nameAt m path)
      .ret (opened, m)
  | none => if reply.retval ≠ .ok then .ret ((reply.retval, none), m) else .fail .undefined

def openCreate3At (saveParent : InodeType) (savePath : Nat) (parent : InodeType) (m : List Char) (path : Nat) (flags : Flags)
    (mode : Nat) (cached : Bool) (server dirEntryServer : Nat) : FsProg (OpenResult × List Char) := do
  let (retval, exist) ← fosCreate server parent (nameAt m path) flags mode
  match exist with
  | some exist =>
    if retval = .exist then
      if flags.excl then .ret ((.exist, none), m)
      else do
        ensureNotRoot parent (nameAt m path)
        openInodeAt cfg saveParent savePath parent m path { flags with creat := false } cached exist
    else if retval = .isSym then .fail .assertion
    else if retval ≠ .ok then .ret ((retval, none), m)
    else do
      let inode ← mapCreated dirEntryServer parent (nameAt m path) { server, id := exist.id, type := .file }
      ensureNotRoot parent (nameAt m path)
      openInodeAt cfg saveParent savePath parent m path { flags with creat := false } cached inode
  | none => if retval ≠ .ok then .ret ((retval, none), m) else .fail .undefined

def fosFileOpenAt (parent : InodeType) (m : List Char) (path : Nat) (flags : Flags) (mode : Nat) : FsProg (OpenResult × List Char) :=
  if flags.creat ∧ flags.directory then .ret ((.invalid, none), m)
  else do
    let (found, rest, m) ← fosLookupParentAt cfg parent m path false
    if found.retval ≠ .ok then .ret ((found.retval, none), m)
    else if flags.creat then do
      let dirEntryServer ← Prog.lift (fosPathOwner cfg found.inode (nameAt m rest))
      let server := openServer cfg found.inode (nameAt m rest) flags dirEntryServer
      if server = dirEntryServer then openCreateAt cfg parent path found.inode m rest flags mode found.cached server
      else openCreate3At cfg parent path found.inode m rest flags mode found.cached server dirEntryServer
    else do
      let child ← fosLookup cfg found.inode (nameAt m rest) false
      ensureNotRoot found.inode (nameAt m rest)
      if child.retval ≠ .ok then .ret ((child.retval, none), m)
      else openInodeAt cfg parent path found.inode m rest flags child.cached child.inode

/-! ### Unlink and truncate -/

def fosUnlinkAt (parent : InodeType) (m : List Char) (path : Nat) : FsProg (Status × List Char) := do
  let (found, path, m) ← fosLookupParentAt cfg parent m path false
  if found.retval ≠ .ok then .ret (found.retval, m)
  else do
    let dirEntryServer ← Prog.lift (fosPathOwner cfg found.inode (nameAt m path))
    let child ← fosLookup cfg found.inode (nameAt m path) false
    if child.retval ≠ .ok then .ret (child.retval, m)
    else do
      let retval ← unlinkEntry dirEntryServer found.inode (nameAt m path) child.inode
      if retval = .ok then do
        perform (.remove found.inode.id (nameAt m path))
        .ret (retval, m)
      else .ret (retval, m)

/-- `fosTruncate` of a path. For a symbolic link the destination is asked of the parent. -/
def fosTruncate : Nat → InodeType → Name → Nat → FsProg Status
  | 0, _, _, _ => .fail .fuel
  | fuel + 1, parent, path, len => do
    let (found, rest) ← fosLookupParent cfg parent path false
    if found.retval ≠ .ok then .ret found.retval
    else do
      let child ← fosLookup cfg found.inode rest false
      if child.retval ≠ .ok then .ret child.retval
      else do
        let retval ← rpc child.inode.server (.truncate child.inode.id len)
        if retval = .isSym then do
          let (read, dest) ← rpc found.inode.server (.readlink found.inode.id)
          ensure (read = .ok)
          fosTruncate fuel found.inode dest len
        else .ret retval

/-- `fosTruncate`. The destination of a symbolic link is in a buffer of its own. -/
def fosTruncateAt (fuel : Nat) (parent : InodeType) (m : List Char) (path len : Nat) : FsProg (Status × List Char) := do
  let (found, path, m) ← fosLookupParentAt cfg parent m path false
  if found.retval ≠ .ok then .ret (found.retval, m)
  else do
    let child ← fosLookup cfg found.inode (nameAt m path) false
    if child.retval ≠ .ok then .ret (child.retval, m)
    else do
      let retval ← rpc child.inode.server (.truncate child.inode.id len)
      if retval = .isSym then do
        let (read, dest) ← rpc found.inode.server (.readlink found.inode.id)
        ensure (read = .ok)
        let retval ← fosTruncate cfg fuel found.inode dest len
        .ret (retval, m)
      else .ret (retval, m)

/-! ### Mkdir and rmdir -/

/-- `fosMkdir`: whatever happens after the slash at the end is gone, it is put back where the path ends then. -/
def fosMkdirAt (parent : InodeType) (m : List Char) (path mode : Nat) : FsProg (Status × List Char) :=
  if parent.id = 0 ∧ nameAt m path = "/" then .ret (.ok, m)
  else if nameAt m path = "." then .ret (.ok, m)
  -- nothing lies before the memory
  else if path + strlen m path = 0 then .fail .undefined
  else do
    let last := path + strlen m path - 1
    let lastsep := decide (m[last]? = some '/')
    let m := if lastsep then m.set last nul else m
    let (found, path, m) ← fosLookupParentAt cfg parent m path false
    let done := if lastsep then m.set (path + strlen m path) '/' else m
    if found.retval ≠ .ok then .ret (found.retval, done)
    else do
      let dirEntryServer ← Prog.lift (fosPathOwner cfg found.inode (nameAt m path))
      let server := mkdirServer cfg found.inode (nameAt m path) dirEntryServer
      let (retval, child) ← fosCreate server found.inode (nameAt m path) { directory := true } mode
      if retval ≠ .ok then .ret (retval, done)
      else
        match child with
        | some child => do
          mkdirDotDot cfg server found.inode child
          let retval ← mkdirMap server found.inode (nameAt m path) child
          .ret (retval, done)
        | none => .fail .undefined

/-- `fosRmdir`: the slash at the end is put back after `done_rmdir` only. -/
def fosRmdirAt (fuel : Nat) (parent : InodeType) (m : List Char) (path : Nat) : FsProg (Status × List Char) :=
  -- nothing lies before the memory
  if path + strlen m path = 0 then .fail .undefined
  else do
    let last := path + strlen m path - 1
    let lastsep := decide (m[last]? = some '/')
    let m := if lastsep then m.set last nul else m
    let (found, path, m) ← fosLookupParentAt cfg parent m path false
    if found.retval ≠ .ok then .ret (found.retval, m)
    else do
      let dirEntryServer ← Prog.lift (fosPathOwner cfg found.inode (nameAt m path))
      let child ← fosLookup cfg found.inode (nameAt m path) false
      if child.retval ≠ .ok then .ret (child.retval, m)
      else do
        let (committed, retval) ← rmdirInode cfg fuel dirEntryServer found.inode (nameAt m path) child.inode
        let done := if lastsep then m.set (path + strlen m path) '/' else m
        if committed ∧ retval = .ok then do
          perform (.remove found.inode.id (nameAt m path))
          perform (.remove child.inode.id "..")
          .ret (retval, done)
        -- a shared directory that could not be unmapped gets there too
        else .ret (retval, if committed ∧ child.inode.type = .dirShared then done else m)

def renameParentAt (parent : InodeType) (m : List Char) (path : Nat) : FsProg (Found × Nat × List Char) :=
  if '/' ∈ strAt m path then fosLookupParentAt cfg parent m path false
  else .ret ({ retval := .ok, inode := parent, cached := false }, path, m)

def fosRenameAt (fuel : Nat) (parent : InodeType) (m : List Char) (oldPath newPath : Nat) : FsProg (Status × List Char) := do
  let (old, oldPath, m) ← renameParentAt cfg parent m oldPath
  if old.retval ≠ .ok then .ret (old.retval, m)
  else do
    let (new, newPath, m) ← renameParentAt cfg parent m newPath
    if new.retval ≠ .ok then .ret (new.retval, m)
    else do
      let child ← fosLookup cfg old.inode (nameAt m oldPath) false
      if child.retval ≠ .ok then .ret (1, m)
      else do
        let inside ← intoItself cfg fuel new.inode child.inode
        if inside then .ret (.invalid, m)
        else do
          let retval ← renameMove cfg old.inode (nameAt m oldPath) new.inode (nameAt m newPath) child.inode
          .ret (retval, m)

/-! ### Calls -/

inductive PathCall where
  | mkdir (path mode : Nat)
  | rmdir (path fuel : Nat)
  | rename (oldPath newPath fuel : Nat)
  | open (path : Nat) (flags : Flags) (mode : Nat)
  | unlink (path : Nat)
  | truncate (path len fuel : Nat)

namespace PathCall

def code (parent : InodeType) (m : List Char) : PathCall → FsProg (Status × List Char)
  | .mkdir path mode => fosMkdirAt cfg parent m path mode
  | .rmdir path fuel => fosRmdirAt cfg fuel parent m path
  | .rename oldPath newPath fuel => fosRenameAt cfg fuel parent m oldPath newPath
  | .open path flags mode => do
    let (opened, m) ← fosFileOpenAt cfg parent m path flags mode
    .ret (opened.1, m)
  | .unlink path => fosUnlinkAt cfg parent m path
  | .truncate path len fuel => fosTruncateAt cfg fuel parent m path len

/-- Whatever the cache holds and the servers reply, when the call returns the caller's memory is what it was. -/
def Preserves (m : List Char) (call : PathCall) : Prop :=
  ∀ cfg parent status m', (call.code cfg parent m).Yields (status, m') → m' = m

/-- An `rmdir` of a path without a slash at its end, a `mkdir` of a path that is not an empty one after a slash, and an `open` that
    does not create `/`. -/
def Tidy (m : List Char) : PathCall → Prop
  | .rmdir path _ => m[path + strlen m path - 1]? ≠ some '/'
  | .mkdir path _ => strAt m path = [] → m[path - 1]? ≠ some '/'
  | .open path flags _ => nameAt m path = "/" → flags.creat = true → flags.directory = true
  | _ => True

instance (m : List Char) : DecidablePred (Tidy m)
  | .rmdir path _ => inferInstanceAs (Decidable (m[path + strlen m path - 1]? ≠ some '/'))
  | .mkdir path _ => inferInstanceAs (Decidable (strAt m path = [] → m[path - 1]? ≠ some '/'))
  | .open path flags _ => inferInstanceAs (Decidable (nameAt m path = "/" → flags.creat = true → flags.directory = true))
  | .rename .. | .unlink _ | .truncate .. => inferInstanceAs (Decidable True)

end PathCall
end Faux
