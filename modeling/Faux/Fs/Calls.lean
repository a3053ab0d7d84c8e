import Faux.Fs.AppFile

/-! # Name space operations

The operations of `sys/fs/lib/lib.cpp` on names: open, unlink, mkdir, rename and rmdir, each a sequence of
requests to the servers that own the entry and the inode. -/

namespace Faux
open Lib

variable (cfg : Config)

/-- `fosCreate`. For the root nothing is sent and the inode is not set. -/
def fosCreate (server : Nat) (parent : InodeType) (path : Name) (flags : Flags) (mode : Nat) :
    FsProg (Status × Option InodeType) :=
  if parent.id = 0 ∧ path = "/" then .fail .undefined else rpc server (.create parent path flags mode)

def fosDestroy (server : Nat) (id : FileId) : FsProg Status := rpc server (.destroy id)

def fosAddMap (server : Nat) (parent : InodeType) (path : Name) (child : InodeType) (overwrite : Bool) :
    FsProg (Status × InodeType) := do
  let (retval, exist) ← rpc server (.addMap parent.only path child overwrite)
  if retval = .ok ∨ overwrite then do
    perform (.add parent.id path child)
    .ret (retval, exist)
  else .ret (retval, exist)

def fosUpdateMap (server : Nat) (parent : InodeType) (path : Name) (child : InodeType) (overwrite : Bool)
    (oldParent : InodeType) (oldPath : Name) : FsProg (Status × InodeType) := do
  let (retval, exist) ← rpc server (.updateMap parent.only path child overwrite oldParent oldPath)
  if retval = .ok ∨ overwrite then do
    perform (.add parent.id path child)
    .ret (retval, exist)
  else .ret (retval, exist)

def fosRemoveMap (server : Nat) (parent : InodeType) (path : Name) : FsProg Status :=
  rpc server (.removeMap parent.id path)

/-! ### Open -/

abbrev OpenResult := Status × Option Nat

def openDone (inode : InodeType) (reply : OpenReply) (flags : Flags) (parent : InodeType) (path : Name) :
    FsProg OpenResult :=
  match reply.type, reply.fd, reply.size with
  | some .file, some fd, some size => do
    let f : AppFile := { inode := { inode with type := .file }, fd, blocks := [], size, state := .invalid, offset := 0 }
    let h ← perform (.newFile f)
    let f ← f.cacheBlocks cfg h
    perform (.setFile h { f with state := reply.state, offset := if flags.append then size else 0 })
    if flags.creat then do
      perform (.add parent.id path { inode with type := .file })
      .ret (.ok, some h)
    else .ret (.ok, some h)
  | some .dir, some _, _ =>
    if flags.creat then do
      perform (.add parent.id path { inode with type := .dir })
      .ret (.ok, none)
    else .ret (.ok, none)
  | some .dirShared, some _, _ =>
    if flags.creat then do
      perform (.add parent.id path { inode with type := .dirShared })
      .ret (.ok, none)
    else .ret (.ok, none)
  | _, _, _ => .fail .assertion

def fosOpen (inode : InodeType) (flags : Flags) : FsProg OpenReply := rpc inode.server (.open inode.id flags)

/-- The loop of `_fosClearCache`. When a component is not found the inode is not set, and what is removed in
    the end is not known: here nothing is. -/
def clearPieces (parent : InodeType) : List Name → FsProg Unit
  | [] => .ret ()
  | [path] => perform (.remove parent.id path)
  | path :: rest => do
    let found ← resolveCached cfg parent path false false
    perform (.remove parent.id path)
    if found.retval = .ok then clearPieces found.inode rest else .ret ()

/-- `_fosClearCache`. The rest of `/` is empty: the slash before it is taken for one at its end, and no entry has the
    length that is left. -/
def fosClearCache (parent : InodeType) (path : Name) : FsProg Unit :=
  if path = "/" then .ret ()
  else
    let chars := if path.toList.head? = some '/' then path.toList.tail else path.toList
    let chars := if chars.getLast? = some '/' then chars.dropLast else chars
    clearPieces cfg (startDir parent path) (components chars)

/-- What `_fosClearCache` leaves of the path: `/` is overwritten. -/
def clearedPath (path : Name) : Name := if path = "/" then "" else path

/-- An absolute path has been resolved before the open. -/
def ensureNotRoot (parent : InodeType) (path : Name) : FsProg Unit := ensure (¬(parent.id = 0 ∧ path = "/"))

/-- `fosFileOpen` of an inode that exists. An inode that is not found may come from a stale cache: once, the
    path is cleared and looked up again. -/
def openInode (saveParent : InodeType) (savePath : Name) (parent : InodeType) (path : Name) (flags : Flags) (cached : Bool)
    (inode : InodeType) : FsProg OpenResult := do
  let reply ← fosOpen inode flags
  if cached ∧ reply.retval = .notFound then do
    fosClearCache cfg saveParent savePath
    let found ← fosLookup cfg saveParent (clearedPath savePath) false
    ensureNotRoot parent path
    if found.retval ≠ .ok then .ret (found.retval, none)
    else do
      let reply ← fosOpen found.inode flags
      if reply.retval ≠ .ok then .ret (reply.retval, none) else openDone cfg found.inode reply flags parent path
  else if reply.retval ≠ .ok then .ret (reply.retval, none)
  else openDone cfg inode reply flags parent path

def openServer (parent : InodeType) (path : Name) (flags : Flags) (dirEntryServer : Nat) : Nat :=
  if cfg.affinity ∧ ¬flags.wronly ∧ cfg.socketMap dirEntryServer ≠ cfg.socketMap cfg.destServer then cfg.destServer
  else if parent.type = .dirShared then dirEntryServer
  else fosPathHashDirect cfg path

/-- A new inode gets its entry. When there is an entry already the new inode is destroyed, and the result is
    the inode that exists. -/
def mapCreated (dirEntryServer : Nat) (parent : InodeType) (path : Name) (inode : InodeType) : FsProg InodeType := do
  let (retval, exist) ← fosAddMap dirEntryServer parent path inode false
  if retval = .exist then do
    let retval ← fosDestroy inode.server inode.id
    ensure (retval = .ok)
    .ret exist
  else .ret exist

/-- `fosFileOpen` with `O_CREAT`, one request: the inode lives on the server of the entry. -/
def openCreate (saveParent : InodeType) (savePath : Name) (parent : InodeType) (path : Name) (flags : Flags) (mode : Nat)
    (cached : Bool) (server : Nat) : FsProg OpenResult := do
  ensureNotRoot parent path
  let reply ← rpc server (.createOpen parent.only path flags mode)
  match reply.exist with
  | some exist =>
    if reply.retval = .exist then
      if flags.excl then .ret (.exist, none)
      -- the file exists on another server
      else if exist.server ≠ server then
        openInode cfg saveParent savePath parent path { flags with creat := false } cached exist
      else .fail .undefined
    else if reply.retval ≠ .ok then .ret (reply.retval, none)
    else openDone cfg exist reply flags parent path
  | none => if reply.retval ≠ .ok then .ret (reply.retval, none) else .fail .undefined

/-- `fosFileOpen` with `O_CREAT`, three requests: create, add the map and open. -/
def openCreate3 (saveParent : InodeType) (savePath : Name) (parent : InodeType) (path : Name) (flags : Flags) (mode : Nat)
    (cached : Bool) (server dirEntryServer : Nat) : FsProg OpenResult := do
  let (retval, exist) ← fosCreate server parent path flags mode
  match exist with
  | some exist =>
    if retval = .exist then
      if flags.excl then .ret (.exist, none)
      else do
        ensureNotRoot parent path
        openInode cfg saveParent savePath parent path { flags with creat := false } cached exist
    else if retval = .isSym then .fail .assertion
    else if retval ≠ .ok then .ret (retval, none)
    else do
      let inode ← mapCreated dirEntryServer parent path { server, id := exist.id, type := .file }
      ensureNotRoot parent path
      openInode cfg saveParent savePath parent path { flags with creat := false } cached inode
  | none => if retval ≠ .ok then .ret (retval, none) else .fail .undefined

def fosFileOpen (parent : InodeType) (path : Name) (flags : Flags) (mode : Nat) : FsProg OpenResult :=
  if flags.creat ∧ flags.directory then .ret (.invalid, none)
  else do
    let (found, rest) ← fosLookupParent cfg parent path false
    if found.retval ≠ .ok then .ret (found.retval, none)
    else if flags.creat then do
      let dirEntryServer ← Prog.lift (fosPathOwner cfg found.inode rest)
      let server := openServer cfg found.inode rest flags dirEntryServer
      if server = dirEntryServer then openCreate cfg parent path found.inode rest flags mode found.cached server
      else openCreate3 cfg parent path found.inode rest flags mode found.cached server dirEntryServer
    else do
      let child ← fosLookup cfg found.inode rest false
      ensureNotRoot found.inode rest
      if child.retval ≠ .ok then .ret (child.retval, none)
      else openInode cfg parent path found.inode rest flags child.cached child.inode

def unlinkEntry (dirEntryServer : Nat) (parent : InodeType) (path : Name) (child : InodeType) : FsProg Status :=
  -- if the dir entry is on a different server then remove that mapping
  if child.server ≠ dirEntryServer then do
    let retval ← fosRemoveMap dirEntryServer parent path
    ensure (retval = .ok)
    rpc child.server (.unlink child.id none)
  else rpc child.server (.unlink child.id (some (parent.id, path)))

def fosUnlink (parent : InodeType) (path : Name) : FsProg Status := do
  let (found, rest) ← fosLookupParent cfg parent path false
  if found.retval ≠ .ok then .ret found.retval
  else do
    let dirEntryServer ← Prog.lift (fosPathOwner cfg found.inode rest)
    let child ← fosLookup cfg found.inode rest false
    if child.retval ≠ .ok then .ret child.retval
    else do
      let retval ← unlinkEntry dirEntryServer found.inode rest child.inode
      if retval = .ok then do
        perform (.remove found.inode.id rest)
        .ret retval
      else .ret retval

/-! ### Mkdir -/

/-- A path without a slash at its end. -/
def stripSlash (path : Name) : Name :=
  if path.toList.getLast? = some '/' then String.ofList path.toList.dropLast else path

def mkdirServer (parent : InodeType) (path : Name) (dirEntryServer : Nat) : Nat :=
  if parent.type = .dirShared then dirEntryServer
  else if cfg.affinity ∧ cfg.socketMap (fosPathHashDirect cfg path) ≠ cfg.socketMap cfg.destServer then cfg.destServer
  else fosPathHashDirect cfg path

def mkdirDotDot (server : Nat) (parent child : InodeType) : FsProg Unit :=
  if child.type = .dirShared then do
    let dotDotServer ← Prog.lift (fosPathOwner cfg child "..")
    if dotDotServer ≠ server then do
      let (retval, _) ← fosAddMap dotDotServer child ".." parent false
      ensure (retval = .ok)
    else .ret ()
  else .ret ()

def mkdirMap (server : Nat) (parent : InodeType) (path : Name) (child : InodeType) : FsProg Status :=
  if parent.type = .dir then
    if parent.server ≠ server then do
      ensure child.type.isDir
      let (retval, _) ← fosAddMap parent.server parent path child false
      if retval ≠ .ok then do
        let _ ← fosDestroy server child.id
        .ret retval
      else .ret retval
    else do
      perform (.add parent.id path child)
      .ret .ok
  else .ret .ok

def fosMkdir (parent : InodeType) (path : Name) (mode : Nat) : FsProg Status :=
  -- can't make the root, and the last character of an empty path is not there
  if parent.id = 0 ∧ path = "/" then .ret .ok
  else if path = "." then .ret .ok
  else if path = "" then .fail .undefined
  else do
    let (found, rest) ← fosLookupParent cfg parent (stripSlash path) false
    if found.retval ≠ .ok then .ret found.retval
    else do
      let dirEntryServer ← Prog.lift (fosPathOwner cfg found.inode rest)
      let server := mkdirServer cfg found.inode rest dirEntryServer
      let (retval, child) ← fosCreate server found.inode rest { directory := true } mode
      if retval ≠ .ok then .ret retval
      else
        match child with
        | some child => do
          mkdirDotDot cfg server found.inode child
          mkdirMap server found.inode rest child
        | none => .fail .undefined

/-! ### Rename -/

/-- The loop of `fosRename` over the ancestors of the new parent: is `child` one of them? -/
def isAncestor (child : FileId) : Nat → InodeType → FsProg Bool
  | 0, p => if p.id = 0 then .ret false else .fail .fuel
  | fuel + 1, p =>
    if p.id = 0 then .ret false
    else do
      let server ← Prog.lift (fosPathOwner cfg p "..")
      let (retval, up) ← fosResolve { p with server } ".."
      match up with
      | some up => do
        ensure (retval = .ok)
        if up.id = child then .ret true else isAncestor child fuel up
      | none => .fail .assertion

def renameParent (parent : InodeType) (path : Name) : FsProg (Found × Name) :=
  if '/' ∈ path.toList then fosLookupParent cfg parent path false
  else .ret ({ retval := .ok, inode := parent, cached := false }, path)

def intoItself (fuel : Nat) (newParent child : InodeType) : FsProg Bool :=
  if child.type.isDir then
    if newParent.id = child.id then .ret true else isAncestor cfg child.id fuel newParent
  else .ret false

/-- The new entry of a rename; the old one goes with it when it lives on the same server, else by a request of
    its own. -/
def moveEntry (oldParent : InodeType) (oldPath : Name) (newParent : InodeType) (newPath : Name) (child : InodeType)
    (oldServer newServer : Nat) : FsProg (Status × InodeType) :=
  if newServer = oldServer then fosUpdateMap newServer newParent newPath child true oldParent oldPath
  else do
    let (retval, exist) ← fosAddMap newServer newParent newPath child true
    ensure (retval = .exist ∨ retval = .ok)
    let removed ← fosRemoveMap oldServer oldParent oldPath
    ensure (removed = .ok)
    .ret (retval, exist)

/-- The end of a rename: an inode that the new name led to is destroyed, and `..` of a moved directory is set. -/
def renameDone (retval : Status) (exist newParent child : InodeType) (dotDotServer : Nat) : FsProg Status := do
  if retval = .exist then do
    let retval ← fosDestroy exist.server exist.id
    ensure (retval = .ok)
    renameDotDot newParent child dotDotServer
  else do
    ensure (retval = .ok)
    renameDotDot newParent child dotDotServer
where
  renameDotDot (newParent child : InodeType) (dotDotServer : Nat) : FsProg Status :=
    if child.type = .dir then do
      let (retval, _) ← fosAddMap dotDotServer child ".." newParent true
      ensure (retval = .ok ∨ retval = .exist)
      .ret .ok
    else .ret .ok

def renameDotDotServer (child : InodeType) : Res Nat :=
  if child.type.isDir then fosPathOwner cfg child ".." else .ok 0

def renameMove (oldParent : InodeType) (oldPath : Name) (newParent : InodeType) (newPath : Name) (child : InodeType) :
    FsProg Status := do
  let dotDotServer ← Prog.lift (renameDotDotServer cfg child)
  let newServer ← Prog.lift (fosPathOwner cfg newParent newPath)
  let oldServer ← Prog.lift (fosPathOwner cfg oldParent oldPath)
  let (retval, exist) ← moveEntry oldParent oldPath newParent newPath child oldServer newServer
  perform (.remove oldParent.id oldPath)
  renameDone retval exist newParent child dotDotServer

def fosRename (fuel : Nat) (parent : InodeType) (oldPath newPath : Name) : FsProg Status := do
  let (old, oldRest) ← renameParent cfg parent oldPath
  if old.retval ≠ .ok then .ret old.retval
  else do
    let (new, newRest) ← renameParent cfg parent newPath
    if new.retval ≠ .ok then .ret new.retval
    else do
      let child ← fosLookup cfg old.inode oldRest false
      -- the status is the comparison, `(retval = fosLookup(..) != OK)`
      if child.retval ≠ .ok then .ret 1
      else do
        let inside ← intoItself cfg fuel new.inode child.inode
        if inside then .ret .invalid else renameMove cfg old.inode oldRest new.inode newRest child.inode

/-! ### Rmdir -/

def tryRmdir (server : Nat) (id : FileId) : Nat → FsProg Status
  | 0 => .fail .fuel
  | fuel + 1 => do
    let retval ← rpc server (.rmdir id .try)
    if retval = .again then tryRmdir server id fuel else .ret retval

/-- Requests that are sent together: the servers handle them in any order. The statuses by server. -/
def gather (id : FileId) (phase : RmdirPhase) : Nat → List Nat → FsProg (List (Nat × Status))
  | 0, _ => .ret []
  | n + 1, servers => do
    let i ← perform (.pick servers.length)
    match servers[i]? with
    | none => .ret []
    | some server => do
      let retval ← rpc server (.rmdir id phase)
      let rest ← gather id phase n (servers.eraseIdx i)
      .ret ((server, retval) :: rest)

/-- `rm_retvals` as an array. -/
def statusOf (retvals : List (Nat × Status)) (server : Nat) : Status := (retvals.lookup server).getD .ok

/-- The status after phase 1: the last one that is not OK. -/
def worst (retval : Status) : List Status → Status
  | [] => retval
  | st :: rest => worst (if st ≠ .ok then st else retval) rest

/-- `fosRmdir` of a shared directory with all requests of a phase at once: whether it was committed, and the
    status. -/
def rmdirGather (fuel : Nat) (child : InodeType) : FsProg (Bool × Status) := do
  let first ← tryRmdir child.server child.id fuel
  if first ≠ .ok then .ret (false, first)
  else do
    let others := (List.range cfg.serverCount).filter (· ≠ child.server)
    let tried ← gather child.id .try others.length others
    let retvals := (child.server, first) :: tried
    let retval := worst first (others.map (statusOf retvals))
    let phase := if retval = .ok then RmdirPhase.success else .fail
    let targets := (List.range cfg.serverCount).filter fun i => statusOf retvals i ≠ .notEmpty
    let done ← gather child.id phase targets.length targets
    ensure (done.all fun r => r.2 = .ok)
    .ret (phase = .success, retval)

/-- The loop of phase 1 without scatter-gather: the servers that were contacted, and the status. -/
def tryAll (fuel : Nat) (child : InodeType) : List Nat → FsProg (Nat × Status)
  | [] => .ret (cfg.serverCount, .ok)
  | i :: rest =>
    if i = child.server then tryAll fuel child rest
    else do
      let retval ← tryRmdir i child.id fuel
      if retval ≠ .ok then .ret (i, retval) else tryAll fuel child rest

def commitAll (child : InodeType) (phase : RmdirPhase) : List Nat → FsProg Unit
  | [] => .ret ()
  | i :: rest => do
    let retval ← rpc i (.rmdir child.id phase)
    ensure (retval = .ok)
    commitAll child phase rest

def rmdirSequence (fuel : Nat) (child : InodeType) : FsProg (Bool × Status) := do
  let first ← tryRmdir child.server child.id fuel
  if first ≠ .ok then .ret (false, first)
  else do
    let (contacted, retval) ← tryAll cfg fuel child (List.range cfg.serverCount)
    let phase := if retval = .ok then RmdirPhase.success else .fail
    commitAll child phase (List.range contacted)
    if phase = .fail ∧ contacted < child.server then do
      -- the status of the directory is overwritten
      let retval ← rpc child.server (.rmdir child.id phase)
      ensure (retval = .ok)
      .ret (false, retval)
    else .ret (phase = .success, retval)

def rmdirShared (fuel : Nat) (child : InodeType) : FsProg (Bool × Status) :=
  if cfg.scatterGather then rmdirGather cfg fuel child else rmdirSequence cfg fuel child

/-- `fosRmdir` of the inode and its entry: whether it was committed, and the status. -/
def rmdirInode (fuel : Nat) (dirEntryServer : Nat) (parent : InodeType) (path : Name) (child : InodeType) :
    FsProg (Bool × Status) :=
  if child.type ≠ .dirShared then
    -- Coalesce if child inode and parent dir entry server are same
    if dirEntryServer = child.server then do
      let retval ← rpc child.server (.rmdirAndMap child.id parent path)
      .ret (true, retval)
    else do
      let retval ← rpc child.server (.rmdir child.id .force)
      if retval ≠ .ok then .ret (false, retval)
      else do
        let retval ← fosRemoveMap dirEntryServer parent path
        ensure (retval = .ok)
        .ret (true, retval)
  else do
    let (committed, retval) ← rmdirShared cfg fuel child
    if committed then do
      let retval ← fosRemoveMap dirEntryServer parent path
      .ret (true, retval)
    else .ret (false, retval)

def fosRmdir (fuel : Nat) (parent : InodeType) (path : Name) : FsProg Status :=
  -- the last character of an empty path is not there
  if path = "" then .fail .undefined
  else do
    let (found, rest) ← fosLookupParent cfg parent (stripSlash path) false
    if found.retval ≠ .ok then .ret found.retval
    else do
      let dirEntryServer ← Prog.lift (fosPathOwner cfg found.inode rest)
      let child ← fosLookup cfg found.inode rest false
      if child.retval ≠ .ok then .ret child.retval
      else do
        let (committed, retval) ← rmdirInode cfg fuel dirEntryServer found.inode rest child.inode
        if committed ∧ retval = .ok then do
          perform (.remove found.inode.id rest)
          perform (.remove child.inode.id "..")
          .ret retval
        else .ret retval

end Faux
