import Faux.Fs.Marshall
import Faux.Lib.Interleave

/-! # Clients

The state of a client (`sys/fs/lib`): its directory cache (`dir_cache.cpp`), the notifications that wait in
its channels, and its open files. A client acts on this state and sends requests to servers; a request is
one action, since the client waits for the reply and a handler runs to its end. -/

namespace Faux
open Lib

abbrev PathPair := FileId × Name

def PathPair.lt (a b : PathPair) : Bool :=
  if a.1 ≠ b.1 then a.1 < b.1
  else if a.2.utf8ByteSize ≠ b.2.utf8ByteSize then a.2.utf8ByteSize < b.2.utf8ByteSize
  else a.2.toUTF8.data.toList < b.2.toUTF8.data.toList

abbrev DirCache := AList fun _ : PathPair => InodeType

namespace DirCache

/-- `DirCache::add`: an entry that is there stays. -/
def add (cache : DirCache) (parent : FileId) (path : Name) (child : InodeType) : DirCache :=
  if (parent, path) ∈ cache then cache else cache.insert (parent, path) child

def remove (cache : DirCache) (parent : FileId) (path : Name) : DirCache := cache.erase (parent, path)

/-- The first key of a list in the order of the cache. -/
def first : List PathPair → Option PathPair
  | [] => none
  | k :: ks =>
    match first ks with
    | none => some k
    | some k' => some (if PathPair.lt k k' then k else k')

/-- `DirCache::remove_dest`: only the first entry that leads to the inode is removed. -/
def removeDest (cache : DirCache) (child : Inode) : DirCache :=
  match first ((cache.entries.filter fun e => e.2.only = child).map (·.1)) with
  | none => cache
  | some k => cache.erase k

end DirCache

/-! ### The state of a client -/

structure AppFile where
  inode : InodeType
  fd : Fd
  blocks : List Nat
  size : Nat
  state : CacheState
  offset : Nat

structure Client where
  cache : DirCache
  inbox : List (Nat × Inode)
  files : AList fun _ : Nat => AppFile
  nextFile : Nat

namespace Client

def notified (cache : DirCache) (notes : List (Nat × Inode)) : DirCache :=
  notes.foldl (fun cache n => cache.removeDest n.2) cache

def receive (k : Client) (server : Nat) : Client :=
  { k with
    cache := notified k.cache (k.inbox.filter fun n => n.1 = server)
    inbox := k.inbox.filter fun n => n.1 ≠ server }

def check (k : Client) : Client := { k with cache := notified k.cache k.inbox, inbox := [] }

/-- The first notification of a server is taken while the client waits for another one. -/
def poll (k : Client) (server : Nat) : Option Client :=
  match k.inbox.find? fun n => n.1 = server with
  | none => none
  | some n => some { k with
      cache := k.cache.removeDest n.2
      inbox := k.inbox.eraseP fun n => n.1 = server }

end Client

structure Cluster where
  servers : Nat → Server
  clients : Nat → Client

/-! ### Actions -/

inductive Action where
  | rpc (server : Nat) (q : Request)
  | check
  | find (parent : FileId) (path : Name)
  | add (parent : FileId) (path : Name) (child : InodeType)
  | remove (parent : FileId) (path : Name)
  | newFile (f : AppFile)
  | getFile (h : Nat)
  | setFile (h : Nat) (f : AppFile)
  | deleteFile (h : Nat)
  | copyIn (server offset : Nat) (data : List UInt8)
  | copyOut (server offset count : Nat)
  | pick (n : Nat)

abbrev Action.Reply : Action → Type
  | .rpc _ q => q.Reply
  | .find .. => Option InodeType
  | .newFile _ | .pick _ => Nat
  | .getFile _ => Option AppFile
  | .copyOut .. => List UInt8
  | .check | .add .. | .remove .. | .setFile .. | .deleteFile _ | .copyIn .. => Unit

abbrev FsProg := Prog Action Action.Reply Fault

namespace Cluster

def setServer (w : Cluster) (i : Nat) (s : Server) : Cluster := { w with servers := Function.update w.servers i s }

def setClient (w : Cluster) (c : Nat) (k : Client) : Cluster := { w with clients := Function.update w.clients c k }

def notify (w : Cluster) (server : Nat) (notes : List Server.Notify) : Cluster :=
  { w with clients := fun c =>
      { w.clients c with
        inbox := (w.clients c).inbox ++ (notes.filter fun n => n.1 = c).map fun n => (server, n.2) } }

/-- A request and its reply. Before the reply the client has received all that the server sent it before. Both are taken to find
    room in their rings, where `dispatchAllocate` would assert it; the rings are in `Fs/Transfer.lean` and `Fs/Notify.lean`. -/
def request (cfg : Config) (w : Cluster) (c : Nat) (env : Env) (server : Nat) (q : Request) : Res (Cluster × q.Reply) := do
  let (s, reply, notes) ← (w.servers server).handle cfg env c q
  let w := (w.setServer server s).notify server notes
  .ok (w.setClient c ((w.clients c).receive server), reply)

/-- What an action of client `c` does. The shared memory of a server is accessed by offsets into it. -/
def exec (cfg : Config) (w : Cluster) (c : Nat) (env : Env) : (a : Action) → Res (Cluster × a.Reply)
  | .rpc server q => w.request cfg c env server q
  | .check => .ok (w.setClient c (w.clients c).check, ())
  | .find parent path => .ok (w, (w.clients c).cache.lookup (parent, path))
  | .add parent path child =>
    .ok (w.setClient c { w.clients c with cache := (w.clients c).cache.add parent path child }, ())
  | .remove parent path => .ok (w.setClient c { w.clients c with cache := (w.clients c).cache.remove parent path }, ())
  | .newFile f =>
    let k := w.clients c
    .ok (w.setClient c { k with files := k.files.insert k.nextFile f, nextFile := k.nextFile + 1 }, k.nextFile)
  | .getFile h => .ok (w, (w.clients c).files.lookup h)
  | .setFile h f => .ok (w.setClient c { w.clients c with files := (w.clients c).files.insert h f }, ())
  | .deleteFile h => .ok (w.setClient c { w.clients c with files := (w.clients c).files.erase h }, ())
  | .copyIn server offset data =>
    let s := w.servers server
    .ok (w.setServer server { s with mem := s.mem.write (s.bufferCache.start + offset) data }, ())
  | .copyOut server offset count =>
    let s := w.servers server
    .ok (w, s.mem.read (s.bufferCache.start + offset) count)
  -- which of `n` requests that were sent together is handled next
  | .pick n => .ok (w, env.rand % n)

/-- A client that waits for a reply takes a notification of another server. -/
def intern (w : Cluster) (i : Nat × Nat) : Option Cluster :=
  ((w.clients i.1).poll i.2).map fun k => w.setClient i.1 k

end Cluster

def perform (a : Action) : FsProg a.Reply := Prog.perform a

def rpc (server : Nat) (q : Request) : FsProg q.Reply := perform (.rpc server q)

def ensure (c : Bool) : FsProg Unit := if c then .ret () else .fail .assertion

/-! ### Lookup -/

def fosResolve (parent : InodeType) (path : Name) : FsProg (Status × Option InodeType) :=
  if parent.id = 0 ∧ path = "" then .ret (.ok, some { server := 0, id := 0, type := .dir })
  -- short circuit dot dirs
  else if path = "." then .ret (.ok, some { parent with type := .dir })
  else rpc parent.server (.resolve parent.id path)

/-- What a lookup gives: the status, the last inode that was found, and whether some entry was cached. -/
structure Found where
  retval : Status
  inode : InodeType
  cached : Bool

def resolveLive (cfg : Config) (parent : InodeType) (path : Name) (cached : Bool) : FsProg Found := do
  let server ← Prog.lift (fosPathOwnern cfg parent path)
  let (retval, child) ← fosResolve { parent with server } path
  match child with
  | some child =>
    if retval = .ok then do
      perform (.add parent.id path child)
      .ret { retval, inode := child, cached }
    else .ret { retval, inode := parent, cached }
  | none => .ret { retval, inode := parent, cached }

/-- `DirCache::resolve` of a component. `ended`: the string ends after it. -/
def resolveCached (cfg : Config) (parent : InodeType) (path : Name) (ended cached : Bool) : FsProg Found :=
  if path = "." then .ret { retval := .ok, inode := parent, cached }
  else if path = "" ∧ ended then .ret { retval := .ok, inode := parent, cached }
  else do
    match ← perform (.find parent.id path) with
    | some child => .ret { retval := .ok, inode := child, cached := true }
    | none => resolveLive cfg parent path cached

def fosResolvePieces (cfg : Config) (parent : InodeType) (cached : Bool) : List (Name × Bool) → FsProg Found
  | [] => .ret { retval := .ok, inode := parent, cached }
  | (path, ended) :: rest => do
    let found ← resolveCached cfg parent path ended cached
    if found.retval = .ok then fosResolvePieces cfg found.inode found.cached rest else .ret found

def components (path : List Char) : List Name := (path.splitOn '/').map String.ofList

def startDir (parent : InodeType) (path : Name) : InodeType :=
  if path.toList.head? = some '/' then { parent with id := 0, type := .dir } else parent

def lookupPieces (path : Name) : List (Name × Bool) :=
  let names := components path.toList
  names.dropLast.map (·, false) ++ (names.getLast?.map (·, true)).toList

def fosLookup (cfg : Config) (parent : InodeType) (path : Name) (cached : Bool) : FsProg Found := do
  perform .check
  fosResolvePieces cfg (startDir parent path) cached (lookupPieces path)

/-- A path as `fosLookupParent` divides it: the components of the parent, and the rest. A slash at the end
    belongs to the last component. -/
def splitParent (path : Name) : List Name × Name :=
  let chars := path.toList
  let body := if chars.length > 1 ∧ chars.getLast? = some '/' then chars.dropLast else chars
  let rest := chars.drop body.length
  let names := components body
  (names.dropLast, String.ofList ((names.getLast?.map String.toList).getD [] ++ rest))

/-- `fosLookupParent`: what was found for the parent, and the rest of the path. -/
def fosLookupParent (cfg : Config) (parent : InodeType) (path : Name) (cached : Bool) : FsProg (Found × Name) := do
  perform .check
  if path = "" then .ret ({ retval := .ok, inode := parent, cached }, path)
  else do
    let (names, rest) := splitParent path
    let found ← fosResolvePieces cfg (startDir parent path) cached (names.map (·, false))
    if found.inode.type.isDir then .ret (found, rest)
    -- returns -INVALID, which is positive
    else .ret ({ found with retval := -.invalid }, rest)

end Faux
