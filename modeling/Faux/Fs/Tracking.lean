import Faux.Fs.Owners

/-! # Tracking sets

A server that accepts connections, handles requests and drops connections (`messaging/dispatch.cpp`,
`sys/fs/server.cpp`). The key of a client in `m_apps` is the pointer to the `Channel` on which its requests
arrive. When a connection is closed, the structure of the last channel is copied over its structure. -/

namespace Faux
open Lib

def Server.locs (s : Server) : List Nat := s.files.entries.flatMap fun e =>
  match e.2 with
  | .dir d => d.children.entries.map fun c => c.2.loc
  | _ => []

def Server.appClose (s : Server) (app : AppId) : Server := { s with apps := s.apps.filter fun t => t.1 ≠ app }

/-- A server with its dispatcher. Connections are numbered in the order in which they are accepted. -/
structure Tracker where
  server : Server
  keys : List (AppId × Nat)
  channels : List AppId
  conn : AppId → Nat
  next : AppId
  accepted : Nat
  closed : List Nat
  late : List Nat

inductive TrackerAct where
  | connect
  | request (pos : Nat) (env : Env) (q : Request)
  /-- DIRENT; `name` is one of the entries it gives. -/
  | dirent (pos : Nat) (dir : FileId) (name : Name)
  | close (pos : Nat)

/-- A request that is given an entry and loses it again leaves an empty set under its key. -/
def Request.leavesKey : Request → Bool
  | .updateMap _ path .. => path ≠ ".."
  | _ => false

namespace Tracker
variable (cfg : Config)

def track (s : Tracker) (app : AppId) (server : Server) (leavesKey : Bool) (notes : List Server.Notify) : Tracker :=
  { s with
    server
    keys := if server.apps.any (fun t => t.1 = app) || leavesKey then s.keys.insert (app, s.conn app) else s.keys
    late := (notes.map fun n => s.conn n.1).filter (· ∈ s.closed) ++ s.late }

/-- `endpoint_accept`, with a new `Channel`. -/
def connect (s : Tracker) : Tracker :=
  { s with channels := s.channels ++ [s.next], conn := Function.update s.conn s.next s.accepted, next := s.next + 1,
           accepted := s.accepted + 1 }

def close (s : Tracker) (app last : AppId) : Tracker :=
  { s with
    server := s.server.appClose app
    keys := s.keys.filter fun k => k.1 ≠ app
    channels := s.channels.dropLast
    conn := Function.update s.conn app (s.conn last)
    closed := s.conn app :: s.closed }

def step (s : Tracker) : TrackerAct → Option Tracker
  | .connect => some s.connect
  | .request pos env q => do
    let app ← s.channels[pos]?
    let (server, _, notes) ← (s.server.handle cfg env app q).toOption
    some (s.track app server q.leavesKey notes)
  | .dirent pos dir name => do
    let app ← s.channels[pos]?
    let (server, _) ← (s.server.direntry app dir name).toOption
    some (s.track app server false [])
  | .close pos => do
    let app ← s.channels[pos]?
    let last ← s.channels.getLast?
    some (s.close app last)

structure Start (s : Tracker) : Prop where
  server : ∃ id bufferCache mem, s.server = Server.boot id bufferCache mem
  keys : s.keys = []
  channels : s.channels = []
  closed : s.closed = []
  late : s.late = []

/-- Keys are open channels of the client they were entered for, tracked entries are stored in a directory, and no
    notification has been addressed to a closed connection. -/
structure Valid (s : Tracker) : Prop where
  keys : ∀ k ∈ s.keys, k.1 ∈ s.channels ∧ s.conn k.1 = k.2 ∧ k.2 ∉ s.closed
  owners : ∀ t ∈ s.server.apps, ∃ c, (t.1, c) ∈ s.keys
  entries : ∀ t ∈ s.server.apps, t.2 ∈ s.server.locs
  late : s.late = []

end Tracker

namespace Server

/-- No client has been given an entry of the directory. -/
def Untracked (s : Server) (dir : FileId) : Prop := ∀ d name entry app, s.files.lookup dir = some (.dir d) →
  d.children.lookup name = some entry → (app, entry.loc) ∉ s.apps

def UntrackedUp (s : Server) (dir : FileId) (path : Name) : Prop := ∀ d entry app, path = ".." →
  s.files.lookup dir = some (.dir d) → d.children.lookup path = some entry → (app, entry.loc) ∉ s.apps

def FreshId (s : Server) : Prop := s.newId ∉ s.files

/-- Directories are deleted, and entries `..` removed, only when no client has been given these entries; new
    objects get new ids. -/
def TrackGuard (s : Server) : Request → Prop
  | .create parent _ _ _ => (s.lazyDir parent.id).FreshId
  | .createOpen parent _ _ _ => (s.lazyDir parent.id).FreshId
  | .symlink parent _ _ => (s.lazyDir parent).FreshId
  | .destroy id => s.Untracked id
  | .rmdir id phase => phase = .success ∨ phase = .force → s.Untracked id
  | .rmdirAndMap id _ path => s.Untracked id ∧ path ≠ ".."
  | .removeMap parent path => s.UntrackedUp parent path
  | .unlink _ (some (parent, path)) => s.UntrackedUp parent path
  | .updateMap _ _ _ _ _ oldPath => oldPath ≠ ".."
  | .close fd _ _ => ∀ d, s.fds.lookup fd = some d → s.Untracked d.id
  | _ => True

end Server

/-- A channel is closed when it is the last one or the last one is no key. -/
def Tracker.Guard (s : Tracker) : TrackerAct → Prop
  | .request _ _ q => s.server.TrackGuard q
  | .close pos => ∀ last, s.channels.getLast? = some last → s.channels[pos]? = some last ∨ ∀ k ∈ s.keys, k.1 ≠ last
  | _ => True

end Faux
