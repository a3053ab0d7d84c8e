import Faux.Fs.Locks
import Faux.Lib.Alone

/-! # What `fosRmdir` reports

A client removes a directory while all others wait. What it is going to remove follows from its cache and from the
entries on the servers; what it has to report, from the entries of the directory. -/

namespace Faux
open Lib System

/-- A directory as `fosRmdir` finds it: the parent and the name under which the entry is removed, and the inode. -/
structure Target where
  parent : InodeType
  name : Name
  inode : InodeType
  deriving DecidableEq

def InodeType.Asked (cfg : Config) (x : InodeType) (i : Nat) : Prop := i = x.server ∨ x.type = .dirShared ∧ i < cfg.serverCount

namespace Cluster
variable (cfg : Config) (w : Cluster)

def stored (parent : InodeType) (path : Name) : Option InodeType :=
  if path = "" then if parent.id = 0 then some root else none
  else
    match fosPathOwnern cfg parent path with
    | .ok server => (w.servers server).entry parent.id path
    | .error _ => none

def piece (cache : DirCache) (parent : InodeType) (path : Name) (ended : Bool) : Option (InodeType × DirCache) :=
  if path = "." ∨ path = "" ∧ ended = true then some (parent, cache)
  else
    match cache.lookup (parent.id, path) with
    | some child => some (child, cache)
    | none => (w.stored cfg parent path).map fun child => (child, cache.add parent.id path child)

def walk : DirCache → InodeType → List (Name × Bool) → Option (InodeType × DirCache)
  | cache, parent, [] => some (parent, cache)
  | cache, parent, (path, ended) :: rest =>
    match w.piece cfg cache parent path ended with
    | some (child, cache) => walk cache child rest
    | none => none

def walkParent (cache : DirCache) (parent : InodeType) (path : Name) : Option ((InodeType × DirCache) × Name) :=
  if path = "" then some ((parent, cache), path)
  else
    match w.walk cfg cache (startDir parent path) ((splitParent path).1.map (·, false)) with
    | some found => if found.1.type.isDir then some (found, (splitParent path).2) else none
    | none => none

def target (c : Nat) (parent : InodeType) (path : Name) : Option Target :=
  if path = "" ∨ parent.type.isDir = false then none
  else
    match w.walkParent cfg (w.clients c).cache parent (stripSlash path) with
    | some ((dir, cache), name) =>
      match w.walk cfg cache (startDir dir name) (lookupPieces name) with
      | some (inode, _) => some { parent := dir, name, inode }
      | none => none
    | none => none

/-- The directory exists: its home server has it, whatever another server has under its id is a part of it, and
    no part is locked or has been removed. All entries of a directory that is not shared are at home. -/
structure HasDir (x : InodeType) : Prop where
  isDir : x.type.isDir = true
  home : x.server < cfg.serverCount
  present : x.id ∈ (w.servers x.server).files
  usable : ∀ i < cfg.serverCount, (w.servers i).Usable x.id
  unlocked : ∀ i < cfg.serverCount, ¬(w.servers i).Locked x.id
  entries : x.type ≠ .dirShared → ∀ i < cfg.serverCount, i ≠ x.server → (w.servers i).Vacant x.id

def Empty (x : InodeType) : Prop := ∀ i < cfg.serverCount, (w.servers i).Vacant x.id

/-- The entry has been removed from the parent, and the directory from every server. A directory that is open has
    been removed when it is an orphan. -/
structure Removed (t : Target) : Prop where
  entry : ∀ j, fosPathOwner cfg t.parent t.name = .ok j → (w.servers j).entry t.parent.id t.name = none
  gone : ∀ i < cfg.serverCount, (w.servers i).names.kind t.inode.id = none

/-- A status of OK says that the directory was empty, and that it has been removed. -/
structure Truthful (t : Target) (retval : Status) (w' : Cluster) : Prop where
  empty : retval = .ok ↔ w.Empty cfg t.inode
  removed : retval = .ok ↔ w'.Removed cfg t

/-- Client `c` calls `fosRmdir` alone: the call returns, and its status is truthful. -/
def Reports (c fuel : Nat) (parent : InodeType) (path : Name) (t : Target) : Prop :=
  (fsSystem cfg).Ends c (fun _ => True) (w.Truthful cfg t) ((fsSystem cfg).code c (.rmdir parent path fuel)) w

/-- What server `j` has of the directory is still there after a removal. -/
def Outlives (x : InodeType) (j : Nat) : Prop :=
  (w.servers j).referenced x.id = true ∨ ¬x.Asked cfg j

def Unlinkable (t : Target) : Prop :=
  ∀ j, fosPathOwner cfg t.parent t.name = .ok j → (w.servers j).entry t.parent.id t.name ≠ none ∧
    (t.parent.id = t.inode.id → w.Outlives cfg t.inode j)

/-- What the report depends on. -/
structure Removable (t : Target) : Prop where
  /-- One server after the other: the status of a server before the home is lost when the home is unlocked. -/
  order : cfg.scatterGather = false → t.inode.type = .dirShared → (w.servers t.inode.server).Vacant t.inode.id →
    ∀ i < t.inode.server, (w.servers i).Vacant t.inode.id
  /-- Only the home server of a directory that is not shared is asked to remove it. -/
  elsewhere : t.inode.type ≠ .dirShared → w.Empty cfg t.inode → ∀ i < cfg.serverCount, i ≠ t.inode.server →
    t.inode.id ∉ (w.servers i).files
  /-- The directory goes before its entry. -/
  name : w.Empty cfg t.inode → w.Unlinkable cfg t

end Cluster
end Faux
