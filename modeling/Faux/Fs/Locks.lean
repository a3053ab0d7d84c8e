import Faux.Fs.NameSpace

/-! # The locks of `rmdir`

A shared directory is removed in two phases: every server locks it when it holds no entry of it, and then either
unlocks or removes it. The lock is a flag of the directory without an owner; which call has taken it is known from
the events of the call. -/

namespace Faux
open Lib

namespace Server

def Locked (s : Server) (id : FileId) : Prop := ∃ d, s.files.lookup id = some (.dir d) ∧ d.locked = true

def Vacant (s : Server) (id : FileId) : Prop :=
  ∀ d, s.files.lookup id = some (.dir d) → d.children.entries.any (fun e => e.1 ≠ "..") = false

def DirOnly (s : Server) (id : FileId) : Prop := ∀ v, s.files.lookup id = some v → v.kind = .dir

end Server

def lockStep (dir : FileId) (held : List Nat) : FsEvent → List Nat
  | ⟨.rpc i (.rmdir id phase), (reply : Status)⟩ =>
    if id = dir ∧ reply = Status.ok then
      match phase with
      | .try => i :: held
      | .fail | .success => held.erase i
      | .force => held
    else held
  | _ => held

/-- The servers at which a call has locked the directory and has not unlocked or removed it since. -/
def heldLocks (dir : FileId) (events : List FsEvent) : List Nat := events.foldl (lockStep dir) []

/-- Every request of a call that unlocks or removes the directory goes to a server at which this call has taken
    the lock. -/
def ReleasesOwn (dir : FileId) (events : List FsEvent) : Prop :=
  ∀ before i phase reply after, events = before ++ ⟨.rpc i (.rmdir dir phase), reply⟩ :: after →
    phase = .fail ∨ phase = .success → i ∈ heldLocks dir before

/-- The locks of the directory are those that calls in flight have taken, each by one call; calls release locks of
    their own only, and a call that has returned has left none. -/
structure FsConf.LockDiscipline (s : FsConf) (dir : FileId) : Prop where
  owner : ∀ i, (s.world.servers i).Locked dir ↔ ∃ c, i ∈ heldLocks dir (s.hist c)
  unique : ∀ i c c', i ∈ heldLocks dir (s.hist c) → i ∈ heldLocks dir (s.hist c') → c = c'
  own : ∀ c, ReleasesOwn dir (s.hist c)
  returned : ∀ r ∈ s.log, ReleasesOwn dir r.events ∧ heldLocks dir r.events = []

namespace Cluster

structure Unlocked (w : Cluster) (dir : FileId) : Prop where
  dirOnly : ∀ i, (w.servers i).DirOnly dir
  free : ∀ i, ¬(w.servers i).Locked dir

/-- Clients remove the shared directory: their paths lead through directories to it. With all requests of a phase at
    once, a client that holds a lock tries to take another one only where the directory is not locked. -/
def lockRules (cfg : Config) (dir : FileId) : FsRules where
  calls _ _ o := ∃ parent path fuel, o = .rmdir parent path fuel ∧ parent.type.isDir = true
  acts v c _ a :=
    match a with
    | .find p n => ∀ x, (v.world.clients c).cache.lookup (p, n) = some x → x.type.isDir = true
    | .rpc i (.resolve p n) => n ≠ "" ∧ ∀ x, (v.world.servers i).entry p n = some x → x.type.isDir = true
    | .rpc i (.rmdir id phase) => i < cfg.serverCount ∧ id = dir ∧ phase ≠ .force ∧
        (cfg.scatterGather = true → phase = .try → heldLocks dir (v.hist c) ≠ [] → ¬(v.world.servers i).Locked dir)
    | .rpc _ (.rmdirAndMap ..) => False
    | _ => True

end Cluster
end Faux
