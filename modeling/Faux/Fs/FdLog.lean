import Faux.Fs.Descriptors

/-! # The ids of descriptors

`FileDescriptor` takes its id from `rand()`, and a pipe marks an end as closed with the id 0. What clients have been told about
descriptors is kept in a log, so that it can be compared with what the server has. -/

namespace Faux
open Lib

inductive FdEvent where
  | opened (fd : Fd) (id : FileId)
  | piped (id : FileId) (readFd writeFd : Fd)
  | closed (fd : Fd)
  deriving DecidableEq

def FdEvent.gives : FdEvent → List (Fd × FileId)
  | .opened fd id => [(fd, id)]
  | .piped id readFd writeFd => [(readFd, id), (writeFd, id)]
  | .closed _ => []

def Request.events : (q : Request) → q.Reply → List FdEvent
  | .open id _, r =>
    match r.fd with
    | some fd => [.opened fd id]
    | none => []
  | .createOpen .., r =>
    match r.fd, r.exist with
    | some fd, some child => [.opened fd child.id]
    | _, _ => []
  | .pipe, r => [.piped r.2.2.id r.1 r.2.1]
  | .close fd _ _, _ => [.closed fd]
  | _, _ => []

structure FdLog where
  server : Server
  log : List FdEvent

namespace Server

def inodeOf (s : Server) (fd : Fd) : Option FileId := (s.fds.lookup fd).map (·.id)

/-- The two ends of a pipe, 0 once closed. -/
def ends (s : Server) (id : FileId) : Option (Fd × Fd) := (s.pipes.lookup id).map fun p => (p.readFd, p.writeFd)

end Server

namespace FdLog

def step (cfg : Config) (s : FdLog) (a : Server.Act) : Option FdLog :=
  match s.server.handle cfg a.env a.app a.req with
  | .ok (t, r, _) => some { server := t, log := s.log ++ a.req.events r }
  | .error _ => none

def Start (s : FdLog) : Prop := s.server.fds = ∅ ∧ s.server.pipes = ∅ ∧ s.log = []

/-- Ids of descriptors are unique: none of them is 0, a new one is not that of a descriptor that has not been closed, a descriptor
    refers to the inode that it was given for until it is closed, and so does each end of a pipe. -/
structure Unique (s : FdLog) : Prop where
  nonzero : ∀ e ∈ s.log, ∀ g ∈ e.gives, g.1 ≠ 0
  distinct : ∀ e ∈ s.log, (e.gives.map (·.1)).Nodup
  fresh : ∀ before e between e' after, s.log = before ++ e :: (between ++ e' :: after) → ∀ g ∈ e.gives, ∀ g' ∈ e'.gives, g.1 = g'.1 →
    .closed g.1 ∈ between
  live : ∀ before e after, s.log = before ++ e :: after → ∀ g ∈ e.gives, .closed g.1 ∉ after → s.server.inodeOf g.1 = some g.2
  readEnd : ∀ before id r w after, s.log = before ++ .piped id r w :: after → .closed r ∉ after → ∃ w', s.server.ends id = some (r, w')
  writeEnd : ∀ before id r w after, s.log = before ++ .piped id r w :: after → .closed w ∉ after → ∃ r', s.server.ends id = some (r', w)

/-- The values of `rand()` for new descriptors are not 0, not equal and not those of live descriptors, and the id of a new pipe is
    not in use. -/
structure Guard (s : FdLog) (a : Server.Act) : Prop where
  nonzero : ∀ fd ∈ Server.newFds a.env a.req, fd ≠ 0
  distinct : (Server.newFds a.env a.req).Nodup
  fresh : ∀ fd ∈ Server.newFds a.env a.req, fd ∉ s.server.fds
  pipe : a.req = .pipe → s.server.newId ∉ s.server.pipes

end FdLog
end Faux
