import Faux.Fs.Server
import Faux.Lib.Interleave

/-! # Streams of bytes through a pipe

The client side of a pipe (`app::Pipe`, `sys/fs/lib/pipe.cpp`), over the requests of its two ends. A `Pipe::read` of the server does not
touch the buffer of the reply, which carries what it held before. An object that is deleted while a call uses it keeps its
contents. `g_is_reading` decides nothing. -/

namespace Faux
open Lib

structure AppPipe where
  fd : Fd
  shouldClose : Bool
  haveClosed : Bool
  deriving DecidableEq

def AppPipe.alloc (fd : Fd) : AppPipe := { fd, shouldClose := false, haveClosed := false }

/-- The server of a pipe, the inode and the descriptors that `fosPipeOpen` has got, the pipe objects of all processes,
    and `g_interrupted` of each. The bytes of all WRITE requests and of all READ replies are in the order of the server. -/
structure Plumbing where
  server : Server
  inode : FileId
  readFd : Fd
  writeFd : Fd
  objects : List AppPipe
  interrupted : Nat → Bool
  written : List UInt8
  returned : List UInt8

inductive PipeAction where
  /-- The test of `m_should_close` in the loop of `Pipe::read`, with the request of the first time. -/
  | test (a : Nat)
  | read (a count : Nat)
  | write (a : Nat) (data : List UInt8)
  | dup (a : Nat)
  /-- `m_should_close = true`. -/
  | close (a : Nat)
  /-- The test of `g_interrupted`, which clears it. -/
  | interrupted

abbrev PipeAction.Reply : PipeAction → Type
  | .test _ => Bool
  | .read _ _ => Status × Nat × List UInt8
  | .write _ _ => Status × Nat
  | .dup _ => Unit
  | .close _ => Unit
  | .interrupted => Bool

abbrev PipeProg := Prog PipeAction PipeAction.Reply Fault

/-! ### The calls -/

/-- The operations on a pipe object. A read that finds the pipe empty tries again, without a bound. -/
inductive PipeOp where
  | read (a count fuel : Nat)
  | write (a : Nat) (buf : List UInt8)
  | dup (a : Nat)
  | close (a : Nat)

namespace PipeOp

def perform (a : PipeAction) : PipeProg a.Reply := Prog.perform a

def ebadf : Int := -9
def eintr : Int := -4

def readDone (readCount : Nat) : Int := if readCount ≠ 0 then readCount else ebadf

def closing (a : Nat) (retry : Bool) : PipeProg Bool := if retry then .ret false else perform (.test a)

def readLoop (a count : Nat) : Nat → Bool → Nat → PipeProg Int
  | 0, _, _ => .fail .fuel
  | fuel + 1, retry, readCount =>
    if readCount < count then do
      if ← closing a retry then .ret ebadf
      else do
        let (ret, readSize, _) ← perform (.read a (min (count - readCount) fsChunkSize))
        if ret = .again then do
          if ← perform .interrupted then
            if readCount = 0 then .ret eintr else .fail .assertion
          else readLoop a count fuel true readCount
        else if ret ≠ .ok then .ret (if readCount ≠ 0 then readCount else ret)
        else if readSize = 0 then .ret (readDone readCount)
        else readLoop a count fuel false (readCount + readSize)
    else .ret (readDone readCount)

def writeLoop (a : Nat) : Nat → Nat → List UInt8 → PipeProg Int
  | 0, written, _ => .ret written
  | fuel + 1, written, buf =>
    if buf = [] then .ret written
    else do
      let (ret, n) ← perform (.write a (buf.take fsChunkSize))
      if ret ≠ .ok then .ret (if written ≠ 0 then written else ret)
      else if n = 0 then .ret written
      else writeLoop a fuel (written + n) (buf.drop n)

def code : PipeOp → PipeProg Int
  | .read a count fuel => readLoop a count fuel false 0
  | .write a buf => writeLoop a buf.length 0 buf
  | .dup a => do
    perform (.dup a)
    .ret 0
  | .close a => do
    perform (.close a)
    .ret 0

end PipeOp

/-! ### The requests -/

namespace Plumbing

def object (v : Plumbing) (a : Nat) : Res AppPipe :=
  match v.objects[a]? with
  | some p => .ok p
  | none => .error .undefined

def closeOnce (v : Plumbing) (a : Nat) (p : AppPipe) : Res Plumbing :=
  if p.haveClosed then .ok v
  else do
    let server ← v.server.close p.fd none none
    .ok { v with server, objects := v.objects.set a { p with haveClosed := true } }

def testClose (v : Plumbing) (a : Nat) : Res (Plumbing × Bool) := do
  let p ← v.object a
  if p.shouldClose then do
    let v ← v.closeOnce a p
    .ok (v, true)
  else .ok (v, false)

/-- `fosFdRead`. The reply has what the server wrote into its buffer, and else what was there. -/
def fosFdRead (v : Plumbing) (buffer : Nat → UInt8) (a count : Nat) : Res (Plumbing × Status × Nat × List UInt8) := do
  let p ← v.object a
  let (server, retval, n, found) ← v.server.read p.fd count
  let data := (List.range n).map fun i => found.getD i (buffer i)
  .ok ({ v with server, returned := v.returned ++ data }, retval, n, data)

def fosFdWrite (v : Plumbing) (a : Nat) (data : List UInt8) : Res (Plumbing × Status × Nat) := do
  let p ← v.object a
  let (server, retval, n) ← v.server.write p.fd data
  .ok ({ v with server, written := v.written ++ data.take n }, retval, n)

def dupEnd (v : Plumbing) (a : Nat) : Res Plumbing := do
  let p ← v.object a
  let (server, retval, _) := v.server.dup p.fd
  require (retval = .ok)
  .ok { v with server, objects := v.objects ++ [.alloc p.fd] }

/-- `Pipe::close`. The server is not told. -/
def closeEnd (v : Plumbing) (a : Nat) : Res Plumbing := do
  let p ← v.object a
  .ok { v with objects := v.objects.set a { p with shouldClose := true } }

/-- One action of process `c`; `buffer` holds the bytes behind the header of the reply. -/
def exec (v : Plumbing) (c : Nat) (buffer : Nat → UInt8) : (a : PipeAction) → Res (Plumbing × a.Reply)
  | .test a => v.testClose a
  | .read a count => v.fosFdRead buffer a count
  | .write a data => v.fosFdWrite a data
  | .dup a => do
    let v ← v.dupEnd a
    .ok (v, ())
  | .close a => do
    let v ← v.closeEnd a
    .ok (v, ())
  | .interrupted => .ok ({ v with interrupted := Function.update v.interrupted c false }, v.interrupted c)

/-- A signal that process `c` handles. A handler that closes an end is a caller of its own. -/
def interrupt (v : Plumbing) (c : Nat) : Option Plumbing :=
  some { v with interrupted := Function.update v.interrupted c true }

def fosPipeOpen (s : Server) (env : Env) : Plumbing :=
  let (server, readFd, writeFd, inode) := s.pipe env
  { server, inode := inode.id, readFd, writeFd, objects := [.alloc readFd, .alloc writeFd],
    interrupted := fun _ => false, written := [], returned := [] }

end Plumbing

def pipeSystem : System Plumbing PipeAction PipeOp Fault Int (Nat → UInt8) Nat PipeAction.Reply where
  exec := Plumbing.exec
  intern := Plumbing.interrupt
  code _ o := o.code

abbrev PipeConf := Conf Plumbing PipeAction Fault Int PipeAction.Reply

abbrev PipeRules := System.Rules Plumbing PipeAction PipeOp Int (Nat → UInt8) PipeAction.Reply

abbrev PipeLabel := Label PipeOp (Nat → UInt8) Nat

namespace Plumbing

/-- A process has the end open. -/
def Open (v : Plumbing) (fd : Fd) : Prop := ∃ p ∈ v.objects, p.fd = fd ∧ p.shouldClose = false

/-- The server has a reference to the end: an object whose CLOSE it has not handled. -/
def Held (v : Plumbing) (fd : Fd) : Prop := ∃ p ∈ v.objects, p.fd = fd ∧ p.haveClosed = false

/-- A reply takes as many bytes as are asked for from those that have been written and not been read, with the values that its buffer
    held; it reports the end of the file exactly when there are none and the server has no reference to the write end; and the pipe
    is there exactly as long as the server has a reference to one of the ends. -/
structure Law (s : PipeConf) : Prop where
  stream : s.world.returned.length ≤ s.world.written.length
  reply : ∀ c a count k buffer w retval n data, s.call c = some (.act (.read a count) k) →
    s.world.fosFdRead buffer a count = .ok (w, retval, n, data) →
      n = min count (s.world.written.length - s.world.returned.length) ∧ data = (List.range n).map buffer ∧
      (retval = .ok ∧ n = 0 ↔ s.world.returned.length = s.world.written.length ∧ ¬s.world.Held s.world.writeFd)
  deleted : s.world.inode ∈ s.world.server.pipes ↔ s.world.Held s.world.readFd ∨ s.world.Held s.world.writeFd

/-- A pipe that has just been opened, under two descriptors that are not in use, and no process has called anything. -/
structure Start (s : PipeConf) : Prop where
  opened : ∃ server env, s.world = fosPipeOpen server env ∧ server.newId ∉ server.files ∧
    env.rand ∉ server.fds ∧ env.rand' ∉ server.fds ∧ env.rand ≠ env.rand' ∧ env.rand ≠ 0 ∧ env.rand' ≠ 0
  call : ∀ c, s.call c = none

/-- There are less than 2^31 references, so that their count does not become negative. -/
def streamRules : PipeRules where
  calls _ _ _ := True
  acts s _ _ a :=
    match a with
    | .dup _ => s.world.objects.length < 2147483647
    | _ => True

end Plumbing
end Faux
