import Faux.Fs.Notify
import Faux.Fs.Sharing

/-! # Transfers through a server

A client without the buffer cache reads and writes through the server in pieces, and the server keeps the offset. Here the requests and
the replies go through the two rings between the client and the server, one at a time: a message of a whole piece takes more than half
of a ring. Elsewhere a request is taken to find room (`Cluster.request`). -/

namespace Faux
open Lib

def readFile (cfg : Config) (h count : Nat) : FsProg (Int × List UInt8) := do
  match ← perform (.getFile h) with
  | some f => f.read cfg h count
  | none => .fail .assertion

/-- The size with which a client calls `dispatchAllocate` for a request, for the requests of a transfer. -/
def Request.transferSize : Request → Option Nat
  | .write _ data => some (sizeofWriteRequest + data.length)
  | .read .. => some 16
  | .lseek .. => some 20
  | _ => none

/-- The servers and clients, and the rings between a client and the server of the file. -/
structure Wired where
  cluster : Cluster
  requests : ChannelSys
  replies : ChannelSys

namespace Wired

/-- A message with its dispatch header. -/
def message (bytes : Nat → UInt8) (size : Nat) : List UInt8 := (List.range (size + sizeofDispatchHeader)).map bytes

def request (cfg : Config) (w : Wired) (c : Nat) (env : Env) (bytes : Nat → UInt8) (server : Nat) (q : Request) :
    Res (Wired × q.Reply) :=
  match q.transferSize.bind fun size => w.requests.pass size (message bytes size) with
  | none => .error .assertion
  | some requests => do
    let (cluster, reply) ← w.cluster.request cfg c env server q
    match w.replies.pass q.replySize (message bytes (q.sentSize w.replies.chan.shared 0 reply)) with
    | none => .error .assertion
    | some replies => .ok ({ cluster, requests, replies }, reply)

def exec (cfg : Config) (w : Wired) (c : Nat) (e : Env × (Nat → UInt8)) : (a : Action) → Res (Wired × a.Reply)
  | .rpc server q => w.request cfg c e.1 e.2 server q
  | a => do
    let (cluster, reply) ← w.cluster.exec cfg c e.1 a
    .ok ({ w with cluster }, reply)

def intern (w : Wired) (i : Nat × Nat) : Option Wired := (w.cluster.intern i).map fun cluster => { w with cluster }

end Wired

def wireSystem (cfg : Config) : System Wired Action Op Fault Int (Env × (Nat → UInt8)) (Nat × Nat) Action.Reply where
  exec := Wired.exec cfg
  intern := Wired.intern
  code c o := o.code (cfg.client c)

/-- The descriptor has an offset and refers to a file with these bytes; `room` blocks are those of the file and the free ones. -/
def Server.FileAt (s : Server) (fd : Fd) (offset : Nat) (data : List UInt8) (room : Nat) : Prop :=
  ∃ d f, s.fds.lookup fd = some d ∧ s.files.lookup d.id = some (.file f) ∧ f.Solid s.bufferCache ∧ d.offset = offset ∧
    f.contents s.mem = data ∧ f.memoryBlocks.length + s.bufferCache.blocks.length = room

structure Cluster.Transfers (w : Cluster) (c h i : Nat) (fd : Fd) (offset : Nat) (data : List UInt8) (room : Nat) : Prop where
  file : (w.servers i).FileAt fd offset data room
  handle : ∃ f, (w.clients c).files.lookup h = some f ∧ f.inode.server = i ∧ f.fd = fd

namespace Wired

/-- The rings are drained, and the client can transfer. -/
structure Ready (w : Wired) (c h i : Nat) (fd : Fd) (offset : Nat) (data : List UInt8) (room : Nat) : Prop where
  transfers : w.cluster.Transfers c h i fd offset data room
  requests : w.requests.Quiet
  replies : w.replies.Quiet

/-- The number of requests that a write of `count` bytes makes. -/
def pieces (count : Nat) : Nat := (count + (fsChunkSize - 1)) / fsChunkSize

/-- The rings accept the first piece of the write, and the first piece of the read: by then the replies to the write and to the seek,
    of one cache line each, have gone through the ring of the replies. -/
structure Room (w : Wired) (count n : Nat) : Prop where
  write : ChannelSys.Accepts w.requests.chan.head (sizeofWriteRequest + min count fsChunkSize)
  read : ChannelSys.Accepts ((w.replies.chan.head + (pieces count + 1) * cachelineSize) % sharedSize)
    (sizeofReadReply + min n fsChunkSize)

end Wired
end Faux
