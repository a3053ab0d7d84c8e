import Faux.Fs.Owners
import Faux.Channel.System

/-! # Notifications

A server with the half channels to its clients (`sys/fs/marshall.cpp`, `sys/fs/server.cpp`, `messaging/include/dispatch.h`). A handler
allocates its reply, does its work, during which `appRemoveCache` notifies other clients, and sends the reply. -/

namespace Faux
open Lib

/-! ### Replies -/

def maxFnameLen : Nat := 4096

def sizeofInodeNotify : Nat := 16

/-- `sizeof(ResolveReply)`: `child`, `retval` and `size`, packed. -/
def sizeofResolveReply : Nat := 36

/-- The offset of `size` in a `ResolveReply`. -/
def resolveReplySize : Nat := 28

/-- The size with which the handler of a request calls `dispatchAllocate` for its reply. -/
def Request.replySize : Request → Nat
  | .create .. | .addMap .. | .updateMap .. => 28
  | .pipe => 36
  | .open .. | .createOpen .. => 52
  | .read _ count => sizeofReadReply + count
  | .write .. | .lseek .. => 12
  | .dup .. => 32
  | .readlink .. => 12 + maxFnameLen
  | .resolve .. => sizeofResolveReply
  | .blocks _ _ count => 13 + count * 8
  | .destroy .. | .removeMap .. | .close .. | .unlink .. | .rmdir .. | .rmdirAndMap .. | .truncate .. | .symlink ..
  | .flush .. => 4

/-- The bytes of its reply that a handler may write: RESOLVE leaves `size` as it finds it. -/
def Request.writtenSize : Request → Nat
  | .resolve .. => resolveReplySize
  | q => q.replySize

def leNat : List UInt8 → Nat
  | [] => 0
  | b :: bs => b.toNat + 256 * leNat bs

def leBytes : Nat → Nat → List UInt8
  | 0, _ => []
  | n + 1, v => UInt8.ofNat v :: leBytes n (v / 256)

/-- The size with which the handler of a request calls `dispatchRespond` for its reply at `data`. -/
def Request.sentSize (m : Memory) (data : Nat) : (q : Request) → q.Reply → Nat
  | .read .., (_, count, _) => sizeofReadReply + count
  | .readlink .., _ => 12
  -- `reply->size` has not been set
  | .resolve .., _ => (sizeofResolveReply + leNat (m.read (data + resolveReplySize) 8)) % sizeMod
  | .blocks .., _ => 13
  | q, _ => q.replySize

def dispatchWrite (chan : HalfChannel) (data handler transaction : Nat) (body : List UInt8) : HalfChannel :=
  { chan with shared := chan.shared.write (data - sizeofDispatchHeader) (leBytes 4 handler ++ leBytes 4 transaction ++ body) }

def dispatchSend (chan : HalfChannel) (data size : Nat) : HalfChannel :=
  { chan with shared := setSize chan.shared (data - sizeofDispatchHeader - sizeofMessage) (size + sizeofDispatchHeader) }

/-- `dispatchRespond`, for a reply whose handler has written `body`. -/
def dispatchRespond (chan : HalfChannel) (data transaction : Nat) (body : List UInt8) (size : Nat) : HalfChannel :=
  dispatchSend (dispatchWrite chan data 4294967295 transaction body) data size

def inodeBytes (inode : Inode) : List UInt8 := leBytes 8 inode.server ++ leBytes 8 inode.id

/-- `dispatchNotify`. A process that is exiting, which `channel_poll` tells, is not notified. -/
def dispatchNotify (chan : HalfChannel) (data : Nat) (inode : Inode) (closed : Bool) : HalfChannel :=
  let chan := dispatchWrite chan data 4294967294 4294967295 (inodeBytes inode)
  if closed then chan else dispatchSend chan data sizeofInodeNotify

/-! ### The server and its clients -/

/-- Why a step does not end. -/
inductive Stop where
  | handler
  /-- `dispatchAllocate` of a reply fails its assertion or does not return. -/
  | reply
  /-- `dispatchAllocate` of a notification fails its assertion or does not return. -/
  | notify
  /-- The client does not return from its poll, or has not received what it frees. -/
  | client
deriving DecidableEq

structure Notifier where
  server : Server
  rings : AppId → HalfChannel
  received : List (AppId × Nat)

inductive NotifierAct where
  /-- A request is handled. The handler writes the bytes `body` into its reply; `closed` tells what the polls
      of `dispatchNotify` find, last notification first. -/
  | request (app : AppId) (env : Env) (q : Request) (transaction : Nat) (body : List UInt8) (closed : Nat → Bool)
  /-- DIRENT, for a buffer of `size` bytes; `name` is one of the entries it gives. -/
  | dirent (app : AppId) (dir : FileId) (name : Name) (size transaction : Nat) (body : List UInt8)
  /-- FSTAT, CHMOD, CHOWN and UTIMENS, which change no directory, with a reply of `body`. -/
  | attr (app : AppId) (transaction : Nat) (body : List UInt8)
  | receive (app : AppId) (closed : Bool)
  | free (app : AppId) (data : Nat)
  | connect (app : AppId) (m : Memory)

namespace Notifier
variable (cfg : Config)

def setRing (rings : AppId → HalfChannel) (app : AppId) (ring : HalfChannel) : AppId → HalfChannel :=
  Function.update rings app ring

def notifyAll (closed : Nat → Bool) : (AppId → HalfChannel) → List Server.Notify → Except Stop (AppId → HalfChannel)
  | rings, [] => .ok rings
  | rings, (app, inode) :: notes =>
    match dispatchAllocate (rings app) sizeofInodeNotify with
    | some (some (ring, data)) =>
      notifyAll closed (setRing rings app (dispatchNotify ring data inode (closed notes.length))) notes
    | _ => .error .notify

def allocReply (ring : HalfChannel) (size : Nat) : Except Stop (HalfChannel × Nat) :=
  match dispatchAllocate ring size with
  | some (some r) => .ok r
  | _ => .error .reply

def answer (s : Notifier) (server : Server) (app : AppId) (alloced transaction : Nat) (body : List UInt8) (size : Nat) :
    Except Stop Notifier := do
  let (ring, data) ← allocReply (s.rings app) alloced
  .ok { s with server, rings := setRing s.rings app (dispatchRespond ring data transaction body size) }

def request (s : Notifier) (app : AppId) (env : Env) (q : Request) (transaction : Nat) (body : List UInt8)
    (closed : Nat → Bool) : Except Stop Notifier := do
  let (ring, data) ← allocReply (s.rings app) q.replySize
  match s.server.handle cfg env app q with
  | .error _ => .error .handler
  | .ok (server, reply, notes) =>
    let rings ← notifyAll closed (setRing s.rings app ring) notes
    .ok { s with
      server
      rings := setRing rings app (dispatchRespond (rings app) data transaction body
        (q.sentSize (rings app).shared data reply)) }

def receive (s : Notifier) (app : AppId) (closed : Bool) : Except Stop Notifier :=
  match channelReceive (s.rings app) closed with
  | none => .error .client
  | some (ring, _, none) => .ok { s with rings := setRing s.rings app ring }
  | some (ring, _, some data) => .ok { s with rings := setRing s.rings app ring, received := (app, data) :: s.received }

def step (s : Notifier) : NotifierAct → Except Stop Notifier
  | .request app env q transaction body closed => s.request cfg app env q transaction body closed
  | .dirent app dir name size transaction body =>
    match s.server.direntry app dir name with
    | .ok (server, _) => s.answer server app (13 + size) transaction body 13
    | .error _ => .error .handler
  | .attr app transaction body => s.answer s.server app body.length transaction body body.length
  | .receive app closed => s.receive app closed
  | .free app data =>
    if s.received.any (fun x => x.1 = app ∧ x.2 = data) then
      .ok { s with rings := setRing s.rings app (channelFree (s.rings app) data),
                   received := s.received.eraseP fun x => x.1 = app ∧ x.2 = data }
    else .error .client
  | .connect app m => .ok { s with rings := setRing s.rings app (channelSetupOwned m) }

def next (s : Notifier) (a : NotifierAct) : Option Notifier := (s.step cfg a).toOption

def Start (s : Notifier) : Prop := s.received = [] ∧ ∀ app, ∃ m, s.rings app = channelSetupOwned m

def Fits (alloced : Nat) (body : List UInt8) (written : Nat) : Prop :=
  body.length ≤ written ∧ alloced + sizeofDispatchHeader + sizeofMessage < sizeMod

/-- The unset field of a RESOLVE reply does not make the reply a wrap sentinel. -/
def Plain (ring : HalfChannel) : Request → Prop
  | .resolve .. => ∀ out data, dispatchAllocate ring sizeofResolveReply = some (some (out, data)) →
      (sizeofResolveReply + leNat (out.shared.read (data + resolveReplySize) 8) + sizeofDispatchHeader) % 65536 ≠ sentinelSize
  | _ => True

def WholeLines (ring : HalfChannel) (closed : Bool) : Prop :=
  ∀ out size, channelPoll ring closed = some (out, size) → msgAlloced out.shared out.next % cachelineSize = 0

/-- Replies fit into their buffers and no RESOLVE reply looks like a wrap sentinel. A client receives nothing
    but messages of whole cache lines. -/
def Guard (s : Notifier) : NotifierAct → Prop
  | .request app _ q _ body _ => Fits q.replySize body q.writtenSize ∧ Plain (s.rings app) q
  | .dirent _ _ _ size _ body => Fits (13 + size) body (13 + size)
  | .attr _ _ body => Fits body.length body body.length
  | .receive app closed => WholeLines (s.rings app) closed
  | .free .. | .connect .. => True

end Notifier
end Faux
