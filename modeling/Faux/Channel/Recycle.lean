import Faux.Channel.System

/-! # Recycled channel buffers

The channel buffers of one endpoint and the connections over them (`endpoint_accept`, `__channel_setup_owned` and `channel_close`
of `messaging/channel.cpp`). Accepting takes a buffer from the pool and sets it up over whatever is left in it; closing the owner's
end puts it back. -/

namespace Faux
open Lib

inductive Direction where
  | toOwner
  | toPeer
deriving DecidableEq

inductive Side where
  | owner
  | peer
deriving DecidableEq

/-- A channel buffer: two cache lines, of which the first byte is the `closed` flag, and two half channels. -/
structure Buffer where
  header : Memory
  half : Direction → HalfChannel

namespace Buffer

def closed (b : Buffer) : Bool := b.header 0 != 0

def setClosed (b : Buffer) (closed : Bool) : Buffer := { b with header := b.header.set 0 (if closed then 1 else 0) }

/-- `!((Channel *) buf)->closed`: the buffer is read as a `Channel`, whose field `closed` is a pointer in the
    bytes 24 to 31. -/
def closedIsNull (b : Buffer) : Bool := (List.range 8).all fun i => b.header (24 + i) == 0

def setupOwned (b : Buffer) : Buffer :=
  { b.setClosed false with half := fun d => channelSetupOwned (b.half d).shared }

def setHalf (b : Buffer) (d : Direction) (chan : HalfChannel) : Buffer :=
  { b with half := Function.update b.half d chan }

end Buffer

structure ChannelLog where
  msgs : List Alloc
  rcvd : List Receipt

structure Connection where
  buffer : Nat
  isOpen : Side → Bool
  log : Direction → ChannelLog

structure Recycler where
  buffers : Nat → Buffer
  localChanPool : List Nat
  connections : List Connection

inductive RecyclerAct where
  | connect
  | use (k : Nat) (d : Direction) (a : ChannelAct)
  | close (k : Nat) (side : Side)

def Direction.actor : Direction → ChannelAct → Side
  | .toOwner, .allocate _ | .toOwner, .send .. => .peer
  | .toOwner, _ => .owner
  | .toPeer, .allocate _ | .toPeer, .send .. => .owner
  | .toPeer, _ => .peer

namespace Recycler

def sys (s : Recycler) (c : Connection) (d : Direction) : ChannelSys where
  chan := (s.buffers c.buffer).half d
  msgs := (c.log d).msgs
  rcvd := (c.log d).rcvd

def freeBuffer (s : Recycler) : Option Nat := s.localChanPool.find? fun b => (s.buffers b).closedIsNull

def channelClose (s : Recycler) (buffer : Nat) (side : Side) : Recycler :=
  let b := s.buffers buffer
  match side with
  | .owner => { s with
      buffers := Function.update s.buffers buffer (b.setClosed true)
      localChanPool := buffer :: s.localChanPool }
  | .peer => { s with buffers := Function.update s.buffers buffer (b.setClosed !b.closed) }

def step (s : Recycler) : RecyclerAct → Option Recycler
  | .connect => do
    let buffer ← s.freeBuffer
    some {
      buffers := Function.update s.buffers buffer (s.buffers buffer).setupOwned
      localChanPool := s.localChanPool.erase buffer
      connections := s.connections ++
        [{ buffer, isOpen := fun _ => true, log := fun _ => { msgs := [], rcvd := [] } }] }
  | .use k d a => do
    let c ← s.connections[k]?
    if c.isOpen (d.actor a) then
      let t ← (s.sys c d).step a
      some { s with
        buffers := Function.update s.buffers c.buffer ((s.buffers c.buffer).setHalf d t.chan)
        connections := s.connections.set k
          { c with log := Function.update c.log d { msgs := t.msgs, rcvd := t.rcvd } } }
    else none
  | .close k side => do
    let c ← s.connections[k]?
    if c.isOpen side then
      let s := s.channelClose c.buffer side
      some { s with connections := s.connections.set k { c with isOpen := Function.update c.isOpen side false } }
    else none

def Start (s : Recycler) : Prop :=
  (∀ b, s.buffers b =
    { header := fun _ => 0, half := fun _ => { head := 0, tail := 0, next := 0, shared := fun _ => 0 } }) ∧
  s.localChanPool.Nodup ∧ s.connections = []

/-- A buffer has a new connection only when both ends of the ones before have closed it, and what is received
    on a connection has been sent on it. -/
structure Isolated (s : Recycler) : Prop where
  recycled : ∀ (i j : Nat) (c c' : Connection), i < j → s.connections[i]? = some c → s.connections[j]? = some c' → c.buffer = c'.buffer →
    ∀ side, c.isOpen side = false
  received : ∀ c ∈ s.connections, ∀ (d : Direction) (n : Nat) (r : Receipt), (c.log d).rcvd[n]? = some r →
    ∃ m p, (c.log d).msgs[n]? = some m ∧ m.sent = some p ∧ r.size = p.length ∧ r.payload = p

/-- The owner closes after its peer; a buffer that is taken from the pool has no cache line flagged ready, so
    all its messages have been received and freed; and a half channel is used within the limits of its full
    flag (`ChannelSys.Guard`). -/
def Guard (s : Recycler) : RecyclerAct → Prop
  | .connect => ∀ b, s.freeBuffer = some b →
      ∀ d, ∀ i < sharedSize / cachelineSize, ((s.buffers b).half d).shared (cachelineSize * i + 4) = 0
  | .use k d a => ∀ c, s.connections[k]? = some c → (s.sys c d).Guard a
  | .close k .owner => ∀ c, s.connections[k]? = some c → c.isOpen .peer = false
  | .close _ .peer => True

end Recycler
end Faux
