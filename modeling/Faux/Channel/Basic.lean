import Faux.Lib.Memory

/-! # Half channels

The ring of `messaging/include/channel.h` through which one sender passes messages to one receiver, in
the configuration without scratch buffer (`channel_conf.h`, `Config.in`). Offsets and sizes are of type
`size_t`; a subtraction that can go below zero wraps (`sizeSub`). The ring belongs to one sender and one
receiver, so every `cmpxchg` on `head`, `tail` and `next` finds the value it read. -/

namespace Faux
open Lib

/-- `SHARED_SIZE`, the default `CONFIG_CHANNEL_BUF_SIZE`. -/
def sharedSize : Nat := 65536

def cachelineSize : Nat := 64

/-- `sizeof(Message)`: size, alloced, ready, dummy and padding, packed. -/
def sizeofMessage : Nat := 8

/-- `(uint16_t) ~0`, the size of a wrap sentinel. -/
def sentinelSize : Nat := 65535

/-- The number of values of type `size_t`. -/
def sizeMod : Nat := 18446744073709551616

/-- `(size_t) -1`, what polling a closed channel gives. -/
def closedSize : Nat := sizeMod - 1

def sizeSub (a b : Nat) : Nat := (a + sizeMod - b) % sizeMod

structure HalfChannel where
  head : Nat
  tail : Nat
  next : Nat
  shared : Memory

/-! ### Message headers

A `Message` lies at a multiple of the cache line size: `size` in bytes 0 and 1, `alloced` in bytes 2 and
3, `ready` in byte 4. The payload starts at byte `sizeofMessage`. -/

def msgSize (m : Memory) (off : Nat) : Nat := m.get16 off
def msgAlloced (m : Memory) (off : Nat) : Nat := m.get16 (off + 2)

/-- `CHANNEL_MSG_READY(msg, val)`: a compare-and-swap of the flag with its own value. -/
def msgReady (m : Memory) (off : Nat) (val : Bool) : Bool := m (off + 4) == (if val then 1 else 0)

def setSize (m : Memory) (off v : Nat) : Memory := m.set16 off v
def setAlloced (m : Memory) (off v : Nat) : Memory := m.set16 (off + 2) v
def setReady (m : Memory) (off : Nat) (val : Bool) : Memory := m.set (off + 4) (if val then 1 else 0)

/-! ### The sender -/

/-- `_channel_message_size`: the cache-aligned size of a message with its header, 0 if it is too big. -/
def channelMessageSize (size : Nat) : Nat :=
  let msgSize := (size + sizeofMessage) % sizeMod
  if msgSize > sharedSize - cachelineSize then 0
  else if msgSize % cachelineSize ≠ 0 then msgSize - msgSize % cachelineSize + cachelineSize
  else msgSize

def ringFuel : Nat := sharedSize / cachelineSize + 1

/-- The loop of `_channel_gc`: the new tail, `none` if the loop does not end within the fuel. -/
def gcLoop (shared : Memory) (head : Nat) : Nat → Nat → Nat → Nat → Option Nat
  | 0, _, _, _ => none
  | fuel + 1, tail, freeing, freed =>
    -- channel empty
    if freeing = head ∨ freed = sharedSize then some tail
    else
      let freeing := if freeing ≥ sharedSize then 0 else freeing
      -- not freed
      if msgReady shared freeing true then some tail
      else
        let alloced := msgAlloced shared freeing
        let newTail :=
          if msgSize shared freeing ≠ sentinelSize then sizeSub (freeing + alloced) 1 else sharedSize - 1
        gcLoop shared head fuel newTail (newTail + 1) (freed + alloced)

def gcFreed (head tail : Nat) : Nat :=
  let freed := sizeSub (tail + 1) head
  let freed := if head > tail then sizeSub sharedSize freed else freed
  if freed > sharedSize then 0 else freed

def channelGc (chan : HalfChannel) : Option HalfChannel :=
  (gcLoop chan.shared chan.head ringFuel chan.tail (chan.tail + 1) (gcFreed chan.head chan.tail)).map
    fun tail => { chan with tail }

/-- Where `channel_allocate` places a message: its offset, and whether the allocation wraps. -/
def placement (head tail allocedSize : Nat) : Option (Nat × Bool) :=
  if (head < tail ∧ allocedSize ≤ tail + 1 - head) ∨ (head > tail ∧ allocedSize ≤ sharedSize - head) then
    some (head, false)
  else if head > tail ∧ allocedSize ≤ tail + 1 then some (0, true)
  else none

/-- The sentinel that sends the receiver from `head` back to offset 0. -/
def writeSentinel (m : Memory) (head : Nat) : Memory :=
  setReady (setAlloced (setSize m head sentinelSize) head (sharedSize - head)) head true

/-- The header of a fresh allocation: a message of size 0 is not delivered. -/
def writeHeader (m : Memory) (start allocedSize : Nat) : Memory :=
  setAlloced (setReady (setSize m start 0) start true) start allocedSize

def allocateAt (out : HalfChannel) (allocedSize start : Nat) (wrapped : Bool) : HalfChannel :=
  let newHead := start + allocedSize
  { head := if newHead ≥ sharedSize then 0 else newHead
    -- the head meets the tail: the buffer is flagged as full
    tail := if newHead = out.tail + 1 then sharedSize else out.tail
    next := out.next
    shared :=
      let m := if wrapped then writeSentinel out.shared out.head else out.shared
      writeHeader m start allocedSize }

/-- The search of `channel_allocate` for a place, with one garbage collection when there is none. -/
def allocateFrom (out : HalfChannel) (allocedSize : Nat) : Option (HalfChannel × Option Nat) :=
  match placement out.head out.tail allocedSize with
  | some (start, wrapped) => some (allocateAt out allocedSize start wrapped, some (start + sizeofMessage))
  | none => do
    let out ← channelGc out
    match placement out.head out.tail allocedSize with
    | some (start, wrapped) => some (allocateAt out allocedSize start wrapped, some (start + sizeofMessage))
    | none =>
      if out.head > out.tail then
        some ({ out with head := 0, shared := writeSentinel out.shared out.head }, none)
      else some (out, none)

/-- `channel_allocate`: the offset of the payload buffer, `none` for `NULL`. The outer `none` stands for
    a garbage collection that does not end. -/
def channelAllocate (out : HalfChannel) (size : Nat) : Option (HalfChannel × Option Nat) :=
  let allocedSize := channelMessageSize size
  if allocedSize = 0 then some (out, none)
  else do
    let out ← if out.tail = sharedSize then channelGc out else some out
    allocateFrom out allocedSize

/-- `channel_send`, after the sender has written its payload into the buffer at `data`. -/
def channelSend (out : HalfChannel) (data : Nat) (payload : List UInt8) : HalfChannel :=
  { out with shared := setSize (out.shared.write data payload) (data - sizeofMessage) payload.length }

/-- `sizeof(_DispatchHeader)`: a handler and a transaction. -/
def sizeofDispatchHeader : Nat := 8

/-- `sizeof(ReadReply)` without its data, packed. -/
def sizeofReadReply : Nat := 12

/-- `sizeof(DirEntReply)` and `sizeof(BlockListReply)` without their data, packed. No reply with data has a longer header. -/
def sizeofDirEntReply : Nat := 13

/-- `sizeof(WriteRequest)` without its data, packed. -/
def sizeofWriteRequest : Nat := 16

/-- `FS_CHUNK_SIZE`, the default `CONFIG_FS_CHUNK_SIZE`. -/
def fsChunkSize : Nat := 32768

/-- `dispatchAllocate`: the offset of the message body. The inner `none` stands for its failed assertion. -/
def dispatchAllocate (chan : HalfChannel) (size : Nat) : Option (Option (HalfChannel × Nat)) :=
  (channelAllocate chan (size + sizeofDispatchHeader)).map fun
    | (chan, some buf) => some (chan, buf + sizeofDispatchHeader)
    | (_, none) => none

/-- The loop of `__channel_poll`: the channel and the size found at its `next`. -/
def pollLoop (closed : Bool) : Nat → HalfChannel → Option (HalfChannel × Nat)
  | 0, _ => none
  | fuel + 1, chan =>
    if msgReady chan.shared chan.next false ∨ msgSize chan.shared chan.next = 0 then
      some (chan, if closed then closedSize else 0)
    else if msgSize chan.shared chan.next = sentinelSize then
      pollLoop closed fuel { chan with next := 0, shared := setReady chan.shared chan.next false }
    else some (chan, msgSize chan.shared chan.next)

def channelPoll (chan : HalfChannel) (closed : Bool) : Option (HalfChannel × Nat) := pollLoop closed ringFuel chan

def channelReceive (chan : HalfChannel) (closed : Bool) : Option (HalfChannel × Nat × Option Nat) := do
  let (chan, size) ← channelPoll chan closed
  if size = closedSize ∨ size = 0 then some (chan, size, none)
  else
    let newNext := chan.next + msgAlloced chan.shared chan.next
    some ({ chan with next := if newNext ≥ sharedSize then 0 else newNext }, size, some (chan.next + sizeofMessage))

/-- The loop of `channel_free`: clears the flag of every cache line from `message` to `stop`. -/
def freeLoop : Nat → Memory → Nat → Nat → Memory
  | 0, m, _, _ => m
  | fuel + 1, m, message, stop =>
    if message < stop then freeLoop fuel (setReady m message false) (message + cachelineSize) stop else m

def channelFree (chan : HalfChannel) (data : Nat) : HalfChannel :=
  let message := data - sizeofMessage
  let stop := message + msgAlloced chan.shared message
  { chan with shared := freeLoop ringFuel chan.shared message stop }

def channelSetupOwned (shared : Memory) : HalfChannel := { head := 0, tail := sharedSize - 1, next := 0, shared }

end Faux
