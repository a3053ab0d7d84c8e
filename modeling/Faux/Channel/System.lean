import Faux.Channel.Basic
import Faux.Lib.Run

/-! # One sender and one receiver

A half channel with the log of the messages that were allocated and received. An allocation, a send, a poll, a receive and a free are
atomic steps that the two sides take in any order. -/

namespace Faux
open Lib

/-- A message the sender has allocated: the offset of its header, the bytes it takes, the payload size it
    was allocated for, and the payload once it has been sent. -/
structure Alloc where
  start : Nat
  alloced : Nat
  size : Nat
  sent : Option (List UInt8)

structure Receipt where
  data : Nat
  size : Nat
  payload : List UInt8
  freed : Bool

structure ChannelSys where
  chan : HalfChannel
  msgs : List Alloc
  rcvd : List Receipt

inductive ChannelAct where
  | allocate (size : Nat)
  | send (k : Nat) (payload : List UInt8)
  | poll
  | receive
  | free (k : Nat)

def largestPayload : Nat := sharedSize - cachelineSize - sizeofMessage

namespace ChannelSys

def freed (s : ChannelSys) (k : Nat) : Bool := (s.rcvd[k]?).any (·.freed)

/-- A channel right after `__channel_setup_owned`, over a memory in which no cache line is flagged ready,
    such as the zeroed memory of a new mapping. -/
def Init (s : ChannelSys) : Prop :=
  ∃ m : Memory, (∀ i < sharedSize / cachelineSize, m (cachelineSize * i + 4) = 0) ∧
    s = { chan := channelSetupOwned m, msgs := [], rcvd := [] }

def allocated (s : ChannelSys) (size : Nat) : HalfChannel × Option Nat → ChannelSys
  | (chan, none) => { s with chan }
  | (chan, some data) =>
    let m := { start := data - sizeofMessage, alloced := channelMessageSize size, size, sent := none }
    { s with chan, msgs := s.msgs ++ [m] }

def received (s : ChannelSys) : HalfChannel × Nat × Option Nat → ChannelSys
  | (chan, _, none) => { s with chan }
  | (chan, size, some data) =>
    { s with chan, rcvd := s.rcvd ++ [{ data, size, payload := chan.shared.read data size, freed := false }] }

/-- One step of the sender or the receiver. `none`: the side cannot take the step, because it has no such
    message, or a loop of the code does not end. -/
def step (s : ChannelSys) : ChannelAct → Option ChannelSys
  | .allocate size =>
    if 1 ≤ size ∧ size ≤ largestPayload then
      (channelAllocate s.chan size).map (s.allocated size)
    else none
  | .send k payload =>
    match s.msgs[k]? with
    | some m =>
      if m.sent = none ∧ 1 ≤ payload.length ∧ payload.length ≤ m.size then
        some { s with
          chan := channelSend s.chan (m.start + sizeofMessage) payload
          msgs := s.msgs.set k { m with sent := some payload } }
      else none
    | none => none
  | .poll => (channelPoll s.chan false).map fun (chan, _) => { s with chan }
  | .receive => (channelReceive s.chan false).map s.received
  | .free k =>
    match s.rcvd[k]? with
    | some r =>
      if r.freed = false then
        some { s with chan := channelFree s.chan r.data, rcvd := s.rcvd.set k { r with freed := true } }
      else none
    | none => none

abbrev Reachable : ChannelSys → Prop := Reach Init (fun _ _ => True) step

/-- A message goes through a ring that is otherwise empty: `dispatchAllocate` for a body of `size` bytes, a send, a receive and a free.
    `none`: the assertion of `dispatchAllocate` fails. -/
def pass (s : ChannelSys) (size : Nat) (payload : List UInt8) : Option ChannelSys :=
  match dispatchAllocate s.chan size with
  | some (some _) => run step s
      [.allocate (size + sizeofDispatchHeader), .send s.msgs.length payload, .receive, .free s.rcvd.length]
  | _ => none

/-- FIFO delivery and integrity. -/
structure Correct (s : ChannelSys) : Prop where
  /-- The `k`-th receipt is the `k`-th allocated message, with the size and the payload that were sent. -/
  fifo : ∀ (k : Nat) (r : Receipt), s.rcvd[k]? = some r → ∃ m p, s.msgs[k]? = some m ∧ m.sent = some p ∧
    r.data = m.start + sizeofMessage ∧ r.size = p.length ∧ r.payload = p
  delivered : ∀ (m : Alloc) (p : List UInt8), s.msgs[s.rcvd.length]? = some m → m.sent = some p →
    ∃ chan, channelReceive s.chan false = some (chan, p.length, some (m.start + sizeofMessage)) ∧
      chan.shared.read (m.start + sizeofMessage) p.length = p
  disjoint : ∀ (j k : Nat) (m m' : Alloc), s.msgs[j]? = some m → s.msgs[k]? = some m' → j < k → s.freed j = false →
    s.freed k = false → m.start + m.alloced ≤ m'.start ∨ m'.start + m'.alloced ≤ m.start

/-- Every message has been received and freed, and the receiver has followed every sentinel up to the
    sender's head. -/
structure Drained (s : ChannelSys) : Prop where
  received : s.rcvd.length = s.msgs.length
  freed : ∀ k < s.msgs.length, s.freed k = true
  caughtUp : s.chan.next = s.chan.head

/-- A message of this size finds a place in a drained ring with this head. -/
def Accepts (head size : Nat) : Prop :=
  ¬(head = sharedSize / 2 ∧ sharedSize / 2 < size + sizeofDispatchHeader + sizeofMessage)

instance (head size : Nat) : Decidable (Accepts head size) := inferInstanceAs (Decidable (¬_))

/-- The steps that do not run into the encoding of a full ring (`tail = SHARED_SIZE`). A full ring looks
    like one whose bytes from `head` to the end of the buffer are free, so an allocation needs them
    reclaimable; and the oldest message of an exactly full ring lies where the receiver expects the next
    one, so a receiver that has seen everything must have freed it. -/
def Guard (s : ChannelSys) : ChannelAct → Prop
  | .allocate _ => s.chan.tail = sharedSize →
      if s.chan.head = 0 then ∀ (k : Nat) (m : Alloc), s.msgs[k]? = some m → s.freed k = false → m.start ≠ 0
      else (s.chan.next < s.chan.head ∨ s.rcvd.length = s.msgs.length) ∧
        ∀ (k : Nat) (m : Alloc), s.msgs[k]? = some m → s.freed k = false → m.start < s.chan.head
  | .poll | .receive => s.chan.tail = sharedSize → s.rcvd.length = s.msgs.length →
      ∀ (k : Nat) (m : Alloc), s.msgs[k]? = some m → s.freed k = false → m.start ≠ s.chan.head
  | .send .. | .free _ => True

/-- A ring that a run which is not misled by the full flag has left drained. -/
structure Quiet (s : ChannelSys) : Prop extends Drained s where
  reached : Reach Init Guard step s

end ChannelSys
end Faux
