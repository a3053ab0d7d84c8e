import Faux.Channel.Basic

/-! # Receiving from several channels

`channel_select` of `messaging/include/channel.h`, which `_dispatchPoll` calls with the position where the last message was
found. A call does not block. Between two calls the senders may do anything to the channels. -/

namespace Faux
open Lib

structure InChannel where
  half : HalfChannel
  closed : Bool

namespace InChannel

/-- The scan over some of the channels: the first that gives something, with the size and the offset of the payload. -/
def selectLoop : List Nat → (Nat → InChannel) → Option ((Nat → InChannel) × Option (Nat × Nat × Option Nat))
  | [], chans => some (chans, none)
  | j :: js, chans => do
    let (half, size, data) ← channelReceive (chans j).half (chans j).closed
    let chans := Function.update chans j { chans j with half }
    if size ≠ 0 then some (chans, some (j, size, data)) else selectLoop js chans

structure Selected where
  chans : Nat → InChannel
  pos : Int
  size : Nat
  data : Option Nat

def selectStart (nchans : Nat) (pos : Int) : Nat := if pos + 1 < 0 ∨ pos + 1 ≥ nchans then 0 else (pos + 1).toNat

/-- `channel_select` that does not block. -/
def channelSelect (nchans : Nat) (chans : Nat → InChannel) (pos : Int) : Option Selected :=
  if nchans = 0 then some { chans, pos := -1, size := 0, data := none }
  else do
    let i := selectStart nchans pos
    let (chans, found) ← selectLoop (List.range' i (nchans - i)) chans
    match found with
    | some (j, size, data) => some { chans, pos := j, size, data }
    | none =>
      let (chans, found) ← selectLoop (List.range i) chans
      match found with
      | some (j, size, data) => some { chans, pos := j, size, data }
      | none => some { chans, pos, size := 0, data := none }

/-- A message that was sent and not received. -/
def messageAt (m : Memory) (off : Nat) : Prop := msgReady m off false = false ∧ msgSize m off ≠ 0 ∧ msgSize m off ≠ sentinelSize

def sentinelAt (m : Memory) (off : Nat) : Prop := msgReady m off false = false ∧ msgSize m off = sentinelSize

def Receivable (c : InChannel) : Prop :=
  messageAt c.half.shared c.half.next ∨ (c.half.next ≠ 0 ∧ sentinelAt c.half.shared c.half.next ∧ messageAt c.half.shared 0) ∨ c.closed = true

/-- Successive calls with one position variable: what the channels are before each of them, the position, and what it returns. -/
structure SelectRun (nchans : Nat) where
  chans : Nat → Nat → InChannel
  pos : Nat → Int
  size : Nat → Nat
  start : pos 0 = -1
  call : ∀ k, ∃ r, channelSelect nchans (chans k) (pos k) = some r ∧ r.pos = pos (k + 1) ∧ r.size = size k

end InChannel
end Faux
