import Faux.Channel.Basic
import Faux.Lib.Queue
import Faux.Lib.Run

/-! # Receiving responses

The dispatcher of `messaging/dispatch.cpp` in a process that does not run its main loop: one thread, and no pending request, since one
that arrives fails the assertion `dispatchIsRunning()`. One pass of the loop of `dispatchReceive` is one step. `none`: a failed
assertion, or a null pointer that is followed. -/

namespace Faux
open Lib

def maxTransactions : Nat := 1024

/-- A message with its `_DispatchHeader`: handler -1 for a response, -2 for a notification. -/
structure DispatchMessage where
  handler : Int
  transaction : Int
  body : List UInt8
deriving DecidableEq

namespace DispatchMessage

def size (m : DispatchMessage) : Nat := m.body.length + sizeofDispatchHeader

def isResponse (m : DispatchMessage) : Bool := m.handler == -1

end DispatchMessage

structure Inbox where
  queue : List DispatchMessage
  closed : Bool

inductive Received where
  | message (m : DispatchMessage)
  | closed

/-- `channel_receive`, `none` for size 0. -/
def Inbox.receive (c : Inbox) : Option Received :=
  match c.queue with
  | m :: _ => some (.message m)
  | [] => if c.closed then some .closed else none

def selectStart (nchans : Nat) (pos : Int) : Nat :=
  let i := pos + 1
  if i < 0 ∨ i ≥ nchans then 0 else i.toNat

def channelSelect (chans : List Inbox) (pos : Int) : Option (Nat × Received) :=
  let i := selectStart chans.length pos
  (List.range' i (chans.length - i) ++ List.range i).findSome? fun j =>
    (chans[j]?.bind Inbox.receive).map fun received => (j, received)

/-- `PendingMessage`; the channel is given by its position, and a pending message that has received
    nothing has no data. -/
structure PendingMessage where
  data : Option DispatchMessage
  size : Nat
  chan : Option Nat

/-- The pending messages: those handed out from the pool are in the queue, in the map, in the hands of
    the function that runs, or the one that the next poll fills. -/
structure Pending where
  pool : Pool PendingMessage
  responses : CircularQueue Nat maxTransactions
  responseMap : CircularQueue (Int × Nat) maxTransactions

/-- `Dispatcher`, with the static variables `pos` and `pmsg` of `_dispatchPoll`. `notified` records the
    calls of the notification callback. -/
structure Dispatcher extends Pending where
  channels : List Inbox
  pos : Int
  pmsg : Option Nat
  notified : List (List UInt8)

namespace Pending

def init : Pending where
  pool := Pool.init maxTransactions { data := none, size := 0, chan := none }
  responses := .empty _ 0
  responseMap := .empty _ (0, 0)

def dispatchProcessResponses (d : Pending) : Option Pending := do
  let msg := d.responses.front
  let responses ← d.responses.pop
  let hdr ← (d.pool.heap msg).data
  if d.responseMap.find hdr.transaction = d.responseMap.endIndex then
    some { d with responses, responseMap := d.responseMap.insert hdr.transaction msg }
  else none

def processOthers : Nat → Pending → Option Pending
  | 0, d => some d
  | count + 1, d => d.dispatchProcessResponses.bind (processOthers count)

def dispatchCheckPendingResponseMap (d : Pending) (tid : Int) : Option (Nat × Pending) :=
  let imsg := d.responseMap.find tid
  if imsg ≠ d.responseMap.endIndex then
    some ((d.responseMap.data imsg).2, { d with responseMap := d.responseMap.rm imsg })
  else none

def deliver (d : Pending) (tid : Int) (pmsg : Nat) : Option (Pending × DispatchMessage × Nat) := do
  let hdr ← (d.pool.heap pmsg).data
  if hdr.handler = -1 ∧ hdr.transaction = tid then
    some ({ d with pool := d.pool.free pmsg }, hdr, (d.pool.heap pmsg).size - sizeofDispatchHeader)
  else none

end Pending

namespace Dispatcher

def dispatchCloseChannel (d : Dispatcher) (pos : Nat) : Dispatcher :=
  match d.channels.getLast? with
  | none => d
  | some last => { d with channels := (d.channels.set pos last).dropLast }

def nextMessage (d : Dispatcher) : Option (Nat × Pool PendingMessage) :=
  match d.pmsg with
  | some pmsg => some (pmsg, d.pool)
  | none => d.pool.allocate

def dispatchPoll (d : Dispatcher) : Option (Dispatcher × Option Nat) := do
  let (pmsg, pool) ← d.nextMessage
  match channelSelect d.channels d.pos with
  | none =>
    let pos := if d.channels.isEmpty then -1 else d.pos
    let pool := pool.set pmsg { data := none, size := 0, chan := if pos < 0 then none else some pos.toNat }
    some ({ d with pool, pos, pmsg := some pmsg }, none)
  | some (pos, .closed) =>
    let pool := pool.set pmsg { data := none, size := closedSize, chan := some pos }
    some ({ d with pool, pos, pmsg := some pmsg }.dispatchCloseChannel pos, none)
  | some (pos, .message m) =>
    let pool := pool.set pmsg { data := some m, size := m.size, chan := some pos }
    let channels := d.channels.modify pos fun c => { c with queue := c.queue.tail }
    some ({ d with pool, pos, channels, pmsg := none }, some pmsg)

def dispatchProcessMessage (d : Dispatcher) (pmsg : Nat) : Option (Dispatcher × Bool) := do
  let hdr ← (d.pool.heap pmsg).data
  if hdr.handler = -1 then
    let responses ← d.responses.push pmsg
    some ({ d with responses }, false)
  else if hdr.handler = -2 then
    some ({ d with notified := d.notified ++ [hdr.body], pool := d.pool.free pmsg }, true)
  else none

inductive Pass where
  | found (pmsg : Nat)
  | again (otherResponseCount : Nat)

def dispatchWaitForMessage (d : Dispatcher) (tid : Int) (otherResponseCount : Nat) :
    Option (Dispatcher × Pass) := do
  let (d, pmsg) ← d.dispatchPoll
  match pmsg with
  | none => some (d, .again otherResponseCount)
  | some pmsg =>
    let hdr ← (d.pool.heap pmsg).data
    if hdr.handler = -1 ∧ hdr.transaction = tid then
      let pending ← d.processOthers otherResponseCount
      some ({ d with toPending := pending }, .found pmsg)
    else
      let (d, processed) ← d.dispatchProcessMessage pmsg
      some (d, .again (if processed then otherResponseCount else otherResponseCount + 1))

def arrived (d : Dispatcher) : List DispatchMessage :=
  d.channels.flatMap (fun c => c.queue.filter (·.isResponse)) ++
    (d.responses.toList ++ d.responseMap.toList.map Prod.snd).filterMap fun p => (d.pool.heap p).data

end Dispatcher

structure Delivery where
  tid : Int
  message : DispatchMessage
  size : Nat

/-- A process with outstanding requests. `waiting` is the transaction of the call of `dispatchReceive` that
    runs, with its `other_response_count`. -/
structure Requester where
  dispatcher : Dispatcher
  outstanding : List Int
  waiting : Option (Int × Nat)
  responses : List DispatchMessage
  deliveries : List Delivery

inductive RequesterStep where
  | listen
  | request (tid : Int)
  | arrive (chan : Nat) (m : DispatchMessage)
  | receive (tid : Int)
  | poll

namespace Requester

def start (channels : List Inbox) : Requester where
  dispatcher := { Pending.init with channels, pos := -1, pmsg := none, notified := [] }
  outstanding := []
  waiting := none
  responses := []
  deliveries := []

def returns (s : Requester) (d : Dispatcher) (tid : Int) (pmsg : Nat) : Option Requester := do
  let (pending, message, size) ← d.deliver tid pmsg
  some { s with
    dispatcher := { d with toPending := pending }
    outstanding := s.outstanding.erase tid
    waiting := none
    deliveries := s.deliveries ++ [{ tid, message, size }] }

def step (s : Requester) : RequesterStep → Option Requester
  | .listen =>
    let channels := s.dispatcher.channels ++ [{ queue := [], closed := false }]
    some { s with dispatcher := { s.dispatcher with channels } }
  | .request tid => some { s with outstanding := tid :: s.outstanding }
  | .arrive chan m =>
    let channels := s.dispatcher.channels.modify chan fun c => { c with queue := c.queue ++ [m] }
    some { s with
      dispatcher := { s.dispatcher with channels }
      responses := if m.isResponse then s.responses ++ [m] else s.responses }
  | .receive tid =>
    match s.dispatcher.dispatchCheckPendingResponseMap tid with
    | some (pmsg, pending) => s.returns { s.dispatcher with toPending := pending } tid pmsg
    | none => some { s with waiting := some (tid, 0) }
  | .poll =>
    match s.waiting with
    | none => none
    | some (tid, otherResponseCount) => do
      match ← s.dispatcher.dispatchWaitForMessage tid otherResponseCount with
      | (d, .found pmsg) => s.returns d tid pmsg
      | (dispatcher, .again count) => some { s with dispatcher, waiting := some (tid, count) }

def Init (s : Requester) : Prop := ∃ n : Nat, s = start (List.replicate n { queue := [], closed := false })

/-- Fewer than `MAX_TRANSACTIONS` requests are outstanding, under distinct transactions; a message that
    arrives is a notification or the response to an outstanding request that has none; `dispatchReceive` is
    called for outstanding requests, one call after the other. -/
def Allowed (s : Requester) : RequesterStep → Prop
  | .listen => s.waiting = none
  | .request tid => s.waiting = none ∧ tid ∉ s.outstanding ∧ s.outstanding.length + 1 < maxTransactions
  | .arrive chan m => chan < s.dispatcher.channels.length ∧
      (m.handler = -2 ∨ m.handler = -1 ∧ m.transaction ∈ s.outstanding ∧
        m.transaction ∉ s.dispatcher.arrived.map (·.transaction))
  | .receive tid => s.waiting = none ∧ tid ∈ s.outstanding
  | .poll => s.waiting ≠ none

instance (s : Requester) : (a : RequesterStep) → Decidable (s.Allowed a)
  | .listen => inferInstanceAs (Decidable (_ = _))
  | .request _ => inferInstanceAs (Decidable (_ ∧ _ ∧ _))
  | .arrive _ _ => inferInstanceAs (Decidable (_ ∧ (_ ∨ _)))
  | .receive _ => inferInstanceAs (Decidable (_ ∧ _))
  | .poll => inferInstanceAs (Decidable (_ ≠ _))

end Requester
end Faux
