import Faux.Dispatch.Receive
import Faux.Fs.Types
import Faux.Lib.Places

/-! # The records of the dispatcher

`messaging/dispatch.cpp` with its main loop and its threads: who has which record of the pool of pending messages. An event is what a
thread does between two accesses to the records, with what `channel_select` gives and whether other threads are ready. One that
its thread cannot take, or that is not its turn, changes nothing. -/

namespace Faux
open Lib

def maxPendingRequests : Nat := 64

/-- Where a thread is in `dispatchReceive`, with the transaction and `other_response_count`. -/
inductive Receiving where
  | outside
  /-- About to poll. -/
  | waiting (tid : Int) (otherResponseCount : Nat)
  | polled (tid : Int) (otherResponseCount : Nat) (pmsg : Nat)
  /-- The response is found; that many other responses are still to be processed. -/
  | found (tid : Int) (otherResponseCount : Nat) (pmsg : Nat)
  | sleeping (tid : Int)

namespace Receiving

def hand : Receiving → Option Nat
  | .polled _ _ pmsg => some pmsg
  | .found _ _ pmsg => some pmsg
  | _ => none

def others : Receiving → Nat
  | .waiting _ otherResponseCount => otherResponseCount
  | .polled _ otherResponseCount _ => otherResponseCount
  | .found _ otherResponseCount _ => otherResponseCount
  | _ => 0

def wake (pmsg : Nat) : Receiving → Receiving
  | .sleeping tid => .found tid 0 pmsg
  | r => r

end Receiving

structure DispatchThread where
  request : Option Nat
  receiving : Receiving

namespace DispatchThread

def idle : DispatchThread := { request := none, receiving := .outside }

def isIdle (t : DispatchThread) : Bool :=
  match t.request, t.receiving with
  | none, .outside => true
  | _, _ => false

end DispatchThread

/-- `Dispatcher`, with the static variable `pmsg` of `_dispatchPoll`. `sleepers` is `threads`; `polled` is the message that the main
    loop or `dispatchCheckNotifications` has polled and not processed; `inside` is the thread that is inside `dispatchReceive` and has
    not yielded since. -/
structure RecordDispatcher extends Pending where
  pmsg : Option Nat
  requests : CircularQueue Nat maxPendingRequests
  handlers : List Int
  sleepers : CircularQueue (Int × Nat) maxTransactions
  running : Bool
  polled : Option Nat
  threads : Nat → DispatchThread
  inside : Option Nat

inductive RecordEvent where
  | register (type : Int)
  | unregister (type : Int)
  | main (thread : Nat)
  | poll (received : Option Received) (chan : Option Nat)
  | process
  | returns (thread : Nat)
  | receive (thread : Nat) (tid : Int)
  | wait (thread : Nat) (received : Option Received) (chan : Option Nat) (ready : Bool)
  | examine (thread : Nat) (ready : Bool)
  | others (thread : Nat)
  | deliver (thread : Nat)

namespace RecordDispatcher

def init (running : Bool) : RecordDispatcher where
  toPending := .init
  pmsg := none
  requests := .empty _ 0
  handlers := []
  sleepers := .empty _ (0, 0)
  running := running
  polled := none
  threads := fun _ => .idle
  inside := none

def setThread (d : RecordDispatcher) (i : Nat) (t : DispatchThread) : RecordDispatcher :=
  { d with threads := Function.update d.threads i t }

def setReceiving (d : RecordDispatcher) (i : Nat) (r : Receiving) : RecordDispatcher :=
  d.setThread i { request := (d.threads i).request, receiving := r }

def nextMessage (d : RecordDispatcher) : Option (Nat × Lib.Pool PendingMessage) :=
  match d.pmsg with
  | some pmsg => some (pmsg, d.pool)
  | none => d.pool.allocate

/-- `_dispatchPoll` when there is room for a request. The pool that has no record left gives a null pointer, which is followed. -/
def dispatchPoll (d : RecordDispatcher) (received : Option Received) (chan : Option Nat) : Res (RecordDispatcher × Option Nat) :=
  match d.nextMessage with
  | none => .error .undefined
  | some (pmsg, pool) =>
    match received with
    | none => .ok ({ d with pool := pool.set pmsg { data := none, size := 0, chan }, pmsg := some pmsg }, none)
    | some .closed => .ok ({ d with pool := pool.set pmsg { data := none, size := closedSize, chan }, pmsg := some pmsg }, none)
    | some (.message m) => .ok ({ d with pool := pool.set pmsg { data := some m, size := m.size, chan }, pmsg := none }, some pmsg)

/-- `_dispatchProcessMessage`: whether the message has been processed. The result of the push of a request is not looked at. -/
def dispatchProcessMessage (d : RecordDispatcher) (pmsg : Nat) : Res (RecordDispatcher × Bool) :=
  match (d.pool.heap pmsg).data with
  | none => .error .undefined
  | some hdr =>
    if hdr.handler = -1 then
      match d.responses.push pmsg with
      | none => .error .assertion
      | some responses => .ok ({ d with responses }, false)
    else if hdr.handler = -2 then .ok ({ d with pool := d.pool.free pmsg }, true)
    else if d.running then .ok ({ d with requests := (d.requests.push pmsg).getD d.requests }, false)
    else .error .assertion

def dispatchProcessRequests (d : RecordDispatcher) (thread : Nat) : Res RecordDispatcher :=
  let msg := d.requests.front
  match d.requests.pop, (d.pool.heap msg).data with
  | some requests, some hdr =>
    if d.handlers.contains hdr.handler then
      .ok ({ d with requests }.setThread thread { request := some msg, receiving := .outside })
    else .ok { d with requests }
  | _, _ => .error .undefined

/-- `_dispatchProcessResponses` on a thread. When a thread sleeps on the response, `threadSwitch` gives it the processor and destroys the
    one that runs. -/
def dispatchProcessResponses (d : RecordDispatcher) (thread : Nat) : Res RecordDispatcher :=
  let msg := d.responses.front
  match d.responses.pop, (d.pool.heap msg).data with
  | some responses, some hdr =>
    let threadItr := d.sleepers.find hdr.transaction
    if threadItr ≠ d.sleepers.endIndex then
      let sleeper := (d.sleepers.data threadItr).2
      let d := { d with responses, sleepers := d.sleepers.rm threadItr }.setThread thread .idle
      .ok { d.setReceiving sleeper ((d.threads sleeper).receiving.wake msg) with inside := some sleeper }
    else if d.responseMap.find hdr.transaction = d.responseMap.endIndex then
      .ok { d with responses, responseMap := d.responseMap.insert hdr.transaction msg }
    else .error .assertion
  | _, _ => .error .undefined

def dispatchShouldYield (d : RecordDispatcher) (ready : Bool) : Bool :=
  d.running && (ready || decide (0 < d.requests.size) || decide (0 < d.responses.size) && decide (0 < d.sleepers.size))

/-- The end of a pass of the loop of `_dispatchWaitForMessage`: the next one, or `_dispatchSleepUntilMessage` up to `threadYield`. -/
def nextPass (d : RecordDispatcher) (thread : Nat) (tid : Int) (otherResponseCount : Nat) (ready : Bool) : RecordDispatcher :=
  if d.dispatchShouldYield ready then
    { d.setReceiving thread (.sleeping tid) with sleepers := d.sleepers.insert tid thread, inside := none }
  else { d.setReceiving thread (.waiting tid otherResponseCount) with inside := some thread }

/-- No thread is inside `dispatchReceive` without having yielded, and the main loop has nothing in its hands. -/
def isFree (d : RecordDispatcher) : Bool := d.polled.isNone && d.inside.isNone

def hasTurn (d : RecordDispatcher) (thread : Nat) : Bool := d.polled.isNone && (d.inside.isNone || d.inside == some thread)

def main (d : RecordDispatcher) (thread : Nat) : Res RecordDispatcher :=
  if d.isFree && (d.threads thread).isIdle then
    if 0 < d.requests.size then d.dispatchProcessRequests thread
    else if 0 < d.responses.size then d.dispatchProcessResponses thread
    else .ok d
  else .ok d

def poll (d : RecordDispatcher) (received : Option Received) (chan : Option Nat) : Res RecordDispatcher :=
  if d.isFree && decide (d.requests.size < maxPendingRequests) then do
    let (d, pmsg) ← d.dispatchPoll received chan
    .ok { d with polled := pmsg }
  else .ok d

def process (d : RecordDispatcher) : Res RecordDispatcher :=
  match d.polled with
  | none => .ok d
  | some pmsg => do
    let (d, _) ← d.dispatchProcessMessage pmsg
    .ok { d with polled := none }

def returns (d : RecordDispatcher) (thread : Nat) : RecordDispatcher :=
  match d.isFree, d.threads thread with
  | true, { request := some msg, receiving := .outside } => { d with pool := d.pool.free msg }.setThread thread .idle
  | _, _ => d

def receive (d : RecordDispatcher) (thread : Nat) (tid : Int) : RecordDispatcher :=
  match d.isFree, (d.threads thread).receiving with
  | true, .outside =>
    let imsg := d.responseMap.find tid
    if imsg ≠ d.responseMap.endIndex then
      { d.setReceiving thread (.found tid 0 (d.responseMap.data imsg).2) with
        responseMap := d.responseMap.rm imsg, inside := some thread }
    else { d.setReceiving thread (.waiting tid 0) with inside := some thread }
  | _, _ => d

def wait (d : RecordDispatcher) (thread : Nat) (received : Option Received) (chan : Option Nat) (ready : Bool) : Res RecordDispatcher :=
  match d.hasTurn thread, (d.threads thread).receiving with
  | true, .waiting tid otherResponseCount =>
    if d.requests.size < maxPendingRequests then do
      let (d, pmsg) ← d.dispatchPoll received chan
      match pmsg with
      | some pmsg => .ok { d.setReceiving thread (.polled tid otherResponseCount pmsg) with inside := some thread }
      | none => .ok (d.nextPass thread tid otherResponseCount ready)
    else .ok { d with inside := none }
  | _, _ => .ok d

def examine (d : RecordDispatcher) (thread : Nat) (ready : Bool) : Res RecordDispatcher :=
  match d.hasTurn thread, (d.threads thread).receiving with
  | true, .polled tid otherResponseCount pmsg =>
    match (d.pool.heap pmsg).data with
    | none => .error .undefined
    | some hdr =>
      if hdr.handler = -1 ∧ hdr.transaction = tid then .ok (d.setReceiving thread (.found tid otherResponseCount pmsg))
      else do
        let (d, processed) ← d.dispatchProcessMessage pmsg
        .ok (d.nextPass thread tid (if processed then otherResponseCount else otherResponseCount + 1) ready)
  | _, _ => .ok d

def processOther (d : RecordDispatcher) (thread : Nat) : Res RecordDispatcher :=
  match d.hasTurn thread, (d.threads thread).receiving with
  | true, .found tid (otherResponseCount + 1) pmsg =>
    (d.setReceiving thread (.found tid otherResponseCount pmsg)).dispatchProcessResponses thread
  | _, _ => .ok d

def deliver (d : RecordDispatcher) (thread : Nat) : Res RecordDispatcher :=
  match d.hasTurn thread, (d.threads thread).receiving with
  | true, .found tid 0 pmsg =>
    match (d.pool.heap pmsg).data with
    | none => .error .undefined
    | some hdr =>
      if hdr.handler = -1 ∧ hdr.transaction = tid then
        .ok { d.setReceiving thread .outside with pool := d.pool.free pmsg, inside := none }
      else .error .assertion
  | _, _ => .ok d

def step (d : RecordDispatcher) : RecordEvent → Res RecordDispatcher
  | .register type => .ok { d with handlers := type :: d.handlers }
  | .unregister type => .ok { d with handlers := d.handlers.filter (· ≠ type) }
  | .main thread => d.main thread
  | .poll received chan => d.poll received chan
  | .process => d.process
  | .returns thread => .ok (d.returns thread)
  | .receive thread tid => .ok (d.receive thread tid)
  | .wait thread received chan ready => d.wait thread received chan ready
  | .examine thread ready => d.examine thread ready
  | .others thread => d.processOther thread
  | .deliver thread => d.deliver thread

/-- The run goes on while no assertion fails. -/
def next (d : RecordDispatcher) (e : RecordEvent) : Option RecordDispatcher := (d.step e).toOption

end RecordDispatcher

inductive RecordPlace where
  | freeList
  | pollSlot
  | requests
  | responses
  | responseMap
  | polled
  | handler (thread : Nat)
  | receiver (thread : Nat)

namespace RecordDispatcher

def recordsAt (d : RecordDispatcher) : RecordPlace → List Nat
  | .freeList => d.pool.freeList
  | .pollSlot => d.pmsg.toList
  | .requests => d.requests.toList
  | .responses => d.responses.toList
  | .responseMap => d.responseMap.toList.map Prod.snd
  | .polled => d.polled.toList
  | .handler thread => (d.threads thread).request.toList
  | .receiver thread => (d.threads thread).receiving.hand.toList

/-- The message of the record is being processed. -/
def InUse (d : RecordDispatcher) (record : Nat) : Prop :=
  ∃ place, place ≠ .freeList ∧ place ≠ .pollSlot ∧ record ∈ d.recordsAt place

/-- Every record is in one place, and what an event can do is undefined only when all of them are in use. -/
def Conserved (d : RecordDispatcher) : Prop :=
  Placed d.recordsAt (· < maxTransactions) ∧
    ∀ e, d.step e = .error .undefined → ∀ record < maxTransactions, d.InUse record

def Handled (d : RecordDispatcher) : RecordEvent → Prop
  | .main thread => d.isFree = true → (d.threads thread).isIdle = true → 0 < d.requests.size →
      ∃ hdr, (d.pool.heap d.requests.front).data = some hdr ∧ hdr.handler ∈ d.handlers
  | _ => True

end RecordDispatcher
end Faux
