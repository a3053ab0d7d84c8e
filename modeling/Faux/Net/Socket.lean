import Faux.Channel.Basic
import Faux.Fs.Types
import Faux.Lib.Run

/-! # Reading from a socket

`FlowSocket::read` of `sys/net/lib/socket.cpp` with the events that the transport sends on the asynchronous channel of the
connection. Events arrive at any time, also between two passes of the loop of a read. The socket is not closed by its
application. -/

namespace Faux
open Lib

/-- The data of a `ReceivedDataEvent`; one without data tells that the connection is closed. -/
abbrev DataEvent := List UInt8

/-- `sizeof(ReceivedDataEvent)`. -/
def sizeofDataEvent : Nat := 8

/-- `BUFFER_SIZE`. -/
def socketBufferSize : Nat := 655360

/-- `FlowSocket` of an application: `OPEN` or `DRAINING`, and the first `m_nbuffered` bytes of `m_buffer`. -/
structure AppSocket where
  draining : Bool
  buffer : List UInt8

inductive ReadResult where
  | bytes (data : List UInt8)
  | wouldBlock
  deriving DecidableEq

def ReadResult.data : ReadResult → List UInt8
  | .bytes data => data
  | .wouldBlock => []

inductive ReadPass where
  | returns (s : AppSocket) (queue : List DataEvent) (r : ReadResult)
  | again (s : AppSocket) (queue : List DataEvent)
  | waits

namespace AppSocket

def copyFromBuffer (s : AppSocket) (count : Nat) : AppSocket × ReadResult :=
  if count ≥ s.buffer.length then ({ s with buffer := [] }, .bytes s.buffer)
  else ({ s with buffer := s.buffer.drop count }, .bytes (s.buffer.take count))

def returnBuffer (s : AppSocket) (queue : List DataEvent) (count : Nat) : ReadPass :=
  let (s, r) := s.copyFromBuffer count
  .returns s queue r

def pass (s : AppSocket) (queue : List DataEvent) (count : Nat) (blocking : Bool) : Res ReadPass :=
  if s.buffer.length ≥ count ∨ socketBufferSize - s.buffer.length < 65536 then .ok (s.returnBuffer queue count)
  else
    match queue with
    | [] =>
      if blocking = true ∧ s.buffer.length = 0 then .ok .waits
      else if s.buffer.length > 0 then .ok (s.returnBuffer [] count)
      else .ok (.returns s [] .wouldBlock)
    | e :: queue =>
      if e.length = 0 then
        if s.buffer.length = 0 then .ok (.returns { s with draining := true } queue (.bytes []))
        -- we encountered the close of the connection but must provide data until a read() can return a zero
        else .ok ({ s with draining := true }.returnBuffer queue count)
      else do
        require (s.buffer.length + e.length < socketBufferSize)
        .ok (.again { s with buffer := s.buffer ++ e } queue)

end AppSocket

/-- A connection: the socket, the events that have not been received, the read that is going on, and what has happened so far:
    the data events and the close event that were sent, and the results of reads. -/
structure StreamSocket where
  socket : AppSocket
  queue : List DataEvent
  reading : Option (Nat × Bool)
  sent : List DataEvent
  closed : Bool
  results : List ReadResult

inductive SocketAction where
  | data (e : DataEvent)
  | close
  | read (count : Nat) (blocking : Bool)
  | pass

namespace StreamSocket

def Fits (e : DataEvent) : Prop := sizeofDataEvent + e.length + sizeofMessage ≤ sharedSize - cachelineSize

instance (e : DataEvent) : Decidable (Fits e) := inferInstanceAs (Decidable (_ ≤ _))

def finish (s : StreamSocket) (socket : AppSocket) (queue : List DataEvent) (r : ReadResult) : StreamSocket :=
  { s with socket, queue, reading := none, results := s.results ++ [r] }

def begin (s : StreamSocket) (count : Nat) (blocking : Bool) : StreamSocket :=
  if s.socket.draining then
    if s.socket.buffer.length = 0 then s.finish s.socket s.queue (.bytes [])
    else
      let (socket, r) := s.socket.copyFromBuffer count
      s.finish socket s.queue r
  else { s with reading := some (count, blocking) }

/-- One action. A failed assertion ends everything. -/
def step (s : StreamSocket) : SocketAction → Option StreamSocket
  | .data e => if e ≠ [] ∧ Fits e ∧ s.closed = false then some { s with queue := s.queue ++ [e], sent := s.sent ++ [e] } else none
  | .close => if s.closed = false then some { s with queue := s.queue ++ [[]], closed := true } else none
  | .read count blocking => if 0 < count ∧ s.reading = none then some (s.begin count blocking) else none
  | .pass =>
    match s.reading with
    | none => none
    | some (count, blocking) =>
      match s.socket.pass s.queue count blocking with
      | .ok (.returns socket queue r) => some (s.finish socket queue r)
      | .ok (.again socket queue) => some { s with socket, queue }
      | .ok .waits => none
      | .error _ => none

def Start (s : StreamSocket) : Prop :=
  s = { socket := { draining := false, buffer := [] }, queue := [], reading := none, sent := [], closed := false, results := [] }

def returned (results : List ReadResult) : List UInt8 := results.flatMap ReadResult.data

end StreamSocket
end Faux
