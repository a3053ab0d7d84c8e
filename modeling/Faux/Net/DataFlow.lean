import Faux.Net.Socket

/-! # Received data in the transport

`recvCallback` and `closeConnection` of `sys/net/transport/transport_server.cpp`, with what lwip does around the callback (`tcp_input`,
`tcp_fasttmr` and `tcp_pushrefused`). Data that the callback refuses stays with the stack. Whether the channel has room is given for
each time the callback asks. The hashes under which `FlowMap` keeps connections are taken to be different for different addresses. -/

namespace Faux
open Lib

/-- The payloads of a chain of `pbuf`s. -/
abbrev Pbuf := List (List UInt8)

inductive ErrT where
  | ok
  | buf
  deriving DecidableEq

/-- A connection in the stack and its `FlowSocket`. The last four are records of what has come and gone. -/
structure DataFlow where
  claimed : Bool
  /-- `m_flows` has the connection under its `m_flow_id`. -/
  listed : Bool
  /-- `m_state` is `CLOSE_WAIT`. -/
  closeWait : Bool
  /-- `pcb->recv` is set. -/
  recv : Bool
  refused : Option Pbuf
  finReceived : Bool
  channel : List DataEvent
  /-- The bytes that `tcp_recved` was called for. -/
  acked : List UInt8
  /-- The bytes of the segments that the stack has taken. -/
  received : List UInt8

namespace DataFlow

/-- A new connection. One that was accepted is not claimed yet, and listed: `m_flow_id` is the hash of both addresses, as in
    `FlowMap::add`. One that the application has made is claimed, but `connect` gives it the hash of the peer's address alone. -/
def new (claimed : Bool) : DataFlow :=
  { claimed, listed := !claimed, closeWait := false, recv := true, refused := none, finReceived := false, channel := [], acked := [], received := [] }

/-- `closeConnection` in the state `CLOSE_WAIT`. `none`: what `channel_allocate` returned is used and it is `NULL`. -/
def closeConnection (s : DataFlow) (room : Bool) : Option DataFlow :=
  if s.listed then
    let s := { s with recv := false }
    if room then some { s with channel := s.channel ++ [[]] } else none
  -- `pcb == NULL`
  else some s

def recvCallback (s : DataFlow) (p : Option Pbuf) (room : Bool) : Option (DataFlow × ErrT) :=
  if !s.claimed then some (s, .buf)
  else
    match p with
    | none => (closeConnection { s with closeWait := true } room).map fun s => (s, .ok)
    | some p => if room then some ({ s with channel := s.channel ++ [p.flatten], acked := s.acked ++ p.flatten }, .ok) else none

def tcpEventRecv (s : DataFlow) (p : Option Pbuf) (room : Bool) : Option (DataFlow × ErrT) :=
  if s.recv then s.recvCallback p room else some (s, .ok)

/-- `tcp_pushrefused`, and what `tcp_fasttmr` and `tcp_input` do with refused data. -/
def tcpPushrefused (s : DataFlow) (room : Bool) : Option DataFlow :=
  match s.refused with
  | none => some s
  | some p => do
    let (s, err) ← s.tcpEventRecv (some p) room
    some (if err = .ok then { s with refused := none } else s)

def inputData (s : DataFlow) (p : Pbuf) (room : Bool) : Option DataFlow :=
  if p.flatten = [] then some s
  else do
    let s := { s with received := s.received ++ p.flatten }
    let (s, err) ← s.tcpEventRecv (some p) room
    some (if err = .ok then s else { s with refused := some p })

/-- The end of the data is passed to the callback, and its result is not looked at. -/
def inputFin (s : DataFlow) (fin room : Bool) : Option DataFlow :=
  if fin then do
    let (s, _) ← tcpEventRecv { s with finReceived := true } none room
    some s
  else some s

structure Room where
  refused : Bool
  data : Bool
  close : Bool

/-- `tcp_input` of the next segment. Nothing is taken after the end of the data, or while refused data is refused again. -/
def tcpInput (s : DataFlow) (p : Pbuf) (fin : Bool) (room : Room) : Option DataFlow :=
  if s.finReceived then some s
  else do
    let s ← s.tcpPushrefused room.refused
    if s.refused.isSome then some s
    else do
      let s ← s.inputData p room.data
      s.inputFin fin room.close

def claimConnection (s : DataFlow) (room : Bool) : Option DataFlow := tcpPushrefused { s with claimed := true } room

inductive Event where
  | segment (p : Pbuf) (fin : Bool) (room : Room)
  | claim (room : Bool)
  | timer (room : Bool)

def step (s : DataFlow) : Event → Option DataFlow
  | .segment p fin room => s.tcpInput p fin room
  | .claim room => s.claimConnection room
  | .timer room => s.tcpPushrefused room

/-- What was acknowledged has been sent on the channel, once and in order; what was not is kept by the stack; the close event has been
    sent when the peer has closed, after all data. -/
structure Delivered (s : DataFlow) : Prop where
  placed : s.channel.flatten = s.acked
  kept : s.received = s.acked ++ (s.refused.getD []).flatten
  closed : ∃ data : List DataEvent, (∀ d ∈ data, d ≠ []) ∧ s.channel = data ++ if s.finReceived then [[]] else []
  last : s.finReceived = true → s.refused = none

/-- The channel has room for what a claimed connection is to get, and the peer closes only connections that were accepted, and not
    before they are claimed. -/
def Steady (s : DataFlow) : Event → Prop
  | .segment p fin room => s.finReceived = false →
      if s.claimed = true then (p.flatten ≠ [] → room.data = true) ∧ (fin = true → s.listed = true ∧ room.close = true)
      else fin = true → s.refused ≠ none
  | .claim room => s.refused ≠ none → room = true
  | .timer _ => True

end DataFlow
end Faux
