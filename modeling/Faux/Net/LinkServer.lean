import Faux.Channel.Basic
import Faux.Lib.Run

/-! # Forwarding in the link server

`idle` of `link/linkserver/linkserver.cpp` with the packet list of `link/lib.cpp`. A call of `idle` is given what the link would receive in
it, and for each position in the list whether the channel has room for the packet there when the call comes to it. -/

namespace Faux

/-- `netif_packet_t`: the buffer of a slot of the ring and the length of the packet in it. -/
structure NetifPacket where
  data : List UInt8
  len : Nat
  deriving DecidableEq

namespace NetifPacket

def byte (p : NetifPacket) (i : Nat) : Nat := (p.data.getD i 0).toNat

def ntohs (p : NetifPacket) (i : Nat) : Nat := p.byte i * 256 + p.byte (i + 1)

/-- What is copied to the channel. -/
def message (p : NetifPacket) : List UInt8 := p.data.take p.len

end NetifPacket

/-- `g_transport_count`, and which entries of `g_transport_chans` are set. -/
structure LinkConfig where
  transportCount : Nat
  registered : Nat → Bool
  some : 0 < transportCount

def sizeofEthernetFrame : Nat := 14

def tcpSyn : Nat := 2
def tcpAck : Nat := 16

def LinkConfig.routeToTransportId (cfg : LinkConfig) (p : NetifPacket) : Nat :=
  let type := p.ntohs 12
  if type = 0x0800 then
    let protocol := p.byte (sizeofEthernetFrame + 9)
    let headerLen := p.byte sizeofEthernetFrame &&& 0xF
    let frame := sizeofEthernetFrame + headerLen * 4
    if protocol = 6 then
      let flags := p.byte (frame + 13)
      -- the first packet of a connection is spread in the same way as the others
      if flags &&& tcpSyn ≠ 0 ∧ flags &&& tcpAck = 0 then p.ntohs frame % cfg.transportCount else p.ntohs frame % cfg.transportCount
    else if protocol = 17 then
      if p.ntohs frame = 67 ∨ p.ntohs frame = 68 then 0 else p.ntohs frame % cfg.transportCount
    else 0
  else if type = 0x0806 then 0
  else 0

structure NetworkPacketList where
  on : Int
  packets : List NetifPacket

namespace NetworkPacketList

def init : NetworkPacketList := { on := -1, packets := [] }

def valid (l : NetworkPacketList) : Prop := l.on ≥ 0 ∧ l.on < l.packets.length

instance (l : NetworkPacketList) : Decidable l.valid := inferInstanceAs (Decidable (_ ∧ _))

def next (l : NetworkPacketList) : Bool × NetworkPacketList :=
  let on := l.on + 1
  let on := if on > l.packets.length then (l.packets.length : Int) else on
  (on ≠ l.packets.length, { l with on })

def get (l : NetworkPacketList) : Option NetifPacket :=
  if l.on < 0 ∨ l.on ≥ l.packets.length then none else l.packets[l.on.toNat]?

end NetworkPacketList

structure LinkServer where
  packetlist : NetworkPacketList
  sent : List (Nat × List UInt8)

/-- A call of `idle`: the outcome of a `receive` (`none` if it fails), and where there is room. -/
structure IdleCall where
  received : Option (List NetifPacket)
  room : Nat → Bool

namespace LinkServer
variable (cfg : LinkConfig)

def receive (s : LinkServer) : Option (List NetifPacket) → LinkServer
  | some packets => { s with packetlist := { on := -1, packets } }
  | none => s

def forward (room : Nat → Bool) : Nat → LinkServer → Option LinkServer
  | 0, _ => none
  | fuel + 1, s =>
    let (more, packetlist) := s.packetlist.next
    let s := { s with packetlist }
    if more then
      match packetlist.get with
      | none => none
      | some p =>
        let chosenId := cfg.routeToTransportId p
        if cfg.registered chosenId then
          if room packetlist.on.toNat then forward room fuel { s with sent := s.sent ++ [(chosenId, p.message)] }
          else some s
        else forward room fuel s
    else some s

def idle (s : LinkServer) (call : IdleCall) : Option LinkServer :=
  let s := if s.packetlist.valid then s else s.receive call.received
  s.forward cfg call.room (s.packetlist.packets.length + 2)

def callsFor (batch : List NetifPacket) (rooms : Nat → Nat → Bool) (n : Nat) : List IdleCall :=
  { received := some batch, room := rooms 0 } :: (List.range n).map fun k => { received := none, room := rooms (k + 1) }

def addressed (p : NetifPacket) : Nat × List UInt8 := (cfg.routeToTransportId p, p.message)

/-- When the batch is done, every transport has been sent the packets for it, each once and in their order. -/
def Forwards (s : LinkServer) (batch : List NetifPacket) (rooms : Nat → Nat → Bool) : Prop :=
  ∃ n t new, Lib.run (idle cfg) s (callsFor batch rooms n) = some t ∧ ¬t.packetlist.valid ∧ t.sent = s.sent ++ new ∧
    ∀ id, new.filter (·.1 = id) = (batch.map (addressed cfg)).filter (·.1 = id)

end LinkServer
end Faux
