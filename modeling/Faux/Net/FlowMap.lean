import Faux.Net.ConnManager

/-! # Flow identifiers

`sys/net/common/hash.c`, and the map of `sys/net/transport/transport_server.cpp` from the identifiers of flows to connections. `unsigned int`
is of 32 bits and `char` is signed; numbers are stored with the low byte first. -/

namespace Faux
open Lib

/-- `unsigned int` counts modulo this. -/
def hashMod : Nat := 4294967296

def signedChar (c : UInt8) : Int := if c.toNat < 128 then c.toNat else c.toNat - 256

def charToUnsigned (c : UInt8) : Nat := if c.toNat < 128 then c.toNat else c.toNat + (hashMod - 256)

def variableBytes (n : Nat) : List UInt8 := [.ofNat n, .ofNat (n / 256), .ofNat (n / 65536), .ofNat (n / 16777216)]

/-- `b` in `RSNetHash`. -/
def rsFactor : Nat := 378551

def rsLoop : List UInt8 → Nat × Nat → Nat × Nat
  | [], s => s
  | c :: cs, (hash, a) => rsLoop cs ((hash * a + charToUnsigned c) % hashMod, a * rsFactor % hashMod)

def rsNetHash (localIp localPort remoteIp remotePort : Nat) : FlowId :=
  let s := (0, 63689)
  let s := rsLoop (variableBytes localIp) s
  let s := rsLoop (variableBytes localPort) s
  let s := rsLoop (variableBytes remoteIp) s
  let s := rsLoop (variableBytes remotePort) s
  s.1

/-- `JSNetHash` returns what `RSNetHash` does. -/
def jsNetHash (localIp localPort remoteIp remotePort : Nat) : FlowId := rsNetHash localIp localPort remoteIp remotePort

structure FourTuple where
  localIp : UInt32
  localPort : UInt16
  remoteIp : UInt32
  remotePort : UInt16
  deriving DecidableEq

structure ListenEnd where
  localIp : UInt32
  localPort : UInt16
  deriving DecidableEq

/-- `FlowMap::compute` of a connection. -/
def FourTuple.compute (c : FourTuple) : FlowId := jsNetHash c.localIp.toNat c.localPort.toNat c.remoteIp.toNat c.remotePort.toNat

/-- `FlowMap::compute` of a socket that listens; the connection manager finds it under the same number. -/
def ListenEnd.compute (l : ListenEnd) : FlowId := jsNetHash l.localIp.toNat l.localPort.toNat 0 0

abbrev FlowMap := AList fun _ : FlowId => FourTuple

namespace FlowMap

def add (m : FlowMap) (c : FourTuple) : Option FlowMap := if m.lookup c.compute = none then some (m.insert c.compute c) else none

def get (m : FlowMap) (id : FlowId) : Option FourTuple := m.lookup id

def addAll (m : FlowMap) : List FourTuple → Option FlowMap
  | [] => some m
  | c :: conns => (m.add c).bind fun m => addAll m conns

/-- The connections can all be live: none fails the assertion, each is found under its identifier, and the identifiers are different from each other and
    from those of the sockets that listen. -/
structure Separates (conns : List FourTuple) (listening : List ListenEnd) : Prop where
  added : ∃ m, addAll ∅ conns = some m ∧ ∀ c ∈ conns, get m c.compute = some c
  distinct : (conns.map FourTuple.compute).Nodup
  listens : ∀ c ∈ conns, ∀ l ∈ listening, c.compute ≠ l.compute

end FlowMap

def FourTuple.chars (c : FourTuple) : List Int :=
  (variableBytes c.localIp.toNat ++ (variableBytes c.localPort.toNat ++ (variableBytes c.remoteIp.toNat ++ variableBytes c.remotePort.toNat))).map signedChar

/-- The factors of the sixteen bytes in the hash. -/
def hashWeights : List Int :=
  [3273028793, 542549527, 153792431, 4088422449, 1692478601, 1464222951, 652546463, 2096464289,
    789014233, 829983031, 4119268623, 589031825, 4030634921, 199092999, 2641054207, 1]

def weightedSum : List Int → List Int → Int
  | w :: ws, x :: xs => w * x + weightedSum ws xs
  | _, _ => 0

/-- The differences of the bytes, with the factors, add up to a multiple of 2 to the 32. -/
def FourTuple.Collides (c d : FourTuple) : Prop := weightedSum hashWeights (List.zipWith (· - ·) c.chars d.chars) % 4294967296 = 0

def ListenEnd.toTuple (l : ListenEnd) : FourTuple := { localIp := l.localIp, localPort := l.localPort, remoteIp := 0, remotePort := 0 }

end Faux
