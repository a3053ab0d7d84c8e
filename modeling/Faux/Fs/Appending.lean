import Faux.Fs.Store
import Faux.Fs.System
import Mathlib

/-! # Writers that share a descriptor

Processes that share one descriptor of a server write through it, without the buffer cache: each call sends its
bytes in pieces, and the server keeps the offset. -/

namespace Faux
open Lib

def chunksOf : Nat → List UInt8 → List (List UInt8)
  | 0, _ => []
  | n + 1, buf => if buf = [] then [] else buf.take fsChunkSize :: chunksOf n (buf.drop fsChunkSize)

def chunks (buf : List UInt8) : List (List UInt8) := chunksOf buf.length buf

/-- The write calls that each client makes: their handles and bytes. -/
abbrev Plan := Nat → List (Nat × List UInt8)

def Plan.pieces (plan : Plan) (c n : Nat) : List (List UInt8) := ((plan c).take n).flatMap fun x => chunks x.2

def returns (v : FsScene) (c : Nat) : List Int := (v.log.filter fun r => r.client = c).map (·.result)

def piecesOf (order : List (Nat × List UInt8)) (c : Nat) : List (List UInt8) := (order.filter fun x => x.1 = c).map (·.2)

/-- The descriptor refers to a file with these bytes, and its offset is the end of the file. -/
def Server.AtEnd (s : Server) (fd : Fd) (data : List UInt8) : Prop :=
  ∃ d f, s.fds.lookup fd = some d ∧ s.files.lookup d.id = some (.file f) ∧ f.Solid s.bufferCache ∧ d.offset = f.size ∧
    f.contents s.mem = data

namespace Cluster

structure Shares (w : Cluster) (i : Nat) (fd : Fd) (plan : Plan) (data : List UInt8) : Prop where
  atEnd : (w.servers i).AtEnd fd data
  handles : ∀ c, ∀ x ∈ plan c, ∃ f, (w.clients c).files.lookup x.1 = some f ∧ f.inode.server = i ∧ f.fd = fd

/-- Every client makes its calls one after the other, and no allocation fails. -/
def appendRules (plan : Plan) : FsRules where
  calls v c o := ∃ h buf, (plan c)[(returns v c).length]? = some (h, buf) ∧ o = .write h buf
  acts v _ _ a := ∀ i fd data, a = .rpc i (.write fd data) → ∀ d f, (v.world.servers i).fds.lookup fd = some d →
    (v.world.servers i).files.lookup d.id = some (.file f) → f.Fits (v.world.servers i).bufferCache (d.offset + data.length)

end Cluster

/-- The pieces `order` are those of the clients, each intact and in the order in which its client has sent it; every
    call that has returned has written all its bytes. -/
structure FsConf.Intact (s : FsConf) (plan : Plan) (order : List (Nat × List UInt8)) : Prop where
  started : ∀ c, plan.pieces c (returns s.toScene c).length <+: piecesOf order c
  within : ∀ c, piecesOf order c <+: plan.pieces c ((returns s.toScene c).length + 1)
  done : ∀ c, s.call c = none → piecesOf order c = plan.pieces c (returns s.toScene c).length
  results : ∀ c, returns s.toScene c = ((plan c).take (returns s.toScene c).length).map fun x => (x.2.length : Int)
  total : (∀ c, s.call c = none) → ((order.flatMap (·.2)).length : Int) = (s.log.map (·.result)).sum

/-- The file has grown by the pieces `order`, which are those of the clients, each intact and in the order in
    which its client has sent it; every call that has returned has written all its bytes. -/
structure FsConf.Appended (s : FsConf) (i : Nat) (fd : Fd) (plan : Plan) (data : List UInt8)
    (order : List (Nat × List UInt8)) : Prop where
  file : (s.world.servers i).AtEnd fd (data ++ order.flatMap (·.2))
  small : ∀ x ∈ order, x.2.length ≤ fsChunkSize
  started : ∀ c, plan.pieces c (returns s.toScene c).length <+: piecesOf order c
  within : ∀ c, piecesOf order c <+: plan.pieces c ((returns s.toScene c).length + 1)
  done : ∀ c, s.call c = none → piecesOf order c = plan.pieces c (returns s.toScene c).length
  results : ∀ c, returns s.toScene c = ((plan c).take (returns s.toScene c).length).map fun x => (x.2.length : Int)
  total : (∀ c, s.call c = none) → ((order.flatMap (·.2)).length : Int) = (s.log.map (·.result)).sum

end Faux
