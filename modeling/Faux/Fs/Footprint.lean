import Faux.Fs.Descriptors

/-! # The blocks of a file

What requests for the blocks of a file should give, how many blocks a file holds over its history of sizes, and requests that
need more blocks than are free. -/

namespace Faux
open Lib
namespace File
variable (f : File) (bc : BufferCache)

/-- A request for blocks gives the right slice of the memory blocks followed by the orphan blocks, or tells that there are not as
    many, and reads nothing else. -/
def Sliced (offset count : Int) : Prop :=
  match f.blocks bc offset count with
  | .ok (st, found) =>
    (st = .ok ↔ offset + count ≤ f.all.length) ∧ (st = .ok ∨ st = .noMemory) ∧
      (st = .ok → found = ((f.all.drop offset.toNat).take count.toNat).map (· - bc.start))
  | .error _ => False

/-- The slice starts among the memory blocks or at their end, and does not go on into the orphan blocks, unless it starts with
    them. -/
def InOneList (offset count : Int) : Prop :=
  0 ≤ offset ∧ offset ≤ f.memoryBlocks.length ∧ (offset + count ≤ f.memoryBlocks.length ∨ offset = f.memoryBlocks.length)

def Lacks (newSize : Nat) : Prop :=
  f.size < newSize ∧ newSize < sizeMod ∧ bc.blocksFree < blocksNr newSize - f.memoryBlocks.length

def Takes (newSize : Nat) : Prop :=
  f.size < newSize ∧ f.memoryBlocks.length < blocksNr newSize ∧ blocksNr newSize - f.memoryBlocks.length ≤ bc.blocksFree

instance (newSize : Nat) : Decidable (f.Lacks bc newSize) := inferInstanceAs (Decidable (_ ∧ _ ∧ _))

instance (newSize : Nat) : Decidable (f.Takes bc newSize) := inferInstanceAs (Decidable (_ ∧ _ ∧ _))

end File

/-! ### The blocks that a file holds -/

/-- A file with the cache and the memory that it shares with other files, and the largest size that it has had. -/
structure Footprint where
  file : File
  cache : BufferCache
  mem : Memory
  largest : Nat

inductive SizeOp where
  | write (buf : List UInt8) (offset : Nat)
  | truncate (len : Nat)
  | openTrunc
  | others (cache : BufferCache) (mem : Memory)

def SizeOp.newSize : SizeOp → Nat
  | .write buf offset => if buf = [] then 0 else offset + buf.length
  | .truncate len => len
  | .openTrunc | .others .. => 0

namespace Footprint

def held (s : Footprint) : Nat := s.file.memoryBlocks.length + s.file.orphanBlocks.length

def put (s : Footprint) (file : File) (cache : BufferCache) (mem : Memory) : Footprint :=
  { file, cache, mem, largest := max s.largest file.size }

def apply (s : Footprint) : SizeOp → Res Footprint
  | .write buf offset => do
    let (f, bc, m, _) ← s.file.write s.cache s.mem buf offset
    .ok (s.put f bc m)
  | .truncate len => do
    let (f, bc, _) ← s.file.truncate s.cache len
    .ok (s.put f bc s.mem)
  | .openTrunc => do
    let (f, bc) ← s.file.openTrunc s.cache true
    .ok (s.put f bc s.mem)
  | .others cache mem => .ok { s with cache, mem }

def step (s : Footprint) (o : SizeOp) : Option Footprint := (s.apply o).toOption

def Start (s : Footprint) : Prop := s.file = .new ∧ s.largest = 0

/-- A request that takes blocks from the cache finds the file without orphan blocks. The end of what is written is of type `size_t`. -/
def Guard (s : Footprint) (o : SizeOp) : Prop :=
  o.newSize < sizeMod ∧ (s.file.Takes s.cache o.newSize → s.file.orphanBlocks = [])

instance (s : Footprint) (o : SizeOp) : Decidable (s.Guard o) := inferInstanceAs (Decidable (_ ∧ (_ → _)))

end Footprint

def Request.Refused : (q : Request) → q.Reply → Prop
  | .write .., r => r.1 ≠ .ok
  | .truncate .., r => r ≠ .ok
  | _, _ => False

namespace Server
variable (cfg : Config)

def answers (s : Server) : List Act → List (Option (Sigma Request.Reply))
  | [] => []
  | a :: as =>
    match s.handle cfg a.env a.app a.req with
    | .ok (t, r, _) => some ⟨a.req, r⟩ :: t.answers as
    | .error _ => [none]

def Starved (s : Server) : Request → Prop
  | .write fd data => data ≠ [] ∧ ∃ d f, s.fds.lookup fd = some d ∧ s.files.lookup d.id = some (.file f) ∧
      f.Lacks s.bufferCache (d.offset + data.length)
  | .truncate id len => ∃ f, s.files.lookup id = some (.file f) ∧ f.Lacks s.bufferCache len
  | _ => False

/-- The request is refused: the client is told, the objects, their contents and the offsets of the descriptors are as before, and
    so is everything that later requests give. -/
def RefusedCleanly (s : Server) (a : Act) : Prop :=
  ∃ t r notes, s.handle cfg a.env a.app a.req = .ok (t, r, notes) ∧ a.req.Refused r ∧
    (∀ id, t.files.lookup id = s.files.lookup id) ∧ t.mem = s.mem ∧ (∀ fd, t.fds.lookup fd = s.fds.lookup fd) ∧
    ∀ later, t.answers cfg later = s.answers cfg later

end Server
end Faux
