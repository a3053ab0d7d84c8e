import Faux.Fs.Descriptors
import Faux.Fs.System

/-! # Block isolation

With the buffer cache enabled clients write blocks of the shared memory without asking the server. A block in
the list of an open file has to belong to the inode of that file, at its server. -/

namespace Faux
open Lib

namespace Server

def InRange (s : Server) (id offset count : Nat) : Prop :=
  ∃ f, s.files.lookup id = some (.file f) ∧ offset + count < 2147483648 ∧
    (offset + count ≤ f.memoryBlocks.length ∨ offset = f.memoryBlocks.length)

def Covers (s : Server) (id offset count : Nat) : Prop :=
  ∃ f, s.files.lookup id = some (.file f) ∧ offset + count < 2147483648 ∧ offset + count ≤ f.memoryBlocks.length

def checkRange (s : Server) : Request → Bool
  | .blocks id offset count =>
    match s.files.lookup id with
    | some (.file f) => offset + count < 2147483648 ∧
        (offset + count ≤ f.memoryBlocks.length ∨ offset = f.memoryBlocks.length)
    | _ => false
  | _ => true

def checkCovers (s : Server) : Request → Bool
  | .blocks id offset count =>
    match s.files.lookup id with
    | some (.file f) => offset + count < 2147483648 ∧ offset + count ≤ f.memoryBlocks.length
    | _ => false
  | _ => true

structure Parted (s : Server) : Prop where
  nodup : s.held.Nodup
  region : ∀ b ∈ s.held, s.bufferCache.start ≤ b
  spaced : ∀ a ∈ s.held, ∀ b ∈ s.held, a < b → a + blockSize ≤ b

end Server

namespace Cluster

/-- Every block of an open file belongs to its inode and so neither to the free list nor to another file, and
    writing to it changes no other file. -/
structure Isolated (w : Cluster) : Prop where
  owned : ∀ c h f, (w.clients c).files.lookup h = some f → ∃ g,
    (w.servers f.inode.server).files.lookup f.inode.id = some (.file g) ∧
      ∀ b ∈ f.blocks, (w.servers f.inode.server).bufferCache.start + b ∈ g.all
  notFree : ∀ c h f, (w.clients c).files.lookup h = some f → ∀ b ∈ f.blocks,
    (w.servers f.inode.server).bufferCache.start + b ∉ (w.servers f.inode.server).bufferCache.blocks
  notOther : ∀ c h f, (w.clients c).files.lookup h = some f → ∀ b ∈ f.blocks, ∀ id g, id ≠ f.inode.id →
    (w.servers f.inode.server).files.lookup id = some (.file g) →
      (w.servers f.inode.server).bufferCache.start + b ∉ g.all
  unchanged : ∀ c h f, (w.clients c).files.lookup h = some f → ∀ b ∈ f.blocks, ∀ offset (data : List UInt8),
    offset + data.length ≤ blockSize → ∀ id g, id ≠ f.inode.id →
      (w.servers f.inode.server).files.lookup id = some (.file g) → ∀ n pos,
        g.read ((w.servers f.inode.server).mem.write ((w.servers f.inode.server).bufferCache.start + b + offset) data) n pos =
          g.read (w.servers f.inode.server).mem n pos

def onFiles : Op → Prop
  | .open .. | .read .. | .write .. | .truncate .. | .unlink .. | .close .. => True
  | _ => False

instance : DecidablePred onFiles := fun o => by
  unfold onFiles
  split <;> infer_instance

/-- The requests meet the condition on descriptors, and block lists are asked for in range. -/
def fileRules : FsRules where
  calls _ _ o := onFiles o
  acts v c env a :=
    match a with
    | .rpc i q => (v.world.servers i).Guard ⟨env, c, q⟩ ∧
        ∀ id offset count, q = .blocks id offset count → (v.world.servers i).InRange id offset count
    | _ => True

structure Booted (w : Cluster) : Prop where
  ids : ∀ i, (w.servers i).id = i
  fresh : ∀ i, (w.servers i).Fresh
  parted : ∀ i, (w.servers i).Parted
  files : ∀ c, (w.clients c).files = ∅

end Cluster

end Faux
