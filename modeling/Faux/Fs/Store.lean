import Faux.Fs.File
import Faux.Lib.Bytes

/-! # Files over one buffer cache

The data of the files of a server: each file has a list of blocks and a size, and all of them share the free
blocks of one cache and one memory. The reference model of a file is a sequence of bytes. -/

namespace Faux
open Lib

def addr (blocks : List Nat) (i : Nat) : Nat := (blocks[i / blockSize]?).getD 0 + i % blockSize

def Apart (a b : Nat) : Prop := a + blockSize ≤ b ∨ b + blockSize ≤ a

namespace File

def contents (f : File) (m : Memory) : List UInt8 := (List.range f.size).map fun i => m (addr f.memoryBlocks i)

/-- The file has the blocks that its size takes, and its blocks and the free ones are apart. -/
structure Solid (f : File) (bc : BufferCache) : Prop where
  blocks : f.memoryBlocks.length = blocksNr f.size
  free : bc.blocksFree = bc.blocks.length
  apart : (f.memoryBlocks ++ bc.blocks).Pairwise Apart

def grown (f : File) (bc : BufferCache) (newSize : Nat) : List Nat :=
  f.memoryBlocks ++ bc.blocks.take (blocksNr newSize - f.memoryBlocks.length)

def Fits (f : File) (bc : BufferCache) (newSize : Nat) : Prop :=
  newSize < sizeMod ∧ blocksNr newSize ≤ f.memoryBlocks.length + bc.blocks.length

/-- The bytes between the end of the file and `stop` are zero already, in the blocks that the file has once it has
    grown to `newSize`. -/
def GapZero (f : File) (bc : BufferCache) (m : Memory) (stop newSize : Nat) : Prop :=
  ∀ i, f.size ≤ i → i < stop → m (addr (f.grown bc newSize) i) = 0

instance (f : File) (bc : BufferCache) (newSize : Nat) : Decidable (f.Fits bc newSize) :=
  inferInstanceAs (Decidable (_ ∧ _))

instance (f : File) (bc : BufferCache) (m : Memory) (stop newSize : Nat) : Decidable (f.GapZero bc m stop newSize) :=
  decidable_of_iff (∀ i < stop, f.size ≤ i → m (addr (f.grown bc newSize) i) = 0)
    ⟨fun zero i past lt => zero i lt past, fun zero i lt past => zero i past lt⟩

end File

structure Store where
  files : Nat → File
  cache : BufferCache
  mem : Memory

inductive DataOp where
  | write (k : Nat) (buf : List UInt8) (offset : Nat)
  | truncate (k len : Nat)
  | read (k count offset : Nat)

abbrev DataReply := Int × List UInt8

namespace Store

def setFile (s : Store) (k : Nat) (f : File) (bc : BufferCache) (m : Memory) : Store :=
  { files := Function.update s.files k f, cache := bc, mem := m }

def step (s : Store) : DataOp → Res (Store × DataReply)
  | .write k buf offset => do
    let (f, bc, m, n) ← (s.files k).write s.cache s.mem buf offset
    .ok (s.setFile k f bc m, n, [])
  | .truncate k len => do
    let (f, bc, retval) ← (s.files k).truncate s.cache len
    .ok (s.setFile k f bc s.mem, retval, [])
  | .read k count offset => do
    let data ← (s.files k).read s.mem count offset
    .ok (s, data.length, data)

def run (s : Store) : List DataOp → Res (Store × List DataReply)
  | [] => .ok (s, [])
  | o :: os => do
    let (s, reply) ← s.step o
    let (s, replies) ← s.run os
    .ok (s, reply :: replies)

structure Wf (s : Store) : Prop where
  blocks : ∀ k, (s.files k).memoryBlocks.length = blocksNr (s.files k).size
  free : s.cache.blocksFree = s.cache.blocks.length
  apart : ∀ k, (s.cache.blocks ++ (s.files k).all).Pairwise Apart
  other : ∀ k l, k ≠ l → ∀ a ∈ (s.files k).all, ∀ b ∈ (s.files l).all, Apart a b

def Fits (s : Store) : DataOp → Prop
  | .write k buf offset => (s.files k).Fits s.cache (offset + buf.length)
  | .truncate k len => (s.files k).Fits s.cache len
  | .read _ count offset => offset + count < sizeMod

/-- A gap that the operation opens consists of zeros already. -/
def GapZero (s : Store) : DataOp → Prop
  | .write k buf offset => buf ≠ [] → (s.files k).GapZero s.cache s.mem offset (offset + buf.length)
  | .truncate k len => (s.files k).GapZero s.cache s.mem len len
  | .read .. => True

instance (s : Store) : DecidablePred s.Fits
  | .write k buf offset => inferInstanceAs (Decidable ((s.files k).Fits s.cache (offset + buf.length)))
  | .truncate k len => inferInstanceAs (Decidable ((s.files k).Fits s.cache len))
  | .read _ count offset => inferInstanceAs (Decidable (offset + count < sizeMod))

instance (s : Store) : DecidablePred s.GapZero
  | .write k buf offset =>
    inferInstanceAs (Decidable (buf ≠ [] → (s.files k).GapZero s.cache s.mem offset (offset + buf.length)))
  | .truncate k len => inferInstanceAs (Decidable ((s.files k).GapZero s.cache s.mem len len))
  | .read .. => inferInstanceAs (Decidable True)

def Along (P : Store → DataOp → Prop) (s : Store) : List DataOp → Prop
  | [] => True
  | o :: os => P s o ∧ ∀ t reply, s.step o = .ok (t, reply) → Along P t os

def checkAlong (check : Store → DataOp → Bool) (s : Store) : List DataOp → Bool
  | [] => true
  | o :: os => check s o &&
    match s.step o with
    | .ok (t, _) => checkAlong check t os
    | .error _ => true

end Store

namespace DataOp

def model (a : Nat → List UInt8) : DataOp → (Nat → List UInt8) × DataReply
  | .write k buf offset => (Function.update a k (Bytes.write (a k) offset buf), buf.length, [])
  | .truncate k len => (Function.update a k (Bytes.resize (a k) len), Status.ok, [])
  | .read k count offset => (a, (Bytes.read (a k) offset count).length, Bytes.read (a k) offset count)

def models (a : Nat → List UInt8) : List DataOp → (Nat → List UInt8) × List DataReply
  | [] => (a, [])
  | o :: os =>
    let (a, reply) := o.model a
    let (a, replies) := models a os
    (a, reply :: replies)

end DataOp

def Store.view (s : Store) (k : Nat) : List UInt8 := (s.files k).contents s.mem

end Faux
