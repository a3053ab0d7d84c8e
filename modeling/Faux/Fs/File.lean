import Faux.Channel.Basic
import Faux.Fs.Types

/-! # Blocks and files

`sys/fs/buffer_cache.cpp` and the classes `File` and `Pipe` of `sys/fs/file.cpp`. Truncation moves blocks to the orphan blocks of the
file, which go back to the cache when the file is deleted. The shared memory is passed to the operations that use it. Times,
modes and owners are left out. -/

namespace Faux
open Lib

/-- `BufferCache::block_size`, the default `CONFIG_BUFFER_CACHE_BLOCKSIZE`. -/
def blockSize : Nat := 4096

/-- `BufferCache`: the address of the shared memory, the free blocks, and the count of free blocks, which
    the code keeps by itself. -/
structure BufferCache where
  start : Nat
  blocks : List Nat
  blocksFree : Nat

namespace BufferCache

/-- `BufferCache::get`: the first blocks of the free list, none when the count says there are too few. -/
def get (bc : BufferCache) (nr : Nat) : Res (BufferCache × List Nat) :=
  if bc.blocksFree < nr then .ok (bc, [])
  else if bc.blocks.length < nr then .error .undefined
  else .ok ({ bc with blocks := bc.blocks.drop nr, blocksFree := bc.blocksFree - nr }, bc.blocks.take nr)

def put (bc : BufferCache) (blocks : List Nat) : BufferCache :=
  { bc with blocks := blocks ++ bc.blocks, blocksFree := bc.blocksFree + blocks.length }

end BufferCache

structure File where
  memoryBlocks : List Nat
  orphanBlocks : List Nat
  size : Nat

def blocksNr (size : Nat) : Nat := size / blockSize + if size % blockSize ≠ 0 then 1 else 0

namespace File

def all (f : File) : List Nat := f.memoryBlocks ++ f.orphanBlocks

def new : File := { memoryBlocks := [], orphanBlocks := [], size := 0 }

def release (f : File) (bc : BufferCache) : BufferCache := (bc.put f.memoryBlocks).put f.orphanBlocks

def shrink (f : File) (newSize : Nat) : Res File :=
  let nr := blocksNr newSize
  if f.memoryBlocks.length = nr then .ok f
  -- begin + nr is past the end
  else if f.memoryBlocks.length < nr then .error .undefined
  else .ok { f with
    memoryBlocks := f.memoryBlocks.take nr
    orphanBlocks := f.orphanBlocks ++ f.memoryBlocks.drop nr }

def grow (f : File) (bc : BufferCache) (newSize : Nat) : Res (File × BufferCache × Status) :=
  let diff := sizeSub (blocksNr newSize) f.memoryBlocks.length
  if diff = 0 then .ok (f, bc, .ok)
  else do
    let (bc, blocks) ← bc.get diff
    if blocks.length ≠ diff then .ok (f, bc, .noSpace)
    else .ok ({ f with memoryBlocks := f.memoryBlocks ++ blocks }, bc, .ok)

def truncate (f : File) (bc : BufferCache) (newSize : Nat) : Res (File × BufferCache × Status) :=
  if f.size < newSize then do
    let (f, bc, retval) ← f.grow bc newSize
    if retval ≠ .ok then .ok (f, bc, retval) else .ok ({ f with size := newSize }, bc, .ok)
  else if f.size > newSize then do
    let f ← f.shrink newSize
    .ok ({ f with size := newSize }, bc, .ok)
  else .ok (f, bc, .ok)

def openTrunc (f : File) (bc : BufferCache) (trunc : Bool) : Res (File × BufferCache) :=
  if trunc then do
    let (f, bc, _) ← f.truncate bc 0
    .ok (f, bc)
  else .ok (f, bc)

def readLoop (m : Memory) (blocks : List Nat) : Nat → Nat → Nat → Res (List UInt8)
  | 0, _, _ => .ok []
  | fuel + 1, offset, count =>
    if count = 0 then .ok []
    else
      let n := min (blockSize - offset % blockSize) count
      match blocks[offset / blockSize]? with
      | none => .error .undefined
      | some block => do
        let rest ← readLoop m blocks fuel (offset + n) (count - n)
        .ok (m.read (block + offset % blockSize) n ++ rest)

def read (f : File) (m : Memory) (count offset : Nat) : Res (List UInt8) :=
  if offset < f.size then
    let count := if offset + count > f.size then f.size - offset else count
    readLoop m f.memoryBlocks count offset count
  else .ok []

def writeLoop (blocks : List Nat) : Nat → Memory → Nat → List UInt8 → Res Memory
  | 0, m, _, _ => .ok m
  | fuel + 1, m, offset, buf =>
    if buf = [] then .ok m
    else
      let n := min (blockSize - offset % blockSize) buf.length
      match blocks[offset / blockSize]? with
      | none => .error .undefined
      | some block => writeLoop blocks fuel (m.write (block + offset % blockSize) (buf.take n)) (offset + n) (buf.drop n)

/-- What `File::write` does before it copies: the size is set even when the file cannot grow. -/
def growFor (f : File) (bc : BufferCache) (newSize : Nat) : Res (File × BufferCache × Status) :=
  if f.size < newSize then do
    let (f, bc, retval) ← f.grow bc newSize
    .ok ({ f with size := newSize }, bc, retval)
  else .ok (f, bc, .ok)

def write (f : File) (bc : BufferCache) (m : Memory) (buf : List UInt8) (offset : Nat) :
    Res (File × BufferCache × Memory × Int) :=
  if buf = [] then .ok (f, bc, m, 0)
  else do
    let (f, bc, retval) ← f.growFor bc (offset + buf.length)
    if retval ≠ .ok then .ok (f, bc, m, retval)
    else do
      let m ← writeLoop f.memoryBlocks buf.length m offset buf
      .ok (f, bc, m, buf.length)

/-- `File::blocks`: offsets in the shared memory of `count` blocks from index `offset` on, continued in the
    orphan blocks. The arguments are of type `int`. -/
def blocks (f : File) (bc : BufferCache) (offset count : Int) : Res (Status × List Nat) :=
  -- an iterator before the begin or past the end
  if offset < 0 ∨ offset > f.memoryBlocks.length then .error .undefined
  else
    let found := (f.memoryBlocks.drop offset.toNat).take count.toNat
    if (found.length : Int) < count then
      let offset := offset - f.memoryBlocks.length
      if offset < 0 then .error .undefined
      else
        let found := found ++ (f.orphanBlocks.drop offset.toNat).take (count.toNat - found.length)
        .ok (if (found.length : Int) < count then .noMemory else .ok, found.map (· - bc.start))
    else .ok (.ok, found.map (· - bc.start))

end File

/-- `Pipe`: a count of bytes and the two descriptors, 0 once closed. -/
structure Pipe where
  size : Nat
  readFd : Fd
  writeFd : Fd

namespace Pipe

/-- `Pipe::write`: no data is kept. -/
def write (p : Pipe) (count : Nat) : Pipe × Int := ({ p with size := p.size + count }, count)

def read (p : Pipe) (count : Nat) : Pipe × Int :=
  if p.size ≠ 0 then
    let count := min count p.size
    ({ p with size := p.size - count }, count)
  else if p.writeFd ≠ 0 then (p, Status.again)
  else (p, 0)

end Pipe
end Faux
