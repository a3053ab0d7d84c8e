import Faux.Fs.Client

/-! # Open files of a client

`File` of the client (`sys/fs/lib/file.cpp`). With the buffer cache a client reads and writes the blocks of
the shared memory itself, and asks the server only for block lists, truncation and descriptors; without it,
or once its copy is invalid, it goes through the server. -/

namespace Faux
open Lib

def blockChunkSize : Nat := 4096

namespace AppFile

/-- `File::blocks`: the list is stored from `offset` on, past the end it is appended. -/
def storeBlocks (blocks : List Nat) (offset : Nat) : List Nat → List Nat
  | [] => blocks
  | b :: bs => storeBlocks (if offset < blocks.length then blocks.set offset b else blocks ++ [b]) (offset + 1) bs

def getBlocklist (inode : InodeType) (offset count : Nat) : FsProg (List Nat) := do
  let (retval, blocks) ← rpc inode.server (.blocks inode.id offset count)
  ensure (retval = .ok)
  .ret blocks

def cacheLoop (h : Nat) : Nat → AppFile → Nat → Nat → FsProg AppFile
  | 0, f, _, _ => .ret f
  | fuel + 1, f, blocksRead, count =>
    if blocksRead < count then do
      let bc := min blockChunkSize (count - blocksRead)
      let list ← getBlocklist f.inode blocksRead bc
      let f := { f with blocks := storeBlocks f.blocks blocksRead list }
      perform (.setFile h f)
      cacheLoop h fuel f (blocksRead + bc) count
    else .ret f

def cacheBlocks (cfg : Config) (h : Nat) (f : AppFile) : FsProg AppFile :=
  if cfg.bufferCache then cacheLoop h (blocksNr f.size) f 0 (blocksNr f.size) else .ret f

/-- `fosTruncate` of an inode, with the empty path: a symbolic link is not opened as a file. -/
def fosTruncateInode (inode : InodeType) (len : Nat) : FsProg Status := do
  perform .check
  perform .check
  rpc inode.server (.truncate inode.id len)

def truncate (cfg : Config) (h : Nat) (f : AppFile) (len : Nat) : FsProg (AppFile × Status) := do
  let f := if cfg.bufferCache then { f with size := len, offset := min f.offset len } else f
  perform (.setFile h f)
  let retval ← fosTruncateInode f.inode len
  .ret (f, retval)

def clearBlocks (server : Nat) : List Nat → FsProg Unit
  | [] => .ret ()
  | b :: bs => do
    perform (.copyIn server b (List.replicate blockSize 0))
    clearBlocks server bs

def growLoop (h : Nat) : Nat → AppFile → Nat → Nat → FsProg AppFile
  | 0, f, _, _ => .ret f
  | fuel + 1, f, cachedSize, additional =>
    if additional = 0 then .ret f
    else do
      let blockOffset := blocksNr cachedSize
      let newBlocks := min additional blockChunkSize
      let list ← getBlocklist f.inode blockOffset newBlocks
      let f := { f with blocks := storeBlocks f.blocks blockOffset list }
      perform (.setFile h f)
      -- zero out incoming blocks
      clearBlocks f.inode.server list
      growLoop h fuel f (cachedSize + newBlocks * blockSize) (additional - newBlocks)

/-- What `File::write` does before it copies: the file is truncated to its new size and the blocks that it
    does not have yet are fetched. -/
def growTo (cfg : Config) (h : Nat) (f : AppFile) (newSize : Nat) : FsProg AppFile :=
  let leftInBlock := if f.size % blockSize = 0 then 0 else blockSize - f.size % blockSize
  if newSize > f.size + leftInBlock then do
    let additional := blocksNr (newSize - leftInBlock - f.size)
    let (g, _) ← truncate cfg h f newSize
    growLoop h additional g f.size additional
  else .ret f

def copyInLoop (f : AppFile) : Nat → Nat → List UInt8 → FsProg Unit
  | 0, _, _ => .ret ()
  | fuel + 1, offset, buf =>
    if buf = [] then .ret ()
    else do
      let n := min (blockSize - offset % blockSize) buf.length
      match f.blocks[offset / blockSize]? with
      | none => .fail .assertion
      | some block => do
        perform (.copyIn f.inode.server (block + offset % blockSize) (buf.take n))
        copyInLoop f fuel (offset + n) (buf.drop n)

/-- The loop of `File::write` through the server: the bytes written, or a status when there are none. -/
def fdWriteLoop (f : AppFile) : Nat → Nat → List UInt8 → FsProg (Int × Nat)
  | 0, written, _ => .ret (written, written)
  | fuel + 1, written, buf =>
    if buf = [] then .ret (written, written)
    else do
      let (ret, n) ← rpc f.inode.server (.write f.fd (buf.take fsChunkSize))
      if ret ≠ .ok then .ret (if written ≠ 0 then written else ret, 0)
      else if n = 0 then .ret (written, written)
      else fdWriteLoop f fuel (written + n) (buf.drop n)

def touch (f : AppFile) : AppFile := if f.state = .shared then { f with state := .exclusive } else f

/-- `File::write`. An early return does not move the offset. -/
def write (cfg : Config) (h : Nat) (f : AppFile) (buf : List UInt8) : FsProg Int := do
  let f := f.touch
  perform (.setFile h f)
  if cfg.bufferCache ∧ f.state ≠ .invalid then do
    let newSize := f.offset + buf.length
    let g ← growTo cfg h f newSize
    let g := { g with size := max g.size newSize }
    perform (.setFile h g)
    copyInLoop g buf.length g.offset buf
    perform (.setFile h { g with offset := g.offset + buf.length })
    .ret buf.length
  else do
    let (ret, written) ← fdWriteLoop f buf.length 0 buf
    perform (.setFile h { f with offset := f.offset + written })
    .ret ret

def copyOutLoop (f : AppFile) : Nat → Nat → Nat → FsProg (List UInt8)
  | 0, _, _ => .ret []
  | fuel + 1, offset, count =>
    if count = 0 then .ret []
    else do
      let n := min (blockSize - offset % blockSize) count
      match f.blocks[offset / blockSize]? with
      | none => .fail .undefined
      | some block => do
        let data ← perform (.copyOut f.inode.server (block + offset % blockSize) n)
        let rest ← copyOutLoop f fuel (offset + n) (count - n)
        .ret (data ++ rest)

def fdReadLoop (f : AppFile) : Nat → List UInt8 → Nat → FsProg (Int × List UInt8)
  | 0, data, _ => .ret (data.length, data)
  | fuel + 1, data, count =>
    if count = 0 then .ret (data.length, data)
    else do
      let (ret, n, new) ← rpc f.inode.server (.read f.fd (min count fsChunkSize))
      if ret ≠ .ok then .ret (if data ≠ [] then data.length else ret, data)
      else if n = 0 then .ret (data.length, data)
      else fdReadLoop f fuel (data ++ new) (count - n)

/-- `File::read`: the result and the bytes. -/
def read (cfg : Config) (h : Nat) (f : AppFile) (count : Nat) : FsProg (Int × List UInt8) := do
  let f := f.touch
  perform (.setFile h f)
  if cfg.bufferCache ∧ f.state ≠ .invalid then
    if f.offset < f.size then do
      let count := if f.offset + count > f.size then f.size - f.offset else count
      let data ← copyOutLoop f count f.offset count
      perform (.setFile h { f with offset := f.offset + count })
      .ret (count, data)
    else .ret (0, [])
  else fdReadLoop f count [] count

/-- `File::close`: the file is no longer open, its changes are flushed and its descriptor is closed. -/
def close (cfg : Config) (h : Nat) (f : AppFile) : FsProg Status := do
  perform (.deleteFile h)
  if cfg.bufferCache ∧ f.state = .exclusive then do
    let _ ← rpc f.inode.server (.flush f.fd f.size f.offset)
    let retval ← rpc f.inode.server (.close f.fd none none)
    ensure (retval = .ok)
    .ret .ok
  else do
    let retval ← rpc f.inode.server (.close f.fd none none)
    ensure (retval = .ok)
    .ret .ok

end AppFile
end Faux
