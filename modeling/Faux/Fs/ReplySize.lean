import Faux.Fs.Notify

/-! # The sizes of replies

Every handler of `sys/fs/marshall.cpp` allocates its reply in the channel, fills it in and sends it with a size of its own. The
structures of `sys/fs/include/interface.h` are packed, the inodes in them are not. -/

namespace Faux
open Lib

/-- The requests of `enum MessageTypes`. ADDMAP, OPEN and RMDIR have two forms each. -/
inductive Message where
  | request (q : Request)
  | fstat (id : FileId)
  | dirent (dir : FileId) (offset size : Nat)
  | chmod (id : FileId) (mode : Nat)
  | chown (id : FileId) (uid gid : Nat)
  | utimens (id : FileId) (flags : Nat)

inductive WireType where
  | int
  | bool
  | uint64
  | inode
  | inodeType
  | stat

def WireType.size : WireType → Nat
  | int => 4
  | bool => 1
  | uint64 => 8
  | inode => 16
  | inodeType => 24
  | stat => 128

def Request.replyFields : Request → List WireType
  | .create .. | .addMap .. | .updateMap .. => [.int, .inodeType]
  | .pipe => [.int, .uint64, .uint64, .inode]
  | .open .. | .createOpen .. => [.int, .uint64, .int, .uint64, .int, .inodeType]
  | .read .. | .write .. | .lseek .. | .readlink .. => [.int, .uint64]
  | .dup .. => [.int, .inode, .int, .uint64]
  | .resolve .. => [.inodeType, .int, .uint64]
  | .blocks .. => [.int, .uint64, .bool]
  | .destroy .. | .removeMap .. | .close .. | .unlink .. | .rmdir .. | .rmdirAndMap .. | .truncate .. | .symlink .. | .flush .. => [.int]

namespace Message

def replyFields : Message → List WireType
  | request q => q.replyFields
  | fstat .. => [.int, .stat]
  | dirent .. => [.int, .bool, .uint64]
  | chmod .. | chown .. | utimens .. => [.int]

def sizeofReply (m : Message) : Nat := m.replyFields.foldr (fun field size => field.size + size) 0

def asked (m : Message) : Nat :=
  match m with
  | request q => q.replySize % sizeMod
  | dirent _ _ size => (m.sizeofReply + size) % sizeMod
  | _ => m.sizeofReply

/-- The size that a handler gives to `dispatchRespond`, with its reply at `data` in the memory of the channel. A READ sends the
    bytes that have been read, and a RESOLVE what its reply says; the others send the structure. -/
def sent (s : Server) (app : AppId) (shared : Memory) (data : Nat) (m : Message) : Res Nat :=
  match m with
  | request (.read fd count) => do
    let (_, retval, n, bytes) ← s.read fd count
    .ok ((Request.read fd count).sentSize shared data (retval, n, bytes) % sizeMod)
  | request (.resolve parent path) => do
    let (_, retval, child) ← s.resolve app parent path
    .ok ((Request.resolve parent path).sentSize shared data (retval, child))
  | _ => .ok m.sizeofReply

/-- What a client asks for: it reads and lists at most `FS_CHUNK_SIZE` bytes at once, and gets at most `block_chunk_size` blocks
    (a number of blocks that is negative as an `int` fails the assertion on its buffer). -/
def Built : Message → Prop
  | request (.read _ count) => count ≤ fsChunkSize
  | request (.blocks _ _ count) => count ≤ blockChunkSize
  | dirent _ _ size => size ≤ fsChunkSize
  | _ => True

def IsResolve : Message → Prop
  | request (.resolve ..) => True
  | _ => False

/-- The size is well formed: it has room for the structure and is not more than what was allocated, and in the header it is
    neither 0, with which a message is not delivered, nor that of a wrap sentinel. -/
structure WellFormed (m : Message) (size field : Nat) : Prop where
  fixed : m.sizeofReply ≤ size
  allocated : size ≤ m.asked
  delivered : field ≠ 0
  notSentinel : field ≠ sentinelSize

end Message

/-- The 16 bits of the header of the message with its body at `data` that tell its size. -/
def HalfChannel.sizeAt (chan : HalfChannel) (data : Nat) : Nat := msgSize chan.shared (data - sizeofDispatchHeader - sizeofMessage)

end Faux
