import Mathlib.Data.List.AList

/-! # File system types

Inodes, statuses, flags and path hashing of `sys/fs/include/fs.h`, `sys/server/include/server.h` and
`Config.in`. -/

namespace Faux

abbrev FileId := Nat
abbrev Fd := Nat
abbrev Name := String

/-- A client's channel, the key of the server's tracking sets. -/
abbrev AppId := Nat

inductive FileType where
  | file
  | dir
  | symlink
  | pipe
  | dirShared
  deriving DecidableEq

namespace FileType

def isDir : FileType → Bool
  | dir | dirShared => true
  | _ => false

end FileType

structure Inode where
  server : Nat
  id : FileId
  deriving DecidableEq

structure InodeType where
  server : Nat
  id : FileId
  type : FileType
  deriving DecidableEq

def InodeType.only (i : InodeType) : Inode := { server := i.server, id := i.id }

/-- What ends a run of the program: an assertion that fails, or undefined behaviour. A loop without a bound
    has `fuel` in the model. -/
inductive Fault where
  | assertion
  | undefined
  | fuel
  deriving DecidableEq

abbrev Res (α : Type) := Except Fault α

def require (c : Bool) : Res Unit := if c then .ok () else .error .assertion

abbrev Status := Int

namespace Status

def ok : Status := 0
def notFound : Status := -2
def again : Status := -11
def noMemory : Status := -12
def exist : Status := -17
def notDir : Status := -20
def isDir : Status := -21
def invalid : Status := -22
def noSpace : Status := -28
def notEmpty : Status := -39
def isSym : Status := notEmpty

end Status

structure Flags where
  creat : Bool := false
  excl : Bool := false
  trunc : Bool := false
  append : Bool := false
  directory : Bool := false
  wronly : Bool := false
  rdwr : Bool := false

/-- `mode & S_ISSHR`, the sticky bit, asks for a directory that is shared by all servers. -/
def isShr (mode : Nat) : Bool := mode / 512 % 2 == 1

inductive CacheState where
  | modified
  | exclusive
  | shared
  | invalid
  deriving DecidableEq

inductive RmdirPhase where
  | try
  | fail
  | success
  | force
  deriving DecidableEq

inductive Whence where
  | set
  | cur
  | end
  | data
  | hole
  | other

/-- The configuration of a run: the number of file system servers, for creation affinity the socket of each
    server, the server next to each client and `g_dest_server`, that of the client at hand, and whether clients
    access blocks directly and send the requests of an `rmdir` all at once. -/
structure Config where
  serverCount : Nat
  affinity : Bool
  socketMap : Nat → Nat
  near : Nat → Nat
  destServer : Nat
  bufferCache : Bool
  scatterGather : Bool

def Config.client (cfg : Config) (c : Nat) : Config := { cfg with destServer := cfg.near c }

def charInt (c : UInt8) : UInt32 := if c < 128 then c.toUInt32 else c.toUInt32 - 256

def getCRC (init : UInt32) (data : List UInt8) : UInt32 :=
  (data.foldl (fun (chk, i) c => (chk + charInt c * i, i + 1)) ((if init ≠ 0 then init else 0x12395679), (1 : UInt32))).1

def idBytes (id : FileId) : List UInt8 := (List.range 8).map fun i => UInt8.ofNat (id >>> (8 * i))

def fosPathHashn (id : FileId) (path : Name) : Nat := (getCRC (getCRC 0 (idBytes id)) path.toUTF8.data.toList).toNat

def fosPathHashDirect (cfg : Config) (path : Name) : Nat := fosPathHashn 0 path % cfg.serverCount

/-- `fosPathOwnern`: the server that holds the entry `path` of a directory. -/
def fosPathOwnern (cfg : Config) (inode : InodeType) (path : Name) : Res Nat :=
  if inode.id = 0 ∧ (path = "" ∨ path = "..") then .ok 0
  else
    match inode.type with
    | .dirShared => .ok (if cfg.serverCount > 1 then fosPathHashn inode.id path % cfg.serverCount else 0)
    | .dir => .ok inode.server
    | _ => .error .assertion

def fosPathOwner (cfg : Config) (inode : InodeType) (path : Name) : Res Nat :=
  if cfg.serverCount > 1 then fosPathOwnern cfg inode path else .ok 0

end Faux
