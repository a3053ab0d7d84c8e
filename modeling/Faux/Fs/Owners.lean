import Faux.Fs.NameSpace

/-! # Inodes that clients know

The ways in which a client comes to know the `InodeType` of a directory: the root, the replies of servers, its
directory cache, the entries of a DIRENT reply (`sys/fs/lib/dir.cpp`), the object of an open directory, which `openat`
and `fchdir` use, and the environment that an exec passes on (`libs/basicp/exec.c`, `libs/basicp/start.c`). -/

namespace Faux
open Lib

/-! ### Directory entries -/

inductive DType where
  | reg
  | dir
  | lnk
  /-- A shared directory. -/
  | blk

namespace DType

def ofFileType : FileType → Res DType
  | .dirShared => .ok blk
  | .dir => .ok dir
  | .file => .ok reg
  | .symlink => .ok lnk
  | .pipe => .error .assertion

def isDir : DType → Bool
  | dir | blk => true
  | _ => false

end DType

/-- The server in an inode id, `id >> INODE_SHIFT`. -/
def idServer (id : FileId) : Nat := id / 67108864

def direntChild (name : Name) (ino : FileId) (dtype : DType) : Option InodeType :=
  if name.toList.head? = some '.' then none
  else
    match dtype with
    | .dir => some { server := idServer ino, id := ino, type := .dir }
    | .blk => some { server := idServer ino, id := ino, type := .dirShared }
    | _ => none

/-- One entry of `direntry`: what the client makes of it. The id of the root is replaced. -/
def Server.direntry (s : Server) (app : AppId) (dir : FileId) (name : Name) : Res (Server × Option InodeType) :=
  match s.files.lookup dir with
  | none => .ok (s, none)
  | some (.dir d) =>
    match d.children.lookup name with
    | none => .ok (s, none)
    | some entry => do
      let ino := if entry.inode.id = 0 then 0xDEADBEEF else entry.inode.id
      let dtype ← DType.ofFileType entry.inode.type
      let s := if dtype.isDir ∧ name ≠ ".." then s.appAddLoc app entry.loc else s
      .ok (s, direntChild name ino dtype)
  | some _ => .error .assertion

def FileType.code : FileType → Nat
  | .file => 0o100000
  | .dir => 0o040000
  | .symlink => 0o120000
  | .pipe => 0o010000
  | .dirShared => 0o060000

def FileType.ofCode (n : Nat) : Option FileType := [file, dir, symlink, pipe, dirShared].find? fun t => t.code = n

/-- The numbers of `hare_fd_%d=%d:%llx:%llx@%d:%x` and of `hare_cwd=%llx@%d:%u:%d` that tell an inode. -/
structure ExecInode where
  id : FileId
  server : Nat
  type : Nat

def InodeType.exec (x : InodeType) : ExecInode := { id := x.id, server := x.server, type := x.type.code }

def ExecInode.start (e : ExecInode) : Option InodeType :=
  (FileType.ofCode e.type).map fun type => { server := e.server, id := e.id, type }

end Faux
