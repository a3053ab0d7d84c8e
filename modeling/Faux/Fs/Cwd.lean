import Faux.Fs.Types

/-! # The working directory

The working directory of a process (`libs/basicp/start.c`), and which paths Hare leaves to the operating system
(`sys/fs/lib/misc.cpp`). -/

namespace Faux

/-- `g_cwd_inode` and `g_cwd_in`: the working directory, if it is inside of Hare. -/
structure Cwd where
  inode : InodeType
  inside : Bool

def excludes : List Name :=
  ["/bin", "/dev", "/etc", "/home", "/lib", "/lib64", "/opt", "/proc", "/root", "/run", "/sbin", "/srv", "/sys", "/usr", "//usr"]

def Cwd.fosPathExcluded (cwd : Cwd) (path : Name) : Bool :=
  if !cwd.inside then true
  else if path.toList.head? ≠ some '/' then false
  else excludes.any fun p => p.toList.isPrefixOf path.toList

end Faux
