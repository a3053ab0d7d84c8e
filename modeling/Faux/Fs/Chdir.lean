import Faux.Fs.Cwd
import Faux.Fs.Rmdir

/-! # Changing the working directory

`__chdir` of `libs/basicp/chdir.c`. Every operation on a path asks first whether the path is excluded, and starts at the working
directory when it is not. -/

namespace Faux
open Lib
namespace Cwd

/-- `__chdir`, with the status of the operating system for a path that is left to it. -/
def chdir (cfg : Config) (cwd : Cwd) (path : Name) (real : Status) : FsProg (Cwd × Status) :=
  if cwd.fosPathExcluded path = true ∨ cwd.inside = false then .ret ({ cwd with inside := false }, real)
  else do
    -- make sure path exists
    let found ← fosLookup cfg cwd.inode path false
    if found.retval ≠ .ok then .ret ({ cwd with inside := false }, .notFound)
    else .ret ({ inode := found.inode, inside := true }, .ok)

def start (cwd : Cwd) (path : Name) : Option InodeType := if cwd.fosPathExcluded path then none else some cwd.inode

end Cwd

namespace Cluster
variable (cfg : Config) (w : Cluster)

def leadsTo (c : Nat) (parent : InodeType) (path : Name) : Option InodeType :=
  (w.walk cfg (w.clients c).check.cache (startDir parent path) (lookupPieces path)).map (·.1)

/-- Either the path leads to a directory, which is the new working directory, or no operation notices the call. -/
def ChdirAtomic (c : Nat) (cwd : Cwd) (path : Name) (r : Cwd × Status) : Prop :=
  (r.2 = .ok ∧ ∃ x, w.leadsTo cfg c cwd.inode path = some x ∧ x.type.isDir = true ∧ r.1 = { inode := x, inside := true }) ∨
    (r.2 < 0 ∧ ∀ path', r.1.start path' = cwd.start path')

end Cluster
end Faux
