import Faux.Fs.Rmdir

/-! # Lookups without a cache

The components of a path resolved one after the other, each at the server that owns it, and when a client's cache agrees with
the servers. -/

namespace Faux
open Lib

def Server.mapping (s : Server) (parent : FileId) (path : Name) : Status × Option InodeType :=
  match s.files.lookup parent with
  | none => (.notFound, none)
  | some (.dir p) =>
    match p.children.lookup path with
    | none => (.notFound, none)
    | some entry => (.ok, some entry.inode)
  | some _ => (.invalid, none)

def pathNames (path : Name) : List Name := (components path.toList).filter (· ≠ "")

def ProperPath (path : Name) : Prop := ∀ n ∈ (components path.toList).tail.dropLast, n ≠ ""

def pathStart (parent : InodeType) (path : Name) : InodeType := if path.toList.head? = some '/' then Cluster.root else parent

namespace Cluster
variable (cfg : Config) (w : Cluster)

def mapping (parent : InodeType) (path : Name) : Status × Option InodeType :=
  match fosPathOwnern cfg parent path with
  | .ok server => (w.servers server).mapping parent.id path
  | .error _ => (.invalid, none)

def follow : InodeType → List Name → Status × InodeType
  | p, [] => (.ok, p)
  | p, n :: ns =>
    if n = "." then follow p ns
    else
      match w.mapping cfg p n with
      | (_, some child) => follow child ns
      | (st, none) => (st, p)

/-- The directories of a name space: the root and what entries lead to, each with an id of its own. -/
structure Directories (D : InodeType → Prop) : Prop where
  isDir : ∀ p, D p → p.type.isDir = true
  root : D root
  own : ∀ p q, D p → D q → p.id = q.id → p = q
  entry : ∀ p n st x, D p → w.mapping cfg p n = (st, some x) → x.type.isDir = true → D x

/-- Every entry of a cache is the mapping at the server that owns it; the empty name of the root is the root itself. -/
def CacheRight (D : InodeType → Prop) (cache : DirCache) : Prop :=
  ∀ p, D p → ∀ n x, cache.lookup (p.id, n) = some x → if p.id = 0 ∧ n = "" then x = Cluster.root else w.mapping cfg p n = (.ok, some x)

def ThroughDirs (parent : InodeType) (path : Name) : Prop :=
  ∀ names x, names <+: pathNames path → names ≠ pathNames path → w.follow cfg (pathStart parent path) names = (.ok, x) → x.type.isDir = true

end Cluster
end Faux
