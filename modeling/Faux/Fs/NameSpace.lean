import Faux.Fs.Descriptors
import Faux.Fs.System

/-! # The name space

What a server holds, seen as a name space: the objects that have not been removed, and the entries of the
directories. Each request changes it in one of a few ways. -/

namespace Faux

inductive Kind where
  | file
  | dir
  | link
  deriving DecidableEq

namespace VFile

def kind : VFile → Kind
  | .file _ => .file
  | .dir _ => .dir
  | .symlink _ => .link

def entry : VFile → Name → Option InodeType
  | .dir d, name => (d.children.lookup name).map (·.inode)
  | _, _ => none

end VFile

@[ext] structure Names where
  kind : FileId → Option Kind
  entry : FileId → Name → Option InodeType

namespace Names

def add (N : Names) (id : FileId) (k : Kind) : Names := { N with kind := Function.update N.kind id (some k) }

def lazy (N : Names) (id : FileId) : Names := if N.kind id = none then N.add id .dir else N

def bind (N : Names) (dir : FileId) (name : Name) (x : InodeType) : Names :=
  { N with entry := Function.update N.entry dir (Function.update (N.entry dir) name (some x)) }

def drop (N : Names) (id : FileId) : Names where
  kind := Function.update N.kind id none
  entry := Function.update N.entry id fun _ => none

end Names

namespace Server

/-- An orphan has been removed from the name space. -/
def namesOf (files : AList fun _ : FileId => VFile) (orphans : List InodeType) : Names where
  kind id := if orphans.any (·.id = id) then none else (files.lookup id).map VFile.kind
  entry dir name := (files.lookup dir).bind fun v => v.entry name

def names (s : Server) : Names := namesOf s.files s.orphans

def entry (s : Server) (dir : FileId) (name : Name) : Option InodeType := s.names.entry dir name

structure Usable (s : Server) (id : FileId) : Prop where
  dir : ∀ v, s.files.lookup id = some v → v.kind = .dir
  orphan : ¬s.Orphan id

def FreshIds (s : Server) (q : Request) : Prop := ∀ u, s.allocIn q = some u → u.Unused u.newId

def checkFresh (s : Server) (q : Request) : Bool := (s.allocIn q).all fun u => u.unused u.newId

end Server

structure Component (name : Name) : Prop where
  nonempty : name ≠ ""
  noSlash : '/' ∉ name.toList

namespace Cluster

def Named (w : Cluster) (i : Nat) (dir : FileId) (name : Name) : Prop := (w.servers i).entry dir name ≠ none

end Cluster
end Faux
