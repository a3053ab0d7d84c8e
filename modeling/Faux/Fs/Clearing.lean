import Faux.Fs.System

/-! # Clearing a path

The two calls of `_fosClearCache` in `sys/fs/lib/lib.cpp`, each before the path is looked up again, and what
happens to the cache of a client in the meantime. -/

namespace Faux
open Lib

/-- The calls that clear a path and look it up again. For `fosFStatAt64_` the directory that `fosLookupParent`
    has found is given. -/
inductive Clearer where
  | fileOpen
  | fstatAt (found : InodeType)

namespace Clearer

/-- The directory and the path that are cleared. `fosFileOpen` has saved those it was called with;
    `fosFStatAt64_` passes on what `fosLookupParent` has left of them. -/
def target (parent : InodeType) (path : Name) : Clearer → InodeType × Name
  | fileOpen => (parent, path)
  | fstatAt found =>
    let rest := (splitParent path).2
    -- the slash before an empty rest is taken for one at its end, as it is for a single slash
    (found, if rest = "" then "/" else rest)

def clear (cfg : Config) (parent : InodeType) (path : Name) (clearer : Clearer) : FsProg Unit :=
  fosClearCache cfg (clearer.target parent path).1 (clearer.target parent path).2

/-- The path that is looked up again: a slash that was taken for one at the end of nothing is overwritten. -/
def again (path : Name) : Clearer → Name
  | fileOpen => clearedPath path
  | fstatAt _ =>
    let rest := (splitParent path).2
    if rest = "" ∨ rest = "/" then String.ofList path.toList.dropLast else path

end Clearer

namespace DirCache

/-- What an action can do to the cache of its client. The servers may answer anything, and notifications can
    come with their answers. -/
def Does (cache : DirCache) : (a : Action) → DirCache → a.Reply → Prop
  | .rpc _ _, cache', _ => ∃ notes, cache' = Client.notified cache notes
  | .check, cache', _ => ∃ notes, cache' = Client.notified cache notes
  | .find parent path, cache', child => cache' = cache ∧ child = cache.lookup (parent, path)
  | .add parent path child, cache', _ => cache' = cache.add parent path child
  | .remove parent path, cache', _ => cache' = cache.remove parent path
  | .newFile _, cache', _ => cache' = cache
  | .getFile _, cache', _ => cache' = cache
  | .setFile _ _, cache', _ => cache' = cache
  | .deleteFile _, cache', _ => cache' = cache
  | .copyIn _ _ _, cache', _ => cache' = cache
  | .copyOut _ _ _, cache', _ => cache' = cache
  | .pick _, cache', _ => cache' = cache

/-- `DirCache::resolve` gives back the directory: a dot, or nothing after the last slash. -/
def Skipped (piece : Name × Bool) : Prop := piece.1 = "." ∨ piece.1 = "" ∧ piece.2 = true

instance (piece : Name × Bool) : Decidable (Skipped piece) := inferInstanceAs (Decidable (_ ∨ _ ∧ _))

/-- The steps of a path through the cache: the entries that are followed, up to a component without one. -/
def steps (cache : DirCache) (parent : InodeType) : List (Name × Bool) → List PathPair
  | [] => []
  | piece :: rest =>
    if Skipped piece then steps cache parent rest
    else
      match cache.lookup (parent.id, piece.1) with
      | none => []
      | some child => (parent.id, piece.1) :: steps cache child rest

end DirCache
end Faux
