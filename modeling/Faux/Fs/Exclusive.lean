import Faux.Fs.Isolation
import Faux.Fs.NameSpace

/-! # Exclusive create

Clients that open one name with `O_CREAT` and `O_EXCL`. The entry belongs to one server; the new inode lives on the
same server, when one request does everything, or on another one, when it takes three. -/

namespace Faux
open Lib

def Op.exclusive (parent : InodeType) (name : Name) : Op → Prop
  | .open p n flags _ => p = parent ∧ n = name ∧ flags.creat = true ∧ flags.excl = true ∧ flags.directory = false
  | _ => False

namespace Cluster

/-- A directory in which the name may be created: it is a directory wherever it is known, and the name is known
    to its owner alone and is not a symbolic link. -/
structure Opens (w : Cluster) (i : Nat) (parent : FileId) (name : Name) : Prop where
  ids : ∀ j, (w.servers j).id = j
  usable : ∀ j, (w.servers j).Usable parent
  owner : ∀ j, w.Named j parent name → j = i
  notLink : ∀ j x, (w.servers j).entry parent name = some x → x.type ≠ .symlink

/-- Ids of new inodes are not in use, blocks that a client asks for are there, and an entry is added by a request
    of its own only when there is none. -/
def exclRules (parent : InodeType) (name : Name) : FsRules where
  calls _ _ o := o.exclusive parent name
  acts v _ _ a :=
    match a with
    | .rpc i q => (v.world.servers i).FreshIds q ∧
        (∀ p n x overwrite, q = .addMap p n x overwrite → ¬v.world.Named i p.id n) ∧
        ∀ id offset count, q = .blocks id offset count → (v.world.servers i).Covers id offset count
    | _ => True

def checkExcl (w : Cluster) : Action → Bool
  | .rpc i q => (w.servers i).checkFresh q && (w.servers i).checkCovers q &&
    match q with
    | .addMap p n _ _ => (w.servers i).entry p.id n = none
    | _ => true
  | _ => true

end Cluster

instance (parent : InodeType) (name : Name) : DecidablePred (Op.exclusive parent name)
  | .open p n flags _ => inferInstanceAs
      (Decidable (p = parent ∧ n = name ∧ flags.creat = true ∧ flags.excl = true ∧ flags.directory = false))
  | .unlink .. | .mkdir .. | .rename .. | .rmdir .. | .lookup .. | .read .. | .write .. | .truncate .. | .close .. =>
    inferInstanceAs (Decidable False)

/-- At most one call has succeeded, none when the name was there before, and all others have returned `EXIST`. -/
structure FsConf.Exclusive (s : FsConf) (i : Nat) (parent : FileId) (name : Name) : Prop where
  once : (s.log.filter fun r => r.result = Status.ok).length ≤ 1
  absent : ∀ r ∈ s.log, r.result = Status.ok → ¬r.before.Named i parent name
  others : ∀ r ∈ s.log, r.result = Status.ok ∨ r.result = Status.exist

end Faux
