import Faux.Fs.System

/-! The actions of lookups and of the loops over open files. A lookup reads and writes the directory cache of the
    client and asks servers to resolve names, nothing else. -/

namespace Faux
open Lib

variable {cfg : Config} {P : Action → Prop} {parent : InodeType} {path : Name} {cached : Bool}

def Walks : Action → Prop
  | .rpc _ (.resolve ..) | .check | .find .. | .add .. | .remove .. => True
  | _ => False

theorem all_ensure {b : Bool} : (ensure b).All P := by
  cases b <;> trivial

theorem all_perform {a : Action} (holds : P a) : (perform a).All P := ⟨holds, fun _ => trivial⟩

theorem walks_resolve : (fosResolve parent path).All Walks := by
  unfold fosResolve
  split_ifs
  · trivial
  · trivial
  · exact all_perform trivial

theorem walks_resolveLive :
    (resolveLive cfg parent path cached).All Walks := by
  refine Prog.All.bind (Prog.all_lift _) fun server => Prog.All.bind walks_resolve fun r => ?_
  rcases r with ⟨retval, _ | child⟩
  · trivial
  · simp only
    split_ifs
    · exact ⟨trivial, fun _ => trivial⟩
    · trivial

theorem walks_resolveCached {ended : Bool} :
    (resolveCached cfg parent path ended cached).All Walks := by
  unfold resolveCached
  split_ifs
  · trivial
  · trivial
  · refine Prog.All.bind (all_perform trivial) fun found => ?_
    cases found with
    | some child => trivial
    | none => exact walks_resolveLive

theorem walks_pieces {pieces : List (Name × Bool)} :
    ∀ {parent : InodeType} {cached : Bool}, (fosResolvePieces cfg parent cached pieces).All Walks := by
  induction pieces with
  | nil => exact fun {_ _} => trivial
  | cons p rest ih =>
    intro parent cached
    refine Prog.All.bind walks_resolveCached fun found => ?_
    split_ifs
    · exact ih
    · trivial

theorem walks_lookup : (fosLookup cfg parent path cached).All Walks :=
  Prog.All.bind (all_perform trivial) fun _ => walks_pieces

theorem walks_lookupParent :
    (fosLookupParent cfg parent path cached).All Walks := by
  refine Prog.All.bind (all_perform trivial) fun _ => ?_
  split_ifs
  · trivial
  · refine Prog.All.bind walks_pieces fun found => ?_
    split_ifs <;> trivial

theorem walks_clearPieces {names : List Name} : ∀ {parent : InodeType}, (clearPieces cfg parent names).All Walks := by
  induction names with
  | nil => exact fun {_} => trivial
  | cons name rest ih =>
    intro parent
    cases rest with
    | nil => exact all_perform trivial
    | cons name' rest =>
      refine Prog.All.bind walks_resolveCached fun found => Prog.All.bind (all_perform trivial) fun _ => ?_
      split_ifs
      · exact ih
      · trivial

theorem walks_clearCache : (fosClearCache cfg parent path).All Walks := by
  unfold fosClearCache
  by_cases root : path = "/"
  · rw [if_pos root]
    trivial
  · rw [if_neg root]
    exact walks_clearPieces

/-! ### Loops over open files -/

section
variable {f : AppFile} {h : Nat}

theorem all_copyInLoop (copies : ∀ server offset data, P (.copyIn server offset data)) :
    ∀ {fuel offset : Nat} {buf : List UInt8}, (f.copyInLoop fuel offset buf).All P := by
  intro fuel
  induction fuel with
  | zero => exact fun {_ _} => trivial
  | succ fuel ih =>
    intro offset buf
    unfold AppFile.copyInLoop
    split_ifs
    · trivial
    · simp only
      split
      · trivial
      · exact ⟨copies _ _ _, fun _ => ih⟩

theorem all_copyOutLoop (copies : ∀ server offset count, P (.copyOut server offset count)) :
    ∀ {fuel offset count : Nat}, (f.copyOutLoop fuel offset count).All P := by
  intro fuel
  induction fuel with
  | zero => exact fun {_ _} => trivial
  | succ fuel ih =>
    intro offset count
    unfold AppFile.copyOutLoop
    split_ifs
    · trivial
    · simp only
      split
      · trivial
      · exact Prog.All.bind (all_perform (copies _ _ _)) fun _ => Prog.All.bind ih fun _ => trivial

theorem all_fdWriteLoop (writes : ∀ data, P (.rpc f.inode.server (.write f.fd data))) :
    ∀ {fuel written : Nat} {buf : List UInt8}, (f.fdWriteLoop fuel written buf).All P := by
  intro fuel
  induction fuel with
  | zero => exact fun {_ _} => trivial
  | succ fuel ih =>
    intro written buf
    unfold AppFile.fdWriteLoop
    split
    · trivial
    · refine Prog.All.bind (all_perform (writes _)) fun r => ?_
      rcases r with ⟨ret, n⟩
      simp only
      split
      · trivial
      · split
        · trivial
        · exact ih

theorem all_fdReadLoop (reads : ∀ n, P (.rpc f.inode.server (.read f.fd n))) :
    ∀ {fuel count : Nat} {data : List UInt8}, (f.fdReadLoop fuel data count).All P := by
  intro fuel
  induction fuel with
  | zero => exact fun {_ _} => trivial
  | succ fuel ih =>
    intro count data
    unfold AppFile.fdReadLoop
    split
    · trivial
    · refine Prog.All.bind (all_perform (reads _)) fun r => ?_
      rcases r with ⟨ret, n, new⟩
      simp only
      split
      · trivial
      · split
        · trivial
        · exact ih

theorem all_clearBlocks (copies : ∀ server offset data, P (.copyIn server offset data)) {server : Nat} {list : List Nat} :
    (AppFile.clearBlocks server list).All P := by
  induction list with
  | nil => trivial
  | cons b bs ih => exact ⟨copies _ _ _, fun _ => ih⟩

theorem all_getBlocklist {inode : InodeType} {offset count : Nat} (asks : P (.rpc inode.server (.blocks inode.id offset count))) :
    (AppFile.getBlocklist inode offset count).All P :=
  Prog.All.bind (all_perform asks) fun _ => Prog.All.bind all_ensure fun _ => trivial

theorem all_cacheLoop (asks : ∀ i id offset count, P (.rpc i (.blocks id offset count))) (sets : ∀ g, P (.setFile h g)) :
    ∀ {fuel : Nat} {f : AppFile} {n count : Nat}, (AppFile.cacheLoop h fuel f n count).All P := by
  intro fuel
  induction fuel with
  | zero => exact fun {_ _ _} => trivial
  | succ fuel ih =>
    intro f n count
    unfold AppFile.cacheLoop
    split_ifs
    · exact Prog.All.bind (all_getBlocklist (asks _ _ _ _)) fun list => Prog.All.bind (all_perform (sets _)) fun _ => ih
    · trivial

theorem all_read {count : Nat} (sets : ∀ offset, P (.setFile h { f.touch with offset }))
    (copies : ∀ server offset count, P (.copyOut server offset count)) (reads : ∀ i fd n, P (.rpc i (.read fd n))) :
    (f.read cfg h count).All P := by
  refine Prog.All.bind (all_perform (sets _)) fun _ => ?_
  split
  · split
    · exact Prog.All.bind (all_copyOutLoop copies) fun _ => Prog.All.bind (all_perform (sets _)) fun _ => trivial
    · trivial
  · exact all_fdReadLoop fun _ => reads _ _ _

theorem all_close (deletes : P (.deleteFile h)) (flushes : f.state ≠ .invalid → P (.rpc f.inode.server (.flush f.fd f.size f.offset)))
    (closes : P (.rpc f.inode.server (.close f.fd none none))) : (f.close cfg h).All P := by
  have last : (do
      let retval ← rpc f.inode.server (.close f.fd none none)
      ensure (retval = .ok)
      .ret .ok : FsProg Status).All P :=
    Prog.All.bind (all_perform closes) fun _ => Prog.All.bind all_ensure fun _ => trivial
  refine Prog.All.bind (all_perform deletes) fun _ => ?_
  split_ifs with exclusive
  · exact Prog.All.bind (all_perform (flushes (by simp [exclusive.2]))) fun _ => last
  · exact last

end
end Faux
