import Faux.Fs.PathBuffer
import Faux.Theorems.Fs.Orphans
import Faux.Theorems.Fs.Paths

/-! Path buffers: what a lookup leaves of the memory and where its pointer ends, that the calls do what they do for the path as a
    string, and which of them put back what they have overwritten. -/

namespace Faux
open Lib Prog

variable {cfg : Config} {parent : InodeType} {m : List Char} {path : Nat} {cached : Bool} {fuel : Nat}

namespace PathBuffer
variable {s : List Char} {name : Name} {r : Found × Name}

def body (s : List Char) : List Char := if s.length > 1 ∧ s.getLast? = some '/' then s.dropLast else s

def restAt (m : List Char) (path : Nat) : Nat :=
  match strrchr '/' (body (strAt m path)) with
  | some sep => path + sep + 1
  | none => path

theorem body_append : body s ++ s.drop (body s).length = s := by
  unfold body
  split_ifs with ends
  · obtain ⟨front, rfl⟩ := List.getLast?_eq_some_iff.mp ends.2
    rw [List.dropLast_concat, List.drop_left]
  · rw [List.drop_length, List.append_nil]

theorem splitParent_ofList : splitParent (String.ofList s) = ((components (body s)).dropLast,
    String.ofList (((components (body s)).getLast?.map String.toList).getD [] ++ s.drop (body s).length)) := by
  simp [splitParent, body]

theorem splitParent_some {sep : Nat} (found : strrchr '/' (body s) = some sep) :
    splitParent (String.ofList s) = (components ((body s).take sep), String.ofList (s.drop (sep + 1))) := by
  obtain ⟨split, noSlash⟩ := of_strrchr found
  have names : components (body s) = components ((body s).take sep) ++ [String.ofList ((body s).drop (sep + 1))] := by
    conv_lhs => rw [split]
    rw [components_append_cons, components_of_noSlash noSlash]
  have within : sep + 1 ≤ (body s).length := by grind
  rw [splitParent_ofList, names, List.dropLast_concat, List.getLast?_concat, Option.map_some, Option.getD_some, String.toList_ofList,
    ← List.drop_append_of_le_length within, body_append]

theorem splitParent_none (noSlash : strrchr '/' (body s) = none) :
    splitParent (String.ofList s) = ([], String.ofList s) := by
  rw [splitParent_ofList, components_of_noSlash (strrchr_eq_none.mp noSlash)]
  simp [body_append]

/-! ### Lookup -/

theorem getElem?_head (some : strAt m path ≠ []) : (strAt m path).head? = m[path]? := by
  rw [List.head?_eq_getElem?, getElem?_strAt (List.length_pos_iff.mpr some), Nat.add_zero]

theorem getElem?_last (some : strAt m path ≠ []) : (strAt m path).getLast? = m[path + strlen m path - 1]? := by
  have pos : 0 < strlen m path := List.length_pos_iff.mpr some
  have at' : path + strlen m path - 1 = path + (strlen m path - 1) := by omega
  rw [List.getLast?_eq_getElem?, at', ← getElem?_strAt (by omega)]
  rfl

theorem strrchr_edited (some : strAt m path ≠ []) :
    let last := path + strlen m path - 1
    let lastsep := decide (strlen m path > 1 ∧ m[last]? = .some '/')
    let edited := if lastsep then m.set last '0' else m
    strrchr '/' (strAt edited path) = strrchr '/' (body (strAt m path)) ∧
      (∀ sep, strrchr '/' (body (strAt m path)) = .some sep → (strAt edited path).take sep = (body (strAt m path)).take sep) ∧
      (if lastsep then edited.set last '/' else edited) = m := by
  intro last lastsep edited
  by_cases ends : strlen m path > 1 ∧ m[last]? = .some '/'
  · have isSep : lastsep = true := decide_eq_true ends
    have isBody : body (strAt m path) = (strAt m path).dropLast := if_pos ⟨ends.1, (getElem?_last some).trans ends.2⟩
    have at' : last = path + (strlen m path - 1) := by
      have := ends.1
      show path + strlen m path - 1 = _
      omega
    have string : strAt edited path = (strAt m path).dropLast ++ ['0'] := by
      show strAt (if lastsep then m.set last '0' else m) path = _
      have lt : strlen m path - 1 < (strAt m path).length := Nat.sub_lt (Nat.lt_trans Nat.one_pos ends.1) Nat.one_pos
      have past : (strAt m path).length ≤ strlen m path - 1 + 1 := Nat.le_add_of_sub_le (Nat.le_refl _)
      rw [if_pos isSep, at', strAt_set lt (by decide), List.set_eq_take_append_cons_drop, if_pos lt, List.dropLast_eq_take,
        List.drop_eq_nil_of_le past]
      rfl
    rw [string, isBody, strrchr_append (by decide), if_pos isSep]
    refine ⟨rfl, fun sep found => ?_, ?_⟩
    · obtain ⟨split, -⟩ := of_strrchr found
      have length := congrArg List.length split
      simp only [List.length_append, List.length_cons, List.length_take, List.length_drop] at length
      exact List.take_append_of_le_length (by omega)
    · grind [set_set_self]
  · have notSep : ¬lastsep = true := fun isSep => ends (of_decide_eq_true isSep)
    have isBody : body (strAt m path) = strAt m path := if_neg fun both => ends ⟨both.1, (getElem?_last some).symm.trans both.2⟩
    have same : edited = m := if_neg notSep
    rw [same, isBody, if_neg notSep]
    exact ⟨rfl, fun _ _ => rfl, rfl⟩

theorem fosLookupParentAt_eq : fosLookupParentAt cfg parent m path cached =
    fosLookupParent cfg parent (nameAt m path) cached >>= fun r => .ret (r.1, restAt m path, m) := by
  unfold fosLookupParentAt fosLookupParent
  rw [Prog.bind_assoc]
  refine congrArg (perform .check >>= ·) (funext fun _ => ?_)
  by_cases empty : strAt m path = []
  · have noName : nameAt m path = "" := by
      rw [nameAt, empty]
    have atPath : restAt m path = path := by
      rw [restAt, empty]
      rfl
    simp only [Prog.ret_bind, if_pos empty, if_pos noName, atPath]
  · have someName : nameAt m path ≠ "" := fun none => empty (String.ofList_eq_empty_iff.mp none)
    obtain ⟨sameSep, samePieces, restored⟩ := strrchr_edited empty
    have start : startDir parent (nameAt m path) =
        if m[path]? = some '/' then { parent with id := 0, type := .dir } else parent := by
      rw [startDir, nameAt, String.toList_ofList, getElem?_head empty]
    simp only [if_neg empty, if_neg someName, start]
    simp only [restored]
    rw [sameSep]
    cases isSep : strrchr '/' (body (strAt m path)) with
    | some sep =>
      have atRest : restAt m path = path + sep + 1 := by rw [restAt, isSep]
      rw [nameAt, splitParent_some isSep]
      simp only [samePieces sep isSep, atRest]
      rw [Prog.bind_assoc]
      refine congrArg (_ >>= ·) (funext fun found => ?_)
      simp only [lookedUp]
      split_ifs <;> rfl
    | none =>
      have atRest : restAt m path = path := by rw [restAt, isSep]
      rw [nameAt, splitParent_none isSep]
      simp only [atRest, List.map_nil, fosResolvePieces, Prog.ret_bind, lookedUp]
      split_ifs <;> rfl

theorem snd_of_yields (yields : (fosLookupParent cfg parent name cached).Yields r) :
    r.2 = (splitParent name).2 := by
  unfold fosLookupParent at yields
  obtain ⟨-, -, yields⟩ := yields_bind.mp yields
  by_cases empty : name = ""
  · rw [if_pos empty] at yields
    rw [← congrArg Prod.snd yields, empty]
    rfl
  · rw [if_neg empty] at yields
    obtain ⟨found, -, yields⟩ := yields_bind.mp yields
    by_cases isDir : found.inode.type.isDir = true
    · rw [if_pos isDir] at yields
      exact congrArg Prod.snd yields.symm
    · rw [if_neg isDir] at yields
      exact congrArg Prod.snd yields.symm

theorem sep_lt {sep : Nat} (found : strrchr '/' (body s) = some sep) : sep < s.length := by
  obtain ⟨split, -⟩ := of_strrchr found
  have length := congrArg List.length split
  have whole := congrArg List.length (body_append (s := s))
  simp only [List.length_append, List.length_cons, List.length_take, List.length_drop] at length whole
  omega

theorem nameAt_restAt : nameAt m (restAt m path) = (splitParent (nameAt m path)).2 := by
  unfold restAt nameAt
  cases isSep : strrchr '/' (body (strAt m path)) with
  | some sep =>
    have at' : path + sep + 1 = path + (sep + 1) := Nat.add_assoc ..
    simp only [splitParent_some isSep, at', strAt_add (sep_lt isSep)]
  | none => rw [splitParent_none isSep]

theorem rest_eq (yields : (fosLookupParent cfg parent (nameAt m path) cached).Yields r) :
    r.2 = nameAt m (restAt m path) := by
  rw [snd_of_yields yields, nameAt_restAt]

theorem lookupAt_bind {α : Type} {f : Found × Nat × List Char → FsProg α} : (fosLookupParentAt cfg parent m path cached >>= f) =
    fosLookupParent cfg parent (nameAt m path) cached >>= fun r => f (r.1, restAt m path, m) := by
  rw [fosLookupParentAt_eq, Prog.bind_assoc]
  rfl

/-! ### Calls that leave the memory alone -/

def unchanged {α : Type} (m : List Char) (p : FsProg α) : FsProg (α × List Char) := p >>= fun x => .ret (x, m)

section
variable {α β : Type}

@[simp] theorem unchanged_ret {x : α} : unchanged m (.ret x) = .ret (x, m) := rfl

@[simp] theorem unchanged_fail {e : Fault} : unchanged m (.fail e : FsProg α) = .fail e := rfl

@[simp] theorem unchanged_bind {p : FsProg β} {f : β → FsProg α} : unchanged m (p >>= f) = p >>= fun x => unchanged m (f x) :=
  Prog.bind_assoc

@[simp] theorem unchanged_ite {c : Prop} [Decidable c] {p q : FsProg α} :
    unchanged m (if c then p else q) = if c then unchanged m p else unchanged m q := by
  split_ifs <;> rfl

theorem eq_of_unchanged {p : FsProg α} {x : α} {m' : List Char} (yields : (unchanged m p).Yields (x, m')) : m' = m := by
  obtain ⟨v, -, yields⟩ := yields_bind.mp yields
  exact congrArg Prod.snd yields.symm

end

theorem fosUnlinkAt_eq : fosUnlinkAt cfg parent m path = unchanged m (fosUnlink cfg parent (nameAt m path)) := by
  rw [fosUnlinkAt, fosUnlink, lookupAt_bind]
  simp only [unchanged_bind, unchanged_ite, unchanged_ret]
  refine Prog.bind_congr fun r yields => ?_
  rw [rest_eq yields]

theorem fosTruncateAt_eq {len : Nat} :
    fosTruncateAt cfg fuel parent m path len = unchanged m (fosTruncate cfg (fuel + 1) parent (nameAt m path) len) := by
  rw [fosTruncateAt, fosTruncate, lookupAt_bind]
  simp only [unchanged_bind, unchanged_ite, unchanged_ret]
  refine Prog.bind_congr fun r yields => ?_
  rw [rest_eq yields]
  rfl

theorem restAt_of_noSlash (noSlash : '/' ∉ strAt m path) : restAt m path = path := by
  have none : strrchr '/' (body (strAt m path)) = none := strrchr_eq_none.mpr fun mem => noSlash (by
    rw [← body_append (s := strAt m path)]
    exact List.mem_append_left _ mem)
  rw [restAt, none]

theorem renameParentAt_eq : renameParentAt cfg parent m path =
    renameParent cfg parent (nameAt m path) >>= fun r => .ret (r.1, restAt m path, m) := by
  unfold renameParentAt renameParent
  rw [nameAt, String.toList_ofList]
  split_ifs with slash
  · exact fosLookupParentAt_eq
  · rw [restAt_of_noSlash slash]
    rfl

theorem renameRest_eq (yields : (renameParent cfg parent (nameAt m path)).Yields r) :
    r.2 = nameAt m (restAt m path) := by
  unfold renameParent at yields
  rw [nameAt, String.toList_ofList] at yields
  split_ifs at yields with slash
  · exact rest_eq yields
  · rw [restAt_of_noSlash slash]
    exact congrArg Prod.snd yields.symm

theorem fosRenameAt_eq {oldPath newPath : Nat} : fosRenameAt cfg fuel parent m oldPath newPath =
    unchanged m (fosRename cfg fuel parent (nameAt m oldPath) (nameAt m newPath)) := by
  rw [fosRenameAt, fosRename]
  simp only [renameParentAt_eq, Prog.bind_assoc, Prog.ret_bind, unchanged_bind, unchanged_ite, unchanged_ret]
  refine Prog.bind_congr fun old isOld => ?_
  rw [renameRest_eq isOld]
  split_ifs
  · rfl
  refine Prog.bind_congr fun new isNew => ?_
  rw [renameRest_eq isNew]
  rfl

/-! ### A slash at the end that is overwritten -/

def stripped (m : List Char) (path : Nat) : List Char :=
  if decide (m[path + strlen m path - 1]? = some '/') then m.set (path + strlen m path - 1) nul else m

theorem strAt_stripped (some : strAt m path ≠ []) : strAt (stripped m path) path =
    if m[path + strlen m path - 1]? = .some '/' then (strAt m path).dropLast else strAt m path := by
  have pos : 0 < strlen m path := List.length_pos_iff.mpr some
  have at' : path + strlen m path - 1 = path + (strlen m path - 1) := by omega
  unfold stripped
  simp only [decide_eq_true_eq]
  split_ifs with ends
  · rw [at', strAt_set_nul (Nat.sub_lt pos Nat.one_pos), List.dropLast_eq_take]
    rfl
  · rfl

theorem stripped_eq (noSlash : m[path + strlen m path - 1]? ≠ some '/') : stripped m path = m :=
  if_neg fun isSep => noSlash (of_decide_eq_true isSep)

/-- What is overwritten is a slash of the path: before an empty path there is none. -/
def Within (m : List Char) (path : Nat) : Prop := strAt m path = [] → m[path + strlen m path - 1]? ≠ some '/'

theorem nameAt_stripped (within : Within m path) : nameAt (stripped m path) path = stripSlash (nameAt m path) := by
  by_cases empty : strAt m path = []
  · rw [stripped_eq (within empty), nameAt, empty]
    rfl
  · rw [nameAt, strAt_stripped empty, stripSlash, nameAt, String.toList_ofList, getElem?_last empty]
    split_ifs <;> rfl

theorem restAt_add : ∃ k ≤ strlen m path, restAt m path = path + k := by
  unfold restAt
  cases isSep : strrchr '/' (body (strAt m path)) with
  | some sep => exact ⟨sep + 1, sep_lt isSep, Nat.add_assoc ..⟩
  | none => exact ⟨0, Nat.zero_le _, rfl⟩

theorem restored {k : Nat} (within : Within m path) (le : k ≤ strlen (stripped m path) path) :
    (if decide (m[path + strlen m path - 1]? = .some '/') then
      (stripped m path).set (path + k + strlen (stripped m path) (path + k)) '/' else stripped m path) = m := by
  by_cases ends : m[path + strlen m path - 1]? = .some '/'
  · have some : strAt m path ≠ [] := fun empty => within empty ends
    have pos : 0 < strlen m path := List.length_pos_iff.mpr some
    have length : strlen (stripped m path) path = strlen m path - 1 := by
      rw [strlen, strAt_stripped some, if_pos ends, List.length_dropLast]
      rfl
    rw [if_pos (decide_eq_true ends), add_strlen le, length, stripped, if_pos (decide_eq_true ends), ← Nat.add_sub_assoc pos,
      set_set_self ends]
  · grind [stripped_eq]

def mkdirStripped (cfg : Config) (parent : InodeType) (path : Name) (mode : Nat) : FsProg Status := do
  let (found, rest) ← fosLookupParent cfg parent path false
  if found.retval ≠ .ok then .ret found.retval
  else do
    let dirEntryServer ← Prog.lift (fosPathOwner cfg found.inode rest)
    let server := mkdirServer cfg found.inode rest dirEntryServer
    let (retval, child) ← fosCreate server found.inode rest { directory := true } mode
    if retval ≠ .ok then .ret retval
    else
      match child with
      | some child => do
        mkdirDotDot cfg server found.inode child
        mkdirMap server found.inode rest child
      | none => .fail .undefined

theorem fosMkdirAt_eq {mode : Nat} (within : Within m path) : fosMkdirAt cfg parent m path mode = unchanged m
    (if parent.id = 0 ∧ nameAt m path = "/" then .ret .ok else if nameAt m path = "." then .ret .ok
    else if path + strlen m path = 0 then .fail .undefined else mkdirStripped cfg parent (stripSlash (nameAt m path)) mode) := by
  rw [fosMkdirAt]
  simp only [unchanged_ite, unchanged_ret, unchanged_fail]
  refine congrArg (ite _ _) (congrArg (ite _ _) (congrArg (ite _ _) ?_))
  obtain ⟨k, le, isRest⟩ := @restAt_add (stripped m path) path
  have back := restored within le
  rw [← isRest] at back
  show (fosLookupParentAt cfg parent (stripped m path) path false >>= _) = _
  rw [lookupAt_bind, ← nameAt_stripped within, mkdirStripped]
  simp only [unchanged_bind, unchanged_ite, unchanged_ret, back]
  refine Prog.bind_congr fun r yields => ?_
  rw [rest_eq yields]
  split_ifs
  · rfl
  refine congrArg (_ >>= ·) (funext fun server => congrArg (_ >>= ·) (funext fun reply => ?_))
  split_ifs
  · rfl
  cases reply.2 with
  | none => rfl
  | some child => exact unchanged_bind.symm

def rmdirStripped (cfg : Config) (fuel : Nat) (parent : InodeType) (path : Name) : FsProg Status := do
  let (found, rest) ← fosLookupParent cfg parent path false
  if found.retval ≠ .ok then .ret found.retval
  else do
    let dirEntryServer ← Prog.lift (fosPathOwner cfg found.inode rest)
    let child ← fosLookup cfg found.inode rest false
    if child.retval ≠ .ok then .ret child.retval
    else do
      let (committed, retval) ← rmdirInode cfg fuel dirEntryServer found.inode rest child.inode
      if committed ∧ retval = .ok then do
        perform (.remove found.inode.id rest)
        perform (.remove child.inode.id "..")
        .ret retval
      else .ret retval

theorem fosRmdirAt_eq (noSlash : m[path + strlen m path - 1]? ≠ some '/') : fosRmdirAt cfg fuel parent m path =
    unchanged m (if path + strlen m path = 0 then .fail .undefined else rmdirStripped cfg fuel parent (stripSlash (nameAt m path))) := by
  have notSep : decide (m[path + strlen m path - 1]? = some '/') = false := decide_eq_false noSlash
  have same : nameAt m path = stripSlash (nameAt m path) := by rw [← nameAt_stripped fun _ => noSlash, stripped_eq noSlash]
  rw [fosRmdirAt, ← same, rmdirStripped]
  simp only [unchanged_ite, unchanged_fail, notSep, Bool.false_eq_true, if_false, ite_self]
  refine congrArg (ite _ _) ?_
  rw [lookupAt_bind]
  simp only [unchanged_bind, unchanged_ite, unchanged_ret]
  refine Prog.bind_congr fun r yields => ?_
  rw [rest_eq yields]

/-! ### Open -/

theorem clearPiecesAt_bind {α : Type} {f : FsProg α} : ∀ {names : List Name} {parent : InodeType} {path : Nat},
    (clearPiecesAt cfg parent path names >>= fun _ => f) = clearPieces cfg parent names >>= fun _ => f
  | [], _, _ => rfl
  | [_], _, _ => rfl
  | name :: name' :: names, parent, path => by
    rw [clearPiecesAt, clearPieces, Prog.bind_assoc, Prog.bind_assoc]
    · refine congrArg (_ >>= ·) (funext fun found => ?_)
      rw [Prog.bind_assoc, Prog.bind_assoc]
      refine congrArg (_ >>= ·) (funext fun _ => ?_)
      split_ifs
      · exact clearPiecesAt_bind
      · rfl
    all_goals exact List.cons_ne_nil _ _

theorem clearPiecesAt_within : ∀ (n : Nat) {s : List Char} {parent : InodeType} {path p : Nat}, s.length ≤ n →
    (clearPiecesAt cfg parent path (components s)).Yields p → ∃ k ≤ s.length, p = path + k := by
  intro n
  induction n with
  | zero =>
    intro s parent path p le yields
    obtain rfl := List.length_eq_zero_iff.mp (Nat.le_zero.mp le)
    obtain ⟨-, -, yields⟩ := yields_bind.mp yields
    exact ⟨0, Nat.le_refl 0, yields.symm⟩
  | succ n ih =>
    intro s parent path p le yields
    by_cases slash : '/' ∈ s
    · obtain ⟨front, back, rfl, first⟩ := List.eq_append_cons_of_mem slash
      simp only [List.length_append, List.length_cons] at le ⊢
      rw [components_append_cons, components_of_noSlash first, List.singleton_append, clearPiecesAt] at yields
      · obtain ⟨found, -, yields⟩ := yields_bind.mp yields
        obtain ⟨-, -, yields⟩ := yields_bind.mp yields
        rw [String.length_ofList] at yields
        split_ifs at yields
        · obtain ⟨k, within, rfl⟩ := ih (by omega) yields
          exact ⟨front.length + 1 + k, by omega, by omega⟩
        · exact ⟨front.length + 1, by omega, yields.symm.trans (Nat.add_assoc ..)⟩
      · exact components_ne_nil back
    · rw [components_of_noSlash slash] at yields
      obtain ⟨-, -, yields⟩ := yields_bind.mp yields
      exact ⟨0, Nat.zero_le _, yields.symm⟩

theorem clearCacheAt_eq (some : strAt m path ≠ []) : clearCacheAt cfg parent m path =
    clearPieces cfg parent (components (if (strAt m path).getLast? = .some '/' then (strAt m path).dropLast else strAt m path)) >>=
      fun _ => .ret m := by
  have pos : 0 < strlen m path := List.length_pos_iff.mpr some
  have before : ¬path + strlen m path = 0 := by omega
  have notEmpty : ¬(decide (m[path + strlen m path - 1]? = .some '/') = true ∧ strlen m path = 0) := fun both => by omega
  rw [clearCacheAt]
  simp only [if_neg before, if_neg notEmpty]
  rw [getElem?_last some, ← strAt_stripped some, ← clearPiecesAt_bind]
  refine Prog.bind_congr fun p yields => ?_
  obtain ⟨k, within, rfl⟩ := clearPiecesAt_within _ (Nat.le_refl _) yields
  exact congrArg Prog.ret (restored (fun empty => absurd empty some) within)

theorem fosClearCacheAt_eq (some : strAt m path ≠ []) (notRoot : nameAt m path ≠ "/") :
    fosClearCacheAt cfg parent m path = fosClearCache cfg parent (nameAt m path) >>= fun _ => .ret m := by
  have pos : 0 < strlen m path := List.length_pos_iff.mpr some
  rw [fosClearCacheAt, fosClearCache, if_neg notRoot, startDir]
  simp only [nameAt, String.toList_ofList, getElem?_head some]
  by_cases absolute : m[path]? = .some '/'
  · have rest : strAt m (path + 1) = (strAt m path).tail := by rw [strAt_add pos, List.drop_one]
    have someRest : strAt m (path + 1) ≠ [] := by
      intro empty
      rw [rest] at empty
      obtain ⟨c, single⟩ : ∃ c, strAt m path = [c] := by
        cases isString : strAt m path with
        | nil => exact absurd isString some
        | cons c s =>
          rw [isString] at empty
          exact ⟨c, by rw [show s = [] from empty]⟩
      have head := getElem?_head some
      rw [absolute, single] at head
      cases head
      exact notRoot (by rw [nameAt, single])
    rw [if_pos absolute, if_pos absolute, if_pos absolute, clearCacheAt_eq someRest, rest]
  · rw [if_neg absolute, if_neg absolute, if_neg absolute, clearCacheAt_eq some]

section
variable {saveParent inode : InodeType} {savePath mode server dirEntryServer : Nat} {flags : Flags}

/-- A path whose entries can be cleared from the cache: `/` is overwritten by that, and nothing is cached for an empty path. -/
def Clears (m : List Char) (savePath : Nat) (cached : Bool) : Prop :=
  cached = true → strAt m savePath ≠ [] ∧ nameAt m savePath ≠ "/"

theorem openInodeAt_eq (clears : Clears m savePath cached) : openInodeAt cfg saveParent savePath parent m path flags cached inode =
    unchanged m (openInode cfg saveParent (nameAt m savePath) parent (nameAt m path) flags cached inode) := by
  rw [openInodeAt, openInode, unchanged_bind]
  refine congrArg (_ >>= ·) (funext fun reply => ?_)
  by_cases stale : cached = true ∧ reply.retval = .notFound
  · obtain ⟨some, notRoot⟩ := clears stale.1
    have same : clearedPath (nameAt m savePath) = nameAt m savePath := if_neg notRoot
    rw [if_pos stale, if_pos stale, fosClearCacheAt_eq some notRoot, Prog.bind_assoc, same]
    simp only [unchanged_bind, unchanged_ite, unchanged_ret]
    rfl
  · rw [if_neg stale, if_neg stale]
    simp only [unchanged_ite, unchanged_ret]
    rfl

theorem openCreateAt_eq (clears : Clears m savePath cached) :
    openCreateAt cfg saveParent savePath parent m path flags mode cached server =
      unchanged m (openCreate cfg saveParent (nameAt m savePath) parent (nameAt m path) flags mode cached server) := by
  rw [openCreateAt, openCreate]
  simp only [unchanged_bind]
  refine congrArg (_ >>= ·) (funext fun _ => congrArg (_ >>= ·) (funext fun reply => ?_))
  cases reply.exist with
  | none => simp only [unchanged_ite, unchanged_ret, unchanged_fail]
  | some exist =>
    simp only [unchanged_ite, unchanged_ret, unchanged_fail, openInodeAt_eq clears]
    rfl

theorem openCreate3At_eq (clears : Clears m savePath cached) :
    openCreate3At cfg saveParent savePath parent m path flags mode cached server dirEntryServer =
      unchanged m (openCreate3 cfg saveParent (nameAt m savePath) parent (nameAt m path) flags mode cached server dirEntryServer) := by
  rw [openCreate3At, openCreate3]
  simp only [unchanged_bind]
  refine congrArg (_ >>= ·) (funext fun reply => ?_)
  cases reply.2 with
  | none => simp only [unchanged_ite, unchanged_ret, unchanged_fail]
  | some exist => simp only [unchanged_ite, unchanged_ret, unchanged_fail, unchanged_bind, openInodeAt_eq clears]

theorem notCached_of_empty {found : Found} (yields : (fosLookup cfg parent "" false).Yields found) : found.cached = false := by
  obtain ⟨-, -, yields⟩ := yields_bind.mp yields
  exact congrArg Found.cached (show _ = found from yields).symm

theorem notCached_of_emptyParent (yields : (fosLookupParent cfg parent "" false).Yields r) : r.1.cached = false := by
  obtain ⟨-, -, yields⟩ := yields_bind.mp yields
  exact congrArg (fun r : Found × Name => r.1.cached) (show _ = r from yields).symm

theorem fosFileOpenAt_eq (tidy : nameAt m path = "/" → flags.creat = true → flags.directory = true) :
    fosFileOpenAt cfg parent m path flags mode = unchanged m (fosFileOpen cfg parent (nameAt m path) flags mode) := by
  rw [fosFileOpenAt, fosFileOpen]
  by_cases both : flags.creat = true ∧ flags.directory = true
  · rw [if_pos both, if_pos both]
    rfl
  rw [if_neg both, if_neg both, lookupAt_bind]
  simp only [unchanged_bind, unchanged_ite, unchanged_ret]
  refine Prog.bind_congr fun r yields => ?_
  rw [rest_eq yields]
  by_cases failed : r.1.retval ≠ .ok
  · rw [if_pos failed, if_pos failed]
  rw [if_neg failed, if_neg failed]
  by_cases creat : flags.creat = true
  · have clears : Clears m path r.1.cached := fun isCached => by
      refine ⟨fun empty => ?_, fun root => both ⟨creat, tidy root creat⟩⟩
      have name : nameAt m path = "" := String.ofList_eq_empty_iff.mpr empty
      rw [name] at yields
      rw [notCached_of_emptyParent yields] at isCached
      cases isCached
    rw [if_pos creat, if_pos creat]
    simp only [openCreateAt_eq clears, openCreate3At_eq clears]
  · rw [if_neg creat, if_neg creat]
    refine Prog.bind_congr fun child isChild => congrArg (_ >>= ·) (funext fun _ => ?_)
    have clears : Clears m path child.cached := fun isCached => by
      have notEmpty : nameAt m (restAt m path) ≠ "" := fun empty => by
        rw [empty] at isChild
        rw [notCached_of_empty isChild] at isCached
        cases isCached
      rw [nameAt_restAt] at notEmpty
      constructor
      · intro empty
        rw [nameAt, empty] at notEmpty
        exact notEmpty rfl
      · intro root
        rw [root] at notEmpty
        exact notEmpty (by decide)
    rw [openInodeAt_eq clears]

end

/-! ### Calls that do not -/

def dir : InodeType := { server := 0, id := 1, type := .dir }

def Plain (x : InodeType) : Prop := x.type = .dir ∧ x.server = 0

theorem yields_component (cfg : Config) (name : Name) (ended cached : Bool) (plain : Plain parent) :
    ∃ found, (resolveCached cfg parent name ended cached).Yields found ∧ found.retval = .ok ∧ Plain found.inode := by
  unfold resolveCached
  split_ifs
  · exact ⟨_, rfl, rfl, plain⟩
  · exact ⟨_, rfl, rfl, plain⟩
  · exact ⟨_, yields_bind.mpr ⟨some dir, ⟨some dir, rfl⟩, rfl⟩, rfl, rfl, rfl⟩

theorem yields_pieces (cfg : Config) : ∀ (pieces : List (Name × Bool)) {parent : InodeType} (cached : Bool), Plain parent →
    ∃ found, (fosResolvePieces cfg parent cached pieces).Yields found ∧ found.retval = .ok ∧ Plain found.inode := by
  intro pieces
  induction pieces with
  | nil => exact fun _ plain => ⟨_, rfl, rfl, plain⟩
  | cons piece pieces ih =>
    intro parent cached plain
    obtain ⟨first, isFirst, ok, plain'⟩ := yields_component cfg piece.1 piece.2 cached plain
    obtain ⟨found, isFound, done⟩ := ih first.cached plain'
    refine ⟨found, yields_bind.mpr ⟨first, isFirst, ?_⟩, done⟩
    rw [if_pos ok]
    exact isFound

theorem plain_startDir (plain : Plain parent) : Plain (startDir parent name) := by
  unfold startDir
  split_ifs
  · exact ⟨rfl, plain.2⟩
  · exact plain

theorem yields_lookup (cfg : Config) (name : Name) (cached : Bool) (plain : Plain parent) :
    ∃ found, (fosLookup cfg parent name cached).Yields found ∧ found.retval = .ok ∧ Plain found.inode := by
  obtain ⟨found, isFound, done⟩ := yields_pieces cfg _ cached (plain_startDir plain)
  exact ⟨found, yields_bind.mpr ⟨(), ⟨(), rfl⟩, isFound⟩, done⟩

theorem yields_lookupParent (cfg : Config) (name : Name) (cached : Bool) (plain : Plain parent) :
    ∃ r, (fosLookupParent cfg parent name cached).Yields r ∧ r.1.retval = .ok ∧ Plain r.1.inode := by
  have start : Plain (startDir parent name) := plain_startDir plain
  obtain ⟨found, isFound, ok, plain'⟩ := yields_pieces cfg ((splitParent name).1.map (·, false)) cached start
  by_cases empty : name = ""
  · refine ⟨({ retval := .ok, inode := parent, cached }, name), yields_bind.mpr ⟨(), ⟨(), rfl⟩, ?_⟩, rfl, plain⟩
    rw [if_pos empty]
    rfl
  · refine ⟨(found, (splitParent name).2), yields_bind.mpr ⟨(), ⟨(), rfl⟩, ?_⟩, ok, plain'⟩
    rw [if_neg empty]
    refine yields_bind.mpr ⟨found, isFound, ?_⟩
    rw [if_pos (by rw [plain'.1]; rfl)]
    rfl

theorem strAt_ne_nil {c : Char} (found : m[path]? = some c) (notNul : c ≠ nul) : strAt m path ≠ [] := by
  obtain ⟨lt, is⟩ := List.getElem?_eq_some_iff.mp found
  rw [strAt, List.drop_eq_getElem_cons lt, is, List.takeWhile_cons_of_pos (by simpa using notNul)]
  exact List.cons_ne_nil _ _

theorem before_ne {last : Nat} (is : last = path + strlen m path - 1) (slash : m[last]? = some '/') : path + strlen m path ≠ 0 := by
  intro zero
  have atStart : last = path := by omega
  rw [atStart] at slash
  have pos : 0 < strlen m path := List.length_pos_iff.mpr (strAt_ne_nil slash (by decide))
  omega

theorem set_nul_ne {i : Nat} (slash : m[i]? = some '/') : (m.set i nul)[i]? = some nul := by
  obtain ⟨lt, -⟩ := List.getElem?_eq_some_iff.mp slash
  rw [List.getElem?_set_self lt]

theorem rmdir_yields (slash : m[path + strlen m path - 1]? = some '/') :
    (fosRmdirAt Server.oneServer fuel dir m path).Yields (.notEmpty, m.set (path + strlen m path - 1) nul) := by
  have sep : decide (m[path + strlen m path - 1]? = some '/') = true := decide_eq_true slash
  rw [fosRmdirAt, if_neg (before_ne rfl slash)]
  simp only [sep, if_true]
  rw [lookupAt_bind]
  obtain ⟨r, isR, ok, plain⟩ := yields_lookupParent Server.oneServer _ false (show Plain dir from ⟨rfl, rfl⟩)
  refine yields_bind.mpr ⟨r, isR, ?_⟩
  simp only [ok, ne_eq, not_true_eq_false, if_false]
  refine yields_bind.mpr ⟨0, rfl, ?_⟩
  obtain ⟨child, isChild, found, plainChild⟩ := yields_lookup Server.oneServer _ false plain
  refine yields_bind.mpr ⟨child, isChild, ?_⟩
  simp only [found, not_true_eq_false, if_false]
  refine yields_bind.mpr ⟨(true, .notEmpty), ?_, ?_⟩
  · rw [rmdirInode, if_pos (by rw [plainChild.1]; decide), if_pos plainChild.2.symm]
    exact yields_bind.mpr ⟨.notEmpty, ⟨.notEmpty, rfl⟩, rfl⟩
  · rw [if_neg (by decide), if_neg (by rw [plainChild.1]; decide)]
    rfl

theorem mkdir_yields {mode : Nat} (empty : strAt m path = []) (slash : m[path - 1]? = some '/') :
    (fosMkdirAt Server.oneServer dir m path mode).Yields (.notFound, (m.set (path - 1) nul).set path '/') := by
  have length : strlen m path = 0 := congrArg List.length empty
  have last : path + strlen m path - 1 = path - 1 := by rw [length, Nat.add_zero]
  have before := before_ne last.symm slash
  have sep : decide (m[path - 1]? = some '/') = true := decide_eq_true slash
  have noName : nameAt m path = "" := by rw [nameAt, empty]
  have emptyAfter : strAt (m.set (path - 1) nul) path = [] := by rw [strAt_set_of_lt (by omega), empty]
  rw [fosMkdirAt, if_neg (by rw [noName]; exact fun root => absurd root.2 (by decide)), if_neg (by rw [noName]; decide), if_neg before]
  simp only [last, sep, if_true]
  rw [lookupAt_bind, restAt_of_noSlash (by rw [emptyAfter]; exact List.not_mem_nil)]
  have name : nameAt (m.set (path - 1) nul) path = "" := by rw [nameAt, emptyAfter]
  have atEnd : path + strlen (m.set (path - 1) nul) path = path := by rw [strlen, emptyAfter, List.length_nil, Nat.add_zero]
  simp only [name, atEnd]
  refine yields_bind.mpr ⟨({ retval := .ok, inode := dir, cached := false }, ""), ⟨(), rfl⟩, ?_⟩
  refine yields_bind.mpr ⟨0, rfl, yields_bind.mpr ⟨(.notFound, none), ⟨(.notFound, none), rfl⟩, ?_⟩⟩
  rfl

def twoServers : Config := { Server.oneServer with serverCount := 2 }

def away : InodeType := { server := 2, id := 1, type := .dir }

def gone : OpenReply := { Server.openFail .notFound with exist := none }

def overwritten (m : List Char) (path : Nat) : List Char := (m.set path nul).set (path + 1 + strlen (m.set path nul) (path + 1)) '/'

theorem clear_yields (slash : m[path]? = some '/') (rest : strAt m (path + 1) = []) :
    (fosClearCacheAt cfg parent m path).Yields (overwritten m path) := by
  have length : strlen m (path + 1) = 0 := congrArg List.length rest
  have before : ¬path + 1 + strlen m (path + 1) = 0 := by omega
  have last : path + 1 + 0 - 1 = path := rfl
  have sep : decide (m[path]? = some '/') = true := decide_eq_true slash
  rw [fosClearCacheAt, if_pos slash, clearCacheAt, if_neg before]
  simp only [length, last, sep, and_self, if_true]
  exact yields_bind.mpr ⟨path + 1, rfl, rfl⟩

theorem notRoot_yields : (ensureNotRoot away name).Yields () := by
  have notRoot : ¬(away.id = 0 ∧ name = "/") := fun root => absurd root.1 (by decide)
  rw [ensureNotRoot, ensure, if_pos (decide_eq_true notRoot)]
  rfl

theorem openInode_yields {flags : Flags} {inode : InodeType} (slash : m[path]? = some '/') (rest : strAt m (path + 1) = []) :
    (openInodeAt cfg dir path away m (path + 1) flags true inode).Yields ((.notFound, none), overwritten m path) := by
  refine yields_bind.mpr ⟨gone, ⟨gone, rfl⟩, ?_⟩
  rw [if_pos ⟨rfl, rfl⟩]
  refine yields_bind.mpr ⟨_, clear_yields slash rest, ?_⟩
  obtain ⟨found, isFound, ok, -⟩ := yields_lookup cfg _ false (show Plain dir from ⟨rfl, rfl⟩)
  refine yields_bind.mpr ⟨found, isFound, yields_bind.mpr ⟨(), notRoot_yields, ?_⟩⟩
  rw [if_neg (not_not.mpr ok)]
  exact yields_bind.mpr ⟨gone, ⟨gone, rfl⟩, rfl⟩

theorem strAt_of_root (root : nameAt m path = "/") : strAt m path = ['/'] := by
  have same := congrArg String.toList root
  rwa [nameAt, String.toList_ofList] at same

theorem slash_of_root (root : nameAt m path = "/") : m[path]? = some '/' := by
  have string := strAt_of_root root
  rw [← getElem?_head (by rw [string]; exact List.cons_ne_nil _ _), string]
  rfl

theorem open_yields {flags : Flags} (mode : Nat) (root : nameAt m path = "/") (creat : flags.creat = true) (notDir : flags.directory = false) :
    (fosFileOpenAt twoServers dir m path flags mode).Yields ((.notFound, none), overwritten m path) := by
  have string := strAt_of_root root
  have slash := slash_of_root root
  have atRest : restAt m path = path + 1 := by
    rw [restAt, string]
    rfl
  have rest : strAt m (path + 1) = [] := by
    rw [strAt_add (by rw [strlen, string]; decide), string]
    rfl
  have noName : nameAt m (path + 1) = "" := by rw [nameAt, rest]
  have elsewhere : openServer twoServers away "" flags 2 ≠ 2 := by
    rw [openServer, if_neg fun near => absurd near.1 Bool.false_ne_true, if_neg (by decide), fosPathHashDirect]
    exact Nat.ne_of_lt (Nat.mod_lt (fosPathHashn 0 "") (show 0 < twoServers.serverCount by decide))
  rw [fosFileOpenAt, if_neg (by rw [notDir]; exact fun both => absurd both.2 Bool.false_ne_true), lookupAt_bind, root, atRest]
  refine yields_bind.mpr ⟨({ retval := .ok, inode := away, cached := true }, ""), ⟨(), some away, rfl⟩, ?_⟩
  dsimp only
  rw [if_neg (not_not.mpr rfl), if_pos creat, noName]
  refine yields_bind.mpr ⟨2, rfl, ?_⟩
  rw [if_neg elsewhere, openCreate3At, noName]
  -- the file is created and mapped, and gone when it is opened
  refine yields_bind.mpr ⟨(.ok, some dir), ⟨(.ok, some dir), rfl⟩, ?_⟩
  refine yields_bind.mpr ⟨dir, ⟨(.ok, dir), (), rfl⟩, yields_bind.mpr ⟨(), notRoot_yields, ?_⟩⟩
  exact openInode_yields slash rest

end PathBuffer

/-! ### Which calls preserve their paths -/

namespace PathCall
open PathBuffer

theorem preserves_iff (m : List Char) (call : PathCall) : call.Preserves m ↔ call.Tidy m := by
  constructor
  · intro preserves
    cases call with
    | mkdir path mode =>
      intro empty slash
      have same := preserves _ _ _ _ (mkdir_yields empty slash)
      have length : strlen m path = 0 := congrArg List.length empty
      have before := before_ne (by rw [length, Nat.add_zero]) slash
      have nulThere : ((m.set (path - 1) nul).set path '/')[path - 1]? = some nul := by
        rw [List.getElem?_set_ne (by omega), set_nul_ne slash]
      rw [same, slash] at nulThere
      exact absurd nulThere (by decide)
    | rmdir path fuel =>
      intro slash
      have same := preserves _ _ _ _ (rmdir_yields slash)
      have nulThere := set_nul_ne slash
      rw [same, slash] at nulThere
      exact absurd nulThere (by decide)
    | «open» path flags mode =>
      intro root creat
      by_contra notDir
      have yields := open_yields mode root creat (Bool.eq_false_iff.mpr notDir)
      have same : overwritten m path = m := preserves twoServers dir _ _ (yields_bind.mpr ⟨_, yields, rfl⟩)
      have slash : m[path]? = some '/' := slash_of_root root
      have nulThere : (overwritten m path)[path]? = some nul := by
        rw [overwritten, List.getElem?_set_ne (by omega), set_nul_ne slash]
      rw [same, slash] at nulThere
      exact absurd nulThere (by decide)
    | rename oldPath newPath fuel => trivial
    | unlink path => trivial
    | truncate path len fuel => trivial
  · intro tidy cfg parent status m' yields
    cases call with
    | mkdir path mode =>
      have within : Within m path := fun empty => by
        rw [strlen, empty]
        exact tidy empty
      rw [code, fosMkdirAt_eq within] at yields
      exact eq_of_unchanged yields
    | rmdir path fuel =>
      rw [code, fosRmdirAt_eq tidy] at yields
      exact eq_of_unchanged yields
    | «open» path flags mode =>
      obtain ⟨r, isR, yields⟩ := yields_bind.mp yields
      rw [fosFileOpenAt_eq tidy] at isR
      have kept : r.2 = m := eq_of_unchanged isR
      exact (congrArg Prod.snd yields).symm.trans kept
    | rename oldPath newPath fuel =>
      rw [code, fosRenameAt_eq] at yields
      exact eq_of_unchanged yields
    | unlink path =>
      rw [code, fosUnlinkAt_eq] at yields
      exact eq_of_unchanged yields
    | truncate path len fuel =>
      rw [code, fosTruncateAt_eq] at yields
      exact eq_of_unchanged yields

/-- An `rmdir` of a path that is not there: the caller's `x/` has become `x`. -/
theorem rmdir_overwrites : (Prog.run (fun w a => w.exec Server.oneServer 0 { rand := 0, rand' := 0, stats := [] } a)
    (Cluster.boot { start := 4096, blocks := [], blocksFree := 0 })
    ((rmdir 0 1).code Server.oneServer Cluster.root ['x', '/', nul])).toOption.map (·.2) = some (.notFound, ['x', nul, nul]) := by
  decide +kernel

end PathCall
end Faux
