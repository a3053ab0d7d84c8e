import Faux.Fs.Resolve
import Faux.Theorems.Fs.Rmdir

/-! A cache that agrees with the servers does not change what a lookup gives: however many components are cached, the result is
    that of resolving them one after the other, and the cache agrees with the servers again. -/

namespace Faux
open Function Lib System

/-! ### Mappings -/

namespace Server
variable {s : Server} {p : FileId} {n : Name} {st : Status} {x : InodeType}

theorem mapping_some (found : s.mapping p n = (st, some x)) : st = .ok := by
  unfold mapping at found
  split at found
  · cases found
  · split at found <;> cases found
    rfl
  · cases found

theorem mapping_none (found : s.mapping p n = (st, none)) : st ≠ .ok := by
  unfold mapping at found
  split at found
  · cases found
    decide
  · split at found <;> cases found
    decide
  · cases found
    decide

theorem resolve_mapping (app : AppId) (name : n ≠ "") : ∃ apps, s.resolve app p n = .ok ({ s with apps }, s.mapping p n) := by
  have isName : require (decide (n ≠ "")) = .ok () := by simp [require, name]
  unfold resolve mapping
  rw [isName, ok_bind]
  cases s.files.lookup p with
  | none => exact ⟨s.apps, rfl⟩
  | some v =>
    cases v with
    | file f => exact ⟨s.apps, rfl⟩
    | symlink dest => exact ⟨s.apps, rfl⟩
    | dir d =>
      simp only
      cases d.children.lookup n with
      | none => exact ⟨s.apps, rfl⟩
      | some entry =>
        refine ⟨(s.appAddLoc app entry.loc).apps, ?_⟩
        have same : s.appAddLoc app entry.loc = { s with apps := (s.appAddLoc app entry.loc).apps } := by
          unfold appAddLoc
          split_ifs <;> rfl
        rw [← same]

end Server

namespace Resolve
open Cluster
open Rmdir (Alone)

variable {cfg : Config} {c : Nat} {w w' : Cluster} {D : InodeType → Prop} {p : InodeType} {n : Name}
  {cached ended : Bool} {ns : List Name} {rest : List (Name × Bool)}

/-- Lookups have been made since: servers note who has been given an entry, and the cache agrees with the servers. -/
structure Agrees (cfg : Config) (w : Cluster) (D : InodeType → Prop) (c : Nat) (w' : Cluster) : Prop where
  servers : ∀ i, ∃ apps, w'.servers i = { w.servers i with apps }
  right : w.CacheRight cfg D (w'.clients c).cache

theorem Agrees.mapping (agrees : Agrees cfg w D c w') : w'.mapping cfg p n = w.mapping cfg p n := by
  unfold Cluster.mapping
  split
  · next server _ =>
    obtain ⟨apps, same⟩ := agrees.servers server
    rw [same]
    rfl
  · rfl

theorem CacheRight.fewer {cache cache' : DirCache} (right : w.CacheRight cfg D cache)
    (fewer : ∀ k x, cache'.lookup k = some x → cache.lookup k = some x) : w.CacheRight cfg D cache' :=
  fun p mem n x found => right p mem n x (fewer _ x found)

theorem stable_agrees : (fsSystem cfg).Stable (Agrees cfg w D c) := by
  intro w₁ w₂ i agrees stepped
  obtain ⟨k, polled, rfl⟩ : ∃ k, (w₁.clients i.1).poll i.2 = some k ∧ w₁.setClient i.1 k = w₂ := Option.map_eq_some_iff.mp stepped
  refine ⟨agrees.servers, CacheRight.fewer agrees.right fun key x found => ?_⟩
  rcases Knowing.cache_setClient found with ⟨same, found⟩ | found
  · rw [same]
    exact Knowing.lookup_poll polled found
  · exact found

/-! ### Actions -/

theorem alone_find (agrees : Agrees cfg w D c w') (mem : D p) :
    Alone cfg c (fun r w₁ => (∀ x, r = some x → if p.id = 0 ∧ n = "" then x = root else w.mapping cfg p n = (.ok, some x)) ∧
      Agrees cfg w D c w₁) (perform (.find p.id n)) w' :=
  Ends.perform stable_agrees agrees fun w₁ _ agrees => ⟨w₁, _, rfl, trivial, fun _ _ _ holds stepped =>
    ⟨holds.1, stable_agrees _ _ _ holds.2 stepped⟩, fun x found => agrees.right p mem n x found, agrees⟩

theorem alone_check (agrees : Agrees cfg w D c w') : Alone cfg c (fun _ w₁ => Agrees cfg w D c w₁) (perform .check) w' :=
  Ends.perform stable_agrees agrees fun w₁ _ agrees => by
    refine ⟨_, _, rfl, trivial, stable_agrees, agrees.servers, CacheRight.fewer agrees.right fun key x found => ?_⟩
    rcases Knowing.cache_setClient found with ⟨-, found⟩ | found
    · exact Knowing.lookup_notified found
    · exact found

theorem alone_add {y : InodeType} (dirs : w.Directories cfg D) (mem : D p)
    (isMapping : if p.id = 0 ∧ n = "" then y = root else w.mapping cfg p n = (.ok, some y)) (agrees : Agrees cfg w D c w') :
    Alone cfg c (fun _ w₁ => Agrees cfg w D c w₁) (perform (.add p.id n y)) w' :=
  Ends.perform stable_agrees agrees fun w₁ _ agrees => by
    refine ⟨_, _, rfl, trivial, stable_agrees, agrees.servers, fun q memQ m x found => ?_⟩
    rcases Knowing.cache_setClient found with ⟨-, found⟩ | found
    · unfold DirCache.add at found
      split_ifs at found
      · exact agrees.right q memQ m x found
      · rcases lookup_insert_some.mp found with ⟨key, rfl⟩ | ⟨-, found⟩
        · obtain ⟨sameId, rfl⟩ := Prod.mk.inj key
          obtain rfl := dirs.own q p memQ mem sameId
          exact isMapping
        · exact agrees.right q memQ m x found
    · exact agrees.right q memQ m x found

theorem alone_resolve {j : Nat} {id : FileId} (name : n ≠ "") (agrees : Agrees cfg w D c w') :
    Alone cfg c (fun r w₁ => r = (w.servers j).mapping id n ∧ Agrees cfg w D c w₁) (rpc j (.resolve id n)) w' := by
  refine Ends.perform stable_agrees agrees fun w₁ e agrees => ?_
  obtain ⟨apps, isServer⟩ := agrees.servers j
  obtain ⟨apps', resolved⟩ : ∃ apps, (w₁.servers j).resolve c id n = .ok ({ w₁.servers j with apps }, (w₁.servers j).mapping id n) :=
    Server.resolve_mapping c name
  have same : (w₁.servers j).mapping id n = (w.servers j).mapping id n := by
    rw [isServer]
    rfl
  have handled : (w₁.servers j).handle cfg e c (.resolve id n) = .ok ({ w₁.servers j with apps := apps' }, (w.servers j).mapping id n, []) := by
    simp only [Server.handle, resolved, ok_bind, same]
  obtain ⟨w₂, done, servers⟩ : ∃ w₂, w₁.request cfg c e j (.resolve id n) = .ok (w₂, (w.servers j).mapping id n) ∧
      w₂.servers = update w₁.servers j { w₁.servers j with apps := apps' } :=
    ⟨_, by simp only [request, handled, ok_bind]; rfl, rfl⟩
  refine ⟨w₂, _, done, trivial, fun _ _ _ holds stepped => ⟨holds.1, stable_agrees _ _ _ holds.2 stepped⟩, rfl, fun i => ?_,
    CacheRight.fewer agrees.right fun key x found => Knowing.request_cache done c found⟩
  rw [servers]
  by_cases isJ : i = j
  · subst isJ
    exact ⟨apps', by rw [update_self, isServer]⟩
  · obtain ⟨apps, isServer⟩ := agrees.servers i
    exact ⟨apps, by rw [update_of_ne isJ, isServer]⟩

/-! ### Components -/

theorem alone_resolveLive (dirs : w.Directories cfg D) (mem : D p) (name : n ≠ "") (notDot : n ≠ ".")
    (agrees : Agrees cfg w D c w') :
    Alone cfg c (fun r w₁ => (r.retval, r.inode) = ((w.mapping cfg p n).1, (w.mapping cfg p n).2.getD p) ∧ Agrees cfg w D c w₁)
      (resolveLive (cfg.client c) p n cached) w' := by
  obtain ⟨j, owner⟩ : ∃ j, fosPathOwnern cfg p n = .ok j := by
    have isDir := dirs.isDir p mem
    unfold fosPathOwnern
    by_cases ofRoot : p.id = 0 ∧ (n = "" ∨ n = "..")
    · exact ⟨0, if_pos ofRoot⟩
    · rw [if_neg ofRoot]
      cases type : p.type <;> rw [type] at isDir <;> first | exact ⟨_, rfl⟩ | cases isDir
  have isMapping : w.mapping cfg p n = (w.servers j).mapping p.id n := by
    unfold Cluster.mapping
    rw [owner]
  have owner' : fosPathOwnern (cfg.client c) p n = .ok j := owner
  simp only [resolveLive, owner', Prog.lift, Prog.ret_bind]
  have asks : fosResolve { p with server := j } n = rpc j (.resolve p.id n) := by
    rw [fosResolve, if_neg fun both => name both.2, if_neg notDot]
  rw [asks]
  refine Ends.bind ((alone_resolve name agrees).mono ?_)
  rintro ⟨st, child⟩ w₁ ⟨is, agrees₁⟩
  rw [← isMapping] at is
  rw [← is]
  cases child with
  | none => exact Ends.ret stable_agrees agrees₁ fun _ agrees => ⟨rfl, agrees⟩
  | some child =>
    obtain rfl : st = .ok := Server.mapping_some (isMapping.symm.trans is.symm)
    simp only [if_true]
    have stored : if p.id = 0 ∧ n = "" then child = root else w.mapping cfg p n = (.ok, some child) := by
      rw [if_neg fun both => name both.2, is]
    exact Ends.bind ((alone_add dirs mem stored agrees₁).mono fun _ w₂ agrees₂ =>
      Ends.ret stable_agrees agrees₂ fun _ agrees => ⟨rfl, agrees⟩)

theorem alone_resolveCached (dirs : w.Directories cfg D) (mem : D p) (name : n ≠ "") (notDot : n ≠ ".")
    (agrees : Agrees cfg w D c w') :
    Alone cfg c (fun r w₁ => (r.retval, r.inode) = ((w.mapping cfg p n).1, (w.mapping cfg p n).2.getD p) ∧ Agrees cfg w D c w₁)
      (resolveCached (cfg.client c) p n ended cached) w' := by
  rw [resolveCached, if_neg notDot, if_neg fun both => name both.1]
  refine Ends.bind ((alone_find agrees mem).mono ?_)
  rintro r w₁ ⟨inCache, agrees₁⟩
  cases r with
  | none => exact alone_resolveLive dirs mem name notDot agrees₁
  | some child =>
    have isMapping := inCache child rfl
    rw [if_neg fun both => name both.2] at isMapping
    rw [isMapping]
    exact Ends.ret stable_agrees agrees₁ fun _ agrees => ⟨rfl, agrees⟩

theorem alone_resolveRoot (dirs : w.Directories cfg D) (isRoot : p.id = 0) (agrees : Agrees cfg w D c w') :
    Alone cfg c (fun r w₁ => r.retval = .ok ∧ r.inode = root ∧ Agrees cfg w D c w₁) (resolveCached (cfg.client c) p "" false cached) w' := by
  obtain ⟨server, id, type⟩ := p
  obtain rfl : id = 0 := isRoot
  have notLast : ¬("" = "" ∧ false = true) := by decide
  rw [resolveCached, if_neg (by decide), if_neg notLast]
  refine Ends.bind ((alone_find agrees dirs.root).mono ?_)
  rintro r w₁ ⟨inCache, agrees₁⟩
  cases r with
  | some child =>
    have isRoot := inCache child rfl
    rw [if_pos ⟨rfl, rfl⟩] at isRoot
    exact Ends.ret stable_agrees agrees₁ fun _ agrees => ⟨rfl, isRoot, agrees⟩
  | none =>
    have owner : fosPathOwnern (cfg.client c) { server, id := 0, type } "" = .ok 0 := by rw [fosPathOwnern, if_pos ⟨rfl, .inl rfl⟩]
    simp only [resolveLive, owner, Prog.lift, Prog.ret_bind, fosResolve, and_self, if_true]
    have isRoot : if root.id = 0 ∧ "" = "" then root = root else w.mapping cfg root "" = (.ok, some root) := by
      rw [if_pos ⟨rfl, rfl⟩]
    refine Ends.bind ((alone_add dirs dirs.root isRoot agrees₁).mono fun _ w₂ agrees₂ => ?_)
    exact Ends.ret stable_agrees agrees₂ fun _ agrees => ⟨rfl, rfl, agrees⟩

/-! ### Paths -/

def namesOf (pieces : List (Name × Bool)) : List Name := (pieces.map (·.1)).filter (· ≠ "")

theorem namesOf_cons (name : n ≠ "") : namesOf ((n, ended) :: rest) = n :: namesOf rest :=
  List.filter_cons_of_pos (decide_eq_true name)

theorem namesOf_cons_empty : namesOf (("", ended) :: rest) = namesOf rest :=
  List.filter_cons_of_neg (by simp)

theorem follow_dot : w.follow cfg p ("." :: ns) = w.follow cfg p ns := by
  rw [follow, if_pos rfl]

theorem follow_some (notDot : n ≠ ".") (found : w.mapping cfg p n = (st, some x)) :
    w.follow cfg p (n :: ns) = w.follow cfg x ns := by
  rw [follow, if_neg notDot, found]

theorem follow_none (notDot : n ≠ ".") (found : w.mapping cfg p n = (st, none)) :
    w.follow cfg p (n :: ns) = (st, p) := by
  rw [follow, if_neg notDot, found]

theorem mapping_ok (found : w.mapping cfg p n = (st, some x)) : st = .ok := by
  unfold Cluster.mapping at found
  split at found
  · exact Server.mapping_some found
  · cases found

theorem mapping_failed (found : w.mapping cfg p n = (st, none)) : st ≠ .ok := by
  unfold Cluster.mapping at found
  split at found
  · exact Server.mapping_none found
  · cases found
    decide

def Through (cfg : Config) (w : Cluster) (p : InodeType) (names : List Name) : Prop :=
  ∀ ns x, ns <+: names → ns ≠ names → w.follow cfg p ns = (.ok, x) → x.type.isDir = true

theorem Through.dot (through : Through cfg w p ("." :: ns)) : Through cfg w p ns := fun ms x is ne reached =>
  through ("." :: ms) x (List.cons_prefix_cons.mpr ⟨rfl, is⟩) (fun same => ne (List.cons.inj same).2) (follow_dot.trans reached)

theorem Through.child (through : Through cfg w p (n :: ns)) (notDot : n ≠ ".")
    (found : w.mapping cfg p n = (st, some x)) : Through cfg w x ns := fun ms y is ne reached =>
  through (n :: ms) y (List.cons_prefix_cons.mpr ⟨rfl, is⟩) (fun same => ne (List.cons.inj same).2)
    ((follow_some notDot found).trans reached)

theorem Through.start (through : Through cfg w p ns) (some : ns ≠ []) : p.type.isDir = true :=
  through [] p (List.nil_prefix) some.symm rfl

/-- Components are resolved one after the other. Only a component at the end of the string may be empty. -/
theorem alone_pieces (dirs : w.Directories cfg D) : ∀ {pieces : List (Name × Bool)} {p : InodeType} {cached : Bool} {w' : Cluster},
    (∀ piece ∈ pieces, piece.1 = "" → piece.2 = true) → (p.type.isDir = true → D p) → Through cfg w p (namesOf pieces) →
    Agrees cfg w D c w' →
    Alone cfg c (fun r w₁ => (r.retval, r.inode) = w.follow cfg p (namesOf pieces) ∧ Agrees cfg w D c w₁)
      (fosResolvePieces (cfg.client c) p cached pieces) w' := by
  intro pieces
  induction pieces with
  | nil => exact fun _ _ _ agrees => Ends.ret stable_agrees agrees fun _ agrees => ⟨rfl, agrees⟩
  | cons piece rest ih =>
    intro p cached w' ends isD through agrees
    obtain ⟨n, ended⟩ := piece
    have ends' : ∀ piece ∈ rest, piece.1 = "" → piece.2 = true := fun piece mem => ends piece (List.mem_cons_of_mem _ mem)
    by_cases empty : n = ""
    · subst empty
      obtain rfl : ended = true := ends ("", ended) (List.mem_cons_self ..) rfl
      rw [namesOf_cons_empty] at through ⊢
      rw [fosResolvePieces, resolveCached, if_neg (by decide), if_pos ⟨rfl, rfl⟩, Prog.ret_bind, if_pos rfl]
      exact ih ends' isD through agrees
    · rw [namesOf_cons empty] at through ⊢
      by_cases dot : n = "."
      · subst dot
        rw [follow_dot, fosResolvePieces, resolveCached, if_pos rfl, Prog.ret_bind, if_pos rfl]
        exact ih ends' isD through.dot agrees
      · have mem : D p := isD (through.start (List.cons_ne_nil _ _))
        refine Ends.bind ((alone_resolveCached dirs mem empty dot agrees).mono ?_)
        rintro ⟨retval, inode, cached₁⟩ w₁ ⟨is, agrees₁⟩
        obtain ⟨isStatus, isInode⟩ := Prod.mk.inj is
        dsimp only at isStatus isInode
        subst isStatus isInode
        cases isMapping : w.mapping cfg p n with
        | mk st child =>
          cases child with
          | some x =>
            obtain rfl := mapping_ok isMapping
            rw [follow_some dot isMapping]
            simp only [if_true]
            exact ih ends' (dirs.entry p n _ x mem isMapping) (through.child dot isMapping) agrees₁
          | none =>
            rw [follow_none dot isMapping]
            simp only [if_neg (mapping_failed isMapping)]
            exact Ends.ret stable_agrees agrees₁ fun _ agrees => ⟨rfl, agrees⟩

theorem alone_absolute (dirs : w.Directories cfg D) (isRoot : p.id = 0)
    (ends : ∀ piece ∈ rest, piece.1 = "" → piece.2 = true) (through : Through cfg w root (namesOf rest)) (agrees : Agrees cfg w D c w') :
    Alone cfg c (fun r w₁ => (r.retval, r.inode) = w.follow cfg root (namesOf rest) ∧ Agrees cfg w D c w₁)
      (fosResolvePieces (cfg.client c) p cached (("", false) :: rest)) w' := by
  refine Ends.bind ((alone_resolveRoot dirs isRoot agrees).mono ?_)
  rintro r w₁ ⟨isOk, isRoot, agrees₁⟩
  rw [if_pos isOk, isRoot]
  exact alone_pieces dirs ends (fun _ => dirs.root) through agrees₁

/-! ### The components of a path -/

section
variable {path : Name} {cs : List Char}

theorem head_components (relative : cs.head? ≠ some '/') (empty : (components cs).head? = some "") : cs = [] := by
  cases cs with
  | nil => rfl
  | cons c cs =>
    rw [components_cons, if_neg fun slash => relative (congrArg some slash)] at empty
    cases isComponents : components cs with
    | nil => exact absurd isComponents (components_ne_nil cs)
    | cons m ms =>
      rw [isComponents] at empty
      have empty : String.ofList (c :: m.toList) = "" := Option.some.inj empty
      exact absurd (String.ofList_eq_empty_iff.mp empty) (List.cons_ne_nil _ _)

theorem nonempty_of_relative (relative : cs.head? ≠ some '/') (inner : ∀ n ∈ (components cs).tail.dropLast, n ≠ "") :
    ∀ n ∈ (components cs).dropLast, n ≠ "" := by
  intro n mem empty
  cases isComponents : components cs with
  | nil => exact components_ne_nil cs isComponents
  | cons m ms =>
    rw [isComponents] at mem inner
    cases ms with
    | nil => exact List.not_mem_nil mem
    | cons k ks =>
      rw [List.dropLast_cons_of_ne_nil (List.cons_ne_nil _ _)] at mem
      rcases List.mem_cons.mp mem with rfl | mem
      · have nil := head_components relative (by rw [isComponents, empty]; rfl)
        rw [nil] at isComponents
        cases isComponents
      · exact inner n mem empty

theorem components_eq_concat (cs : List Char) : ∃ init last, components cs = init ++ [last] := by
  rcases List.eq_nil_or_concat' (components cs) with nil | ⟨init, last, is⟩
  · exact absurd nil (components_ne_nil cs)
  · exact ⟨init, last, is⟩

theorem namesOf_map : namesOf (ns.map (·, ended)) = ns.filter (· ≠ "") := by
  rw [namesOf, List.map_map]
  exact congrArg (List.filter _) (List.map_id ns)

theorem lookupPieces_eq {init : List Name} {last : Name} (is : components path.toList = init ++ [last]) :
    lookupPieces path = init.map (·, false) ++ [(last, true)] := by
  simp [lookupPieces, is]

theorem namesOf_append {l m : List (Name × Bool)} : namesOf (l ++ m) = namesOf l ++ namesOf m := by
  simp [namesOf]

theorem namesOf_lookupPieces : namesOf (lookupPieces path) = pathNames path := by
  obtain ⟨init, last, is⟩ := components_eq_concat path.toList
  rw [lookupPieces_eq is, pathNames, is, namesOf_append, namesOf_map, List.filter_append]
  rfl

theorem pieces_end {init : List Name} {last : Name} (nonempty : ∀ n ∈ init, n ≠ "") :
    ∀ piece ∈ init.map (·, false) ++ [(last, true)], piece.1 = "" → piece.2 = true := by
  intro piece mem empty
  rcases List.mem_append.mp mem with mem | mem
  · grind
  · rw [List.mem_singleton.mp mem]

theorem splitParent_spec (proper : ProperPath path) (nonempty : path ≠ "") : ∃ body : List Char, (splitParent path).1 = (components body).dropLast ∧
    body.head? = path.toList.head? ∧ (∀ n ∈ (components body).tail.dropLast, n ≠ "") ∧
    (components body).dropLast.filter (· ≠ "") = (pathNames path).dropLast := by
  have some : path.toList ≠ [] := fun nil => nonempty (String.toList_inj.mp nil)
  -- what is left when the last component is not empty
  have inits : ∀ ns : List Name, ns.getLast? ≠ Option.some "" → ns.dropLast.filter (· ≠ "") = (ns.filter (· ≠ "")).dropLast := fun ns notEmpty => by
    rcases List.eq_nil_or_concat' ns with rfl | ⟨init, last, rfl⟩
    · rfl
    · grind
  unfold ProperPath at proper
  unfold pathNames
  simp only [splitParent]
  by_cases ends : path.toList.length > 1 ∧ path.toList.getLast? = Option.some '/'
  · rw [if_pos ends]
    obtain ⟨body, isPath⟩ := List.getLast?_eq_some_iff.mp ends.2
    have bodySome : body ≠ [] := fun nil => by
      rw [isPath, nil] at ends
      exact absurd ends.1 (by decide)
    have tail : (components body ++ [""]).tail.dropLast = (components body).tail := by
      rw [List.tail_append_of_ne_nil (components_ne_nil body), List.dropLast_concat]
    rw [isPath, components_append_slash, tail] at proper
    rw [isPath, List.dropLast_concat, components_append_slash]
    refine ⟨body, rfl, (List.head?_append_of_ne_nil _ bodySome).symm, fun n mem => proper n (List.dropLast_subset _ mem), ?_⟩
    rw [List.filter_append, List.filter_cons_of_neg (by simp), List.filter_nil, List.append_nil]
    refine inits _ fun empty => ?_
    rcases getLast_components.mp empty with nil | slash
    · exact bodySome nil
    · obtain ⟨body', rfl⟩ := List.getLast?_eq_some_iff.mp slash
      rw [components_append_slash, List.tail_append_of_ne_nil (components_ne_nil body')] at proper
      exact proper "" (List.mem_append_right _ (List.mem_singleton.mpr rfl)) rfl
  · rw [if_neg ends]
    refine ⟨path.toList, rfl, rfl, proper, ?_⟩
    by_cases slash : path.toList.getLast? = Option.some '/'
    · -- the path is a slash
      obtain ⟨body, isPath⟩ := List.getLast?_eq_some_iff.mp slash
      cases body with
      | nil =>
        rw [isPath]
        decide
      | cons c cs => exact absurd ⟨by simp [isPath], slash⟩ ends
    · refine inits _ fun empty => ?_
      rcases getLast_components.mp empty with nil | ends
      · exact some nil
      · exact slash ends

end

/-! ### Lookups -/

section
variable {path : Name} {parent : InodeType}

theorem follow_isDir : ∀ {ns : List Name} {p x : InodeType} {st : Status}, Through cfg w p ns → w.follow cfg p ns = (st, x) → st ≠ .ok →
    x.type.isDir = true
  | [], _, _, _, _, is, failed => by
    cases is
    exact absurd rfl failed
  | n :: ns, p, x, st, through, is, failed => by
    by_cases dot : n = "."
    · subst dot
      exact follow_isDir through.dot (follow_dot.symm.trans is) failed
    · cases isMapping : w.mapping cfg p n with
      | mk st' child =>
        cases child with
        | some y => exact follow_isDir (through.child dot isMapping) ((follow_some dot isMapping).symm.trans is) failed
        | none =>
          cases (follow_none dot isMapping).symm.trans is
          exact through.start (List.cons_ne_nil _ _)

theorem components_absolute {cs : List Char} (absolute : cs.head? = some '/') : ∃ ds, components cs = "" :: components ds := by
  obtain ⟨ds, is⟩ := List.head?_eq_some_iff.mp absolute
  exact ⟨ds, by rw [is, components_slash]⟩

theorem alone_fosLookup (dirs : w.Directories cfg D) (mem : D parent) (proper : ProperPath path)
    (through : w.ThroughDirs cfg parent path) (agrees : Agrees cfg w D c w') :
    Alone cfg c (fun r w₁ => (r.retval, r.inode) = w.follow cfg (pathStart parent path) (pathNames path) ∧ Agrees cfg w D c w₁)
      (fosLookup (cfg.client c) parent path cached) w' := by
  refine Ends.bind ((alone_check agrees).mono fun _ w₁ agrees₁ => ?_)
  have through : Through cfg w (pathStart parent path) (pathNames path) := through
  unfold ProperPath at proper
  rw [← namesOf_lookupPieces] at through ⊢
  unfold pathStart at through ⊢
  unfold startDir
  split_ifs at through ⊢ with absolute
  · obtain ⟨ds, is⟩ := components_absolute absolute
    obtain ⟨init, last, isConcat⟩ := components_eq_concat ds
    have isComponents : components path.toList = ("" :: init) ++ [last] := by rw [is, isConcat, List.cons_append]
    rw [is, isConcat, List.tail_cons, List.dropLast_concat] at proper
    rw [lookupPieces_eq isComponents, List.map_cons, List.cons_append, namesOf_cons_empty] at through ⊢
    exact alone_absolute dirs rfl (pieces_end proper) through agrees₁
  · obtain ⟨init, last, is⟩ := components_eq_concat path.toList
    have nonempty := nonempty_of_relative absolute proper
    rw [is, List.dropLast_concat] at nonempty
    rw [lookupPieces_eq is] at through ⊢
    exact alone_pieces dirs (pieces_end nonempty) (fun _ => mem) through agrees₁

theorem alone_fosLookupParent (dirs : w.Directories cfg D) (mem : D parent) (proper : ProperPath path)
    (through : w.ThroughDirs cfg parent path) (agrees : Agrees cfg w D c w') :
    Alone cfg c (fun r w₁ => (r.1.retval, r.1.inode) = w.follow cfg (pathStart parent path) (pathNames path).dropLast ∧ Agrees cfg w D c w₁)
      (fosLookupParent (cfg.client c) parent path cached) w' := by
  refine Ends.bind ((alone_check agrees).mono fun _ w₁ agrees₁ => ?_)
  by_cases empty : path = ""
  · subst empty
    exact Ends.ret stable_agrees agrees₁ fun _ agrees => ⟨rfl, agrees⟩
  rw [if_neg empty]
  obtain ⟨body, isNames, head, inner, isParent⟩ := splitParent_spec proper empty
  -- what the names of the parent lead to is a directory
  have through' : Through cfg w (pathStart parent path) (pathNames path).dropLast := fun ns x is ne reached => by
    refine through ns x (is.trans (List.dropLast_prefix _)) (fun same => ?_) reached
    rw [same] at is
    have le := is.length_le
    rw [List.length_dropLast] at le
    have nil : pathNames path = [] := List.length_eq_zero_iff.mp (by omega)
    rw [same, nil] at ne
    exact ne rfl
  have isDir : ∀ st x, w.follow cfg (pathStart parent path) (pathNames path).dropLast = (st, x) → x.type.isDir = true := fun st x is => by
    by_cases failed : st = .ok
    · subst failed
      by_cases none : pathNames path = []
      · rw [none] at is
        cases is
        unfold pathStart
        split_ifs
        · rfl
        · exact dirs.isDir parent mem
      · refine through _ x (List.dropLast_prefix _) (fun same => none ?_) is
        have length := congrArg List.length same
        rw [List.length_dropLast] at length
        have pos := List.length_pos_iff.mpr none
        omega
    · exact follow_isDir through' is failed
  have resolved : Alone cfg c (fun r w₁ => (r.retval, r.inode) = w.follow cfg (pathStart parent path) (pathNames path).dropLast ∧
      Agrees cfg w D c w₁) (fosResolvePieces (cfg.client c) (startDir parent path) cached ((splitParent path).1.map (·, false))) w₁ := by
    have nonempty : ∀ {ns : List Name}, (∀ n ∈ ns, n ≠ "") → ∀ piece ∈ ns.map (·, false), piece.1 = "" → piece.2 = true :=
      fun some piece isIn empty => by
        obtain ⟨n, isName, rfl⟩ := List.mem_map.mp isIn
        exact absurd empty (some n isName)
    rw [isNames]
    rw [← isParent] at through' ⊢
    unfold pathStart at through' ⊢
    unfold startDir
    split_ifs at through' ⊢ with absolute
    · obtain ⟨ds, is⟩ := components_absolute (head.trans absolute)
      rw [is, List.tail_cons] at inner
      rw [is, List.dropLast_cons_of_ne_nil (components_ne_nil ds), List.filter_cons_of_neg (by simp), ← @namesOf_map false] at through' ⊢
      exact alone_absolute dirs rfl (nonempty inner) through' agrees₁
    · rw [← @namesOf_map false] at through' ⊢
      exact alone_pieces dirs (nonempty (nonempty_of_relative (head ▸ absolute) inner)) (fun _ => mem) through' agrees₁
  generalize splitParent path = parts at resolved ⊢
  obtain ⟨names, rest⟩ := parts
  refine Ends.bind (resolved.mono ?_)
  rintro r w₂ ⟨is, agrees₂⟩
  rw [if_pos (isDir _ _ is.symm)]
  exact Ends.ret stable_agrees agrees₂ fun _ agrees => ⟨is, agrees⟩

end

end Resolve

namespace Cluster

/-- A lookup gives the status and the inode of the names resolved one after the other, and the cache agrees with the servers again;
    so does the lookup of a parent, without the last name. -/
theorem lookups_as_uncached (cfg : Config) (c : Nat) (w : Cluster) (D : InodeType → Prop) (parent : InodeType) (path : Name) (cached : Bool)
    (dirs : w.Directories cfg D) (right : w.CacheRight cfg D (w.clients c).cache) (mem : D parent) (proper : ProperPath path)
    (through : w.ThroughDirs cfg parent path) :
    (fsSystem cfg).Ends c (fun _ => True) (fun found w' =>
        (found.retval, found.inode) = w.follow cfg (pathStart parent path) (pathNames path) ∧
          w'.CacheRight cfg D (w'.clients c).cache)
      (fosLookup (cfg.client c) parent path cached) w ∧
    (fsSystem cfg).Ends c (fun _ => True) (fun found w' =>
        (found.1.retval, found.1.inode) = w.follow cfg (pathStart parent path) (pathNames path).dropLast ∧
          w'.CacheRight cfg D (w'.clients c).cache)
      (fosLookupParent (cfg.client c) parent path cached) w := by
  have agrees : Resolve.Agrees cfg w D c w := ⟨fun i => ⟨(w.servers i).apps, rfl⟩, right⟩
  have again : ∀ w', Resolve.Agrees cfg w D c w' → w'.CacheRight cfg D (w'.clients c).cache := fun w' agrees p mem n x found => by
    rw [agrees.mapping]
    exact agrees.right p mem n x found
  exact ⟨(Resolve.alone_fosLookup dirs mem proper through agrees).mono fun _ w' holds => ⟨holds.1, again w' holds.2⟩,
    (Resolve.alone_fosLookupParent dirs mem proper through agrees).mono fun _ w' holds => ⟨holds.1, again w' holds.2⟩⟩

def treeD : InodeType := { server := 0, id := 2, type := .dir }

def tree : Cluster where
  servers i := { Server.boot i { start := 0, blocks := [], blocksFree := 0 } fun _ => 0 with
    files := ((∅ : AList fun _ : FileId => VFile).insert 2 (.dir (Dir.new false 511))).insert 0
      (.dir { Dir.new true 493 with children := (∅ : AList fun _ : Name => VFileLoc).insert "d" { loc := 1, inode := treeD } }) }
  clients _ := { cache := (∅ : DirCache).insert (0, "d") treeD, inbox := [], files := ∅, nextFile := 0 }

theorem mapping_tree_root {n : Name} : tree.mapping Server.oneServer root n = if n = "d" then (.ok, some treeD) else (.notFound, none) := by
  have owner : fosPathOwnern Server.oneServer root n = .ok 0 := by
    unfold fosPathOwnern
    split_ifs <;> rfl
  unfold Cluster.mapping
  rw [owner]
  simp only [tree, Server.mapping]
  rw [show root.id = 0 from rfl, AList.lookup_insert]
  by_cases isD : n = "d"
  · subst isD
    rfl
  · simp only [if_neg isD, AList.lookup_insert_ne isD]
    rfl

theorem directories_tree : tree.Directories Server.oneServer fun p => p = root ∨ p = treeD where
  isDir p mem := by rcases mem with rfl | rfl <;> rfl
  root := .inl rfl
  own p q mem mem' same := by
    rcases mem with rfl | rfl <;> rcases mem' with rfl | rfl
    · rfl
    · cases same
    · cases same
    · rfl
  entry p n st x mem found _ := by
    rcases mem with rfl | rfl
    · grind [mapping_tree_root]
    · cases found

theorem cacheRight_tree : tree.CacheRight Server.oneServer (fun p => p = root ∨ p = treeD) (tree.clients 0).cache := by
  intro p mem n x found
  rcases lookup_insert_some.mp found with ⟨key, rfl⟩ | ⟨-, none⟩
  · obtain ⟨isId, rfl⟩ := Prod.mk.inj key
    rcases mem with rfl | rfl
    · rw [if_neg (by decide), mapping_tree_root, if_pos rfl]
    · cases isId
  · cases none

theorem throughDirs_tree : tree.ThroughDirs Server.oneServer root "/d/x" := by
  intro names x is ne reached
  have isNames : pathNames "/d/x" = ["d", "x"] := by decide
  rw [isNames] at is ne
  rcases List.prefix_cons_iff.mp is with rfl | ⟨rest, rfl, isRest⟩
  · cases reached
    rfl
  · rcases List.prefix_cons_iff.mp isRest with rfl | ⟨rest, rfl, isNil⟩
    · cases (Resolve.follow_some (by decide) (mapping_tree_root.trans (if_pos rfl))).symm.trans reached
      rfl
    · exact absurd (congrArg (fun l => ["d", "x"] ++ l) (List.prefix_nil.mp isNil)) ne

theorem lookups_as_uncached_tree :
    (fsSystem Server.oneServer).Ends 0 (fun _ => True) (fun found w' =>
        (found.retval, found.inode) = tree.follow Server.oneServer (pathStart root "/d/x") (pathNames "/d/x") ∧
          w'.CacheRight Server.oneServer (fun p => p = root ∨ p = treeD) (w'.clients 0).cache)
      (fosLookup (Server.oneServer.client 0) root "/d/x" false) tree ∧
    (fsSystem Server.oneServer).Ends 0 (fun _ => True) (fun found w' =>
        (found.1.retval, found.1.inode) = tree.follow Server.oneServer (pathStart root "/d/x") (pathNames "/d/x").dropLast ∧
          w'.CacheRight Server.oneServer (fun p => p = root ∨ p = treeD) (w'.clients 0).cache)
      (fosLookupParent (Server.oneServer.client 0) root "/d/x" false) tree :=
  lookups_as_uncached Server.oneServer 0 tree _ root "/d/x" false directories_tree cacheRight_tree (.inl rfl) (by unfold ProperPath; decide)
    throughDirs_tree

end Cluster
end Faux
