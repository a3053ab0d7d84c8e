import Faux.Fs.Appending
import Faux.Theorems.Fs.Cluster
import Faux.Theorems.Fs.Data
import Faux.Theorems.Fs.Orphans

/-! Writers that share a descriptor append: every request of theirs is a piece at the end of the file, where the
    server has left the offset. -/

namespace Faux
open Function Lib System
variable {piece buf : List UInt8} {n c h : Nat} {plan : Plan} {order : List (Nat × List UInt8)} {fd : Fd} {s : Server}

theorem Server.write_within {d : FileDescriptor} {f : File} (isFd : s.fds.lookup fd = some d)
    (isFile : s.files.lookup d.id = some (.file f)) (solid : f.Solid s.bufferCache) (offset : d.offset ≤ f.size) (some : piece ≠ [])
    (fits : f.Fits s.bufferCache (d.offset + piece.length)) :
    ∃ g bc m, s.write fd piece = .ok ({ s with
          files := s.files.insert d.id (.file g), bufferCache := bc, mem := m
          fds := s.fds.insert fd { d with offset := d.offset + piece.length } }, .ok, piece.length) ∧
      g.Solid bc ∧ g.contents m = Bytes.write (f.contents s.mem) d.offset piece ∧
      g.memoryBlocks ++ bc.blocks = f.memoryBlocks ++ s.bufferCache.blocks := by
  obtain ⟨g, bc, m, done, written, blocks, free, same, -, -⟩ := File.write_spec (m := s.mem) solid fits
    (fun _ i past lt => absurd (Nat.lt_of_lt_of_le lt offset) (Nat.not_lt.mpr past))
  have count : Server.countStatus (piece.length : Int) = (.ok, piece.length) := by grind [Server.countStatus]
  exact ⟨g, bc, m, by simp only [write, isFd, writeInode, isFile, done, ok_bind, count], ⟨blocks, free, same ▸ solid.apart⟩, written, same⟩

theorem Server.write_end {d : FileDescriptor} {f : File} (isFd : s.fds.lookup fd = some d)
    (isFile : s.files.lookup d.id = some (.file f)) (solid : f.Solid s.bufferCache) (offset : d.offset = f.size) (some : piece ≠ [])
    (fits : f.Fits s.bufferCache (d.offset + piece.length)) :
    ∃ g bc m, s.write fd piece = .ok ({ s with
          files := s.files.insert d.id (.file g), bufferCache := bc, mem := m
          fds := s.fds.insert fd { d with offset := d.offset + piece.length } }, .ok, piece.length) ∧
      g.Solid bc ∧ g.size = f.size + piece.length ∧ g.contents m = f.contents s.mem ++ piece := by
  obtain ⟨g, bc, m, done, solid', written, -⟩ := write_within isFd isFile solid (Nat.le_of_eq offset) some fits
  rw [offset, ← File.length_contents (f := f) (m := s.mem), Bytes.write_length] at written
  have size : g.size = f.size + piece.length := by
    simpa using congrArg List.length written
  exact ⟨g, bc, m, done, solid', size, written⟩

theorem Server.write_atEnd {data : List UInt8} (atEnd : s.AtEnd fd data) (some : piece ≠ [])
    (fits : ∀ d f, s.fds.lookup fd = .some d → s.files.lookup d.id = .some (.file f) →
      f.Fits s.bufferCache (d.offset + piece.length)) :
    ∃ t, s.write fd piece = .ok (t, .ok, piece.length) ∧ t.AtEnd fd (data ++ piece) := by
  obtain ⟨d, f, isFd, isFile, solid, offset, contents⟩ := atEnd
  obtain ⟨g, bc, m, done, solid', size, written⟩ := write_end isFd isFile solid offset some (fits d f isFd isFile)
  refine ⟨_, done, _, g, AList.lookup_insert _, AList.lookup_insert _, solid', ?_, written.trans (by rw [contents])⟩
  simp only [size, offset]

/-! ### Pieces -/

theorem chunksOf_nil : chunksOf n [] = [] := by
  cases n <;> simp [chunksOf]

theorem chunksOf_eq : ∀ {k : Nat} {buf : List UInt8}, buf.length ≤ n → buf.length ≤ k → chunksOf n buf = chunksOf k buf := by
  induction n with
  | zero => simp [chunksOf_nil]
  | succ n ih =>
    intro k buf le le'
    by_cases nothing : buf = []
    · rw [nothing, chunksOf_nil, chunksOf_nil]
    · have pos := List.length_pos_iff.mpr nothing
      obtain ⟨k, rfl⟩ : ∃ j, k = j + 1 := ⟨k - 1, by omega⟩
      have rest : (buf.drop fsChunkSize).length < buf.length := by
        simp only [List.length_drop, fsChunkSize]
        omega
      simp [chunksOf, ih (show (buf.drop fsChunkSize).length ≤ n by omega) (show (buf.drop fsChunkSize).length ≤ k by omega)]

theorem chunks_nil : chunks [] = [] := rfl

theorem chunks_cons (some : buf ≠ []) : chunks buf = buf.take fsChunkSize :: chunks (buf.drop fsChunkSize) := by
  have pos := List.length_pos_iff.mpr some
  obtain ⟨n, isN⟩ : ∃ n, buf.length = n + 1 := ⟨buf.length - 1, by omega⟩
  have rest : (buf.drop fsChunkSize).length ≤ n := by
    simp only [List.length_drop, fsChunkSize]
    omega
  rw [chunks, isN, chunksOf, if_neg some, chunks, chunksOf_eq rest (Nat.le_refl _)]

theorem piecesOf_append {c' : Nat} {more : List (List UInt8)} :
    piecesOf (order ++ more.map (c, ·)) c' = piecesOf order c' ++ if c' = c then more else [] := by
  by_cases same : c' = c
  · simp [piecesOf, same, List.filter_map, Function.comp_def]
  · simp [piecesOf, same, Ne.symm same, List.filter_map, Function.comp_def]

theorem Plan.pieces_succ (found : (plan c)[n]? = some (h, buf)) :
    plan.pieces c (n + 1) = plan.pieces c n ++ chunks buf := by
  simp [pieces, List.take_add_one, found]

namespace Appending
open Cluster

abbrev Ghost := Option (List UInt8 × List UInt8)

def Sent (plan : Plan) (v : FsScene) (order : List (Nat × List UInt8)) (c : Nat) : Ghost → Prop
  | none => piecesOf order c = plan.pieces c (returns v c).length
  | some (buf, rest) => ∃ h part, (plan c)[(returns v c).length]? = some (h, buf) ∧ part ++ chunks rest = chunks buf ∧
      piecesOf order c = plan.pieces c (returns v c).length ++ part

variable {plan : Plan} {v : FsScene} {order : List (Nat × List UInt8)} {ghost : Nat → Ghost} {c : Nat} {f : AppFile}

theorem sent_pieces {rest rest' : List UInt8} {more : List (List UInt8)} (sent : ∀ c, Sent plan v order c (ghost c))
    (own : ghost c = some (buf, rest)) (next : chunks rest = more ++ chunks rest') (c' : Nat) :
    Sent plan v (order ++ more.map (c, ·)) c' (update ghost c (some (buf, rest')) c') := by
  have before := sent c'
  by_cases same : c' = c
  · subst same
    rw [own] at before
    obtain ⟨h, part, planned, left, sofar⟩ := before
    rw [update_self]
    refine ⟨h, part ++ more, planned, ?_, ?_⟩
    · rw [List.append_assoc, ← next]
      exact left
    · rw [piecesOf_append, if_pos rfl, sofar, List.append_assoc]
  · rw [update_of_ne same]
    have other : piecesOf (order ++ more.map (c, ·)) c' = piecesOf order c' := by
      rw [piecesOf_append, if_neg same, List.append_nil]
    cases isC : ghost c' with
    | none =>
      rw [isC] at before
      exact other.trans before
    | some pair =>
      rw [isC] at before
      obtain ⟨h, part, planned, left, sofar⟩ := before
      exact ⟨h, part, planned, left, other.trans sofar⟩

theorem sent_called (sent : ∀ c, Sent plan v order c (ghost c)) (idle : ghost c = none)
    (found : (plan c)[(returns v c).length]? = some (h, buf)) (c' : Nat) :
    Sent plan v order c' (update ghost c (some (buf, buf)) c') := by
  have before := sent c'
  by_cases same : c' = c
  · subst same
    rw [idle] at before
    rw [update_self]
    exact ⟨h, [], found, rfl, before.trans (List.append_nil _).symm⟩
  · rw [update_of_ne same]
    exact before

theorem returns_returned {v : FsScene} {c' : Nat} {x : Int} :
    returns (returned v c x) c' = returns v c' ++ if c' = c then [x] else [] := by
  by_cases same : c' = c
  · simp [returns, same]
  · simp [returns, same, Ne.symm same]

theorem sent_returned {x : Int} (sent : ∀ c, Sent plan v order c (ghost c)) (own : ghost c = some (buf, []))
    (c' : Nat) : Sent plan (returned v c x) order c' (update ghost c none c') := by
  have before := sent c'
  by_cases same : c' = c
  · subst same
    rw [own] at before
    obtain ⟨h, part, planned, left, sofar⟩ := before
    rw [update_self]
    simp only [Sent, returns_returned, if_true, List.length_append, List.length_singleton]
    rw [Plan.pieces_succ planned, sofar, ← left, chunks_nil, List.append_nil]
  · rw [update_of_ne same]
    cases isC : ghost c' <;> simp only [isC, Sent, returns_returned, if_neg same, List.append_nil] at before ⊢ <;> exact before

theorem results_returned (planned : (plan c)[(returns v c).length]? = some (h, buf))
    (results : ∀ c, returns v c = ((plan c).take (returns v c).length).map fun x => (x.2.length : Int)) (c' : Nat) :
    returns (returned v c buf.length) c' =
      ((plan c').take (returns (returned v c buf.length) c').length).map fun x => (x.2.length : Int) := by
  have before := results c'
  by_cases same : c' = c
  · subst same
    simp only [returns_returned, if_true, List.length_append, List.length_singleton, List.take_add_one, planned, Option.toList_some,
      List.map_append, List.map_cons, List.map_nil, ← before]
  · simp only [returns_returned, if_neg same, List.append_nil]
    exact before

structure Inv (i : Nat) (fd : Fd) (plan : Plan) (data : List UInt8) (v : FsScene) (ghost : Nat → Ghost)
    (order : List (Nat × List UInt8)) : Prop where
  shares : v.world.Shares i fd plan (data ++ order.flatMap (·.2))
  small : ∀ x ∈ order, x.2.length ≤ fsChunkSize
  sent : ∀ c, Sent plan v order c (ghost c)
  results : ∀ c, returns v c = ((plan c).take (returns v c).length).map fun x => (x.2.length : Int)

def spec (i : Nat) (fd : Fd) (plan : Plan) (data : List UInt8) : Spec Cluster Action Fault Int Ghost Action.Reply where
  inv v ghost := ∃ order, Inv i fd plan data v ghost order
  idle _ g := g = none
  post _ g x := ∃ buf, g = some (buf, []) ∧ x = buf.length
  fails _ := False

variable {cfg : Config} {i : Nat} {fd : Fd} {plan : Plan} {data : List UInt8} {α : Type} {c : Nat} {g : Ghost}

abbrev Fine (cfg : Config) (i : Nat) (fd : Fd) (plan : Plan) (data : List UInt8) (post : Ghost → α → Prop) (c : Nat) (g : Ghost)
    (p : FsProg α) : Prop := Ok (fsSystem cfg) (appendRules plan) (spec i fd plan data) post c g p

def Holds (i : Nat) (fd : Fd) (f : AppFile) : Prop := f.inode.server = i ∧ f.fd = fd

theorem fine_getFile {post : Ghost → Option AppFile → Prop} (planned : ∃ buf, (h, buf) ∈ plan c)
    (next : ∀ f, Holds i fd f → post g (some f)) : Fine cfg i fd plan data post c g (perform (.getFile h)) := by
  refine Ok.act fun v ghost e inv own _ => ?_
  obtain ⟨order, inv⟩ := inv
  obtain ⟨buf, mem⟩ := planned
  obtain ⟨f, found, holds⟩ := inv.shares.handles c _ mem
  refine ⟨v.world, some f, g, congrArg (fun r => Except.ok (v.world, r)) found, ⟨order, ?_⟩, next f holds⟩
  rw [← own, update_eq_self]
  exact ⟨inv.shares, inv.small, inv.sent, inv.results⟩

theorem fine_setFile {post : Ghost → Unit → Prop} (holds : Holds i fd f) (next : post g ()) :
    Fine cfg i fd plan data post c g (perform (.setFile h f)) := by
  refine Ok.act fun v ghost e inv own _ => ?_
  obtain ⟨order, inv⟩ := inv
  refine ⟨_, (), g, rfl, ⟨order, ?_⟩, next⟩
  rw [← own, update_eq_self]
  refine ⟨⟨inv.shares.atEnd, fun c' x mem => ?_⟩, inv.small, inv.sent, inv.results⟩
  obtain ⟨f', found, holds'⟩ := inv.shares.handles c' x mem
  by_cases same : c' = c
  · subst same
    simp only [setClient, update_self]
    by_cases this : x.1 = h
    · exact ⟨f, by rw [this]; exact AList.lookup_insert _, holds⟩
    · exact ⟨f', by rw [AList.lookup_insert_ne this]; exact found, holds'⟩
  · simp only [setClient, update_of_ne same]
    exact ⟨f', found, holds'⟩

theorem fine_piece {rest : List UInt8} {post : Ghost → Status × Nat → Prop} (holds : Holds i fd f) (some : rest ≠ [])
    (own : g = .some (buf, rest)) (next : post (.some (buf, rest.drop fsChunkSize)) (.ok, (rest.take fsChunkSize).length)) :
    Fine cfg i fd plan data post c g (rpc f.inode.server (.write f.fd (rest.take fsChunkSize))) := by
  refine Ok.act fun v ghost e inv isG allowed => ?_
  obtain ⟨order, inv⟩ := inv
  obtain ⟨rfl, rfl⟩ := holds
  have nonempty : rest.take fsChunkSize ≠ [] := by simp [some, fsChunkSize]
  obtain ⟨t, written, atEnd⟩ := Server.write_atEnd inv.shares.atEnd nonempty (allowed _ _ _ rfl)
  have handled : (v.world.servers f.inode.server).handle cfg e c (.write f.fd (rest.take fsChunkSize)) =
      .ok (t, (.ok, (rest.take fsChunkSize).length), []) := by
    simp only [Server.handle, written, ok_bind]
  obtain ⟨w, done, servers⟩ := exec_rpc handled
  refine ⟨w, _, .some (buf, rest.drop fsChunkSize), done, ⟨order ++ [(c, rest.take fsChunkSize)], ⟨?_, fun c' x mem => ?_⟩, ?_,
    fun c' => ?_, inv.results⟩, next⟩
  · simpa [servers] using atEnd
  · obtain ⟨f', found, holds'⟩ := inv.shares.handles c' x mem
    exact ⟨f', by rw [(request_files done c').1]; exact found, holds'⟩
  · intro x mem
    rcases List.mem_append.mp mem with old | new
    · exact inv.small x old
    · cases List.mem_singleton.mp new
      exact List.length_take_le ..
  · have next : chunks rest = [rest.take fsChunkSize] ++ chunks (rest.drop fsChunkSize) := chunks_cons some
    exact sent_pieces inv.sent (isG.trans own) next c'

theorem fine_fdWriteLoop (holds : Holds i fd f) : ∀ {fuel written : Nat} {rest : List UInt8} {g : Ghost},
    rest.length ≤ fuel → written + rest.length = buf.length → g = some (buf, rest) →
      Fine cfg i fd plan data (fun g x => g = some (buf, []) ∧ x = ((buf.length : Int), buf.length)) c g (f.fdWriteLoop fuel written rest) := by
  intro fuel
  induction fuel with
  | zero =>
    intro written rest g le sum own
    obtain rfl := List.length_eq_zero_iff.mp (Nat.le_zero.mp le)
    obtain rfl : written = buf.length := sum
    exact ⟨own, rfl⟩
  | succ fuel ih =>
    intro written rest g le sum own
    rw [AppFile.fdWriteLoop]
    by_cases nothing : rest = []
    · subst nothing
      obtain rfl : written = buf.length := sum
      rw [if_pos rfl]
      exact ⟨own, rfl⟩
    · rw [if_neg nothing]
      refine Ok.bind (fine_piece holds nothing own ?_)
      have pos := List.length_pos_iff.mpr nothing
      have length : (rest.take fsChunkSize).length = min fsChunkSize rest.length := List.length_take ..
      have chunk : 0 < fsChunkSize := by decide
      have drop : rest.drop (rest.take fsChunkSize).length = rest.drop fsChunkSize := by simp
      have notNone : (rest.take fsChunkSize).length ≠ 0 := by omega
      simp only [ne_eq, not_true_eq_false, if_false, notNone, drop]
      exact ih (by simp only [List.length_drop]; omega) (by simp only [List.length_drop]; omega) rfl

theorem fine_write (disabled : cfg.bufferCache = false) (holds : Holds i fd f)
    (own : g = some (buf, buf)) :
    Fine cfg i fd plan data (fun g x => g = some (buf, []) ∧ x = (buf.length : Int)) c g (f.write (cfg.client c) h buf) := by
  have touched : Holds i fd f.touch := by
    unfold AppFile.touch
    split <;> exact holds
  refine Ok.bind (fine_setFile touched ?_)
  have cached : (cfg.client c).bufferCache = false := disabled
  simp only [cached, Bool.false_eq_true, false_and, if_false]
  refine Ok.bind ((fine_fdWriteLoop touched (Nat.le_refl _) (Nat.zero_add _) own).mono ?_)
  rintro g' _ ⟨own', rfl⟩
  exact Ok.bind (fine_setFile touched ⟨own', rfl⟩)

theorem fine_code (disabled : cfg.bufferCache = false) (planned : (h, buf) ∈ plan c)
    (own : g = some (buf, buf)) :
    Fine cfg i fd plan data ((spec i fd plan data).post c) c g ((Op.write h buf).code (cfg.client c)) := by
  refine Ok.bind (fine_getFile ⟨buf, planned⟩ fun f holds => ?_)
  exact (fine_write disabled holds own).mono fun g x done => ⟨buf, done⟩

theorem sound (disabled : cfg.bufferCache = false) : Sound (fsSystem cfg) (appendRules plan) (spec i fd plan data) where
  call v ghost c o inv idle allowed := by
    obtain ⟨order, inv⟩ := inv
    obtain ⟨h, buf, found, rfl⟩ := allowed
    exact ⟨some (buf, buf), ⟨order, inv.shares, inv.small, sent_called inv.sent idle found, inv.results⟩,
      fine_code disabled (List.mem_of_getElem? found) rfl⟩
  ret v ghost c x inv post := by
    obtain ⟨order, inv⟩ := inv
    obtain ⟨buf, own, rfl⟩ := post
    obtain ⟨h, -, planned, -⟩ := own ▸ inv.sent c
    exact ⟨none, ⟨order, inv.shares, inv.small, sent_returned inv.sent own, results_returned planned inv.results⟩, rfl⟩
  intern v ghost j w inv done := by
    obtain ⟨order, inv⟩ := inv
    obtain ⟨servers, files⟩ := intern_files done
    refine ⟨order, ⟨by rw [servers]; exact inv.shares.atEnd, fun c' x mem => ?_⟩, inv.small, inv.sent, inv.results⟩
    rw [(files c').1]
    exact inv.shares.handles c' x mem

end Appending

/-! ### The result -/

namespace Cluster
open Appending

theorem chunks_flatten : ∀ {buf : List UInt8}, buf.length ≤ n → (chunks buf).flatten = buf := by
  induction n with
  | zero =>
    intro buf le
    obtain rfl := List.length_eq_zero_iff.mp (Nat.le_zero.mp le)
    rfl
  | succ n ih =>
    intro buf le
    by_cases nothing : buf = []
    · rw [nothing]
      rfl
    · have pos := List.length_pos_iff.mpr nothing
      rw [chunks_cons nothing, List.flatten_cons, ih (by simp only [List.length_drop, fsChunkSize]; omega), List.take_append_drop]

theorem sum_eq_of_keys {a b : List (Nat × Int)}
    (same : ∀ c, ((a.filter fun x => x.1 = c).map (·.2)).sum = ((b.filter fun x => x.1 = c).map (·.2)).sum) :
    (a.map (·.2)).sum = (b.map (·.2)).sum := by
  have split : ∀ (N : Nat) (l : List (Nat × Int)), (∀ x ∈ l, x.1 < N) →
      (l.map (·.2)).sum = ∑ c ∈ Finset.range N, ((l.filter fun x => x.1 = c).map (·.2)).sum := by
    intro N l
    induction l with
    | nil => simp
    | cons x l ih =>
      intro below
      have each : ∀ c, (((x :: l).filter fun y => y.1 = c).map (·.2)).sum =
          (if x.1 = c then x.2 else 0) + ((l.filter fun y => y.1 = c).map (·.2)).sum := fun c => by
        by_cases here : x.1 = c <;> simp [here]
      have mem : x.1 < N := below x (List.mem_cons_self ..)
      rw [List.map_cons, List.sum_cons, ih fun y memY => below y (List.mem_cons_of_mem _ memY)]
      simp only [each, Finset.sum_add_distrib, Finset.sum_ite_eq, Finset.mem_range, if_pos mem]
  obtain ⟨N, bound⟩ : ∃ N, ∀ x ∈ a ++ b, x.1 < N :=
    ⟨((a ++ b).map (·.1)).sum + 1, fun x mem => Nat.lt_succ_of_le (List.le_sum_of_mem (List.mem_map_of_mem mem))⟩
  rw [split N a fun x mem => bound x (List.mem_append_left _ mem), split N b fun x mem => bound x (List.mem_append_right _ mem)]
  exact Finset.sum_congr rfl fun c _ => same c

theorem sum_natCast {α : Type} {f : α → Nat} {l : List α} : (l.map fun x => (f x : Int)).sum = ((l.map f).sum : Nat) := by
  induction l with
  | nil => rfl
  | cons x l ih => simp [ih]

theorem sum_pieces {results : List Int}
    (isResults : results = ((plan c).take n).map fun x => (x.2.length : Int)) :
    ((plan.pieces c n).map fun p => (p.length : Int)).sum = results.sum := by
  subst isResults
  rw [Plan.pieces]
  generalize (plan c).take n = calls
  induction calls with
  | nil => rfl
  | cons x calls ih =>
    have one : ((chunks x.2).map fun p => (p.length : Int)).sum = x.2.length := by
      have flat := congrArg List.length (chunks_flatten (Nat.le_refl x.2.length))
      rw [sum_natCast, ← List.length_flatten, flat]
    simp [one, ih]

theorem intact_of_sent {s : FsConf} {ghost : Nat → Ghost}
    (sent : ∀ c, Sent plan s.toScene order c (ghost c))
    (results : ∀ c, returns s.toScene c = ((plan c).take (returns s.toScene c).length).map fun x => (x.2.length : Int))
    (idle : ∀ c, s.call c = none → ghost c = none) : s.Intact plan order := by
  have done : ∀ c, s.call c = none → piecesOf order c = plan.pieces c (returns s.toScene c).length := fun c isIdle => by
    have known := sent c
    rwa [idle c isIdle] at known
  refine ⟨fun c => ?_, fun c => ?_, done, results, fun allIdle => ?_⟩
  · have known := sent c
    cases isC : ghost c with
    | none =>
      rw [isC] at known
      exact known ▸ List.prefix_rfl
    | some pair =>
      rw [isC] at known
      obtain ⟨h, part, -, -, sofar⟩ := known
      exact ⟨part, sofar.symm⟩
  · have known := sent c
    cases isC : ghost c with
    | none =>
      rw [isC] at known
      rw [show piecesOf order c = _ from known, Plan.pieces, Plan.pieces, List.take_add_one, List.flatMap_append]
      exact List.prefix_append ..
    | some pair =>
      rw [isC] at known
      obtain ⟨h, part, planned, left, sofar⟩ := known
      rw [sofar, Plan.pieces_succ planned, ← left, ← List.append_assoc]
      exact List.prefix_append ..
  · have same := sum_eq_of_keys (a := order.map fun x => (x.1, (x.2.length : Int)))
      (b := s.log.map fun r => (r.client, r.result)) fun c => ?_
    · rw [List.length_flatMap, ← sum_natCast]
      simpa [List.map_map, Function.comp_def] using same
    · have pieces := sum_pieces (results c)
      rw [← done c (allIdle c)] at pieces
      simpa [piecesOf, returns, List.filter_map, List.map_map, Function.comp_def] using pieces

theorem appended_of_inv {i : Nat} {data : List UInt8} {s : FsConf} {ghost : Nat → Ghost}
    (inv : Inv i fd plan data s.toScene ghost order)
    (idle : ∀ c, s.call c = none → ghost c = none) : s.Appended i fd plan data order :=
  have intact := intact_of_sent inv.sent inv.results idle
  ⟨inv.shares.atEnd, inv.small, intact.started, intact.within, intact.done, intact.results, intact.total⟩

theorem appended_of_rules (cfg : Config) (i : Nat) (fd : Fd) (plan : Plan) (data : List UInt8) (disabled : cfg.bufferCache = false)
    (s : FsConf) (reach : Reach (fun s : FsConf => s.Start ∧ s.world.Shares i fd plan data) (appendRules plan).Allow (fsSystem cfg).step s) :
    (∃ order, s.Appended i fd plan data order) ∧ NoFault (fsSystem cfg) (appendRules plan) (fun _ => False) s := by
  have safe : Safe (fsSystem cfg) (appendRules plan) (spec i fd plan data) s := by
    refine safe_of_reach (sound disabled) (fun s start => ?_) reach
    obtain ⟨start, shares⟩ := start
    have noReturns : ∀ c, returns s.toScene c = [] := fun c => by simp [returns, start.log]
    refine ⟨fun _ => none, ⟨[], by simpa using shares, by simp, fun c => ?_, fun c => ?_⟩, fun c => ?_⟩
    · simp [Sent, noReturns c, piecesOf, Plan.pieces]
    · simp [noReturns c]
    · rw [start.call c]
      rfl
  refine ⟨?_, safe.noFault⟩
  obtain ⟨ghost, ⟨order, inv⟩, clients⟩ := safe
  refine ⟨order, appended_of_inv inv fun c isIdle => ?_⟩
  have known := clients c
  rw [isIdle] at known
  exact known

/-! ### Two writers -/

def shared : Cluster where
  servers i := { Server.boot i { start := 4096, blocks := [4096, 8192], blocksFree := 2 } fun _ => 0 with
    files := AList.singleton 5 (.file File.new), fds := AList.singleton 7 { count := 2, offset := 0, id := 5 } }
  clients _ :=
    { cache := ∅, inbox := [], nextFile := 1
      files := AList.singleton 0
        { inode := { server := 0, id := 5, type := .file }, fd := 7, blocks := [], size := 0, state := .invalid, offset := 0 } }

def twoWriters : Plan
  | 0 => [(0, [1])]
  | 1 => [(0, [2, 3])]
  | _ => []

theorem handles_twoWriters {x : Nat × List UInt8} (mem : x ∈ twoWriters c) : x.1 = 0 := by
  match c, mem with
  | 0, mem => exact congrArg Prod.fst (List.mem_singleton.mp mem)
  | 1, mem => exact congrArg Prod.fst (List.mem_singleton.mp mem)

theorem shares_shared : shared.Shares 0 7 twoWriters [] where
  atEnd := ⟨{ count := 2, offset := 0, id := 5 }, File.new, rfl, rfl,
    ⟨by simp [File.new, blocksNr], rfl, by simp [shared, Server.boot, File.new, Apart, blockSize]⟩, rfl, rfl⟩
  handles c x mem := ⟨_, by rw [handles_twoWriters mem]; rfl, rfl, rfl⟩

def checkAppend (plan : Plan) (s : FsConf) (l : FsLabel) : Bool :=
  checkAllow
    (fun v c o =>
      match o with
      | .write h buf => (plan c)[(returns v c).length]? = some (h, buf)
      | _ => false)
    (fun v _ _ a =>
      match a with
      | .rpc i (.write fd data) => ((v.world.servers i).fds.lookup fd).all fun d =>
        match (v.world.servers i).files.lookup d.id with
        | some (.file f) => f.Fits (v.world.servers i).bufferCache (d.offset + data.length)
        | _ => true
      | _ => true) s l

theorem allow_of_checkAppend (s : FsConf) (l : FsLabel) (checked : checkAppend plan s l = true) :
    (appendRules plan).Allow s l := by
  refine allow_of_check (fun v c o checked => ?_) (fun v c e a checked => ?_) s l checked
  · split at checked
    · next h buf => exact ⟨h, buf, of_decide_eq_true checked, rfl⟩
    · cases checked
  · rintro i fd data rfl d f isFd isFile
    simpa [isFd, isFile] using checked

def overlap : List FsLabel :=
  let e : Env := { rand := 0, rand' := 0, stats := [] }
  [.call 0 (.write 0 [1]), .call 1 (.write 0 [2, 3]), .act 0 e, .act 1 e, .act 0 e, .act 1 e, .act 1 e, .act 0 e, .act 0 e, .act 1 e,
    .ret 0, .ret 1]

theorem run_overlap : (run (fsSystem Server.oneServer).step (idle shared) overlap).map (fun s => s.log.map (·.result)) =
    some [1, 2] := by decide +kernel

theorem checked_overlap : checkRun (checkAppend twoWriters) (fsSystem Server.oneServer).step (idle shared) overlap = true := by
  decide +kernel

theorem appended_overlap : ∃ s, Reach (fun s : FsConf => s.Start ∧ s.world.Shares 0 7 twoWriters [])
      (appendRules twoWriters).Allow (fsSystem Server.oneServer).step s ∧ s.log.map (·.result) = [1, 2] ∧
    (∃ order, s.Appended 0 7 twoWriters [] order) ∧
      NoFault (fsSystem Server.oneServer) (appendRules twoWriters) (fun _ => False) s := by
  obtain ⟨s, ran, results⟩ := Option.map_eq_some_iff.mp run_overlap
  have reach : Reach (fun s : FsConf => s.Start ∧ s.world.Shares 0 7 twoWriters []) (appendRules twoWriters).Allow
      (fsSystem Server.oneServer).step s :=
    (Reach.init ⟨start_idle, shares_shared⟩).of_guarded (guarded_of_check allow_of_checkAppend _ checked_overlap) ran
  exact ⟨s, reach, results, appended_of_rules Server.oneServer 0 7 twoWriters [] rfl s reach⟩

end Cluster
end Faux
