import Faux.Fs.Transfer
import Faux.Lib.Alone
import Faux.Theorems.Channel.Drained
import Faux.Theorems.Fs.Appending

/-! Transfers of any size: the pieces that a client sends one after the other amount to one write of all bytes, and the pieces that
    it receives to one read, as long as the rings accept the first piece. They then accept all others. -/

namespace Faux
open Lib System

namespace Server
variable {s : Server} {fd : Fd} {offset room : Nat} {data : List UInt8}

/-- A WRITE within the room of the file puts its bytes at the offset of the descriptor and moves it. -/
theorem write_fileAt {piece : List UInt8} (fileAt : s.FileAt fd offset data room) (some : piece ≠ []) (le : offset ≤ data.length)
    (fits : blocksNr (offset + piece.length) ≤ room) (small : offset + piece.length < sizeMod) :
    ∃ t, s.write fd piece = .ok (t, .ok, piece.length) ∧ t.FileAt fd (offset + piece.length) (Bytes.write data offset piece) room := by
  obtain ⟨d, f, isFd, isFile, solid, rfl, rfl, rfl⟩ := fileAt
  rw [File.length_contents] at le
  obtain ⟨g, bc, m, done, solid', written, blocks⟩ := write_within isFd isFile solid le some ⟨small, fits⟩
  refine ⟨_, done, _, g, AList.lookup_insert _, AList.lookup_insert _, solid', rfl, written, ?_⟩
  simpa only [List.length_append] using congrArg List.length blocks

theorem countStatus_length {α : Type} {l : List α} : countStatus (l.length : Int) = (.ok, l.length) := by
  cases l with
  | nil => rfl
  | cons a l => rw [countStatus, if_pos (by simp only [List.length_cons]; omega), Int.toNat_natCast]

theorem read_fileAt (fileAt : s.FileAt fd offset data room) (count : Nat) :
    ∃ t, s.read fd count = .ok (t, .ok, (Bytes.read data offset count).length, Bytes.read data offset count) ∧
      t.FileAt fd (offset + (Bytes.read data offset count).length) data room := by
  obtain ⟨d, f, isFd, isFile, solid, rfl, rfl, rfl⟩ := fileAt
  refine ⟨_, by simp only [read, isFd, readInode, isFile, File.read_spec solid.blocks, ok_bind, countStatus_length]; rfl, ?_⟩
  exact ⟨_, f, AList.lookup_insert _, isFile, solid, rfl, rfl, rfl⟩

theorem lseek_fileAt (fileAt : s.FileAt fd offset data room) (pos : Nat) :
    ∃ t, s.lseek fd pos .set = .ok (t, pos) ∧ t.FileAt fd pos data room := by
  obtain ⟨d, f, isFd, isFile, solid, rfl, rfl, rfl⟩ := fileAt
  refine ⟨_, by simp only [lseek, isFd, isFile, seekTo, ok_bind]; rfl, ?_⟩
  exact ⟨_, f, AList.lookup_insert _, isFile, solid, rfl, rfl, rfl⟩

end Server

/-! ### Messages through drained rings -/

namespace ChannelSys
variable {s : ChannelSys} {pos size : Nat}

theorem Quiet.aligned (quiet : s.Quiet) : s.chan.head % cachelineSize = 0 ∧ s.chan.head < sharedSize := by
  obtain ⟨T, N, H, cs, ring, ptrs⟩ := inv_of_reach quiet.reached
  have aligned := ring.aligned
  rw [ptrs.head]
  simp only [sharedSize, cachelineSize] at *
  omega

/-- After a message the ring accepts every message that is not longer: one that is too long for half of the ring leaves the head
    beyond the middle, or at the start. -/
theorem accepts_after {size' : Nat} (aligned : pos % cachelineSize = 0 ∧ pos < sharedSize)
    (le : size ≤ fsChunkSize + sizeofWriteRequest) (shorter : size' ≤ size) :
    Accepts (headAfter pos (channelMessageSize (size + sizeofDispatchHeader))) size' := by
  rw [channelMessageSize_eq (protocol_le le)]
  unfold Accepts headAfter at *
  split_ifs <;> simp only [sharedSize, cachelineSize, sizeofMessage, sizeofDispatchHeader, fsChunkSize, sizeofWriteRequest] at * <;> omega

theorem accepts_short (short : size ≤ 40) : Accepts pos size := by
  simp only [Accepts, sharedSize, sizeofDispatchHeader, sizeofMessage]
  omega

theorem headAfter_short (aligned : pos % cachelineSize = 0 ∧ pos < sharedSize) (short : size ≤ 40) :
    headAfter pos (channelMessageSize (size + sizeofDispatchHeader)) = (pos + cachelineSize) % sharedSize := by
  have le : size ≤ fsChunkSize + sizeofWriteRequest := by simp only [fsChunkSize, sizeofWriteRequest]; omega
  rw [channelMessageSize_eq (protocol_le le)]
  unfold headAfter
  split_ifs <;> simp only [sharedSize, cachelineSize, sizeofMessage, sizeofDispatchHeader] at * <;> omega

end ChannelSys

/-! ### Actions of the client -/

namespace Transfer
open Cluster Wired ChannelSys

/-- Client `c` runs the program alone, and its messages go through the rings. -/
abbrev Alone {α : Type} (cfg : Config) (c : Nat) (post : α → Wired → Prop) (p : FsProg α) (w : Wired) : Prop :=
  (wireSystem cfg).Ends c (fun _ => True) post p w

instance : Nonempty (Env × (Nat → UInt8)) := ⟨⟨0, 0, []⟩, fun _ => 0⟩

variable {cfg : Config} {c h i : Nat} {fd : Fd} {offset room : Nat} {data : List UInt8} {w : Wired} {Q : Nat → Nat → Prop}
  {f : AppFile}

/-- The client is ready, and the heads of the rings are as `Q` says. -/
def At (w : Wired) (c h i : Nat) (fd : Fd) (offset : Nat) (data : List UInt8) (room : Nat) (Q : Nat → Nat → Prop) : Prop :=
  w.Ready c h i fd offset data room ∧ Q w.requests.chan.head w.replies.chan.head

theorem stable_at : (wireSystem cfg).Stable fun w => At w c h i fd offset data room Q := by
  rintro w w' j ⟨ready, heads⟩ stepped
  obtain ⟨cluster, moved, rfl⟩ := Option.map_eq_some_iff.mp stepped
  obtain ⟨servers, files⟩ := intern_files moved
  obtain ⟨f, found, holds⟩ := ready.transfers.handle
  exact ⟨⟨⟨servers ▸ ready.transfers.file, f, (files c).1.symm ▸ found, holds⟩, ready.requests, ready.replies⟩, heads⟩

theorem alone_getFile (ready : At w c h i fd offset data room Q) :
    Alone cfg c (fun r w' => ∃ f, r = some f ∧ Appending.Holds i fd f ∧ At w' c h i fd offset data room Q) (perform (.getFile h)) w := by
  refine Ends.perform stable_at ready fun w' e ready' => ?_
  obtain ⟨f, found, holds⟩ := ready'.1.transfers.handle
  refine ⟨w', some f, congrArg (fun r => Except.ok (w', r)) found, trivial, ?_, f, rfl, holds, ready'⟩
  rintro w₁ w₂ j ⟨g, isG, holds, ready⟩ stepped
  exact ⟨g, isG, holds, stable_at _ _ _ ready stepped⟩

theorem alone_setFile (holds : Appending.Holds i fd f) (ready : At w c h i fd offset data room Q) :
    Alone cfg c (fun _ w' => At w' c h i fd offset data room Q) (perform (.setFile h f)) w := by
  refine Ends.perform stable_at ready fun w' e ready' => ⟨_, (), rfl, trivial, stable_at, ⟨⟨ready'.1.transfers.file, f, ?_, holds⟩,
    ready'.1.requests, ready'.1.replies⟩, ready'.2⟩
  simp only [setClient, Function.update_self]
  exact AList.lookup_insert _

/-- A request to the server of the file after which the descriptor is at another offset, or the file has other bytes. -/
theorem alone_request {q : Request} {r : q.Reply} {offset' size : Nat} {data' : List UInt8} {P : Nat → Nat → Prop}
    (ready : At w c h i fd offset data room Q)
    (handled : ∀ s : Server, s.FileAt fd offset data room → ∀ e, ∃ t, s.handle cfg e c q = .ok (t, r, []) ∧ t.FileAt fd offset' data' room)
    (isSize : q.transferSize = some size) (bound : size ≤ fsChunkSize + sizeofWriteRequest)
    (bound' : q.replySize ≤ fsChunkSize + sizeofWriteRequest) (sent : ∀ m d, q.sentSize m d r ≤ q.replySize)
    (accepts : ∀ m n, Q m n → Accepts m size ∧ Accepts n q.replySize)
    (moves : ∀ m n, Q m n → (m % cachelineSize = 0 ∧ m < sharedSize) → (n % cachelineSize = 0 ∧ n < sharedSize) →
      P (headAfter m (channelMessageSize (size + sizeofDispatchHeader)))
        (headAfter n (channelMessageSize (q.replySize + sizeofDispatchHeader)))) :
    Alone cfg c (fun r' w' => r' = r ∧ At w' c h i fd offset' data' room P) (rpc i q) w := by
  refine Ends.perform stable_at ready fun w' e ready' => ?_
  obtain ⟨⟨transfers, requests, replies⟩, heads⟩ := ready'
  have length : ∀ n, (Wired.message e.2 n).length = n + sizeofDispatchHeader := fun n => by simp [Wired.message]
  obtain ⟨there, went, quiet, head⟩ := requests.pass (p := Wired.message e.2 size) bound
    (by rw [length]; exact Nat.le_add_left ..) (by rw [length]) (accepts _ _ heads).1
  obtain ⟨t, answered, fileAt⟩ := handled _ transfers.file e.1
  obtain ⟨cluster, done, servers⟩ := exec_rpc answered
  have short := sent w'.replies.chan.shared 0
  obtain ⟨back, came, quiet', head'⟩ := replies.pass
    (p := Wired.message e.2 (q.sentSize w'.replies.chan.shared 0 r)) bound'
    (by rw [length]; exact Nat.le_add_left ..) (by rw [length]; omega) (accepts _ _ heads).2
  obtain ⟨f, found, holds⟩ := transfers.handle
  have done' : w'.cluster.request cfg c e.1 i q = .ok (cluster, r) := done
  refine ⟨⟨cluster, there, back⟩, r, ?_, trivial, fun _ _ _ known stepped => ⟨known.1, stable_at _ _ _ known.2 stepped⟩, rfl,
    ⟨⟨?_, f, ?_, holds⟩, quiet, quiet'⟩, ?_⟩
  · show w'.request cfg c e.1 e.2 i q = _
    simp only [Wired.request, isSize, Option.bind_some, went, done', ok_bind, came]
  · rw [servers, Function.update_self]
    exact fileAt
  · rw [(request_files done' c).1]
    exact found
  · rw [head, head']
    exact moves _ _ heads requests.aligned replies.aligned

/-- A request that a ring does not accept ends everything. -/
theorem not_alone_request {β : Type} {q : Request} {size : Nat} {post : β → Wired → Prop} {k : q.Reply → FsProg β}
    (ready : w.Ready c h i fd offset data room) (isSize : q.transferSize = some size) (bound : size ≤ fsChunkSize + sizeofWriteRequest)
    (bound' : q.replySize ≤ fsChunkSize + sizeofWriteRequest)
    (full : ¬(Accepts w.requests.chan.head size ∧ Accepts w.replies.chan.head q.replySize)) :
    ¬Alone cfg c post (rpc i q >>= k) w := by
  intro ends
  obtain ⟨w₂, r, done, -⟩ := ends w .refl (⟨0, 0, []⟩, fun _ => 0)
  have done : w.request cfg c ⟨0, 0, []⟩ (fun _ => 0) i q = .ok (w₂, r) := done
  simp only [Wired.request, isSize, Option.bind_some] at done
  by_cases accepts : Accepts w.requests.chan.head size
  · have noReply := fun p => ready.replies.pass_eq_none (p := p) bound' fun accepts' => full ⟨accepts, accepts'⟩
    split at done
    · cases done
    · obtain ⟨⟨cluster, reply⟩, -, done⟩ := bind_eq_ok.mp done
      simp only [noReply] at done
      cases done
  · rw [ready.requests.pass_eq_none bound accepts] at done
    cases done

/-! ### Loops -/

theorem pieces_succ {count n : Nat} (some : count ≠ 0) (isPiece : n = min count fsChunkSize) :
    pieces count = pieces (count - n) + 1 := by
  simp only [pieces, fsChunkSize] at *
  omega

/-- The ring of the requests accepts the first piece, and the head of the other ring is at `pos`. -/
def Writes (count pos m n : Nat) : Prop := Accepts m (sizeofWriteRequest + min count fsChunkSize) ∧ n = pos

theorem alone_fdWriteLoop (holds : Appending.Holds i fd f) :
    ∀ {fuel offset pos : Nat} (written : Nat) (buf : List UInt8) {data : List UInt8} {w : Wired},
    buf.length ≤ fuel → offset ≤ data.length → blocksNr (offset + buf.length) ≤ room → offset + buf.length < sizeMod → pos < sharedSize →
    At w c h i fd offset data room (Writes buf.length pos) →
      Alone cfg c (fun r w' => r = (((written + buf.length : Nat) : Int), written + buf.length) ∧
        At w' c h i fd (offset + buf.length) (Bytes.write data offset buf) room
          fun _ n => n = (pos + pieces buf.length * cachelineSize) % sharedSize)
      (f.fdWriteLoop fuel written buf) w := by
  have done : ∀ {written offset pos : Nat} {data : List UInt8} {w : Wired}, pos < sharedSize →
      At w c h i fd offset data room (Writes 0 pos) →
      Alone cfg c (fun r w' => r = (((written + ([] : List UInt8).length : Nat) : Int), written + ([] : List UInt8).length) ∧
        At w' c h i fd (offset + ([] : List UInt8).length) (Bytes.write data offset []) room
          fun _ n => n = (pos + pieces ([] : List UInt8).length * cachelineSize) % sharedSize) (.ret ((written : Int), written)) w :=
    fun inside ready => Ends.ret stable_at ready fun _ ready => ⟨rfl, ready.1, ready.2.2.trans (Nat.mod_eq_of_lt inside).symm⟩
  intro fuel
  induction fuel with
  | zero =>
    intro offset pos written buf data w le _ _ _ inside ready
    obtain rfl := List.length_eq_zero_iff.mp (Nat.le_zero.mp le)
    exact done inside ready
  | succ fuel ih =>
    intro offset pos written buf data w le within fits small inside ready
    rw [AppFile.fdWriteLoop]
    by_cases nothing : buf = []
    · subst nothing
      rw [if_pos rfl]
      exact done inside ready
    -- one piece is written, and the rest by induction
    obtain ⟨piece, isPiece⟩ : ∃ piece, buf.take fsChunkSize = piece := ⟨_, rfl⟩
    have some : piece ≠ [] := by
      rw [← isPiece]
      simp [nothing, fsChunkSize]
    have pos' := List.length_pos_iff.mpr some
    have split : piece ++ buf.drop piece.length = buf := by
      have prefixed : piece <+: buf := isPiece ▸ List.take_prefix ..
      obtain ⟨rest, rfl⟩ := prefixed
      rw [List.drop_left]
    have length : piece.length + (buf.drop piece.length).length = buf.length := by rw [← List.length_append, split]
    have isMin : piece.length = min buf.length fsChunkSize := by rw [← isPiece, List.length_take, Nat.min_comm]
    have count := pieces_succ (Nat.ne_of_gt (List.length_pos_iff.mpr nothing)) isMin
    have rest : buf.length - piece.length = (buf.drop piece.length).length := by omega
    have bound : sizeofWriteRequest + piece.length ≤ fsChunkSize + sizeofWriteRequest := by omega
    rw [if_neg nothing, isPiece, holds.1, holds.2]
    refine Ends.bind ((alone_request (q := .write fd piece) (P := Writes (buf.drop piece.length).length ((pos + cachelineSize) % sharedSize))
      ready (fun s fileAt e => ?_) rfl bound (by decide : 12 ≤ _) (fun _ _ => Nat.le_refl _)
      (fun m n heads => ⟨isMin ▸ heads.1, accepts_short (by decide : 12 ≤ 40)⟩)
      (fun m n heads aligned aligned' => ⟨accepts_after aligned bound (by omega), ?_⟩) :
      Alone cfg c (fun r w' => r = (.ok, piece.length) ∧
        At w' c h i fd (offset + piece.length) (Bytes.write data offset piece) room _) _ w).mono ?_)
    · obtain ⟨t, written, fileAt'⟩ := Server.write_fileAt fileAt some within (Nat.le_trans (blocksNr_mono (by omega)) fits) (by omega)
      exact ⟨t, by simp only [Server.handle, written, ok_bind], fileAt'⟩
    · rw [← heads.2]
      exact headAfter_short aligned' (by decide : 12 ≤ 40)
    · rintro _ w' ⟨rfl, ready'⟩
      simp only [ne_eq, not_true_eq_false, if_false, Nat.pos_iff_ne_zero.mp pos']
      have next := ih (written + piece.length) (buf.drop piece.length) (by omega)
        (by rw [Bytes.length_write some]; omega) (Nat.le_trans (blocksNr_mono (by omega)) fits) (by omega)
        (Nat.mod_lt _ (by decide)) ready'
      rw [Bytes.write_append, split, Nat.add_assoc, Nat.add_assoc, length] at next
      have heads : ((pos + cachelineSize) % sharedSize + pieces (buf.drop piece.length).length * cachelineSize) % sharedSize =
          (pos + pieces buf.length * cachelineSize) % sharedSize := by
        rw [count, rest, Nat.mod_add_mod, Nat.add_mul]
        congr 1
        omega
      rw [heads] at next
      exact next

/-- The ring of the replies accepts the first piece. -/
def Reads (count _ n : Nat) : Prop := Accepts n (sizeofReadReply + min count fsChunkSize)

theorem alone_fdReadLoop (holds : Appending.Holds i fd f) : ∀ {fuel offset : Nat} (count : Nat) (got : List UInt8) {w : Wired},
    count ≤ fuel → At w c h i fd offset data room (Reads count) →
      Alone cfg c (fun r w' => r = (((got ++ Bytes.read data offset count).length : Int), got ++ Bytes.read data offset count) ∧
        At w' c h i fd (offset + (Bytes.read data offset count).length) data room fun _ _ => True) (f.fdReadLoop fuel got count) w := by
  have done : ∀ {offset count count' : Nat} {got : List UInt8} {w : Wired}, Bytes.read data offset count = [] →
      At w c h i fd offset data room (Reads count') →
      Alone cfg c (fun r w' => r = (((got ++ Bytes.read data offset count).length : Int), got ++ Bytes.read data offset count) ∧
        At w' c h i fd (offset + (Bytes.read data offset count).length) data room fun _ _ => True) (.ret ((got.length : Int), got)) w := by
    intro offset count count' got w nothing ready
    rw [nothing, List.append_nil]
    exact Ends.ret stable_at ready fun _ ready => ⟨rfl, ready.1, trivial⟩
  intro fuel
  induction fuel with
  | zero =>
    intro offset count got w le ready
    obtain rfl := Nat.le_zero.mp le
    exact done Bytes.read_zero ready
  | succ fuel ih =>
    intro offset count got w le ready
    rw [AppFile.fdReadLoop]
    by_cases none : count = 0
    · subst none
      rw [if_pos rfl]
      exact done Bytes.read_zero ready
    rw [if_neg none, holds.1, holds.2]
    have length := @Bytes.length_read data offset (min count fsChunkSize)
    have bound : sizeofReadReply + min count fsChunkSize ≤ fsChunkSize + sizeofWriteRequest := by
      simp only [sizeofReadReply, sizeofWriteRequest]
      omega
    refine Ends.bind ((alone_request (q := .read fd (min count fsChunkSize)) (P := Reads (count - (Bytes.read data offset (min count fsChunkSize)).length))
      ready (fun s fileAt e => ?_) rfl (by decide : 16 ≤ _) bound (fun m d => ?_)
      (fun m n heads => ⟨accepts_short (by decide), heads⟩)
      (fun m n heads aligned aligned' => accepts_after aligned' bound ?_) :
      Alone cfg c (fun r w' => r = (.ok, (Bytes.read data offset (min count fsChunkSize)).length, Bytes.read data offset (min count fsChunkSize)) ∧
        At w' c h i fd (offset + (Bytes.read data offset (min count fsChunkSize)).length) data room _) _ w).mono ?_)
    · obtain ⟨t, answered, fileAt'⟩ := Server.read_fileAt fileAt (min count fsChunkSize)
      exact ⟨t, by simp only [Server.handle, answered, ok_bind], fileAt'⟩
    · simp only [Request.sentSize, Request.replySize]
      omega
    · simp only [Request.replySize]
      omega
    · rintro _ w' ⟨rfl, ready'⟩
      have whole := @Bytes.read_append data _ offset _ (Nat.min_le_left count fsChunkSize)
      generalize Bytes.read data offset (min count fsChunkSize) = new at whole length ready' ⊢
      simp only [ne_eq, not_true_eq_false, if_false]
      by_cases atEnd : new.length = 0
      · obtain rfl := List.length_eq_zero_iff.mp atEnd
        rw [if_pos atEnd]
        refine done (List.length_eq_zero_iff.mp ?_) ready'
        have chunk : 0 < fsChunkSize := by decide
        rw [Bytes.length_read]
        rw [atEnd] at length
        omega
      · rw [if_neg atEnd]
        have next := ih (count - new.length) (got ++ new) (by omega) ready'
        rw [List.append_assoc, whole, Nat.add_assoc, ← List.length_append, whole] at next
        exact next

/-! ### Calls -/

theorem holds_touch (holds : Appending.Holds i fd f) : Appending.Holds i fd f.touch := by
  unfold AppFile.touch
  split <;> exact holds

section
variable (disabled : cfg.bufferCache = false)
include disabled

theorem alone_write {buf : List UInt8} {pos : Nat} (inside : pos < sharedSize) (within : offset ≤ data.length)
    (fits : blocksNr (offset + buf.length) ≤ room) (small : offset + buf.length < sizeMod)
    (ready : At w c h i fd offset data room (Writes buf.length pos)) :
    Alone cfg c (fun r w' => r = (buf.length : Int) ∧ At w' c h i fd (offset + buf.length) (Bytes.write data offset buf) room
        fun _ n => n = (pos + pieces buf.length * cachelineSize) % sharedSize)
      (onFile h fun f => f.write (cfg.client c) h buf) w := by
  refine Ends.bind ((alone_getFile ready).mono ?_)
  rintro _ w₁ ⟨f, rfl, holds, ready₁⟩
  refine Ends.bind ((alone_setFile (holds_touch holds) ready₁).mono fun _ w₂ ready₂ => ?_)
  have cached : (cfg.client c).bufferCache = false := disabled
  simp only [cached, Bool.false_eq_true, false_and, if_false]
  refine Ends.bind ((alone_fdWriteLoop (holds_touch holds) 0 buf (Nat.le_refl _) within fits small inside ready₂).mono ?_)
  rintro _ w₃ ⟨rfl, ready₃⟩
  rw [Nat.zero_add]
  have moved : Appending.Holds i fd { f.touch with offset := f.touch.offset + buf.length } := holds_touch holds
  refine Ends.bind ((alone_setFile moved ready₃).mono fun _ w₄ ready₄ => ?_)
  exact Ends.ret stable_at ready₄ fun _ ready => ⟨rfl, ready⟩

theorem alone_lseek {pos : Nat} (off : Nat) (ready : At w c h i fd offset data room fun _ n => n = pos) :
    Alone cfg c (fun r w' => r = (off : Int) ∧ At w' c h i fd off data room fun _ n => n = (pos + cachelineSize) % sharedSize)
      (onFile h fun f => f.lseek (cfg.client c) h off .set) w := by
  refine Ends.bind ((alone_getFile ready).mono ?_)
  rintro _ w₁ ⟨f, rfl, ⟨isServer, isFd⟩, ready₁⟩
  have cached : (cfg.client c).bufferCache = false := disabled
  simp only [AppFile.lseek, cached, Bool.false_eq_true, false_and, if_false]
  rw [isServer, isFd]
  refine Ends.bind ((alone_request (q := .lseek fd off .set) (P := fun _ n => n = (pos + cachelineSize) % sharedSize) ready₁
    (fun s fileAt e => ?_) rfl (by decide : 20 ≤ _) (by decide : 12 ≤ _) (fun _ _ => Nat.le_refl _)
    (fun m n heads => ⟨accepts_short (by decide : 20 ≤ 40), accepts_short (by decide : 12 ≤ 40)⟩)
    (fun m n heads aligned aligned' => heads ▸ headAfter_short aligned' (by decide : 12 ≤ 40)) :
    Alone cfg c (fun r w' => r = off ∧ At w' c h i fd off data room _) _ w₁).mono ?_)
  · obtain ⟨t, sought, fileAt'⟩ := Server.lseek_fileAt fileAt off
    exact ⟨t, by simp only [Server.handle, sought, ok_bind], fileAt'⟩
  · rintro back w₂ ⟨isBack, ready₂⟩
    exact Ends.ret stable_at ready₂ fun _ ready => ⟨congrArg Int.ofNat isBack, ready⟩

theorem alone_read (count : Nat) (ready : At w c h i fd offset data room (Reads count)) :
    Alone cfg c (fun r w' => r = (((Bytes.read data offset count).length : Int), Bytes.read data offset count) ∧
      At w' c h i fd (offset + (Bytes.read data offset count).length) data room fun _ _ => True)
      (readFile (cfg.client c) h count) w := by
  refine Ends.bind ((alone_getFile ready).mono ?_)
  rintro _ w₁ ⟨f, rfl, holds, ready₁⟩
  refine Ends.bind ((alone_setFile (holds_touch holds) ready₁).mono fun _ w₂ ready₂ => ?_)
  have cached : (cfg.client c).bufferCache = false := disabled
  simp only [cached, Bool.false_eq_true, false_and, if_false]
  exact alone_fdReadLoop (holds_touch holds) count [] (Nat.le_refl _) ready₂

/-- A write that ends has found the place for its first piece. -/
theorem accepts_of_write {post : Int → Wired → Prop} {buf : List UInt8} (ready : w.Ready c h i fd offset data room)
    (ends : Alone cfg c post (onFile h fun f => f.write (cfg.client c) h buf) w) :
    Accepts w.requests.chan.head (sizeofWriteRequest + min buf.length fsChunkSize) := by
  by_contra full
  have start : At w c h i fd offset data room fun m _ => m = w.requests.chan.head := ⟨ready, rfl⟩
  obtain ⟨_, w₁, ends₁, f, rfl, holds, ready₁⟩ := Ends.meet (Ends.of_bind ends) (alone_getFile start)
  obtain ⟨_, w₂, ends₂, ready₂⟩ := Ends.meet (Ends.of_bind ends₁) (alone_setFile (holds_touch holds) ready₁)
  have cached : (cfg.client c).bufferCache = false := disabled
  simp only [cached, Bool.false_eq_true, false_and, if_false] at ends₂
  have first := Ends.of_bind ends₂
  cases buf with
  | nil => exact full (accepts_short (by decide))
  | cons b buf =>
    have length : ((b :: buf).take fsChunkSize).length = min (b :: buf).length fsChunkSize := by rw [List.length_take, Nat.min_comm]
    rw [List.length_cons, AppFile.fdWriteLoop, if_neg (List.cons_ne_nil b buf), (holds_touch holds).1, (holds_touch holds).2] at first
    refine not_alone_request ready₂.1 rfl ?_ (by decide : 12 ≤ _) (fun accepts => full ?_) first
    · rw [length]
      omega
    · rw [← length, ← ready₂.2]
      exact accepts.1

theorem accepts_of_read {post : Int × List UInt8 → Wired → Prop} {count : Nat} (ready : w.Ready c h i fd offset data room)
    (ends : Alone cfg c post (readFile (cfg.client c) h count) w) :
    Accepts w.replies.chan.head (sizeofReadReply + min count fsChunkSize) := by
  by_contra full
  have start : At w c h i fd offset data room fun _ n => n = w.replies.chan.head := ⟨ready, rfl⟩
  obtain ⟨_, w₁, ends₁, f, rfl, holds, ready₁⟩ := Ends.meet (Ends.of_bind ends) (alone_getFile start)
  obtain ⟨_, w₂, ends₂, ready₂⟩ := Ends.meet (Ends.of_bind ends₁) (alone_setFile (holds_touch holds) ready₁)
  have cached : (cfg.client c).bufferCache = false := disabled
  simp only [cached, Bool.false_eq_true, false_and, if_false] at ends₂
  cases count with
  | zero => exact full (accepts_short (by decide))
  | succ count =>
    rw [AppFile.fdReadLoop, if_neg (Nat.succ_ne_zero _), (holds_touch holds).1, (holds_touch holds).2] at ends₂
    refine not_alone_request ready₂.1 rfl (by decide : 16 ≤ _) ?_ (fun accepts => full ?_) ends₂
    · simp only [Request.replySize, sizeofReadReply, sizeofWriteRequest]
      omega
    · rw [← ready₂.2]
      exact accepts.2

end
end Transfer

/-! ### A write, a seek and a read -/

namespace Wired
open Transfer

/-- Without the buffer cache, a write of any size from within a file that has enough blocks puts its bytes there and nowhere else, and
    a read of any size after a seek gets what the file has from there on, and the offset moves by what the calls return: this is so if
    and only if the drained rings accept the first piece of the write and of the read. -/
theorem transfers_compose_iff (cfg : Config) (c h i : Nat) (fd : Fd) (w : Wired) (offset room pos n : Nat) (old buf : List UInt8)
    (disabled : cfg.bufferCache = false) (start : w.Ready c h i fd offset old room) (within : offset ≤ old.length)
    (fits : blocksNr (offset + buf.length) ≤ room) (small : offset + buf.length < sizeMod) :
    (∃ new : List UInt8, new.length = max old.length (offset + buf.length) ∧ (∀ j < buf.length, new[offset + j]? = buf[j]?) ∧
      (∀ j, j < offset ∨ offset + buf.length ≤ j → new[j]? = old[j]?) ∧
      Alone cfg c (fun written w₁ => written = (buf.length : Int) ∧ w₁.cluster.Transfers c h i fd (offset + buf.length) new room ∧
        Alone cfg c (fun back w₂ => back = (pos : Int) ∧ w₂.cluster.Transfers c h i fd pos new room ∧
          Alone cfg c (fun r w₃ => r.1 = (r.2.length : Int) ∧ r.2.length = min n (new.length - pos) ∧
            (∀ j < r.2.length, r.2[j]? = new[pos + j]?) ∧ w₃.cluster.Transfers c h i fd (pos + r.2.length) new room)
          (readFile (cfg.client c) h n) w₂)
        (onFile h fun f => f.lseek (cfg.client c) h pos .set) w₁)
      (onFile h fun f => f.write (cfg.client c) h buf) w) ↔ w.Room buf.length n := by
  have heads : ((w.replies.chan.head + pieces buf.length * cachelineSize) % sharedSize + cachelineSize) % sharedSize =
      (w.replies.chan.head + (pieces buf.length + 1) * cachelineSize) % sharedSize := by
    rw [Nat.mod_add_mod, Nat.add_mul, Nat.one_mul, Nat.add_assoc]
  have writes := fun write : ChannelSys.Accepts w.requests.chan.head (sizeofWriteRequest + min buf.length fsChunkSize) =>
    alone_write disabled start.replies.aligned.2 within fits small ⟨start, write, rfl⟩
  constructor
  · rintro ⟨new, -, -, -, ends⟩
    have write := accepts_of_write disabled start ends
    obtain ⟨_, w₁, ⟨-, -, ends₁⟩, -, ready₁⟩ := Ends.meet ends (writes write)
    obtain ⟨_, w₂, ⟨-, -, ends₂⟩, -, ready₂⟩ := Ends.meet ends₁ (alone_lseek disabled pos ready₁)
    have read := accepts_of_read disabled ready₂.1 ends₂
    rw [ready₂.2, heads] at read
    exact ⟨write, read⟩
  · intro room
    obtain ⟨length, inside, outside⟩ := @Bytes.write_within old buf offset within
    refine ⟨Bytes.write old offset buf, length, inside, outside, ?_⟩
    refine (writes room.write).mono fun written w₁ done₁ => ⟨done₁.1, done₁.2.1.transfers, ?_⟩
    refine (alone_lseek disabled pos done₁.2).mono fun back w₂ done₂ => ⟨done₂.1, done₂.2.1.transfers, ?_⟩
    have read : Reads n w₂.requests.chan.head w₂.replies.chan.head := by
      rw [Reads, done₂.2.2, heads]
      exact room.read
    refine (alone_read disabled n ⟨done₂.2.1, read⟩).mono ?_
    rintro _ w₃ ⟨rfl, done₃⟩
    refine ⟨rfl, Bytes.length_read, fun j lt => Bytes.getElem?_read ?_, done₃.1.transfers⟩
    rw [Bytes.length_read] at lt
    omega

/-- Both ends of a file with enough free blocks, and rings that the same messages have gone through. -/
def wired (requests replies : ChannelSys) : Wired where
  cluster :=
    { Cluster.shared with servers := fun i => { Server.boot i { start := 4096, blocks := blocks, blocksFree := 16 } fun _ => 0 with
        files := AList.singleton 5 (.file File.new), fds := AList.singleton 7 { count := 1, offset := 0, id := 5 } } }
  requests
  replies
where
  blocks : List Nat := (List.range 16).map fun k => 4096 * (k + 1)

theorem ready_wired {requests replies : ChannelSys} (quiet : requests.Quiet) (quiet' : replies.Quiet) :
    (wired requests replies).Ready 0 0 0 7 0 [] 16 := by
  have apart : wired.blocks.Pairwise Apart :=
    List.pairwise_map.mpr (List.pairwise_lt_range.imp fun {a b} lt => .inl (by simp only [blockSize]; omega))
  refine ⟨⟨⟨{ count := 1, offset := 0, id := 5 }, File.new, rfl, rfl, ⟨?_, rfl, apart⟩, rfl, rfl, rfl⟩, _, rfl, rfl, rfl⟩, quiet, quiet'⟩
  simp [File.new, blocksNr]

/-- One message of half a ring has gone through the ring of the requests. -/
theorem exists_middle : ∃ s : ChannelSys, s.Quiet ∧ s.chan.head = 32768 := by
  have reach : ChannelSys.empty.Quiet := ⟨⟨rfl, by simp [ChannelSys.empty], rfl⟩, .init ChannelSys.init_empty⟩
  have le : 32752 ≤ fsChunkSize + sizeofWriteRequest := by decide
  obtain ⟨t, -, quiet, head⟩ := reach.pass (p := [0]) le (by decide) (by decide) (by decide)
  exact ⟨t, quiet, head.trans (by decide)⟩

/-- With the head in the middle of the drained ring, a write of one whole piece does not end: the assertion of `dispatchAllocate` fails. -/
theorem exists_refused_write : ∃ w : Wired, w.Ready 0 0 0 7 0 [] 16 ∧ blocksNr 32768 ≤ 16 ∧
    ∀ post, ¬Alone Server.oneServer 0 post (onFile 0 fun f => f.write (Server.oneServer.client 0) 0 (List.replicate 32768 7)) w := by
  obtain ⟨s, quiet, head⟩ := exists_middle
  refine ⟨wired s s, ready_wired quiet quiet, by decide, fun post ends => ?_⟩
  have accepts := accepts_of_write rfl (ready_wired quiet quiet) ends
  rw [List.length_replicate] at accepts
  exact accepts ⟨head, by decide⟩

/-- A write of two pieces and a read across their boundary, through rings that are empty. -/
theorem transfers_compose_two_pieces : ∃ w : Wired, w.Ready 0 0 0 7 0 [] 16 ∧
    ∃ new : List UInt8, new.length = 40000 ∧ (∀ j < 40000, new[j]? = (List.replicate 40000 7)[j]?) ∧
      Alone Server.oneServer 0 (fun written w₁ => written = 40000 ∧
        Alone Server.oneServer 0 (fun back w₂ => back = 100 ∧
          Alone Server.oneServer 0 (fun r w₃ => r.1 = 39900 ∧ w₃.cluster.Transfers 0 0 0 7 40000 new 16)
          (readFile (Server.oneServer.client 0) 0 50000) w₂)
        (onFile 0 fun f => f.lseek (Server.oneServer.client 0) 0 100 .set) w₁)
      (onFile 0 fun f => f.write (Server.oneServer.client 0) 0 (List.replicate 40000 7)) w := by
  have quiet : ChannelSys.empty.Quiet := ⟨⟨rfl, by simp [ChannelSys.empty], rfl⟩, .init ChannelSys.init_empty⟩
  have length : (List.replicate 40000 (7 : UInt8)).length = 40000 := List.length_replicate
  have room : (wired .empty .empty).Room (List.replicate 40000 (7 : UInt8)).length 50000 := by
    rw [length]
    exact ⟨by decide, by decide⟩
  obtain ⟨new, size, inside, -, ends⟩ := (transfers_compose_iff Server.oneServer 0 0 0 7 (wired .empty .empty) 0 16 100 50000 []
    (List.replicate 40000 7) rfl (ready_wired quiet quiet) (Nat.le_refl 0) (by rw [length]; decide) (by rw [length]; decide)).mpr room
  simp only [length, Nat.zero_add] at size inside
  refine ⟨_, ready_wired quiet quiet, new, size, inside, ends.mono fun written w₁ done₁ => ⟨done₁.1.trans (by rw [length]; rfl),
    done₁.2.2.mono fun back w₂ done₂ => ⟨done₂.1, done₂.2.2.mono fun r w₃ done₃ => ?_⟩⟩⟩
  obtain ⟨count, got, -, after⟩ := done₃
  have all : r.2.length = 39900 := by
    rw [got, size]
    rfl
  rw [all] at count after
  exact ⟨count, after⟩

end Wired
end Faux
