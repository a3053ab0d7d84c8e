import Faux.Theorems.Channel.Fifo

/-! A drained channel and the largest messages of the file system protocol. -/

namespace Faux
open Lib

variable {m : Memory} {msgs : List Alloc} {rcvd : List Receipt} {T N H len size : Nat} {cs : List Chunk}
  {chan : HalfChannel} {s : ChannelSys}

namespace Ring

theorem not_busy (h : Ring m msgs rcvd T N H cs) (hf : ∀ k < msgs.length, freedIn rcvd k = true) {c : Chunk} (hc : c ∈ cs)
    (hN : c.pos < N) : ¬c.Busy m := by
  intro hbusy
  cases hk : c.msg with
  | some k =>
    obtain ⟨r, hr, hm, -⟩ := (h.holds c hc).msg hk
    have h1 := hm.not_freed_of_busy (h.fits hc) hbusy
    rw [hf k (lt_of_getElem? hr)] at h1
    cases h1
  | none =>
    rw [Chunk.Busy, ((h.holds c hc).sentinel hk).cleared hN] at hbusy
    exact absurd hbusy (by decide)

theorem at_head (h : Ring m msgs rcvd T N H cs) (hf : ∀ k < msgs.length, freedIn rcvd k = true)
    (hNH : N % sharedSize = H % sharedSize) : N = H := by
  by_contra hne
  have hup := h.upper
  have hlow := h.lower
  have hw := h.window
  have hmsg : ∀ d ∈ cs, N ≤ d.pos → d.msg = none := by
    intro d hd hN
    cases hk : d.msg with
    | none => rfl
    | some k =>
      obtain ⟨r, hr, -, hn⟩ := (h.holds d hd).msg hk
      have h1 := hf k (lt_of_getElem? hr)
      simp only [freedIn, Option.any_eq_true] at h1
      obtain ⟨x, hx, -⟩ := h1
      have := hn.mpr (lt_of_getElem? hx)
      omega
  obtain ⟨c, hc, hcN⟩ := h.boundary.resolve_left hne
  have hs := (h.holds c hc).sentinel (hmsg c hc (by omega))
  have hinner := hs.inner
  have hends := hs.ends
  rw [Chunk.off, hcN] at hinner hends
  -- The head is a whole lap ahead, so the chunk after the sentinel is a message.
  rcases h.boundary_next hc with hlast | ⟨d, hd, hdN⟩
  · simp only [sharedSize] at *
    omega
  · have h1 := ((h.holds d hd).sentinel (hmsg d hd (by omega))).inner
    rw [Chunk.off, hdN, hcN] at h1
    simp only [sharedSize] at *
    omega

theorem gc_drained (h : Ring chan.shared msgs rcvd T N H cs) (hf : ∀ k < msgs.length, freedIn rcvd k = true) (hN : N = H)
    (hhead : chan.head = H % sharedSize) (ho : Open chan.tail T H) :
    channelGc chan = some { chan with tail := tailOf H } ∧ Ring chan.shared msgs rcvd H N H [] := by
  obtain ⟨t, post, M, hgc, hring, ho', hstop⟩ := h.gc_open hhead ho
  cases post with
  | nil =>
    have hM : M = H := hring.layout
    rw [hM] at hring ho'
    rcases ho' with ⟨ht, -⟩ | ⟨-, -, hlt, -⟩
    · exact ⟨ht ▸ hgc, hring⟩
    · omega
  | cons c post =>
    have h1 := hring.layout.mem_le (c := c) List.mem_cons_self
    have h2 := (hring.fits (c := c) List.mem_cons_self).line
    simp only [cachelineSize] at h2
    exact absurd (hstop c rfl) (hring.not_busy hf List.mem_cons_self (by omega))

end Ring

/-! ### Where a protocol message fits -/

theorem protocol_le (h : size ≤ fsChunkSize + sizeofWriteRequest) : size + sizeofDispatchHeader ≤ largestPayload := by
  simp only [fsChunkSize, sizeofWriteRequest, sizeofDispatchHeader, largestPayload, sharedSize, cachelineSize,
    sizeofMessage] at *
  omega

/-- The sizes that the file system protocol allocates take at most one cache line more than half of the ring. -/
theorem channelMessageSize_protocol (h : size ≤ fsChunkSize + sizeofWriteRequest) :
    channelMessageSize (size + sizeofDispatchHeader) ≤ sharedSize / 2 + cachelineSize ∧
      (sharedSize / 2 < channelMessageSize (size + sizeofDispatchHeader) ↔
        sharedSize / 2 < size + sizeofDispatchHeader + sizeofMessage) := by
  rw [channelMessageSize_eq (protocol_le h)]
  simp only [fsChunkSize, sizeofWriteRequest, sharedSize, cachelineSize, sizeofMessage, sizeofDispatchHeader] at *
  omega

/-- An empty ring has a place for at most half of the buffer and one cache line, unless the head splits
    the buffer in halves. -/
theorem placement_empty (hH : H % cachelineSize = 0) (hl : len % cachelineSize = 0) (hl' : len ≤ sharedSize / 2 + cachelineSize)
    (hc : ¬(H % sharedSize = sharedSize / 2 ∧ sharedSize / 2 < len)) :
    placement (H % sharedSize) (tailOf H) len ≠ none := by
  simp only [placement]
  split_ifs
  · simp
  · simp
  · exfalso
    simp only [tailOf, sharedSize, cachelineSize] at *
    omega

theorem Open.no_place {tail : Nat} (ho : Open tail T H) (hl : len % cachelineSize = 0) (hH : H % sharedSize = sharedSize / 2)
    (hlen : sharedSize / 2 < len) : placement (H % sharedSize) tail len = none := by
  simp only [placement]
  split_ifs <;> simp only [Open, tailOf, sharedSize, cachelineSize] at * <;> omega

/-- Where the head is after a message of `len` bytes in a drained ring. -/
def headAfter (head len : Nat) : Nat :=
  if head + len < sharedSize then head + len else if head + len = sharedSize then 0 else len

theorem Open.allocateAt_head {start : Nat} {w : Bool} (ho : Open chan.tail T H) (hhead : chan.head = H % sharedSize)
    (hH : H % cachelineSize = 0) (hl : len % cachelineSize = 0) (hl' : len ≤ sharedSize / 2 + cachelineSize)
    (hp : placement chan.head chan.tail len = some (start, w)) :
    (allocateAt chan len start w).head = headAfter chan.head len ∧ (start + len) % sharedSize = headAfter chan.head len := by
  have hstart : start = if chan.head + len ≤ sharedSize then chan.head else 0 := by
    simp only [placement] at hp
    split_ifs at hp ⊢ <;> cases hp <;> simp only [Open, tailOf, sharedSize, cachelineSize] at * <;> omega
  have hend : start + len ≤ sharedSize ∧ (start + len) % sharedSize = headAfter chan.head len := by
    grind [sharedSize, cachelineSize, headAfter]
  refine ⟨?_, hend.2⟩
  rw [← hend.2]
  simp only [allocateAt]
  split_ifs <;> simp only [sharedSize] at * <;> omega

/-- A drained ring has no place for a message only if its head splits the buffer in halves. -/
theorem allocateFrom_drained (chan : HalfChannel) (h : Ring chan.shared msgs rcvd T N H cs)
    (hf : ∀ k < msgs.length, freedIn rcvd k = true) (hN : N = H) (hhead : chan.head = H % sharedSize) (ho : Open chan.tail T H)
    (hl : len % cachelineSize = 0) (hl' : len ≤ sharedSize / 2 + cachelineSize) :
    ∃ chan' r, allocateFrom chan len = some (chan', r) ∧
      (r = none ↔ chan.head = sharedSize / 2 ∧ sharedSize / 2 < len) ∧
      ∀ data, r = some data → chan'.head = headAfter chan.head len ∧
        (data - sizeofMessage + len) % sharedSize = headAfter chan.head len := by
  obtain ⟨hgc, -⟩ := h.gc_drained hf hN hhead ho
  by_cases hc : H % sharedSize = sharedSize / 2 ∧ sharedSize / 2 < len
  · have h1 := ho.no_place hl hc.1 hc.2
    have ho' : Open (tailOf H) H H := Or.inl ⟨rfl, by simp [sharedSize]⟩
    have h2 := ho'.no_place hl hc.1 hc.2
    simp only [allocateFrom, hhead, h1, hgc, Option.bind_eq_bind, Option.bind_some, h2]
    split_ifs
    · exact ⟨_, _, rfl, by simp [hc], by simp⟩
    · exact ⟨_, _, rfl, by simp [hc], by simp⟩
  · have h2 := placement_empty h.aligned hl hl' hc
    rw [← hhead] at h2 hc
    simp only [allocateFrom, hgc, Option.bind_eq_bind, Option.bind_some]
    cases h1 : placement chan.head chan.tail len with
    | some sw =>
      refine ⟨_, _, rfl, by simp [hc], fun data hdata => ?_⟩
      cases hdata
      exact ho.allocateAt_head hhead h.aligned hl hl' h1
    | none =>
      obtain ⟨⟨start, w⟩, hsw⟩ := Option.ne_none_iff_exists'.mp h2
      simp only [hsw]
      refine ⟨_, _, rfl, by simp [hc], fun data hdata => ?_⟩
      cases hdata
      have ho' : Open (tailOf H) H H := Or.inl ⟨rfl, by simp [sharedSize]⟩
      exact @Open.allocateAt_head H H len { chan with tail := tailOf H } start w ho' hhead h.aligned hl hl' hsw

namespace ChannelSys

theorem Inv.allocate_drained (h : s.Inv) (hd : s.Drained) (hl : size ≤ fsChunkSize + sizeofWriteRequest) :
    ∃ chan' r, channelAllocate s.chan (size + sizeofDispatchHeader) = some (chan', r) ∧ (r = none ↔ ¬Accepts s.chan.head size) ∧
      ∀ data, r = some data → chan'.head = headAfter s.chan.head (channelMessageSize (size + sizeofDispatchHeader)) ∧
        (data - sizeofMessage + channelMessageSize (size + sizeofDispatchHeader)) % sharedSize =
          headAfter s.chan.head (channelMessageSize (size + sizeofDispatchHeader)) := by
  obtain ⟨T, N, H, cs, hring, hp⟩ := h
  have hN := hring.at_head hd.freed (by rw [← hp.next, ← hp.head, hd.caughtUp])
  obtain ⟨h1, h2, -⟩ := channelMessageSize_spec (by simp only [sizeofDispatchHeader]; omega) (protocol_le hl)
  obtain ⟨h3, h4⟩ := channelMessageSize_protocol hl
  have hne : channelMessageSize (size + sizeofDispatchHeader) ≠ 0 := by
    simp only [cachelineSize] at h2
    omega
  rw [Accepts, not_not, ← h4]
  simp only [channelAllocate, hne, if_false]
  have hnf : ∀ (k : Nat) (a : Alloc), s.msgs[k]? = some a → freedIn s.rcvd k = true := fun k a ha => hd.freed k (lt_of_getElem? ha)
  by_cases hfull : s.chan.tail = sharedSize
  · by_cases h0 : s.chan.head = 0
    · obtain ⟨t, post, M, hgc, hring', ho⟩ := hring.open_zero hp hfull h0
        fun k a ha hf => by rw [hnf k a ha] at hf; cases hf
      simp only [hfull, if_true, hgc, Option.bind_eq_bind, Option.bind_some]
      exact allocateFrom_drained { s.chan with tail := t } hring' hd.freed hN hp.head ho h1 h3
    · obtain ⟨post, M, hring', ho⟩ := hring.open_inner hp hfull h0 (Or.inr hd.received)
        fun k a ha hf => by rw [hnf k a ha] at hf; cases hf
      obtain ⟨t, post', M', hgc, hring'', ho', -⟩ := hring'.gc_open hp.head ho
      simp only [hfull, if_true, hgc, Option.bind_eq_bind, Option.bind_some]
      exact allocateFrom_drained { s.chan with tail := t } hring'' hd.freed hN hp.head ho' h1 h3
  · simp only [hfull, if_false, Option.bind_eq_bind, Option.bind_some]
    exact allocateFrom_drained s.chan hring hd.freed hN hp.head (hp.tail.imp id fun h => absurd h.1 hfull) h1 h3

theorem Drained.guard (hd : s.Drained) : s.Guard (.allocate size) := by
  intro _
  have hfreed : ∀ (k : Nat) (a : Alloc), s.msgs[k]? = some a → s.freed k ≠ false := by
    intro k a ha hf
    rw [hd.freed k (lt_of_getElem? ha)] at hf
    cases hf
  split_ifs
  · exact fun k a ha hf => absurd hf (hfreed k a ha)
  · exact ⟨Or.inr hd.received, fun k a ha hf => absurd hf (hfreed k a ha)⟩

section
variable {p : List UInt8} (quiet : s.Quiet) (hl : size ≤ fsChunkSize + sizeofWriteRequest)
include quiet hl

theorem Quiet.pass_eq_none (full : ¬Accepts s.chan.head size) : s.pass size p = none := by
  obtain ⟨chan', r, hrun, hr, -⟩ := (inv_of_reach quiet.reached).allocate_drained quiet.toDrained hl
  obtain rfl := hr.mpr full
  simp [pass, dispatchAllocate, hrun]

/-- A message that a drained ring accepts goes through it and leaves it drained. -/
theorem Quiet.pass (h1 : 1 ≤ p.length) (h2 : p.length ≤ size + sizeofDispatchHeader) (fits : Accepts s.chan.head size) :
    ∃ t, s.pass size p = some t ∧ t.Quiet ∧
      t.chan.head = headAfter s.chan.head (channelMessageSize (size + sizeofDispatchHeader)) := by
  have hd := quiet.toDrained
  obtain ⟨chan, r, hrun, hr, hhead⟩ := (inv_of_reach quiet.reached).allocate_drained hd hl
  obtain ⟨data, rfl⟩ := Option.ne_none_iff_exists'.mp fun none => hr.mp none fits
  obtain ⟨hhead, hend⟩ := hhead data rfl
  have hsize : 1 ≤ size + sizeofDispatchHeader ∧ size + sizeofDispatchHeader ≤ largestPayload :=
    ⟨by simp only [sizeofDispatchHeader]; omega, protocol_le hl⟩
  let m : Alloc := ⟨data - sizeofMessage, channelMessageSize (size + sizeofDispatchHeader), size + sizeofDispatchHeader, none⟩
  -- the states after the allocation, the send, the receive and the free
  let s₁ : ChannelSys := { s with chan, msgs := s.msgs ++ [m] }
  let s₂ : ChannelSys :=
    { s₁ with chan := channelSend chan (m.start + sizeofMessage) p, msgs := s.msgs ++ [{ m with sent := some p }] }
  have allocated : s.step (.allocate (size + sizeofDispatchHeader)) = some s₁ := by
    simp [step, hsize, hrun, ChannelSys.allocated, m, s₁]
  have sent : s₁.step (.send s.msgs.length p) = some s₂ := by
    simp [step, m, s₁, s₂, h1, h2]
  have reach₂ := (quiet.reached.step _ hd.guard allocated).step (ChannelAct.send s.msgs.length p) trivial sent
  have hlast : s₂.msgs[s₂.rcvd.length]? = some { m with sent := some p } := by
    show (s.msgs ++ [_])[s.rcvd.length]? = _
    rw [hd.received]
    exact List.getElem?_concat_length
  obtain ⟨chan₃, hrec, hread, hhead₃, hnext⟩ := (inv_of_reach reach₂).receive_sent hlast rfl
  let r : Receipt := ⟨m.start + sizeofMessage, p.length, chan₃.shared.read (m.start + sizeofMessage) p.length, false⟩
  let s₃ : ChannelSys := { s₂ with chan := chan₃, rcvd := s.rcvd ++ [r] }
  let s₄ : ChannelSys := { s₃ with chan := channelFree chan₃ r.data, rcvd := s.rcvd ++ [{ r with freed := true }] }
  have received : s₂.step .receive = some s₃ := by
    simp only [step, hrec, Option.map_some, ChannelSys.received]
    rfl
  have freed : s₃.step (.free s.rcvd.length) = some s₄ := by
    simp [step, s₃, s₄, r]
  have pending : s₂.Guard .receive := fun _ all => by
    have : s.rcvd.length = (s.msgs ++ [_]).length := all
    rw [List.length_append, hd.received] at this
    simp at this
  have reach₄ := (reach₂.step _ pending received).step (ChannelAct.free s.rcvd.length) trivial freed
  refine ⟨s₄, ?_, ⟨⟨?_, fun k hk => ?_, ?_⟩, reach₄⟩, ?_⟩
  · simp [ChannelSys.pass, dispatchAllocate, hrun, run, allocated, sent, received, freed]
  · simp [s₄, s₃, s₂, hd.received]
  · have hk : k < (s.msgs ++ [_]).length := hk
    rw [List.length_append, List.length_singleton] at hk
    simp only [ChannelSys.freed, s₄]
    rcases Nat.lt_succ_iff_lt_or_eq.mp hk with hk | rfl
    · rw [List.getElem?_append_left (by rw [hd.received]; exact hk)]
      exact hd.freed k hk
    · rw [← hd.received, List.getElem?_concat_length]
      rfl
  · show chan₃.next = chan₃.head
    rw [hnext, hhead₃]
    exact hend.trans hhead.symm
  · show chan₃.head = _
    rw [hhead₃]
    exact hhead

end

/-- After a run that is not misled by the full flag, a drained channel accepts a protocol message exactly
    when the head does not split the buffer in halves that are both too small for it. The bound is the largest
    request; the largest reply has a shorter header. -/
theorem dispatchAllocate_drained (s : ChannelSys) (h : Reach Init Guard step s) (hd : s.Drained) (size : Nat)
    (hsize : size ≤ fsChunkSize + sizeofWriteRequest) :
    (∃ r, dispatchAllocate s.chan size = some (some r)) ↔
      ¬(s.chan.head = sharedSize / 2 ∧ sharedSize / 2 < size + sizeofDispatchHeader + sizeofMessage) := by
  obtain ⟨chan', r, hrun, hr, -⟩ := (inv_of_reach h).allocate_drained hd hsize
  cases r with
  | none => simpa [dispatchAllocate, hrun, Accepts] using hr
  | some data => simpa [dispatchAllocate, hrun, Accepts] using hr

/-- The ring that a run across the wrap has left empty accepts the largest reply. -/
theorem dispatchAllocate_after_wrap : ∃ s, Reach Init Guard step s ∧ s.Drained ∧ s.msgs.length = 3 ∧ s.chan.head = 10048 ∧
    ∃ r, dispatchAllocate s.chan (fsChunkSize + sizeofDirEntReply) = some (some r) := by
  have hrun : ((run step empty wrapping).map fun s =>
      ([s.rcvd.length, s.msgs.length, s.chan.next, s.chan.head], s.freed 0 && s.freed 1 && s.freed 2)) =
      some ([3, 3, 10048, 10048], true) := by decide +kernel
  obtain ⟨s, hs, hview⟩ := Option.map_eq_some_iff.mp hrun
  simp only [Prod.mk.injEq, List.cons.injEq, and_true, Bool.and_eq_true] at hview
  obtain ⟨⟨h1, h2, h3, h4⟩, ⟨h5, h6⟩, h7⟩ := hview
  have hr := (Reach.init init_empty).of_guarded guarded_wrapping hs
  have hd : s.Drained := ⟨by omega, fun k hk => ?_, by omega⟩
  · exact ⟨s, hr, hd, h2, h4, (dispatchAllocate_drained s hr hd _ (by decide)).mpr (by rw [h4]; decide)⟩
  · grind

/-- One message of half the ring, received and freed: a `ReadReply` with `FS_CHUNK_SIZE` bytes finds no buffer, and the assertion
    of `dispatchAllocate` fails. -/
theorem exists_drained_refusing :
    ∃ s, Reachable s ∧ s.Drained ∧ dispatchAllocate s.chan (fsChunkSize + sizeofReadReply) = some none := by
  have hrun : ((run step empty [.allocate 32760, .send 0 [1], .receive, .free 0]).map fun s =>
      ([s.rcvd.length, s.msgs.length, s.chan.next, s.chan.head],
        s.freed 0, (dispatchAllocate s.chan (fsChunkSize + sizeofReadReply)).map Option.isNone)) =
      some ([1, 1, 32768, 32768], true, some true) := by decide +kernel
  obtain ⟨s, hs, hview⟩ := Option.map_eq_some_iff.mp hrun
  simp only [Prod.mk.injEq, List.cons.injEq, and_true] at hview
  obtain ⟨⟨h1, h2, h3, h4⟩, h5, h6⟩ := hview
  refine ⟨s, Reach.of_run init_empty hs, ⟨by omega, fun k hk => ?_, by omega⟩, ?_⟩
  · obtain rfl : k = 0 := by omega
    exact h5
  · obtain ⟨refused, done, none⟩ := Option.map_eq_some_iff.mp h6
    rw [done, Option.isNone_iff_eq_none.mp none]

end ChannelSys
end Faux
