import Faux.Theorems.Channel.Sender

/-! `channel_allocate` keeps the invariant when the full flag does not mislead it. -/

namespace Faux
open Lib

variable {m : Memory} {msgs : List Alloc} {rcvd : List Receipt} {T N H len size : Nat} {cs : List Chunk}
  {chan : HalfChannel} {s : ChannelSys}

/-- The tail with which an allocation looks for a place: there is room at the head, and the bytes that the
    tests of `channel_allocate` find are free. -/
def Open (tail T H : Nat) : Prop :=
  (tail = tailOf T ∧ H < T + sharedSize) ∨ (tail = sharedSize ∧ T % sharedSize = 0 ∧ T < H ∧ H < T + sharedSize)

theorem Open.scans {tail : Nat} (ho : Open tail T H) : Scans tail T H :=
  ho.imp id fun ⟨h1, h2, h3, h4⟩ => ⟨h1, h2, h3, Nat.le_of_lt h4⟩

theorem Open.tailIs {tail : Nat} (ho : Open tail T H) : TailIs tail T H :=
  ho.imp id fun ⟨h1, h2, h3, _⟩ => ⟨h1, h3, Or.inr h2⟩

theorem channelMessageSize_eq (h : size ≤ largestPayload) :
    channelMessageSize size = (size + sizeofMessage + (cachelineSize - 1)) / cachelineSize * cachelineSize := by
  have e : (size + sizeofMessage) % sizeMod = size + sizeofMessage := by
    simp only [largestPayload, sizeMod, sharedSize, cachelineSize, sizeofMessage] at *
    omega
  simp only [channelMessageSize, e]
  split_ifs <;> simp only [largestPayload, sharedSize, cachelineSize, sizeofMessage] at * <;> omega

theorem channelMessageSize_spec (h1 : 1 ≤ size) (h2 : size ≤ largestPayload) :
    channelMessageSize size % cachelineSize = 0 ∧ cachelineSize ≤ channelMessageSize size ∧
      size + sizeofMessage ≤ channelMessageSize size ∧ channelMessageSize size < sharedSize := by
  rw [channelMessageSize_eq h2]
  simp only [largestPayload, sharedSize, cachelineSize, sizeofMessage] at *
  omega

/-! ### Finding a place -/

section
variable {tail start : Nat}

theorem Open.lap (ho : Open tail T H) (hTH : T ≤ H) :
    H / sharedSize = (T + sharedSize - 1) / sharedSize ∨ H / sharedSize + 1 = (T + sharedSize - 1) / sharedSize := by
  simp only [Open, tailOf, sharedSize] at *
  omega

theorem Open.tailIs_after {newHead H' : Nat} (ho : Open tail T H) (hH' : T < H') (hw : H' ≤ T + sharedSize)
    (hmeet : tail = tailOf T → (newHead = tail + 1 ↔ H' = T + sharedSize)) (hne : newHead ≠ sharedSize + 1) :
    TailIs (if newHead = tail + 1 then sharedSize else tail) T H' := by
  rcases ho with ⟨ht, -⟩ | ⟨ht, h0, -⟩
  · split_ifs with hm
    · exact Or.inr ⟨rfl, hH', Or.inl ((hmeet ht).mp hm)⟩
    · exact Or.inl ⟨ht, Nat.lt_of_le_of_ne hw fun h => hm ((hmeet ht).mpr h)⟩
  · rw [if_neg (by rw [ht]; exact hne)]
    exact Or.inr ⟨ht, hH', Or.inr h0⟩

theorem Open.here (ho : Open tail T H) (hT : T % cachelineSize = 0) (hH : H % cachelineSize = 0) (hTH : T ≤ H)
    (hl : len % cachelineSize = 0) (hl' : cachelineSize ≤ len) (hp : placement (H % sharedSize) tail len = some (start, false)) :
    start = H % sharedSize ∧ H % sharedSize + len ≤ sharedSize ∧ H + len ≤ T + sharedSize ∧
      TailIs (if H % sharedSize + len = tail + 1 then sharedSize else tail) T (H + len) := by
  have hlap := ho.lap hTH
  simp only [placement] at hp
  split_ifs at hp with h1 h2
  · cases hp
    have hwin : H + len ≤ T + sharedSize ∧ (tail = tailOf T → (H % sharedSize + len = tail + 1 ↔ H + len = T + sharedSize)) := by
      simp only [Open, tailOf, sharedSize, cachelineSize] at *
      omega
    have hend : H % sharedSize + len ≤ sharedSize ∧ T < H + len ∧ H % sharedSize + len ≠ sharedSize + 1 := by
      simp only [Open, tailOf, sharedSize, cachelineSize] at *
      omega
    exact ⟨rfl, hend.1, hwin.1, ho.tailIs_after hend.2.1 hwin.1 hwin.2 hend.2.2⟩
  · cases hp

theorem Open.wrap (ho : Open tail T H) (hT : T % cachelineSize = 0) (hH : H % cachelineSize = 0) (hTH : T ≤ H)
    (hl : len % cachelineSize = 0) (hl' : cachelineSize ≤ len) (hp : placement (H % sharedSize) tail len = some (start, true)) :
    start = 0 ∧ 0 < H % sharedSize ∧ nextLap H + len ≤ T + sharedSize ∧
      TailIs (if len = tail + 1 then sharedSize else tail) T (nextLap H + len) := by
  have hlap := ho.lap hTH
  simp only [placement] at hp
  split_ifs at hp with h1 h2
  · cases hp
  · cases hp
    have hwin : nextLap H + len ≤ T + sharedSize ∧ (tail = tailOf T → (len = tail + 1 ↔ nextLap H + len = T + sharedSize)) := by
      simp only [Open, tailOf, nextLap, sharedSize, cachelineSize] at *
      omega
    have hend : 0 < H % sharedSize ∧ H < nextLap H + len ∧ len ≠ sharedSize + 1 := by
      simp only [Open, tailOf, nextLap, sharedSize, cachelineSize] at *
      omega
    exact ⟨rfl, hend.1, hwin.1, ho.tailIs_after (by omega) hwin.1 hwin.2 hend.2.2⟩

theorem Open.fail (ho : Open tail T H) (hTH : T ≤ H) (hlt : tail < H % sharedSize) :
    0 < H % sharedSize ∧ nextLap H ≤ T + sharedSize ∧ TailIs tail T (nextLap H) := by
  simp only [Open, TailIs, tailOf, nextLap, sharedSize] at *
  omega

end

/-! ### The full flag -/

namespace Ring

theorem gc_open (h : Ring chan.shared msgs rcvd T N H cs) (hhead : chan.head = H % sharedSize) (ho : Open chan.tail T H) :
    ∃ t post M, channelGc chan = some { chan with tail := t } ∧ Ring chan.shared msgs rcvd M N H post ∧ Open t M H ∧
      ∀ c, post.head? = some c → c.Busy chan.shared := by
  obtain ⟨t, post, M, hgc, hring, hcase, hstop⟩ := h.gc_scans hhead ho.scans
  refine ⟨t, post, M, hgc, hring, ?_, hstop⟩
  rcases hcase with ⟨rfl, rfl, -⟩ | hcase
  · exact ho
  · exact Or.inl hcase

/-- In a full ring whose head is at the start of the buffer, garbage collection reclaims the first message
    once it has been freed. -/
theorem open_zero (h : Ring chan.shared msgs rcvd T N H cs) (hp : Ptrs chan T N H) (hfull : chan.tail = sharedSize)
    (h0 : chan.head = 0)
    (hg : ∀ (k : Nat) (r : Alloc), msgs[k]? = some r → freedIn rcvd k = false → r.start ≠ 0) :
    ∃ t post M, channelGc chan = some { chan with tail := t } ∧ Ring chan.shared msgs rcvd M N H post ∧ Open t M H := by
  have hH : H % sharedSize = 0 := by rw [← hp.head, h0]
  have htail := hp.tail
  have hw := h.window
  have hT : T % sharedSize = 0 ∧ H = T + sharedSize := by
    rw [hfull] at htail
    simp only [TailIs, tailOf, sharedSize] at *
    omega
  have hsc : Scans chan.tail T H := Or.inr ⟨hfull, hT.1, by simp only [sharedSize] at hT; omega, by omega⟩
  obtain ⟨t, post, M, hgc, hring, hcase, hstop⟩ := h.gc_scans hp.head hsc
  refine ⟨t, post, M, hgc, hring, ?_⟩
  rcases hcase with ⟨-, -, rfl⟩ | hcase
  · -- Nothing was reclaimed, so the chunk at offset 0 is busy; it is neither a sentinel nor a freed message.
    exfalso
    cases post with
    | nil =>
      have : T = H := h.layout
      simp only [sharedSize] at hT
      omega
    | cons c post =>
      have hc : c.off = 0 := by rw [Chunk.off, h.layout.1, hT.1]
      have hbusy := hstop c rfl
      have hholds := h.holds c List.mem_cons_self
      cases hk : c.msg with
      | none =>
        have := (hholds.sentinel hk).inner
        omega
      | some k =>
        obtain ⟨r, hr, hm, -⟩ := hholds.msg hk
        refine hg k r hr (hm.not_freed_of_busy (h.fits List.mem_cons_self) hbusy) ?_
        rw [hm.start, hc]
  · exact Or.inl hcase

/-- In a full ring whose head is inside the buffer, everything from the head to the end of the buffer is
    reclaimable once the receiver has moved past it and freed it. -/
theorem open_inner (h : Ring chan.shared msgs rcvd T N H cs) (hp : Ptrs chan T N H) (hfull : chan.tail = sharedSize)
    (h0 : chan.head ≠ 0) (hnext : chan.next < chan.head ∨ rcvd.length = msgs.length)
    (hg : ∀ (k : Nat) (r : Alloc), msgs[k]? = some r → freedIn rcvd k = false → r.start < chan.head) :
    ∃ post M, Ring chan.shared msgs rcvd M N H post ∧ Open chan.tail M H := by
  have hH : H % sharedSize ≠ 0 := by rw [← hp.head]; exact h0
  have htail := hp.tail
  rw [hfull] at htail
  have hw := h.window
  have hTK : T ≤ H - H % sharedSize := by
    simp only [TailIs, tailOf, sharedSize] at *
    omega
  obtain ⟨pre, post, rfl, hpre, hpost⟩ := h.layout.split_lap (v := H - H % sharedSize)
    (by simp only [sharedSize]; omega) hTK (Nat.sub_le _ _)
  refine ⟨post, H - H % sharedSize, h.reclaim hpre hpost fun c hc hbusy => ?_,
    Or.inr ⟨hfull, by simp only [sharedSize]; omega, by simp only [sharedSize] at *; omega, by simp only [sharedSize] at *; omega⟩⟩
  have hmem : c ∈ pre ++ post := List.mem_append_left _ hc
  have hle := hpre.mem_le hc
  have hline := (hpre.fits hc).line
  have hoff : ∀ v, T ≤ v → v < H - H % sharedSize → chan.head ≤ v % sharedSize := by
    intro v h1 h2
    rw [hp.head]
    simp only [TailIs, tailOf, sharedSize] at *
    omega
  have hholds := h.holds c hmem
  cases hk : c.msg with
  | some k =>
    obtain ⟨r, hr, hm, -⟩ := hholds.msg hk
    have h1 := hg k r hr (hm.not_freed_of_busy (hpre.fits hc) hbusy)
    have h2 := hoff c.pos hle.1 (by simp only [cachelineSize] at hline; omega)
    rw [hm.start, Chunk.off] at h1
    omega
  | none =>
    -- A busy sentinel has not been consumed, so the receiver has not reached the messages of the lap of the head.
    have hN : N ≤ c.pos := by
      by_contra hN
      have h1 := (hholds.sentinel hk).cleared (by omega)
      rw [hbusy] at h1
      exact absurd h1 (by decide)
    have h2 := hoff N h.lower (by simp only [cachelineSize] at hline; omega)
    rw [← hp.next] at h2
    have hall := hnext.resolve_left (by omega)
    cases post with
    | nil =>
      have h3 : H - H % sharedSize = H := hpost
      simp only [sharedSize] at h3 hH
      omega
    | cons d post =>
      have hd : d ∈ pre ++ d :: post := List.mem_append_right _ List.mem_cons_self
      cases hk' : d.msg with
      | none =>
        have h3 := ((h.holds d hd).sentinel hk').inner
        have h4 : d.off = 0 := by
          rw [Chunk.off, hpost.1]
          simp only [sharedSize]
          omega
        omega
      | some k =>
        obtain ⟨r, hr, -, hn⟩ := (h.holds d hd).msg hk'
        have h3 := lt_of_getElem? hr
        have h4 := hn.mpr (by omega)
        have h5 := hpost.1
        simp only [cachelineSize] at hline
        omega

/-! ### Allocation -/

theorem allocateAt_inv (chan : HalfChannel) {start : Nat} {w : Bool} (h : Ring chan.shared msgs rcvd T N H cs)
    (hhead : chan.head = H % sharedSize) (hnext : chan.next = N % sharedSize) (ho : Open chan.tail T H)
    (hl : len % cachelineSize = 0) (hl' : cachelineSize ≤ len) (hs : size + sizeofMessage ≤ len) (hlen : len < sharedSize)
    (hp : placement chan.head chan.tail len = some (start, w)) :
    ChannelSys.Inv { chan := allocateAt chan len start w,
                     msgs := msgs ++ [{ start := start, alloced := len, size := size, sent := none }], rcvd := rcvd } := by
  rw [hhead] at hp
  cases w with
  | false =>
    obtain ⟨rfl, hend, hwin, htail⟩ := ho.here h.T_aligned h.aligned h.layout.le hl hl' hp
    refine ⟨T, N, H + len, _, by simpa [allocateAt] using h.push_msg hl hl' hs hend hlen hwin, ?_, hnext, htail⟩
    simp only [allocateAt]
    split_ifs <;> simp only [sharedSize] at * <;> omega
  | true =>
    obtain ⟨rfl, h0, hwin, htail⟩ := ho.wrap h.T_aligned h.aligned h.layout.le hl hl' hp
    have h1 := h.push_sentinel h0 (by omega)
    have h2 := h1.push_msg hl hl' hs (by rw [nextLap_mod]; omega) hlen hwin
    rw [nextLap_mod] at h2
    refine ⟨T, N, nextLap H + len, _, by simpa [allocateAt, hhead] using h2, ?_, hnext, by simpa [allocateAt] using htail⟩
    have := nextLap_mod (H := H)
    simp only [allocateAt]
    split_ifs <;> simp only [sharedSize] at * <;> omega

theorem retry_inv (chan : HalfChannel) (h : Ring chan.shared msgs rcvd T N H cs) (hhead : chan.head = H % sharedSize)
    (hnext : chan.next = N % sharedSize) (ho : Open chan.tail T H) :
    ChannelSys.Inv { chan := if chan.head > chan.tail then
                        { chan with head := 0, shared := writeSentinel chan.shared chan.head } else chan,
                     msgs := msgs, rcvd := rcvd } := by
  split_ifs with hlt
  · rw [hhead] at hlt ⊢
    obtain ⟨h0, hw, htail⟩ := ho.fail h.layout.le hlt
    exact ⟨T, N, nextLap H, _, h.push_sentinel h0 hw, nextLap_mod.symm, hnext, htail⟩
  · exact ⟨T, N, H, cs, h, hhead, hnext, ho.tailIs⟩

end Ring

theorem allocate_open (chan : HalfChannel) (h : Ring chan.shared s.msgs s.rcvd T N H cs) (hhead : chan.head = H % sharedSize)
    (hnext : chan.next = N % sharedSize) (ho : Open chan.tail T H)
    (h1 : 1 ≤ size) (h2 : size ≤ largestPayload) :
    ∃ res, allocateFrom chan (channelMessageSize size) = some res ∧ (s.allocated size res).Inv := by
  obtain ⟨hl, hl', hs, hlen⟩ := channelMessageSize_spec h1 h2
  simp only [allocateFrom]
  split
  · next start w hp => exact ⟨_, rfl, Ring.allocateAt_inv chan h hhead hnext ho hl hl' hs hlen hp⟩
  · obtain ⟨t, post, M, hgc, hring, ho', -⟩ := h.gc_open hhead ho
    simp only [hgc, Option.bind_eq_bind, Option.bind_some]
    cases hp : placement chan.head t (channelMessageSize size) with
    | some sw =>
      obtain ⟨start, w⟩ := sw
      exact ⟨_, rfl, Ring.allocateAt_inv { chan with tail := t } hring hhead hnext ho' hl hl' hs hlen hp⟩
    | none =>
      have hinv := Ring.retry_inv { chan with tail := t } hring hhead hnext ho'
      simp only at hinv ⊢
      split_ifs at hinv ⊢ with hlt
      · exact ⟨_, rfl, hinv⟩
      · exact ⟨_, rfl, hinv⟩

theorem allocate_inv (hinv : s.Inv) (hg : s.Guard (.allocate size)) (h1 : 1 ≤ size) (h2 : size ≤ largestPayload) :
    ∃ res, channelAllocate s.chan size = some res ∧ (s.allocated size res).Inv := by
  obtain ⟨T, N, H, cs, hring, hp⟩ := hinv
  have hne : channelMessageSize size ≠ 0 := by
    have := channelMessageSize_spec h1 h2
    simp only [cachelineSize] at this
    omega
  simp only [channelAllocate, hne, if_false]
  by_cases hfull : s.chan.tail = sharedSize
  · have hg' := hg hfull
    by_cases h0 : s.chan.head = 0
    · simp only [h0, if_true] at hg'
      obtain ⟨t, post, M, hgc, hring', ho⟩ := hring.open_zero hp hfull h0 hg'
      simp only [hfull, if_true, hgc, Option.bind_eq_bind, Option.bind_some]
      exact allocate_open { s.chan with tail := t } hring' hp.head hp.next ho h1 h2
    · simp only [h0, if_false] at hg'
      obtain ⟨post, M, hring', ho⟩ := hring.open_inner hp hfull h0 hg'.1 hg'.2
      obtain ⟨t, post', M', hgc, hring'', ho', -⟩ := hring'.gc_open hp.head ho
      simp only [hfull, if_true, hgc, Option.bind_eq_bind, Option.bind_some]
      exact allocate_open { s.chan with tail := t } hring'' hp.head hp.next ho' h1 h2
  · simp only [hfull, if_false, Option.bind_eq_bind, Option.bind_some]
    exact allocate_open s.chan hring hp.head hp.next (hp.tail.imp id fun h => absurd h.1 hfull) h1 h2

end Faux
