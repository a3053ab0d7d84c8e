import Faux.Theorems.Channel.Gc

/-! The invariant of a half channel. Every message that is not freed is a chunk of the ring, the chunks are
    in allocation order, the receiver has consumed exactly the chunks before its position `N`, and no cache
    line outside the chunks is flagged ready. -/

namespace Faux
open Lib
variable {k : Nat}

def freedIn (rcvd : List Receipt) (k : Nat) : Bool := (rcvd[k]?).any (·.freed)

structure HoldsMsg (m : Memory) (c : Chunk) (r : Alloc) (freed : Bool) : Prop where
  start : r.start = c.off
  alloced : r.alloced = c.len
  room : r.size + sizeofMessage ≤ c.len
  sent : ∀ p, r.sent = some p → 1 ≤ p.length ∧ p.length ≤ r.size
  hdrAlloced : msgAlloced m c.off = c.len
  hdrSize : msgSize m c.off = (r.sent.map List.length).getD 0
  ready : freed = false → m (c.off + 4) = 1
  payload : freed = false → ∀ p, r.sent = some p → m.read (c.off + sizeofMessage) p.length = p
  cleared : freed = true → ∀ i, cachelineSize * i < c.len → m (c.off + cachelineSize * i + 4) = 0

structure HoldsSentinel (m : Memory) (c : Chunk) (consumed : Prop) : Prop where
  inner : 0 < c.off
  ends : c.off + c.len = sharedSize
  hdrAlloced : msgAlloced m c.off = c.len
  hdrSize : msgSize m c.off = sentinelSize
  ready : ¬consumed → m (c.off + 4) = 1
  cleared : consumed → m (c.off + 4) = 0
  lines : ∀ i, 1 ≤ i → cachelineSize * i < c.len → m (c.off + cachelineSize * i + 4) = 0

def Holds (m : Memory) (msgs : List Alloc) (rcvd : List Receipt) (N : Nat) (c : Chunk) : Prop :=
  match c.msg with
  | some k => (∃ r, msgs[k]? = some r ∧ HoldsMsg m c r (freedIn rcvd k)) ∧ (c.pos < N ↔ k < rcvd.length)
  | none => HoldsSentinel m c (c.pos < N)

structure Ring (m : Memory) (msgs : List Alloc) (rcvd : List Receipt) (T N H : Nat) (cs : List Chunk) : Prop where
  layout : Layout H T cs
  aligned : H % cachelineSize = 0
  window : H ≤ T + sharedSize
  lower : T ≤ N
  upper : N ≤ H
  boundary : N = H ∨ ∃ c ∈ cs, c.pos = N
  holds : ∀ c ∈ cs, Holds m msgs rcvd N c
  free : ∀ v, v % cachelineSize = 0 → H ≤ v → v < T + sharedSize → m (v % sharedSize + 4) = 0
  cover : ∀ k, k < msgs.length → freedIn rcvd k = false → ∃ c ∈ cs, c.msg = some k
  mono : ∀ c ∈ cs, ∀ d ∈ cs, ∀ j k, c.msg = some j → d.msg = some k → c.pos < d.pos → j < k
  receipts : ∀ (k : Nat) (r : Receipt), rcvd[k]? = some r → ∃ a p, msgs[k]? = some a ∧ a.sent = some p ∧
    r.data = a.start + sizeofMessage ∧ r.size = p.length ∧ r.payload = p

/-- The `tail` of a ring reclaimed up to `T`: the offset before it, or the full flag. The flag is set when
    the head meets the oldest chunk; it stays set when a later allocation finds the lap of the head
    reclaimed up to its start. -/
def TailIs (tail T H : Nat) : Prop :=
  (tail = tailOf T ∧ H < T + sharedSize) ∨ (tail = sharedSize ∧ T < H ∧ (H = T + sharedSize ∨ T % sharedSize = 0))

structure Ptrs (chan : HalfChannel) (T N H : Nat) : Prop where
  head : chan.head = H % sharedSize
  next : chan.next = N % sharedSize
  tail : TailIs chan.tail T H

def ChannelSys.Inv (s : ChannelSys) : Prop :=
  ∃ T N H cs, Ring s.chan.shared s.msgs s.rcvd T N H cs ∧ Ptrs s.chan T N H

theorem lt_of_getElem? {α : Type} {l : List α} {x : α} (h : l[k]? = some x) : k < l.length :=
  (List.getElem?_eq_some_iff.mp h).1

theorem not_freed_length {rcvd : List Receipt} : freedIn rcvd rcvd.length = false := by simp [freedIn]

section Chunks
variable {m m' : Memory} {c : Chunk} {r : Alloc} {f : Bool} {msgs : List Alloc} {rcvd : List Receipt} {N : Nat}

theorem HoldsMsg.congr (h : HoldsMsg m c r f) (hc : c.Fits) (ha : Agree m m' c.off c.len) : HoldsMsg m' c r f where
  start := h.start
  alloced := h.alloced
  room := h.room
  sent := h.sent
  hdrAlloced := (ha.msgAlloced hc.line).trans h.hdrAlloced
  hdrSize := (ha.msgSize hc.line).trans h.hdrSize
  ready hf := by
    have := ha.line (i := 0) (by have := hc.line; simp only [cachelineSize] at *; omega) hc.lines
    simp only [Nat.mul_zero, Nat.add_zero] at this
    rw [this]
    exact h.ready hf
  payload hf p hp := by
    have := h.sent p hp
    have := h.room
    rw [ha.read (by omega)]
    exact h.payload hf p hp
  cleared hf i hi := by
    rw [ha.line hi hc.lines]
    exact h.cleared hf i hi

theorem HoldsMsg.not_freed_of_busy (h : HoldsMsg m c r f) (hc : c.Fits) (hb : c.Busy m) : f = false := by
  cases f with
  | false => rfl
  | true =>
    have := h.cleared rfl 0 (by have := hc.line; simp only [cachelineSize] at *; omega)
    simp only [Nat.mul_zero, Nat.add_zero] at this
    rw [Chunk.Busy, this] at hb
    exact absurd hb (by decide)

theorem HoldsSentinel.congr {q : Prop} (h : HoldsSentinel m c q) (hc : c.Fits) (ha : Agree m m' c.off c.len) :
    HoldsSentinel m' c q := by
  have h0 := ha.line (i := 0) (by have := hc.line; simp only [cachelineSize] at *; omega) hc.lines
  simp only [Nat.mul_zero, Nat.add_zero] at h0
  exact ⟨h.inner, h.ends, (ha.msgAlloced hc.line).trans h.hdrAlloced, (ha.msgSize hc.line).trans h.hdrSize,
    fun hq => h0.trans (h.ready hq), fun hq => h0.trans (h.cleared hq),
    fun i h1 hi => (ha.line hi hc.lines).trans (h.lines i h1 hi)⟩

theorem Holds.congr (h : Holds m msgs rcvd N c) (hc : c.Fits) (ha : Agree m m' c.off c.len) :
    Holds m' msgs rcvd N c := by
  unfold Holds at h ⊢
  split at h
  · obtain ⟨⟨r, hr, hm⟩, hn⟩ := h
    exact ⟨⟨r, hr, hm.congr hc ha⟩, hn⟩
  · exact h.congr hc ha

theorem Holds.msg (h : Holds m msgs rcvd N c) (hk : c.msg = some k) :
    ∃ r, msgs[k]? = some r ∧ HoldsMsg m c r (freedIn rcvd k) ∧ (c.pos < N ↔ k < rcvd.length) := by
  simp only [Holds, hk] at h
  obtain ⟨⟨r, hr, hm⟩, hn⟩ := h
  exact ⟨r, hr, hm, hn⟩

theorem Holds.sentinel (h : Holds m msgs rcvd N c) (hk : c.msg = none) : HoldsSentinel m c (c.pos < N) := by
  simpa only [Holds, hk] using h

theorem Holds.walkable (h : Holds m msgs rcvd N c) (hc : c.Fits) : Walkable m c := by
  cases hk : c.msg with
  | some k =>
    obtain ⟨r, -, hm, -⟩ := h.msg hk
    refine ⟨hm.hdrAlloced, fun hs => ?_⟩
    -- A message is too short for the size of a sentinel.
    exfalso
    rw [hm.hdrSize] at hs
    have hroom := hm.room
    have hb := hc.bound
    cases hsent : r.sent with
    | none => simp [hsent, sentinelSize] at hs
    | some p =>
      have := (hm.sent p hsent).2
      simp only [hsent, Option.map_some, Option.getD_some, sentinelSize] at hs
      simp only [sizeofMessage, sharedSize] at hroom hb
      omega
  | none => exact ⟨(h.sentinel hk).hdrAlloced, fun _ => (h.sentinel hk).ends⟩

theorem Holds.of_not_busy (h : Holds m msgs rcvd N c) (hb : ¬c.Busy m) :
    c.pos < N ∧ (∀ k, c.msg = some k → freedIn rcvd k = true) ∧
      ∀ i, cachelineSize * i < c.len → m (c.off + cachelineSize * i + 4) = 0 := by
  cases hk : c.msg with
  | some k =>
    obtain ⟨r, -, hm, hn⟩ := h.msg hk
    have hf : freedIn rcvd k = true := by
      cases hf : freedIn rcvd k
      · exact absurd (hm.ready hf) hb
      · rfl
    refine ⟨hn.mpr ?_, fun j hj => by cases hj; exact hf, hm.cleared hf⟩
    simp only [freedIn, Option.any_eq_true] at hf
    obtain ⟨x, hx, -⟩ := hf
    exact lt_of_getElem? hx
  | none =>
    have hs := h.sentinel hk
    have hN : c.pos < N := by
      by_contra hN
      exact hb (hs.ready hN)
    refine ⟨hN, by simp, fun i hi => ?_⟩
    rcases Nat.eq_zero_or_pos i with rfl | h1
    · simpa using hs.cleared hN
    · exact hs.lines i h1 hi

end Chunks

namespace Ring
variable {m : Memory} {msgs : List Alloc} {rcvd : List Receipt} {T N H M : Nat} {cs pre post : List Chunk} {c : Chunk}

theorem fits (h : Ring m msgs rcvd T N H cs) (hc : c ∈ cs) : c.Fits := h.layout.fits hc

theorem end_le (h : Ring m msgs rcvd T N H cs) (hc : c ∈ cs) (hN : c.pos < N) : c.pos + c.len ≤ N := by
  have h1 := h.layout.mem_le hc
  rcases h.boundary with rfl | ⟨d, hd, rfl⟩
  · exact h1.2
  · rcases h.layout.ordered hc hd with rfl | h2 | h2
    · omega
    · exact h2
    · omega

theorem msg_lt (h : Ring m msgs rcvd T N H cs) (hc : c ∈ cs) (hk : c.msg = some k) :
    k < msgs.length := by
  obtain ⟨r, hr, -⟩ := (h.holds c hc).msg hk
  exact lt_of_getElem? hr

theorem msg_inj (h : Ring m msgs rcvd T N H cs) {d : Chunk} (hc : c ∈ cs) (hd : d ∈ cs)
    (hk : c.msg = some k) (hk' : d.msg = some k) : c = d := by
  rcases Nat.lt_trichotomy c.pos d.pos with hlt | heq | hlt
  · exact absurd (h.mono c hc d hd k k hk hk' hlt) (Nat.lt_irrefl k)
  · exact h.layout.eq_of_pos hc hd heq
  · exact absurd (h.mono d hd c hc k k hk' hk hlt) (Nat.lt_irrefl k)

theorem rcvd_le (h : Ring m msgs rcvd T N H cs) : rcvd.length ≤ msgs.length := by
  by_contra hlt
  have hk : msgs.length < rcvd.length := by omega
  obtain ⟨a, p, ha, -⟩ := h.receipts msgs.length rcvd[msgs.length] (List.getElem?_eq_getElem hk)
  simp at ha

theorem reclaim (h : Ring m msgs rcvd T N H (pre ++ post)) (hpre : Layout M T pre) (hpost : Layout H M post)
    (hdone : ∀ c ∈ pre, ¬c.Busy m) : Ring m msgs rcvd M N H post := by
  have hmem : ∀ c ∈ pre, c ∈ pre ++ post := fun c hc => List.mem_append_left _ hc
  have hmem' : ∀ c ∈ post, c ∈ pre ++ post := fun c hc => List.mem_append_right _ hc
  have hTM : T ≤ M := hpre.le
  have hMN : M ≤ N := hpre.end_le h.lower fun c hc =>
    h.end_le (hmem c hc) ((h.holds c (hmem c hc)).of_not_busy (hdone c hc)).1
  have hw := h.window
  refine ⟨hpost, h.aligned, by omega, hMN, h.upper, ?_, fun c hc => h.holds c (hmem' c hc), ?_, ?_,
    fun c hc d hd => h.mono c (hmem' c hc) d (hmem' d hd), h.receipts⟩
  · rcases h.boundary with hN | ⟨c, hc, hN⟩
    · exact Or.inl hN
    · rcases List.mem_append.mp hc with hc | hc
      · have h1 := (hpre.mem_le hc)
        have h2 := (hpre.fits hc).line
        simp only [cachelineSize] at h2
        omega
      · exact Or.inr ⟨c, hc, hN⟩
  · intro v hv hH hM
    by_cases hT : v < T + sharedSize
    · exact h.free v hv hH hT
    · -- The line belongs to a reclaimed chunk.
      obtain ⟨c, hc, h1, h2⟩ := hpre.cover (u := v - sharedSize) (by omega) (by omega)
      have hf := hpre.fits hc
      have h3 := hf.aligned
      have h4 := hf.bound
      have key := ((h.holds c (hmem c hc)).of_not_busy (hdone c hc)).2.2 ((v - sharedSize - c.pos) / cachelineSize)
      have e1 : cachelineSize * ((v - sharedSize - c.pos) / cachelineSize) = v - sharedSize - c.pos := by
        simp only [cachelineSize, sharedSize] at *
        omega
      have e2 : c.off + (v - sharedSize - c.pos) = v % sharedSize := by
        simp only [Chunk.off, sharedSize] at *
        omega
      rw [e1, e2] at key
      exact key (by omega)
  · intro k hk hf
    obtain ⟨c, hc, hck⟩ := h.cover k hk hf
    rcases List.mem_append.mp hc with hc | hc
    · have := ((h.holds c (hmem c hc)).of_not_busy (hdone c hc)).2.1 k hck
      rw [hf] at this
      cases this
    · exact ⟨c, hc, hck⟩

end Ring
end Faux
