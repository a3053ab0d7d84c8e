import Faux.Theorems.Channel.Ring

/-! The sender's steps on the ring: garbage collection, allocation and sending. -/

namespace Faux
open Lib

variable {m : Memory} {msgs : List Alloc} {rcvd : List Receipt} {T N H : Nat} {cs : List Chunk} {chan : HalfChannel}

/-- The tail from which garbage collection starts at the oldest chunk: the offset before `T`, or the full
    flag over a ring that is reclaimed up to the start of a lap. -/
def Scans (tail T H : Nat) : Prop :=
  (tail = tailOf T ∧ H < T + sharedSize) ∨ (tail = sharedSize ∧ T % sharedSize = 0 ∧ T < H ∧ H ≤ T + sharedSize)

theorem gcFreed_of_le {head tail : Nat} (hh : head ≤ tail) (ht : tail ≤ sharedSize) :
    gcFreed head tail = if tail + 1 - head > sharedSize then 0 else tail + 1 - head := by
  have e : sizeSub (tail + 1) head = tail + 1 - head := by
    simp only [sizeSub, sizeMod, sharedSize] at *
    omega
  simp only [gcFreed, e, Nat.not_lt.mpr hh, gt_iff_lt, if_false]

theorem gcFreed_of_gt {head tail : Nat} (hh : tail < head) (ht : head ≤ sharedSize) :
    gcFreed head tail = if head = tail + 1 then sharedSize else 0 := by
  have e : sizeSub sharedSize (sizeSub (tail + 1) head) = sharedSize + head - (tail + 1) := by
    simp only [sizeSub, sizeMod, sharedSize] at *
    omega
  simp only [gcFreed, e, hh, gt_iff_lt, if_true]
  split_ifs <;> omega

theorem Scans.starts {tail : Nat} (ho : Scans tail T H) (hT : T % cachelineSize = 0) (hH : H % cachelineSize = 0)
    (hle : T ≤ H) :
    (tail + 1 = T % sharedSize ∨ (sharedSize ≤ tail + 1 ∧ T % sharedSize = 0)) ∧
      ((tail + 1 = H % sharedSize ∨ gcFreed (H % sharedSize) tail = sharedSize) ↔ T = H) ∧
      Counts T H (gcFreed (H % sharedSize) tail) := by
  have hhead : H % sharedSize < sharedSize := Nat.mod_lt _ (by decide)
  have htail : tail ≤ sharedSize := by
    simp only [Scans, tailOf, sharedSize] at *
    omega
  rcases Nat.lt_or_ge tail (H % sharedSize) with hlt | hge
  · have hf := gcFreed_of_gt hlt (Nat.le_of_lt hhead)
    generalize gcFreed (H % sharedSize) tail = freed at hf ⊢
    split_ifs at hf
    all_goals
      simp only [Scans, Counts, tailOf, sharedSize, cachelineSize] at *
      -- Head and tail are in the same lap.
      have hlap : H / 65536 = (T + 65536 - 1) / 65536 - 1 := by omega
      omega
  · have hf := gcFreed_of_le hge htail
    generalize gcFreed (H % sharedSize) tail = freed at hf ⊢
    rcases ho with ⟨ht, hw⟩ | ho <;> split_ifs at hf
    all_goals simp only [Counts, tailOf, sharedSize, cachelineSize] at *
    · omega
    · -- The head is in the lap that the tail ends before.
      have hlap : H / 65536 = (T + 65536 - 1) / 65536 := by omega
      omega
    · omega
    · omega

theorem Layout.start_aligned (h : Layout H T cs) (hH : H % cachelineSize = 0) : T % cachelineSize = 0 := by
  cases cs with
  | nil =>
    have : T = H := h
    exact this ▸ hH
  | cons c cs => exact h.1 ▸ h.2.1.aligned

theorem Scans.gc (ho : Scans chan.tail T H) (hhead : chan.head = H % sharedSize) (h : Layout H T cs) (hw : H ≤ T + sharedSize)
    (hcs : ∀ c ∈ cs, Walkable chan.shared c) (hH : H % cachelineSize = 0) :
    ∃ t pre post M, channelGc chan = some { chan with tail := t } ∧ Walked chan.shared H T chan.tail cs t pre post M ∧
      ((t = chan.tail ∧ M = T ∧ post = cs) ∨ (t = tailOf M ∧ H < M + sharedSize)) := by
  obtain ⟨h1, h2, h3⟩ := ho.starts (h.start_aligned hH) hH h.le
  have hfuel : cs.length < ringFuel := by
    have h4 := h.length_le
    simp only [ringFuel, sharedSize, cachelineSize] at *
    omega
  obtain ⟨t, pre, post, M, hrun, walked⟩ := gcLoop_spec chan.tail ringFuel h hw hcs h1 h2 h3 hfuel
  refine ⟨t, pre, post, M, by simp [channelGc, hhead, hrun], walked, ?_⟩
  cases hpre : pre with
  | nil =>
    have hM := walked.reclaimed
    have heq := walked.eq
    rw [hpre] at hM heq
    exact Or.inl ⟨by simp [walked.last, hpre], hM.symm, heq.symm⟩
  | cons c pre' =>
    have hlt := walked.reclaimed.mem_le (c := c) (by simp [hpre])
    have hline := (walked.reclaimed.fits (c := c) (by simp [hpre])).line
    refine Or.inr ⟨by simp [walked.last, hpre], ?_⟩
    simp only [cachelineSize] at hline
    omega

def nextLap (H : Nat) : Nat := H + (sharedSize - H % sharedSize)

theorem nextLap_mod : nextLap H % sharedSize = 0 := by
  simp only [nextLap, sharedSize]
  omega

namespace Ring

theorem T_aligned (h : Ring m msgs rcvd T N H cs) : T % cachelineSize = 0 := h.layout.start_aligned h.aligned

theorem walkable (h : Ring m msgs rcvd T N H cs) : ∀ c ∈ cs, Walkable m c :=
  fun c hc => (h.holds c hc).walkable (h.fits hc)

theorem of_walked {t t' M : Nat} {pre post : List Chunk} (h : Ring m msgs rcvd T N H cs)
    (hw : Walked m H T t cs t' pre post M) : Ring m msgs rcvd M N H post := by
  have h' := h
  rw [hw.eq] at h'
  exact h'.reclaim hw.reclaimed hw.rest hw.done

theorem gc_scans (h : Ring chan.shared msgs rcvd T N H cs) (hhead : chan.head = H % sharedSize)
    (ho : Scans chan.tail T H) :
    ∃ t post M, channelGc chan = some { chan with tail := t } ∧ Ring chan.shared msgs rcvd M N H post ∧
      ((t = chan.tail ∧ M = T ∧ post = cs) ∨ (t = tailOf M ∧ H < M + sharedSize)) ∧
      ∀ c, post.head? = some c → c.Busy chan.shared := by
  obtain ⟨t, pre, post, M, hgc, hw, hcase⟩ := ho.gc hhead h.layout h.window h.walkable h.aligned
  exact ⟨t, post, M, hgc, h.of_walked hw, hcase, hw.stop⟩

theorem boundary_append (h : Ring m msgs rcvd T N H cs) (c : Chunk) (hc : c.pos = H) :
    ∃ d ∈ cs ++ [c], d.pos = N := by
  rcases h.boundary with rfl | ⟨d, hd, hN⟩
  · exact ⟨c, by simp, hc⟩
  · exact ⟨d, List.mem_append_left _ hd, hN⟩

theorem agree_head {m' : Memory} (h : Ring m msgs rcvd T N H cs) (hlt : H < T + sharedSize)
    (hm : ∀ x, x < H % sharedSize ∨ H % sharedSize + 5 ≤ x → m' x = m x) : ∀ c ∈ cs, Agree m m' c.off c.len := by
  intro c hc x h1 h2
  have hd := h.layout.disjoint_line hc h.aligned (Nat.le_refl H) hlt
  simp only [cachelineSize] at hd
  exact hm x (by omega)

theorem free_head {m' : Memory} (h : Ring m msgs rcvd T N H cs)
    (hm : ∀ x, x < H % sharedSize ∨ H % sharedSize + 5 ≤ x → m' x = m x) {v : Nat} (hv : v % cachelineSize = 0)
    (hH : H < v) (hT : v < T + sharedSize) : m' (v % sharedSize + 4) = 0 := by
  have h1 := h.aligned
  have h2 := h.layout.le
  rw [hm _ ?_]
  · exact h.free v hv (Nat.le_of_lt hH) hT
  · simp only [sharedSize, cachelineSize] at *
    omega

theorem push_sentinel (h : Ring m msgs rcvd T N H cs) (h0 : 0 < H % sharedSize) (hw : nextLap H ≤ T + sharedSize) :
    Ring (writeSentinel m (H % sharedSize)) msgs rcvd T N (nextLap H) (cs ++ [⟨H, sharedSize - H % sharedSize, none⟩]) := by
  have hmod : H % sharedSize < sharedSize := Nat.mod_lt _ (by decide)
  have hal := h.aligned
  have hup := h.upper
  have hframe : ∀ x, x < H % sharedSize ∨ H % sharedSize + 5 ≤ x → writeSentinel m (H % sharedSize) x = m x :=
    fun x hx => writeSentinel_of_ne hx
  have hfits : Chunk.Fits ⟨H, sharedSize - H % sharedSize, none⟩ := by
    refine ⟨hal, ?_, ?_, ?_⟩ <;> simp only [Chunk.off, sharedSize, cachelineSize] at * <;> omega
  have hlap : nextLap H = H + (sharedSize - H % sharedSize) := rfl
  have hagree := h.agree_head (by omega) hframe
  have hsent : HoldsSentinel (writeSentinel m (H % sharedSize)) ⟨H, sharedSize - H % sharedSize, none⟩ (H < N) := by
    refine ⟨h0, ?_, msgAlloced_writeSentinel h0, msgSize_writeSentinel, fun _ => ready_writeSentinel,
      fun hc => absurd hc (by omega), ?_⟩
    · simp only [Chunk.off]
      omega
    · intro i h1 hi
      have e : H % sharedSize + cachelineSize * i = (H + cachelineSize * i) % sharedSize := by
        simp only [sharedSize, cachelineSize] at *
        omega
      simp only [Chunk.off, e]
      refine h.free_head hframe ?_ ?_ ?_ <;> simp only [sharedSize, cachelineSize] at * <;> omega
  refine ⟨h.layout.append (Layout.singleton hfits), ?_, hw, h.lower, by omega,
    Or.inr (h.boundary_append _ rfl), ?_, ?_, ?_, ?_, h.receipts⟩
  · simp only [nextLap, sharedSize, cachelineSize] at *
    omega
  · intro c hc
    rcases List.mem_append.mp hc with hc | hc
    · exact (h.holds c hc).congr (h.fits hc) (hagree c hc)
    · rw [List.mem_singleton.mp hc]
      exact hsent
  · exact fun v hv h1 h2 => h.free_head hframe hv (by omega) h2
  · intro k hk hf
    obtain ⟨c, hc, hck⟩ := h.cover k hk hf
    exact ⟨c, List.mem_append_left _ hc, hck⟩
  · intro c hc d hd j k hj hk
    rcases List.mem_append.mp hc with hc | hc
    · rcases List.mem_append.mp hd with hd | hd
      · exact h.mono c hc d hd j k hj hk
      · rw [List.mem_singleton.mp hd] at hk
        cases hk
    · rw [List.mem_singleton.mp hc] at hj
      cases hj

theorem push_msg {len size : Nat} (h : Ring m msgs rcvd T N H cs) (hl : len % cachelineSize = 0)
    (hl' : cachelineSize ≤ len) (hs : size + sizeofMessage ≤ len) (hend : H % sharedSize + len ≤ sharedSize)
    (hlen : len < sharedSize) (hw : H + len ≤ T + sharedSize) :
    Ring (writeHeader m (H % sharedSize) len)
      (msgs ++ [{ start := H % sharedSize, alloced := len, size := size, sent := none }]) rcvd T N (H + len)
      (cs ++ [⟨H, len, some msgs.length⟩]) := by
  have hal := h.aligned
  have hup := h.upper
  have hlen0 : 0 < len := by simp only [cachelineSize] at hl'; omega
  have hrl := h.rcvd_le
  have hframe : ∀ x, x < H % sharedSize ∨ H % sharedSize + 5 ≤ x → writeHeader m (H % sharedSize) len x = m x :=
    fun x hx => writeHeader_of_ne hx
  have hfits : Chunk.Fits ⟨H, len, some msgs.length⟩ := ⟨hal, hl, hl', hend⟩
  have hagree := h.agree_head (by omega) hframe
  have hnf : freedIn rcvd msgs.length = false := by
    simp [freedIn, List.getElem?_eq_none hrl]
  have hmsg : HoldsMsg (writeHeader m (H % sharedSize) len) ⟨H, len, some msgs.length⟩
      { start := H % sharedSize, alloced := len, size := size, sent := none } false :=
    ⟨rfl, rfl, hs, by simp, msgAlloced_writeHeader hlen, msgSize_writeHeader, fun _ => ready_writeHeader, by simp, by simp⟩
  refine ⟨h.layout.append (Layout.singleton hfits), ?_, hw, h.lower, by omega,
    Or.inr (h.boundary_append _ rfl), ?_, ?_, ?_, ?_, ?_⟩
  · simp only [cachelineSize] at *
    omega
  · intro c hc
    rcases List.mem_append.mp hc with hc | hc
    · have hold := (h.holds c hc).congr (h.fits hc) (hagree c hc)
      cases hk : c.msg with
      | none => simpa only [Holds, hk] using hold
      | some k => grind [Holds]
    · grind [Holds]
  · exact fun v hv h1 h2 => h.free_head hframe hv (by omega) h2
  · intro k hk hf
    by_cases hkl : k < msgs.length
    · obtain ⟨c, hc, hck⟩ := h.cover k hkl hf
      exact ⟨c, List.mem_append_left _ hc, hck⟩
    · refine ⟨_, List.mem_append_right _ (List.mem_singleton.mpr rfl), ?_⟩
      simp only [List.length_append, List.length_singleton] at hk
      simp only [Option.some.injEq]
      omega
  · intro c hc d hd j k hj hk hpos
    rcases List.mem_append.mp hd with hd | hd
    · rcases List.mem_append.mp hc with hc | hc
      · exact h.mono c hc d hd j k hj hk hpos
      · -- The new chunk is the last one.
        rw [List.mem_singleton.mp hc] at hpos
        have h1 := h.layout.mem_le hd
        simp only at hpos
        omega
    · rw [List.mem_singleton.mp hd] at hk hpos
      cases hk
      rcases List.mem_append.mp hc with hc | hc
      · exact h.msg_lt hc hj
      · rw [List.mem_singleton.mp hc] at hpos
        simp at hpos
  · intro k r hr
    obtain ⟨a, p, ha, hrest⟩ := h.receipts k r hr
    exact ⟨a, p, by rw [List.getElem?_append_left (lt_of_getElem? ha)]; exact ha, hrest⟩

end Ring
end Faux
