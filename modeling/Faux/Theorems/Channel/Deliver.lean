import Faux.Theorems.Channel.Ring

/-! Sending, polling, receiving and freeing keep the invariant. -/

namespace Faux
open Lib

variable {m m' : Memory} {msgs : List Alloc} {rcvd : List Receipt} {T N H k : Nat} {cs : List Chunk} {c d : Chunk}
  {chan : HalfChannel} {s : ChannelSys}

namespace Ring
variable {p : List UInt8} {r : Receipt} {a : Alloc}

theorem agree_other (h : Ring m msgs rcvd T N H cs) (hc : c ∈ cs)
    (hm : ∀ x, x < c.off ∨ c.off + c.len ≤ x → m' x = m x) (hd : d ∈ cs) (hne : d ≠ c) : Agree m m' d.off d.len := by
  intro x h1 h2
  have := h.layout.disjoint h.window hd hc hne
  exact hm x (by omega)

theorem free_other (h : Ring m msgs rcvd T N H cs) (hc : c ∈ cs)
    (hm : ∀ x, x < c.off ∨ c.off + c.len ≤ x → m' x = m x) {v : Nat} (hv : v % cachelineSize = 0) (hH : H ≤ v)
    (hT : v < T + sharedSize) : m' (v % sharedSize + 4) = 0 := by
  rw [hm _ ?_]
  · exact h.free v hv hH hT
  · have h1 := h.layout.disjoint_line hc hv hH hT
    simp only [cachelineSize] at h1
    omega

/-! ### Sending -/

theorem send (h : Ring m msgs rcvd T N H cs) {r : Alloc} (hr : msgs[k]? = some r) (hs : r.sent = none)
    (h1 : 1 ≤ p.length) (h2 : p.length ≤ r.size) :
    Ring (sendMem m r.start p) (msgs.set k { r with sent := some p }) rcvd T N H cs := by
  -- The message has no receipt yet, because only sent messages are received.
  have hnr : rcvd[k]? = none := by
    cases hx : rcvd[k]? with
    | none => rfl
    | some x =>
      obtain ⟨a, p', ha, hp', -⟩ := h.receipts k x hx
      rw [hr] at ha
      cases ha
      rw [hs] at hp'
      cases hp'
  have hkl := lt_of_getElem? hr
  have hnf : freedIn rcvd k = false := by simp [freedIn, hnr]
  obtain ⟨c, hc, hck⟩ := h.cover k hkl hnf
  obtain ⟨r', hr', hm, hn⟩ := (h.holds c hc).msg hck
  rw [hr] at hr'
  cases hr'
  rw [hnf] at hm
  have hfits := h.fits hc
  have hroom := hm.room
  have hbound := hfits.bound
  have hframe : ∀ x, x < c.off ∨ c.off + c.len ≤ x → sendMem m r.start p x = m x := fun x hx => by
    rw [hm.start]
    exact sendMem_of_ne (by omega)
  have hmsg : HoldsMsg (sendMem m r.start p) c { r with sent := some p } false := by
    rw [hm.start]
    refine ⟨rfl, hm.alloced, hroom, fun q hq => by cases hq; exact ⟨h1, h2⟩, ?_, ?_, fun _ => ?_, ?_, by simp⟩
    · rw [msgAlloced_sendMem, hm.hdrAlloced]
    · rw [msgSize_sendMem (by simp only [sharedSize, sizeofMessage] at *; omega)]
      rfl
    · rw [sendMem_of_ne (by simp only [sizeofMessage]; omega), hm.ready rfl]
    · intro _ q hq
      cases hq
      exact read_sendMem
  refine ⟨h.layout, h.aligned, h.window, h.lower, h.upper, h.boundary, ?_, fun v => h.free_other hc hframe, ?_, h.mono, ?_⟩
  · intro d hd
    by_cases hdc : d = c
    · grind [Holds]
    · have hold := (h.holds d hd).congr (h.fits hd) (h.agree_other hc hframe hd hdc)
      cases hj : d.msg with
      | none => simpa only [Holds, hj] using hold
      | some j =>
        obtain ⟨r', hr', hm', hn'⟩ := hold.msg hj
        have hjk : k ≠ j := by
          rintro rfl
          exact hdc (h.msg_inj hd hc hj hck)
        simp only [Holds, hj]
        exact ⟨⟨r', by rw [List.getElem?_set_ne hjk]; exact hr', hm'⟩, hn'⟩
  · intro j hj hf
    exact h.cover j (by simpa using hj) hf
  · intro j x hx
    have hjk : k ≠ j := by
      rintro rfl
      rw [hnr] at hx
      cases hx
    rw [List.getElem?_set_ne hjk]
    exact h.receipts j x hx

/-! ### Moving past a chunk -/

theorem boundary_next (h : Ring m msgs rcvd T N H cs) (hc : c ∈ cs) :
    c.pos + c.len = H ∨ ∃ d ∈ cs, d.pos = c.pos + c.len := by
  obtain ⟨pre, post, rfl, -, hpost⟩ := h.layout.split_mem hc
  cases post with
  | nil => exact Or.inl hpost
  | cons d post => exact Or.inr ⟨d, by simp, hpost.1⟩

theorem pos_lt_next (h : Ring m msgs rcvd T N H cs) (hc : c ∈ cs) (hd : d ∈ cs) (hne : d ≠ c) :
    d.pos < c.pos + c.len ↔ d.pos < c.pos := by
  have h1 := (h.layout.ordered hd hc).resolve_left hne
  have h2 := (h.fits hd).line
  simp only [cachelineSize] at h2
  omega

theorem pass_sentinel (h : Ring m msgs rcvd T N H cs) (hc : c ∈ cs) (hN : c.pos = N) (hk : c.msg = none) :
    Ring (setReady m c.off false) msgs rcvd T (N + c.len) H cs := by
  have hfits := h.fits hc
  have hline := hfits.line
  have hle := h.layout.mem_le hc
  have hs := (h.holds c hc).sentinel hk
  simp only [cachelineSize] at hline
  have hframe : ∀ x, x < c.off ∨ c.off + c.len ≤ x → setReady m c.off false x = m x :=
    fun x hx => setReady_of_ne (by omega)
  have hlow := h.lower
  have hsent : HoldsSentinel (setReady m c.off false) c (c.pos < N + c.len) := by
    refine ⟨hs.inner, hs.ends, by rw [msgAlloced_setReady, hs.hdrAlloced], by rw [msgSize_setReady, hs.hdrSize],
      fun hlt => absurd (by omega) hlt, fun _ => by rw [setReady_self]; rfl, fun i h1 hi => ?_⟩
    rw [setReady_of_ne (by simp only [cachelineSize]; omega)]
    exact hs.lines i h1 hi
  refine ⟨h.layout, h.aligned, h.window, by omega, by omega, hN ▸ h.boundary_next hc, ?_,
    fun v => h.free_other hc hframe, h.cover, h.mono, h.receipts⟩
  intro d hd
  by_cases hdc : d = c
  · subst hdc
    simpa only [Holds, hk] using hsent
  · have hold := (h.holds d hd).congr (h.fits hd) (h.agree_other hc hframe hd hdc)
    have hpos := hN ▸ h.pos_lt_next hc hd hdc
    cases hj : d.msg with
    | none =>
      simp only [Holds, hj, hpos] at hold ⊢
      exact hold
    | some j =>
      simp only [Holds, hj, hpos] at hold ⊢
      exact hold

theorem freedIn_append (hr : r.freed = false) : freedIn (rcvd ++ [r]) k = freedIn rcvd k := by
  rcases Nat.lt_trichotomy k rcvd.length with hk | hk | hk
  · simp only [freedIn, List.getElem?_append_left hk]
  · subst hk
    simp [freedIn, hr]
  · grind [freedIn]

theorem msg_eq_length (h : Ring m msgs rcvd T N H cs) (hc : c ∈ cs) (hN : c.pos = N) (hk : c.msg = some k) :
    k = rcvd.length := by
  obtain ⟨r, hr, -, hn⟩ := (h.holds c hc).msg hk
  have hge : rcvd.length ≤ k := by
    by_contra hlt
    have := hn.mpr (by omega)
    omega
  by_contra hne
  -- Otherwise the message without receipt comes before `k` and lies behind `c`.
  obtain ⟨d, hd, hdk⟩ := h.cover rcvd.length (by have := lt_of_getElem? hr; omega) not_freed_length
  obtain ⟨-, -, -, hn'⟩ := (h.holds d hd).msg hdk
  rcases Nat.lt_trichotomy c.pos d.pos with hlt | heq | hlt
  · have := h.mono c hc d hd k _ hk hdk hlt
    omega
  · have := h.layout.eq_of_pos hc hd heq
    subst this
    rw [hk] at hdk
    cases hdk
    exact hne rfl
  · have := hn'.mp (by omega)
    omega

theorem pass_msg (h : Ring m msgs rcvd T N H cs) (hc : c ∈ cs) (hN : c.pos = N) (hk : c.msg = some rcvd.length)
    (ha : msgs[rcvd.length]? = some a) (hp : a.sent = some p)
    (hr : r = { data := a.start + sizeofMessage, size := p.length, payload := p, freed := false }) :
    Ring m msgs (rcvd ++ [r]) T (N + c.len) H cs := by
  have hline := (h.fits hc).line
  have hle := h.layout.mem_le hc
  have hlow := h.lower
  have hrf : r.freed = false := by rw [hr]
  refine ⟨h.layout, h.aligned, h.window, by omega, by omega, hN ▸ h.boundary_next hc, ?_, h.free, ?_, h.mono, ?_⟩
  · intro d hd
    have hold := h.holds d hd
    cases hj : d.msg with
    | none =>
      have hdc : d ≠ c := by
        rintro rfl
        rw [hk] at hj
        cases hj
      have hpos := hN ▸ h.pos_lt_next hc hd hdc
      simp only [Holds, hj, hpos] at hold ⊢
      exact hold
    | some j =>
      obtain ⟨x, hx, hm, hn⟩ := hold.msg hj
      simp only [Holds, hj, freedIn_append hrf, List.length_append, List.length_singleton]
      refine ⟨⟨x, hx, hm⟩, ?_⟩
      by_cases hdc : d = c
      · grind [cachelineSize]
      · have hne : j ≠ rcvd.length := by
          rintro rfl
          exact hdc (h.msg_inj hd hc hj hk)
        have hpos := h.pos_lt_next hc hd hdc
        omega
  · intro j hj hf
    rw [freedIn_append hrf] at hf
    exact h.cover j hj hf
  · intro j x hx
    by_cases hjl : j < rcvd.length
    · rw [List.getElem?_append_left hjl] at hx
      exact h.receipts j x hx
    · grind

/-! ### Polling -/

theorem size_ne_sentinel {f : Bool} (hm : HoldsMsg m c a f) (hc : c.Fits)
    (hp : a.sent = some p) : p.length ≠ sentinelSize := by
  have h1 := (hm.sent p hp).2
  have h2 := hm.room
  have h3 := hc.bound
  simp only [sentinelSize, sizeofMessage, sharedSize] at *
  omega

theorem received_all (h : Ring m msgs rcvd T N H cs) (hN : N = H) : rcvd.length = msgs.length := by
  by_contra hne
  have hle := h.rcvd_le
  obtain ⟨d, hd, hdk⟩ := h.cover rcvd.length (by omega) not_freed_length
  obtain ⟨-, -, -, hn⟩ := (h.holds d hd).msg hdk
  have h1 := h.layout.mem_le hd
  have h2 := (h.fits hd).line
  simp only [cachelineSize] at h2
  have := hn.mp (by omega)
  omega

theorem head_flag (h : Ring m msgs rcvd T N H cs) (hN : N = H)
    (hg : H = T + sharedSize → ∀ (k : Nat) (a : Alloc), msgs[k]? = some a → freedIn rcvd k = false → a.start ≠ H % sharedSize) :
    m (H % sharedSize + 4) = 0 := by
  have hw := h.window
  by_cases hlt : H < T + sharedSize
  · exact h.free H h.aligned (Nat.le_refl H) hlt
  · -- The head is at the oldest chunk, which has been consumed.
    have hH : H = T + sharedSize := by omega
    cases cs with
    | nil =>
      have : T = H := h.layout
      simp only [sharedSize] at hH
      omega
    | cons c cs =>
      have hc : c.off = H % sharedSize := by
        rw [Chunk.off, h.layout.1, hH]
        simp
      have hholds := h.holds c List.mem_cons_self
      have hnb : ¬c.Busy m := by
        intro hbusy
        cases hk : c.msg with
        | some k =>
          obtain ⟨a, ha, hm, -⟩ := hholds.msg hk
          exact hg hH k a ha (hm.not_freed_of_busy (h.fits List.mem_cons_self) hbusy) (by rw [hm.start, hc])
        | none =>
          have hpos : c.pos < N := by
            rw [hN, h.layout.1, hH]
            simp only [sharedSize]
            omega
          rw [Chunk.Busy, (hholds.sentinel hk).cleared hpos] at hbusy
          exact absurd hbusy (by decide)
      have := (hholds.of_not_busy hnb).2.2 0 (by
        have := (h.fits (c := c) List.mem_cons_self).line
        simp only [cachelineSize] at *
        omega)
      simpa [hc] using this

def Polled (msgs : List Alloc) (rcvd : List Receipt) (N : Nat) (cs : List Chunk) (size : Nat) : Prop :=
  (size = 0 ∧ ∀ a p, msgs[rcvd.length]? = some a → a.sent ≠ some p) ∨
    ∃ c ∈ cs, ∃ a p, c.pos = N ∧ c.msg = some rcvd.length ∧ msgs[rcvd.length]? = some a ∧ a.sent = some p ∧ size = p.length

theorem poll_here (chan : HalfChannel) (fuel : Nat) (h : Ring chan.shared msgs rcvd T N H cs) (hnext : chan.next = N % sharedSize)
    (hg : rcvd.length = msgs.length → H = T + sharedSize →
      ∀ (k : Nat) (a : Alloc), msgs[k]? = some a → freedIn rcvd k = false → a.start ≠ H % sharedSize)
    (hN : N = H ∨ ∃ c ∈ cs, c.pos = N ∧ c.msg ≠ none) :
    ∃ size, pollLoop false (fuel + 1) chan = some (chan, size) ∧ Polled msgs rcvd N cs size := by
  rcases hN with hN | ⟨c, hc, hN, hk⟩
  · have hall := h.received_all hN
    have hflag := h.head_flag hN (hg hall)
    refine ⟨0, ?_, Or.inl ⟨rfl, fun a p ha => ?_⟩⟩
    · have : msgReady chan.shared chan.next false = true := msgReady_false.mpr (by rw [hnext, hN, hflag])
      simp [pollLoop, this]
    · rw [hall] at ha
      simp at ha
  · obtain ⟨k, hk⟩ := Option.ne_none_iff_exists'.mp hk
    obtain rfl := h.msg_eq_length hc hN hk
    obtain ⟨a, ha, hm, -⟩ := (h.holds c hc).msg hk
    rw [not_freed_length] at hm
    have hoff : chan.next = c.off := by rw [hnext, Chunk.off, hN]
    have hready : msgReady chan.shared c.off false = false := by
      rw [← Bool.not_eq_true, msgReady_false, hm.ready rfl]
      decide
    have hsize := hm.hdrSize
    cases hs : a.sent with
    | none =>
      simp only [hs, Option.map_none, Option.getD_none] at hsize
      refine ⟨0, by simp [pollLoop, hoff, hsize], Or.inl ⟨rfl, fun a' p ha' hp => ?_⟩⟩
      rw [ha] at ha'
      cases ha'
      rw [hs] at hp
      cases hp
    | some p =>
      simp only [hs, Option.map_some, Option.getD_some] at hsize
      have h1 := (hm.sent p hs).1
      have h2 := size_ne_sentinel hm (h.fits hc) hs
      refine ⟨p.length, ?_, Or.inr ⟨c, hc, a, p, hN, hk, ha, hs, rfl⟩⟩
      have h3 : p.length ≠ 0 := by omega
      simp [pollLoop, hoff, hready, hsize, h2, h3]

theorem poll (h : Ring chan.shared msgs rcvd T N H cs) (hnext : chan.next = N % sharedSize)
    (hg : rcvd.length = msgs.length → H = T + sharedSize →
      ∀ (k : Nat) (a : Alloc), msgs[k]? = some a → freedIn rcvd k = false → a.start ≠ H % sharedSize) :
    ∃ m' N' size, channelPoll chan false = some ({ chan with next := N' % sharedSize, shared := m' }, size) ∧
      Ring m' msgs rcvd T N' H cs ∧ Polled msgs rcvd N' cs size := by
  have hfuel : ringFuel = 1023 + 1 + 1 := rfl
  by_cases hN : N = H ∨ ∃ c ∈ cs, c.pos = N ∧ c.msg ≠ none
  · obtain ⟨size, hrun, hpolled⟩ := poll_here chan 1024 h hnext hg hN
    exact ⟨chan.shared, N, size, by rw [channelPoll, hfuel, hrun, ← hnext], h, hpolled⟩
  · obtain ⟨hNH, hN⟩ := not_or.mp hN
    obtain ⟨c, hc, hcN⟩ := h.boundary.resolve_left hNH
    have hk : c.msg = none := by
      by_contra hk
      exact hN ⟨c, hc, hcN, hk⟩
    have hs := (h.holds c hc).sentinel hk
    have hoff : chan.next = c.off := by rw [hnext, Chunk.off, hcN]
    have hready : msgReady chan.shared c.off false = false := by
      rw [← Bool.not_eq_true, msgReady_false, hs.ready (by omega)]
      decide
    have hstep : pollLoop false ringFuel chan =
        pollLoop false (1023 + 1) { chan with next := 0, shared := setReady chan.shared c.off false } := by
      have : sentinelSize ≠ 0 := by decide
      rw [hfuel, pollLoop]
      simp [hoff, hready, hs.hdrSize, this]
    have hpass := h.pass_sentinel hc hcN hk
    have hmod : (N + c.len) % sharedSize = 0 := by
      have := hs.ends
      rw [Chunk.off, hcN] at this
      simp only [sharedSize] at *
      omega
    -- The chunk after a sentinel is at offset 0 and so is no sentinel.
    have hN' : N + c.len = H ∨ ∃ d ∈ cs, d.pos = N + c.len ∧ d.msg ≠ none := by
      rcases hpass.boundary with hlast | ⟨d, hd, hdN⟩
      · exact Or.inl hlast
      · refine Or.inr ⟨d, hd, hdN, fun hdk => ?_⟩
        have h1 := ((hpass.holds d hd).sentinel hdk).inner
        rw [Chunk.off, hdN, hmod] at h1
        omega
    obtain ⟨size, hrun, hpolled⟩ := poll_here { chan with next := 0, shared := setReady chan.shared c.off false } 1023
      hpass hmod.symm hg hN'
    exact ⟨_, N + c.len, size, by rw [channelPoll, hstep, hrun, hmod], hpass, hpolled⟩

theorem receive_eq {size : Nat} {m' : Memory} {N' : Nat}
    (hpoll : channelPoll chan false = some ({ chan with next := N' % sharedSize, shared := m' }, size))
    (h : Ring m' msgs rcvd T N' H cs) (hc : c ∈ cs) (hN : c.pos = N') (hk : c.msg = some rcvd.length)
    (ha : msgs[rcvd.length]? = some a) (hs : a.sent = some p) (hsize : size = p.length) :
    channelReceive chan false = some ({ chan with next := (N' + c.len) % sharedSize, shared := m' }, p.length,
      some (a.start + sizeofMessage)) ∧ m'.read (a.start + sizeofMessage) p.length = p := by
  obtain ⟨a', ha', hm, -⟩ := (h.holds c hc).msg hk
  rw [ha] at ha'
  cases ha'
  rw [not_freed_length] at hm
  have h1 := hm.sent p hs
  have h2 := hm.room
  have h3 := (h.fits hc).bound
  have hcl : ¬(p.length = closedSize ∨ p.length = 0) := by
    simp only [closedSize, sizeMod, sizeofMessage, sharedSize] at *
    omega
  have hoff : N' % sharedSize = c.off := by rw [Chunk.off, hN]
  have hnew : (if c.off + c.len ≥ sharedSize then 0 else c.off + c.len) = (N' + c.len) % sharedSize := by
    grind [sharedSize]
  constructor
  · simp only [channelReceive, hpoll, hsize, hcl, Option.bind_eq_bind, Option.bind_some, if_false, hoff, hm.hdrAlloced,
      hnew, hm.start]
  · rw [hm.start]
    exact hm.payload rfl p hs

/-! ### Freeing -/

theorem freedIn_set (hk : k < rcvd.length) (hr : r.freed = true) (j : Nat) :
    freedIn (rcvd.set k r) j = if j = k then true else freedIn rcvd j := by
  by_cases hj : j = k
  · subst hj
    simp [freedIn, hk, hr]
  · simp [freedIn, List.getElem?_set_ne (Ne.symm hj), hj]

theorem free_msg (h : Ring chan.shared msgs rcvd T N H cs) (hr : rcvd[k]? = some r) (hf : r.freed = false) :
    Ring (channelFree chan r.data).shared msgs (rcvd.set k { r with freed := true }) T N H cs := by
  obtain ⟨a, p, ha, hsent, hdata, hsize, hpay⟩ := h.receipts k r hr
  have hnf : freedIn rcvd k = false := by simp [freedIn, hr, hf]
  have hkl := lt_of_getElem? hr
  obtain ⟨c, hc, hck⟩ := h.cover k (lt_of_getElem? ha) hnf
  obtain ⟨a', ha', hm, hn⟩ := (h.holds c hc).msg hck
  rw [ha] at ha'
  cases ha'
  have hfits := h.fits hc
  have hbound := hfits.bound
  have hlines := hfits.lines
  have hstart : r.data - sizeofMessage = c.off := by rw [hdata, hm.start, Nat.add_sub_cancel]
  have hmem : ∀ x, (channelFree chan r.data).shared x =
      if c.off ≤ x ∧ x < c.off + c.len ∧ (x - c.off) % cachelineSize = 4 then 0 else chan.shared x := by
    intro x
    simp only [channelFree, hstart, hm.hdrAlloced]
    refine freeLoop_eq hlines ?_
    simp only [ringFuel, sharedSize, cachelineSize] at *
    omega
  have hframe : ∀ x, x < c.off ∨ c.off + c.len ≤ x → (channelFree chan r.data).shared x = chan.shared x := by
    intro x hx
    rw [hmem, if_neg (by omega)]
  have hhdr : ∀ x, x < c.off + 4 → (channelFree chan r.data).shared x = chan.shared x := by
    intro x hx
    rw [hmem, if_neg (by simp only [cachelineSize]; omega)]
  have hmsg : HoldsMsg (channelFree chan r.data).shared c a true := by
    refine ⟨hm.start, hm.alloced, hm.room, hm.sent, ?_, ?_, by simp, by simp, fun _ i hi => ?_⟩
    · exact (Memory.get16_congr (hhdr _ (by omega)) (hhdr _ (by omega))).trans hm.hdrAlloced
    · exact (Memory.get16_congr (hhdr _ (by omega)) (hhdr _ (by omega))).trans hm.hdrSize
    · rw [hmem, if_pos]
      simp only [cachelineSize] at *
      omega
  have hfreed := freedIn_set (r := { r with freed := true }) hkl rfl
  refine ⟨h.layout, h.aligned, h.window, h.lower, h.upper, h.boundary, ?_, fun v => h.free_other hc hframe, ?_, h.mono, ?_⟩
  · intro d hd
    by_cases hdc : d = c
    · grind [Holds]
    · have hold := (h.holds d hd).congr (h.fits hd) (h.agree_other hc hframe hd hdc)
      cases hj : d.msg with
      | none => simpa only [Holds, hj] using hold
      | some j =>
        have hjk : j ≠ k := by
          rintro rfl
          exact hdc (h.msg_inj hd hc hj hck)
        simp only [Holds, hj, hfreed, hjk, if_false, List.length_set] at hold ⊢
        exact hold
  · intro j hj hjf
    rw [hfreed] at hjf
    split_ifs at hjf
    exact h.cover j hj hjf
  · intro j x hx
    by_cases hjk : j = k
    · grind
    · rw [List.getElem?_set_ne (Ne.symm hjk)] at hx
      exact h.receipts j x hx

end Ring
end Faux
