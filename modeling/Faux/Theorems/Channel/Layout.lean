import Faux.Channel.System

/-! Chunks on the ring: what the sender has put into the ring and not reclaimed, oldest first. A chunk has a position that only
    grows, and lies in the buffer at its position modulo `sharedSize`. Chunks follow each other without gaps from the
    reclaimed position `T` up to the head position `H`, and the window is never longer than the buffer. -/

namespace Faux

/-- A stretch of the ring: the `k`-th message (`msg = some k`) or a wrap sentinel. -/
structure Chunk where
  pos : Nat
  len : Nat
  msg : Option Nat

namespace Chunk

def off (c : Chunk) : Nat := c.pos % sharedSize

/-- A chunk is made of whole cache lines and does not cross the end of the buffer. -/
structure Fits (c : Chunk) : Prop where
  aligned : c.pos % cachelineSize = 0
  lines : c.len % cachelineSize = 0
  line : cachelineSize ≤ c.len
  bound : c.off + c.len ≤ sharedSize

end Chunk

def Layout (H : Nat) : Nat → List Chunk → Prop
  | T, [] => T = H
  | T, c :: cs => c.pos = T ∧ c.Fits ∧ Layout H (T + c.len) cs

namespace Layout
variable {T M H : Nat} {cs ds : List Chunk} {c d : Chunk}

theorem le (h : Layout H T cs) : T ≤ H := by
  induction cs generalizing T with
  | nil => exact Nat.le_of_eq h
  | cons c cs ih =>
    obtain ⟨-, -, h⟩ := h
    have := ih h
    omega

theorem append (h : Layout M T cs) (h' : Layout H M ds) : Layout H T (cs ++ ds) := by
  induction cs generalizing T with
  | nil =>
    subst h
    exact h'
  | cons c cs ih => exact ⟨h.1, h.2.1, ih h.2.2⟩

theorem of_append (h : Layout H T (cs ++ ds)) : ∃ M, Layout M T cs ∧ Layout H M ds := by
  induction cs generalizing T with
  | nil => exact ⟨T, rfl, h⟩
  | cons c cs ih =>
    obtain ⟨h1, h2, h3⟩ := h
    obtain ⟨M, h4, h5⟩ := ih h3
    exact ⟨M, ⟨h1, h2, h4⟩, h5⟩

theorem singleton (hc : c.Fits) : Layout (c.pos + c.len) c.pos [c] := ⟨rfl, hc, rfl⟩

theorem fits (h : Layout H T cs) (hc : c ∈ cs) : c.Fits := by
  induction cs generalizing T with
  | nil => cases hc
  | cons d cs ih =>
    rcases List.mem_cons.mp hc with rfl | hc
    · exact h.2.1
    · exact ih h.2.2 hc

theorem mem_le (h : Layout H T cs) (hc : c ∈ cs) : T ≤ c.pos ∧ c.pos + c.len ≤ H := by
  induction cs generalizing T with
  | nil => cases hc
  | cons d cs ih =>
    obtain ⟨h1, -, h3⟩ := h
    rcases List.mem_cons.mp hc with rfl | hc
    · have := h3.le
      omega
    · have := ih h3 hc
      omega

theorem ordered (h : Layout H T cs) (hc : c ∈ cs) (hd : d ∈ cs) :
    c = d ∨ c.pos + c.len ≤ d.pos ∨ d.pos + d.len ≤ c.pos := by
  induction cs generalizing T with
  | nil => cases hc
  | cons e cs ih =>
    obtain ⟨h1, -, h3⟩ := h
    rcases List.mem_cons.mp hc with rfl | hc' <;> rcases List.mem_cons.mp hd with rfl | hd'
    · exact Or.inl rfl
    · have := h3.mem_le hd'
      omega
    · have := h3.mem_le hc'
      omega
    · exact ih h3 hc' hd'

theorem eq_of_pos (h : Layout H T cs) (hc : c ∈ cs) (hd : d ∈ cs) (hp : c.pos = d.pos) : c = d := by
  have hl := (h.fits hc).line
  have hl' := (h.fits hd).line
  simp only [cachelineSize] at hl hl'
  rcases h.ordered hc hd with h | h | h
  · exact h
  · omega
  · omega

theorem disjoint (h : Layout H T cs) (hw : H ≤ T + sharedSize) (hc : c ∈ cs) (hd : d ∈ cs) (hne : c ≠ d) :
    c.off + c.len ≤ d.off ∨ d.off + d.len ≤ c.off := by
  have h1 := h.mem_le hc
  have h2 := h.mem_le hd
  have h3 := (h.fits hc).bound
  have h4 := (h.fits hd).bound
  have h5 := (h.ordered hc hd).resolve_left hne
  simp only [Chunk.off, sharedSize] at *
  omega

theorem disjoint_line (h : Layout H T cs) (hc : c ∈ cs) {v : Nat} (hv : v % cachelineSize = 0) (hH : H ≤ v)
    (hT : v < T + sharedSize) :
    v % sharedSize + cachelineSize ≤ c.off ∨ c.off + c.len ≤ v % sharedSize := by
  have h1 := h.mem_le hc
  have h2 := (h.fits hc).aligned
  have h3 := (h.fits hc).bound
  have h4 := (h.fits hc).lines
  simp only [Chunk.off, sharedSize, cachelineSize] at *
  omega

theorem split_lap (h : Layout H T cs) {v : Nat} (hv : v % sharedSize = 0) (hT : T ≤ v) (hH : v ≤ H) :
    ∃ pre post, cs = pre ++ post ∧ Layout v T pre ∧ Layout H v post := by
  induction cs generalizing T with
  | nil => grind [Layout]
  | cons c cs ih =>
    obtain ⟨h1, h2, h3⟩ := h
    by_cases hTv : T = v
    · exact ⟨[], c :: cs, rfl, hTv, hTv ▸ ⟨h1, h2, h3⟩⟩
    · have hle : T + c.len ≤ v := by
        have hb := h2.bound
        simp only [Chunk.off, sharedSize] at hb hv
        omega
      obtain ⟨pre, post, rfl, h4, h5⟩ := ih h3 hle
      exact ⟨c :: pre, post, rfl, ⟨h1, h2, h4⟩, h5⟩

theorem split_mem (h : Layout H T cs) (hc : c ∈ cs) :
    ∃ pre post, cs = pre ++ c :: post ∧ Layout c.pos T pre ∧ Layout H (c.pos + c.len) post := by
  obtain ⟨pre, post, rfl⟩ := List.append_of_mem hc
  obtain ⟨M, h1, h2, h3, h4⟩ := h.of_append
  exact ⟨pre, post, rfl, h2 ▸ h1, h2 ▸ h4⟩

theorem end_le (h : Layout H T cs) (hT : T ≤ M) (hp : ∀ c ∈ cs, c.pos + c.len ≤ M) : H ≤ M := by
  induction cs generalizing T with
  | nil => exact h ▸ hT
  | cons c cs ih =>
    obtain ⟨h1, -, h3⟩ := h
    have := hp c List.mem_cons_self
    exact ih h3 (by omega) fun d hd => hp d (List.mem_cons_of_mem _ hd)

theorem cover (h : Layout H T cs) {u : Nat} (hT : T ≤ u) (hH : u < H) : ∃ c ∈ cs, c.pos ≤ u ∧ u < c.pos + c.len := by
  induction cs generalizing T with
  | nil =>
    have : T = H := h
    omega
  | cons c cs ih =>
    obtain ⟨h1, -, h3⟩ := h
    by_cases hu : u < T + c.len
    · exact ⟨c, List.mem_cons_self, by omega, by omega⟩
    · grind

theorem length_le (h : Layout H T cs) : cachelineSize * cs.length ≤ H - T := by
  induction cs generalizing T with
  | nil => simp
  | cons c cs ih =>
    obtain ⟨-, h2, h3⟩ := h
    have := ih h3
    have := h3.le
    have := h2.line
    simp only [cachelineSize, List.length_cons] at *
    omega

end Layout
end Faux
