import Faux.Theorems.Channel.Allocate

/-! The sender's chain. Whatever the receiver does with the ready flags, headers lead from chunk to chunk up to the head. A full flag
    over messages that are not freed lets the sender write over them; the chain then starts at the new message. So garbage
    collection ends, and a message of one cache line always finds a place. -/

namespace Faux
open Lib

variable {m m' : Memory} {chan : HalfChannel} {T H size len : Nat} {cs : List Chunk} {c : Chunk}

/-- The chunks `cs` lie between the positions `T` and `H`, each with a header that leads to the next one. -/
structure Linked (m : Memory) (T H : Nat) (cs : List Chunk) : Prop where
  layout : Layout H T cs
  window : H ≤ T + sharedSize
  walkable : ∀ c ∈ cs, Walkable m c
  aligned : H % cachelineSize = 0

structure Chained (chan : HalfChannel) (T H : Nat) (cs : List Chunk) : Prop extends Linked chan.shared T H cs where
  head : chan.head = H % sharedSize
  tail : Scans chan.tail T H

namespace Linked

theorem off_aligned (h : Linked m T H cs) (mem : c ∈ cs) : c.off % cachelineSize = 0 := by
  have aligned := (h.layout.fits mem).aligned
  simp only [Chunk.off, sharedSize, cachelineSize] at aligned ⊢
  omega

theorem of_headers (h : Linked m T H cs) (same : ∀ c ∈ cs, ∀ i < 4, m' (c.off + i) = m (c.off + i)) :
    Linked m' T H cs := by
  refine ⟨h.layout, h.window, fun c mem => ?_, h.aligned⟩
  obtain ⟨alloced, sentinel⟩ := h.walkable c mem
  have alloced' : msgAlloced m' c.off = msgAlloced m c.off :=
    Memory.get16_congr (same c mem 2 (by decide)) (same c mem 3 (by decide))
  have size : msgSize m' c.off = msgSize m c.off :=
    Memory.get16_congr (same c mem 0 (by decide)) (same c mem 1 (by decide))
  exact ⟨alloced'.trans alloced, fun is => sentinel (size ▸ is)⟩

theorem of_head (h : Linked m T H cs) (lt : H < T + sharedSize)
    (same : ∀ x, x < H % sharedSize ∨ H % sharedSize + 5 ≤ x → m' x = m x) : Linked m' T H cs := by
  refine h.of_headers fun c mem i lt' => same _ ?_
  have apart := h.layout.disjoint_line mem h.aligned (Nat.le_refl H) lt
  have line := (h.layout.fits mem).line
  simp only [cachelineSize] at apart line
  omega

theorem push (h : Linked m T H cs) (at_head : c.pos = H) (fits : c.Fits) (walkable : Walkable m c)
    (window : H + c.len ≤ T + sharedSize) : Linked m T (H + c.len) (cs ++ [c]) where
  layout := h.layout.append (at_head ▸ Layout.singleton fits)
  window := window
  walkable := fun d mem => (List.mem_append.mp mem).elim (h.walkable d) fun mem =>
    List.mem_singleton.mp mem ▸ walkable
  aligned := by
    have aligned := h.aligned
    have lines := fits.lines
    simp only [cachelineSize] at *
    omega

theorem push_header (h : Linked m T H cs) (lines : len % cachelineSize = 0) (line : cachelineSize ≤ len)
    (fits : H % sharedSize + len ≤ sharedSize) (small : len < sharedSize) (window : H + len ≤ T + sharedSize) :
    Linked (writeHeader m (H % sharedSize) len) T (H + len) (cs ++ [⟨H, len, none⟩]) := by
  have lt : H < T + sharedSize := by
    simp only [cachelineSize] at line
    omega
  have kept : Linked (writeHeader m (H % sharedSize) len) T H cs := h.of_head lt fun x out => writeHeader_of_ne out
  refine kept.push (c := ⟨H, len, none⟩) rfl ⟨h.aligned, lines, line, fits⟩ ⟨msgAlloced_writeHeader small, ?_⟩ window
  intro is
  have zero : msgSize (writeHeader m (H % sharedSize) len) (H % sharedSize) = 0 := msgSize_writeHeader
  exact absurd (zero.symm.trans is) (by decide)

theorem push_sentinel (h : Linked m T H cs) (inner : 0 < H % sharedSize) (window : nextLap H ≤ T + sharedSize) :
    Linked (writeSentinel m (H % sharedSize)) T (nextLap H)
      (cs ++ [⟨H, sharedSize - H % sharedSize, none⟩]) := by
  have below : H % sharedSize < sharedSize := Nat.mod_lt _ (by decide)
  have aligned := h.aligned
  have lt : H < T + sharedSize := by
    simp only [nextLap] at window
    omega
  have kept : Linked (writeSentinel m (H % sharedSize)) T H cs := h.of_head lt fun x out => writeSentinel_of_ne out
  have fits : Chunk.Fits ⟨H, sharedSize - H % sharedSize, none⟩ := by
    refine ⟨aligned, ?_, ?_, ?_⟩ <;> simp only [Chunk.off, sharedSize, cachelineSize] at * <;> omega
  refine kept.push (c := ⟨H, sharedSize - H % sharedSize, none⟩) rfl fits
    ⟨msgAlloced_writeSentinel inner, fun _ => ?_⟩ window
  simp only [Chunk.off]
  omega

theorem scans {tail : Nat} (h : Linked m T H cs) (tailIs : TailIs tail T H) :
    ∃ M post, Linked m M H post ∧ Scans tail M H ∧ ∀ c ∈ cs, c.pos + c.len = H → c ∈ post := by
  rcases tailIs with ⟨tail, lt⟩ | ⟨full, lt, lap⟩
  · exact ⟨T, cs, h, .inl ⟨tail, lt⟩, fun c mem _ => mem⟩
  · have window := h.window
    let v := H - 1 - (H - 1) % sharedSize
    have start : v % sharedSize = 0 ∧ T ≤ v ∧ v < H ∧ H ≤ v + sharedSize := by
      simp only [v, sharedSize] at *
      omega
    obtain ⟨pre, post, rfl, before, after⟩ := h.layout.split_lap start.1 start.2.1 (Nat.le_of_lt start.2.2.1)
    refine ⟨v, post, ⟨after, start.2.2.2, fun c mem => h.walkable c (List.mem_append_right _ mem), h.aligned⟩,
      .inr ⟨full, start.1, start.2.2⟩, fun c mem last => ?_⟩
    refine (List.mem_append.mp mem).resolve_left fun mem => ?_
    have := before.mem_le mem
    omega

end Linked

def Lent (chan : HalfChannel) (data size : Nat) : Prop :=
  ∃ T H cs, Chained chan T H cs ∧ ∃ c ∈ cs, data = c.off + sizeofMessage ∧ size + sizeofMessage ≤ c.len

def Chains (chan : HalfChannel) : Prop := ∃ T H cs, Chained chan T H cs

theorem Lent.chains {data : Nat} : Lent chan data size → Chains chan
  | ⟨T, H, cs, chained, _⟩ => ⟨T, H, cs, chained⟩

theorem chains_setup (m : Memory) : Chains (channelSetupOwned m) :=
  ⟨0, 0, [], ⟨rfl, Nat.zero_le _, fun _ mem => absurd mem List.not_mem_nil, rfl⟩, rfl, .inl ⟨rfl, by decide⟩⟩

theorem Chains.receiver (h : Chains chan) (next : Nat) (same : ∀ x, x % cachelineSize ≠ 4 → m x = chan.shared x) :
    Chains { chan with next, shared := m } := by
  obtain ⟨T, H, cs, chained⟩ := h
  refine ⟨T, H, cs, chained.toLinked.of_headers fun c mem i lt => same _ ?_, chained.head, chained.tail⟩
  have aligned := chained.off_aligned mem
  simp only [cachelineSize] at aligned ⊢
  omega

namespace Chained

theorem gc_walks (h : Chained chan T H cs) :
    ∃ t pre post M, channelGc chan = some { chan with tail := t } ∧ Walked chan.shared H T chan.tail cs t pre post M ∧
      Chained { chan with tail := t } M H post := by
  obtain ⟨t, pre, post, M, ran, walked, ends⟩ := h.tail.gc h.head h.layout h.window h.walkable h.aligned
  have window := h.window
  have le := walked.reclaimed.le
  have linked : Linked chan.shared M H post :=
    ⟨walked.rest, by omega, fun c mem => h.walkable c (walked.eq ▸ List.mem_append_right _ mem), h.aligned⟩
  refine ⟨t, pre, post, M, ran, walked, linked, h.head, ?_⟩
  rcases ends with ⟨rfl, rfl, -⟩ | reclaims
  · exact h.tail
  · exact .inl reclaims

theorem gc (h : Chained chan T H cs) :
    ∃ t M post, channelGc chan = some { chan with tail := t } ∧ Chained { chan with tail := t } M H post := by
  obtain ⟨t, pre, post, M, ran, -, chained⟩ := h.gc_walks
  exact ⟨t, M, post, ran, chained⟩

theorem tail_eq (h : Chained chan T H cs) (flag : chan.tail ≠ sharedSize) : chan.tail = tailOf T :=
  h.tail.elim And.left fun full => absurd full.1 flag

/-- Garbage collection takes exactly the chunks before the first one with its flag set, and the tail is then
    before that chunk, or before the head when there is none. -/
theorem gc_reclaims_freed (h : Chained chan T H cs) (flag : chan.tail ≠ sharedSize) :
    ∃ pre post M, channelGc chan = some { chan with tail := tailOf M } ∧ cs = pre ++ post ∧ Layout M T pre ∧ M ≤ H ∧
      (∀ c ∈ pre, ¬c.Busy chan.shared) ∧ (∀ c, post.head? = some c → c.Busy chan.shared) ∧
      Chained { chan with tail := tailOf M } M H post ∧ tailOf M ≠ sharedSize := by
  obtain ⟨t, pre, post, M, ran, walked, chained⟩ := h.gc_walks
  have t_is : t = tailOf M := by
    rw [walked.last]
    split_ifs with none
    · have same : T = M := by
        have reclaimed := walked.reclaimed
        rwa [none] at reclaimed
      rw [h.tail_eq flag, same]
    · rfl
  have lt : tailOf M < sharedSize := Nat.mod_lt _ (by decide)
  rw [t_is] at ran chained
  exact ⟨pre, post, M, ran, walked.eq, walked.reclaimed, walked.rest.le, walked.done, walked.stop, chained, Nat.ne_of_lt lt⟩

/-- Two messages of a cache line across the end of the buffer, of which the first one is freed. -/
theorem gc_reclaims_first :
    ∃ pre post M, channelGc ⟨64, 65471, 0, fun x => if x % 64 = 2 then 64 else if x = 4 then 1 else 0⟩ =
        some ⟨64, tailOf M, 0, fun x => if x % 64 = 2 then 64 else if x = 4 then 1 else 0⟩ ∧
      [⟨65472, 64, some 0⟩, ⟨65536, 64, some 1⟩] = pre ++ post ∧ Layout M 65472 pre := by
  let m : Memory := fun x => if x % 64 = 2 then 64 else if x = 4 then 1 else 0
  have fits : ∀ c ∈ [(⟨65472, 64, some 0⟩ : Chunk), ⟨65536, 64, some 1⟩], c.Fits ∧ Walkable m c := by
    intro c mem
    simp only [List.mem_cons, List.not_mem_nil, or_false] at mem
    rcases mem with rfl | rfl <;> exact ⟨⟨by decide, by decide, by decide, by decide⟩, by decide, by decide⟩
  have layout : Layout 65600 65472 [⟨65472, 64, some 0⟩, ⟨65536, 64, some 1⟩] :=
    ⟨rfl, (fits _ (by simp)).1, rfl, (fits _ (by simp)).1, rfl⟩
  have chained : Chained ⟨64, 65471, 0, m⟩ 65472 65600 [⟨65472, 64, some 0⟩, ⟨65536, 64, some 1⟩] :=
    ⟨⟨layout, by decide, fun c mem => (fits c mem).2, by decide⟩, by decide, .inl ⟨by decide, by decide⟩⟩
  obtain ⟨pre, post, M, ran, split, reclaimed, -⟩ := gc_reclaims_freed chained (by decide)
  exact ⟨pre, post, M, ran, split, reclaimed⟩

theorem open_or (h : Chained chan T H cs) :
    Open chan.tail T H ∨ (chan.tail = sharedSize ∧ H % sharedSize = 0) := by
  have tail := h.tail
  simp only [Open, Scans, sharedSize] at tail ⊢
  omega

theorem allocateAt (h : Chained chan T H cs) {start : Nat} {wrapped : Bool} (lines : len % cachelineSize = 0)
    (line : cachelineSize ≤ len) (small : len < sharedSize) (room : size + sizeofMessage ≤ len)
    (place : placement chan.head chan.tail len = some (start, wrapped)) :
    Lent (allocateAt chan len start wrapped) (start + sizeofMessage) size := by
  have head := h.head
  have tail := h.open_or
  have T_aligned := h.layout.start_aligned h.aligned
  rw [head] at place
  -- The chain that the chunk of the new message ends, and the indices that go with it.
  have lend : ∀ {T' H' cs'} {m' : Memory}, H' % sharedSize = start →
      Linked m' T' (H' + len) (cs' ++ [⟨H', len, none⟩]) →
      TailIs (if start + len = chan.tail + 1 then sharedSize else chan.tail) T' (H' + len) →
      start + len ≤ sharedSize → m' = (Faux.allocateAt chan len start wrapped).shared →
      Lent (Faux.allocateAt chan len start wrapped) (start + sizeofMessage) size := by
    rintro T' H' cs' m' off linked tailIs fits rfl
    obtain ⟨M, post, linked', scans, last⟩ := linked.scans tailIs
    refine ⟨M, H' + len, post, ⟨linked', ?_, scans⟩, ⟨H', len, none⟩, last _ (by simp) rfl, ?_, room⟩
    · simp only [Faux.allocateAt]
      split_ifs <;> simp only [sharedSize] at * <;> omega
    · simp only [Chunk.off, off]
  rcases tail with ho | ⟨full, zero⟩
  · cases wrapped with
    | false =>
      obtain ⟨rfl, fits, window, tailIs⟩ := ho.here T_aligned h.aligned h.layout.le lines line place
      refine lend rfl (h.push_header lines line fits small window) tailIs fits ?_
      simp [Faux.allocateAt]
    | true =>
      obtain ⟨rfl, inner, window, tailIs⟩ := ho.wrap T_aligned h.aligned h.layout.le lines line place
      have sentinel := h.push_sentinel inner (by omega)
      have linked := sentinel.push_header lines line (by rw [nextLap_mod]; omega) small window
      rw [nextLap_mod] at linked
      refine lend nextLap_mod linked (by simpa using tailIs) (by omega) ?_
      simp [Faux.allocateAt, head]
  · -- Nothing could be reclaimed: the message goes over the oldest ones.
    rw [full, zero] at place
    have here : start = 0 ∧ wrapped = false := by grind [placement]
    obtain ⟨rfl, rfl⟩ := here
    have none_left : Linked chan.shared H H [] :=
      ⟨rfl, by omega, fun _ mem => absurd mem List.not_mem_nil, h.aligned⟩
    have linked := none_left.push_header lines line (by omega) small (by omega)
    rw [zero] at linked
    refine lend zero linked (.inr ⟨?_, ?_, .inr zero⟩) (by omega) ?_
    · rw [full]
      split_ifs <;> rfl
    · simp only [cachelineSize] at line
      omega
    · simp [Faux.allocateAt]

theorem fail (h : Chained chan T H cs) (lt : chan.tail < chan.head) :
    Chains { chan with head := 0, shared := writeSentinel chan.shared chan.head } := by
  have head := h.head
  rw [head] at lt ⊢
  have below : H % sharedSize < sharedSize := Nat.mod_lt _ (by decide)
  have ho := h.open_or.resolve_right (by omega)
  obtain ⟨inner, window, tailIs⟩ := ho.fail h.layout.le lt
  obtain ⟨M, post, linked, scans, -⟩ := (h.push_sentinel inner window).scans tailIs
  exact ⟨M, nextLap H, post, linked, nextLap_mod.symm, scans⟩

end Chained

def Allocated (res : HalfChannel × Option Nat) (size : Nat) : Prop :=
  match res with
  | (chan, some data) => Lent chan data size
  | (chan, none) => Chains chan

namespace Chained

theorem allocateFrom (h : Chained chan T H cs) (h1 : 1 ≤ size) (h2 : size ≤ largestPayload) :
    ∃ res, allocateFrom chan (channelMessageSize size) = some res ∧ Allocated res size := by
  obtain ⟨lines, line, room, small⟩ := channelMessageSize_spec h1 h2
  simp only [Faux.allocateFrom]
  split
  · next start wrapped place => exact ⟨_, rfl, h.allocateAt lines line small room place⟩
  · obtain ⟨t, M, post, collected, chained⟩ := h.gc
    simp only [collected, Option.bind_eq_bind, Option.bind_some]
    cases place : placement chan.head t (channelMessageSize size) with
    | some at_ => exact ⟨_, rfl, chained.allocateAt lines line small room place⟩
    | none =>
      by_cases lt : t < chan.head
      · simp only [gt_iff_lt, lt, if_true]
        exact ⟨_, rfl, chained.fail lt⟩
      · simp only [gt_iff_lt, lt, if_false]
        exact ⟨_, rfl, M, H, post, chained⟩

end Chained

theorem Chains.allocate (h : Chains chan) (h1 : 1 ≤ size) (h2 : size ≤ largestPayload) :
    ∃ res, channelAllocate chan size = some res ∧ Allocated res size := by
  obtain ⟨T, H, cs, chained⟩ := h
  have spec := channelMessageSize_spec h1 h2
  have nonzero : channelMessageSize size ≠ 0 := by
    simp only [cachelineSize] at spec
    omega
  simp only [channelAllocate, nonzero, if_false]
  by_cases full : chan.tail = sharedSize
  · obtain ⟨t, M, post, collected, chained'⟩ := chained.gc
    simp only [full, if_true, collected, Option.bind_eq_bind, Option.bind_some]
    exact chained'.allocateFrom h1 h2
  · simp only [full, if_false, Option.bind_eq_bind, Option.bind_some]
    exact chained.allocateFrom h1 h2

theorem Chained.line (h : Chained chan T H cs) : (placement chan.head chan.tail cachelineSize).isSome := by
  have aligned := h.aligned
  have T_aligned := h.layout.start_aligned h.aligned
  have tail := h.tail
  have place : (chan.head < chan.tail ∧ cachelineSize ≤ chan.tail + 1 - chan.head) ∨
      (chan.head > chan.tail ∧ cachelineSize ≤ sharedSize - chan.head) := by
    rw [h.head]
    simp only [Scans, tailOf, sharedSize, cachelineSize] at *
    omega
  simp [placement, place]

theorem Chains.allocate_line (h : Chains chan) (h1 : 1 ≤ size) (h2 : size + sizeofMessage ≤ cachelineSize) :
    ∃ out data, channelAllocate chan size = some (out, some data) ∧ Lent out data size := by
  have whole : channelMessageSize size = cachelineSize := by
    rw [channelMessageSize_eq (by simp only [largestPayload, sizeofMessage, cachelineSize, sharedSize] at *; omega)]
    simp only [sizeofMessage, cachelineSize] at *
    omega
  have finds : ∀ {chan T H cs}, Chained chan T H cs →
      ∃ out data, allocateFrom chan cachelineSize = some (out, some data) ∧ Lent out data size := by
    intro chan T H cs chained
    obtain ⟨⟨start, wrapped⟩, place⟩ := Option.isSome_iff_exists.mp chained.line
    refine ⟨_, _, ?_, chained.allocateAt (by decide) (Nat.le_refl _) (by decide) h2 place⟩
    simp only [allocateFrom, place]
  obtain ⟨T, H, cs, chained⟩ := h
  simp only [channelAllocate, whole]
  rw [if_neg (by decide)]
  by_cases full : chan.tail = sharedSize
  · obtain ⟨t, M, post, collected, chained'⟩ := chained.gc
    simp only [full, if_true, collected, Option.bind_eq_bind, Option.bind_some]
    exact finds chained'
  · grind

namespace Lent
variable {data n : Nat} {p : List UInt8}

theorem write (h : Lent chan data size) (fits : p.length ≤ size) :
    Lent { chan with shared := chan.shared.write data p } data size := by
  obtain ⟨T, H, cs, chained, c, mem, rfl, room⟩ := h
  have linked : Linked (chan.shared.write (c.off + sizeofMessage) p) T H cs := by
    refine chained.toLinked.of_headers fun d mem' i lt => ?_
    by_cases same : d = c
    · exact Memory.write_of_lt (by rw [same]; simp only [sizeofMessage]; omega)
    · have apart := chained.layout.disjoint chained.window mem' mem same
      have line := (chained.layout.fits mem').line
      simp only [sizeofMessage, cachelineSize] at *
      rcases apart with before | after
      · exact Memory.write_of_lt (by omega)
      · exact Memory.write_of_ge (by omega)
  exact ⟨T, H, cs, ⟨linked, chained.head, chained.tail⟩, c, mem, rfl, room⟩

theorem setSize (h : Lent chan data size) (plain : n % 65536 ≠ sentinelSize) :
    Chains { chan with shared := setSize chan.shared (data - sizeofMessage) n } := by
  obtain ⟨T, H, cs, chained, c, mem, rfl, room⟩ := h
  rw [Nat.add_sub_cancel]
  refine ⟨T, H, cs, ⟨chained.layout, chained.window, fun d mem' => ?_, chained.aligned⟩, chained.head, chained.tail⟩
  obtain ⟨alloced, sentinel⟩ := chained.walkable d mem'
  by_cases same : d = c
  · subst same
    have kept : msgAlloced (Faux.setSize chan.shared d.off n) d.off = msgAlloced chan.shared d.off :=
      Memory.get16_congr (Memory.set16_of_ne (by omega) (by omega)) (Memory.set16_of_ne (by omega) (by omega))
    have set : msgSize (Faux.setSize chan.shared d.off n) d.off = n % 65536 := Memory.get16_set16
    exact ⟨kept.trans alloced, fun is => absurd (set.symm.trans is) plain⟩
  · have apart := chained.layout.disjoint chained.window mem' mem same
    have line := (chained.layout.fits mem).line
    have line' := (chained.layout.fits mem').line
    have agree : Agree chan.shared (Faux.setSize chan.shared c.off n) d.off d.len := fun x _ _ => by
      simp only [cachelineSize] at *
      exact Memory.set16_of_ne (by omega) (by omega)
    exact ⟨(agree.msgAlloced line').trans alloced, fun is => sentinel (agree.msgSize line' ▸ is)⟩

end Lent
end Faux
