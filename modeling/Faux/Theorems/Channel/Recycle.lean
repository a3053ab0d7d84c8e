import Faux.Channel.Recycle
import Faux.Theorems.Channel.Fifo

/-! # Isolation of connections

While the owner closes last and a buffer comes back drained, at most one connection of a buffer is open, and its half channels are
what `ChannelSys` describes. Else a new connection receives what the last one has left. -/

namespace Faux
open Function Lib

def ChannelLog.Fifo (log : ChannelLog) : Prop := ∀ (n : Nat) (r : Receipt), log.rcvd[n]? = some r →
  ∃ m p, log.msgs[n]? = some m ∧ m.sent = some p ∧ r.size = p.length ∧ r.payload = p

namespace Recycler
variable {s t : Recycler} {c c' : Connection} {k : Nat} {side : Side}

theorem fifo_of_inv {sys : ChannelSys} (inv : sys.Inv) : ChannelLog.Fifo { msgs := sys.msgs, rcvd := sys.rcvd } := by
  intro n r at_n
  obtain ⟨m, p, at_m, sent, -, size, payload⟩ := inv.correct.fifo n r at_n
  exact ⟨m, p, at_m, sent, size, payload⟩

structure Inv (s : Recycler) : Prop where
  nodup : s.localChanPool.Nodup
  pooled : ∀ c ∈ s.connections, c.buffer ∈ s.localChanPool → ∀ side, c.isOpen side = false
  recycled : ∀ (i j : Nat) (c c' : Connection), i < j → s.connections[i]? = some c → s.connections[j]? = some c' →
    c.buffer = c'.buffer → ∀ side, c.isOpen side = false
  ownerLast : ∀ c ∈ s.connections, c.isOpen .owner = false → c.isOpen .peer = false
  live : ∀ c ∈ s.connections, c.isOpen .owner = true → ∀ d, (s.sys c d).Inv
  fifo : ∀ c ∈ s.connections, ∀ d, (c.log d).Fifo

theorem sys_eq {d : Direction} (same : (t.buffers c.buffer).half d = (s.buffers c.buffer).half d) :
    t.sys c d = s.sys c d := by
  rw [sys, sys, same]

theorem inv_of_start (start : s.Start) : s.Inv := by
  obtain ⟨-, nodup, none⟩ := start
  refine ⟨nodup, ?_, ?_, ?_, ?_, ?_⟩
  all_goals rw [none]
  · exact fun _ mem => absurd mem List.not_mem_nil
  · exact fun i j c c' _ at_i => by cases at_i
  · exact fun _ mem => absurd mem List.not_mem_nil
  · exact fun _ mem => absurd mem List.not_mem_nil
  · exact fun _ mem => absurd mem List.not_mem_nil

theorem Inv.owner_open (inv : s.Inv) (mem : c ∈ s.connections)
    (isOpen : c.isOpen side = true) : c.isOpen .owner = true := by
  by_contra closed
  have peer := inv.ownerLast c mem (Bool.not_eq_true _ ▸ closed)
  cases side
  · exact closed isOpen
  · rw [peer] at isOpen
    cases isOpen

theorem Inv.other_closed (inv : s.Inv) {j : Nat} (at_k : s.connections[k]? = some c)
    (at_j : s.connections[j]? = some c') (ne : j ≠ k) (same : c'.buffer = c.buffer)
    (isOpen : c.isOpen side = true) (side' : Side) : c'.isOpen side' = false := by
  rcases Nat.lt_or_gt_of_ne ne with lt | gt
  · exact inv.recycled j k c' c lt at_j at_k same side'
  · have closed := inv.recycled k j c c' gt at_k at_j same.symm side
    rw [closed] at isOpen
    cases isOpen

theorem inv_connect (inv : s.Inv) (guard : s.Guard .connect) (stepped : s.step .connect = some t) : t.Inv := by
  simp only [step, Option.bind_eq_bind] at stepped
  obtain ⟨b, free, is⟩ := Option.bind_eq_some_iff.mp stepped
  obtain rfl := Option.some.inj is
  have b_mem : b ∈ s.localChanPool := List.mem_of_find?_eq_some free
  have old : ∀ c ∈ s.connections, c.buffer = b → ∀ side, c.isOpen side = false := fun c mem same =>
    inv.pooled c mem (same ▸ b_mem)
  have sys_new : ∀ d, ChannelSys.Inv { chan := channelSetupOwned ((s.buffers b).half d).shared, msgs := [], rcvd := [] } :=
    fun d => ChannelSys.inv_of_init ⟨_, guard b free d, rfl⟩
  refine ⟨inv.nodup.erase b, ?_, ?_, ?_, ?_, ?_⟩
  · intro c mem pooled side
    rcases List.mem_append.mp mem with mem | mem
    · exact inv.pooled c mem (List.mem_of_mem_erase pooled) side
    · rw [List.mem_singleton.mp mem] at pooled
      exact absurd pooled (List.Nodup.not_mem_erase inv.nodup)
  · intro i j c c' lt at_i at_j same side
    have i_mem : c ∈ s.connections := by grind
    by_cases j_lt : j < s.connections.length
    · rw [List.getElem?_append_left j_lt] at at_j
      rw [List.getElem?_append_left (Nat.lt_trans lt j_lt)] at at_i
      exact inv.recycled i j c c' lt at_i at_j same side
    · grind
  · intro c mem closed
    rcases List.mem_append.mp mem with mem | mem
    · exact inv.ownerLast c mem closed
    · rw [List.mem_singleton.mp mem] at closed
      cases closed
  · intro c mem isOpen d
    rcases List.mem_append.mp mem with mem | mem
    · have ne : c.buffer ≠ b := fun same => by
        rw [old c mem same] at isOpen
        cases isOpen
      rw [sys_eq (s := s) (congrArg (Buffer.half · d) (update_of_ne ne ..))]
      exact inv.live c mem isOpen d
    · obtain rfl := List.mem_singleton.mp mem
      have set_up : (update s.buffers b (s.buffers b).setupOwned b).half d =
          channelSetupOwned ((s.buffers b).half d).shared := by
        rw [update_self]
        rfl
      simp only [sys, set_up]
      exact sys_new d
  · intro c mem d
    rcases List.mem_append.mp mem with mem | mem
    · exact inv.fifo c mem d
    · rw [List.mem_singleton.mp mem]
      exact fun n r at_n => by cases at_n

theorem mem_set_cases {l : List Connection} {x : Connection} (at_k : l[k]? = some c)
    (mem : x ∈ l.set k c') : x = c' ∨ ∃ j, j ≠ k ∧ l[j]? = some x := by
  obtain ⟨j, at_j⟩ := List.mem_iff_getElem?.mp mem
  by_cases same : j = k
  · grind
  · grind

theorem getElem?_set_cases {l : List Connection} {j : Nat} {x : Connection} (at_k : l[k]? = some c)
    (at_j : (l.set k c')[j]? = some x) : ∃ y, l[j]? = some y ∧ (j = k → y = c ∧ x = c') ∧ (j ≠ k → x = y) := by
  by_cases same : j = k
  · grind
  · grind

theorem Inv.recycled_set (inv : s.Inv) (at_k : s.connections[k]? = some c)
    (buffer : c'.buffer = c.buffer) (closes : ∀ side, c.isOpen side = false → c'.isOpen side = false) :
    ∀ (i j : Nat) (x y : Connection), i < j → (s.connections.set k c')[i]? = some x →
      (s.connections.set k c')[j]? = some y → x.buffer = y.buffer → ∀ side, x.isOpen side = false := by
  intro i j x y lt at_i at_j same side
  obtain ⟨x', at_i', x_k, x_ne⟩ := getElem?_set_cases at_k at_i
  obtain ⟨y', at_j', y_k, y_ne⟩ := getElem?_set_cases at_k at_j
  have x_buffer : x.buffer = x'.buffer := by grind
  have y_buffer : y.buffer = y'.buffer := by grind
  have closed := inv.recycled i j x' y' lt at_i' at_j' (x_buffer ▸ y_buffer ▸ same) side
  by_cases is : i = k
  · rw [(x_k is).2]
    exact closes side ((x_k is).1 ▸ closed)
  · rwa [x_ne is]

theorem inv_use {d : Direction} {a : ChannelAct} (inv : s.Inv) (guard : s.Guard (.use k d a))
    (stepped : s.step (.use k d a) = some t) : t.Inv := by
  simp only [step, Option.bind_eq_bind] at stepped
  obtain ⟨c, at_k, next⟩ := Option.bind_eq_some_iff.mp stepped
  split_ifs at next with isOpen
  obtain ⟨u, used, is⟩ := Option.bind_eq_some_iff.mp next
  obtain rfl := Option.some.inj is
  have c_mem := List.mem_of_getElem? at_k
  have owner := inv.owner_open c_mem isOpen
  have kept : u.Inv := ChannelSys.inv_step _ _ a (inv.live c c_mem owner d) (guard c at_k) used
  refine ⟨inv.nodup, ?_, inv.recycled_set at_k rfl fun _ closed => closed, ?_, ?_, ?_⟩
  · intro x mem pooled
    rcases mem_set_cases at_k mem with rfl | ⟨j, -, at_j⟩
    · exact inv.pooled c c_mem pooled
    · exact inv.pooled x (List.mem_of_getElem? at_j) pooled
  · intro x mem
    rcases mem_set_cases at_k mem with rfl | ⟨j, -, at_j⟩
    · exact inv.ownerLast c c_mem
    · exact inv.ownerLast x (List.mem_of_getElem? at_j)
  · intro x mem x_open d'
    rcases mem_set_cases at_k mem with rfl | ⟨j, ne, at_j⟩
    · show ChannelSys.Inv _
      by_cases same : d' = d
      · subst same
        simpa [sys, Buffer.setHalf] using kept
      · simpa [sys, Buffer.setHalf, same] using inv.live c c_mem owner d'
    · have other : x.buffer ≠ c.buffer := fun same => by
        rw [inv.other_closed at_k at_j ne same isOpen] at x_open
        cases x_open
      rw [sys_eq (s := s) (congrArg (Buffer.half · d') (update_of_ne other ..))]
      exact inv.live x (List.mem_of_getElem? at_j) x_open d'
  · intro x mem d'
    rcases mem_set_cases at_k mem with rfl | ⟨j, -, at_j⟩
    · exact (Function.forall_update_iff c.log fun _ log => log.Fifo).mpr ⟨fifo_of_inv kept, fun d' _ => inv.fifo c c_mem d'⟩ d'
    · exact inv.fifo x (List.mem_of_getElem? at_j) d'

theorem inv_close (inv : s.Inv) (guard : s.Guard (.close k side))
    (stepped : s.step (.close k side) = some t) : t.Inv := by
  simp only [step, Option.bind_eq_bind] at stepped
  obtain ⟨c, at_k, next⟩ := Option.bind_eq_some_iff.mp stepped
  split_ifs at next with isOpen
  obtain rfl := Option.some.inj next
  have c_mem := List.mem_of_getElem? at_k
  have owner := inv.owner_open c_mem isOpen
  have closes : ∀ side', c.isOpen side' = false → update c.isOpen side false side' = false := by grind
  have now : update c.isOpen side false side = false := update_self ..
  have connections : (s.channelClose c.buffer side).connections = s.connections := by cases side <;> rfl
  -- only the flag of the buffer changes
  have halves : ∀ b d, ((s.channelClose c.buffer side).buffers b).half d = (s.buffers b).half d := by
    intro b d
    cases side <;> by_cases same : b = c.buffer <;> simp [channelClose, Buffer.setClosed, same]
  rw [connections]
  have fifo : ∀ x ∈ s.connections.set k { c with isOpen := update c.isOpen side false }, ∀ d, (x.log d).Fifo := by
    intro x mem d
    rcases mem_set_cases at_k mem with rfl | ⟨j, -, at_j⟩
    · exact inv.fifo c c_mem d
    · exact inv.fifo x (List.mem_of_getElem? at_j) d
  have live : ∀ x ∈ s.connections.set k { c with isOpen := update c.isOpen side false },
      x.isOpen .owner = true → ∀ d, ((s.channelClose c.buffer side).sys x d).Inv := by
    intro x mem x_open d
    rw [sys_eq (halves x.buffer d)]
    rcases mem_set_cases at_k mem with rfl | ⟨j, -, at_j⟩
    · exact inv.live c c_mem owner d
    · exact inv.live x (List.mem_of_getElem? at_j) x_open d
  refine ⟨?_, ?_, inv.recycled_set at_k rfl closes, ?_, live, fifo⟩
  · cases side with
    | owner =>
      refine List.nodup_cons.mpr ⟨fun pooled => ?_, inv.nodup⟩
      rw [inv.pooled c c_mem pooled] at isOpen
      cases isOpen
    | peer => exact inv.nodup
  · intro x mem pooled side'
    rcases mem_set_cases at_k mem with rfl | ⟨j, ne, at_j⟩
    · cases side with
      | owner =>
        cases side' with
        | owner => exact now
        | peer => exact closes .peer (guard c at_k)
      | peer => exact closes side' (inv.pooled c c_mem pooled side')
    · have x_mem := List.mem_of_getElem? at_j
      cases side with
      | owner =>
        rcases List.mem_cons.mp pooled with same | pooled
        · exact inv.other_closed at_k at_j ne same isOpen side'
        · exact inv.pooled x x_mem pooled side'
      | peer => exact inv.pooled x x_mem pooled side'
  · intro x mem closed
    rcases mem_set_cases at_k mem with rfl | ⟨j, -, at_j⟩
    · cases side with
      | owner => exact closes .peer (guard c at_k)
      | peer => exact now
    · exact inv.ownerLast x (List.mem_of_getElem? at_j) closed

/-- In every history in which the owner of a buffer closes after its peer, buffers come back drained, and the
    half channels are not misled by their full flag, connections over recycled buffers are isolated. -/
theorem isolated_of_guarded (reached : Reach Start Guard step s) : s.Isolated := by
  have inv : s.Inv := reached.invariant (fun _ => inv_of_start) fun s t a inv guard stepped => by
    cases a with
    | connect => exact inv_connect inv guard stepped
    | use k d a => exact inv_use inv guard stepped
    | close k side => exact inv_close inv guard stepped
  exact ⟨inv.recycled, inv.fifo⟩

def oneBuffer : Recycler where
  buffers := fun _ =>
    { header := fun _ => 0, half := fun _ => { head := 0, tail := 0, next := 0, shared := fun _ => 0 } }
  localChanPool := [0]
  connections := []

theorem start_oneBuffer : oneBuffer.Start := ⟨fun _ => rfl, by simp [oneBuffer], rfl⟩

def checkGuard (s : Recycler) : RecyclerAct → Bool
  | .connect => s.freeBuffer.all fun b => [Direction.toOwner, .toPeer].all fun d =>
      (List.range (sharedSize / cachelineSize)).all fun i => ((s.buffers b).half d).shared (cachelineSize * i + 4) == 0
  | .use k d _ => s.connections[k]?.all fun c => (s.sys c d).chan.tail != sharedSize
  | .close k .owner => s.connections[k]?.all fun c => !c.isOpen .peer
  | .close _ .peer => true

theorem guard_of_check (s : Recycler) (a : RecyclerAct) (checked : s.checkGuard a = true) : s.Guard a := by
  cases a with
  | connect =>
    intro b free d i lt
    simp only [checkGuard, free, Option.all_some, List.all_eq_true] at checked
    have := checked d (by cases d <;> simp) i (List.mem_range.mpr lt)
    exact eq_of_beq this
  | use k d a =>
    intro c at_k
    simp only [checkGuard, at_k, Option.all_some, bne_iff_ne] at checked
    cases a with
    | allocate => exact fun full => absurd full checked
    | poll => exact fun full => absurd full checked
    | receive => exact fun full => absurd full checked
    | send => trivial
    | free => trivial
  | close k side =>
    cases side with
    | owner =>
      intro c at_k
      simpa [checkGuard, at_k] using checked
    | peer => trivial

structure View where
  owner : Bool
  peer : Bool
  allocated : Nat × Nat
  received : List (List UInt8) × List (List UInt8)
deriving DecidableEq

def view (s : Recycler) : List View := s.connections.map fun c =>
  { owner := c.isOpen .owner
    peer := c.isOpen .peer
    allocated := ((c.log .toOwner).msgs.length, (c.log .toPeer).msgs.length)
    received := ((c.log .toOwner).rcvd.map (·.payload), (c.log .toPeer).rcvd.map (·.payload)) }

def reuse : List RecyclerAct :=
  [.connect, .use 0 .toOwner (.allocate 2), .use 0 .toOwner (.send 0 [1, 2]), .use 0 .toOwner .receive,
    .use 0 .toOwner (.free 0), .close 0 .peer, .close 0 .owner, .connect]

theorem isolated_reuse : ∃ s, run step oneBuffer reuse = some s ∧
    s.view = [⟨false, false, (1, 0), ([[1, 2]], [])⟩, ⟨true, true, (0, 0), ([], [])⟩] ∧ s.Isolated := by
  have seen : (run step oneBuffer reuse).map view =
      some [⟨false, false, (1, 0), ([[1, 2]], [])⟩, ⟨true, true, (0, 0), ([], [])⟩] := by decide +kernel
  obtain ⟨s, ran, is⟩ := Option.map_eq_some_iff.mp seen
  have guarded : Guarded Guard step oneBuffer reuse := guarded_of_check guard_of_check _ (by decide +kernel)
  exact ⟨s, ran, is, isolated_of_guarded ((Reach.init start_oneBuffer).of_guarded guarded ran)⟩

theorem not_isolated {x y : View} (seen : s.view = [x, y])
    (foreign : y.allocated.1 < y.received.1.length ∨ y.allocated.2 < y.received.2.length) : ¬s.Isolated := by
  intro isolated
  obtain ⟨c, c', split⟩ : ∃ c c', s.connections = [c, c'] := by
    have := congrArg List.length seen
    rw [view, List.length_map] at this
    exact List.length_eq_two.mp this
  rw [view, split] at seen
  obtain ⟨-, rest⟩ := List.cons.inj seen
  obtain ⟨rfl, -⟩ := List.cons.inj rest
  have bound : ∀ d, (c'.log d).rcvd.length ≤ (c'.log d).msgs.length := by
    intro d
    by_contra more
    obtain ⟨r, at_r⟩ : ∃ r, (c'.log d).rcvd[(c'.log d).msgs.length]? = some r :=
      ⟨_, List.getElem?_eq_getElem (Nat.not_le.mp more)⟩
    obtain ⟨a, -, at_a, -⟩ := isolated.received c' (by simp [split]) d _ r at_r
    exact absurd (List.getElem?_eq_some_iff.mp at_a).1 (Nat.lt_irrefl _)
  have first := bound .toOwner
  have second := bound .toPeer
  rw [List.length_map, List.length_map] at foreign
  exact foreign.elim (Nat.not_lt.mpr first) (Nat.not_lt.mpr second)

/-- The owner closes first: the buffer goes to a new connection while the old peer still writes to it, and the
    new connection receives its message. And even when both ends have closed, a message that the first peer
    has left unread is received by the next. -/
theorem exists_mixed :
    (∃ s, Reach Start (fun _ _ => True) step s ∧
      s.view = [⟨false, true, (1, 0), ([], [])⟩, ⟨true, true, (0, 0), ([[9]], [])⟩] ∧ ¬s.Isolated) ∧
    ∃ s, Reach Start (fun _ _ => True) step s ∧
      s.view = [⟨false, false, (0, 1), ([], [])⟩, ⟨true, true, (0, 0), ([], [[9]])⟩] ∧ ¬s.Isolated := by
  have early : (run step oneBuffer [.connect, .close 0 .owner, .connect, .use 0 .toOwner (.allocate 1),
      .use 0 .toOwner (.send 0 [9]), .use 1 .toOwner .receive]).map view =
        some [⟨false, true, (1, 0), ([], [])⟩, ⟨true, true, (0, 0), ([[9]], [])⟩] := by decide +kernel
  have stale : (run step oneBuffer [.connect, .use 0 .toPeer (.allocate 1), .use 0 .toPeer (.send 0 [9]), .close 0 .peer,
      .close 0 .owner, .connect, .use 1 .toPeer .receive]).map view =
        some [⟨false, false, (0, 1), ([], [])⟩, ⟨true, true, (0, 0), ([], [[9]])⟩] := by decide +kernel
  obtain ⟨s, ran, seen⟩ := Option.map_eq_some_iff.mp early
  obtain ⟨t, ran', seen'⟩ := Option.map_eq_some_iff.mp stale
  exact ⟨⟨s, Reach.of_run start_oneBuffer ran, seen, not_isolated seen (.inl (Nat.zero_lt_one))⟩,
    t, Reach.of_run start_oneBuffer ran', seen', not_isolated seen' (.inr (Nat.zero_lt_one))⟩

end Recycler
end Faux
