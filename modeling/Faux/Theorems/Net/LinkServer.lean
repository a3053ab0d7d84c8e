import Faux.Net.LinkServer

/-! The link server: a packet without room is left behind, and then every packet after it is tried once. -/

namespace Faux
open Lib

namespace NetworkPacketList
variable {l : NetworkPacketList} {pos : Nat}

theorem next_before (isOn : l.on = pos - 1) (lt : pos < l.packets.length) : l.next = (true, { l with on := pos }) := by
  have isNext : l.on + 1 = pos := by omega
  have less : ¬((pos : Int) > l.packets.length) := by omega
  have other : (pos : Int) ≠ l.packets.length := by omega
  simp only [next, isNext, if_neg less, decide_eq_true other]

theorem next_at_end (isOn : l.on = l.packets.length - 1 ∨ l.on = l.packets.length) : l.next = (false, { l with on := l.packets.length }) := by
  have isNext : (if l.on + 1 > l.packets.length then (l.packets.length : Int) else l.on + 1) = l.packets.length := by
    split_ifs <;> omega
  simp only [next, isNext, ne_eq, not_true_eq_false, decide_false]

theorem get_at (lt : pos < l.packets.length) : ({ l with on := pos } : NetworkPacketList).get = some (l.packets.get ⟨pos, lt⟩) := by
  have inside : ¬((pos : Int) < 0 ∨ (pos : Int) ≥ l.packets.length) := by omega
  simp only [get, if_neg inside, Int.toNat_natCast]
  exact List.getElem?_eq_getElem lt

end NetworkPacketList

namespace LinkServer
variable {cfg : LinkConfig} {s t : LinkServer} {batch : List NetifPacket}

def Known (cfg : LinkConfig) (packets : List NetifPacket) : Prop := ∀ p ∈ packets, cfg.registered (cfg.routeToTransportId p) = true

def passed (cfg : LinkConfig) (s : LinkServer) (pos stop : Nat) : LinkServer where
  packetlist := { s.packetlist with on := stop }
  sent := s.sent ++ ((s.packetlist.packets.drop pos).take (stop - pos)).map (addressed cfg)

theorem forward_spec {room : Nat → Bool} : ∀ {fuel pos : Nat} {s : LinkServer}, Known cfg s.packetlist.packets → s.packetlist.on = pos - 1 →
    pos ≤ s.packetlist.packets.length → s.packetlist.packets.length - pos < fuel →
    ∃ stop, pos ≤ stop ∧ stop ≤ s.packetlist.packets.length ∧ (∀ i, pos ≤ i → i < stop → room i = true) ∧
      (stop < s.packetlist.packets.length → room stop = false) ∧ s.forward cfg room fuel = some (s.passed cfg pos stop)
  | 0, _, _, _, _, _, enough => absurd enough (Nat.not_lt_zero _)
  | fuel + 1, pos, s, known, isOn, le, enough => by
    rw [forward]
    rcases Nat.eq_or_lt_of_le le with rfl | lt
    · rw [NetworkPacketList.next_at_end (.inl isOn)]
      refine ⟨_, Nat.le_refl _, Nat.le_refl _, fun i le lt => absurd lt (Nat.not_lt.mpr le), fun lt => absurd lt (Nat.lt_irrefl _), ?_⟩
      simp [passed]
    · have isKnown := known _ (s.packetlist.packets.get_mem ⟨pos, lt⟩)
      have isDrop : s.packetlist.packets.drop pos = s.packetlist.packets.get ⟨pos, lt⟩ :: s.packetlist.packets.drop (pos + 1) :=
        List.drop_eq_getElem_cons lt
      rw [NetworkPacketList.next_before isOn lt]
      simp only [NetworkPacketList.get_at lt, if_true, isKnown, Int.toNat_natCast]
      cases isRoom : room pos with
      | false => grind [passed]
      | true =>
        obtain ⟨stop, after, within, rooms, isStop, ran⟩ := @forward_spec room fuel (pos + 1)
          { packetlist := { s.packetlist with on := pos }, sent := s.sent ++ [addressed cfg (s.packetlist.packets.get ⟨pos, lt⟩)] }
          known (by simp) lt (by simp only; omega)
        refine ⟨stop, Nat.le_of_succ_le after, within, fun i le' lt' => ?_, isStop, ?_⟩
        · grind
        · have isCount : stop - pos = stop - (pos + 1) + 1 := by omega
          rw [if_pos rfl]
          refine ran.trans (congrArg some ?_)
          simp only [passed, isDrop, isCount, List.take_succ_cons, List.map_cons, List.append_assoc, List.cons_append, List.nil_append]

/-! ### Calls -/

theorem idle_receives {room : Nat → Bool} (free : ¬s.packetlist.valid) (known : Known cfg batch) :
    ∃ stop ≤ batch.length, (∀ i < stop, room i = true) ∧ (stop < batch.length → room stop = false) ∧
      s.idle cfg { received := some batch, room } =
        some { packetlist := { on := stop, packets := batch }, sent := s.sent ++ (batch.take stop).map (addressed cfg) } := by
  obtain ⟨stop, -, within, rooms, isStop, ran⟩ := @forward_spec cfg room (batch.length + 2) 0
    { s with packetlist := { on := -1, packets := batch } } known rfl (Nat.zero_le _) (by simp only; omega)
  refine ⟨stop, within, fun i lt => rooms i (Nat.zero_le i) lt, isStop, ?_⟩
  simp only [idle, if_neg free, receive]
  exact ran

structure Rests (batch : List NetifPacket) (pos : Nat) (s : LinkServer) : Prop where
  packets : s.packetlist.packets = batch
  isOn : s.packetlist.on = pos
  le : pos ≤ batch.length

theorem idle_goes_on {pos : Nat} {room : Nat → Bool} (rests : Rests batch pos s) (known : Known cfg batch) :
    ∃ t pos' sent, s.idle cfg { received := none, room } = some t ∧ Rests batch pos' t ∧ pos ≤ pos' ∧
      (sent ++ batch.drop (pos' + 1)).Sublist (batch.drop (pos + 1)) ∧ t.sent = s.sent ++ sent.map (addressed cfg) := by
  have isState : (if s.packetlist.valid then s else s.receive none) = s := ite_self s
  obtain ⟨rfl, isOn, le⟩ := rests
  simp only [idle, isState]
  rcases Nat.eq_or_lt_of_le le with isEnd | lt
  · have stays : s.forward cfg room (s.packetlist.packets.length + 2) = some { s with packetlist := { s.packetlist with on := s.packetlist.packets.length } } := by
      rw [forward, NetworkPacketList.next_at_end (.inr (by omega))]
      rfl
    exact ⟨_, _, [], stays, ⟨rfl, rfl, Nat.le_refl _⟩, le, by rw [isEnd]; exact .refl _, (List.append_nil _).symm⟩
  · obtain ⟨stop, after, within, -, -, ran⟩ := @forward_spec cfg room (s.packetlist.packets.length + 2) (pos + 1) s known (by omega) lt (by omega)
    refine ⟨_, stop, _, ran, ⟨rfl, rfl, within⟩, Nat.le_of_succ_le after, ?_, rfl⟩
    -- the packet at the new position is neither sent nor tried again
    have split : s.packetlist.packets.drop (pos + 1) =
        (s.packetlist.packets.drop (pos + 1)).take (stop - (pos + 1)) ++ s.packetlist.packets.drop stop := by
      conv_lhs => rw [← List.take_append_drop (stop - (pos + 1)) (s.packetlist.packets.drop (pos + 1)), List.drop_drop, Nat.add_sub_cancel' after]
    conv_rhs => rw [split]
    exact (List.Sublist.refl _).append (List.drop_sublist_drop_left _ (Nat.le_succ stop))

theorem later_calls (known : Known cfg batch) : ∀ {calls : List IdleCall} {pos : Nat} {s : LinkServer},
    (∀ c ∈ calls, c.received = none) → Rests batch pos s → run (idle cfg) s calls = some t →
    ∃ sent : List NetifPacket, sent.Sublist (batch.drop (pos + 1)) ∧ t.sent = s.sent ++ sent.map (addressed cfg)
  | [], _, s, _, _, ran => by
    cases ran
    exact ⟨[], List.nil_sublist _, (List.append_nil _).symm⟩
  | ⟨received, room⟩ :: calls, pos, s, nothing, rests, ran => by
    obtain ⟨first, others⟩ := List.forall_mem_cons.mp nothing
    subst first
    obtain ⟨u, pos', sent, called, rests', -, sub, isSent⟩ := @idle_goes_on cfg s batch pos room rests known
    rw [run, called] at ran
    obtain ⟨sent', sub', isSent'⟩ := later_calls known others rests' ran
    refine ⟨sent ++ sent', ((List.Sublist.refl sent).append sub').trans sub, ?_⟩
    rw [isSent', isSent, List.map_append, List.append_assoc]

/-! ### Batches -/

theorem Forwards.of_room {rooms : Nat → Nat → Bool} (free : ¬s.packetlist.valid) (known : Known cfg batch)
    (room : ∀ i < batch.length, rooms 0 i = true) : Forwards cfg s batch rooms := by
  obtain ⟨stop, within, -, isStop, called⟩ := @idle_receives cfg s batch (rooms 0) free known
  have isEnd : stop = batch.length := by grind
  refine ⟨0, _, batch.map (addressed cfg), by rw [callsFor, run, called]; rfl, fun valid => ?_, ?_, fun id => rfl⟩
  · exact Int.lt_irrefl _ (isEnd ▸ valid.2)
  · rw [isEnd, List.take_length]

theorem Forwards.room {rooms : Nat → Nat → Bool} (free : ¬s.packetlist.valid) (known : Known cfg batch)
    (forwards : Forwards cfg s batch rooms) : ∀ i < batch.length, rooms 0 i = true := by
  obtain ⟨n, t, new, ran, -, isNew, each⟩ := forwards
  obtain ⟨stop, within, found, -, called⟩ := @idle_receives cfg s batch (rooms 0) free known
  rcases Nat.eq_or_lt_of_le within with rfl | lt
  · exact found
  · exfalso
    rw [callsFor, run, called] at ran
    obtain ⟨sent, sub, isSent⟩ := later_calls known (fun c mem => by obtain ⟨k, -, rfl⟩ := List.mem_map.mp mem; rfl) ⟨rfl, rfl, within⟩ ran
    have isAll : new = (batch.take stop ++ sent).map (addressed cfg) := by
      rw [isSent, List.append_assoc] at isNew
      rw [List.map_append]
      exact (List.append_cancel_left isNew).symm
    obtain ⟨p, isBatch⟩ : ∃ p, batch = batch.take stop ++ p :: batch.drop (stop + 1) :=
      ⟨batch.get ⟨stop, lt⟩, by rw [List.get_eq_getElem, ← List.drop_eq_getElem_cons lt, List.take_append_drop]⟩
    have lengths := congrArg List.length (each (cfg.routeToTransportId p))
    rw [isAll] at lengths
    conv_rhs at lengths => rw [isBatch]
    have fewer := ((sub.map (addressed cfg)).filter (·.1 = cfg.routeToTransportId p)).length_le
    simp only [List.map_append, List.filter_append, List.length_append, List.map_cons, List.filter_cons, addressed, decide_true, if_true,
      List.length_cons] at lengths fewer
    omega

/-- A batch is forwarded if and only if every packet of it finds room in the call that receives it. -/
theorem forwards_iff_room (cfg : LinkConfig) (s : LinkServer) (batch : List NetifPacket) (rooms : Nat → Nat → Bool) (free : ¬s.packetlist.valid)
    (known : ∀ p ∈ batch, cfg.registered (cfg.routeToTransportId p) = true) : Forwards cfg s batch rooms ↔ ∀ i < batch.length, rooms 0 i = true :=
  ⟨Forwards.room free known, Forwards.of_room free known⟩

def oneTransport : LinkConfig := { transportCount := 1, registered := fun _ => true, some := Nat.one_pos }

def newLinkServer : LinkServer := { packetlist := .init, sent := [] }

theorem room_forwards_two : Forwards oneTransport newLinkServer [⟨[1, 2], 2⟩, ⟨[3], 1⟩] fun _ _ => true :=
  (forwards_iff_room oneTransport newLinkServer [⟨[1, 2], 2⟩, ⟨[3], 1⟩] (fun _ _ => true) (by decide) fun _ _ => rfl).mpr fun _ _ => rfl

/-- The channel is full in the first call only, and the packet is lost. -/
theorem full_channel_loses_packet : ¬Forwards oneTransport newLinkServer [⟨[1, 2], 2⟩] fun call _ => call ≠ 0 := fun forwards =>
  absurd (forwards.room (by decide) (fun _ _ => rfl) 0 Nat.one_pos) (by decide)

end LinkServer
end Faux
