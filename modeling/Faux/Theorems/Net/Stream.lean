import Faux.Net.Stream
import Faux.Theorems.Net.DataFlow
import Faux.Theorems.Net.Socket

/-! What an application reads is what its peer has sent. -/

namespace Faux
open Lib

namespace DataFlow
variable {s t : DataFlow} {room : Bool} {err : ErrT}

theorem tcpEventRecv_channel {p : Option Pbuf} (stepped : s.tcpEventRecv p room = some (t, err)) : s.channel <+: t.channel := by
  unfold tcpEventRecv recvCallback closeConnection at stepped
  grind

theorem tcpPushrefused_channel (stepped : s.tcpPushrefused room = some t) : s.channel <+: t.channel := by
  unfold tcpPushrefused at stepped
  split at stepped
  · grind
  · obtain ⟨⟨u, err⟩, called, same⟩ := Option.bind_eq_some_iff.mp stepped
    obtain rfl := Option.some.inj same
    have first := tcpEventRecv_channel called
    split_ifs <;> exact first

theorem inputData_channel {p : Pbuf} (stepped : s.inputData p room = some t) : s.channel <+: t.channel := by
  unfold inputData at stepped
  split_ifs at stepped
  · grind
  · obtain ⟨⟨u, err⟩, called, same⟩ := Option.bind_eq_some_iff.mp stepped
    obtain rfl := Option.some.inj same
    have first := tcpEventRecv_channel called
    split_ifs <;> exact first

theorem inputFin_channel {fin : Bool} (stepped : s.inputFin fin room = some t) : s.channel <+: t.channel := by
  unfold inputFin at stepped
  split_ifs at stepped
  · obtain ⟨⟨u, err⟩, called, same⟩ := Option.bind_eq_some_iff.mp stepped
    obtain rfl := Option.some.inj same
    exact (tcpEventRecv_channel called :)
  · grind

/-- Nothing that was sent to the application is taken back. -/
theorem step_channel {e : Event} (stepped : s.step e = some t) : s.channel <+: t.channel := by
  cases e with
  | segment p fin room =>
    simp only [step, tcpInput] at stepped
    split_ifs at stepped
    · grind
    obtain ⟨u, pushed, stepped⟩ := Option.bind_eq_some_iff.mp stepped
    have first := tcpPushrefused_channel pushed
    split_ifs at stepped
    · grind
    obtain ⟨v, taken, finished⟩ := Option.bind_eq_some_iff.mp stepped
    exact first.trans ((inputData_channel taken).trans (inputFin_channel finished))
  | claim room => exact (tcpPushrefused_channel stepped :)
  | timer room => exact tcpPushrefused_channel stepped

end DataFlow

namespace NetStream
variable {c d : NetStream} {s t : StreamSocket}

structure Inv (c : NetStream) : Prop where
  flow : c.flow.Inv
  app : c.app.Streams
  arrived : arrived c.app <+: c.flow.channel

theorem arrived_read {count : Nat} {blocking : Bool} (stepped : s.step (.read count blocking) = some t) : arrived t = arrived s := by
  simp only [StreamSocket.step] at stepped
  split_ifs at stepped
  cases stepped
  unfold StreamSocket.begin
  split_ifs <;> rfl

theorem arrived_pass (stepped : s.step .pass = some t) : arrived t = arrived s := by
  simp only [StreamSocket.step] at stepped
  split at stepped
  · cases stepped
  · split at stepped <;> cases stepped <;> rfl

theorem arrived_event {e : DataEvent} (stepped : s.step (if e = [] then .close else .data e) = some t) :
    arrived t = arrived s ++ [e] := by
  split_ifs at stepped with isClose <;> simp only [StreamSocket.step] at stepped <;> split_ifs at stepped with enabled <;> cases stepped
  · simp [arrived, enabled, isClose]
  · simp [arrived, enabled]

theorem Inv.step {e : Event} (h : Inv c) (steady : c.Steady e) (stepped : c.step e = some d) : Inv d := by
  cases e with
  | net e =>
    obtain ⟨flow, moved, rfl⟩ := Option.map_eq_some_iff.mp stepped
    obtain ⟨_, isFlow, inv⟩ := DataFlow.step_spec h.flow steady
    obtain rfl := Option.some.inj (moved.symm.trans isFlow)
    exact ⟨inv, h.app, h.arrived.trans (DataFlow.step_channel moved)⟩
  | arrive =>
    obtain ⟨e, isNext, stepped⟩ := Option.bind_eq_some_iff.mp stepped
    obtain ⟨app, came, same⟩ := Option.bind_eq_some_iff.mp stepped
    obtain rfl := Option.some.inj same
    refine ⟨h.flow, StreamSocket.streams_step h.app came, ?_⟩
    rw [arrived_event came]
    obtain ⟨rest, split⟩ := h.arrived
    rw [← split, List.getElem?_append_right (Nat.le_refl _), Nat.sub_self] at isNext
    obtain ⟨rest', rfl⟩ := List.head?_eq_some_iff.mp (List.head?_eq_getElem?.trans isNext)
    exact ⟨rest', by rw [← split, List.append_assoc]; rfl⟩
  | read count blocking =>
    obtain ⟨app, moved, rfl⟩ := Option.map_eq_some_iff.mp stepped
    exact ⟨h.flow, StreamSocket.streams_step h.app moved, arrived_read moved ▸ h.arrived⟩
  | pass =>
    obtain ⟨app, moved, rfl⟩ := Option.map_eq_some_iff.mp stepped
    exact ⟨h.flow, StreamSocket.streams_step h.app moved, arrived_pass moved ▸ h.arrived⟩

/-- Once the application has been told of the end, all events of the transport have arrived. -/
theorem Inv.sent_eq (h : Inv c) (closed : c.app.closed = true) : c.flow.finReceived = true ∧ c.app.sent.flatten = c.flow.received := by
  obtain ⟨data, nonempty, isChannel⟩ := h.flow.closed
  obtain ⟨rest, split⟩ := h.arrived
  rw [NetStream.arrived, if_pos closed, isChannel, List.append_assoc] at split
  have noEnd : [] ∉ data := fun mem => nonempty [] mem rfl
  cases finished : c.flow.finReceived with
  | false => grind
  | true =>
    rw [finished, if_pos rfl] at split
    obtain ⟨rfl, -, -⟩ := (List.append_cons_inj_of_notMem noEnd List.not_mem_nil).mp split.symm
    rw [h.flow.kept, h.flow.last finished, ← h.flow.placed, isChannel, finished]
    simp

/-- What reads have returned is a prefix of what the stack has received from the peer, and a read returns 0 only when the peer has
    closed and all that it sent has been returned. -/
theorem reads_received (reach : Reach Start Steady step c) : StreamSocket.returned c.app.results <+: c.flow.received ∧
    (.bytes [] ∈ c.app.results → c.flow.finReceived = true ∧ StreamSocket.returned c.app.results = c.flow.received) := by
  have h : Inv c := by
    refine reach.invariant ?_ fun c d e h steady stepped => h.step steady stepped
    rintro c ⟨⟨claimed, isNew⟩, start⟩
    refine ⟨isNew ▸ .new claimed, StreamSocket.streams_start start, ?_⟩
    rw [start]
    exact List.nil_prefix
  have sent : c.app.sent.flatten <+: c.flow.received := by
    obtain ⟨rest, split⟩ := h.arrived
    refine List.IsPrefix.trans ⟨rest.flatten, ?_⟩ ⟨_, h.flow.kept.symm⟩
    rw [← h.flow.placed, ← split, NetStream.arrived]
    split_ifs <;> simp
  have bytes := h.app.bytes
  refine ⟨List.IsPrefix.trans ⟨_, (bytes.trans (List.append_assoc ..)).symm⟩ sent, fun ended => ?_⟩
  obtain ⟨before, n, isResults, notIn, last⟩ := h.app.zeros
  have positive : 0 < n := Nat.pos_of_ne_zero fun none => notIn (by simpa [isResults, none] using ended)
  obtain ⟨draining, empty⟩ := last positive
  obtain ⟨closed, noEvents, -⟩ := h.app.drained draining
  obtain ⟨finished, all⟩ := h.sent_eq closed
  rw [empty, noEvents, List.flatten_nil, List.append_nil, List.append_nil] at bytes
  exact ⟨finished, bytes.symm.trans all⟩

/-- A connection is accepted, gets two bytes that the stack keeps until it is claimed, and then a third and the close. -/
theorem reads_received_claimed : ∃ c, Reach Start Steady step c ∧ c.app.results = [.bytes [1, 2], .bytes [3], .bytes []] ∧
    c.flow.finReceived = true ∧ StreamSocket.returned c.app.results = c.flow.received := by
  have start : Reach Start Steady step ⟨.new false, ⟨⟨false, []⟩, [], none, [], false, []⟩⟩ := .init ⟨⟨false, rfl⟩, rfl⟩
  have kept := start.step (Event.net (.segment [[1, 2]] false ⟨true, true, true⟩)) (fun _ isFin => Bool.noConfusion isFin) rfl
  have claimed := kept.step (Event.net (.claim true)) (fun _ => rfl) rfl
  have sent := claimed.step (Event.net (.segment [[3]] true ⟨true, true, true⟩)) (fun _ => ⟨fun _ => rfl, fun _ => ⟨rfl, rfl⟩⟩) rfl
  have arrived := ((sent.step Event.arrive trivial rfl).step Event.arrive trivial rfl).step Event.arrive trivial rfl
  have first := ((arrived.step (Event.read 2 true) trivial rfl).step Event.pass trivial rfl).step Event.pass trivial rfl
  have second := ((first.step (Event.read 2 true) trivial rfl).step Event.pass trivial rfl).step Event.pass trivial rfl
  have ended := second.step (Event.read 1 true) trivial rfl
  exact ⟨_, ended, rfl, (reads_received ended).2 (by decide)⟩

end NetStream
end Faux
