import Faux.Net.DataFlow

/-! Received data: what a callback does to a connection, and that nothing is lost as long as the channel has room. -/

namespace Faux
open Lib

namespace DataFlow
variable {s t : DataFlow} {p : Pbuf} {room : Bool} {fin : Bool}

theorem tcpEventRecv_unclaimed (unclaimed : s.claimed = false) (isSet : s.recv = true) (p : Option Pbuf) : s.tcpEventRecv p room = some (s, .buf) := by
  simp [tcpEventRecv, isSet, recvCallback, unclaimed]

theorem tcpEventRecv_data (claimed : s.claimed = true) (isSet : s.recv = true) : s.tcpEventRecv (some p) room =
    if room then some ({ s with channel := s.channel ++ [p.flatten], acked := s.acked ++ p.flatten }, .ok) else none := by
  simp [tcpEventRecv, isSet, recvCallback, claimed]

/-- The peer's close is told only when the connection is found by its `m_flow_id`. -/
theorem tcpEventRecv_close (claimed : s.claimed = true) (isSet : s.recv = true) : s.tcpEventRecv none room =
    if s.listed then
      if room then some ({ s with closeWait := true, recv := false, channel := s.channel ++ [[]] }, .ok) else none
    else some ({ s with closeWait := true }, .ok) := by
  simp only [tcpEventRecv, isSet, if_true, recvCallback, claimed, Bool.not_true, Bool.false_eq_true, if_false, closeConnection]
  split_ifs <;> rfl

/-- What holds in every state of a run that is given room: the callback is set until the peer has closed, and only a connection
    that is not claimed has refused data. -/
structure Inv (s : DataFlow) : Prop extends Delivered s where
  isSet : s.recv = !s.finReceived
  nonempty : ∀ p, s.refused = some p → p.flatten ≠ []
  unclaimed : s.refused ≠ none → s.claimed = false

theorem Inv.new (claimed : Bool) : Inv (new claimed) where
  placed := rfl
  kept := rfl
  closed := ⟨[], fun _ mem => absurd mem List.not_mem_nil, rfl⟩
  last := fun _ => rfl
  isSet := rfl
  nonempty := fun _ isSome => (Option.some_ne_none _ isSome.symm).elim
  unclaimed := fun isSome => absurd rfl isSome

theorem Inv.unfinished (inv : Inv s) (isSome : s.refused = some p) : s.finReceived = false :=
  Bool.eq_false_iff.mpr fun finished => Option.some_ne_none p (isSome.symm.trans (inv.last finished))

theorem Inv.refused_eq_none (inv : Inv s) (claimed : s.claimed = true) : s.refused = none := by
  by_contra isSome
  exact Bool.noConfusion (claimed.symm.trans (inv.unclaimed isSome))

def deliver (s : DataFlow) (p : Pbuf) : DataFlow :=
  { s with received := s.acked ++ p.flatten, channel := s.channel ++ [p.flatten], acked := s.acked ++ p.flatten, refused := none }

theorem Inv.deliver (inv : Inv s) (more : s.finReceived = false) (data : p.flatten ≠ []) : Inv (s.deliver p) where
  placed := by rw [DataFlow.deliver, List.flatten_append, inv.placed, List.flatten_singleton]
  kept := (List.append_nil _).symm
  closed := by
    obtain ⟨events, nonempty, isChannel⟩ := inv.closed
    refine ⟨events ++ [p.flatten], fun d mem => ?_, ?_⟩
    · grind
    · simp [DataFlow.deliver, isChannel, more]
  last := fun _ => rfl
  isSet := inv.isSet
  nonempty := fun _ isSome => (Option.some_ne_none _ isSome.symm).elim
  unclaimed := fun isSome => absurd rfl isSome

theorem Inv.push (inv : Inv s) : s.tcpPushrefused room = some s := by
  unfold tcpPushrefused
  cases isRefused : s.refused with
  | none => rfl
  | some p =>
    have isSet : s.recv = true := by rw [inv.isSet, inv.unfinished isRefused]; rfl
    have unclaimed := inv.unclaimed (isRefused ▸ Option.some_ne_none p)
    simp [tcpEventRecv_unclaimed unclaimed isSet]

theorem claimConnection_none (none : s.refused = none) : s.claimConnection room = some { s with claimed := true } := by
  simp only [claimConnection, tcpPushrefused, none]

theorem Inv.claim (inv : Inv s) (isRefused : s.refused = some p) :
    s.claimConnection room = if room then some (DataFlow.deliver { s with claimed := true } p) else none := by
  have isSet : s.recv = true := by rw [inv.isSet, inv.unfinished isRefused]; rfl
  have isReceived : s.received = s.acked ++ p.flatten := by rw [inv.kept, isRefused]; rfl
  have called : tcpEventRecv { s with claimed := true } (some p) room = _ := tcpEventRecv_data rfl isSet
  simp only [claimConnection, tcpPushrefused, isRefused] at called ⊢
  rw [called]
  cases room with
  | false => rfl
  | true => simp only [if_true, Option.bind_eq_bind, Option.bind_some, DataFlow.deliver, isReceived]

theorem Inv.claimed (inv : Inv s) (none : s.refused = none) : Inv { s with claimed := true } :=
  { inv with unclaimed := fun isSome => absurd none isSome }

/-! ### Segments -/

theorem inputData_unclaimed (unclaimed : s.claimed = false) (isSet : s.recv = true) : s.inputData p room =
    some (if p.flatten = [] then s else { s with received := s.received ++ p.flatten, refused := some p }) := by
  have called := @tcpEventRecv_unclaimed { s with received := s.received ++ p.flatten } room unclaimed isSet (some p)
  simp only [inputData, called]
  split_ifs <;> rfl

theorem Inv.inputData (inv : Inv s) (claimed : s.claimed = true) (more : s.finReceived = false) : s.inputData p room =
    if p.flatten = [] then some s else if room then some (s.deliver p) else none := by
  have isSet : s.recv = true := by rw [inv.isSet, more]; rfl
  have none := inv.refused_eq_none claimed
  have isReceived : s.received ++ p.flatten = s.acked ++ p.flatten := by rw [inv.kept, none]; simp
  have called : tcpEventRecv { s with received := s.received ++ p.flatten } (some p) room = _ := tcpEventRecv_data claimed isSet
  simp only [DataFlow.inputData, called]
  split_ifs
  · rfl
  · simp [DataFlow.deliver, isReceived, none]
  · rfl

theorem Inv.inputFin (inv : Inv s) (claimed : s.claimed = true) (more : s.finReceived = false) :
    s.inputFin true room =
      if s.listed then
        if room then some { s with finReceived := true, closeWait := true, recv := false, channel := s.channel ++ [[]] } else none
      else some { s with finReceived := true, closeWait := true } := by
  have isSet : s.recv = true := by rw [inv.isSet, more]; rfl
  have called : tcpEventRecv { s with finReceived := true } none room = _ := tcpEventRecv_close claimed isSet
  simp only [DataFlow.inputFin, if_true, called]
  split_ifs <;> rfl

theorem inputFin_unclaimed (unclaimed : s.claimed = false) (isSet : s.recv = true) : s.inputFin true room = some { s with finReceived := true } := by
  have called := @tcpEventRecv_unclaimed { s with finReceived := true } room unclaimed isSet none
  simp only [DataFlow.inputFin, called]
  rfl

theorem Inv.finish (inv : Inv s) (more : s.finReceived = false) (none : s.refused = none) :
    Inv { s with finReceived := true, closeWait := true, recv := false, channel := s.channel ++ [[]] } where
  placed := by rw [List.flatten_append, inv.placed]; exact List.append_nil _
  kept := inv.kept
  closed := by
    obtain ⟨events, nonempty, isChannel⟩ := inv.closed
    refine ⟨events, nonempty, ?_⟩
    simp [isChannel, more]
  last := fun _ => none
  isSet := rfl
  nonempty := inv.nonempty
  unclaimed := inv.unclaimed

theorem Inv.input_claimed (inv : Inv s) (claimed : s.claimed = true) (more : s.finReceived = false) {room : Room} :
    s.tcpInput p fin room = (s.inputData p room.data).bind fun s => s.inputFin fin room.close := by
  simp only [tcpInput, more, Bool.false_eq_true, if_false, inv.push, Option.bind_eq_bind, Option.bind_some, inv.refused_eq_none claimed,
    Option.isSome_none]

theorem Inv.input_unclaimed (inv : Inv s) (unclaimed : s.claimed = false) (more : s.finReceived = false) {room : Room} :
    s.tcpInput p fin room = if s.refused.isSome then some s
      else (if p.flatten = [] then s else { s with received := s.received ++ p.flatten, refused := some p }).inputFin fin room.close := by
  have isSet : s.recv = true := by rw [inv.isSet, more]; rfl
  simp [tcpInput, more, inv.push, inputData_unclaimed unclaimed isSet]

theorem Inv.refuse (inv : Inv s) (unclaimed : s.claimed = false) (more : s.finReceived = false) (none : s.refused = none) (data : p.flatten ≠ []) :
    Inv { s with received := s.received ++ p.flatten, refused := some p } :=
  { inv with
    kept := by
      rw [inv.kept, none]
      simp
    last := fun finished => Bool.noConfusion (more.symm.trans finished)
    nonempty := fun q isQ => by
      cases isQ
      exact data
    unclaimed := fun _ => unclaimed }

/-! ### Events -/

theorem Inv.afterData (inv : Inv s) (claimed : s.claimed = true) (more : s.finReceived = false) (dataRoom : p.flatten ≠ [] → room = true) :
    ∃ u, s.inputData p room = some u ∧ Inv u ∧ u.claimed = true ∧ u.finReceived = false ∧ u.listed = s.listed := by
  rw [inv.inputData claimed more]
  by_cases empty : p.flatten = []
  · exact ⟨s, if_pos empty, inv, claimed, more, rfl⟩
  · rw [if_neg empty, if_pos (dataRoom empty)]
    exact ⟨s.deliver p, rfl, inv.deliver more empty, claimed, more, rfl⟩

theorem segment_spec (inv : Inv s) {room : Room} (steady : s.Steady (.segment p fin room)) : ∃ t, s.tcpInput p fin room = some t ∧ Inv t := by
  by_cases finished : s.finReceived = true
  · exact ⟨s, by rw [tcpInput, if_pos finished], inv⟩
  have more : s.finReceived = false := Bool.eq_false_iff.mpr finished
  have allowed := steady more
  by_cases claimed : s.claimed = true
  · rw [if_pos claimed] at allowed
    obtain ⟨u, hasData, inv', claimed', more', listed'⟩ := inv.afterData claimed more allowed.1
    rw [inv.input_claimed claimed more, hasData, Option.bind_some]
    cases fin with
    | false => exact ⟨u, rfl, inv'⟩
    | true =>
      obtain ⟨listed, closeRoom⟩ := allowed.2 rfl
      rw [inv'.inputFin claimed' more', if_pos (listed'.trans listed), if_pos closeRoom]
      exact ⟨_, rfl, inv'.finish more' (inv'.refused_eq_none claimed')⟩
  · rw [if_neg claimed] at allowed
    have unclaimed : s.claimed = false := Bool.eq_false_iff.mpr claimed
    rw [inv.input_unclaimed unclaimed more]
    cases isRefused : s.refused with
    | some q => exact ⟨s, rfl, inv⟩
    | none =>
      have isFin : fin = false := Bool.eq_false_iff.mpr fun isFin => allowed isFin isRefused
      rw [isFin]
      refine ⟨_, rfl, ?_⟩
      split_ifs with empty
      · exact inv
      · exact inv.refuse unclaimed more isRefused empty

theorem step_spec (inv : Inv s) {e : Event} (steady : s.Steady e) : ∃ t, s.step e = some t ∧ Inv t := by
  cases e with
  | segment p fin room => exact segment_spec inv steady
  | timer room => exact ⟨s, inv.push, inv⟩
  | claim room =>
    cases isRefused : s.refused with
    | none => exact ⟨_, claimConnection_none isRefused, inv.claimed isRefused⟩
    | some p =>
      have isRoom : room = true := steady (isRefused ▸ Option.some_ne_none p)
      have inv' := inv.deliver (inv.unfinished isRefused) (inv.nonempty p isRefused)
      exact ⟨DataFlow.deliver { s with claimed := true } p, by rw [step, inv.claim isRefused, if_pos isRoom], inv'.claimed rfl⟩

theorem Inv.not_delivered (inv : Inv s) (more : s.finReceived = false) (isChannel : t.channel = s.channel) (finished : t.finReceived = true) : ¬t.Delivered := by
  rintro ⟨-, -, ⟨events, -, isEvents⟩, -⟩
  obtain ⟨events', nonempty, isEvents'⟩ := inv.closed
  rw [isChannel, isEvents', more, finished] at isEvents
  have mem : [] ∈ events' := by grind
  exact nonempty [] mem rfl

theorem steady_of_segment (inv : Inv s) {room : Room} (stepped : s.tcpInput p fin room = some t) (delivered : t.Delivered) :
    s.Steady (.segment p fin room) := by
  intro more
  by_cases claimed : s.claimed = true
  · rw [if_pos claimed]
    rw [inv.input_claimed claimed more] at stepped
    obtain ⟨u, hasData, finished⟩ := Option.bind_eq_some_iff.mp stepped
    have dataRoom : p.flatten ≠ [] → room.data = true := by
      intro data
      rw [inv.inputData claimed more, if_neg data] at hasData
      by_contra noRoom
      rw [if_neg noRoom] at hasData
      cases hasData
    refine ⟨dataRoom, ?_⟩
    rintro rfl
    obtain ⟨u', hasData', inv', claimed', more', listed'⟩ := inv.afterData claimed more dataRoom
    cases Option.some.inj (hasData.symm.trans hasData')
    rw [inv'.inputFin claimed' more', listed'] at finished
    split_ifs at finished with listed closeRoom
    · exact ⟨listed, closeRoom⟩
    -- Without its entry the close is passed over, and the application is not told.
    · cases finished
      exact absurd delivered (inv'.not_delivered more' rfl rfl)
  · rw [if_neg claimed]
    rintro rfl isRefused
    have unclaimed : s.claimed = false := Bool.eq_false_iff.mpr claimed
    have isSet : s.recv = true := by rw [inv.isSet, more]; rfl
    rw [inv.input_unclaimed unclaimed more, isRefused, Option.isSome_none, if_neg Bool.false_ne_true, inputFin_unclaimed] at stepped
    · cases stepped
      refine inv.not_delivered more ?_ rfl delivered
      split_ifs <;> rfl
    · split_ifs <;> exact unclaimed
    · split_ifs <;> exact isSet

theorem steady_of_step (inv : Inv s) {e : Event} (stepped : s.step e = some t) (delivered : t.Delivered) : s.Steady e := by
  cases e with
  | segment p fin room => exact steady_of_segment inv stepped delivered
  | timer room => trivial
  | claim room =>
    intro isSome
    obtain ⟨p, isRefused⟩ := Option.ne_none_iff_exists'.mp isSome
    rw [step, inv.claim isRefused] at stepped
    by_contra noRoom
    rw [if_neg noRoom] at stepped
    cases stepped

/-- Received data is delivered throughout a run, and no failed allocation is used, if and only if the channel has room whenever a claimed connection
    gets data or the close event, and the peer closes only connections that were accepted and are claimed. -/
theorem data_is_delivered_iff (claimed : Bool) (events : List Event) :
    Along Delivered step (new claimed) events ↔ Guarded Steady step (new claimed) events :=
  along_iff_guarded (fun _ inv => inv.toDelivered) (fun _ _ inv steady => step_spec inv steady)
    (fun _ _ _ inv stepped => steady_of_step inv stepped) (Inv.new claimed)

/-- A claimed connection gets one byte while the channel is full; a connection is closed before it is claimed; and one that the
    application has made is closed while there is room. -/
theorem full_channel_is_used : ¬Along Delivered step (new true) [.segment [[7]] false ⟨false, false, false⟩] ∧
    step (new true) (.segment [[7]] false ⟨false, false, false⟩) = none ∧
    ¬Along Delivered step (new false) [.segment [] true ⟨true, true, true⟩, .claim true] ∧
    ¬Along Delivered step (new true) [.segment [] true ⟨true, true, true⟩] := by
  refine ⟨?_, rfl, ?_, ?_⟩
  · rintro ⟨-, t, stepped, -⟩
    cases stepped
  · rintro ⟨-, t, stepped, delivered, -⟩
    cases stepped
    exact absurd delivered ((Inv.new false).not_delivered rfl rfl rfl)
  · rintro ⟨-, t, stepped, delivered⟩
    cases stepped
    exact absurd delivered ((Inv.new true).not_delivered rfl rfl rfl)

end DataFlow
end Faux
