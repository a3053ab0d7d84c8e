import Faux.Dispatch.Receive

/-! # Pending messages

Who holds which pending message. Every function of the dispatcher hands them over without losing one, and fails no assertion while
there is room. -/

namespace Faux
open Function Lib

/-- `queue` and `early` are the pending messages in the queue and in the map, each with its response, and
    `extra` are those in the hands of the function that runs. -/
structure Pending.Holds (d : Pending) (queue early : List (Nat × DispatchMessage)) (extra : List Nat) : Prop where
  queued : d.responses.toList = queue.map Prod.fst
  mapped : d.responseMap.toList.Perm (early.map fun x => (x.2.transaction, x.1))
  stored : ∀ x ∈ queue ++ early,
    (d.pool.heap x.1).data = some x.2 ∧ (d.pool.heap x.1).size = x.2.size ∧ x.2.handler = -1
  owned : (extra ++ ((queue ++ early).map Prod.fst ++ d.pool.freeList)).Perm (List.range maxTransactions)

def transactions (held : List (Nat × DispatchMessage)) : List Int := held.map fun x => x.2.transaction

namespace Pending
variable {d : Pending} {queue early : List (Nat × DispatchMessage)} {extra : List Nat} {p : Nat} {m : DispatchMessage}
  {tid : Int}

theorem holds_init : init.Holds [] [] [] := by
  refine ⟨CircularQueue.toList_empty, ?_, fun _ mem => absurd mem List.not_mem_nil, ?_⟩
  · rw [init, CircularQueue.toList_empty, List.map_nil]
  · simp [init, Pool.init]

namespace Holds

theorem length (h : d.Holds queue early extra) :
    extra.length + (queue.length + early.length + d.pool.freeList.length) = maxTransactions := by
  have := h.owned.length_eq
  simp only [List.length_append, List.length_map, List.length_range] at this
  exact this

theorem size_responses (h : d.Holds queue early extra) : d.responses.size = queue.length := by
  rw [← CircularQueue.length_toList, h.queued, List.length_map]

theorem size_responseMap (h : d.Holds queue early extra) : d.responseMap.size = early.length := by
  rw [← CircularQueue.length_toList, h.mapped.length_eq, List.length_map]

theorem mem_keys (h : d.Holds queue early extra) :
    tid ∈ d.responseMap.keys ↔ tid ∈ transactions early := by
  rw [CircularQueue.keys, (h.mapped.map Prod.fst).mem_iff, List.map_map]
  rfl

theorem apart (h : d.Holds queue early extra) (mem : p ∈ extra) : ∀ x ∈ queue ++ early, x.1 ≠ p := by
  intro x held same
  have nodup := (h.owned.nodup_iff.mpr List.nodup_range)
  have disjoint := (List.nodup_append.mp nodup).2.2 p mem x.1
  exact disjoint (List.mem_append_left _ (List.mem_map_of_mem held)) same.symm

theorem allocate (h : d.Holds queue early []) (room : queue.length + early.length < maxTransactions) :
    ∃ p pool, d.pool.allocate = some (p, pool) ∧ { d with pool }.Holds queue early [p] := by
  have length := h.length
  match free : d.pool.freeList with
  | [] =>
    rw [free, List.length_nil] at length
    omega
  | p :: rest =>
    refine ⟨p, { heap := d.pool.heap, freeList := rest }, by rw [Pool.allocate, free], h.queued, h.mapped, h.stored, ?_⟩
    have owned := h.owned
    rw [free] at owned
    rw [List.nil_append] at owned
    refine List.Perm.trans ?_ owned
    rw [List.singleton_append]
    exact List.perm_middle.symm

theorem set (h : d.Holds queue early extra) (mem : p ∈ extra) (a : PendingMessage) :
    { d with pool := d.pool.set p a }.Holds queue early extra where
  queued := h.queued
  mapped := h.mapped
  stored := fun x held => by
    have other : x.1 ≠ p := h.apart mem x held
    show (update d.pool.heap p a x.1).data = _ ∧ (update d.pool.heap p a x.1).size = _ ∧ _
    rw [update_of_ne other]
    exact h.stored x held
  owned := h.owned

theorem free (h : d.Holds queue early (p :: extra)) :
    { d with pool := d.pool.free p }.Holds queue early extra where
  queued := h.queued
  mapped := h.mapped
  stored := h.stored
  owned := by
    refine List.Perm.trans ?_ h.owned
    rw [List.cons_append]
    refine List.Perm.trans (List.Perm.append_left extra List.perm_middle) List.perm_middle

theorem push (h : d.Holds queue early (p :: extra)) (data : (d.pool.heap p).data = some m)
    (size : (d.pool.heap p).size = m.size) (response : m.handler = -1) :
    ∃ responses, d.responses.push p = some responses ∧
      { d with responses }.Holds (queue ++ [(p, m)]) early extra := by
  have length := h.length
  have room : d.responses.size < maxTransactions := by
    rw [h.size_responses]
    rw [List.length_cons] at length
    omega
  obtain ⟨responses, pushed, list⟩ := CircularQueue.toList_push (a := p) room
  refine ⟨responses, pushed, ?_, h.mapped, ?_, ?_⟩
  · rw [list, h.queued, List.map_append, List.map_singleton]
  · intro x mem
    rw [List.append_assoc, List.singleton_append, List.mem_append, List.mem_cons] at mem
    rcases mem with mem | rfl | mem
    · exact h.stored x (List.mem_append_left _ mem)
    · exact ⟨data, size, response⟩
    · exact h.stored x (List.mem_append_right _ mem)
  · refine List.Perm.trans ?_ h.owned
    rw [List.append_assoc, List.singleton_append, List.map_append, List.map_cons, List.map_append, List.cons_append,
      List.append_assoc, List.append_assoc]
    refine List.Perm.trans ?_ List.perm_middle
    exact List.Perm.append_left extra List.perm_middle

theorem processResponses (h : d.Holds ((p, m) :: queue) early extra) (fresh : m.transaction ∉ transactions early) :
    ∃ e, d.dispatchProcessResponses = some e ∧ e.pool = d.pool ∧ e.Holds queue (early ++ [(p, m)]) extra := by
  have length := h.length
  obtain ⟨front, responses, popped, list⟩ := CircularQueue.toList_pop h.queued
  obtain ⟨data, -, -⟩ := h.stored (p, m) (List.mem_cons_self ..)
  have room : d.responseMap.size < maxTransactions := by
    rw [h.size_responseMap]
    rw [List.length_cons] at length
    omega
  have not_found : d.responseMap.find m.transaction = d.responseMap.endIndex :=
    CircularQueue.find_of_not_mem fun mem => fresh (h.mem_keys.mp mem)
  refine ⟨{ d with responses, responseMap := d.responseMap.insert m.transaction p }, ?_, rfl, ?_, ?_, ?_, ?_⟩
  · simp only [dispatchProcessResponses, front, popped, data, Option.bind_eq_bind, Option.bind_some, not_found, if_true]
  · exact list
  · show (CircularQueue.insert ..).toList.Perm _
    rw [CircularQueue.toList_insert room, List.map_append, List.map_singleton]
    exact h.mapped.append_right _
  · intro x mem
    refine h.stored x ?_
    simp only [List.mem_append, List.mem_cons, List.not_mem_nil, or_false] at mem ⊢
    tauto
  · refine List.Perm.trans ?_ h.owned
    refine List.Perm.append_left _ (List.Perm.append_right _ (List.Perm.map _ ?_))
    rw [← List.append_assoc]
    exact List.perm_append_singleton ..

theorem processOthers (h : d.Holds queue early extra) (distinct : (transactions (queue ++ early)).Nodup) :
    ∃ e, Pending.processOthers queue.length d = some e ∧ e.pool = d.pool ∧ e.Holds [] (early ++ queue) extra := by
  induction queue generalizing d early with
  | nil => exact ⟨d, rfl, rfl, by rwa [List.append_nil]⟩
  | cons x queue ih =>
    rw [List.cons_append, transactions, List.map_cons, List.nodup_cons, List.map_append, List.mem_append] at distinct
    obtain ⟨e, processed, pool, held⟩ := h.processResponses fun mem => distinct.1 (.inr mem)
    have rest : (transactions (queue ++ (early ++ [x]))).Nodup := by grind [transactions]
    obtain ⟨f, others, pool', held'⟩ := ih held rest
    refine ⟨f, ?_, pool'.trans pool, ?_⟩
    · rw [List.length_cons, Pending.processOthers, processed]
      exact others
    · rwa [List.append_assoc, List.singleton_append] at held'

theorem checkMap_none (h : d.Holds queue early extra) (absent : tid ∉ transactions early) :
    d.dispatchCheckPendingResponseMap tid = none := by
  rw [dispatchCheckPendingResponseMap, CircularQueue.find_of_not_mem fun mem => absent (h.mem_keys.mp mem)]
  exact if_neg fun ne => ne rfl

theorem checkMap_some (h : d.Holds queue early extra) (room : early.length < maxTransactions)
    (present : tid ∈ transactions early) :
    ∃ x rest e, early.Perm (x :: rest) ∧ x.2.transaction = tid ∧ d.dispatchCheckPendingResponseMap tid = some (x.1, e) ∧
      e.pool = d.pool ∧ e.Holds queue rest (x.1 :: extra) := by
  obtain ⟨found, key, taken⟩ := CircularQueue.find_of_mem (by rwa [h.size_responseMap]) (h.mem_keys.mpr present)
  let it := d.responseMap.find tid
  have entry : d.responseMap.data it ∈ d.responseMap.toList := taken.mem_iff.mp (List.mem_cons_self ..)
  obtain ⟨x, x_mem, is⟩ := List.mem_map.mp (h.mapped.mem_iff.mp entry)
  obtain ⟨before, after, split⟩ := List.append_of_mem x_mem
  have perm : early.Perm (x :: (before ++ after)) := split ▸ List.perm_middle
  refine ⟨x, before ++ after, { d with responseMap := d.responseMap.rm it }, perm, ?_, ?_, rfl, h.queued, ?_, ?_, ?_⟩
  · exact (congrArg Prod.fst is).trans key
  · grind [dispatchCheckPendingResponseMap]
  · have all : (d.responseMap.data it :: (d.responseMap.rm it).toList).Perm
        ((x.2.transaction, x.1) :: (before ++ after).map fun x => (x.2.transaction, x.1)) :=
      (taken.trans h.mapped).trans (perm.map _)
    rw [is] at all
    exact all.cons_inv
  · intro y mem
    refine h.stored y ?_
    rw [List.mem_append, perm.mem_iff, List.mem_cons]
    rcases List.mem_append.mp mem with mem | mem
    · exact .inl mem
    · exact .inr (.inr mem)
  · refine List.Perm.trans ?_ h.owned
    have moved : ((queue ++ early).map Prod.fst).Perm (x.1 :: (queue ++ (before ++ after)).map Prod.fst) :=
      ((List.Perm.append_left queue perm).trans List.perm_middle).map Prod.fst
    refine List.Perm.trans ?_ (List.Perm.append_left extra (moved.symm.append_right _))
    rw [List.cons_append, List.cons_append]
    exact List.perm_middle.symm

theorem deliver (h : d.Holds queue early (p :: extra)) (data : (d.pool.heap p).data = some m)
    (size : (d.pool.heap p).size = m.size) (response : m.handler = -1) :
    ∃ e, d.deliver m.transaction p = some (e, m, m.body.length) ∧ e.Holds queue early extra := by
  refine ⟨{ d with pool := d.pool.free p }, ?_, h.free⟩
  simp [Pending.deliver, data, size, response, DispatchMessage.size]

end Holds
end Pending
end Faux
