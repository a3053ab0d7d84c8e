import Faux.Theorems.Dispatch.Pending
import Mathlib.Data.List.Nodup

/-! # Every call gets its response

Responses that have arrived and have not been returned stand in the channels, in the queue or in the map, one for each transaction.
A call whose response has arrived returns it after a bounded number of polls, because the channels are polled in turn. -/

namespace Faux
open Lib

/-! ### Polling in turn -/

section
variable {chans : List Inbox} {pos : Int} {n i j k t : Nat} {m : DispatchMessage}

/-- The number of channels polled before channel `j` when polling starts at `i`. -/
def turn (n i j : Nat) : Nat := if i ≤ j then j - i else n - i + j

theorem selectStart_le (n : Nat) (pos : Int) : selectStart n pos ≤ n := by
  simp only [selectStart]
  split <;> omega

theorem selectStart_cast (n j : Nat) : selectStart n j = if n ≤ j + 1 then 0 else j + 1 := by
  simp only [selectStart]
  split <;> split <;> omega

theorem turn_of_getElem? (at_t : (List.range' i (n - i) ++ List.range i)[t]? = some k) : turn n i k = t := by
  rw [List.getElem?_append, List.length_range'] at at_t
  unfold turn
  split at at_t
  · grind
  · grind

theorem mem_pollOrder (le : i ≤ n) : j ∈ List.range' i (n - i) ++ List.range i ↔ j < n := by
  rw [List.mem_append, List.mem_range'_1, List.mem_range]
  omega

theorem channelSelect_none (nothing : channelSelect chans pos = none) {c : Inbox} (mem : c ∈ chans) :
    c.receive = none := by
  obtain ⟨j, j_lt, rfl⟩ := List.mem_iff_getElem.mp mem
  have nothing := List.findSome?_eq_none_iff.mp nothing j ((mem_pollOrder (selectStart_le ..)).mpr j_lt)
  rw [List.getElem?_eq_getElem j_lt, Option.bind_some, Option.map_eq_none_iff] at nothing
  exact nothing

theorem channelSelect_some {received : Received} (selected : channelSelect chans pos = some (j, received)) :
    (∃ c, chans[j]? = some c ∧ c.receive = some received) ∧
    ∀ k c, chans[k]? = some c → c.receive ≠ none →
      turn chans.length (selectStart chans.length pos) j ≤ turn chans.length (selectStart chans.length pos) k := by
  obtain ⟨before, a, after, order, first, skipped⟩ := List.findSome?_eq_some_iff.mp selected
  simp only [Option.map_eq_some_iff, Option.bind_eq_some_iff, Prod.mk.injEq] at first
  obtain ⟨_, ⟨c, at_a, got⟩, rfl, rfl⟩ := first
  refine ⟨⟨c, at_a, got⟩, fun k c' at_k ready => ?_⟩
  have le := selectStart_le chans.length pos
  have k_mem := (mem_pollOrder le).mpr (List.getElem?_eq_some_iff.mp at_k).1
  obtain ⟨t, at_t⟩ := List.mem_iff_getElem?.mp k_mem
  rw [turn_of_getElem? at_t, turn_of_getElem? (t := before.length) (by rw [order]; simp)]
  by_contra earlier
  rw [order, List.getElem?_append_left (Nat.not_le.mp earlier)] at at_t
  have nothing := skipped k (List.mem_of_getElem? at_t)
  rw [at_k, Option.bind_some, Option.map_eq_none_iff] at nothing
  exact ready nothing

theorem turn_after (k_lt : k < n) (j_lt : j < n) (le : i ≤ n) (ne : j ≠ k) (first : turn n i j ≤ turn n i k) :
    turn n (selectStart n j) k < turn n i k := by
  rw [selectStart_cast]
  unfold turn at *
  split_ifs at * <;> omega

theorem turn_lt (k_lt : k < n) (le : i ≤ n) : turn n i k < n := by
  unfold turn
  split <;> omega

end

/-! ### The responses in the channels -/

section
variable {chans : List Inbox} {c : Inbox} {m : DispatchMessage} {j : Nat}

def responsesIn (chans : List Inbox) : List DispatchMessage := chans.flatMap fun c => c.queue.filter (·.isResponse)

theorem mem_responsesIn (at_j : chans[j]? = some c) (mem : m ∈ c.queue) (response : m.handler = -1) :
    m ∈ responsesIn chans := by
  refine List.mem_flatMap.mpr ⟨c, List.mem_of_getElem? at_j, List.mem_filter.mpr ⟨mem, ?_⟩⟩
  rw [DispatchMessage.isResponse, response]
  rfl

theorem responsesIn_take (at_j : chans[j]? = some c) {rest : List DispatchMessage} (head : c.queue = m :: rest) :
    (responsesIn chans).Perm
      ([m].filter (·.isResponse) ++ responsesIn (chans.modify j fun c => { c with queue := c.queue.tail })) := by
  induction chans generalizing j with
  | nil => cases at_j
  | cons c' chans ih =>
    cases j with
    | zero =>
      obtain rfl := Option.some.inj at_j
      have split : c'.queue.filter (·.isResponse) = [m].filter (·.isResponse) ++ rest.filter (·.isResponse) := by
        rw [head, ← List.filter_append, List.singleton_append]
      rw [List.modify_zero_cons, responsesIn, responsesIn, List.flatMap_cons, List.flatMap_cons, split, head, List.append_assoc]
      rfl
    | succ j => grind [responsesIn]

theorem responsesIn_arrive (j_lt : j < chans.length) :
    (responsesIn (chans.modify j fun c => { c with queue := c.queue ++ [m] })).Perm
      ([m].filter (·.isResponse) ++ responsesIn chans) := by
  induction chans generalizing j with
  | nil => exact absurd j_lt (Nat.not_lt_zero _)
  | cons c chans ih => grind [responsesIn]

end

/-! ### One pass of the loop -/

def Orderly (chans : List Inbox) : Prop :=
  ∀ c ∈ chans, c.closed = false ∧ ∀ m ∈ c.queue, m.handler = -1 ∨ m.handler = -2

structure Taken (d e : Dispatcher) (j : Nat) (m : DispatchMessage) : Prop where
  selected : channelSelect d.channels d.pos = some (j, .message m)
  queue : ∃ c rest, d.channels[j]? = some c ∧ c.queue = m :: rest
  channels : e.channels = d.channels.modify j fun c => { c with queue := c.queue.tail }
  pos : e.pos = j
  pmsg : e.pmsg = none

theorem Taken.keep {d e f : Dispatcher} {j : Nat} (taken : Taken d e j m)
    (channels : f.channels = e.channels) (pos : f.pos = e.pos) (pmsg : f.pmsg = e.pmsg) : Taken d f j m :=
  ⟨taken.selected, taken.queue, channels.trans taken.channels, pos.trans taken.pos, pmsg.trans taken.pmsg⟩

namespace Dispatcher
variable {d : Dispatcher} {queue early : List (Nat × DispatchMessage)} {tid : Int}

theorem nextMessage_holds (h : d.Holds queue early d.pmsg.toList)
    (room : queue.length + early.length < maxTransactions) :
    ∃ p pool, d.nextMessage = some (p, pool) ∧ { d.toPending with pool }.Holds queue early [p] := by
  rw [nextMessage]
  match pmsg : d.pmsg with
  | some p =>
    rw [pmsg] at h
    exact ⟨p, d.pool, rfl, h⟩
  | none =>
    rw [pmsg] at h
    exact h.allocate room

theorem receive_message {c : Inbox} {r : Received} (open_ : c.closed = false) (got : c.receive = some r) :
    ∃ m rest, c.queue = m :: rest ∧ r = .message m := by
  rw [Inbox.receive] at got
  match queue : c.queue with
  | m :: rest => grind
  | [] =>
    rw [queue, open_] at got
    cases got

theorem dispatchPoll_spec (h : d.Holds queue early d.pmsg.toList)
    (room : queue.length + early.length < maxTransactions) (orderly : Orderly d.channels) :
    (channelSelect d.channels d.pos = none ∧ ∃ e, d.dispatchPoll = some (e, none) ∧
      e.Holds queue early e.pmsg.toList ∧ e.channels = d.channels) ∨
    ∃ j m p e, Taken d e j m ∧ d.dispatchPoll = some (e, some p) ∧ e.Holds queue early [p] ∧
      (e.pool.heap p).data = some m ∧ (e.pool.heap p).size = m.size := by
  obtain ⟨p, pool, next, held⟩ := nextMessage_holds h room
  match selected : channelSelect d.channels d.pos with
  | none =>
    simp only [dispatchPoll, next, selected, Option.bind_eq_bind, Option.bind_some]
    exact .inl ⟨trivial, _, rfl, held.set (List.mem_singleton_self p) _, rfl⟩
  | some (j, r) =>
    obtain ⟨⟨c, at_j, got⟩, -⟩ := channelSelect_some selected
    obtain ⟨m, rest, head, rfl⟩ := receive_message (orderly c (List.mem_of_getElem? at_j)).1 got
    simp only [dispatchPoll, next, selected, Option.bind_eq_bind, Option.bind_some]
    refine .inr ⟨j, m, p, _, ⟨selected, ⟨c, rest, at_j, head⟩, rfl, rfl, rfl⟩, rfl,
      held.set (List.mem_singleton_self p) _, ?_, ?_⟩
    · simp only [Pool.set, Function.update_self]
    · simp only [Pool.set, Function.update_self]

/-- One pass of the loop: nothing has arrived; or the awaited response, and the others are moved to the map;
    or another response, which is queued and counted; or a notification. -/
theorem dispatchWaitForMessage_spec (h : d.Holds queue early d.pmsg.toList)
    (room : queue.length + early.length < maxTransactions) (orderly : Orderly d.channels)
    (distinct : (transactions (queue ++ early)).Nodup) (tid : Int) :
    (channelSelect d.channels d.pos = none ∧ ∃ e, d.dispatchWaitForMessage tid queue.length = some (e, .again queue.length) ∧
      e.Holds queue early e.pmsg.toList ∧ e.channels = d.channels) ∨
    ∃ j m p e, Taken d e j m ∧
      ((m.handler = -1 ∧ m.transaction = tid ∧ d.dispatchWaitForMessage tid queue.length = some (e, .found p) ∧
          e.Holds [] (early ++ queue) [p] ∧ (e.pool.heap p).data = some m ∧ (e.pool.heap p).size = m.size) ∨
        (m.handler = -1 ∧ m.transaction ≠ tid ∧
          d.dispatchWaitForMessage tid queue.length = some (e, .again (queue.length + 1)) ∧
          e.Holds (queue ++ [(p, m)]) early []) ∨
        (m.handler = -2 ∧ d.dispatchWaitForMessage tid queue.length = some (e, .again queue.length) ∧
          e.Holds queue early [])) := by
  obtain ⟨nothing, e, polled, held, same⟩ | ⟨j, m, p, e, taken, polled, held, data, size⟩ :=
    dispatchPoll_spec h room orderly
  · refine .inl ⟨nothing, e, ?_, held, same⟩
    simp only [dispatchWaitForMessage, polled, Option.bind_eq_bind, Option.bind_some]
  · obtain ⟨c, rest, at_j, head⟩ := taken.queue
    have kind := (orderly c (List.mem_of_getElem? at_j)).2 m (head ▸ List.mem_cons_self ..)
    have waits : d.dispatchWaitForMessage tid queue.length =
        if m.handler = -1 ∧ m.transaction = tid then
          (e.processOthers queue.length).bind fun pending => some ({ e with toPending := pending }, .found p)
        else (e.dispatchProcessMessage p).bind fun r =>
          some (r.1, .again (if r.2 then queue.length else queue.length + 1)) := by
      simp only [dispatchWaitForMessage, polled, data, Option.bind_eq_bind, Option.bind_some]
    refine .inr ⟨j, m, p, ?_⟩
    by_cases response : m.handler = -1
    · by_cases own : m.transaction = tid
      · obtain ⟨pending, others, pool, held'⟩ := held.processOthers distinct
        rw [if_pos ⟨response, own⟩, others, Option.bind_some] at waits
        refine ⟨{ e with toPending := pending }, taken.keep rfl rfl rfl, .inl ⟨response, own, waits, held', ?_⟩⟩
        show (pending.pool.heap p).data = _ ∧ (pending.pool.heap p).size = _
        rw [pool]
        exact ⟨data, size⟩
      · obtain ⟨responses, pushed, held'⟩ := held.push data size response
        have processed : e.dispatchProcessMessage p = some ({ e with responses }, false) := by
          simp only [dispatchProcessMessage, data, response, pushed, Option.bind_eq_bind, Option.bind_some, if_true]
        rw [if_neg fun both => own both.2, processed, Option.bind_some] at waits
        exact ⟨{ e with responses }, taken.keep rfl rfl rfl, .inr (.inl ⟨response, own, waits, held'⟩)⟩
    · have notification := kind.resolve_left response
      have processed : e.dispatchProcessMessage p =
          some ({ e with notified := e.notified ++ [m.body], pool := e.pool.free p }, true) := by
        simp only [dispatchProcessMessage, data, notification, Option.bind_eq_bind, Option.bind_some, if_true]
        rfl
      rw [if_neg fun both => response both.1, processed, Option.bind_some] at waits
      exact ⟨{ e with notified := e.notified ++ [m.body], pool := e.pool.free p }, taken.keep rfl rfl rfl,
        .inr (.inr ⟨notification, waits, held.free⟩)⟩

end Dispatcher

/-! ### The process -/

def inside (chans : List Inbox) (queue early : List (Nat × DispatchMessage)) : List DispatchMessage :=
  responsesIn chans ++ (queue ++ early).map Prod.snd

theorem arrived_perm {d : Dispatcher} {queue early : List (Nat × DispatchMessage)} {extra : List Nat}
    (h : d.Holds queue early extra) : d.arrived.Perm (inside d.channels queue early) := by
  have pointers : (d.responses.toList ++ d.responseMap.toList.map Prod.snd).Perm ((queue ++ early).map Prod.fst) := by
    rw [h.queued, List.map_append]
    refine List.Perm.append_left _ ((h.mapped.map Prod.snd).trans ?_)
    rw [List.map_map]
    rfl
  have messages : ((queue ++ early).map Prod.fst).filterMap (fun p => (d.pool.heap p).data) =
      (queue ++ early).map Prod.snd := by
    rw [List.filterMap_map, ← List.filterMap_eq_map]
    exact List.filterMap_congr fun x mem => (h.stored x mem).1
  exact List.Perm.append_left _ ((pointers.filterMap _).trans (messages ▸ List.Perm.refl _))

namespace Requester
variable {s t : Requester} {queue early queue' early' : List (Nat × DispatchMessage)} {chans : List Inbox} {tid : Int}

structure Inv (s : Requester) (queue early : List (Nat × DispatchMessage)) : Prop where
  holds : s.dispatcher.Holds queue early s.dispatcher.pmsg.toList
  orderly : Orderly s.dispatcher.channels
  fresh : s.outstanding.Nodup
  few : s.outstanding.length < maxTransactions
  distinct : ((inside s.dispatcher.channels queue early).map (·.transaction)).Nodup
  requested : ∀ m ∈ inside s.dispatcher.channels queue early, m.transaction ∈ s.outstanding
  idle : s.waiting = none → queue = []
  busy : ∀ tid count, s.waiting = some (tid, count) →
    tid ∈ s.outstanding ∧ count = queue.length ∧ tid ∉ transactions (queue ++ early)
  account : (s.deliveries.map (·.message) ++ inside s.dispatcher.channels queue early).Perm s.responses
  matched : ∀ x ∈ s.deliveries,
    x.message.handler = -1 ∧ x.message.transaction = x.tid ∧ x.size = x.message.body.length

namespace Inv

theorem room (inv : Inv s queue early) : queue.length + early.length < maxTransactions := by
  have few := (List.subperm_of_subset inv.distinct fun tid mem => by
    obtain ⟨m, m_mem, rfl⟩ := List.mem_map.mp mem
    exact inv.requested m m_mem).length_le
  simp only [inside, List.length_map, List.length_append] at few
  have := inv.few
  omega

theorem held_distinct (inv : Inv s queue early) : (transactions (queue ++ early)).Nodup := by
  have := inv.distinct
  rw [inside, List.map_append, List.map_map] at this
  exact (List.nodup_append.mp this).2.1

theorem again (inv : Inv s queue early) {d : Dispatcher} {count : Nat} (waiting : s.waiting = some (tid, count))
    (holds : d.Holds queue' early' d.pmsg.toList) (orderly : Orderly d.channels)
    (same : (inside d.channels queue' early').Perm (inside s.dispatcher.channels queue early))
    (other : tid ∉ transactions (queue' ++ early')) :
    Inv { s with dispatcher := d, waiting := some (tid, queue'.length) } queue' early' where
  holds := holds
  orderly := orderly
  fresh := inv.fresh
  few := inv.few
  distinct := (same.map _).nodup_iff.mpr inv.distinct
  requested := fun m mem => inv.requested m (same.mem_iff.mp mem)
  idle := fun none => by cases none
  busy := fun tid' count' is => by
    obtain ⟨rfl, rfl⟩ := Prod.mk.inj (Option.some.inj is)
    exact ⟨(inv.busy _ _ waiting).1, rfl, other⟩
  account := (List.Perm.append_left _ same).trans inv.account
  matched := inv.matched

theorem returns (inv : Inv s queue early) {d : Dispatcher} {p : Nat}
    (holds : d.Holds [] early' (p :: d.pmsg.toList)) (orderly : Orderly d.channels)
    (data : (d.pool.heap p).data = some m) (size : (d.pool.heap p).size = m.size) (response : m.handler = -1)
    (taken : (inside s.dispatcher.channels queue early).Perm (m :: inside d.channels [] early')) :
    ∃ t, s.returns d m.transaction p = some t ∧ Inv t [] early' ∧
      t.deliveries = s.deliveries ++ [{ tid := m.transaction, message := m, size := m.body.length }] := by
  obtain ⟨pending, delivered, held⟩ := holds.deliver data size response
  have distinct := (taken.map (·.transaction)).nodup_iff.mp inv.distinct
  rw [List.map_cons, List.nodup_cons] at distinct
  refine ⟨_, by rw [Requester.returns, delivered]; rfl, ?_, rfl⟩
  constructor
  · exact held
  · exact orderly
  · exact inv.fresh.erase _
  · exact Nat.lt_of_le_of_lt (List.length_erase_le ..) inv.few
  · exact distinct.2
  · intro x mem
    refine (List.mem_erase_of_ne fun same => distinct.1 ?_).mpr (inv.requested x (taken.mem_iff.mpr (List.mem_cons_of_mem _ mem)))
    exact same ▸ List.mem_map_of_mem mem
  · exact fun _ => rfl
  · exact fun _ _ is => by cases is
  · refine List.Perm.trans ?_ inv.account
    rw [List.map_append, List.append_assoc]
    exact List.Perm.append_left _ taken.symm
  · intro x mem
    rcases List.mem_append.mp mem with mem | mem
    · exact inv.matched x mem
    · rw [List.mem_singleton.mp mem]
      exact ⟨response, rfl, rfl⟩

end Inv

theorem inv_start {s : Requester} (init : s.Init) : Inv s [] [] := by
  obtain ⟨n, rfl⟩ := init
  have empty : responsesIn (List.replicate n { queue := [], closed := false }) = [] := by
    refine List.flatMap_eq_nil_iff.mpr fun c mem => ?_
    rw [List.eq_of_mem_replicate mem]
    rfl
  have nothing : inside (List.replicate n { queue := [], closed := false }) [] [] = [] := by
    rw [inside, empty]
    rfl
  refine ⟨Pending.holds_init, ?_, List.nodup_nil, Nat.zero_lt_succ _, ?_, ?_, fun _ => rfl, ?_, ?_, ?_⟩
  · intro c mem
    rw [List.eq_of_mem_replicate mem]
    exact ⟨rfl, fun _ mem => absurd mem List.not_mem_nil⟩
  · rw [start, nothing]
    exact List.nodup_nil
  · grind [start]
  · exact fun _ _ is => by cases is
  · rw [start, nothing]
    exact List.Perm.refl _
  · exact fun _ mem => absurd mem List.not_mem_nil

theorem orderly_modify {f : Inbox → Inbox} (orderly : Orderly chans) (j : Nat)
    (keeps : ∀ c, (f c).closed = c.closed ∧ ∀ m ∈ (f c).queue, m ∈ c.queue ∨ m.handler = -1 ∨ m.handler = -2) :
    Orderly (chans.modify j f) := by
  intro c mem
  obtain ⟨k, at_k⟩ := List.mem_iff_getElem?.mp mem
  rw [List.getElem?_modify] at at_k
  obtain ⟨c', at_k', is⟩ := Option.map_eq_some_iff.mp at_k
  obtain ⟨open_, kinds⟩ := orderly c' (List.mem_of_getElem? at_k')
  split at is
  · grind
  · exact is ▸ ⟨open_, kinds⟩

theorem orderly_tail (orderly : Orderly chans) (j : Nat) :
    Orderly (chans.modify j fun c => { c with queue := c.queue.tail }) :=
  orderly_modify orderly j fun _ => ⟨rfl, fun _ mem => .inl (List.mem_of_mem_tail mem)⟩

theorem poll_spec (inv : Inv s queue early) {count : Nat} (waiting : s.waiting = some (tid, count)) :
    (channelSelect s.dispatcher.channels s.dispatcher.pos = none ∧ ∃ t, s.step .poll = some t ∧ Inv t queue early ∧
      t.deliveries = s.deliveries) ∨
    ∃ j m d, Taken s.dispatcher d j m ∧ ∃ t, s.step .poll = some t ∧
      ((m.handler = -1 ∧ m.transaction = tid ∧ (∃ early', Inv t [] early') ∧
          t.deliveries = s.deliveries ++ [{ tid, message := m, size := m.body.length }]) ∨
        (¬(m.handler = -1 ∧ m.transaction = tid) ∧ (∃ queue' early', Inv t queue' early') ∧ t.dispatcher = d ∧
          (∃ count', t.waiting = some (tid, count')) ∧ t.deliveries = s.deliveries)) := by
  obtain ⟨-, rfl, other⟩ := inv.busy tid count waiting
  obtain ⟨nothing, e, waits, held, same⟩ | ⟨j, m, p, e, taken, kinds⟩ :=
    s.dispatcher.dispatchWaitForMessage_spec inv.holds inv.room inv.orderly inv.held_distinct tid
  · refine .inl ⟨nothing, _, ?_, inv.again waiting held (same ▸ inv.orderly) (same ▸ List.Perm.refl _) other,
      rfl⟩
    simp only [step, waiting, waits, Option.bind_eq_bind, Option.bind_some]
  · obtain ⟨c, rest, at_j, head⟩ := taken.queue
    have orderly : Orderly e.channels := taken.channels ▸ orderly_tail inv.orderly j
    have left := responsesIn_take at_j head
    rw [← taken.channels] at left
    refine .inr ⟨j, m, e, taken, ?_⟩
    obtain ⟨response, own, waits, held, data, size⟩ | ⟨response, foreign, waits, held⟩ | ⟨notification, waits, held⟩ := kinds
    · have all : [m].filter (·.isResponse) = [m] := by simp [DispatchMessage.isResponse, response]
      rw [all] at left
      have perm : (inside s.dispatcher.channels queue early).Perm (m :: inside e.channels [] (early ++ queue)) := by
        refine (List.Perm.append left (List.perm_append_comm.map Prod.snd)).trans ?_
        exact List.Perm.refl _
      obtain ⟨t, returned, inv', deliveries⟩ := inv.returns (by rw [taken.pmsg]; exact held) orderly data size response perm
      rw [own] at returned deliveries
      refine ⟨t, ?_, .inl ⟨response, own, ⟨_, inv'⟩, deliveries⟩⟩
      simp only [step, waiting, waits, Option.bind_eq_bind, Option.bind_some, returned]
    · have all : [m].filter (·.isResponse) = [m] := by simp [DispatchMessage.isResponse, response]
      rw [all] at left
      have perm : (inside e.channels (queue ++ [(p, m)]) early).Perm (inside s.dispatcher.channels queue early) := by
        grind [inside]
      have other' : tid ∉ transactions (queue ++ [(p, m)] ++ early) := by grind [transactions]
      have inv' := inv.again waiting (d := e) (by rw [taken.pmsg]; exact held) orderly perm other'
      refine ⟨_, ?_, .inr ⟨fun both => foreign both.2, ⟨_, _, inv'⟩, rfl, ⟨_, rfl⟩, rfl⟩⟩
      simp only [step, waiting, waits, Option.bind_eq_bind, Option.bind_some, List.length_append, List.length_singleton]
    · have nothing : [m].filter (·.isResponse) = [] := by simp [DispatchMessage.isResponse, notification]
      rw [nothing, List.nil_append] at left
      have inv' := inv.again waiting (d := e) (by rw [taken.pmsg]; exact held) orderly (left.symm.append_right _) other
      have not_response : ¬(m.handler = -1 ∧ m.transaction = tid) := by
        rw [notification]
        exact fun both => absurd both.1 (by decide)
      refine ⟨_, ?_, .inr ⟨not_response, ⟨_, _, inv'⟩, rfl, ⟨_, rfl⟩, rfl⟩⟩
      simp only [step, waiting, waits, Option.bind_eq_bind, Option.bind_some]

theorem step_inv (inv : Inv s queue early) (a : RequesterStep) (allowed : s.Allowed a) :
    ∃ t, s.step a = some t ∧ (∃ queue' early', Inv t queue' early') ∧ s.deliveries <+: t.deliveries := by
  cases a with
  | listen =>
    refine ⟨_, rfl, ⟨queue, early, ?_⟩, List.prefix_rfl⟩
    have same : inside (s.dispatcher.channels ++ [{ queue := [], closed := false }]) queue early =
        inside s.dispatcher.channels queue early := by
      simp only [inside, responsesIn, List.flatMap_append, List.flatMap_cons, List.flatMap_nil, List.filter_nil, List.append_nil]
    refine ⟨inv.holds, ?_, inv.fresh, inv.few, same ▸ inv.distinct, ?_, inv.idle, inv.busy, same ▸ inv.account, inv.matched⟩
    · intro c mem
      rcases List.mem_append.mp mem with mem | mem
      · exact inv.orderly c mem
      · grind
    · exact fun m mem => inv.requested m (same ▸ mem)
  | request tid =>
    obtain ⟨idle, fresh, few⟩ := allowed
    refine ⟨_, rfl, ⟨queue, early, ?_⟩, List.prefix_rfl⟩
    refine ⟨inv.holds, inv.orderly, List.nodup_cons.mpr ⟨fresh, inv.fresh⟩, few, inv.distinct, ?_, inv.idle, ?_, inv.account,
      inv.matched⟩
    · exact fun m mem => List.mem_cons_of_mem _ (inv.requested m mem)
    · grind
  | arrive chan m =>
    obtain ⟨chan_lt, kind⟩ := allowed
    refine ⟨_, rfl, ⟨queue, early, ?_⟩, List.prefix_rfl⟩
    have orderly := orderly_modify inv.orderly chan (f := fun c => { c with queue := c.queue ++ [m] }) fun c =>
      ⟨rfl, fun m' mem => (List.mem_append.mp mem).imp_right fun mem => by
        rw [List.mem_singleton.mp mem]
        exact kind.elim .inr fun response => .inl response.1⟩
    have perm : (inside (s.dispatcher.channels.modify chan fun c => { c with queue := c.queue ++ [m] }) queue early).Perm
        ([m].filter (·.isResponse) ++ inside s.dispatcher.channels queue early) := by
      rw [inside, inside, ← List.append_assoc]
      exact (responsesIn_arrive chan_lt).append_right _
    rcases kind with notification | ⟨response, requested, first⟩
    · have not_response : m.isResponse = false := by rw [DispatchMessage.isResponse, notification]; rfl
      rw [List.filter_cons_of_neg (by rw [not_response]; decide), List.filter_nil, List.nil_append] at perm
      refine ⟨inv.holds, orderly, inv.fresh, inv.few, (perm.map _).nodup_iff.mpr inv.distinct,
        fun m' mem => inv.requested m' (perm.mem_iff.mp mem), inv.idle, inv.busy, ?_, inv.matched⟩
      rw [if_neg (by rw [not_response]; decide)]
      exact (List.Perm.append_left _ perm).trans inv.account
    · have is_response : m.isResponse = true := by rw [DispatchMessage.isResponse, response]; rfl
      rw [List.filter_cons_of_pos is_response, List.filter_nil, List.singleton_append] at perm
      rw [((arrived_perm inv.holds).map _).mem_iff] at first
      refine ⟨inv.holds, orderly, inv.fresh, inv.few, ?_, ?_, inv.idle, inv.busy, ?_, inv.matched⟩
      · refine (perm.map _).nodup_iff.mpr ?_
        rw [List.map_cons, List.nodup_cons]
        exact ⟨first, inv.distinct⟩
      · intro m' mem
        rcases List.mem_cons.mp (perm.mem_iff.mp mem) with rfl | mem
        · exact requested
        · exact inv.requested m' mem
      · rw [if_pos is_response]
        refine (List.Perm.append_left _ perm).trans (List.perm_middle.trans ?_)
        exact (inv.account.cons m).trans (List.perm_append_singleton ..).symm
  | receive tid =>
    obtain ⟨idle, requested⟩ := allowed
    have empty := inv.idle idle
    subst empty
    by_cases here : tid ∈ transactions early
    · have room : early.length < maxTransactions := by have := inv.room; rw [List.length_nil] at this; omega
      obtain ⟨x, rest, d, perm, rfl, found, pool, held⟩ := inv.holds.checkMap_some room here
      obtain ⟨data, size, response⟩ := inv.holds.stored x (perm.mem_iff.mpr (List.mem_cons_self ..))
      have taken : (inside s.dispatcher.channels [] early).Perm (x.2 :: inside s.dispatcher.channels [] rest) := by
        grind [inside]
      obtain ⟨t, returned, inv', deliveries⟩ := inv.returns (d := { s.dispatcher with toPending := d }) held inv.orderly
        (by rw [pool]; exact data) (by rw [pool]; exact size) response taken
      refine ⟨t, ?_, ⟨_, _, inv'⟩, deliveries ▸ List.prefix_append ..⟩
      simp only [step, found, returned]
    · have stepped : s.step (.receive tid) = some { s with waiting := some (tid, 0) } := by
        simp only [step, inv.holds.checkMap_none here]
      refine ⟨_, stepped, ⟨[], early, ?_⟩, List.prefix_rfl⟩
      refine ⟨inv.holds, inv.orderly, inv.fresh, inv.few, inv.distinct, inv.requested, fun _ => rfl, ?_, inv.account, inv.matched⟩
      intro tid' count is
      obtain ⟨rfl, rfl⟩ := Prod.mk.inj (Option.some.inj is)
      exact ⟨requested, rfl, here⟩
  | poll =>
    obtain ⟨⟨tid, count⟩, waiting⟩ := Option.ne_none_iff_exists'.mp allowed
    obtain ⟨-, t, stepped, inv', deliveries⟩ | ⟨j, m, d, -, t, stepped, ⟨-, -, ⟨early', inv'⟩, deliveries⟩ | ⟨-, held, -, -, deliveries⟩⟩ :=
      poll_spec inv waiting
    · exact ⟨t, stepped, ⟨_, _, inv'⟩, deliveries ▸ List.prefix_rfl⟩
    · exact ⟨t, stepped, ⟨_, _, inv'⟩, deliveries ▸ List.prefix_append ..⟩
    · exact ⟨t, stepped, held, deliveries ▸ List.prefix_rfl⟩

theorem run_deliveries {as : List RequesterStep} (inv : Inv s queue early) (guarded : Guarded Allowed step s as)
    (ran : run step s as = some t) : s.deliveries <+: t.deliveries := by
  induction as generalizing s queue early with
  | nil => exact Option.some.inj ran ▸ List.prefix_rfl
  | cons a as ih =>
    obtain ⟨u, stepped, ⟨_, _, inv'⟩, more⟩ := step_inv inv a guarded.1
    rw [run, stepped, Option.bind_some] at ran
    exact more.trans (ih inv' (guarded.2 u stepped) ran)

def polls (as : List RequesterStep) : Nat := as.countP fun
  | .poll => true
  | _ => false

theorem getElem?_arrive {k : Nat} {c : Inbox} {l : List DispatchMessage} (chan : Nat)
    (m : DispatchMessage) (at_k : chans[k]? = some c) (starts : l <+: c.queue) :
    ∃ c', (chans.modify chan fun c => { c with queue := c.queue ++ [m] })[k]? = some c' ∧ l <+: c'.queue := by
  rw [List.getElem?_modify, at_k]
  refine ⟨_, rfl, ?_⟩
  split
  · exact starts.trans (List.prefix_append ..)
  · exact starts

/-- A response that has arrived is returned within the polls that clear the messages before it, since a poll
    either takes one of them or brings the turn of their channel nearer. -/
theorem returned_within {as : List RequesterStep} (inv : Inv s queue early) {count k : Nat}
    (waiting : s.waiting = some (tid, count)) {c : Inbox} {before : List DispatchMessage}
    (at_k : s.dispatcher.channels[k]? = some c) (starts : before ++ [m] <+: c.queue)
    (response : m.handler = -1) (own : m.transaction = tid)
    (guarded : Guarded Allowed step s as) (ran : run step s as = some t)
    (enough : before.length * s.dispatcher.channels.length +
      turn s.dispatcher.channels.length (selectStart s.dispatcher.channels.length s.dispatcher.pos) k < polls as) :
    s.deliveries ++ [{ tid, message := m, size := m.body.length }] <+: t.deliveries := by
  induction as generalizing s queue early count c before with
  | nil => exact absurd enough (Nat.not_lt_zero _)
  | cons a as ih =>
    obtain ⟨allowed, rest⟩ := guarded
    have k_lt := (List.getElem?_eq_some_iff.mp at_k).1
    cases a with
    | listen => cases waiting.symm.trans allowed
    | request => cases waiting.symm.trans allowed.1
    | receive => cases waiting.symm.trans allowed.1
    | arrive chan m' =>
      obtain ⟨u, stepped, ⟨_, _, inv'⟩, -⟩ := step_inv inv _ allowed
      rw [run, stepped, Option.bind_some] at ran
      have rest := rest u stepped
      obtain rfl := Option.some.inj stepped
      obtain ⟨c', at_k', starts'⟩ := getElem?_arrive chan m' at_k starts
      have later := ih inv' waiting at_k' starts' rest ran (by rw [List.length_modify]; exact enough)
      exact later
    | poll =>
      have one_more : polls (.poll :: as) = polls as + 1 := List.countP_cons_of_pos rfl
      rw [one_more] at enough
      obtain ⟨more, queue_eq⟩ := starts
      have ready : c.receive ≠ none := by grind [Inbox.receive]
      obtain ⟨nothing, -⟩ | ⟨j, m', d, taken, u, stepped, kinds⟩ := poll_spec inv waiting
      · exact absurd (channelSelect_none nothing (List.mem_of_getElem? at_k)) ready
      · rw [run, stepped, Option.bind_some] at ran
        obtain ⟨c', rest', at_j, head⟩ := taken.queue
        obtain ⟨response', own', ⟨_, inv'⟩, deliveries⟩ | ⟨foreign, ⟨_, _, inv'⟩, rfl, ⟨count', waiting'⟩, deliveries⟩ := kinds
        · have is : m' = m := by
            have mem' : m' ∈ responsesIn s.dispatcher.channels :=
              mem_responsesIn at_j (head ▸ List.mem_cons_self ..) response'
            have mem : m ∈ responsesIn s.dispatcher.channels :=
              mem_responsesIn at_k (by simp [← queue_eq]) response
            exact List.inj_on_of_nodup_map inv.distinct (List.mem_append_left _ mem') (List.mem_append_left _ mem)
              (own'.trans own.symm)
          rw [is] at deliveries
          exact deliveries ▸ run_deliveries inv' (rest u stepped) ran
        · rw [← deliveries]
          have j_lt := (List.getElem?_eq_some_iff.mp at_j).1
          have length : u.dispatcher.channels.length = s.dispatcher.channels.length := by
            rw [taken.channels, List.length_modify]
          by_cases same : j = k
          · -- a message before the response has been taken
            subst same
            obtain rfl : c = c' := Option.some.inj (at_k.symm.trans at_j)
            have at_j' : u.dispatcher.channels[j]? = some { c with queue := c.queue.tail } := by
              rw [taken.channels, List.getElem?_modify, at_k]
              exact congrArg some (if_pos rfl)
            cases before with
            | nil => grind
            | cons first before =>
              have starts' : before ++ [m] <+: c.queue.tail := ⟨more, by rw [← queue_eq]; rfl⟩
              refine ih inv' waiting' at_j' starts' (rest u stepped) ran ?_
              rw [length, taken.pos]
              have next := turn_lt j_lt (selectStart_le s.dispatcher.channels.length j)
              rw [List.length_cons, Nat.succ_mul] at enough
              omega
          · -- another channel had its turn
            have at_k' : u.dispatcher.channels[k]? = some c := by
              rw [taken.channels, List.getElem?_modify, at_k]
              exact congrArg some (if_neg same)
            refine ih inv' waiting' at_k' ⟨more, queue_eq⟩ (rest u stepped) ran ?_
            rw [length, taken.pos]
            have first := (channelSelect_some taken.selected).2 k c at_k ready
            have nearer := turn_after k_lt j_lt (selectStart_le ..) same first
            omega

theorem reach_inv (reached : Reach Init Allowed step s) : ∃ queue early, Inv s queue early := by
  induction reached with
  | init init => exact ⟨[], [], inv_start init⟩
  | step a _ allowed stepped ih =>
    obtain ⟨queue, early, inv⟩ := ih
    obtain ⟨t', stepped', inv', -⟩ := step_inv inv a allowed
    exact Option.some.inj (stepped'.symm.trans stepped) ▸ inv'

/-- **Response matching**: along every run in which fewer than `MAX_TRANSACTIONS` requests with distinct
    transactions are outstanding, no assertion fails; every call has returned the response that carries its
    transaction; what has arrived has been returned or is still inside, each response once; a call whose
    response has arrived returns it after a bounded number of polls, whatever arrives meanwhile; and when no
    request is outstanding, the queue and the map are empty and the pool has all its messages but the one that
    the next poll fills. -/
theorem responses_matched (reached : Reach Init Allowed step s) :
    (∀ a, s.Allowed a → ∃ t, s.step a = some t) ∧
    (∀ x ∈ s.deliveries, x.message.handler = -1 ∧ x.message.transaction = x.tid ∧ x.size = x.message.body.length) ∧
    (s.deliveries.map (·.message) ++ s.dispatcher.arrived).Perm s.responses ∧
    (∀ tid count m, s.waiting = some (tid, count) → m ∈ s.dispatcher.arrived → m.transaction = tid →
      ∃ bound, ∀ as t, Guarded Allowed step s as → run step s as = some t → bound ≤ polls as →
        s.deliveries ++ [{ tid, message := m, size := m.body.length }] <+: t.deliveries) ∧
    (s.outstanding = [] → s.dispatcher.arrived = [] ∧ s.dispatcher.responses.size = 0 ∧
      s.dispatcher.responseMap.size = 0 ∧
      s.dispatcher.pmsg.toList.length + s.dispatcher.pool.freeList.length = maxTransactions) := by
  obtain ⟨queue, early, inv⟩ := reach_inv reached
  have arrived := arrived_perm inv.holds
  refine ⟨fun a allowed => ?_, inv.matched, (List.Perm.append_left _ arrived).trans inv.account, ?_, fun done => ?_⟩
  · obtain ⟨t, stepped, -⟩ := step_inv inv a allowed
    exact ⟨t, stepped⟩
  · intro tid count m waiting mem own
    -- the queue and the map hold no response of the running call
    rcases List.mem_append.mp (arrived.mem_iff.mp mem) with mem | mem
    · obtain ⟨c, c_mem, m_mem⟩ := List.mem_flatMap.mp mem
      obtain ⟨m_mem, response⟩ := List.mem_filter.mp m_mem
      obtain ⟨k, at_k⟩ := List.mem_iff_getElem?.mp c_mem
      obtain ⟨before, after, split⟩ := List.append_of_mem m_mem
      have starts : before ++ [m] <+: c.queue := ⟨after, by rw [split, List.append_assoc]; rfl⟩
      exact ⟨_, fun as t guarded ran enough =>
        returned_within inv waiting at_k starts (eq_of_beq response) own guarded ran (Nat.lt_of_succ_le enough)⟩
    · obtain ⟨x, x_mem, rfl⟩ := List.mem_map.mp mem
      exact absurd (List.mem_map.mpr ⟨x, x_mem, own⟩) (inv.busy tid count waiting).2.2
  · have empty : inside s.dispatcher.channels queue early = [] :=
      List.eq_nil_iff_forall_not_mem.mpr fun m mem => by
        have := inv.requested m mem
        rw [done] at this
        exact absurd this List.not_mem_nil
    obtain ⟨-, held⟩ := List.append_eq_nil_iff.mp empty
    obtain ⟨rfl, rfl⟩ := List.append_eq_nil_iff.mp (List.map_eq_nil_iff.mp held)
    have length := inv.holds.length
    rw [List.length_nil, Nat.zero_add] at length
    exact ⟨(empty ▸ arrived).eq_nil, inv.holds.size_responses, inv.holds.size_responseMap, length⟩

def reordered : List RequesterStep :=
  [.request 7, .request 8, .receive 8, .arrive 0 { handler := -1, transaction := 7, body := [1] },
    .arrive 1 { handler := -2, transaction := -1, body := [2] }, .poll, .poll, .poll,
    .arrive 1 { handler := -1, transaction := 8, body := [3, 4] }, .poll, .receive 7]

theorem reordered_matched :
    ∃ s, run step (start (List.replicate 2 { queue := [], closed := false })) reordered = some s ∧
      s.deliveries.map (·.tid) = [8, 7] ∧ s.dispatcher.arrived = [] := by
  obtain ⟨s, ran⟩ : ∃ s, run step (start (List.replicate 2 { queue := [], closed := false })) reordered = some s :=
    Option.isSome_iff_exists.mp (by decide +kernel)
  have guarded : Guarded Allowed step (start (List.replicate 2 { queue := [], closed := false })) reordered :=
    guarded_of_check (fun _ _ => of_decide_eq_true) _ (by decide +kernel)
  have reached : Reach Init Allowed step s := (Reach.init ⟨2, rfl⟩).of_guarded guarded ran
  have final : (run step (start (List.replicate 2 { queue := [], closed := false })) reordered).map
      (fun s => (s.deliveries.map (·.tid), s.outstanding)) = some ([8, 7], []) := by decide +kernel
  rw [ran, Option.map_some, Option.some.injEq, Prod.mk.injEq] at final
  exact ⟨s, ran, final.1, ((responses_matched reached).2.2.2.2 final.2).1⟩

end Requester
end Faux
