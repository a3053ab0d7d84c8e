import Faux.Dispatch.Records
import Faux.Lib.Except

/-! # The records of the dispatcher are conserved

Every step moves one record from one place to another, except that a request without a handler is taken from its queue and
put nowhere. -/

namespace Faux
open Function Lib

theorem DispatchThread.isIdle_iff {t : DispatchThread} : t.isIdle = true ↔ t = .idle := by
  rcases t with ⟨_ | _, _ | _ | _ | _ | _⟩ <;> simp [isIdle, idle]

namespace Receiving

/-- The thread has seen other responses or has a message in its hands. -/
def Engaged (r : Receiving) : Prop := 0 < r.others ∨ r.hand ≠ none

def Awake (r : Receiving) : Prop := ∀ tid, r ≠ .sleeping tid

theorem not_engaged {r : Receiving} (others : r.others = 0) (hand : r.hand = none) : ¬r.Engaged := by
  simp [Engaged, others, hand]

end Receiving

/-- The records there hold a message that is being processed. -/
def RecordPlace.Busy : RecordPlace → Prop
  | .freeList | .pollSlot => False
  | _ => True

namespace RecordDispatcher
variable {d d' : RecordDispatcher} {i j : Nat} {place a b : RecordPlace} {record msg : Nat} {r : Receiving}
  {received : Option Received} {tid : Int} {chan : Option Nat} {ready : Bool}

theorem isFree_iff : d.isFree = true ↔ d.polled = none ∧ d.inside = none := by simp [isFree]

theorem hasTurn_iff : d.hasTurn i = true ↔ d.polled = none ∧ (d.inside = none ∨ d.inside = some i) := by simp [hasTurn]

theorem hasTurn_of_isFree (turn : d.isFree = true) : d.hasTurn i = true := by
  obtain ⟨polled, inside⟩ := isFree_iff.mp turn
  exact hasTurn_iff.mpr ⟨polled, .inl inside⟩

@[grind =] theorem threads_setThread {t : DispatchThread} : (d.setThread i t).threads j = if j = i then t else d.threads j :=
  update_apply ..

@[grind =] theorem threads_setReceiving : (d.setReceiving i r).threads j =
    if j = i then { request := (d.threads i).request, receiving := r } else d.threads j := update_apply ..

theorem inUse_iff : d.InUse record ↔ ∃ place, place.Busy ∧ record ∈ d.recordsAt place := by
  refine exists_congr fun place => ?_
  cases place <;> simp [RecordPlace.Busy]

theorem receiver_of_hand {hand : Option Nat} (isHand : (d.threads i).receiving.hand = hand) :
    d.recordsAt (.receiver i) = hand.toList := by rw [recordsAt, isHand]

/-! ### The invariant -/

structure Records (d : RecordDispatcher) : Prop where
  placed : Placed d.recordsAt (· < maxTransactions)
  stored : ∀ place record, place.Busy → record ∈ d.recordsAt place → ∃ hdr, (d.pool.heap record).data = some hdr

structure Asleep (d : RecordDispatcher) : Prop where
  asleep : ∀ e ∈ d.sleepers.toList, (d.threads e.2).receiving = .sleeping e.1
  once : (d.sleepers.toList.map Prod.snd).Nodup
  stopped : d.running = false → d.requests.size = 0 ∧ d.sleepers.size = 0

/-- With other responses seen no thread sleeps, no request is pending and the others are in the queue; with a message polled
    there is room for a request. -/
structure Fits (d : RecordDispatcher) (r : Receiving) : Prop where
  calm : 0 < r.others → d.sleepers.size = 0 ∧ d.requests.size = 0 ∧ r.others ≤ d.responses.size
  room : ∀ tid otherResponseCount pmsg, r = .polled tid otherResponseCount pmsg → d.requests.size < maxPendingRequests

/-- A receiver that has seen other responses or has a message in its hands has not yielded since. -/
structure Order (d : RecordDispatcher) : Prop extends Asleep d where
  engaged : ∀ i, (d.threads i).receiving.Engaged → d.inside = some i ∧ d.Fits (d.threads i).receiving
  turns : d.polled ≠ none → d.inside = none ∧ d.requests.size < maxPendingRequests

structure Inv (d : RecordDispatcher) : Prop where
  records : d.Records
  order : d.Order

namespace Records

theorem same (h : d.Records) (places : ∀ place, d'.recordsAt place = d.recordsAt place)
    (heap : d'.pool.heap = d.pool.heap) : d'.Records where
  placed := by rw [funext places]; exact h.placed
  stored place record busy mem := by
    rw [heap]
    exact h.stored place record busy (places place ▸ mem)

/-- A record that is moved out of a busy place keeps its contents. -/
theorem move (h : d.Records) (busy : a.Busy) (ne : a ≠ b) (source : (d.recordsAt a).Perm (record :: d'.recordsAt a))
    (target : (d'.recordsAt b).Perm (record :: d.recordsAt b))
    (others : ∀ place, place ≠ a → place ≠ b → d'.recordsAt place = d.recordsAt place)
    (heap : d'.pool.heap = d.pool.heap) : d'.Records where
  placed := Moved.placed ⟨ne, source, target, others⟩ h.placed
  stored place other busy' mem := by
    have m : Moved d.recordsAt d'.recordsAt record a b := ⟨ne, source, target, others⟩
    rw [heap]
    rcases m.mem_back mem with there | ⟨rfl, -⟩
    · exact h.stored place other busy' there
    · exact h.stored a other busy m.mem_source

end Records

namespace Order

theorem quiet (h : d.Order) (inside : d.inside = none) : ¬(d.threads i).receiving.Engaged := fun engaged => by
  simp [(h.engaged i engaged).1] at inside

theorem others_quiet (h : d.Order) (turn : d.hasTurn i = true) (ne : j ≠ i) : ¬(d.threads j).receiving.Engaged := by
  rcases (hasTurn_iff.mp turn).2 with inside | inside
  · exact h.quiet inside
  · exact fun engaged => ne (Option.some.inj ((h.engaged j engaged).1.symm.trans inside))

end Order

namespace Asleep

theorem not_mem (h : d.Asleep) (awake : (d.threads i).receiving.Awake) : ∀ e ∈ d.sleepers.toList, e.2 ≠ i := by
  rintro e mem rfl
  exact awake e.1 (h.asleep e mem)

theorem awake (h : d.Asleep) (awake : (d.threads i).receiving.Awake) (threads : ∀ j ≠ i, d'.threads j = d.threads j)
    (sleepers : d'.sleepers = d.sleepers) (stopped : d'.running = false → d'.requests.size = 0 ∧ d'.sleepers.size = 0) :
    d'.Asleep where
  asleep e mem := by
    rw [sleepers] at mem
    rw [threads e.2 (h.not_mem awake e mem)]
    exact h.asleep e mem
  once := sleepers ▸ h.once
  stopped := stopped

/-- A thread goes to sleep. The full map drops the entry. -/
theorem sleep (h : d.Asleep) (awake : (d.threads i).receiving.Awake) (running : d.running = true) :
    { d.setReceiving i (.sleeping tid) with sleepers := d.sleepers.insert tid i, inside := none }.Asleep := by
  have elsewhere := h.not_mem awake
  have inserted : (d.sleepers.insert tid i).toList = d.sleepers.toList ++ [(tid, i)] ∨
      d.sleepers.insert tid i = d.sleepers := by
    by_cases room : d.sleepers.size < maxTransactions
    · exact .inl (CircularQueue.toList_insert room)
    · grind [CircularQueue.insert, CircularQueue.push]
  have kept : ∀ e ∈ d.sleepers.toList, ((d.setReceiving i (.sleeping tid)).threads e.2).receiving = .sleeping e.1 := by
    intro e mem
    rw [threads_setReceiving, if_neg (elsewhere e mem)]
    exact h.asleep e mem
  refine ⟨fun e mem => ?_, ?_, fun stopped => absurd (running.symm.trans stopped) (by decide)⟩
  · grind
  · show ((d.sleepers.insert tid i).toList.map Prod.snd).Nodup
    rcases inserted with list | same
    · rw [list, List.map_append, List.map_singleton]
      refine List.nodup_append.mpr ⟨h.once, List.nodup_singleton _, fun x mem y here same => ?_⟩
      obtain ⟨e, held, rfl⟩ := List.mem_map.mp mem
      exact elsewhere e held (same.trans (List.mem_singleton.mp here))
    · rw [same]
      exact h.once

end Asleep

namespace Order

/-- A step of the main loop, which is taken when no thread is inside `dispatchReceive`. -/
theorem free (h : d.Order) (inside : d.inside = none) (threads : d'.threads = d.threads) (sleepers : d'.sleepers = d.sleepers)
    (stopped : d'.running = false → d'.requests.size = 0 ∧ d'.sleepers.size = 0)
    (turns : d'.polled ≠ none → d'.inside = none ∧ d'.requests.size < maxPendingRequests) : d'.Order where
  asleep := by rw [threads, sleepers]; exact h.asleep
  once := sleepers ▸ h.once
  stopped := stopped
  engaged i engaged := absurd (threads ▸ engaged) (h.quiet inside)
  turns := turns

/-- A step of the thread that has the turn: what it becomes has to fit. -/
theorem update (h : d.Order) (turn : d.hasTurn i = true) (awake : (d.threads i).receiving.Awake)
    (threads : ∀ j ≠ i, d'.threads j = d.threads j) (sleepers : d'.sleepers = d.sleepers) (polled : d'.polled = d.polled)
    (stopped : d'.running = false → d'.requests.size = 0 ∧ d'.sleepers.size = 0)
    (fits : (d'.threads i).receiving.Engaged → d'.inside = some i ∧ d'.Fits (d'.threads i).receiving) : d'.Order where
  toAsleep := h.toAsleep.awake awake threads sleepers stopped
  engaged j engaged := by
    by_cases same : j = i
    · rw [same] at engaged ⊢
      exact fits engaged
    · exact absurd (threads j same ▸ engaged) (h.others_quiet turn same)
  turns some := absurd (polled.trans (hasTurn_iff.mp turn).1) some

theorem receives (h : d.Order) (turn : d.hasTurn i = true) (awake : (d.threads i).receiving.Awake)
    (threads : d'.threads = (d.setReceiving i r).threads)
    (rest : d'.sleepers = d.sleepers ∧ d'.running = d.running ∧ d'.requests = d.requests ∧ d'.polled = d.polled)
    (fits : r.Engaged → d'.inside = some i ∧ d'.Fits r) : d'.Order := by
  obtain ⟨sleepers, running, requests, polled⟩ := rest
  have becomes : (d'.threads i).receiving = r := by rw [threads, threads_setReceiving, if_pos rfl]
  refine h.update turn awake (fun j ne => by rw [threads, threads_setReceiving, if_neg ne]) sleepers polled ?_ (becomes ▸ fits)
  rw [running, requests, sleepers]
  exact h.stopped

end Order

/-- The end of a pass: a thread that goes on with others in the queue has no sleeper and no request beside it. -/
theorem nextPass_order {otherResponseCount : Nat} (h : d.Asleep)
    (awake : (d.threads i).receiving.Awake) (quiet : ∀ j ≠ i, ¬(d.threads j).receiving.Engaged)
    (polled : d.polled = none) (goesOn : d.dispatchShouldYield ready = false → otherResponseCount ≤ d.responses.size) :
    (d.nextPass i tid otherResponseCount ready).Order := by
  have elsewhere : ∀ {r : Receiving} {j : Nat}, j ≠ i → ¬((d.setReceiving i r).threads j).receiving.Engaged := fun ne => by
    rw [threads_setReceiving, if_neg ne]
    exact quiet _ ne
  have here : ∀ {r : Receiving}, ((d.setReceiving i r).threads i).receiving = r := by simp [threads_setReceiving]
  rw [nextPass]
  cases yields : d.dispatchShouldYield ready with
  | true =>
    rw [if_pos rfl]
    have running : d.running = true := by
      rw [dispatchShouldYield, Bool.and_eq_true] at yields
      exact yields.1
    refine ⟨h.sleep awake running, fun j engaged => absurd engaged ?_, fun some => absurd polled some⟩
    by_cases same : j = i
    · rw [same]
      exact fun engaged => Receiving.not_engaged rfl rfl (here ▸ engaged)
    · exact elsewhere same
  | false =>
    rw [if_neg Bool.false_ne_true]
    have queued := goesOn yields
    refine ⟨h.awake awake (fun j ne => by simp [threads_setReceiving, ne]) rfl h.stopped, fun j engaged => ?_,
      fun some => absurd polled some⟩
    by_cases same : j = i
    · subst same
      refine ⟨rfl, here.symm ▸ ⟨fun pos => ?_, fun _ _ _ => Receiving.noConfusion⟩⟩
      have calm : d.sleepers.size = 0 ∧ d.requests.size = 0 := by
        have some : 0 < d.responses.size := Nat.lt_of_lt_of_le pos queued
        cases running : d.running with
        | false => exact (h.stopped running).symm
        | true =>
          simp only [dispatchShouldYield, running, Bool.true_and, Bool.or_eq_false_iff, Bool.and_eq_false_iff,
            decide_eq_false_iff_not] at yields
          omega
      exact ⟨calm.1, calm.2, queued⟩
    · exact absurd engaged (elsewhere same)

theorem inv_init (running : Bool) : (init running).Inv := by
  have free : (init running).recordsAt .freeList = (List.range maxTransactions).reverse := by
    simp only [recordsAt, init, Pending.init, Pool.init]
  refine ⟨⟨.of_all free fun place ne => ?_, fun place record busy mem => ?_⟩, ?_⟩
  · cases place with
    | freeList => exact absurd rfl ne
    | _ => rfl
  · cases place with
    | freeList => exact busy.elim
    | _ => exact absurd mem List.not_mem_nil
  · exact ⟨⟨fun e mem => absurd mem List.not_mem_nil, List.nodup_nil, fun _ => ⟨rfl, rfl⟩⟩,
      fun i engaged => absurd engaged (Receiving.not_engaged rfl rfl), fun some => absurd rfl some⟩

/-! ### Polling -/

section
variable {pool : Lib.Pool PendingMessage} {content : PendingMessage}

theorem nextMessage_cases (next : d.nextMessage = some (record, pool)) :
    d.pmsg = some record ∧ pool = d.pool ∨
    d.pmsg = none ∧ d.pool.freeList = record :: pool.freeList ∧ pool.heap = d.pool.heap := by
  unfold nextMessage Pool.allocate at next
  grind

theorem nextMessage_none (next : d.nextMessage = none) : d.pmsg = none ∧ d.pool.freeList = [] := by
  unfold nextMessage Pool.allocate at next
  grind

theorem Records.next_not_busy (h : d.Records) (next : d.nextMessage = some (record, pool)) (busy : place.Busy) :
    record ∉ d.recordsAt place := by
  rcases nextMessage_cases next with ⟨slot, -⟩ | ⟨-, free, -⟩
  · refine (h.placed.only (a := .pollSlot) (Option.mem_toList.mpr slot)).2 place ?_
    rintro rfl
    exact busy
  · refine (h.placed.only (a := .freeList) (by simp [recordsAt, free])).2 place ?_
    rintro rfl
    exact busy

/-- A message is stored in the record that was not in use: the record stays in the slot, or is in the hands of who has polled. -/
theorem Records.filled (h : d.Records) (next : d.nextMessage = some (record, pool))
    (placed : Placed d'.recordsAt (· < maxTransactions))
    (back : ∀ place other, place.Busy → other ∈ d'.recordsAt place →
      other = record ∧ (∃ hdr, content.data = some hdr) ∨ other ∈ d.recordsAt place)
    (heap : d'.pool = pool.set record content) : d'.Records where
  placed := placed
  stored place other busy mem := by
    have same : pool.heap = d.pool.heap := by
      rcases nextMessage_cases next with ⟨-, rfl⟩ | ⟨-, -, same⟩
      · rfl
      · exact same
    have stores : d'.pool.heap = update d.pool.heap record content := by
      rw [heap, ← same]
      rfl
    rw [stores]
    rcases back place other busy mem with ⟨rfl, data⟩ | before
    · rw [update_self]
      exact data
    · have ne : other ≠ record := fun same => h.next_not_busy next busy (same ▸ before)
      rw [update_of_ne ne]
      exact h.stored place other busy before

theorem Records.poll_none (h : d.Records) (next : d.nextMessage = some (record, pool)) :
    { d with pool := pool.set record content, pmsg := some record }.Records := by
  refine h.filled next ?_ (fun place other busy mem => .inr ?_) rfl
  · rcases nextMessage_cases next with ⟨slot, rfl⟩ | ⟨slot, free, -⟩
    · have same : { d with pool := d.pool.set record content, pmsg := some record }.recordsAt = d.recordsAt := by
        funext place
        cases place <;> simp [recordsAt, slot, Pool.set]
      rw [same]
      exact h.placed
    · refine h.placed.move record .freeList .pollSlot (by simp) (free ▸ List.Perm.refl _) (by simp [recordsAt, slot]) fun place => ?_
      cases place <;> simp [recordsAt]
  · cases place with
    | freeList => exact busy.elim
    | pollSlot => exact busy.elim
    | _ => exact mem

theorem Records.poll_some (h : d.Records) (next : d.nextMessage = some (record, pool)) (data : ∃ hdr, content.data = some hdr)
    (busy : b.Busy) (heap : d'.pool = pool.set record content) (slot : d'.pmsg = none) (empty : d.recordsAt b = [])
    (there : d'.recordsAt b = [record])
    (others : ∀ place, place ≠ b → place.Busy → d'.recordsAt place = d.recordsAt place) : d'.Records := by
  have target : (d'.recordsAt b).Perm (record :: d.recordsAt b) := by rw [there, empty]
  have free' : d'.recordsAt .freeList = pool.freeList := by simp [recordsAt, heap, Pool.set]
  have slot' : d'.recordsAt .pollSlot = [] := by simp [recordsAt, slot]
  refine h.filled next ?_ (fun place other busy' mem => ?_) heap
  · rcases nextMessage_cases next with ⟨held, rfl⟩ | ⟨held, free, -⟩
    · refine h.placed.move record .pollSlot b (by rintro rfl; exact busy) (by simp [recordsAt, slot, held]) target fun place => ?_
      cases place <;> grind [RecordPlace.Busy, recordsAt]
    · refine h.placed.move record .freeList b (by rintro rfl; exact busy) (by rw [free', ← free]; rfl) target fun place => ?_
      cases place <;> grind [RecordPlace.Busy, recordsAt]
  · by_cases isHand : place = b
    · grind
    · exact .inr (others place isHand busy' ▸ mem)

end

theorem dispatchPoll_cases {pmsg : Option Nat}
    (polled : d.dispatchPoll received chan = .ok (d', pmsg)) :
    ∃ record pool content, d.nextMessage = some (record, pool) ∧
      (pmsg = none ∧ d' = { d with pool := pool.set record content, pmsg := some record } ∨
        pmsg = some record ∧ (∃ hdr, content.data = some hdr) ∧
          d' = { d with pool := pool.set record content, pmsg := none }) := by
  unfold dispatchPoll at polled
  cases next : d.nextMessage with
  | none => simp [next] at polled
  | some found => grind

theorem poll_inv (h : d.Inv) (stepped : d.poll received chan = .ok d') :
    d'.Inv := by
  unfold poll at stepped
  split_ifs at stepped with turn
  · obtain ⟨free, room⟩ := (Bool.and_eq_true ..).mp turn
    obtain ⟨polled, inside⟩ := isFree_iff.mp free
    obtain ⟨⟨after, pmsg⟩, gives, ended⟩ := bind_eq_ok.mp stepped
    cases ended
    have turns : { after with polled := pmsg }.Records → { after with polled := pmsg }.Inv := fun records => by
      refine ⟨records, ?_⟩
      obtain ⟨record, pool, content, next, ⟨rfl, rfl⟩ | ⟨rfl, data, rfl⟩⟩ := dispatchPoll_cases gives
      all_goals exact h.order.free inside rfl rfl h.order.stopped fun _ => ⟨inside, of_decide_eq_true room⟩
    apply turns
    obtain ⟨record, pool, content, next, ⟨rfl, rfl⟩ | ⟨rfl, data, rfl⟩⟩ := dispatchPoll_cases gives
    · refine (h.records.poll_none next).same (fun place => ?_) rfl
      cases place <;> simp [recordsAt, polled]
    · refine h.records.poll_some (b := .polled) next data trivial rfl rfl (by simp [recordsAt, polled]) rfl fun place ne busy => ?_
      cases place <;> grind [RecordPlace.Busy, recordsAt]
  · cases stepped
    exact h

/-! ### Processing a message -/

theorem dispatchProcessMessage_cases {processed : Bool} (room : d.requests.size < maxPendingRequests)
    (ended : d.dispatchProcessMessage msg = .ok (d', processed)) :
    (∃ responses, responses.toList = d.responses.toList ++ [msg] ∧ processed = false ∧ d' = { d with responses }) ∨
    processed = true ∧ d' = { d with pool := d.pool.free msg } ∨
    d.running = true ∧ ∃ requests, requests.toList = d.requests.toList ++ [msg] ∧ processed = false ∧ d' = { d with requests } := by
  unfold dispatchProcessMessage at ended
  split at ended
  · cases ended
  · split_ifs at ended with response notification running
    · split at ended
      · cases ended
      · next responses pushed =>
        cases ended
        exact .inl ⟨_, CircularQueue.toList_of_push pushed, rfl, rfl⟩
    · cases ended
      exact .inr (.inl ⟨rfl, rfl⟩)
    · cases ended
      obtain ⟨q, pushed, list⟩ := CircularQueue.toList_push (a := msg) room
      exact .inr (.inr ⟨running, q, list, rfl, by rw [pushed, Option.getD_some]⟩)

/-- A message that is processed goes from the hands of who has it to a queue or, a notification, to the free list. -/
theorem Records.processed {processed : Bool} {after : RecordDispatcher} (h : d.Records)
    (room : d.requests.size < maxPendingRequests) (ended : d.dispatchProcessMessage msg = .ok (after, processed))
    (busy : a.Busy) (notRequests : a ≠ .requests) (notResponses : a ≠ .responses) (held : d.recordsAt a = [msg])
    (gone : d'.recordsAt a = []) (pool : d'.pool = after.pool)
    (others : ∀ place, place ≠ a → d'.recordsAt place = after.recordsAt place) : d'.Records := by
  have source : (d.recordsAt a).Perm (msg :: d'.recordsAt a) := by rw [held, gone]
  have notFree : a ≠ .freeList := by rintro rfl; exact busy
  obtain ⟨responses, list, -, rfl⟩ | ⟨-, rfl⟩ | ⟨-, requests, list, -, rfl⟩ := dispatchProcessMessage_cases room ended
  · refine h.move busy notResponses source ?_ (fun place ne ne' => ?_) (by rw [pool])
    · rw [others _ notResponses.symm]
      simp [recordsAt, list, List.perm_append_singleton]
    · rw [others place ne]
      cases place <;> simp_all [recordsAt]
  · refine h.move busy notFree source ?_ (fun place ne ne' => ?_) (by rw [pool]; rfl)
    · rw [others _ notFree.symm]
      simp [recordsAt, Pool.free]
    · rw [others place ne]
      cases place <;> simp_all [recordsAt]
  · refine h.move busy notRequests source ?_ (fun place ne ne' => ?_) (by rw [pool])
    · rw [others _ notRequests.symm]
      simp [recordsAt, list, List.perm_append_singleton]
    · rw [others place ne]
      cases place <;> simp_all [recordsAt]

theorem process_inv (h : d.Inv) (stepped : d.process = .ok d') : d'.Inv := by
  unfold process at stepped
  split at stepped
  · cases stepped
    exact h
  · next msg polled =>
    obtain ⟨⟨after, processed⟩, ended, returned⟩ := bind_eq_ok.mp stepped
    cases returned
    obtain ⟨inside, room⟩ := h.order.turns (by simp [polled])
    refine ⟨h.records.processed (a := .polled) room ended trivial (by simp) (by simp) (by simp [recordsAt, polled]) rfl rfl
      fun place other => by cases place <;> simp_all [recordsAt], ?_⟩
    obtain ⟨responses, -, -, rfl⟩ | ⟨-, rfl⟩ | ⟨running, requests, -, -, rfl⟩ := dispatchProcessMessage_cases room ended
    · exact h.order.free inside rfl rfl h.order.stopped fun some => absurd rfl some
    · exact h.order.free inside rfl rfl h.order.stopped fun some => absurd rfl some
    · exact h.order.free inside rfl rfl (fun stopped => absurd (running.symm.trans stopped) (by decide))
        fun some => absurd rfl some

/-! ### Receiving -/

section
variable {tid : Int} {otherResponseCount : Nat} {ready : Bool}

theorem recordsAt_nextPass (ne : place ≠ .receiver i) :
    (d.nextPass i tid otherResponseCount ready).recordsAt place = d.recordsAt place := by
  unfold nextPass
  split_ifs
  all_goals cases place <;> grind [recordsAt, setReceiving, setThread]

theorem receiver_nextPass : (d.nextPass i tid otherResponseCount ready).recordsAt (.receiver i) = [] := by
  unfold nextPass
  split_ifs
  all_goals simp [recordsAt, threads_setReceiving, Receiving.hand]

theorem pool_nextPass : (d.nextPass i tid otherResponseCount ready).pool = d.pool := by
  rw [nextPass]
  split_ifs <;> rfl

end

/-- What the turn of a receiver says about it. -/
theorem Order.turn (h : d.Order) (turn : d.hasTurn i = true) (receiving : (d.threads i).receiving = r) :
    d.polled = none ∧ (∀ j ≠ i, ¬(d.threads j).receiving.Engaged) ∧ (r.Engaged → d.inside = some i ∧ d.Fits r) :=
  ⟨(hasTurn_iff.mp turn).1, fun _ ne => h.others_quiet turn ne, fun engaged => receiving ▸ h.engaged i (receiving ▸ engaged)⟩

theorem examine_inv (h : d.Inv) (stepped : d.examine i ready = .ok d') : d'.Inv := by
  unfold examine at stepped
  split at stepped
  · next tid otherResponseCount pmsg turn receiving =>
    have hand : d.recordsAt (.receiver i) = [pmsg] := receiver_of_hand (by rw [receiving])
    have awake : (d.threads i).receiving.Awake := by simp [Receiving.Awake, receiving]
    obtain ⟨polled, quiet, engaged⟩ := h.order.turn turn receiving
    obtain ⟨inside, fits⟩ := engaged (.inr (Option.some_ne_none _))
    have room := fits.room _ _ _ rfl
    split at stepped
    · cases stepped
    · split_ifs at stepped with isOwn
      · cases stepped
        refine ⟨h.records.same (fun place => ?_) rfl, ?_⟩
        · cases place <;> grind [recordsAt, setReceiving, setThread, Receiving.hand]
        · exact h.order.receives turn awake rfl ⟨rfl, rfl, rfl, rfl⟩ fun _ => ⟨inside, fits.calm, fun _ _ _ => Receiving.noConfusion⟩
      · obtain ⟨⟨after, processed⟩, ended, returned⟩ := bind_eq_ok.mp stepped
        cases returned
        refine ⟨h.records.processed (a := .receiver i) room ended trivial (by simp) (by simp) hand
          receiver_nextPass pool_nextPass fun place other => recordsAt_nextPass other, ?_⟩
        have seen : otherResponseCount ≤ d.responses.size := by
          by_cases pos : 0 < otherResponseCount
          · exact (fits.calm pos).2.2
          · omega
        obtain ⟨responses, list, rfl, rfl⟩ | ⟨rfl, rfl⟩ | ⟨running, requests, list, rfl, rfl⟩ := dispatchProcessMessage_cases room ended
        · have grown : responses.size = d.responses.size + 1 := by simpa using congrArg List.length list
          exact nextPass_order (h.order.awake awake (fun _ _ => rfl) rfl h.order.stopped) awake quiet polled
            fun _ => grown ▸ Nat.succ_le_succ seen
        · exact nextPass_order (h.order.awake awake (fun _ _ => rfl) rfl h.order.stopped) awake quiet polled fun _ => seen
        · have pending : requests.size = d.requests.size + 1 := by simpa using congrArg List.length list
          have asleep : { d with requests }.Asleep :=
            h.order.awake awake (fun _ _ => rfl) rfl fun stopped => absurd (running.symm.trans stopped) (by decide)
          -- the request makes it yield
          refine nextPass_order asleep awake quiet polled fun goesOn => ?_
          simp [dispatchShouldYield, running, pending] at goesOn
  · cases stepped
    exact h

theorem wait_inv (h : d.Inv)
    (stepped : d.wait i received chan ready = .ok d') : d'.Inv := by
  unfold wait at stepped
  split at stepped
  · next tid otherResponseCount turn receiving =>
    have awake : (d.threads i).receiving.Awake := by simp [Receiving.Awake, receiving]
    obtain ⟨polled, quiet, engaged⟩ := h.order.turn turn receiving
    have empty : d.recordsAt (.receiver i) = [] := receiver_of_hand (by rw [receiving])
    have calm : 0 < otherResponseCount → d.sleepers.size = 0 ∧ d.requests.size = 0 ∧ otherResponseCount ≤ d.responses.size :=
      fun pos => (engaged (.inl pos)).2.calm pos
    split_ifs at stepped with room
    · obtain ⟨⟨after, pmsg⟩, gives, ended⟩ := bind_eq_ok.mp stepped
      obtain ⟨record, pool, content, next, ⟨rfl, rfl⟩ | ⟨rfl, data, rfl⟩⟩ := dispatchPoll_cases gives
      · cases ended
        refine ⟨(h.records.poll_none next).same (fun place => ?_) (by rw [pool_nextPass]), ?_⟩
        · by_cases isHand : place = .receiver i
          · rw [isHand, receiver_nextPass]
            exact empty.symm
          · exact recordsAt_nextPass isHand
        · refine nextPass_order (h.order.awake awake (fun _ _ => rfl) rfl h.order.stopped) awake quiet polled fun _ => ?_
          by_cases pos : 0 < otherResponseCount
          · exact (calm pos).2.2
          · omega
      · cases ended
        refine ⟨h.records.poll_some (b := .receiver i) next data trivial rfl rfl empty ?_ fun place ne busy => ?_, ?_⟩
        · simp [recordsAt, threads_setReceiving, Receiving.hand]
        · cases place <;> grind [RecordPlace.Busy, recordsAt, setReceiving, setThread]
        · exact h.order.receives turn awake rfl ⟨rfl, rfl, rfl, rfl⟩ fun _ => ⟨rfl, calm, fun _ _ _ _ => room⟩
    · cases stepped
      refine ⟨h.records.same (fun place => by cases place <;> rfl) rfl, ?_⟩
      refine h.order.update turn awake (fun _ _ => rfl) rfl rfl h.order.stopped fun isEngaged => ?_
      rw [receiving] at isEngaged
      rcases isEngaged with pos | some
      · exact absurd (calm pos).2.1 fun none => room (none ▸ by decide)
      · exact absurd rfl some
  · cases stepped
    exact h

theorem returns_inv (h : d.Inv) : (d.returns i).Inv := by
  unfold returns
  split
  · next msg turn thread =>
    refine ⟨h.records.move (a := .handler i) (b := .freeList) trivial (by simp) ?_ (List.Perm.refl _) ?_ rfl, ?_⟩
    · simp [recordsAt, thread, threads_setThread, DispatchThread.idle]
    · intro place ne ne'
      cases place <;> grind [recordsAt, setThread, DispatchThread.idle]
    · refine h.order.update (i := i) (hasTurn_of_isFree turn) (by simp [Receiving.Awake, thread])
        (fun j ne => by simp [threads_setThread, ne]) rfl rfl h.order.stopped fun engaged => absurd engaged ?_
      rw [threads_setThread, if_pos rfl]
      exact Receiving.not_engaged rfl rfl
  · exact h

theorem receive_inv (h : d.Inv) : (d.receive i tid).Inv := by
  unfold receive
  split
  · next turn receiving =>
    have awake : (d.threads i).receiving.Awake := by simp [Receiving.Awake, receiving]
    dsimp only
    split_ifs with found
    · obtain ⟨-, removed⟩ := CircularQueue.find_ne_end found
      refine ⟨h.records.move (a := .responseMap) (b := .receiver i) trivial (by simp) (removed.map Prod.snd).symm ?_ ?_ rfl, ?_⟩
      · simp [recordsAt, threads_setReceiving, receiving, Receiving.hand]
      · intro place ne ne'
        cases place <;> grind [recordsAt, setReceiving, setThread]
      · exact h.order.receives (hasTurn_of_isFree turn) awake rfl ⟨rfl, rfl, rfl, rfl⟩ fun _ =>
          ⟨rfl, fun pos => absurd pos (Nat.lt_irrefl 0), fun _ _ _ => Receiving.noConfusion⟩
    · refine ⟨h.records.same (fun place => ?_) rfl, ?_⟩
      · cases place <;> grind [recordsAt, setReceiving, setThread, Receiving.hand]
      · exact h.order.receives (hasTurn_of_isFree turn) awake rfl ⟨rfl, rfl, rfl, rfl⟩ fun engaged =>
          absurd engaged (Receiving.not_engaged rfl rfl)
  · exact h

theorem deliver_inv (h : d.Inv) (stepped : d.deliver i = .ok d') : d'.Inv := by
  unfold deliver at stepped
  split at stepped
  · next tid pmsg turn receiving =>
    have awake : (d.threads i).receiving.Awake := by simp [Receiving.Awake, receiving]
    split at stepped
    · cases stepped
    · split_ifs at stepped
      cases stepped
      refine ⟨h.records.move (a := .receiver i) (b := .freeList) trivial (by simp) ?_ (List.Perm.refl _) ?_ rfl, ?_⟩
      · simp [recordsAt, threads_setReceiving, receiving, Receiving.hand]
      · intro place ne ne'
        cases place <;> grind [recordsAt, setReceiving, setThread]
      · exact h.order.receives turn awake rfl ⟨rfl, rfl, rfl, rfl⟩ fun engaged => absurd engaged (Receiving.not_engaged rfl rfl)
  · cases stepped
    exact h

/-! ### The main loop -/

theorem dispatchProcessRequests_cases (ended : d.dispatchProcessRequests i = .ok d') :
    ∃ requests hdr, d.requests.toList = d.requests.front :: requests.toList ∧
      (d.pool.heap d.requests.front).data = some hdr ∧
      (hdr.handler ∈ d.handlers ∧ d' = { d with requests }.setThread i { request := some d.requests.front, receiving := .outside } ∨
        hdr.handler ∉ d.handlers ∧ d' = { d with requests }) := by
  unfold dispatchProcessRequests at ended
  dsimp only at ended
  split at ended
  · next requests hdr popped data =>
    refine ⟨requests, hdr, CircularQueue.toList_of_pop popped, data, ?_⟩
    split_ifs at ended with registered
    · grind
    · grind
  · cases ended

theorem dispatchProcessResponses_cases (ended : d.dispatchProcessResponses i = .ok d') :
    ∃ responses hdr, d.responses.toList = d.responses.front :: responses.toList ∧
      (d.pool.heap d.responses.front).data = some hdr ∧
      (d.sleepers.find hdr.transaction ≠ d.sleepers.endIndex ∧
          (let sleeper := (d.sleepers.data (d.sleepers.find hdr.transaction)).2
          let s := { d with responses, sleepers := d.sleepers.rm (d.sleepers.find hdr.transaction) }.setThread i .idle
          d' = { s.setReceiving sleeper ((s.threads sleeper).receiving.wake d.responses.front) with inside := some sleeper }) ∨
        d.sleepers.find hdr.transaction = d.sleepers.endIndex ∧
          d' = { d with responses, responseMap := d.responseMap.insert hdr.transaction d.responses.front }) := by
  unfold dispatchProcessResponses at ended
  dsimp only at ended
  split at ended
  · next responses hdr popped data =>
    refine ⟨responses, hdr, CircularQueue.toList_of_pop popped, data, ?_⟩
    split_ifs at ended with found early
    · cases ended
      exact .inl ⟨found, rfl⟩
    · cases ended
      exact .inr ⟨not_not.mp found, rfl⟩
  · cases ended

/-- A response that nobody sleeps on is kept under its transaction, where there is room: it was itself in a queue. -/
theorem Records.mapped {responses : CircularQueue Nat maxTransactions} (h : d.Records)
    (list : d.responses.toList = d.responses.front :: responses.toList) :
    { d with responses, responseMap := d.responseMap.insert tid d.responses.front }.Records := by
  have queued : d.responses.front ∈ d.recordsAt .responses := by simp [recordsAt, list]
  have room : d.responseMap.size < maxTransactions := by
    simpa [recordsAt] using h.placed.length_lt queued (b := .responseMap) (by simp)
  refine h.move (a := .responses) (b := .responseMap) trivial (by simp) (List.Perm.of_eq list) ?_ (fun place ne ne' => ?_) rfl
  · simp [recordsAt, CircularQueue.toList_insert room, List.perm_append_singleton]
  · cases place <;> simp_all [recordsAt]

/-- The main loop switches to the thread that sleeps on the response. -/
theorem wake_inv {responses : CircularQueue Nat maxTransactions} (h : d.Inv) (turn : d.isFree = true)
    (list : d.responses.toList = d.responses.front :: responses.toList) (found : d.sleepers.find tid ≠ d.sleepers.endIndex) :
    { d with
      responses
      sleepers := d.sleepers.rm (d.sleepers.find tid)
      threads := (d.setReceiving (d.sleepers.data (d.sleepers.find tid)).2 (.found tid 0 d.responses.front)).threads
      inside := some (d.sleepers.data (d.sleepers.find tid)).2 }.Inv := by
  obtain ⟨polled, inside⟩ := isFree_iff.mp turn
  obtain ⟨key, removed⟩ := CircularQueue.find_ne_end found
  generalize entry : d.sleepers.data (d.sleepers.find tid) = e at key removed
  have asleep := h.order.asleep e (removed.mem_iff.mp (List.mem_cons_self ..))
  obtain ⟨notMem, nodup⟩ := List.nodup_cons.mp ((removed.map Prod.snd).nodup_iff.mpr h.order.once)
  generalize d.sleepers.rm (d.sleepers.find tid) = rest at removed notMem nodup
  refine ⟨h.records.move (a := .responses) (b := .receiver e.2) trivial (by simp) (List.Perm.of_eq list) ?_ ?_ rfl, ?_⟩
  · simp [recordsAt, threads_setReceiving, asleep, Receiving.hand]
  · intro place ne ne'
    cases place <;> grind [recordsAt, setReceiving, setThread]
  · refine ⟨⟨fun other mem => ?_, nodup, fun stopped => ?_⟩, fun j engaged => ?_, fun some => absurd polled some⟩
    · have ne : other.2 ≠ e.2 := fun same => notMem (same ▸ List.mem_map_of_mem mem)
      show ((d.setReceiving e.2 _).threads other.2).receiving = _
      rw [threads_setReceiving, if_neg ne]
      exact h.order.asleep other (removed.mem_iff.mp (List.mem_cons_of_mem _ mem))
    · have none := (h.order.stopped stopped).2
      rw [← CircularQueue.length_toList, ← removed.length_eq] at none
      exact absurd none (Nat.succ_ne_zero _)
    · change ((d.setReceiving e.2 _).threads j).receiving.Engaged at engaged
      by_cases same : j = e.2
      · refine ⟨congrArg some same.symm, ?_⟩
        show Fits _ ((d.setReceiving e.2 _).threads j).receiving
        rw [threads_setReceiving, if_pos same]
        exact ⟨fun pos => absurd pos (Nat.lt_irrefl 0), fun _ _ _ => Receiving.noConfusion⟩
      · rw [threads_setReceiving, if_neg same] at engaged
        exact absurd engaged (h.order.quiet inside)

/-- A new thread handles the request. -/
theorem handler_inv {requests : CircularQueue Nat maxPendingRequests} (h : d.Inv) (turn : d.isFree = true)
    (idle : d.threads i = .idle) (list : d.requests.toList = d.requests.front :: requests.toList) :
    ({ d with requests }.setThread i { request := some d.requests.front, receiving := .outside }).Inv := by
  refine ⟨h.records.move (a := .requests) (b := .handler i) trivial (by simp) (List.Perm.of_eq list) ?_ ?_ rfl, ?_⟩
  · simp [recordsAt, threads_setThread, idle, DispatchThread.idle]
  · intro place ne ne'
    cases place <;> grind [recordsAt, setThread, DispatchThread.idle]
  · refine h.order.update (i := i) (hasTurn_of_isFree turn) (by simp [Receiving.Awake, idle, DispatchThread.idle])
      (fun j ne => by simp [threads_setThread, ne]) rfl rfl (fun stopped => ?_) fun engaged => absurd engaged ?_
    · have none := (h.order.stopped stopped).1
      rw [← CircularQueue.length_toList, list] at none
      exact absurd none (Nat.succ_ne_zero _)
    · rw [threads_setThread, if_pos rfl]
      exact Receiving.not_engaged rfl rfl

theorem main_inv (h : d.Inv) (handled : d.Handled (.main i)) (stepped : d.main i = .ok d') : d'.Inv := by
  unfold main at stepped
  split_ifs at stepped with turn pending waiting
  · obtain ⟨free, isIdle⟩ := (Bool.and_eq_true ..).mp turn
    obtain ⟨requests, hdr, list, data, ⟨-, rfl⟩ | ⟨unregistered, -⟩⟩ := dispatchProcessRequests_cases stepped
    · exact handler_inv h free (DispatchThread.isIdle_iff.mp isIdle) list
    · obtain ⟨hdr', same, registered⟩ := handled free isIdle pending
      cases Option.some.inj (data.symm.trans same)
      exact absurd registered unregistered
  · obtain ⟨free, isIdle⟩ := (Bool.and_eq_true ..).mp turn
    obtain ⟨polled, inside⟩ := isFree_iff.mp free
    obtain ⟨responses, hdr, list, data, ⟨found, rfl⟩ | ⟨-, rfl⟩⟩ := dispatchProcessResponses_cases stepped
    · obtain ⟨key, removed⟩ := CircularQueue.find_ne_end found
      have asleep := h.order.asleep _ (removed.mem_iff.mp (List.mem_cons_self ..))
      rw [key] at asleep
      -- the thread of the main loop that is destroyed has nothing in its hands
      have destroyed : update d.threads i .idle = d.threads := by
        rw [← DispatchThread.isIdle_iff.mp isIdle]
        exact update_eq_self ..
      have woken := wake_inv h free list found
      simp only [setThread, setReceiving, destroyed, asleep, Receiving.wake] at woken ⊢
      exact woken
    · exact ⟨h.records.mapped list, h.order.free inside rfl rfl h.order.stopped fun some => absurd polled some⟩
  · cases stepped
    exact h
  · cases stepped
    exact h

theorem Records.fewer {otherResponseCount pmsg : Nat} (h : d.Records)
    (receiving : (d.threads i).receiving = .found tid (otherResponseCount + 1) pmsg) :
    (d.setReceiving i (.found tid otherResponseCount pmsg)).Records := by
  refine h.same (fun place => ?_) rfl
  cases place <;> grind [recordsAt, setReceiving, setThread, Receiving.hand]

/-- The receiver that has seen other responses processes one: no thread sleeps on it. -/
theorem processOther_inv (h : d.Inv) (stepped : d.processOther i = .ok d') : d'.Inv := by
  unfold processOther at stepped
  split at stepped
  · next tid otherResponseCount pmsg turn receiving =>
    obtain ⟨polled, -, engaged⟩ := h.order.turn turn receiving
    obtain ⟨inside, fits⟩ := engaged (.inr (Option.some_ne_none _))
    obtain ⟨noSleeper, noRequest, queued⟩ := fits.calm (Nat.succ_pos _)
    obtain ⟨responses, hdr, list, data, ⟨found, -⟩ | ⟨-, rfl⟩⟩ := dispatchProcessResponses_cases stepped
    · refine absurd (CircularQueue.find_of_not_mem fun mem => ?_) found
      obtain ⟨e, held, -⟩ := List.mem_map.mp mem
      change e ∈ d.sleepers.toList at held
      rw [CircularQueue.toList_eq_nil_iff.mpr noSleeper] at held
      exact List.not_mem_nil held
    · refine ⟨(h.records.fewer receiving).mapped list, h.order.receives turn (by simp [Receiving.Awake, receiving]) rfl
        ⟨rfl, rfl, rfl, rfl⟩ fun _ => ⟨inside, fun _ => ⟨noSleeper, noRequest, ?_⟩, fun _ _ _ => Receiving.noConfusion⟩⟩
      have length := congrArg List.length list
      rw [CircularQueue.length_toList, List.length_cons, CircularQueue.length_toList] at length
      change d.responses.size = _ at length
      change otherResponseCount + 1 ≤ _ at queued
      change otherResponseCount ≤ responses.size
      omega
  · cases stepped
    exact h

/-! ### Runs -/

theorem Inv.handlers {handlers : List Int} (h : d.Inv) : { d with handlers }.Inv where
  records := h.records.same (fun place => by cases place <;> rfl) rfl
  order :=
    { asleep := h.order.asleep
      once := h.order.once
      stopped := h.order.stopped
      engaged := fun i engaged => by
        obtain ⟨inside, fits⟩ := h.order.engaged i engaged
        exact ⟨inside, fits.calm, fits.room⟩
      turns := h.order.turns }

theorem step_inv (d : RecordDispatcher) (e : RecordEvent) (d' : RecordDispatcher) (h : d.Inv) (handled : d.Handled e)
    (taken : d.next e = some d') : d'.Inv := by
  have stepped : d.step e = .ok d' := toOption_eq_some.mp taken
  cases e with
  | register type =>
    cases stepped
    exact h.handlers
  | unregister type =>
    cases stepped
    exact h.handlers
  | main thread => exact main_inv h handled stepped
  | poll received chan => exact poll_inv h stepped
  | process => exact process_inv h stepped
  | returns thread =>
    cases stepped
    exact returns_inv h
  | receive thread tid =>
    cases stepped
    exact receive_inv h
  | wait thread received chan ready => exact wait_inv h stepped
  | examine thread ready => exact examine_inv h stepped
  | others thread => exact processOther_inv h stepped
  | deliver thread => exact deliver_inv h stepped

/-! ### What is undefined -/

theorem Records.exhausted (h : d.Records) (none : d.nextMessage = none) : ∀ record < maxTransactions, d.InUse record := by
  intro record lt
  obtain ⟨slot, free⟩ := nextMessage_none none
  obtain ⟨place, mem⟩ := h.placed.somewhere lt
  refine inUse_iff.mpr ⟨place, ?_, mem⟩
  cases place <;> simp_all [recordsAt, RecordPlace.Busy]

theorem dispatchPoll_undefined {f : Fault}
    (failed : d.dispatchPoll received chan = .error f) : d.nextMessage = none := by
  unfold dispatchPoll at failed
  split at failed
  · assumption
  · rcases received with _ | m | _ <;> cases failed

theorem Records.process_defined (h : d.Records) (place : RecordPlace) (busy : place.Busy) (mem : msg ∈ d.recordsAt place) :
    d.dispatchProcessMessage msg ≠ .error .undefined := by
  obtain ⟨hdr, data⟩ := h.stored place msg busy mem
  unfold dispatchProcessMessage
  grind

theorem Records.front_requests (h : d.Records) (pending : 0 < d.requests.size) : ∃ requests hdr,
    d.requests.pop = some requests ∧ d.requests.front ∈ d.recordsAt .requests ∧
    (d.pool.heap d.requests.front).data = some hdr := by
  obtain ⟨requests, popped⟩ := CircularQueue.pop_of_pos pending
  have mem : d.requests.front ∈ d.recordsAt .requests := by simp [recordsAt, CircularQueue.toList_of_pop popped]
  obtain ⟨hdr, data⟩ := h.stored .requests _ trivial mem
  exact ⟨requests, hdr, popped, mem, data⟩

theorem Records.responses_defined (h : d.Records) (waiting : 0 < d.responses.size) :
    d.dispatchProcessResponses i ≠ .error .undefined := by
  obtain ⟨responses, popped⟩ := CircularQueue.pop_of_pos waiting
  have mem : d.responses.front ∈ d.recordsAt .responses := by simp [recordsAt, CircularQueue.toList_of_pop popped]
  obtain ⟨hdr, data⟩ := h.stored .responses _ trivial mem
  intro failed
  simp only [dispatchProcessResponses, popped, data] at failed
  split_ifs at failed
  cases failed

/-- An event is undefined only for want of a record. -/
theorem Inv.undefined (h : d.Inv) {e : RecordEvent} (failed : d.step e = .error .undefined) : d.nextMessage = none := by
  cases e with
  | register type => cases failed
  | unregister type => cases failed
  | returns thread => cases failed
  | receive thread tid => cases failed
  | main thread =>
    simp only [step, main] at failed
    split_ifs at failed with turn pending waiting
    · obtain ⟨requests, hdr, popped, -, data⟩ := h.records.front_requests pending
      simp only [dispatchProcessRequests, popped, data] at failed
      split_ifs at failed
    · exact absurd failed (h.records.responses_defined waiting)
  | poll received chan =>
    simp only [step, poll] at failed
    split_ifs at failed
    rcases bind_eq_error.mp failed with here | ⟨a, -, later⟩
    · exact dispatchPoll_undefined here
    · cases later
  | process =>
    simp only [step, process] at failed
    split at failed
    · cases failed
    · next msg polled =>
      rcases bind_eq_error.mp failed with here | ⟨a, -, later⟩
      · exact absurd here (h.records.process_defined .polled trivial (Option.mem_toList.mpr polled))
      · cases later
  | wait thread received chan ready =>
    simp only [step, wait] at failed
    split at failed
    · split_ifs at failed
      rcases bind_eq_error.mp failed with here | ⟨⟨after, pmsg⟩, -, later⟩
      · exact dispatchPoll_undefined here
      · cases pmsg <;> cases later
    · cases failed
  | examine thread ready =>
    simp only [step, examine] at failed
    split at failed
    · next tid otherResponseCount pmsg turn receiving =>
      have mem : pmsg ∈ d.recordsAt (.receiver thread) := by simp [recordsAt, receiving, Receiving.hand]
      obtain ⟨hdr, data⟩ := h.records.stored (.receiver thread) _ trivial mem
      simp only [data] at failed
      split_ifs at failed
      rcases bind_eq_error.mp failed with here | ⟨a, -, later⟩
      · exact absurd here (h.records.process_defined (.receiver thread) trivial mem)
      · cases later
    · cases failed
  | others thread =>
    simp only [step, processOther] at failed
    split at failed
    · next tid otherResponseCount pmsg turn receiving =>
      obtain ⟨-, fits⟩ := (h.order.turn turn receiving).2.2 (.inr (Option.some_ne_none _))
      have queued : 0 < d.responses.size := Nat.lt_of_lt_of_le (Nat.succ_pos _) (fits.calm (Nat.succ_pos _)).2.2
      exact absurd failed ((h.records.fewer receiving).responses_defined queued)
    · cases failed
  | deliver thread =>
    simp only [step, deliver] at failed
    split at failed
    · next tid pmsg turn receiving =>
      have mem : pmsg ∈ d.recordsAt (.receiver thread) := by simp [recordsAt, receiving, Receiving.hand]
      obtain ⟨hdr, data⟩ := h.records.stored (.receiver thread) _ trivial mem
      simp only [data] at failed
      split_ifs at failed
      cases failed
    · cases failed

theorem Inv.conserved (d : RecordDispatcher) (h : d.Inv) : d.Conserved :=
  ⟨h.records.placed, fun _ failed => h.records.exhausted (h.undefined failed)⟩

/-- The record of a request without a handler is nowhere afterwards. -/
theorem unhandled_lost (d : RecordDispatcher) (e : RecordEvent) (h : d.Inv) (unhandled : ¬d.Handled e) :
    ∃ d', d.next e = some d' ∧ ¬d'.Conserved := by
  cases e with
  | main thread =>
    simp only [Handled, not_forall] at unhandled
    obtain ⟨free, isIdle, pending, unregistered⟩ := unhandled
    obtain ⟨requests, hdr, popped, mem, data⟩ := h.records.front_requests pending
    have notMem : ¬d.handlers.contains hdr.handler = true := fun mem => unregistered ⟨hdr, data, List.contains_iff_mem.mp mem⟩
    refine ⟨{ d with requests }, ?_, fun conserved => ?_⟩
    · simp only [next, step, main, free, isIdle, Bool.and_self, if_true, pending, dispatchProcessRequests, popped, data, if_neg notMem]
      rfl
    · have here := h.records.placed.only mem
      obtain ⟨place, there⟩ := conserved.1.somewhere (h.records.placed.thing mem)
      by_cases isRequests : place = .requests
      · have twice := here.1
        rw [recordsAt, CircularQueue.toList_of_pop popped, List.count_cons_self] at twice
        rw [isRequests] at there
        have pos : 0 < requests.toList.count d.requests.front := List.count_pos_iff.mpr there
        omega
      · refine here.2 place isRequests ?_
        cases place with
        | requests => exact absurd rfl isRequests
        | _ => exact there
  | _ => exact absurd trivial unhandled

def unknownRequest : DispatchMessage := { handler := 7, transaction := 0, body := [] }

/-- The record of the first request is in the hands of no one when the main loop has found no handler. -/
theorem unknown_request_dropped {rest : List Nat} (pool : Lib.Pool PendingMessage) (list : pool.freeList = record :: rest) :
    ∃ heap requests, requests.toList = [] ∧
      run next { init true with pool } [.poll (some (.message unknownRequest)) (some 0), .process, .main 0] =
        some { init true with pool := { heap, freeList := rest }, requests } := by
  let content : PendingMessage := { data := some unknownRequest, size := unknownRequest.size, chan := some 0 }
  let heap := update pool.heap record content
  have data : (heap record).data = some unknownRequest := by grind
  let requests : CircularQueue Nat maxPendingRequests :=
    { start := 0, size := 1, data := update (fun _ => 0) 0 record, size_le := by decide }
  have polled : next { init true with pool } (.poll (some (.message unknownRequest)) (some 0)) =
      some { init true with pool := { heap, freeList := rest }, polled := some record } := by
    have next : ({ init true with pool } : RecordDispatcher).nextMessage = some (record, { pool with freeList := rest }) := by
      show pool.allocate = _
      rw [Pool.allocate, list]
    simp only [RecordDispatcher.next, step, poll, dispatchPoll, next]
    rfl
  have processed : next { init true with pool := { heap, freeList := rest }, polled := some record } .process =
      some { init true with pool := { heap, freeList := rest }, requests } := by
    simp only [next, step, process, dispatchProcessMessage, data]
    rfl
  have dropped : next { init true with pool := { heap, freeList := rest }, requests } (.main 0) =
      some { init true with pool := { heap, freeList := rest }, requests := { requests with start := 1, size := 0, size_le := by decide } } := by
    have front : requests.front = record := @update_self Nat (fun _ => Nat) _ 0 record fun _ => 0
    show (dispatchProcessRequests _ 0).toOption = _
    simp only [dispatchProcessRequests, front, data]
    rfl
  refine ⟨heap, { requests with start := 1, size := 0, size_le := by decide }, rfl, ?_⟩
  simp [run, polled, processed, dropped]

/-- Along a run of the dispatcher every record is in one place and the pool lacks a record only when all are in use, exactly when every
    request that is taken from the queue has a handler. -/
theorem records_conserved_iff (running : Bool) (events : List RecordEvent) :
    Throughout Conserved next (init running) events ↔ Guarded Handled next (init running) events :=
  throughout_iff_guarded Inv.conserved (fun d e d' h _ handled taken => step_inv d e d' h handled taken)
    (fun d e h _ unhandled => unhandled_lost d e h unhandled) (inv_init running) (guarded_true events _)

theorem unknown_request_leaks :
    ∃ d, run next (init true) [.poll (some (.message unknownRequest)) (some 0), .process, .main 0] = some d ∧
      d.isFree = true ∧ (∀ i, (d.threads i).isIdle = true) ∧ ∀ place, 1023 ∉ d.recordsAt place := by
  have first : ∀ {n m : Nat}, m = n + 1 → ∃ rest, (List.range m).reverse = n :: rest ∧ n ∉ rest := fun {n m} is =>
    ⟨(List.range n).reverse, by rw [is, List.range_succ, List.reverse_append, List.reverse_singleton, List.singleton_append],
      fun mem => Nat.lt_irrefl n (List.mem_range.mp (List.mem_reverse.mp mem))⟩
  obtain ⟨rest, list, notMem⟩ : ∃ rest, (List.range maxTransactions).reverse = 1023 :: rest ∧ 1023 ∉ rest := first rfl
  have free : (init true).pool.freeList = 1023 :: rest := by
    rw [← list]
    simp only [init, Pending.init, Pool.init]
  obtain ⟨heap, requests, none, ran⟩ := unknown_request_dropped (init true).pool free
  refine ⟨_, ran, rfl, fun _ => rfl, fun place mem => ?_⟩
  cases place with
  | freeList => exact notMem mem
  | requests =>
    change _ ∈ requests.toList at mem
    rw [none] at mem
    exact List.not_mem_nil mem
  | _ => exact List.not_mem_nil mem

end RecordDispatcher
end Faux
