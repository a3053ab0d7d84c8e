import Faux.Lib.Except
import Faux.Net.Socket

/-! What reads of a socket return, over whole runs. -/

namespace Faux
open Lib

namespace StreamSocket

/-- What was sent is what was returned, what is in the buffer and what has not been received. -/
structure Streams (s : StreamSocket) : Prop where
  bytes : s.sent.flatten = returned s.results ++ s.socket.buffer ++ s.queue.flatten
  /-- The close event is the last, and it is there until it has been received. -/
  queue : ∃ data, (∀ e ∈ data, e ≠ [] ∧ Fits e) ∧ s.queue = data ++ if s.closed = true ∧ s.socket.draining = false then [[]] else []
  drained : s.socket.draining = true → s.closed = true ∧ s.queue = [] ∧ s.reading = none
  counts : ∀ count blocking, s.reading = some (count, blocking) → 0 < count
  room : s.socket.buffer.length < socketBufferSize
  /-- Reads that returned 0 are the last ones. -/
  zeros : ∃ before n, s.results = before ++ List.replicate n (.bytes []) ∧ .bytes [] ∉ before ∧
    (0 < n → s.socket.draining = true ∧ s.socket.buffer = [])

section
variable {s t : StreamSocket} {socket : AppSocket} {queue : List DataEvent} {count : Nat} {blocking : Bool} {r : ReadResult}

theorem copyFromBuffer_spec (socket : AppSocket) (count : Nat) : ∃ data rest, socket.copyFromBuffer count = ({ socket with buffer := rest }, .bytes data) ∧
    socket.buffer = data ++ rest ∧ (0 < count → data = [] → socket.buffer = []) := by
  unfold AppSocket.copyFromBuffer
  split_ifs with whole
  · exact ⟨socket.buffer, [], rfl, (List.append_nil _).symm, fun _ none => none⟩
  · refine ⟨_, _, rfl, (List.take_append_drop count socket.buffer).symm, fun positive none => ?_⟩
    rcases List.take_eq_nil_iff.mp none with isZero | empty
    · omega
    · exact empty

theorem Streams.finish (h : Streams s) (bytes : s.socket.buffer ++ s.queue.flatten = r.data ++ socket.buffer ++ queue.flatten)
    (isQueue : ∃ data, (∀ e ∈ data, e ≠ [] ∧ Fits e) ∧ queue = data ++ if s.closed = true ∧ socket.draining = false then [[]] else [])
    (drained : socket.draining = true → s.closed = true ∧ queue = []) (room : socket.buffer.length < socketBufferSize)
    (zero : r = .bytes [] → socket.draining = true ∧ socket.buffer = [])
    (stays : s.socket.draining = true → s.socket.buffer = [] → r = .bytes []) : Streams (s.finish socket queue r) where
  bytes := by
    simp only [StreamSocket.finish, returned, List.flatMap_append, List.flatMap_cons, List.flatMap_nil, List.append_nil]
    rw [h.bytes, List.append_assoc, bytes, returned]
    simp
  queue := isQueue
  drained isDraining := ⟨(drained isDraining).1, (drained isDraining).2, rfl⟩
  counts _ _ reading := absurd reading (by simp [StreamSocket.finish])
  room
  zeros := by
    obtain ⟨before, n, isResults, notIn, last⟩ := h.zeros
    by_cases isZero : r = .bytes []
    · refine ⟨before, n + 1, ?_, notIn, fun _ => zero isZero⟩
      simp only [StreamSocket.finish, isResults, isZero, List.replicate_succ', List.append_assoc]
    · have none : n = 0 := by
        by_contra positive
        obtain ⟨draining, empty⟩ := last (Nat.pos_of_ne_zero positive)
        exact isZero (stays draining empty)
      subst none
      refine ⟨before ++ [r], 0, ?_, ?_, fun positive => absurd positive (Nat.lt_irrefl 0)⟩
      · simp [StreamSocket.finish, isResults]
      · grind

theorem Streams.copy (h : Streams s) {draining : Bool} (positive : 0 < count) (some : s.socket.buffer ≠ [])
    (isQueue : ∃ data, (∀ e ∈ data, e ≠ [] ∧ Fits e) ∧ queue = data ++ if s.closed = true ∧ draining = false then [[]] else [])
    (same : queue.flatten = s.queue.flatten) (drained : draining = true → s.closed = true ∧ queue = []) :
    Streams (s.finish (({ s.socket with draining }.copyFromBuffer count).1) queue ({ s.socket with draining }.copyFromBuffer count).2) := by
  obtain ⟨data, rest, copied, split, nothing⟩ := copyFromBuffer_spec { s.socket with draining } count
  have split : s.socket.buffer = data ++ rest := split
  have room := h.room
  rw [split, List.length_append] at room
  rw [copied]
  refine h.finish ?_ isQueue drained (by simp only; omega) ?_ fun _ empty => absurd empty some
  · rw [split, same]
    rfl
  · grind

theorem streams_start (start : Start s) : Streams s := by
  subst start
  exact ⟨rfl, ⟨[], by simp, rfl⟩, by simp, by simp, by decide, [], 0, rfl, List.not_mem_nil, fun positive => absurd positive (Nat.lt_irrefl 0)⟩

theorem Streams.begin (h : Streams s) (positive : 0 < count) : Streams (s.begin count blocking) := by
  unfold StreamSocket.begin
  split_ifs with draining empty
  · obtain ⟨closed, noEvents, -⟩ := h.drained draining
    have isEmpty := List.length_eq_zero_iff.mp empty
    exact h.finish (by rfl) h.queue (fun _ => ⟨closed, noEvents⟩) h.room (fun _ => ⟨draining, isEmpty⟩) fun _ _ => rfl
  · obtain ⟨closed, noEvents, -⟩ := h.drained draining
    exact h.copy positive (fun none => empty (List.length_eq_zero_iff.mpr none)) h.queue rfl fun _ => ⟨closed, noEvents⟩
  · refine ⟨h.bytes, h.queue, fun isDraining => absurd isDraining draining, ?_, h.room, h.zeros⟩
    rintro count' blocking' reading
    cases reading
    exact positive

theorem Streams.first (h : Streams s) {e : DataEvent} {rest : List DataEvent} (isQueue : s.queue = e :: rest) (isOpen : s.socket.draining = false) :
    (e ≠ [] ∧ Fits e ∧ ∃ data, (∀ e ∈ data, e ≠ [] ∧ Fits e) ∧ rest = data ++ if s.closed = true ∧ s.socket.draining = false then [[]] else []) ∨
      (e = [] ∧ rest = [] ∧ s.closed = true) := by
  obtain ⟨data, all, split⟩ := h.queue
  rw [isQueue] at split
  cases data with
  | nil => grind
  | cons first data => grind

/-- While there is room for 64K more, an event does not overflow the buffer: it is smaller than a message. -/
theorem room_of_fits {e : DataEvent} (fits : Fits e) (room : ¬socketBufferSize - s.socket.buffer.length < 65536) :
    s.socket.buffer.length + e.length < socketBufferSize := by
  have largest : sharedSize - cachelineSize = 65472 := rfl
  have size : socketBufferSize = 655360 := rfl
  unfold Fits at fits
  omega

def Continues (s : StreamSocket) : ReadPass → Prop
  | .returns socket queue r => Streams (s.finish socket queue r)
  | .again socket queue => Streams { s with socket, queue }
  | .waits => True

theorem Streams.pass (h : Streams s) (reading : s.reading = some (count, blocking)) :
    ∃ p, s.socket.pass s.queue count blocking = .ok p ∧ Continues s p := by
  have positive := h.counts count blocking reading
  have isOpen : s.socket.draining = false := by
    cases draining : s.socket.draining with
    | false => rfl
    | true =>
      rw [(h.drained draining).2.2] at reading
      cases reading
  have notDrained : s.socket.draining = true → s.closed = true ∧ s.queue = [] := fun draining => absurd (draining.symm.trans isOpen) (by decide)
  unfold AppSocket.pass
  by_cases full : s.socket.buffer.length ≥ count ∨ socketBufferSize - s.socket.buffer.length < 65536
  · rw [if_pos full]
    have some : s.socket.buffer ≠ [] := by
      have size : socketBufferSize = 655360 := rfl
      refine List.length_pos_iff.mp ?_
      omega
    exact ⟨_, rfl, h.copy positive some h.queue rfl notDrained⟩
  · rw [if_neg full]
    have room := (not_or.mp full).2
    cases isQueue : s.queue with
    | nil =>
      simp only
      split_ifs with waiting some
      · exact ⟨_, rfl, trivial⟩
      · have copied := h.copy positive (List.length_pos_iff.mp some) h.queue rfl notDrained
        rw [isQueue] at copied
        exact ⟨_, rfl, copied⟩
      · refine ⟨_, rfl, h.finish ?_ (isQueue ▸ h.queue) (isQueue ▸ notDrained) h.room (fun isZero => ReadResult.noConfusion isZero)
          fun draining => absurd (draining.symm.trans isOpen) (by decide)⟩
        rw [isQueue]
        rfl
    | cons e rest =>
      simp only
      rcases h.first isQueue isOpen with ⟨isData, fits, isRest⟩ | ⟨isClose, noRest, closed⟩
      · have positiveLength : ¬e.length = 0 := fun isZero => isData (List.length_eq_zero_iff.mp isZero)
        have fine := room_of_fits fits room
        rw [if_neg positiveLength, require, if_pos (decide_eq_true fine), ok_bind]
        refine ⟨_, rfl, ?_, isRest, fun draining => absurd (draining.symm.trans isOpen) (by decide), h.counts, ?_, ?_⟩
        · simp [h.bytes, isQueue]
        · rwa [List.length_append]
        · obtain ⟨before, n, isResults, notIn, last⟩ := h.zeros
          exact ⟨before, n, isResults, notIn, fun positive => absurd ((last positive).1.symm.trans isOpen) (by decide)⟩
      · subst isClose noRest
        have none : ∃ data : List DataEvent, (∀ e ∈ data, e ≠ [] ∧ Fits e) ∧ [] = data ++ if s.closed = true ∧ true = false then [[]] else [] :=
          ⟨[], fun _ mem => absurd mem List.not_mem_nil, by simp⟩
        simp only [List.length_nil, if_true]
        split_ifs with empty
        · have isEmpty := List.length_eq_zero_iff.mp empty
          refine ⟨_, rfl, h.finish ?_ none (fun _ => ⟨closed, rfl⟩) h.room (fun _ => ⟨rfl, isEmpty⟩) fun _ _ => rfl⟩
          rw [isQueue]
          rfl
        · have some : s.socket.buffer ≠ [] := fun isEmpty => empty (List.length_eq_zero_iff.mpr isEmpty)
          have same : ([] : List DataEvent).flatten = s.queue.flatten := by
            rw [isQueue]
            rfl
          exact ⟨_, rfl, h.copy positive some none same fun _ => ⟨closed, rfl⟩⟩

theorem Streams.of_open (h : Streams s) (isOpen : s.closed = false) : s.socket.draining = false ∧ ∀ e ∈ s.queue, e ≠ [] ∧ Fits e := by
  obtain ⟨data, all, split⟩ := h.queue
  rw [if_neg fun both => absurd (both.1.symm.trans isOpen) (by decide), List.append_nil] at split
  refine ⟨?_, split ▸ all⟩
  cases draining : s.socket.draining with
  | false => rfl
  | true => exact absurd ((h.drained draining).1.symm.trans isOpen) (by decide)

theorem streams_step {a : SocketAction} (h : Streams s) (stepped : step s a = some t) : Streams t := by
  cases a with
  | data e =>
    simp only [step] at stepped
    split_ifs at stepped with enabled
    obtain ⟨isData, fits, isOpen⟩ := enabled
    cases stepped
    obtain ⟨notDrained, all⟩ := h.of_open isOpen
    refine ⟨?_, ⟨s.queue ++ [e], ?_, ?_⟩, fun draining => absurd (draining.symm.trans notDrained) (by decide), h.counts, h.room, h.zeros⟩
    · simp [h.bytes]
    · grind
    · simp [isOpen]
  | close =>
    simp only [step] at stepped
    split_ifs at stepped with isOpen
    cases stepped
    obtain ⟨notDrained, all⟩ := h.of_open isOpen
    refine ⟨?_, ⟨s.queue, all, ?_⟩, fun draining => absurd (draining.symm.trans notDrained) (by decide), h.counts, h.room, h.zeros⟩
    · simp [h.bytes]
    · simp [notDrained]
  | read count blocking =>
    simp only [step] at stepped
    split_ifs at stepped with enabled
    cases stepped
    exact h.begin enabled.1
  | pass =>
    simp only [step] at stepped
    cases reading : s.reading with
    | none =>
      rw [reading] at stepped
      cases stepped
    | some r =>
      obtain ⟨count, blocking⟩ := r
      obtain ⟨p, passed, continues⟩ := h.pass reading
      rw [reading] at stepped
      simp only [passed] at stepped
      cases p with
      | returns socket queue r =>
        cases stepped
        exact continues
      | again socket queue =>
        cases stepped
        have later : Streams { s with socket, queue } := continues
        rwa [reading] at later
      | waits => cases stepped

theorem returned_append {before after : List ReadResult} : returned (before ++ after) = returned before ++ returned after := List.flatMap_append

theorem returned_zeros {results : List ReadResult} (zeros : ∀ r ∈ results, r = .bytes []) : returned results = [] :=
  List.flatMap_eq_nil_iff.mpr fun r mem => by rw [zeros r mem]; rfl

theorem zeros_after {before after pre : List ReadResult} {n : Nat} (split : before ++ .bytes [] :: after = pre ++ List.replicate n (.bytes []))
    (notIn : .bytes [] ∉ pre) : ∀ r ∈ after, r = .bytes [] := by
  have same : ∃ some, .bytes [] :: after = some ∧ ∀ r ∈ some, r = .bytes [] := by
    refine ⟨_, rfl, ?_⟩
    rcases List.append_eq_append_iff.mp split with ⟨middle, isPre, isRest⟩ | ⟨middle, -, isZeros⟩
    · cases middle with
      | nil => grind
      | cons first middle => grind
    · exact fun r mem => List.eq_of_mem_replicate (isZeros ▸ List.mem_append_right middle mem)
  obtain ⟨some, rfl, zeros⟩ := same
  exact fun r mem => zeros r (List.mem_cons_of_mem _ mem)

/-- Reads deliver the stream: what they have returned is a prefix of what was sent; a read returns 0 only when all that was sent has been
    returned and the connection is closed, and from then on each read returns 0 at once; and the buffer does not overflow. -/
theorem reads_deliver (reach : Reach Start (fun _ _ => True) step s) :
    returned s.results <+: s.sent.flatten ∧
    (∀ before after, s.results = before ++ .bytes [] :: after → s.closed = true ∧ returned before = s.sent.flatten ∧
      (∀ r ∈ after, r = .bytes []) ∧ s.reading = none ∧
      ∀ count blocking t, step s (.read count blocking) = some t → t.results = s.results ++ [.bytes []]) ∧
    ∀ count blocking, s.reading = some (count, blocking) → ∃ p, s.socket.pass s.queue count blocking = .ok p := by
  have h : Streams s := reach.invariant (fun s start => streams_start start) fun s t a h _ stepped => streams_step h stepped
  refine ⟨⟨s.socket.buffer ++ s.queue.flatten, ?_⟩, ?_, ?_⟩
  · rw [h.bytes, List.append_assoc]
  · intro before after split
    obtain ⟨pre, n, isResults, notIn, last⟩ := h.zeros
    have zeros := zeros_after (split.symm.trans isResults) notIn
    have positive : 0 < n := by grind
    obtain ⟨draining, empty⟩ := last positive
    obtain ⟨closed, noEvents, noRead⟩ := h.drained draining
    refine ⟨closed, ?_, zeros, noRead, ?_⟩
    · rw [h.bytes, empty, noEvents, split, returned_append, returned_zeros (List.forall_mem_cons.mpr ⟨rfl, zeros⟩)]
      simp
    · intro count blocking t stepped
      simp only [step] at stepped
      split_ifs at stepped
      cases stepped
      rw [StreamSocket.begin, if_pos draining, if_pos (List.length_eq_zero_iff.mpr empty)]
      rfl
  · intro count blocking reading
    obtain ⟨p, passed, -⟩ := h.pass reading
    exact ⟨p, passed⟩

end

theorem reads_deliver_three : ∃ s, Reach Start (fun _ _ => True) step s ∧ s.results = [.bytes [1, 2], .bytes [3], .bytes [], .bytes []] ∧
    returned s.results <+: s.sent.flatten := by
  obtain ⟨s, ran, results⟩ : ∃ s, run step { socket := { draining := false, buffer := [] }, queue := [], reading := none, sent := [], closed := false, results := [] }
      [.read 2 true, .data [1, 2, 3], .pass, .pass, .close, .read 2 false, .pass, .read 2 true, .read 2 true] = some s ∧
        s.results = [.bytes [1, 2], .bytes [3], .bytes [], .bytes []] := ⟨_, rfl, rfl⟩
  have reach : Reach Start (fun _ _ => True) step s := .of_run rfl ran
  exact ⟨s, reach, results, (reads_deliver reach).1⟩

end StreamSocket
end Faux
