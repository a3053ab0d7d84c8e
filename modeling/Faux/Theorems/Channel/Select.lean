import Faux.Channel.Select
import Faux.Lib.Cyclic
import Faux.Theorems.Channel.Header

/-! `channel_select` is fair: a scan starts behind the channel that was served last, so that a channel that waits comes nearer to
    the start with every call that serves another one. -/

namespace Faux
open Function Lib
namespace InChannel

/-! ### One channel -/

section
variable {m : Memory} {chan : HalfChannel} {closed : Bool} {fuel : Nat} {off : Nat}

theorem not_ready_setReady : msgReady (setReady m off false) off false = true := by
  rw [msgReady, setReady_self]
  rfl

theorem messageAt_setReady (behind : off ≠ 0) : messageAt (setReady m off false) 0 ↔ messageAt m 0 := by
  have ready : msgReady (setReady m off false) 0 false = msgReady m 0 false := by
    rw [msgReady, setReady_of_ne (by omega), msgReady]
  have size : msgSize (setReady m off false) 0 = msgSize m 0 := Memory.get16_congr (setReady_of_ne (by omega)) (setReady_of_ne (by omega))
  rw [messageAt, messageAt, ready, size]

theorem pollLoop_message (message : messageAt chan.shared chan.next) : pollLoop closed (fuel + 1) chan = some (chan, msgSize chan.shared chan.next) := by
  obtain ⟨ready, some, notSentinel⟩ := message
  rw [pollLoop, if_neg (by simp [ready, some]), if_neg notSentinel]

theorem pollLoop_sentinel (sentinel : sentinelAt chan.shared chan.next) :
    pollLoop closed (fuel + 1) chan = pollLoop closed fuel { chan with next := 0, shared := setReady chan.shared chan.next false } := by
  obtain ⟨ready, isSentinel⟩ := sentinel
  rw [pollLoop, if_neg (by simp [ready, isSentinel, sentinelSize]), if_pos isSentinel]

theorem pollLoop_nothing (noMessage : ¬messageAt chan.shared chan.next) (noSentinel : ¬sentinelAt chan.shared chan.next) :
    pollLoop closed (fuel + 1) chan = some (chan, if closed then closedSize else 0) := by
  rw [pollLoop, if_pos]
  cases ready : msgReady chan.shared chan.next false with
  | true => exact .inl rfl
  | false =>
    by_contra some
    have some : msgSize chan.shared chan.next ≠ 0 := fun none => some (.inr none)
    by_cases isSentinel : msgSize chan.shared chan.next = sentinelSize
    · exact noSentinel ⟨ready, isSentinel⟩
    · exact noMessage ⟨ready, some, isSentinel⟩

theorem not_messageAt_of_ready (ready : msgReady m off false = true) : ¬messageAt m off ∧ ¬sentinelAt m off := by
  constructor <;> exact fun there => Bool.false_ne_true (there.1.symm.trans ready)

theorem pollLoop_start (atStart : chan.next = 0) : ∃ chan' size, pollLoop closed (fuel + 2) chan = some (chan', size) ∧
    (size ≠ 0 ↔ messageAt chan.shared 0 ∨ closed = true) := by
  have nothing : (if closed then closedSize else 0) ≠ 0 ↔ closed = true := by cases closed <;> decide
  by_cases message : messageAt chan.shared chan.next
  · exact ⟨chan, _, pollLoop_message message, ⟨fun _ => .inl (atStart ▸ message), fun _ => message.2.1⟩⟩
  · have noMessage : ¬messageAt chan.shared 0 := atStart ▸ message
    simp only [noMessage, false_or]
    by_cases sentinel : sentinelAt chan.shared chan.next
    · obtain ⟨noMessage', noSentinel⟩ := not_messageAt_of_ready (@not_ready_setReady chan.shared chan.next)
      rw [atStart] at noMessage' noSentinel
      refine ⟨{ chan with next := 0, shared := setReady chan.shared chan.next false }, _, ?_, nothing⟩
      rw [pollLoop_sentinel sentinel, atStart]
      exact pollLoop_nothing noMessage' noSentinel
    · exact ⟨chan, _, pollLoop_nothing message sentinel, nothing⟩

theorem channelPoll_spec (c : InChannel) : ∃ half size, channelPoll c.half c.closed = some (half, size) ∧ (size ≠ 0 ↔ c.Receivable) := by
  have start : ∀ half : HalfChannel, half.next = 0 → ∃ half' size, pollLoop c.closed (ringFuel - 1) half = some (half', size) ∧
      (size ≠ 0 ↔ messageAt half.shared 0 ∨ c.closed = true) := fun half atStart => pollLoop_start atStart
  show ∃ half size, pollLoop c.closed (ringFuel - 1 + 1) c.half = some (half, size) ∧ _
  unfold Receivable
  by_cases message : messageAt c.half.shared c.half.next
  · exact ⟨_, _, pollLoop_message message, ⟨fun _ => .inl message, fun _ => message.2.1⟩⟩
  · simp only [message, false_or]
    by_cases sentinel : sentinelAt c.half.shared c.half.next
    · rw [pollLoop_sentinel sentinel]
      obtain ⟨half, size, polled, isSize⟩ := start { c.half with next := 0, shared := setReady c.half.shared c.half.next false } rfl
      refine ⟨half, size, polled, isSize.trans ?_⟩
      by_cases behind : c.half.next = 0
      · have gone := (not_messageAt_of_ready (@not_ready_setReady c.half.shared c.half.next)).1
        rw [behind] at gone
        simp [behind, gone]
      · simp [messageAt_setReady behind, behind, sentinel]
    · refine ⟨_, _, pollLoop_nothing message sentinel, ?_⟩
      simp only [sentinel, false_and, and_false, false_or]
      cases c.closed <;> decide

theorem channelReceive_spec (c : InChannel) : ∃ half size data, channelReceive c.half c.closed = some (half, size, data) ∧ (size ≠ 0 ↔ c.Receivable) := by
  obtain ⟨half, size, polled, isSize⟩ := channelPoll_spec c
  by_cases nothing : size = closedSize ∨ size = 0
  · refine ⟨half, size, none, ?_, isSize⟩
    simp only [channelReceive, polled, Option.bind_eq_bind, Option.bind_some]
    rw [if_pos nothing]
  · have received := channelReceive.eq_def c.half c.closed
    simp only [polled, Option.bind_eq_bind, Option.bind_some] at received
    rw [if_neg nothing] at received
    exact ⟨_, size, _, received, isSize⟩

end

/-! ### One call -/

section
variable {n : Nat} {chans : Nat → InChannel} {pos : Int} {r : Selected}

theorem selectLoop_spec : ∀ {js : List Nat} {chans : Nat → InChannel}, js.Nodup →
    ∃ chans' found, selectLoop js chans = some (chans', found) ∧ (∀ k ∉ js, chans' k = chans k) ∧
      match found with
      | none => ∀ j ∈ js, ¬(chans j).Receivable
      | some (j, size, _) => ∃ before after, js = before ++ j :: after ∧ size ≠ 0 ∧ ∀ k ∈ before, ¬(chans k).Receivable
  | [], chans, _ => ⟨chans, none, rfl, fun _ _ => rfl, fun _ mem => absurd mem List.not_mem_nil⟩
  | j :: js, chans, nodup => by
    obtain ⟨new, nodup⟩ := List.nodup_cons.mp nodup
    obtain ⟨half, size, data, received, isSize⟩ := channelReceive_spec (chans j)
    rw [selectLoop]
    simp only [received, Option.bind_eq_bind, Option.bind_some]
    by_cases some : size ≠ 0
    · rw [if_pos some]
      refine ⟨_, _, rfl, fun k other => ?_, [], js, rfl, some, fun k mem => absurd mem List.not_mem_nil⟩
      exact update_of_ne (List.ne_of_not_mem_cons other) ..
    · rw [if_neg some]
      obtain ⟨chans', found, looped, kept, isFound⟩ := @selectLoop_spec js (update chans j { chans j with half }) nodup
      have nothing : ¬(chans j).Receivable := fun receivable => some (isSize.mpr receivable)
      have others : ∀ k ∈ js, update chans j { chans j with half } k = chans k := fun k mem =>
        update_of_ne (fun same : k = j => new (same ▸ mem)) ..
      refine ⟨chans', found, looped, fun k other => ?_, ?_⟩
      · rw [kept k (List.not_mem_of_not_mem_cons other), update_of_ne (List.ne_of_not_mem_cons other)]
      · cases found with
        | none => grind
        | some found => grind

theorem mem_before {l before after : List Nat} {j k : Nat} (sorted : l.Pairwise (· < ·)) (split : l = before ++ j :: after) (mem : k ∈ l) (lt : k < j) : k ∈ before := by
  subst split
  rcases List.mem_append.mp mem with first | rest
  · exact first
  · rcases List.mem_cons.mp rest with rfl | later
    · exact absurd lt (Nat.lt_irrefl k)
    · have less : j < k := List.rel_of_pairwise_cons (List.pairwise_append.mp sorted).2.1 later
      exact absurd lt (Nat.lt_asymm less)

theorem selectStart_lt (some : n ≠ 0) : selectStart n pos < n := by
  unfold selectStart
  split_ifs <;> omega

/-- A call returns; it serves the first channel from its start on that has something, or none has anything. -/
theorem channelSelect_spec (n : Nat) (chans : Nat → InChannel) (pos : Int) : ∃ r, channelSelect n chans pos = some r ∧
    (r.size = 0 → ∀ j < n, ¬(chans j).Receivable) ∧
    (r.size ≠ 0 → ∃ j < n, r.pos = j ∧ ∀ k < n, cyclicDistance n (selectStart n pos) k < cyclicDistance n (selectStart n pos) j → ¬(chans k).Receivable) := by
  unfold channelSelect
  by_cases none : n = 0
  · rw [if_pos none]
    exact ⟨_, rfl, fun _ j lt => absurd lt (none ▸ Nat.not_lt_zero j), fun some => absurd rfl some⟩
  rw [if_neg none]
  have lt := @selectStart_lt n pos none
  generalize selectStart n pos = i at lt ⊢
  obtain ⟨chans₁, found, looped, kept, isFound⟩ := @selectLoop_spec (List.range' i (n - i)) chans List.nodup_range'
  simp only [looped, Option.bind_eq_bind, Option.bind_some]
  cases found with
  | some found =>
    obtain ⟨j, size, data⟩ := found
    obtain ⟨before, after, split, some, nothing⟩ := isFound
    refine ⟨_, rfl, fun zero => absurd zero some, fun _ => ⟨j, ?_, rfl, fun k isChannel nearer => ?_⟩⟩
    · grind
    · grind [cyclicDistance]
  | none =>
    obtain ⟨chans₂, found, looped, kept₂, isFound₂⟩ := @selectLoop_spec (List.range i) chans₁ List.nodup_range
    simp only [looped, Option.bind_some]
    have same : ∀ k < i, chans₁ k = chans k := fun k lt => kept k fun mem => by
      have := List.mem_range'_1.mp mem
      omega
    have behind : ∀ k < n, i ≤ k → ¬(chans k).Receivable := fun k isChannel le =>
      isFound k (List.mem_range'_1.mpr ⟨le, by omega⟩)
    cases found with
    | some found =>
      obtain ⟨j, size, data⟩ := found
      obtain ⟨before, after, split, some, nothing⟩ := isFound₂
      refine ⟨_, rfl, fun zero => absurd zero some, fun _ => ⟨j, ?_, rfl, fun k isChannel nearer => ?_⟩⟩
      · grind
      · have mem : j ∈ List.range i := split ▸ List.mem_append_right _ List.mem_cons_self
        have isJ := List.mem_range.mp mem
        by_cases le : i ≤ k
        · exact behind k isChannel le
        · have before : k < i := Nat.lt_of_not_le le
          have first : k < j := by
            unfold cyclicDistance at nearer
            split_ifs at nearer <;> omega
          exact same k before ▸ nothing k (mem_before List.pairwise_lt_range split (List.mem_range.mpr before) first)
    | none => grind

end

/-! ### Runs -/

namespace SelectRun
variable {n : Nat} (run : SelectRun n) {c k : Nat}

theorem returns (k : Nat) : (run.size k = 0 → ∀ j < n, ¬(run.chans k j).Receivable) ∧
    (run.size k ≠ 0 → ∃ j < n, run.pos (k + 1) = j ∧ ∀ c < n, cyclicDistance n (selectStart n (run.pos k)) c < cyclicDistance n (selectStart n (run.pos k)) j →
      ¬(run.chans k c).Receivable) := by
  obtain ⟨r, called, isPos, isSize⟩ := run.call k
  obtain ⟨r', called', nothing, first⟩ := channelSelect_spec n (run.chans k) (run.pos k)
  cases called.symm.trans called'
  rw [isSize] at nothing first
  rw [isPos] at first
  exact ⟨nothing, first⟩

theorem served_or_nearer (isChannel : c < n) (waits : (run.chans k c).Receivable) : run.size k ≠ 0 ∧ (run.pos (k + 1) = c ∨
    cyclicDistance n (selectStart n (run.pos (k + 1))) c < cyclicDistance n (selectStart n (run.pos k)) c) := by
  have some : run.size k ≠ 0 := fun none => (run.returns k).1 none c isChannel waits
  refine ⟨some, ?_⟩
  obtain ⟨j, lt, isPos, first⟩ := (run.returns k).2 some
  by_cases isC : j = c
  · exact .inl (isC ▸ isPos)
  · have start : selectStart n (run.pos k) < n := selectStart_lt (by omega)
    have notBehind : ¬cyclicDistance n (selectStart n (run.pos k)) c < cyclicDistance n (selectStart n (run.pos k)) j := fun nearer => first c isChannel nearer waits
    right
    have next : selectStart n (run.pos (k + 1)) = (j + 1) % n := by
      rw [isPos, cyclic_next lt, selectStart]
      split_ifs <;> omega
    rw [next]
    exact cyclicDistance_behind start lt isChannel isC (Nat.le_of_not_lt notBehind)

theorem served_within (isChannel : c < n) : ∀ (d k : Nat), cyclicDistance n (selectStart n (run.pos k)) c ≤ d →
    (∀ l, k ≤ l → l ≤ k + d → (run.chans l c).Receivable) → ∃ l, k ≤ l ∧ l ≤ k + d ∧ run.size l ≠ 0 ∧ run.pos (l + 1) = c := by
  intro d
  induction d with
  | zero =>
    intro k near waits
    obtain ⟨some, served | nearer⟩ := run.served_or_nearer isChannel (waits k (Nat.le_refl k) (Nat.le_refl k))
    · exact ⟨k, Nat.le_refl k, Nat.le_refl k, some, served⟩
    · omega
  | succ d ih =>
    intro k near waits
    obtain ⟨some, served | nearer⟩ := run.served_or_nearer isChannel (waits k (Nat.le_refl k) (Nat.le_add_right ..))
    · exact ⟨k, Nat.le_refl k, Nat.le_add_right .., some, served⟩
    · grind

end SelectRun

def closedChannel : InChannel := { half := channelSetupOwned fun _ => 0, closed := true }

def closedRun : SelectRun 1 where
  chans := fun _ _ => closedChannel
  pos := fun k => if k = 0 then -1 else 0
  size := fun _ => closedSize
  start := rfl
  call := fun k => by
    have start : selectStart 1 (if k = 0 then -1 else 0) = 0 := by split_ifs <;> rfl
    refine ⟨{ chans := update (fun _ => closedChannel) 0 closedChannel, pos := 0, size := closedSize, data := none }, ?_, rfl, rfl⟩
    unfold channelSelect
    rw [start]
    rfl

end InChannel
end Faux
