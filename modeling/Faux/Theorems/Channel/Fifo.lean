import Faux.Theorems.Channel.Allocate
import Faux.Theorems.Channel.Deliver
import Mathlib.Data.List.Basic

/-! FIFO delivery and integrity of a half channel, in every run that does not run into the encoding of the
    full ring; and a run that does. -/

namespace Faux
open Lib
namespace ChannelSys

variable {s t : ChannelSys}

def empty : ChannelSys := { chan := channelSetupOwned fun _ => 0, msgs := [], rcvd := [] }

theorem init_empty : Init empty := ⟨fun _ => 0, fun _ _ => rfl, rfl⟩

/-! ### The invariant along runs -/

theorem inv_of_init (h : Init s) : s.Inv := by
  obtain ⟨m, hm, rfl⟩ := h
  refine ⟨0, 0, 0, [], ⟨rfl, rfl, by simp, by simp, by simp, Or.inl rfl, by simp, fun v h1 _ h2 => ?_, by simp, by simp,
    by simp⟩, ⟨rfl, rfl, Or.inl ⟨rfl, by decide⟩⟩⟩
  have := hm (v / cachelineSize) (by simp only [sharedSize, cachelineSize] at *; omega)
  have e : cachelineSize * (v / cachelineSize) = v % sharedSize := by
    simp only [sharedSize, cachelineSize] at *
    omega
  rw [e] at this
  exact this

theorem full_guard {T N H : Nat} (hp : Ptrs s.chan T N H)
    (hg : s.chan.tail = sharedSize → s.rcvd.length = s.msgs.length →
      ∀ (k : Nat) (a : Alloc), s.msgs[k]? = some a → s.freed k = false → a.start ≠ s.chan.head) :
    s.rcvd.length = s.msgs.length → H = T + sharedSize →
      ∀ (k : Nat) (a : Alloc), s.msgs[k]? = some a → freedIn s.rcvd k = false → a.start ≠ H % sharedSize := by
  intro hall hH
  rw [← hp.head]
  refine hg ?_ hall
  rcases hp.tail with ⟨-, h⟩ | ⟨h, -⟩
  · omega
  · exact h

theorem poll_inv (h : s.Inv) (hg : s.Guard .poll) :
    ∃ res, channelPoll s.chan false = some res ∧ Inv { s with chan := res.1 } := by
  obtain ⟨T, N, H, cs, hring, hp⟩ := h
  obtain ⟨m', N', size, hrun, hring', -⟩ := hring.poll hp.next (full_guard hp hg)
  exact ⟨_, hrun, T, N', H, cs, hring', hp.head, rfl, hp.tail⟩

theorem receive_inv (h : s.Inv) (hg : s.Guard .receive) :
    ∃ res, channelReceive s.chan false = some res ∧ (s.received res).Inv := by
  obtain ⟨T, N, H, cs, hring, hp⟩ := h
  obtain ⟨m', N', size, hrun, hring', hpolled⟩ := hring.poll hp.next (full_guard hp hg)
  rcases hpolled with ⟨rfl, -⟩ | ⟨c, hc, a, p, hN, hk, ha, hs, hsize⟩
  · exact ⟨({ s.chan with next := N' % sharedSize, shared := m' }, 0, none), by simp [channelReceive, hrun],
      T, N', H, cs, hring', hp.head, rfl, hp.tail⟩
  · obtain ⟨hrec, hread⟩ := Ring.receive_eq hrun hring' hc hN hk ha hs hsize
    exact ⟨_, hrec, T, N' + c.len, H, cs, hring'.pass_msg hc hN hk ha hs (by rw [hread]), hp.head, rfl, hp.tail⟩

theorem send_inv {k : Nat} {p : List UInt8} {a : Alloc} (h : s.Inv) (ha : s.msgs[k]? = some a) (hs : a.sent = none)
    (h1 : 1 ≤ p.length) (h2 : p.length ≤ a.size) :
    Inv { s with chan := channelSend s.chan (a.start + sizeofMessage) p
                 msgs := s.msgs.set k { a with sent := some p } } := by
  obtain ⟨T, N, H, cs, hring, hp⟩ := h
  refine ⟨T, N, H, cs, ?_, hp.head, hp.next, hp.tail⟩
  simpa [channelSend, sendMem] using hring.send ha hs h1 h2

theorem free_inv {k : Nat} {r : Receipt} (h : s.Inv) (hr : s.rcvd[k]? = some r) (hf : r.freed = false) :
    Inv { s with chan := channelFree s.chan r.data, rcvd := s.rcvd.set k { r with freed := true } } := by
  obtain ⟨T, N, H, cs, hring, hp⟩ := h
  exact ⟨T, N, H, cs, hring.free_msg hr hf, hp.head, hp.next, hp.tail⟩

theorem inv_step (s t : ChannelSys) (a : ChannelAct) (h : s.Inv) (hg : s.Guard a) (hs : s.step a = some t) : t.Inv := by
  cases a with
  | allocate size =>
    simp only [step] at hs
    split_ifs at hs with hsize
    obtain ⟨res, hres, hinv⟩ := allocate_inv h hg hsize.1 hsize.2
    simp only [hres, Option.map_some, Option.some.injEq] at hs
    exact hs ▸ hinv
  | send k p =>
    simp only [step] at hs
    split at hs
    · next m hm =>
      split_ifs at hs with hc
      cases hs
      exact send_inv h hm hc.1 hc.2.1 hc.2.2
    · cases hs
  | poll =>
    obtain ⟨res, hres, hinv⟩ := poll_inv h hg
    simp only [step, hres, Option.map_some, Option.some.injEq] at hs
    exact hs ▸ hinv
  | receive =>
    obtain ⟨res, hres, hinv⟩ := receive_inv h hg
    simp only [step, hres, Option.map_some, Option.some.injEq] at hs
    exact hs ▸ hinv
  | free k =>
    simp only [step] at hs
    split at hs
    · next r hr =>
      split_ifs at hs with hf
      cases hs
      exact free_inv h hr hf
    · cases hs

theorem inv_of_reach (h : Reach Init Guard step s) : s.Inv :=
  h.invariant (fun _ => inv_of_init) inv_step

/-! ### Delivery -/

/-- The next message, once it has been sent, is what a receive finds; the receiver is then behind it. -/
theorem Inv.receive_sent {a : Alloc} {p : List UInt8} (h : s.Inv) (ha : s.msgs[s.rcvd.length]? = some a) (hs : a.sent = some p) :
    ∃ chan, channelReceive s.chan false = some (chan, p.length, some (a.start + sizeofMessage)) ∧
      chan.shared.read (a.start + sizeofMessage) p.length = p ∧ chan.head = s.chan.head ∧
      chan.next = (a.start + a.alloced) % sharedSize := by
  obtain ⟨T, N, H, cs, hring, hp⟩ := h
  have hlt := lt_of_getElem? ha
  obtain ⟨m', N', size, hrun, hring', hpolled⟩ := hring.poll hp.next fun hall => by omega
  rcases hpolled with ⟨-, hnone⟩ | ⟨c, hc, a', p', hN, hk, ha', hs', hsize⟩
  · exact absurd hs (hnone a p ha)
  · rw [ha] at ha'
    cases ha'
    rw [hs] at hs'
    cases hs'
    obtain ⟨hrec, hread⟩ := Ring.receive_eq hrun hring' hc hN hk ha hs hsize
    obtain ⟨a', ha', hm, -⟩ := (hring'.holds c hc).msg hk
    rw [ha] at ha'
    cases ha'
    refine ⟨_, hrec, hread, rfl, ?_⟩
    rw [hm.start, hm.alloced, Chunk.off, hN, Nat.mod_add_mod]

theorem Inv.correct (h : s.Inv) : s.Correct := by
  have hinv := h
  obtain ⟨T, N, H, cs, hring, hp⟩ := h
  refine ⟨hring.receipts, fun a p ha hs => ?_, fun j k a b hj hk hjk hfj hfk => ?_⟩
  · obtain ⟨chan, hrec, hread, -⟩ := hinv.receive_sent ha hs
    exact ⟨chan, hrec, hread⟩
  · obtain ⟨c, hc, hcj⟩ := hring.cover j (lt_of_getElem? hj) hfj
    obtain ⟨d, hd, hdk⟩ := hring.cover k (lt_of_getElem? hk) hfk
    obtain ⟨a', ha', hm, -⟩ := (hring.holds c hc).msg hcj
    obtain ⟨b', hb', hm', -⟩ := (hring.holds d hd).msg hdk
    rw [hj] at ha'
    rw [hk] at hb'
    cases ha'
    cases hb'
    have hne : c ≠ d := by
      rintro rfl
      rw [hcj] at hdk
      cases hdk
      omega
    rw [hm.start, hm.alloced, hm'.start, hm'.alloced]
    exact hring.layout.disjoint hring.window hc hd hne

/-- In every run whose steps are not misled by the full flag, the receiver gets exactly the sent messages,
    in allocation order and with the bytes that were sent, and no two messages that are not freed overlap;
    every allocation, poll and receive that such a run tries returns. -/
theorem fifo_of_guarded (s : ChannelSys) (h : Reach Init Guard step s) :
    s.Correct ∧
      (∀ size, 1 ≤ size → size ≤ largestPayload → s.Guard (.allocate size) → (channelAllocate s.chan size).isSome) ∧
      (s.Guard .poll → (channelPoll s.chan false).isSome ∧ (channelReceive s.chan false).isSome) := by
  have hinv := inv_of_reach h
  refine ⟨hinv.correct, fun size h1 h2 hg => ?_, fun hg => ⟨?_, ?_⟩⟩
  · obtain ⟨res, hres, -⟩ := allocate_inv hinv hg h1 h2
    simp [hres]
  · obtain ⟨res, hres, -⟩ := poll_inv hinv hg
    simp [hres]
  · obtain ⟨res, hres, -⟩ := receive_inv hinv hg
    simp [hres]

theorem guard_of_not_full (notFull : s.chan.tail ≠ sharedSize) (a : ChannelAct) : s.Guard a := by
  cases a with
  | allocate _ | poll | receive => exact fun full => absurd full notFull
  | send _ _ | free _ => trivial

/-- Two messages of almost half the ring, each received and freed, and a third that no longer fits behind them:
    its allocation leaves a sentinel and wraps. -/
def wrapping : List ChannelAct :=
  [.allocate 30000, .send 0 [7, 8], .receive, .free 0, .allocate 30000, .send 1 [9], .receive, .free 1,
    .allocate 10000, .send 2 [1, 2, 3], .receive, .free 2]

theorem guarded_wrapping : Guarded Guard step empty wrapping := by
  have checked : checkRun (fun s _ => s.chan.tail != sharedSize) step empty wrapping = true := by decide +kernel
  exact guarded_of_check (fun _ a notFull => guard_of_not_full (by simpa using notFull) a) empty checked

/-- The three messages, the last one across the wrap, arrive in order and whole. -/
theorem fifo_across_wrap : ∃ s, run step empty wrapping = some s ∧ Reach Init Guard step s ∧
    s.msgs.map (·.start) = [0, 30016, 0] ∧ s.rcvd.map (·.payload) = [[7, 8], [9], [1, 2, 3]] ∧ s.Correct := by
  have hrun : ((run step empty wrapping).map fun s => (s.msgs.map (·.start), s.rcvd.map (·.payload))) =
      some ([0, 30016, 0], [[7, 8], [9], [1, 2, 3]]) := by decide +kernel
  obtain ⟨s, hs, hview⟩ := Option.map_eq_some_iff.mp hrun
  have hr := (Reach.init init_empty).of_guarded guarded_wrapping hs
  exact ⟨s, hs, hr, congrArg Prod.fst hview, congrArg Prod.snd hview, (fifo_of_guarded s hr).1⟩

/-- Two messages that fill half of the ring each, and one more: the third is placed on the first, which has
    not even been sent. -/
theorem exists_overlap :
    ∃ s, Reachable s ∧ (∃ a b, s.msgs[0]? = some a ∧ s.msgs[2]? = some b ∧ s.freed 0 = false ∧ s.freed 2 = false ∧
      a.start = 0 ∧ a.alloced = 32768 ∧ b.start = 0 ∧ b.alloced = 64) ∧ ¬s.Correct := by
  have hrun : ((run step empty [.allocate 32760, .allocate 32760, .allocate 1]).map fun s =>
      (s.msgs.map fun a => (a.start, a.alloced), s.rcvd.length)) = some ([(0, 32768), (32768, 32768), (0, 64)], 0) := by
    decide
  obtain ⟨s, hs, hview⟩ := Option.map_eq_some_iff.mp hrun
  simp only [Prod.mk.injEq, List.length_eq_zero_iff] at hview
  obtain ⟨hmsgs, hrcvd⟩ := hview
  obtain ⟨a, x, b, hl⟩ : ∃ a x b, s.msgs = [a, x, b] := by
    have := congrArg List.length hmsgs
    simp only [List.length_map, List.length_cons, List.length_nil] at this
    exact List.length_eq_three.mp this
  simp only [hl, List.map_cons, List.map_nil, List.cons.injEq, Prod.mk.injEq, and_true] at hmsgs
  obtain ⟨⟨ha, ha'⟩, -, hb, hb'⟩ := hmsgs
  have hf : ∀ k, s.freed k = false := fun k => by simp [freed, hrcvd]
  have h0 : s.msgs[0]? = some a := by simp [hl]
  have h2 : s.msgs[2]? = some b := by simp [hl]
  refine ⟨s, Reach.of_run init_empty hs, ⟨a, b, h0, h2, hf 0, hf 2, ha, ha', hb, hb'⟩, fun hc => ?_⟩
  have := hc.disjoint 0 2 a b h0 h2 (by decide) (hf 0) (hf 2)
  omega

end ChannelSys
end Faux
