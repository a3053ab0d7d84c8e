import Faux.Fs.ReplySize
import Faux.Theorems.Fs.Notify

/-! The sizes of replies are well formed, but for that of a RESOLVE, which is read from a field of the reply that is never set. -/

namespace Faux
open Lib

theorem sizeAt_dispatchRespond {chan : HalfChannel} {data transaction size : Nat} {body : List UInt8} :
    (dispatchRespond chan data transaction body size).sizeAt data = (size + sizeofDispatchHeader) % 65536 := Memory.get16_set16

def byteSpace : Nat → Nat
  | 0 => 1
  | n + 1 => 256 * byteSpace n

theorem leNat_lt : ∀ {bs : List UInt8}, leNat bs < byteSpace bs.length
  | [] => Nat.one_pos
  | b :: bs => by
    have := b.toNat_lt
    have := @leNat_lt bs
    simp only [leNat, List.length_cons, byteSpace]
    omega

theorem leNat_read_lt {m : Memory} {a : Nat} : leNat (m.read a 8) < sizeMod := by
  have lt := @leNat_lt (m.read a 8)
  rwa [show (m.read a 8).length = 8 by simp [Memory.read]] at lt

theorem Server.read_le {s t : Server} {fd : Fd} {count n : Nat} {st : Status} {data : List UInt8}
    (done : s.read fd count = .ok (t, st, n, data)) : n ≤ count := by
  unfold Server.read at done
  split at done
  · cases done
  · obtain ⟨⟨s', st', n', data'⟩, inode, done⟩ := bind_eq_ok.mp done
    cases done
    exact readInode_le inode

namespace Message
variable {m : Message} {s : Server} {app : AppId} {shared : Memory} {data size : Nat}

theorem sizeofReply_bounds : 4 ≤ m.sizeofReply ∧ m.sizeofReply ≤ 132 := by
  cases m with
  | request q => cases q <;> exact ⟨Nat.le_of_ble_eq_true rfl, Nat.le_of_ble_eq_true rfl⟩
  | _ => exact ⟨Nat.le_of_ble_eq_true rfl, Nat.le_of_ble_eq_true rfl⟩

theorem asked_bounds (built : m.Built) : m.sizeofReply ≤ m.asked ∧ m.asked ≤ 32900 := by
  have small : ∀ {n : Nat}, n ≤ 32900 → n % sizeMod = n := fun {n} le => Nat.mod_eq_of_lt (by unfold sizeMod; omega)
  cases m with
  | request q =>
    cases q with
    | read fd count =>
      have le : count ≤ 32768 := built
      have isAsked : (request (.read fd count)).asked = 12 + count := small (show 12 + count ≤ 32900 by omega)
      rw [isAsked]
      exact ⟨Nat.le_add_right 12 count, by omega⟩
    | blocks id offset count =>
      have le : count ≤ 4096 := built
      have isAsked : (request (.blocks id offset count)).asked = 13 + count * 8 := small (show 13 + count * 8 ≤ 32900 by omega)
      rw [isAsked]
      exact ⟨Nat.le_add_right 13 _, by omega⟩
    | _ => exact ⟨Nat.le_of_ble_eq_true rfl, Nat.le_of_ble_eq_true rfl⟩
  | dirent dir offset count =>
    have le : count ≤ 32768 := built
    have isAsked : (dirent dir offset count).asked = 13 + count := small (show 13 + count ≤ 32900 by omega)
    rw [isAsked]
    exact ⟨Nat.le_add_right 13 count, by omega⟩
  | _ => exact ⟨Nat.le_of_ble_eq_true rfl, Nat.le_of_ble_eq_true rfl⟩

theorem wellFormed_of_le (built : m.Built) (fixed : m.sizeofReply ≤ size) (allocated : size ≤ m.asked) :
    m.WellFormed size ((size + sizeofDispatchHeader) % 65536) := by
  have most := (asked_bounds built).2
  have least := (sizeofReply_bounds (m := m)).1
  have field : (size + sizeofDispatchHeader) % 65536 = size + 8 := Nat.mod_eq_of_lt (show size + 8 < 65536 by omega)
  refine ⟨fixed, allocated, ?_, ?_⟩
  · omega
  · unfold sentinelSize
    omega

theorem sent_bounds (built : m.Built) (notResolve : ¬m.IsResolve) (sent : m.sent s app shared data = .ok size) :
    m.sizeofReply ≤ size ∧ size ≤ m.asked := by
  have fixed : size = m.sizeofReply → m.sizeofReply ≤ size ∧ size ≤ m.asked := by
    rintro rfl
    exact ⟨Nat.le_refl _, (asked_bounds built).1⟩
  cases m with
  | request q =>
    cases q with
    | read fd count =>
      obtain ⟨⟨t, st, n, bytes⟩, read, done⟩ := bind_eq_ok.mp sent
      have le : n ≤ count := Server.read_le read
      have most : count ≤ 32768 := built
      have isSize : (12 + n) % sizeMod = size := Except.ok.inj done
      have isFixed : (request (.read fd count)).sizeofReply = 12 := rfl
      have isAsked : (request (.read fd count)).asked = (12 + count) % sizeMod := rfl
      unfold sizeMod at isSize isAsked
      omega
    | resolve parent path => exact absurd trivial notResolve
    | _ => exact fixed (Except.ok.inj sent).symm
  | _ => exact fixed (Except.ok.inj sent).symm

theorem sent_resolve {parent : FileId} {path : Name} (sent : (request (.resolve parent path)).sent s app shared data = .ok size) :
    size = (36 + leNat (shared.read (data + resolveReplySize) 8)) % sizeMod := by
  obtain ⟨⟨t, retval, child⟩, -, done⟩ := bind_eq_ok.mp sent
  exact (Except.ok.inj done).symm

/-- The size of a RESOLVE is well formed if and only if its reply says 0: anything else is more than was allocated, or less than
    the structure after the overflow. -/
theorem wellFormed_resolve_iff {parent : FileId} {path : Name} {stale : Nat} (lt : stale < sizeMod) (isSize : size = (36 + stale) % sizeMod) :
    (request (.resolve parent path)).WellFormed size ((size + sizeofDispatchHeader) % 65536) ↔ stale = 0 := by
  have asked : (request (.resolve parent path)).asked = 36 := rfl
  have fixed : (request (.resolve parent path)).sizeofReply = 36 := rfl
  constructor
  · rintro ⟨le, ge, -, -⟩
    unfold sizeMod at isSize lt
    omega
  · rintro rfl
    have same : size = 36 := isSize
    exact wellFormed_of_le trivial (Nat.le_of_eq same.symm) (Nat.le_of_eq same)

/-- The size of a reply is well formed if and only if the request is not a RESOLVE, or the memory of the channel has 0 where the
    size of its reply is. -/
theorem wellFormed_iff (s : Server) (app : AppId) (transaction : Nat) (body : List UInt8) (out : HalfChannel) (data size : Nat) (m : Message)
    (built : m.Built) (sent : m.sent s app out.shared data = .ok size) :
    m.WellFormed size ((dispatchRespond out data transaction body size).sizeAt data) ↔
      (m.IsResolve → leNat (out.shared.read (data + resolveReplySize) 8) = 0) := by
  rw [sizeAt_dispatchRespond]
  by_cases isResolve : m.IsResolve
  · rw [forall_prop_of_true isResolve]
    cases m with
    | request q =>
      cases q with
      | resolve parent path => exact wellFormed_resolve_iff leNat_read_lt (sent_resolve sent)
      | _ => exact isResolve.elim
    | _ => exact isResolve.elim
  · obtain ⟨fixed, most⟩ := sent_bounds built isResolve sent
    exact iff_of_true (wellFormed_of_le built fixed most) fun is => absurd is isResolve

def resolveParent : Message := request (.resolve 0 "..")

def stale (low high : UInt8) : HalfChannel := channelSetupOwned fun x => if x = 44 then low else if x = 45 then high else 0

theorem allocate_stale (low high : UInt8) : ∃ out, dispatchAllocate (stale low high) resolveParent.asked = some (some (out, 16)) ∧
    leNat (out.shared.read (16 + resolveReplySize) 8) = low.toNat + 256 * high.toNat := by
  refine ⟨_, rfl, ?_⟩
  show low.toNat + 256 * (high.toNat + 256 * 0) = _
  omega

theorem sent_stale {out : HalfChannel} {n : Nat} (isStale : leNat (out.shared.read (16 + resolveReplySize) 8) = n) (small : n < 65536) :
    resolveParent.sent Server.booted 0 out.shared 16 = .ok (36 + n) := by
  have done : resolveParent.sent Server.booted 0 out.shared 16 =
      .ok ((36 + leNat (out.shared.read (16 + resolveReplySize) 8)) % sizeMod) := rfl
  rw [done, isStale, Nat.mod_eq_of_lt (by unfold sizeMod; omega)]

/-- In a channel of zeros the reply is sent with the size of its structure. -/
theorem wellFormed_zeros : ∃ out, dispatchAllocate (stale 0 0) resolveParent.asked = some (some (out, 16)) ∧
    resolveParent.WellFormed 36 ((dispatchRespond out 16 7 [] 36).sizeAt 16) := by
  obtain ⟨out, allocated, isStale⟩ := allocate_stale 0 0
  have sent := sent_stale isStale (by decide)
  exact ⟨out, allocated, (wellFormed_iff Server.booted 0 7 [] out 16 36 resolveParent trivial sent).mpr fun _ => isStale⟩

/-- With other bytes in the channel the reply is sent with more than was allocated, here with sizes that make it a message which
    is not delivered and a wrap sentinel. -/
theorem exists_not_wellFormed :
    (∃ out, dispatchAllocate (stale 0xD4 0xFF) resolveParent.asked = some (some (out, 16)) ∧
      resolveParent.sent Server.booted 0 out.shared 16 = .ok 65528 ∧ (dispatchRespond out 16 7 [] 65528).sizeAt 16 = 0 ∧
      ¬resolveParent.WellFormed 65528 ((dispatchRespond out 16 7 [] 65528).sizeAt 16)) ∧
    ∃ out, dispatchAllocate (stale 0xD3 0xFF) resolveParent.asked = some (some (out, 16)) ∧
      resolveParent.sent Server.booted 0 out.shared 16 = .ok 65527 ∧ (dispatchRespond out 16 7 [] 65527).sizeAt 16 = sentinelSize ∧
      ¬resolveParent.WellFormed 65527 ((dispatchRespond out 16 7 [] 65527).sizeAt 16) := by
  constructor
  · obtain ⟨out, allocated, isStale⟩ := allocate_stale 0xD4 0xFF
    exact ⟨out, allocated, sent_stale isStale (by decide), sizeAt_dispatchRespond, fun formed => formed.delivered sizeAt_dispatchRespond⟩
  · obtain ⟨out, allocated, isStale⟩ := allocate_stale 0xD3 0xFF
    exact ⟨out, allocated, sent_stale isStale (by decide), sizeAt_dispatchRespond, fun formed => formed.notSentinel sizeAt_dispatchRespond⟩

end Message
end Faux
