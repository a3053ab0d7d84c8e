import Mathlib.Data.Int.ModEq
import Mathlib.Tactic.Ring
import Faux.Net.FlowMap

/-! The hash of a connection is a sum of its bytes with fixed factors, so that two connections have one identifier if and only if the
    differences of their bytes add up to 0. -/

namespace Faux
open Lib

/-! ### The hash is linear -/

theorem charToUnsigned_modEq (c : UInt8) : (charToUnsigned c : Int) ≡ signedChar c [ZMOD 4294967296] := by
  unfold charToUnsigned signedChar hashMod
  split_ifs
  · rfl
  · exact Int.modEq_iff_dvd.mpr ⟨-1, by push_cast; ring⟩

theorem rsLoop_append (xs ys : List UInt8) (s : Nat × Nat) : rsLoop (xs ++ ys) s = rsLoop ys (rsLoop xs s) := by
  induction xs generalizing s with
  | nil => rfl
  | cons x xs ih => exact ih _

def factorOf (a : Nat) : Nat → Int
  | 0 => 1
  | n + 1 => a * factorOf (a * rsFactor % hashMod) n % 4294967296

def weightsOf (a : Nat) : Nat → List Int
  | 0 => []
  | n + 1 => factorOf (a * rsFactor % hashMod) n :: weightsOf (a * rsFactor % hashMod) n

theorem rsLoop_modEq (cs : List UInt8) (hash a : Nat) : ((rsLoop cs (hash, a)).1 : Int) ≡
    hash * factorOf a cs.length + weightedSum (weightsOf a cs.length) (cs.map signedChar) [ZMOD 4294967296] := by
  induction cs generalizing hash a with
  | nil => simp [rsLoop, factorOf, weightsOf, weightedSum]
  | cons c cs ih =>
    have next : (((hash * a + charToUnsigned c) % hashMod : Nat) : Int) ≡ hash * a + signedChar c [ZMOD 4294967296] := by
      push_cast
      exact (Int.mod_modEq _ _).trans ((Int.ModEq.refl _).add (charToUnsigned_modEq c))
    set rest := factorOf (a * rsFactor % hashMod) cs.length
    calc ((rsLoop (c :: cs) (hash, a)).1 : Int)
        ≡ ((hash * a + charToUnsigned c) % hashMod : Nat) * rest + weightedSum (weightsOf (a * rsFactor % hashMod) cs.length) (cs.map signedChar)
          [ZMOD 4294967296] := ih _ _
      _ ≡ (hash * a + signedChar c) * rest + weightedSum (weightsOf (a * rsFactor % hashMod) cs.length) (cs.map signedChar) [ZMOD 4294967296] :=
        (next.mul_right rest).add_right _
      _ = hash * (a * rest) + (rest * signedChar c + weightedSum (weightsOf (a * rsFactor % hashMod) cs.length) (cs.map signedChar)) := by ring
      _ ≡ hash * (a * rest % 4294967296) + (rest * signedChar c + weightedSum (weightsOf (a * rsFactor % hashMod) cs.length) (cs.map signedChar))
          [ZMOD 4294967296] := ((Int.mod_modEq _ _).symm.mul_left _).add_right _

theorem weightsOf_sixteen : weightsOf 63689 16 = hashWeights := by decide

theorem rsLoop_lt : ∀ (cs : List UInt8) {hash a : Nat}, hash < hashMod → (rsLoop cs (hash, a)).1 < hashMod
  | [], _, _, lt => lt
  | _ :: cs, _, _, _ => rsLoop_lt cs (Nat.mod_lt _ (by decide))

theorem compute_eq_rsLoop (c : FourTuple) : c.compute = (rsLoop (variableBytes c.localIp.toNat ++ (variableBytes c.localPort.toNat ++
    (variableBytes c.remoteIp.toNat ++ variableBytes c.remotePort.toNat))) (0, 63689)).1 := by
  rw [rsLoop_append, rsLoop_append, rsLoop_append]
  rfl

theorem compute_lt (c : FourTuple) : c.compute < hashMod := by
  rw [compute_eq_rsLoop]
  exact rsLoop_lt _ (by decide)

theorem compute_modEq (c : FourTuple) : (c.compute : Int) ≡ weightedSum hashWeights c.chars [ZMOD 4294967296] := by
  rw [compute_eq_rsLoop, FourTuple.chars, ← weightsOf_sixteen]
  refine (rsLoop_modEq _ 0 63689).trans ?_
  rw [Nat.cast_zero, zero_mul, zero_add]
  rfl

theorem weightedSum_zipWith_sub : ∀ (ws xs ys : List Int), xs.length = ys.length →
    weightedSum ws (List.zipWith (· - ·) xs ys) = weightedSum ws xs - weightedSum ws ys
  | [], _, _, _ => by simp [weightedSum]
  | _ :: _, [], [], _ => by simp [weightedSum]
  | w :: ws, x :: xs, y :: ys, same => by
    simp only [List.zipWith_cons_cons, weightedSum, weightedSum_zipWith_sub ws xs ys (Nat.succ.inj same)]
    ring

theorem compute_eq_iff (c d : FourTuple) : c.compute = d.compute ↔ c.Collides d := by
  have small : ∀ e : FourTuple, (e.compute : Int) = (e.compute : Int) % 4294967296 := fun e =>
    (Int.emod_eq_of_lt (Int.natCast_nonneg _) (by exact_mod_cast compute_lt e)).symm
  rw [FourTuple.Collides, weightedSum_zipWith_sub _ c.chars d.chars rfl, ← Int.natCast_inj, small c, small d]
  calc (c.compute : Int) % 4294967296 = d.compute % 4294967296
      ↔ weightedSum hashWeights c.chars % 4294967296 = weightedSum hashWeights d.chars % 4294967296 := by
        rw [(compute_modEq c : _ % _ = _ % _), (compute_modEq d : _ % _ = _ % _)]
    _ ↔ _ := Int.emod_eq_emod_iff_emod_sub_eq_zero

namespace FlowMap

/-! ### Adding connections -/

theorem addAll_of_nodup : ∀ {conns : List FourTuple} {m : FlowMap}, (conns.map FourTuple.compute).Nodup → (∀ c ∈ conns, m.lookup c.compute = none) →
    ∃ m', addAll m conns = some m' ∧ (∀ c ∈ conns, get m' c.compute = some c) ∧ ∀ id, id ∉ conns.map FourTuple.compute → get m' id = get m id
  | [], m, _, _ => ⟨m, rfl, fun _ mem => absurd mem List.not_mem_nil, fun _ _ => rfl⟩
  | c :: conns, m, nodup, new => by
    obtain ⟨other, nodup⟩ := List.nodup_cons.mp nodup
    obtain ⟨first, new⟩ := List.forall_mem_cons.mp new
    have different : ∀ d ∈ conns, d.compute ≠ c.compute := fun d mem same => other (List.mem_map.mpr ⟨d, mem, same⟩)
    obtain ⟨m', added, found, kept⟩ := @addAll_of_nodup conns (m.insert c.compute c) nodup fun d mem => by
      rw [AList.lookup_insert_ne (different d mem)]
      exact new d mem
    refine ⟨m', by rw [addAll, add, if_pos first]; exact added, List.forall_mem_cons.mpr ⟨?_, found⟩, fun id notMem => ?_⟩
    · rw [kept _ other]
      exact AList.lookup_insert _
    · obtain ⟨notFirst, notMem⟩ := not_or.mp (mt List.mem_cons.mpr notMem)
      rw [kept id notMem]
      exact AList.lookup_insert_ne notFirst

/-- A set of connections is told apart if and only if no two of them collide, and none collides with a socket that listens. -/
theorem flows_separate_iff (conns : List FourTuple) (listening : List ListenEnd) : Separates conns listening ↔
    conns.Pairwise (fun c d => ¬c.Collides d) ∧ ∀ c ∈ conns, ∀ l ∈ listening, ¬c.Collides l.toTuple := by
  have pairwise : (conns.map FourTuple.compute).Nodup ↔ conns.Pairwise fun c d => ¬c.Collides d := by
    rw [List.Nodup, List.pairwise_map]
    exact List.Pairwise.iff fun c d => not_congr (compute_eq_iff c d)
  have listens : (∀ c ∈ conns, ∀ l ∈ listening, c.compute ≠ l.compute) ↔ ∀ c ∈ conns, ∀ l ∈ listening, ¬c.Collides l.toTuple :=
    forall₂_congr fun c _ => forall₂_congr fun l _ => not_congr (compute_eq_iff c l.toTuple)
  constructor
  · rintro ⟨-, distinct, others⟩
    exact ⟨pairwise.mp distinct, listens.mp others⟩
  · rintro ⟨none, others⟩
    have distinct := pairwise.mpr none
    obtain ⟨m, added, found, -⟩ := addAll_of_nodup (m := ∅) distinct fun c _ => AList.lookup_empty _
    exact ⟨⟨m, added, found⟩, distinct, listens.mpr others⟩

/-- Two connections to port 80 of 10.0.0.1: from port 45297 of 10.0.9.209 and from port 21042 of 10.0.16.17. -/
def colliding : List FourTuple := [⟨0x0100000a, 80, 0xd109000a, 45297⟩, ⟨0x0100000a, 80, 0x1110000a, 21042⟩]

theorem colliding_flows_clash : colliding.Nodup ∧ ¬Separates colliding [] ∧ addAll ∅ colliding = none := by
  have clash : colliding.map FourTuple.compute = [1439949190, 1439949190] := by decide
  refine ⟨by decide, fun separates => ?_, ?_⟩
  · have distinct := separates.distinct
    rw [clash] at distinct
    exact absurd distinct (by decide)
  · obtain ⟨first, second⟩ := List.cons.inj clash
    rw [colliding, addAll, add, if_pos (AList.lookup_empty _), Option.bind_some, addAll, add, (List.cons.inj second).1, ← first, AList.lookup_insert]
    rfl

end FlowMap
end Faux
