import Faux.Utilities.BitArray

/-! Bit arrays: what setting and clearing a bit does to the others, and the search for the first clear bit. -/

namespace Faux
variable {bitarray : List BitWord} {value : BitWord} {nbits bit bit' : Nat}

theorem getLsbD_mask {i j : Nat} (lt : i < 32) : (1#32 <<< i).getLsbD j = decide (i = j) := by
  rw [show 1#32 <<< i = BitVec.twoPow 32 i from rfl, BitVec.getLsbD_twoPow, decide_eq_true lt, Bool.true_and]

theorem mask_ne_zero {i : Nat} (lt : i < 32) : 1#32 <<< i ≠ 0#32 := by
  intro zero
  have same := congrArg (BitVec.getLsbD · i) zero
  simp only [getLsbD_mask lt, BitVec.getLsbD_zero, decide_true, Bool.true_eq_false] at same

theorem and_mask_ne_zero {i : Nat} (lt : i < 32) : value &&& 1#32 <<< i ≠ 0#32 ↔ value.getLsbD i = true := by
  rw [show value &&& 1#32 <<< i = _ from BitVec.and_twoPow value i]
  split_ifs with isSet
  · exact iff_of_true (mask_ne_zero lt) isSet
  · exact iff_of_false (not_not_intro rfl) isSet

theorem isSet_iff : fosBitArrayIsSet bitarray bit = true ↔ (bitarray.getD (bit / 32) 0#32).getLsbD (bit % 32) = true := by
  unfold fosBitArrayIsSet bitarrayCreateMask
  rw [decide_eq_true_iff]
  exact and_mask_ne_zero (Nat.mod_lt _ (by decide))

theorem eq_iff_word_bit : bit' = bit ↔ bit' / 32 = bit / 32 ∧ bit' % 32 = bit % 32 := by
  refine ⟨fun same => same ▸ ⟨rfl, rfl⟩, fun ⟨word, pos⟩ => ?_⟩
  rw [← Nat.div_add_mod bit' 32, word, pos, Nat.div_add_mod]

theorem getD_modify {f : BitWord → BitWord} {i j : Nat} (lt : i < bitarray.length) :
    (bitarray.modify i f).getD j 0#32 = if j = i then f (bitarray.getD j 0#32) else bitarray.getD j 0#32 := by
  simp only [List.getD_eq_getElem?_getD, List.getElem?_modify]
  split_ifs with same other other
  · rw [← same, List.getElem?_eq_getElem lt]
    rfl
  · exact absurd same.symm other
  · exact absurd other.symm same
  · simp

theorem isSet_set (lt : bit / 32 < bitarray.length) : fosBitArrayIsSet (fosBitArraySet bitarray bit) bit' = true ↔
    bit' = bit ∨ fosBitArrayIsSet bitarray bit' = true := by
  rw [isSet_iff, isSet_iff, fosBitArraySet, bitarrayCreateMask, bitarrayBitsPerInt, getD_modify lt]
  split_ifs with word
  · rw [BitVec.getLsbD_or, Bool.or_eq_true, getLsbD_mask (Nat.mod_lt _ (by decide)), decide_eq_true_iff]
    exact ⟨fun set => set.symm.imp_left fun pos => eq_iff_word_bit.mpr ⟨word, pos.symm⟩, fun set => (set.imp_left fun same => same ▸ rfl).symm⟩
  · exact ⟨.inr, fun set => set.resolve_left fun same => word (same ▸ rfl)⟩

theorem isSet_clear (lt : bit / 32 < bitarray.length) : fosBitArrayIsSet (fosBitArrayClear bitarray bit) bit' = true ↔
    bit' ≠ bit ∧ fosBitArrayIsSet bitarray bit' = true := by
  rw [isSet_iff, isSet_iff, fosBitArrayClear, bitarrayCreateMask, bitarrayBitsPerInt, getD_modify lt]
  split_ifs with word
  · rw [BitVec.getLsbD_and, BitVec.getLsbD_not, getLsbD_mask (Nat.mod_lt _ (by decide)), decide_eq_true (Nat.mod_lt bit' (by decide))]
    simp only [Bool.true_and, Bool.and_eq_true, Bool.not_eq_true', decide_eq_false_iff_not]
    exact ⟨fun set => ⟨fun same => set.2 (same ▸ rfl), set.1⟩, fun set => ⟨set.2, fun pos => set.1 (eq_iff_word_bit.mpr ⟨word, pos.symm⟩)⟩⟩
  · exact ⟨fun set => ⟨fun same => word (same ▸ rfl), set⟩, fun set => set.2⟩

theorem length_set : (fosBitArraySet bitarray bit).length = bitarray.length := List.length_modify ..

theorem length_clear : (fosBitArrayClear bitarray bit).length = bitarray.length := List.length_modify ..

/-! ### The first clear bit -/

theorem findFirstSetLoop_spec : ∀ {steps index : Nat}, steps + index = 33 → (∃ i, index ≤ i ∧ i < 32 ∧ value.getLsbD i = true) →
    value.getLsbD (findFirstSetLoop value steps (1#32 <<< index) index) = true ∧
      findFirstSetLoop value steps (1#32 <<< index) index < 32 ∧
      ∀ i, index ≤ i → i < findFirstSetLoop value steps (1#32 <<< index) index → value.getLsbD i = false
  | 0, index, isSteps, ⟨i, le, lt, _⟩ => by omega
  | steps + 1, index, isSteps, ⟨i, le, lt, isSet⟩ => by
    have inside : index < 32 := by omega
    rw [findFirstSetLoop, if_neg (mask_ne_zero inside), ← BitVec.shiftLeft_add]
    by_cases here : value.getLsbD index = true
    · rw [if_pos ((and_mask_ne_zero inside).mpr here)]
      exact ⟨here, inside, fun i le lt => absurd lt (Nat.not_lt.mpr le)⟩
    · rw [if_neg fun set => here ((and_mask_ne_zero inside).mp set)]
      have later : index + 1 ≤ i := Nat.lt_of_le_of_ne le fun same => here (same ▸ isSet)
      obtain ⟨found, within, first⟩ := @findFirstSetLoop_spec steps (index + 1) (by omega) ⟨i, later, lt, isSet⟩
      refine ⟨found, within, fun j le' lt' => ?_⟩
      rcases Nat.eq_or_lt_of_le le' with rfl | after
      · exact Bool.eq_false_iff.mpr here
      · exact first j after lt'

theorem findFirstSet_spec (some : value ≠ 0#32) : value.getLsbD (fosBitArrayFindFirstSet value) = true ∧ fosBitArrayFindFirstSet value < 32 ∧
    ∀ i < fosBitArrayFindFirstSet value, value.getLsbD i = false := by
  have isSet : ∃ i, 0 ≤ i ∧ i < 32 ∧ value.getLsbD i = true := by
    by_contra none
    refine some (BitVec.eq_of_getLsbD_eq fun i lt => ?_)
    rw [BitVec.getLsbD_zero]
    exact Bool.eq_false_iff.mpr fun set => none ⟨i, Nat.zero_le i, lt, set⟩
  obtain ⟨found, within, first⟩ := @findFirstSetLoop_spec value 33 0 rfl isSet
  exact ⟨found, within, fun i => first i (Nat.zero_le i)⟩

structure FirstClear (bitarray : List BitWord) (nbits result : Nat) : Prop where
  le : result ≤ nbits
  before : ∀ bit < result, fosBitArrayIsSet bitarray bit = true
  here : result < nbits → fosBitArrayIsSet bitarray result = false

theorem findClearLoop_spec : ∀ {left arrayI : Nat}, 32 * (arrayI + left) = nbits → (∀ bit < arrayI * 32, fosBitArrayIsSet bitarray bit = true) →
    FirstClear bitarray nbits (findClearLoop bitarray nbits left arrayI)
  | 0, arrayI, isEnd, before => ⟨Nat.le_refl _, fun bit lt => before bit (by rw [findClearLoop] at lt; omega), fun lt => absurd lt (Nat.lt_irrefl _)⟩
  | left + 1, arrayI, isEnd, before => by
    rw [findClearLoop]
    by_cases full : bitarray.getD arrayI 0#32 = ~~~0#32
    · rw [if_neg (not_not_intro full)]
      refine findClearLoop_spec (by omega) fun bit lt => ?_
      by_cases earlier : bit < arrayI * 32
      · exact before bit earlier
      · have word : bit / 32 = arrayI := by omega
        rw [isSet_iff, word, full, BitVec.getLsbD_not, BitVec.getLsbD_zero, decide_eq_true (Nat.mod_lt bit (by decide))]
        rfl
    · rw [if_pos full]
      have some : ~~~bitarray.getD arrayI 0#32 ≠ 0#32 := fun zero => full (BitVec.not_inj.mp (zero.trans BitVec.not_not.symm))
      obtain ⟨found, within, first⟩ := findFirstSet_spec some
      have word : ∀ j < 32, fosBitArrayIsSet bitarray (arrayI * 32 + j) = true ↔ (~~~bitarray.getD arrayI 0#32).getLsbD j = false := by
        intro j lt
        have isWord : (arrayI * 32 + j) / 32 = arrayI := by omega
        have isBit : (arrayI * 32 + j) % 32 = j := by omega
        rw [isSet_iff, isWord, isBit, BitVec.getLsbD_not, decide_eq_true lt, Bool.true_and, Bool.not_eq_false']
      refine ⟨?_, fun bit lt => ?_, fun _ => ?_⟩
      · rw [bitarrayBitsPerInt]
        omega
      · by_cases earlier : bit < arrayI * 32
        · exact before bit earlier
        · rw [bitarrayBitsPerInt] at lt
          obtain ⟨j, rfl⟩ := Nat.exists_eq_add_of_le (Nat.not_lt.mp earlier)
          exact (word j (by omega)).mpr (first j (by omega))
      · refine Bool.eq_false_iff.mpr fun set => ?_
        exact absurd (found.symm.trans ((word _ within).mp set)) Bool.noConfusion

theorem findClear_spec (words : nbits % 32 = 0) : FirstClear bitarray nbits (fosBitArrayFindClear bitarray nbits) :=
  findClearLoop_spec (by rw [bitarrayBitsPerInt]; omega) fun bit lt => absurd lt (by omega)

end Faux
