import Mathlib.Tactic

/-!
# Bitmaps

A word whose bits are set, cleared and tested with the mask `1 << i`.
-/

namespace CrosEc
namespace Lib

variable {w : Nat}

/-- The test of a bit. -/
theorem and_bit_ne_zero_iff (x : BitVec w) {i : Nat} (hi : i < w) :
    x &&& (1#w <<< i) ≠ 0#w ↔ x.getLsbD i := by
  have hbit : x &&& (1#w <<< i) = if x.getLsbD i then BitVec.twoPow w i else 0#w := by
    rw [← BitVec.twoPow_eq, BitVec.and_twoPow]
  have hpow : BitVec.twoPow w i ≠ 0#w := by
    intro h
    have := congrArg (·.getLsbD i) h
    simp [hi] at this
  rw [hbit]
  split <;> simp_all

/-- The test of all the bits of a mask. -/
theorem and_eq_mask_iff (x mask : BitVec w) :
    x &&& mask = mask ↔ ∀ i, mask.getLsbD i = true → x.getLsbD i = true := by
  constructor
  · intro h i hi
    rw [← h, BitVec.getLsbD_and, Bool.and_eq_true] at hi
    exact hi.1
  · intro h
    refine BitVec.eq_of_getLsbD_eq fun i _ => ?_
    rw [BitVec.getLsbD_and]
    cases hi : mask.getLsbD i with
    | true => rw [h i hi, Bool.true_and]
    | false => rw [Bool.and_false]

/-- The test of any bit of a mask. -/
theorem and_mask_ne_zero_iff (x mask : BitVec w) :
    x &&& mask ≠ 0#w ↔ ∃ i, mask.getLsbD i = true ∧ x.getLsbD i = true := by
  constructor
  · intro h
    by_contra hnone
    push Not at hnone
    refine h (BitVec.eq_of_getLsbD_eq fun i _ => ?_)
    rw [BitVec.getLsbD_and, BitVec.getLsbD_zero]
    cases hi : mask.getLsbD i with
    | true => rw [Bool.eq_false_iff.mpr (hnone i hi), Bool.false_and]
    | false => rw [Bool.and_false]
  · rintro ⟨i, hmask, hx⟩ h
    have hand := congrArg (·.getLsbD i) h
    simp [hmask, hx] at hand

/-- The bits after one of them is set. -/
theorem getLsbD_or_bit (x : BitVec w) {i : Nat} (hi : i < w) (j : Nat) :
    (x ||| 1#w <<< i).getLsbD j = (x.getLsbD j || decide (i = j)) := by
  rw [← BitVec.twoPow_eq, BitVec.getLsbD_or, BitVec.getLsbD_twoPow]
  simp [hi]

/-- The bits of a word with one bit set. -/
theorem getLsbD_bit {i : Nat} (hi : i < w) (j : Nat) :
    (1#w <<< i).getLsbD j = decide (i = j) := by
  rw [← BitVec.zero_or (x := 1#w <<< i), getLsbD_or_bit 0#w hi, BitVec.getLsbD_zero, Bool.false_or]

/-- The bits after one of them is cleared. -/
theorem getLsbD_and_not_bit (x : BitVec w) {i j : Nat} (hj : j < w) :
    (x &&& ~~~(1#w <<< i)).getLsbD j = (x.getLsbD j && !decide (i = j)) := by
  rw [← BitVec.twoPow_eq, BitVec.getLsbD_and, BitVec.getLsbD_not, BitVec.getLsbD_twoPow]
  by_cases h : i = j
  · subst h
    simp [hj]
  · simp [h, hj]

end Lib
end CrosEc
