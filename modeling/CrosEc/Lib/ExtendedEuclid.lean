import Mathlib.Data.Int.ModEq
import Mathlib.Data.Nat.GCD.Basic
import Mathlib.Tactic

/-!
# The extended algorithm of Euclid

The remainders `r` and `r'` of a modulus `M` and a number `A` come with cofactors `t` and `t'`,
which are never of the same sign.  So `|t| * r' + |t'| * r` stays what it is at the beginning, `M`,
and no cofactor gets larger than `M`, nor does anything between two of them.
-/

namespace CrosEc
namespace Lib

/-- The remainders `r`, `r'` of `M` and `A`, with their cofactors. -/
structure Cofactors (M A r r' : Nat) (t t' : Int) : Prop where
  lt : r' < r
  opposite : t ≤ 0 ∧ 0 ≤ t' ∨ 0 ≤ t ∧ t' ≤ 0
  sum : |t| * r' + |t'| * r = M
  le : |t| ≤ M
  modEq : t * A ≡ r [ZMOD M]
  modEq' : t' * A ≡ r' [ZMOD M]
  gcd : Nat.gcd r r' = Nat.gcd M A

namespace Cofactors

variable {M A r r' : Nat} {t t' : Int}

theorem start (h : A < M) : Cofactors M A M A 0 1 where
  lt := h
  opposite := Or.inl ⟨le_rfl, Int.one_nonneg⟩
  sum := by rw [abs_zero, abs_one, Int.zero_mul, Int.zero_add, Int.one_mul]
  le := by
    rw [abs_zero]
    exact Int.natCast_nonneg M
  modEq := by
    rw [Int.zero_mul]
    exact (Int.modEq_zero_iff_dvd.mpr dvd_rfl).symm
  modEq' := by rw [Int.one_mul]
  gcd := rfl

/-- Cofactors of opposite signs add up. -/
theorem abs_sub_mul (h : Cofactors M A r r' t t') {k : Int} (hk : 0 ≤ k) :
    |t - k * t'| = |t| + k * |t'| := by
  rcases h.opposite with ⟨ht, ht'⟩ | ⟨ht, ht'⟩
  · rw [abs_of_nonpos ht, abs_of_nonneg ht', abs_of_nonpos]
    · ring
    · have hmul := mul_nonneg hk ht'
      omega
  · rw [abs_of_nonneg ht, abs_of_nonpos ht', abs_of_nonneg]
    · ring
    · have hmul := mul_nonneg hk (neg_nonneg.mpr ht')
      linarith

theorem abs_le' (h : Cofactors M A r r' t t') : |t'| ≤ M := by
  have hr : (1 : Int) ≤ r := by exact_mod_cast Nat.one_le_of_lt h.lt
  calc |t'| ≤ |t'| * r := le_mul_of_one_le_right (abs_nonneg t') hr
    _ ≤ |t| * r' + |t'| * r :=
        le_add_of_nonneg_left (mul_nonneg (abs_nonneg t) (Int.natCast_nonneg _))
    _ = M := h.sum

/-- **Step lemma.** -/
theorem step (h : Cofactors M A r r' t t') (hpos : 0 < r') :
    Cofactors M A r' (r % r') t' (t - (r / r' : Nat) * t') where
  lt := Nat.mod_lt _ hpos
  opposite := by
    have hquot : (0 : Int) ≤ (r / r' : Nat) := Int.natCast_nonneg _
    rcases h.opposite with ⟨ht, ht'⟩ | ⟨ht, ht'⟩
    · have hmul := mul_nonneg hquot ht'
      exact Or.inr ⟨ht', by omega⟩
    · have hmul := mul_nonneg hquot (neg_nonneg.mpr ht')
      exact Or.inl ⟨ht', by linarith⟩
  sum := by
    have hparts : (r : Int) = r' * (r / r' : Nat) + (r % r' : Nat) := by
      exact_mod_cast (Nat.div_add_mod r r').symm
    rw [h.abs_sub_mul (Int.natCast_nonneg _), ← h.sum]
    linear_combination -|t'| * hparts
  le := h.abs_le'
  modEq := h.modEq'
  modEq' := by
    have hparts : ((r % r' : Nat) : Int) = r - (r / r' : Nat) * r' := by
      have hsum : (r : Int) = r' * (r / r' : Nat) + (r % r' : Nat) := by
        exact_mod_cast (Nat.div_add_mod r r').symm
      linear_combination -hsum
    rw [hparts]
    calc (t - (r / r' : Nat) * t') * A = t * A - (r / r' : Nat) * (t' * A) := by ring
      _ ≡ r - (r / r' : Nat) * r' [ZMOD M] := h.modEq.sub (h.modEq'.mul_left _)
  gcd := by rw [← h.gcd, Nat.gcd_comm, ← Nat.gcd_rec, Nat.gcd_comm]

/-- **What lies between two cofactors** is not larger than the modulus. -/
theorem abs_sub_mul_le (h : Cofactors M A r r' t t') (hpos : 0 < r') {k : Nat} (hk : k ≤ r / r') :
    |t - k * t'| ≤ M := by
  have hone : (1 : Int) ≤ r' := by exact_mod_cast hpos
  have hfits : (k : Int) * r' ≤ r := by
    exact_mod_cast (Nat.mul_le_mul_right r' hk).trans (Nat.div_mul_le_self r r')
  calc |t - k * t'| ≤ |t - k * t'| * r' := le_mul_of_one_le_right (abs_nonneg _) hone
    _ = |t| * r' + |t'| * (k * r') := by
        rw [h.abs_sub_mul (Int.natCast_nonneg k)]
        ring
    _ ≤ |t| * r' + |t'| * r := by
        have hmul := mul_le_mul_of_nonneg_left hfits (abs_nonneg t')
        omega
    _ = M := h.sum

/-- So is what is taken off. -/
theorem abs_mul_le (h : Cofactors M A r r' t t') (hpos : 0 < r') : |(r / r' : Nat) * t'| ≤ M := by
  have hquot : (0 : Int) ≤ (r / r' : Nat) := Int.natCast_nonneg _
  calc |(r / r' : Nat) * t'| = (r / r' : Nat) * |t'| := by rw [abs_mul, abs_of_nonneg hquot]
    _ ≤ |t| + (r / r' : Nat) * |t'| := le_add_of_nonneg_left (abs_nonneg t)
    _ = |t - (r / r' : Nat) * t'| := (h.abs_sub_mul hquot).symm
    _ ≤ M := h.abs_sub_mul_le hpos le_rfl

/-- At the end with a remainder of 1 -/
theorem inverse (h : Cofactors M A 1 0 t t') (hM : 1 < M) : t ≠ 0 ∧ |t| < M := by
  -- the modulus does not divide the cofactor
  have hndvd : ¬ (M : Int) ∣ t := by
    intro hdvd
    have hzero : (1 : Int) ≡ 0 [ZMOD M] :=
      h.modEq.symm.trans (Int.modEq_zero_iff_dvd.mpr (dvd_mul_of_dvd_left hdvd _))
    have hle := Int.le_of_dvd one_pos (Int.modEq_zero_iff_dvd.mp hzero)
    omega
  refine ⟨fun hzero => hndvd (hzero ▸ dvd_zero _), lt_of_le_of_ne h.le fun heq => hndvd ?_⟩
  rw [← dvd_abs, heq]

end Cofactors

end Lib
end CrosEc
