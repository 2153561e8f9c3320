import Mathlib.Tactic

/-!
# Long division: the estimate of a digit

A digit of a quotient is estimated from the leading parts of the two numbers.  The estimate is
never too small, and with a divisor that is large for its leading part it is too large by one at
the most.  The leading part of a number is what is left of it when it is divided by a power of the
base.
-/

namespace CrosEc
namespace Lib

variable {B W c qd u v v₁ : Nat}

/-- The quotient of the leading parts is not too small. -/
theorem div_le_div_leading (hc : 0 < c) (hcv : c ≤ v) : W / v ≤ W / c / (v / c) := by
  have hpos : 0 < c * (v / c) := Nat.mul_pos hc (Nat.div_pos hcv hc)
  rw [Nat.div_div_eq_div_mul]
  exact Nat.div_le_div_left (Nat.mul_div_le v c) hpos

/-- What fits the leading parts is too large by one at the most. -/
theorem mul_le_add_of_leading (hc : 0 < c) (hqd : qd * (v / c) ≤ W / c) (hsmall : qd * c ≤ v) :
    qd * v ≤ W + v := by
  have hv : v ≤ (v / c + 1) * c := (Nat.lt_div_mul_add hc).le.trans (by rw [Nat.succ_mul])
  calc qd * v ≤ qd * ((v / c + 1) * c) := Nat.mul_le_mul_left _ hv
    _ = qd * (v / c) * c + qd * c := by ring
    _ ≤ W / c * c + v := Nat.add_le_add (Nat.mul_le_mul_right _ hqd) hsmall
    _ ≤ W + v := Nat.add_le_add_right (Nat.div_mul_le_self W c) _

/-- With equal leading digits the largest digit is too large by one at the most. -/
theorem mul_le_add_of_leading_eq (hB : B ≤ 2 * (v₁ + 1)) (hv : v ≤ (v₁ + 1) * c)
    (hW : v₁ * B * c ≤ W) : (B - 1) * v ≤ W + v := by
  rcases Nat.lt_or_ge B 2 with hsmall | hlarge
  · rw [show B - 1 = 0 by lia, Nat.zero_mul]
    exact Nat.zero_le _
  · obtain ⟨b, rfl⟩ := Nat.exists_eq_add_of_le hlarge
    have hb : b * (v₁ + 1) ≤ v₁ * (2 + b) := by
      have : b * (v₁ + 1) = v₁ * b + b := by ring
      have : v₁ * (2 + b) = v₁ * b + 2 * v₁ := by ring
      lia
    calc (2 + b - 1) * v = b * v + v := by rw [show 2 + b - 1 = b + 1 by lia, Nat.succ_mul]
      _ ≤ b * ((v₁ + 1) * c) + v := Nat.add_le_add_right (Nat.mul_le_mul_left _ hv) _
      _ = b * (v₁ + 1) * c + v := by rw [Nat.mul_assoc]
      _ ≤ v₁ * (2 + b) * c + v := Nat.add_le_add_right (Nat.mul_le_mul_right _ hb) _
      _ ≤ W + v := Nat.add_le_add_right hW _

/-- An estimate that is not too small, and that is too large by one at the most. -/
theorem eq_or_eq_succ_of_estimate (hv : 0 < v) (hlow : W / v ≤ qd) (hhigh : qd * v ≤ W + v) :
    qd = W / v ∨ qd = W / v + 1 := by
  have hle : qd ≤ W / v + 1 := by
    rw [← Nat.add_div_right _ hv]
    exact (Nat.le_div_iff_mul_le hv).mpr hhigh
  omega

/-! ## Base two -/

/-- One more bit of the dividend: the digit is a comparison, the remainder a subtraction. -/
theorem div_mod_of_bit {N d b : Nat} (hd : 0 < d) (hb : b < 2) :
    (2 * N + b) / d = 2 * (N / d) + (if d ≤ 2 * (N % d) + b then 1 else 0) ∧
      (2 * N + b) % d =
        if d ≤ 2 * (N % d) + b then 2 * (N % d) + b - d else 2 * (N % d) + b := by
  have hmod := Nat.mod_lt N hd
  have hparts : d * (2 * (N / d)) + (2 * (N % d) + b) = 2 * N + b := by
    conv_rhs => rw [← Nat.div_add_mod N d]
    ring
  split
  · rename_i hle
    refine (Nat.div_mod_unique hd).mpr ⟨?_, by lia⟩
    rw [Nat.mul_succ]
    lia
  · rename_i hlt
    rw [Nat.add_zero]
    exact (Nat.div_mod_unique hd).mpr ⟨by lia, by lia⟩

end Lib
end CrosEc
