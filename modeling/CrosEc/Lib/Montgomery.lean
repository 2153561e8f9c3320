import Mathlib.Data.Int.ModEq
import Mathlib.Data.Nat.GCD.Basic
import Mathlib.Tactic

/-!
# Montgomery arithmetic

A number `v` modulo `N` is represented by a number congruent to `v * R`.  A product that is divided
by `R` represents the product of what its factors represent.  So a power is computed from
representations only, with one such product by `R * R` to get into them and one by 1 to get out.

The division by `R` is one by the radix `B` for each digit of a factor.  It is exact because a
multiple of `N` is added, which `N'`, minus the inverse of `N` modulo `B`, determines.  The inverse
itself is a matter of a few products: each squares the error.
-/

namespace CrosEc
namespace Lib
namespace Montgomery

/-! ## Representations -/

/-- `c` represents `v`. -/
def Represents (N R v c : Nat) : Prop := c ≡ v * R [MOD N]

/-- `c` is the product of `a` and `b` divided by `R`. -/
def IsProduct (N R a b c : Nat) : Prop := c * R ≡ a * b [MOD N]

section Represents

variable {N R RR a b c v w : Nat}

theorem Represents.mul (hcop : Nat.Coprime N R) (ha : Represents N R v a)
    (hb : Represents N R w b) (h : IsProduct N R a b c) : Represents N R (v * w) c := by
  refine Nat.ModEq.cancel_right_of_coprime hcop ?_
  calc c * R ≡ a * b [MOD N] := h
    _ ≡ v * R * (w * R) [MOD N] := Nat.ModEq.mul ha hb
    _ = v * w * R * R := by ring

/-- The product with `R * R` leads into the representations. -/
theorem represents_of_isProduct (hcop : Nat.Coprime N R) (hRR : RR ≡ R * R [MOD N])
    (h : IsProduct N R a RR c) : Represents N R a c := by
  refine Nat.ModEq.cancel_right_of_coprime hcop ?_
  calc c * R ≡ a * RR [MOD N] := h
    _ ≡ a * (R * R) [MOD N] := Nat.ModEq.mul_left a hRR
    _ = a * R * R := by ring

/-- The product with 1 leads out of them. -/
theorem Represents.modEq (hcop : Nat.Coprime N R) (ha : Represents N R v a)
    (h : IsProduct N R 1 a c) : c ≡ v [MOD N] := by
  refine Nat.ModEq.cancel_right_of_coprime hcop ?_
  calc c * R ≡ 1 * a [MOD N] := h
    _ = a := Nat.one_mul a
    _ ≡ v * R [MOD N] := ha

end Represents

/-! ## Reduction by a digit -/

section Reduce

variable {N N' B R a b c d t : Nat}

/-- The multiple of `N` makes the sum divisible by the radix. -/
theorem dvd_add_mul (h : B ∣ N * N' + 1) : B ∣ t + t * N' * N := by
  rw [show t + t * N' * N = t * (N * N' + 1) by ring]
  exact dvd_mul_of_dvd_right h t

/-- What is left when the radix is divided out is not too large for one subtraction. -/
theorem reduce_lt (hN : N < R) (hc : c < R) (hb : b < R) (ha : a < B) (hd : d < B)
    (h : B * t = c + a * b + d * N) : t < R + N := by
  have hab : a * b ≤ (B - 1) * (R - 1) := Nat.mul_le_mul (by lia) (by lia)
  have hdN : d * N ≤ (B - 1) * N := Nat.mul_le_mul_right N (by lia)
  obtain ⟨B, rfl⟩ := Nat.exists_eq_succ_of_ne_zero (Nat.ne_zero_of_lt ha)
  obtain ⟨R, rfl⟩ := Nat.exists_eq_succ_of_ne_zero (Nat.ne_zero_of_lt hc)
  rw [Nat.succ_sub_one, Nat.succ_sub_one] at hab
  rw [Nat.succ_sub_one] at hdN
  refine Nat.lt_of_mul_lt_mul_left (a := B + 1) ?_
  calc (B + 1) * t = c + a * b + d * N := h
    _ ≤ R + B * R + B * N := by lia
    _ = (B + 1) * R + B * N := by ring
    _ < (B + 1) * (R + 1) + B * N := by
        refine Nat.add_lt_add_right ?_ _
        exact Nat.mul_lt_mul_of_pos_left (Nat.lt_succ_self R) (Nat.succ_pos B)
    _ ≤ (B + 1) * (R + 1) + (B + 1) * N := Nat.add_le_add_left (Nat.mul_le_mul_right N (Nat.le_succ B)) _
    _ = (B + 1) * (R + 1 + N) := by ring

end Reduce

/-! ## The inverse of a digit -/

section Hensel

variable {α : Type*} [CommRing α]

/-- Each step squares the error of an inverse. -/
theorem one_sub_mul_hensel (n x : α) : 1 - n * (x * (2 - n * x)) = (1 - n * x) ^ 2 := by ring

/-- The steps, from 1. -/
def hensel (n : α) : Nat → α
  | 0 => 1
  | k + 1 => hensel n k * (2 - n * hensel n k)

theorem one_sub_mul_hensel_run (n : α) (k : Nat) : 1 - n * hensel n k = (1 - n) ^ 2 ^ k := by
  induction k with
  | zero => rw [hensel, mul_one, pow_zero, pow_one]
  | succ k ih => rw [hensel, one_sub_mul_hensel, ih, ← pow_mul, pow_succ]

/-- From an inverse modulo 2 one gets to where a power of 2 is zero. -/
theorem mul_hensel {n t : α} {k : Nat} (hodd : n = 1 + 2 * t) (hzero : (2 : α) ^ 2 ^ k = 0) :
    n * hensel n k = 1 := by
  have herror := one_sub_mul_hensel_run n k
  have hhalf : 1 - n = 2 * -t := by
    rw [hodd]
    ring
  rw [hhalf, mul_pow, hzero, zero_mul, sub_eq_zero] at herror
  exact herror.symm

end Hensel

end Montgomery
end Lib
end CrosEc
