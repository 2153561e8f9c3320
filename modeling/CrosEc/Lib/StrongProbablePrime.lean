import Mathlib.FieldTheory.Finite.Basic
import Mathlib.Tactic

/-!
# Strong probable primes

An odd number `p` with `p - 1 = 2 ^ s * r`, `r` odd, is a strong probable prime to a base if the
power of the base by `r` is 1, or if squaring it fewer than `s` times gives `p - 1`.  A prime is one
to every base that it does not divide, as 1 has no other square roots than itself and `p - 1`.
-/

namespace CrosEc
namespace Lib

/-- `p` passes the test of Miller and Rabin for the base `a`. -/
def StrongProbablePrime (p a : Nat) : Prop :=
  ∃ s r, p - 1 = 2 ^ s * r ∧ r % 2 = 1 ∧
    (a ^ r % p = 1 ∨ ∃ i < s, a ^ (2 ^ i * r) % p = p - 1)

/-- There is one way to take the factors 2 out. -/
theorem odd_part_unique {s s' r r' : Nat} (h : 2 ^ s * r = 2 ^ s' * r') (hr : r % 2 = 1)
    (hr' : r' % 2 = 1) : s = s' ∧ r = r' := by
  induction s generalizing s' with
  | zero =>
      cases s' with
      | zero => exact ⟨rfl, by simpa using h⟩
      | succ s' =>
          rw [pow_zero, Nat.one_mul, Nat.pow_succ] at h
          have heven : r % 2 = 0 := by
            rw [h, Nat.mul_right_comm]
            exact Nat.mul_mod_left ..
          omega
  | succ s ih =>
      cases s' with
      | zero =>
          rw [pow_zero, Nat.one_mul, Nat.pow_succ] at h
          have heven : r' % 2 = 0 := by
            rw [← h, Nat.mul_right_comm]
            exact Nat.mul_mod_left ..
          omega
      | succ s' =>
          rw [Nat.pow_succ', Nat.pow_succ', Nat.mul_assoc, Nat.mul_assoc] at h
          obtain ⟨hs, hr⟩ := ih (Nat.eq_of_mul_eq_mul_left two_pos h)
          exact ⟨congrArg (· + 1) hs, hr⟩

/-- The test, for the factors that are there. -/
theorem strongProbablePrime_iff {p a s r : Nat} (h : p - 1 = 2 ^ s * r) (hr : r % 2 = 1) :
    StrongProbablePrime p a ↔ a ^ r % p = 1 ∨ ∃ i < s, a ^ (2 ^ i * r) % p = p - 1 := by
  constructor
  · rintro ⟨s', r', h', hr', htest⟩
    obtain ⟨rfl, rfl⟩ := odd_part_unique (h'.symm.trans h) hr' hr
    exact htest
  · exact fun htest => ⟨s, r, h, hr, htest⟩

/-- Where a power that is 1 modulo a prime comes from. -/
theorem eq_one_or_neg_one_of_pow {p : Nat} [Fact p.Prime] (x : ZMod p) (s : Nat)
    (h : x ^ 2 ^ s = 1) : x = 1 ∨ ∃ i < s, x ^ 2 ^ i = -1 := by
  induction s with
  | zero => exact Or.inl (by simpa using h)
  | succ s ih =>
      rw [pow_succ, pow_mul, pow_two, mul_self_eq_one_iff] at h
      rcases h with hone | hneg
      · obtain heq | ⟨i, hi, hneg⟩ := ih hone
        · exact Or.inl heq
        · exact Or.inr ⟨i, hi.trans (Nat.lt_succ_self s), hneg⟩
      · exact Or.inr ⟨s, Nat.lt_succ_self s, hneg⟩

/-- **A prime is a strong probable prime** to every base that it does not divide. -/
theorem strongProbablePrime_of_prime {p a : Nat} (hp : p.Prime) (ha : ¬ p ∣ a) :
    StrongProbablePrime p a := by
  have hfact : Fact p.Prime := ⟨hp⟩
  obtain ⟨s, r, hr, hsplit⟩ :=
    Nat.exists_eq_two_pow_mul_odd (Nat.sub_ne_zero_of_lt hp.one_lt)
  have hne : (a : ZMod p) ≠ 0 := fun h => ha ((ZMod.natCast_eq_zero_iff a p).mp h)
  have hfermat : ((a : ZMod p) ^ r) ^ 2 ^ s = 1 := by
    rw [← pow_mul, Nat.mul_comm, ← hsplit]
    exact ZMod.pow_card_sub_one_eq_one hne
  refine ⟨s, r, hsplit, Nat.odd_iff.mp hr, ?_⟩
  have hlt : p - 1 < p := Nat.sub_lt hp.pos one_pos
  rcases eq_one_or_neg_one_of_pow _ s hfermat with hone | ⟨i, hi, hneg⟩
  · left
    have hcast : ((a ^ r : Nat) : ZMod p) = (1 : Nat) := by
      rw [Nat.cast_pow, hone, Nat.cast_one]
    rw [ZMod.natCast_eq_natCast_iff', Nat.mod_eq_of_lt hp.one_lt] at hcast
    exact hcast
  · right
    have hcast : ((a ^ (2 ^ i * r) : Nat) : ZMod p) = (p - 1 : Nat) := by
      rw [Nat.cast_pow, Nat.mul_comm, pow_mul, hneg, Nat.cast_sub hp.one_le, ZMod.natCast_self,
        Nat.cast_one, zero_sub]
    rw [ZMod.natCast_eq_natCast_iff', Nat.mod_eq_of_lt hlt] at hcast
    exact ⟨i, hi, hcast⟩

end Lib
end CrosEc
