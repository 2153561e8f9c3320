import CrosEc.Dcrypto.Division
import Mathlib.Data.Nat.Bitwise

/-!
# The shift of a long division

Before its main loop `bn_div_ex` shifts both numbers up until the top bit of the divisor is set, and
behind it shifts the remainder down again.  Up is a multiplication, as there is room for the bits
that leave the top word; down is a division, which drops what is below.
-/

namespace CrosEc
namespace Dcrypto

open Lib Words

/-! ## The shift factor -/

/-- The top bit of a word -/
theorem and_topBit_eq_zero_iff (x : UInt32) : x &&& 0x80000000 = 0 ↔ x.toNat < 2 ^ 31 := by
  have hmask : (0x80000000 : UInt32).toNat = 2 ^ 31 := rfl
  have hx := x.toNat_lt
  rw [← UInt32.toNat_inj, UInt32.toNat_and, hmask, UInt32.toNat_zero, Nat.and_two_pow,
    Nat.testBit_eq_decide_div_mod_eq]
  have hbit : x.toNat / 2 ^ 31 % 2 = 0 ↔ x.toNat < 2 ^ 31 := by omega
  rw [← hbit]
  rcases Nat.mod_two_eq_zero_or_one (x.toNat / 2 ^ 31) with h | h <;> simp only [h] <;> decide

/-- `k` is enough for the loop, when a shift by `k` would empty the word. -/
theorem shiftFactor_spec {k : Nat} {vtop : UInt32} (hk : k ≤ 32) (h : 2 ^ 32 ≤ vtop.toNat * 2 ^ k) :
    (shiftFactor k vtop).toNat < k ∧ 2 ^ 31 ≤ vtop.toNat * 2 ^ (shiftFactor k vtop).toNat ∧
      vtop.toNat * 2 ^ (shiftFactor k vtop).toNat < 2 ^ 32 := by
  induction k generalizing vtop with
  | zero =>
      have hlt := vtop.toNat_lt
      lia
  | succ k ih =>
      rw [shiftFactor]
      split
      · rename_i hclear
        rw [and_topBit_eq_zero_iff] at hclear
        have hshift : (vtop <<< 1).toNat = vtop.toNat * 2 := by
          rw [UInt32.toNat_shiftLeft, UInt32.toNat_one, Nat.shiftLeft_eq,
            Nat.mod_eq_of_lt (show 1 < 32 by decide), Nat.pow_one, Nat.mod_eq_of_lt (by lia)]
        obtain ⟨hlt, hlow, hhigh⟩ := @ih (vtop <<< 1) (by lia) (by
          rw [hshift, Nat.mul_assoc, ← Nat.pow_succ']
          exact h)
        have hsucc : (shiftFactor k (vtop <<< 1) + 1).toNat =
            (shiftFactor k (vtop <<< 1)).toNat + 1 := by
          rw [UInt32.toNat_add, UInt32.toNat_one]
          lia
        rw [hshift, Nat.mul_assoc, ← Nat.pow_succ'] at hlow hhigh
        rw [hsucc]
        exact ⟨by lia, hlow, hhigh⟩
      · rename_i hset
        rw [and_topBit_eq_zero_iff] at hset
        have hlt := vtop.toNat_lt
        simp only [UInt32.toNat_zero, Nat.pow_zero, Nat.mul_one]
        lia

/-! ## Up -/

section Shift

variable {s : UInt32}

/-- A word of a shifted number: the low bits of a word, and the high bits of the one below. -/
theorem toNat_shiftedWord (hpos : 0 < s.toNat) (hs : s.toNat < 32) (x y : UInt32) :
    (x <<< s ||| y >>> (32 - s)).toNat =
      x.toNat % 2 ^ (32 - s.toNat) * 2 ^ s.toNat + y.toNat / 2 ^ (32 - s.toNat) := by
  have hsub : (32 - s).toNat = 32 - s.toNat := by
    rw [UInt32.toNat_sub_of_le]
    · rfl
    · rw [UInt32.le_iff_toNat_le]
      exact hs.le
  have hradix : 2 ^ 32 = 2 ^ (32 - s.toNat) * 2 ^ s.toNat := by
    rw [← Nat.pow_add, Nat.sub_add_cancel hs.le]
  have hlow : y.toNat / 2 ^ (32 - s.toNat) < 2 ^ s.toNat := by
    refine Nat.div_lt_of_lt_mul ?_
    rw [← hradix]
    exact y.toNat_lt
  have hmod : 32 - s.toNat < 32 := by omega
  have hhigh : x.toNat * 2 ^ s.toNat % 2 ^ 32 =
      2 ^ s.toNat * (x.toNat % 2 ^ (32 - s.toNat)) := by
    rw [hradix, Nat.mul_mod_mul_right, Nat.mul_comm]
  rw [UInt32.toNat_or, UInt32.toNat_shiftLeft, UInt32.toNat_shiftRight, hsub,
    Nat.mod_eq_of_lt hs, Nat.mod_eq_of_lt hmod, Nat.shiftLeft_eq, Nat.shiftRight_eq_div_pow, hhigh,
    ← Nat.two_pow_add_eq_or_of_lt hlow, Nat.mul_comm]

/-- **Run lemma.** The words below `k`, and the bits that have left them. -/
theorem value_shiftUp (d d' : Words) {n : Nat} (hpos : 0 < s.toNat) (hs : s.toNat < 32)
    (hzero : d' 0 = d 0 <<< s)
    (hword : ∀ i, i + 1 < n → d' (i + 1) = d (i + 1) <<< s ||| d i >>> (32 - s))
    {k : Nat} (hk : k < n) :
    value d' 0 (k + 1) + (d k).toNat / 2 ^ (32 - s.toNat) * radix ^ (k + 1) =
      value d 0 (k + 1) * 2 ^ s.toNat := by
  have hradix : radix = 2 ^ (32 - s.toNat) * 2 ^ s.toNat := by
    rw [← Nat.pow_add, Nat.sub_add_cancel hs.le]
    rfl
  have hsplit (x : UInt32) : x.toNat * 2 ^ s.toNat =
      x.toNat % 2 ^ (32 - s.toNat) * 2 ^ s.toNat + x.toNat / 2 ^ (32 - s.toNat) * radix := by
    conv_lhs => rw [← Nat.mod_add_div x.toNat (2 ^ (32 - s.toNat))]
    rw [hradix]
    ring
  induction k with
  | zero =>
      have hlow := toNat_shiftedWord hpos hs (d 0) 0
      rw [UInt32.zero_shiftRight, UInt32.or_zero, UInt32.toNat_zero, Nat.zero_div, Nat.add_zero]
        at hlow
      rw [value_one, value_one, hzero, hlow, pow_one, hsplit]
  | succ k ih =>
      have hrun := ih (by omega)
      have hsum := hsplit (d (k + 1))
      rw [value_succ d' 0 (k + 1), value_succ d 0 (k + 1), Nat.zero_add, hword k hk,
        toNat_shiftedWord hpos hs, Nat.pow_succ radix (k + 1)]
      linear_combination hrun - radix ^ (k + 1) * hsum

theorem toNat_pos_of_ne_zero (h : s ≠ 0) : 0 < s.toNat :=
  Nat.pos_of_ne_zero fun h0 => h (UInt32.toNat_inj.mp h0)

/-- **The divisor**, which fits into its words after the shift. -/
theorem value_normalizeV {v : Words} {n : Nat} (mem : Words) (hn : 0 < n) (hs : s.toNat < 32)
    (hfits : value v 0 n * 2 ^ s.toNat < radix ^ n) :
    value (normalizeV mem v n s) 0 n = value v 0 n * 2 ^ s.toNat := by
  obtain ⟨k, rfl⟩ := Nat.exists_eq_succ_of_ne_zero hn.ne'
  by_cases hzero : s = 0
  · subst hzero
    rw [UInt32.toNat_zero, Nat.pow_zero, Nat.mul_one]
    refine value_congr fun i hi => ?_
    rw [normalizeV, if_neg (not_not.mpr rfl), Nat.zero_add, if_pos hi]
  · have hpos := toNat_pos_of_ne_zero hzero
    have hup := value_shiftUp v (normalizeV mem v (k + 1) s) (n := k + 1) hpos hs
      (by rw [normalizeV, if_pos hzero, if_pos rfl])
      (fun i hi => by
        rw [normalizeV, if_pos hzero, if_neg (Nat.succ_ne_zero i), if_pos hi, Nat.add_sub_cancel])
      (Nat.lt_succ_self k)
    -- no bit has left the top word
    have hout : (v k).toNat / 2 ^ (32 - s.toNat) = 0 := by
      by_contra hne
      have hle : radix ^ (k + 1) ≤ (v k).toNat / 2 ^ (32 - s.toNat) * radix ^ (k + 1) :=
        Nat.le_mul_of_pos_left _ (Nat.pos_of_ne_zero hne)
      exact absurd (hle.trans ((Nat.le_add_left ..).trans hup.le)) (Nat.not_le.mpr hfits)
    rw [hout, Nat.zero_mul, Nat.add_zero] at hup
    exact hup

/-- **The dividend**, with one more word. -/
theorem value_normalizeU {u : Words} {m : Nat} (mem : Words) (hm : 0 < m) (hs : s.toNat < 32) :
    value (normalizeU mem u m s) 0 (m + 1) = value u 0 m * 2 ^ s.toNat := by
  obtain ⟨k, rfl⟩ := Nat.exists_eq_succ_of_ne_zero hm.ne'
  by_cases hzero : s = 0
  · subst hzero
    rw [UInt32.toNat_zero, Nat.pow_zero, Nat.mul_one, value_succ, Nat.zero_add]
    have htop : normalizeU mem u (k + 1) 0 (k + 1) = 0 := by
      rw [normalizeU, if_neg (not_not.mpr rfl), if_neg (lt_irrefl _), if_pos rfl]
    rw [htop, UInt32.toNat_zero, Nat.zero_mul, Nat.add_zero]
    refine value_congr fun i hi => ?_
    rw [normalizeU, if_neg (not_not.mpr rfl), Nat.zero_add, if_pos hi]
  · have hpos := toNat_pos_of_ne_zero hzero
    have hup := value_shiftUp u (normalizeU mem u (k + 1) s) (n := k + 1) hpos hs
      (by rw [normalizeU, if_pos hzero, if_neg (Nat.succ_ne_zero k).symm, if_pos rfl])
      (fun i hi => by
        rw [normalizeU, if_pos hzero, if_neg hi.ne, if_neg (Nat.succ_ne_zero i), if_pos hi,
          Nat.add_sub_cancel])
      (Nat.lt_succ_self k)
    have htop : (normalizeU mem u (k + 1) s (k + 1)).toNat = (u k).toNat / 2 ^ (32 - s.toNat) := by
      have hword := toNat_shiftedWord hpos hs 0 (u k)
      rw [UInt32.zero_shiftLeft, UInt32.zero_or, UInt32.toNat_zero, Nat.zero_mod, Nat.zero_mul,
        Nat.zero_add] at hword
      rw [normalizeU, if_pos hzero, if_pos rfl, Nat.add_sub_cancel, hword]
    rw [value_succ, Nat.zero_add, htop]
    exact hup

/-! ## Down -/

/-- **The remainder** loses the bits that are shifted out. -/
theorem value_denormalize (r un : Words) {n : Nat} (hn : 0 < n) (hs : s.toNat < 32) :
    value (denormalize r un n s) 0 n = value un 0 n / 2 ^ s.toNat := by
  obtain ⟨k, rfl⟩ := Nat.exists_eq_succ_of_ne_zero hn.ne'
  by_cases hzero : s = 0
  · subst hzero
    rw [UInt32.toNat_zero, Nat.pow_zero, Nat.div_one]
    refine value_congr fun i hi => ?_
    rw [denormalize, if_neg (not_not.mpr rfl), Nat.zero_add, if_pos hi]
  have hpos := toNat_pos_of_ne_zero hzero
  have hradix : radix = 2 ^ (32 - s.toNat) * 2 ^ s.toNat := by
    rw [← Nat.pow_add, Nat.sub_add_cancel hs.le]
    rfl
  -- the shift by `s` down is one by `32 - s` up, a word higher
  have hsub : (32 - s).toNat = 32 - s.toNat := by
    rw [UInt32.toNat_sub_of_le]
    · rfl
    · rw [UInt32.le_iff_toNat_le]
      exact hs.le
  have hback : (32 : UInt32) - (32 - s) = s := by
    grind
  have hword (i : Nat) (hi : i < k) : (denormalize r un (k + 1) s i).toNat =
      (un i).toNat / 2 ^ s.toNat + (un (i + 1)).toNat % 2 ^ s.toNat * 2 ^ (32 - s.toNat) := by
    have hshift := toNat_shiftedWord (s := 32 - s) (by lia) (by lia) (un (i + 1)) (un i)
    rw [hback, hsub, Nat.sub_sub_self hs.le] at hshift
    rw [denormalize, if_pos hzero, if_pos (by lia), UInt32.or_comm, hshift, Nat.add_comm]
  have htop : (denormalize r un (k + 1) s k).toNat = (un k).toNat / 2 ^ s.toNat := by
    rw [denormalize, if_pos hzero, if_neg (lt_irrefl _), if_pos rfl, Nat.add_sub_cancel,
      UInt32.toNat_shiftRight, Nat.mod_eq_of_lt hs, Nat.shiftRight_eq_div_pow]
  have hsplit (x : UInt32) : x.toNat = x.toNat / 2 ^ s.toNat * 2 ^ s.toNat + x.toNat % 2 ^ s.toNat := by
    rw [Nat.mul_comm]
    exact (Nat.div_add_mod ..).symm
  have hrun (i : Nat) (hi : i ≤ k) :
      value (denormalize r un (k + 1) s) 0 i * 2 ^ s.toNat + (un 0).toNat % 2 ^ s.toNat =
        value un 0 i + (un i).toNat % 2 ^ s.toNat * radix ^ i := by
    induction i with
    | zero => simp
    | succ i ih =>
        have hprev := ih (by lia)
        have hparts := hsplit (un i)
        rw [value_succ, value_succ, Nat.zero_add, hword i (by lia), Nat.pow_succ, hradix]
        rw [hradix] at hprev
        linear_combination hprev - (2 ^ (32 - s.toNat) * 2 ^ s.toNat) ^ i * hparts
  have hlow : (un 0).toNat % 2 ^ s.toNat < 2 ^ s.toNat := Nat.mod_lt _ (by positivity)
  have hall : value (denormalize r un (k + 1) s) 0 (k + 1) * 2 ^ s.toNat +
      (un 0).toNat % 2 ^ s.toNat = value un 0 (k + 1) := by
    have hparts := hsplit (un k)
    rw [value_succ, value_succ, Nat.zero_add, htop]
    linear_combination hrun k le_rfl - radix ^ k * hparts
  rw [← hall, Nat.mul_comm, Nat.mul_add_div (by positivity), Nat.div_eq_of_lt hlow, Nat.add_zero]

end Shift

end Dcrypto
end CrosEc
