import CrosEc.Dcrypto.Bignum

/-!
# `chip/g/dcrypto/bn.c`: the remainder by 65537

`bn_mod_f4` reads a number byte by byte from the top.  It takes off the multiple of 65537 that the
upper bits of the last remainder suggest, or one less of them, which leaves a remainder below
`2 ^ 17` in any case.  None of the operations wraps, and one subtraction at the end is enough.
-/

namespace CrosEc
namespace Dcrypto

open Lib Words

/-- `RSA_F4` -/
def rsaF4 : UInt32 := 65537

/-- `p[i]`, a byte of the words of a number -/
def byteAt (d : Words) (i : Nat) : UInt8 := UInt8.ofNat ((d (i / 4)).toNat / 256 ^ (i % 4))

/-- The multiple of `RSA_F4` that one round takes off. -/
def f4Multiple (rem : UInt32) : UInt32 :=
  let q := rsaF4 * (rem >>> 8)
  if rem < q then q - rsaF4 else q

/-- One round of the loop of `bn_mod_f4`. -/
def f4Step (rem : UInt32) (p : UInt8) : UInt32 := (rem <<< 8 ||| p.toUInt32) - f4Multiple rem

/-- `rem` after the first rounds, which read the bytes from `size - 1` down. -/
def f4Loop (d : Words) (size : Nat) : Nat → UInt32
  | 0 => 0
  | k + 1 => f4Step (f4Loop d size k) (byteAt d (size - 1 - k))

/-- `bn_mod_f4` -/
def bnModF4 (d : LiteBignum) : UInt32 :=
  let rem := f4Loop d.d (bnSize d) (bnSize d)
  if rem ≥ rsaF4 then rem - rsaF4 else rem

/-! ## Bytes -/

theorem pow_byte (i : Nat) : 256 ^ i = radix ^ (i / 4) * 256 ^ (i % 4) := by
  rw [show radix = 256 ^ 4 from rfl, ← Nat.pow_mul, ← Nat.pow_add, Nat.div_add_mod]

/-- The bytes of a number -/
theorem toNat_byteAt {d : Words} {n i : Nat} (hi : i < 4 * n) :
    (byteAt d i).toNat = value d 0 n / 256 ^ i % 256 := by
  have hword : (d (0 + i / 4)).toNat = value d 0 n / radix ^ (i / 4) % radix :=
    toNat_eq_digit (by omega)
  rw [Nat.zero_add] at hword
  have hsplit : radix = 256 ^ (i % 4 + 1) * 256 ^ (3 - i % 4) := by
    rw [← Nat.pow_add, show i % 4 + 1 + (3 - i % 4) = 4 by omega]
    rfl
  have hbyte (x : Nat) : x % radix / 256 ^ (i % 4) % 256 = x / 256 ^ (i % 4) % 256 := by
    rw [hsplit, Nat.pow_succ, Nat.mul_assoc, Nat.mod_mul_right_div_self,
      Nat.mod_mod_of_dvd _ (dvd_mul_right ..)]
  rw [byteAt, UInt8.toNat_ofNat', hword, pow_byte i, ← Nat.div_div_eq_div_mul]
  exact hbyte _

/-- The bytes from `i` on -/
theorem value_div_byte {d : Words} {n i : Nat} (hi : i < 4 * n) :
    value d 0 n / 256 ^ i = value d 0 n / 256 ^ (i + 1) * 256 + (byteAt d i).toNat := by
  rw [toNat_byteAt hi, Nat.pow_succ, ← Nat.div_div_eq_div_mul, Nat.mul_comm]
  exact (Nat.div_add_mod ..).symm

/-! ## A round -/

/-- None of the operations of a round wraps. -/
structure NoWrap (rem : UInt32) (p : UInt8) : Prop where
  product : rsaF4.toNat * (rem >>> 8).toNat < 2 ^ 32
  back : rem < rsaF4 * (rem >>> 8) → rsaF4 ≤ rsaF4 * (rem >>> 8)
  shift : rem.toNat * 2 ^ 8 < 2 ^ 32
  difference : f4Multiple rem ≤ rem <<< 8 ||| p.toUInt32

section Round

variable {rem : UInt32}

theorem toNat_f4Product (h : rem.toNat < 2 ^ 17) :
    (rsaF4 * (rem >>> 8)).toNat = 65537 * (rem.toNat / 256) := by
  have hshift : (rem >>> 8).toNat = rem.toNat / 256 := by
    rw [UInt32.toNat_shiftRight, Nat.shiftRight_eq_div_pow]
    rfl
  rw [UInt32.toNat_mul, hshift]
  exact Nat.mod_eq_of_lt (by change 65537 * _ < _; omega)

/-- What a round takes off -/
theorem toNat_f4Multiple (h : rem.toNat < 2 ^ 17) :
    (f4Multiple rem).toNat = 65537 * (rem.toNat / 256 - 1) := by
  have hproduct := toNat_f4Product h
  rw [f4Multiple]
  by_cases hlt : rem < rsaF4 * (rem >>> 8)
  · have hlt' := UInt32.lt_iff_toNat_lt.mp hlt
    rw [if_pos hlt, UInt32.toNat_sub_of_le, hproduct]
    · change 65537 * _ - 65537 = _
      lia
    · rw [UInt32.le_iff_toNat_le, hproduct]
      change 65537 ≤ _
      lia
  · have hge := UInt32.lt_iff_toNat_lt.not.mp hlt
    rw [if_neg hlt, hproduct]
    lia

theorem toNat_f4Shift (h : rem.toNat < 2 ^ 17) (p : UInt8) :
    (rem <<< 8 ||| p.toUInt32).toNat = rem.toNat * 256 + p.toNat := by
  have hp := p.toNat_lt
  have hshift : (rem <<< 8).toNat = rem.toNat <<< 8 := by
    rw [UInt32.toNat_shiftLeft]
    exact Nat.mod_eq_of_lt (by change rem.toNat <<< 8 < _; rw [Nat.shiftLeft_eq]; omega)
  rw [UInt32.toNat_or, hshift, UInt8.toNat_toUInt32, ← Nat.shiftLeft_add_eq_or_of_lt hp,
    Nat.shiftLeft_eq]

theorem noWrap_of_lt (h : rem.toNat < 2 ^ 17) (p : UInt8) : NoWrap rem p := by
  have hproduct := toNat_f4Product h
  refine ⟨?_, fun hlt => ?_, by lia, ?_⟩
  · have hshift : (rem >>> 8).toNat = rem.toNat / 256 := by
      rw [UInt32.toNat_shiftRight, Nat.shiftRight_eq_div_pow]
      rfl
    rw [hshift]
    change 65537 * _ < _
    lia
  · have hlt' := UInt32.lt_iff_toNat_lt.mp hlt
    rw [UInt32.le_iff_toNat_le]
    change 65537 ≤ _
    lia
  · rw [UInt32.le_iff_toNat_le, toNat_f4Multiple h, toNat_f4Shift h]
    lia

/-- **Step lemma.** The remainder stays below `2 ^ 17`, and it is one of the number with one more
byte. -/
theorem f4Step_spec (h : rem.toNat < 2 ^ 17) (p : UInt8) :
    (f4Step rem p).toNat < 2 ^ 17 ∧
      (f4Step rem p).toNat % 65537 = (rem.toNat * 256 + p.toNat) % 65537 := by
  have hp := p.toNat_lt
  rw [f4Step, UInt32.toNat_sub_of_le _ _ (noWrap_of_lt h p).difference, toNat_f4Shift h,
    toNat_f4Multiple h]
  lia

end Round

/-! ## The loop -/

theorem f4Loop_spec (d : Words) (n : Nat) {k : Nat} (hk : k ≤ 4 * n) :
    (f4Loop d (4 * n) k).toNat < 2 ^ 17 ∧
      (f4Loop d (4 * n) k).toNat % 65537 = value d 0 n / 256 ^ (4 * n - k) % 65537 := by
  induction k with
  | zero =>
      have hlt : value d 0 n < 256 ^ (4 * n) := by
        rw [Nat.pow_mul]
        exact value_lt d 0 n
      rw [f4Loop, Nat.sub_zero, Nat.div_eq_of_lt hlt]
      decide
  | succ k ih =>
      obtain ⟨hlt, hmod⟩ := ih (by lia)
      obtain ⟨hlt', hstep⟩ := f4Step_spec hlt (byteAt d (4 * n - 1 - k))
      refine ⟨hlt', ?_⟩
      have hbyte := value_div_byte (d := d) (n := n) (i := 4 * n - 1 - k) (by lia)
      rw [show 4 * n - 1 - k + 1 = 4 * n - k by lia] at hbyte
      rw [f4Loop, hstep, show 4 * n - (k + 1) = 4 * n - 1 - k by lia, hbyte,
        Nat.add_mod, Nat.mul_mod, hmod, ← Nat.mul_mod, ← Nat.add_mod]

/-- **`bn_mod_f4`** is the remainder by 65537, and none of its operations wraps. -/
theorem bnModF4_spec (d : LiteBignum) :
    (bnModF4 d).toNat = d.val % rsaF4.toNat ∧
      ∀ k < bnSize d, NoWrap (f4Loop d.d (bnSize d) k) (byteAt d.d (bnSize d - 1 - k)) := by
  have hsize : bnSize d = 4 * d.dmax := Nat.mul_comm ..
  rw [bnModF4, hsize]
  refine ⟨?_, fun k hk => noWrap_of_lt (f4Loop_spec d.d d.dmax hk.le).1 _⟩
  obtain ⟨hlt, hmod⟩ := f4Loop_spec d.d d.dmax le_rfl
  rw [Nat.sub_self, Nat.pow_zero, Nat.div_one] at hmod
  change _ = d.val % 65537
  rw [LiteBignum.val, ← hmod]
  by_cases hge : f4Loop d.d (4 * d.dmax) (4 * d.dmax) ≥ rsaF4
  · have hge' : 65537 ≤ (f4Loop d.d (4 * d.dmax) (4 * d.dmax)).toNat :=
      UInt32.le_iff_toNat_le.mp hge
    rw [if_pos hge, UInt32.toNat_sub_of_le _ _ hge]
    change _ - 65537 = _
    omega
  · have hlt' : ¬ 65537 ≤ (f4Loop d.d (4 * d.dmax) (4 * d.dmax)).toNat :=
      UInt32.le_iff_toNat_le.not.mp hge
    rw [if_neg hge]
    omega

end Dcrypto
end CrosEc
