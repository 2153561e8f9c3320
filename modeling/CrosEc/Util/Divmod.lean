import CrosEc.Lib.Bits
import CrosEc.Lib.LongDivision

/-!
# `common/util.c`: division of a 64-bit number

`uint64divmod` divides bit by bit where neither a shift nor a 32-bit division will do.  The
remainder is an `int` there, and is shifted before it is compared: a remainder of 2^30 or more
turns negative, and the bit of the quotient is lost.
-/

namespace CrosEc
namespace Util

open Lib

/-! ## The code -/

/-- `r <<= 1; if (*n & mask) r |= 1;` for `mask = 1 << k` -/
def shiftInBit (n : BitVec 64) (k : Nat) (r : BitVec 32) : BitVec 32 :=
  if n &&& 1#64 <<< k ≠ 0#64 then r <<< 1 ||| 1#32 else r <<< 1

/-- One round of the loop of `uint64divmod`, for `mask = 1 << k`, with `r` and `q`. -/
def divmodRound (n : BitVec 64) (d : BitVec 32) (k : Nat) (s : BitVec 32 × BitVec 64) :
    BitVec 32 × BitVec 64 :=
  let r := shiftInBit n k s.1
  if d.toInt ≤ r.toInt then (r - d, s.2 ||| 1#64 <<< k) else (r, s.2)

/-- `for (mask = (1ULL << 63); mask; mask >>= 1)`, with the number of bits that are left. -/
def divmodLoop (n : BitVec 64) (d : BitVec 32) : Nat → BitVec 32 × BitVec 64 → BitVec 32 × BitVec 64
  | 0, s => s
  | k + 1, s => divmodLoop n d k (divmodRound n d k s)

/-- `uint64divmod`; the results are `*n` and the value returned. -/
def uint64divmod (n : BitVec 64) (d : BitVec 32) : BitVec 64 × BitVec 32 :=
  -- divide-by-zero returns zero
  if d = 0#32 then (0#64, 0#32)
  -- common powers of 2
  else if d = 2#32 then (n >>> 1, (n &&& 1#64).setWidth 32)
  else if d = 16#32 then (n >>> 4, (n &&& 0xf#64).setWidth 32)
  else if n ≤ 0xffffffff#64 then
    let v32 := n.setWidth 32
    ((v32 / d).setWidth 64, v32 % d)
  else
    let (r, q) := divmodLoop n d 64 (0#32, 0#64)
    (q, r)

variable {n : BitVec 64} {d : BitVec 32} {k : Nat} {s : BitVec 32 × BitVec 64}

/-! ## One bit -/

/-- Bit `k` of the dividend. -/
def bit (n : BitVec 64) (k : Nat) : Nat := n.toNat / 2 ^ k % 2

theorem bit_lt (n : BitVec 64) (k : Nat) : bit n k < 2 := Nat.mod_lt _ (by decide)

theorem div_pow_eq (n : BitVec 64) (k : Nat) :
    n.toNat / 2 ^ k = 2 * (n.toNat / 2 ^ (k + 1)) + bit n k := by
  rw [bit, Nat.pow_succ, ← Nat.div_div_eq_div_mul, Nat.div_add_mod]

theorem and_mask_iff (hk : k < 64) : n &&& 1#64 <<< k ≠ 0#64 ↔ bit n k = 1 := by
  rw [and_bit_ne_zero_iff n hk, BitVec.getLsbD, Nat.testBit_eq_decide_div_mod_eq, bit,
    decide_eq_true_eq]

theorem toNat_lt_of_pos (hd : 0 < d.toInt) : 0 < d.toNat ∧ d.toNat < 2 ^ 31 := by
  rw [BitVec.toInt_eq_toNat_cond] at hd
  have hlt := d.isLt
  split at hd <;> omega

/-- The state after the bits from `k` on: quotient and remainder of what they stand for. -/
structure Exact (n : BitVec 64) (d : BitVec 32) (k : Nat) (s : BitVec 32 × BitVec 64) : Prop where
  remainder : s.1.toNat = n.toNat / 2 ^ k % d.toNat
  quotient : s.2.toNat = n.toNat / 2 ^ k / d.toNat * 2 ^ k

theorem exact_init (hn : 64 ≤ k) : Exact n d k (0#32, 0#64) := by
  have hzero : n.toNat / 2 ^ k = 0 :=
    Nat.div_eq_of_lt (n.isLt.trans_le (Nat.pow_le_pow_right (by decide) hn))
  constructor <;> simp [hzero]

/-- The remainder with the next bit shifted in. -/
theorem toNat_shiftInBit {r : BitVec 32} (hk : k < 64) (hsmall : r.toNat < 2 ^ 31) :
    (shiftInBit n k r).toNat = 2 * r.toNat + bit n k := by
  have hshift : (r <<< 1).toNat = 2 * r.toNat := by
    rw [BitVec.toNat_shiftLeft, Nat.shiftLeft_eq, Nat.mod_eq_of_lt (by omega)]
    omega
  have hbit := bit_lt n k
  rw [shiftInBit]
  by_cases hset : bit n k = 1
  · rw [if_pos ((and_mask_iff hk).mpr hset), BitVec.toNat_or, hshift, hset]
    have hor := Nat.shiftLeft_add_eq_or_of_lt (show 1 < 2 ^ 1 by decide) r.toNat
    rw [Nat.shiftLeft_eq, Nat.mul_comm] at hor
    exact hor.symm
  · rw [if_neg (mt (and_mask_iff hk).mp hset), hshift]
    omega

theorem divmodRound_eq (n : BitVec 64) (d : BitVec 32) (k : Nat) (s : BitVec 32 × BitVec 64) :
    divmodRound n d k s =
      if d.toInt ≤ (shiftInBit n k s.1).toInt then
        (shiftInBit n k s.1 - d, s.2 ||| 1#64 <<< k)
      else (shiftInBit n k s.1, s.2) := rfl

/-- **Step lemma.** A remainder below 2^30 does not turn negative, and the round is exact. -/
theorem Exact.round (h : Exact n d (k + 1) s) (hd : 0 < d.toInt) (hk : k < 64)
    (hsmall : n.toNat / 2 ^ (k + 1) % d.toNat < 2 ^ 30) : Exact n d k (divmodRound n d k s) := by
  obtain ⟨hpos, hlt⟩ := toNat_lt_of_pos hd
  have hbit := bit_lt n k
  have hr := toNat_shiftInBit (n := n) hk (h.remainder ▸ hsmall.trans (by decide))
  obtain ⟨hdiv, hmod⟩ := div_mod_of_bit (N := n.toNat / 2 ^ (k + 1)) hpos hbit
  rw [← div_pow_eq] at hdiv hmod
  rw [← h.remainder] at hdiv hmod hsmall
  rw [divmodRound_eq]
  set r := shiftInBit n k s.1
  have hcompare : d.toInt ≤ r.toInt ↔ d.toNat ≤ 2 * s.1.toNat + bit n k := by
    rw [BitVec.toInt_eq_toNat_of_lt (by omega), BitVec.toInt_eq_toNat_of_lt (by omega), hr,
      Nat.cast_le]
  have hq : n.toNat / 2 ^ (k + 1) / d.toNat * 2 ^ (k + 1) =
      2 * (n.toNat / 2 ^ (k + 1) / d.toNat) * 2 ^ k := by
    rw [Nat.pow_succ]
    ring
  split
  · rename_i hle
    rw [hcompare] at hle
    rw [if_pos hle] at hdiv hmod
    refine ⟨?_, ?_⟩
    · rw [BitVec.toNat_sub_of_le (by rw [BitVec.le_def, hr]; exact hle), hr, hmod]
    · have hmask : (1#64 <<< k).toNat = 2 ^ k := by
        rw [BitVec.toNat_shiftLeft, BitVec.toNat_ofNat, Nat.shiftLeft_eq,
          Nat.mod_eq_of_lt (show 1 < 2 ^ 64 by decide), Nat.one_mul]
        exact Nat.mod_eq_of_lt (Nat.pow_lt_pow_right (by decide) hk)
      have hor := Nat.shiftLeft_add_eq_or_of_lt
        (Nat.pow_lt_pow_right (show 1 < 2 by decide) (Nat.lt_succ_self k))
        (n.toNat / 2 ^ (k + 1) / d.toNat)
      rw [Nat.shiftLeft_eq] at hor
      rw [BitVec.toNat_or, hmask, h.quotient, ← hor, hq, hdiv]
      ring
  · rename_i hgt
    rw [hcompare] at hgt
    rw [if_neg hgt] at hdiv hmod
    exact ⟨hr.trans hmod.symm, by rw [h.quotient, hq, hdiv]; rfl⟩

/-- **Step lemma.** A remainder of 2^30 or more turns negative, and the bit of the quotient is not
set. -/
theorem Exact.overflow (h : Exact n d (k + 1) s) (hd : 0 < d.toInt) (hk : k < 64)
    (hlarge : 2 ^ 30 ≤ n.toNat / 2 ^ (k + 1) % d.toNat) :
    (divmodRound n d k s).2 = s.2 ∧ n.toNat / 2 ^ k / d.toNat % 2 = 1 := by
  obtain ⟨hpos, hlt⟩ := toNat_lt_of_pos hd
  have hbit := bit_lt n k
  have hmod := Nat.mod_lt (n.toNat / 2 ^ (k + 1)) hpos
  rw [← h.remainder] at hlarge hmod
  have hr := toNat_shiftInBit (n := n) hk (hmod.trans hlt)
  refine ⟨?_, ?_⟩
  · rw [divmodRound_eq]
    set r := shiftInBit n k s.1
    have hneg : r.toInt < 0 := by
      rw [BitVec.toInt_eq_toNat_cond]
      have hrlt := r.isLt
      split <;> lia
    rw [if_neg (by lia)]
  · obtain ⟨hdiv, -⟩ := div_mod_of_bit (N := n.toNat / 2 ^ (k + 1)) hpos hbit
    rw [← div_pow_eq, ← h.remainder, if_pos (by lia)] at hdiv
    lia

/-! ## The loop -/

/-- The bits from `k` on stay as they are. -/
theorem getLsbD_divmodLoop {j : Nat} (hj : k ≤ j) (hj64 : j < 64) :
    (divmodLoop n d k s).2.getLsbD j = s.2.getLsbD j := by
  induction k generalizing s with
  | zero => rfl
  | succ k ih =>
      rw [divmodLoop, ih (by omega), divmodRound_eq]
      split
      · rw [getLsbD_or_bit _ (by omega)]
        have hne : ¬ k = j := by omega
        simp [hne]
      · rfl

/-- **Run lemma.** The loop ends with quotient and remainder exactly when no remainder on the way
is 2^30 or more. -/
theorem Exact.loop_iff (h : Exact n d k s) (hd : 0 < d.toInt) (hk : k ≤ 64) :
    Exact n d 0 (divmodLoop n d k s) ↔ ∀ j < k, n.toNat / 2 ^ (j + 1) % d.toNat < 2 ^ 30 := by
  induction k generalizing s with
  | zero => exact ⟨fun _ j hj => absurd hj (Nat.not_lt_zero j), fun _ => h⟩
  | succ k ih =>
      rw [divmodLoop]
      by_cases hsmall : n.toNat / 2 ^ (k + 1) % d.toNat < 2 ^ 30
      · rw [ih (h.round hd (by omega) hsmall) (by omega)]
        constructor
        · intro hall j hj
          rcases Nat.lt_succ_iff_lt_or_eq.mp hj with hj | rfl
          · exact hall j hj
          · exact hsmall
        · exact fun hall j hj => hall j (by omega)
      · obtain ⟨hsame, hset⟩ := h.overflow hd (by omega) (Nat.not_lt.mp hsmall)
        refine ⟨fun hexact => absurd ?_ (by decide : ¬ (false = true)), fun hall => absurd (hall k
          (Nat.lt_succ_self k)) hsmall⟩
        -- bit k of the quotient is missing
        have hkept := getLsbD_divmodLoop (n := n) (d := d) (s := divmodRound n d k s) le_rfl
          (show k < 64 by omega)
        rw [hsame] at hkept
        have hclear : s.2.getLsbD k = false := by
          rw [BitVec.getLsbD, h.quotient]
          rw [Nat.testBit_mul_two_pow]
          simp
        have htrue : (divmodLoop n d k (divmodRound n d k s)).2.getLsbD k = true := by
          rw [BitVec.getLsbD, hexact.quotient, Nat.testBit_eq_decide_div_mod_eq, decide_eq_true_eq,
            pow_zero, Nat.div_one, Nat.mul_one, Nat.div_div_eq_div_mul, Nat.mul_comm,
            ← Nat.div_div_eq_div_mul]
          exact hset
        rw [← hclear, ← hkept, htrue]

/-! ## All paths -/

/-- `*n` is the quotient and the value returned is the remainder. -/
def Divides (n : BitVec 64) (d : BitVec 32) : Prop :=
  (uint64divmod n d).1.toNat = n.toNat / d.toNat ∧
    (uint64divmod n d).2.toInt = (n.toNat % d.toNat : Nat)

/-- Some remainder on the way is 2^30 or more: the `int` that holds it overflows when it is
shifted. -/
def RemainderOverflows (n : BitVec 64) (d : BitVec 32) : Prop :=
  ∃ j < 64, 2 ^ 30 ≤ n.toNat / 2 ^ (j + 1) % d.toNat

theorem toNat_and_pred_pow (n : BitVec 64) (m : BitVec 64) (j : Nat) (hm : m.toNat = 2 ^ j - 1)
    (hj : j ≤ 31) : ((n &&& m).setWidth 32).toInt = (n.toNat % 2 ^ j : Nat) := by
  have hlt : n.toNat % 2 ^ j < 2 ^ 31 :=
    (Nat.mod_lt _ (Nat.two_pow_pos j)).trans_le (Nat.pow_le_pow_right (by decide) hj)
  have hnat : ((n &&& m).setWidth 32).toNat = n.toNat % 2 ^ j := by
    rw [BitVec.toNat_setWidth, BitVec.toNat_and, hm, Nat.and_two_pow_sub_one_eq_mod]
    exact Nat.mod_eq_of_lt (hlt.trans (by decide))
  rw [BitVec.toInt_eq_toNat_of_lt (by omega), hnat]

/-- The powers of two: a mask and a shift. -/
theorem divides_of_shift {m : BitVec 64} {j : Nat} (hm : m.toNat = 2 ^ j - 1) (hj : j ≤ 31)
    (hd : d.toNat = 2 ^ j)
    (hcode : uint64divmod n d = (n >>> j, (n &&& m).setWidth 32)) : Divides n d := by
  rw [Divides, hcode, hd]
  exact ⟨by rw [BitVec.toNat_ushiftRight, Nat.shiftRight_eq_div_pow],
    toNat_and_pred_pow n m j hm hj⟩

/-- The 32-bit division. -/
theorem divides_of_word (hd : 0 < d.toInt) (hn : n.toNat < 2 ^ 32)
    (hcode : uint64divmod n d =
      ((n.setWidth 32 / d).setWidth 64, n.setWidth 32 % d)) : Divides n d := by
  obtain ⟨hpos, hlt⟩ := toNat_lt_of_pos hd
  have hword : (n.setWidth 32).toNat = n.toNat := by
    rw [BitVec.toNat_setWidth, Nat.mod_eq_of_lt hn]
  have hrem := Nat.mod_lt n.toNat hpos
  rw [Divides, hcode]
  constructor
  · have hle := Nat.div_le_self n.toNat d.toNat
    rw [BitVec.toNat_setWidth, BitVec.toNat_udiv, hword, Nat.mod_eq_of_lt (by omega)]
  · rw [BitVec.toInt_eq_toNat_of_lt (by rw [BitVec.toNat_umod, hword]; omega), BitVec.toNat_umod,
      hword]

theorem divides_loop_iff (hd : 0 < d.toInt)
    (hcode : uint64divmod n d =
      ((divmodLoop n d 64 (0#32, 0#64)).2, (divmodLoop n d 64 (0#32, 0#64)).1)) :
    Divides n d ↔ ¬ RemainderOverflows n d := by
  obtain ⟨hpos, hlt⟩ := toNat_lt_of_pos hd
  have hrem := Nat.mod_lt n.toNat hpos
  have hloop := (exact_init (d := d) le_rfl).loop_iff (n := n) hd le_rfl
  have hexact : Divides n d ↔ Exact n d 0 (divmodLoop n d 64 (0#32, 0#64)) := by
    rw [Divides, hcode]
    set s := divmodLoop n d 64 (0#32, 0#64)
    constructor
    · rintro ⟨hq, hr⟩
      refine ⟨?_, by simpa using hq⟩
      change s.1.toInt = (n.toNat % d.toNat : Nat) at hr
      rw [BitVec.toInt_eq_toNat_cond] at hr
      have hs := s.1.isLt
      rw [pow_zero, Nat.div_one]
      split at hr <;> lia
    · rintro ⟨hr, hq⟩
      rw [pow_zero, Nat.div_one] at hr
      refine ⟨by simpa using hq, ?_⟩
      change s.1.toInt = (n.toNat % d.toNat : Nat)
      rw [BitVec.toInt_eq_toNat_of_lt (by lia), hr]
  rw [hexact, hloop, RemainderOverflows]
  push Not
  rfl

/-- `uint64divmod` takes one of its fast paths. -/
def FastPath (n : BitVec 64) (d : BitVec 32) : Prop := d = 2#32 ∨ d = 16#32 ∨ n.toNat < 2 ^ 32

/-- **The paths of `uint64divmod`.** -/
theorem uint64divmod_paths (n : BitVec 64) (hd : 0 < d.toInt) :
    FastPath n d ∧ Divides n d ∨
      ¬ FastPath n d ∧ (Divides n d ↔ ¬ RemainderOverflows n d) := by
  have hne : d ≠ 0#32 := by
    rintro rfl
    simp at hd
  have hfits : n ≤ 0xffffffff#64 ↔ n.toNat < 2 ^ 32 := by
    rw [BitVec.le_def]
    exact Nat.lt_succ_iff.symm
  by_cases htwo : d = 2#32
  · subst htwo
    exact Or.inl ⟨Or.inl rfl, divides_of_shift (m := 1#64) (j := 1) rfl (by decide) rfl rfl⟩
  · by_cases hsixteen : d = 16#32
    · subst hsixteen
      exact Or.inl ⟨Or.inr (Or.inl rfl),
        divides_of_shift (m := 0xf#64) (j := 4) rfl (by decide) rfl rfl⟩
    · by_cases hn : n.toNat < 2 ^ 32
      · refine Or.inl ⟨Or.inr (Or.inr hn), divides_of_word hd hn ?_⟩
        rw [uint64divmod, if_neg hne, if_neg htwo, if_neg hsixteen, if_pos (hfits.mpr hn)]
      · refine Or.inr ⟨by rw [FastPath]; tauto, divides_loop_iff hd ?_⟩
        rw [uint64divmod, if_neg hne, if_neg htwo, if_neg hsixteen, if_neg (mt hfits.mp hn)]

/-- A divisor of up to 2^30 is safe. -/
theorem divides_of_le (n : BitVec 64) (hd : 0 < d.toInt) (hsmall : d.toNat ≤ 2 ^ 30) :
    Divides n d := by
  rcases uint64divmod_paths n hd with ⟨-, h⟩ | ⟨-, h⟩
  · exact h
  · refine h.mpr ?_
    rintro ⟨j, -, hle⟩
    have hmod := Nat.mod_lt (n.toNat / 2 ^ (j + 1)) (toNat_lt_of_pos hd).1
    omega

/-- **When `uint64divmod` divides.**  For every number and every positive divisor: on the fast
paths always, on the slow one exactly when no remainder on the way is 2^30 or more. -/
theorem uint64divmod_divides_iff (n : BitVec 64) (d : BitVec 32) (hd : 0 < d.toInt) :
    Divides n d ↔ FastPath n d ∨ ¬ RemainderOverflows n d := by
  rcases uint64divmod_paths n hd with ⟨hfast, h⟩ | ⟨hslow, h⟩
  · exact iff_of_true h (Or.inl hfast)
  · simp only [h, hslow, false_or]

/-- Microseconds to milliseconds, beyond 32 bits. -/
theorem uint64divmod_divides_iff_micros :
    Divides 0x10000000000#64 1000#32 ↔
      FastPath 0x10000000000#64 1000#32 ∨ ¬ RemainderOverflows 0x10000000000#64 1000#32 :=
  uint64divmod_divides_iff _ _ (by decide)

/-- 2^33 divided by 2^31 - 1 is 4, remainder 4. -/
theorem not_divides_large : ¬ Divides 0x200000000#64 0x7fffffff#32 := by
  unfold Divides
  decide +kernel

end Util
end CrosEc
