import CrosEc.Dcrypto.Modexp
import CrosEc.Dcrypto.BignumExact
import CrosEc.Lib.Montgomery
import Mathlib.Data.UInt

/-!
# Modular powers

A Montgomery product is congruent to the product divided by `radix ^ n`, and it fits into the words
of the modulus, though it may be larger than the modulus.  `bn_compute_RR` and `bn_compute_nprime`
compute what these products need.  The loop keeps what `acc` represents: the power by the bits of
the exponent that it has read, whichever buffer `acc` has.
-/

namespace CrosEc
namespace Dcrypto

open Lib Words Montgomery

/-! ## Shift and comparison -/

theorem lshiftLoop_of_le {n i : Nat} {s : UInt32 × Words} (hi : n ≤ i) :
    (lshiftLoop n s).2 i = s.2 i := by
  induction n with
  | zero => rfl
  | succ n ih =>
      rw [lshiftLoop]
      exact (Function.update_of_ne (by omega) ..).trans (ih (by omega))

/-- A word that is shifted up, with a bit from below -/
theorem shiftedBit (x carry : UInt32) (h : carry.toNat ≤ 1) :
    (x <<< 1 ||| carry).toNat + (x >>> 31).toNat * radix = 2 * x.toNat + carry.toNat ∧
      (x >>> 31).toNat ≤ 1 := by
  have hx := x.toNat_lt
  have hhigh : (x >>> 31).toNat = x.toNat / 2 ^ 31 := by
    rw [UInt32.toNat_shiftRight, Nat.shiftRight_eq_div_pow]
    rfl
  have hlow : (x <<< 1).toNat = (x.toNat % 2 ^ 31) <<< 1 := by
    rw [UInt32.toNat_shiftLeft, Nat.shiftLeft_eq, Nat.shiftLeft_eq]
    change x.toNat * 2 % 2 ^ 32 = _
    lia
  have hor : (x <<< 1 ||| carry).toNat = (x.toNat % 2 ^ 31) * 2 + carry.toNat := by
    rw [UInt32.toNat_or, hlow, ← Nat.shiftLeft_add_eq_or_of_lt (by lia), Nat.shiftLeft_eq]
  rw [hor, hhigh]
  change _ + _ * 2 ^ 32 = _ ∧ _
  lia

theorem lshiftLoop_spec (d : Words) (n : Nat) :
    value (lshiftLoop n (0, d)).2 0 n + (lshiftLoop n (0, d)).1.toNat * radix ^ n =
        2 * value d 0 n ∧
      (lshiftLoop n (0, d)).1.toNat ≤ 1 := by
  induction n with
  | zero => simp [lshiftLoop]
  | succ n ih =>
      obtain ⟨hsum, hcarry⟩ := ih
      have hword : (lshiftLoop n (0, d)).2 n = d n := lshiftLoop_of_le le_rfl
      obtain ⟨hbit, hcarry'⟩ := shiftedBit (d n) (lshiftLoop n (0, d)).1 hcarry
      have hupdate := value_update_top (lshiftLoop n (0, d)).2
        (d n <<< 1 ||| (lshiftLoop n (0, d)).1) 0 n
      rw [Nat.zero_add] at hupdate
      rw [lshiftLoop]
      dsimp only
      rw [hword, hupdate, value_succ, Nat.zero_add, Nat.pow_succ]
      exact ⟨by linear_combination hsum + radix ^ n * hbit, hcarry'⟩

/-- **`bn_lshift`** doubles. -/
theorem bnLshift_spec (r : LiteBignum) :
    (bnLshift r).1.val + (bnLshift r).2.toNat * radix ^ r.dmax = 2 * r.val ∧
      (bnLshift r).2.toNat ≤ 1 := lshiftLoop_spec r.d r.dmax

theorem gteLoop_spec (a b : Words) (n : Nat) :
    b (gteLoop a b n) ≤ a (gteLoop a b n) ↔ value b 0 (n + 1) ≤ value a 0 (n + 1) := by
  induction n with
  | zero => rw [gteLoop, value_one, value_one, UInt32.le_iff_toNat_le]
  | succ n ih =>
      have ha := value_lt a 0 (n + 1)
      have hb := value_lt b 0 (n + 1)
      rw [gteLoop, value_succ a 0 (n + 1), value_succ b 0 (n + 1), Nat.zero_add]
      by_cases heq : a (n + 1) = b (n + 1)
      · rw [if_pos heq, ih, heq, Nat.add_le_add_iff_right]
      · rw [if_neg heq, UInt32.le_iff_toNat_le]
        have hne : (a (n + 1)).toNat ≠ (b (n + 1)).toNat := fun h => heq (UInt32.toNat.inj h)
        -- the higher top word wins
        rcases Nat.lt_or_ge (a (n + 1)).toNat (b (n + 1)).toNat with hlt | hge
        · refine iff_of_false (by omega) (not_le.mpr ?_)
          calc value a 0 (n + 1) + (a (n + 1)).toNat * radix ^ (n + 1)
              < ((a (n + 1)).toNat + 1) * radix ^ (n + 1) := by rw [Nat.succ_mul]; omega
            _ ≤ (b (n + 1)).toNat * radix ^ (n + 1) := Nat.mul_le_mul_right _ hlt
            _ ≤ _ := Nat.le_add_left ..
        · refine iff_of_true hge ?_
          calc value b 0 (n + 1) + (b (n + 1)).toNat * radix ^ (n + 1)
              ≤ ((b (n + 1)).toNat + 1) * radix ^ (n + 1) := by rw [Nat.succ_mul]; omega
            _ ≤ (a (n + 1)).toNat * radix ^ (n + 1) := Nat.mul_le_mul_right _ (by omega)
            _ ≤ _ := Nat.le_add_left ..

/-- **`bn_gte` compares the numbers**, here of one length. -/
theorem bnGte_iff {a b : LiteBignum} (h : a.dmax = b.dmax) (hpos : 0 < a.dmax) :
    bnGte a b = true ↔ b.val ≤ a.val := by
  rw [bnGte, orDigits_of_le h.le, orDigits_of_le h.ge, if_neg (not_not.mpr rfl),
    if_neg (not_not.mpr rfl), ← h, Nat.min_self, decide_eq_true_iff]
  have hspec := gteLoop_spec a.d b.d (a.dmax - 1)
  rw [Nat.sub_add_cancel hpos] at hspec
  rw [ge_iff_le, hspec, LiteBignum.val, LiteBignum.val, h]

/-! ## A round of a Montgomery product -/

/-- No sum of a product and two words wraps in 64 bits. -/
theorem mac_lt (x a b y : UInt32) : x.toNat + a.toNat * b.toNat + y.toNat < radix * radix := by
  have hx := toNat_lt_radix x
  have hy := toNat_lt_radix y
  have ha := toNat_lt_radix a
  have hb := toNat_lt_radix b
  have hmul : a.toNat * b.toNat ≤ (radix - 1) * (radix - 1) :=
    Nat.mul_le_mul (Nat.le_sub_one_of_lt ha) (Nat.le_sub_one_of_lt hb)
  have hsquare : (radix - 1) * (radix - 1) + (radix - 1) + radix = radix * radix := by decide
  omega

/-- The two words of a sum -/
theorem toNat_words {tmp : Nat} (h : tmp < radix * radix) :
    (toWord (tmp : Nat)).toNat = tmp % radix ∧ (toWord (tmp / radix : Nat)).toNat = tmp / radix := by
  refine ⟨?_, toNat_toWord_natCast (Nat.div_lt_of_lt_mul h)⟩
  have hword := toNat_toWord (tmp : Int)
  exact_mod_cast hword

section MontMul

variable {a : Option LiteBignum} {b c N : LiteBignum} {nprime : UInt32}

theorem montLoop_of_le {a d0 A B : UInt32} {b N c : Words} {k i : Nat} (hi : k ≤ i) :
    (montLoop a d0 b N k (A, B, c)).2.2 i = c i := by
  induction k with
  | zero => rfl
  | succ k ih =>
      rw [montLoop]
      exact (Function.update_of_ne (by omega) ..).trans (ih (by omega))

/-- **Run lemma.** The loop adds up the words above the first one. -/
theorem montLoop_sum (a d0 A B : UInt32) (b N c : Words) (k : Nat) :
    value (montLoop a d0 b N k (A, B, c)).2.2 0 k +
        radix ^ k * ((montLoop a d0 b N k (A, B, c)).1.toNat +
          (montLoop a d0 b N k (A, B, c)).2.1.toNat) =
      A.toNat + B.toNat + a.toNat * value b 1 k + value c 1 k + d0.toNat * value N 1 k := by
  induction k with
  | zero => simp [montLoop, value_zero]
  | succ k ih =>
      have hword : (montLoop a d0 b N k (A, B, c)).2.2 (k + 1) = c (k + 1) :=
        montLoop_of_le (Nat.le_succ k)
      rw [montLoop]
      generalize montLoop a d0 b N k (A, B, c) = s at ih hword ⊢
      obtain ⟨A', B', c'⟩ := s
      dsimp only at ih hword ⊢
      rw [hword]
      set tmp := A'.toNat + a.toNat * (b (k + 1)).toNat + (c (k + 1)).toNat with htmp
      have hlow : tmp % radix < radix := Nat.mod_lt _ radix_pos
      have hlt : B'.toNat + d0.toNat * (N (k + 1)).toNat + tmp % radix < radix * radix := by
        have hmac := mac_lt B' d0 (N (k + 1)) (toWord (tmp : Nat))
        rwa [(toNat_words (mac_lt ..)).1] at hmac
      set tmp' := B'.toNat + d0.toNat * (N (k + 1)).toNat + tmp % radix with htmp'
      have hupdate := value_update_top c' (toWord (tmp' : Nat)) 0 k
      rw [Nat.zero_add] at hupdate
      rw [hupdate, (toNat_words (mac_lt ..)).2, (toNat_words hlt).1, (toNat_words hlt).2,
        value_succ b, value_succ c, value_succ N, Nat.add_comm 1 k, Nat.pow_succ]
      have hsplit := Nat.div_add_mod tmp radix
      have hsplit' := Nat.div_add_mod tmp' radix
      linear_combination ih + radix ^ k * hsplit + radix ^ k * hsplit' + radix ^ k * htmp +
        radix ^ k * htmp'

/-- The sum that a round divides by the radix, and its last words and carry. -/
theorem montMulAdd_sum (n : Nat) (hnprime : radix ∣ (N.d 0).toNat * nprime.toNat + 1) (a : UInt32)
    (b : LiteBignum) (c : Words) :
    ∃ (d0 top : Nat) (d : Words), d0 < radix ∧ top < radix * radix ∧
      (∀ c' : LiteBignum, c'.d = c → N.dmax = n + 1 → montMulAdd c' a b nprime N =
        if top / radix ≠ 0 then
          (bnSub { c' with d := Function.update d n (toWord (top : Nat)) } N).1
        else { c' with d := Function.update d n (toWord (top : Nat)) }) ∧
      radix * (value d 0 n + radix ^ n * top) =
        value c 0 (n + 1) + a.toNat * value b.d 0 (n + 1) + d0 * value N.d 0 (n + 1) := by
  set tmp := (c 0).toNat + a.toNat * (b.d 0).toNat with htmp
  set d0 := toWord (tmp : Nat) * nprime with hd0
  set tmp' := tmp % radix + d0.toNat * (N.d 0).toNat with htmp'
  set s := montLoop a d0 b.d N.d n (toWord (tmp / radix : Nat), toWord (tmp' / radix : Nat), c)
  have hzero : (0 : UInt32).toNat = 0 := rfl
  have hlt : tmp < radix * radix := by
    have hmac := mac_lt (c 0) a (b.d 0) 0
    rwa [hzero, Nat.add_zero] at hmac
  have hlt' : tmp' < radix * radix := by
    have hmac := mac_lt (toWord (tmp : Nat)) d0 (N.d 0) 0
    rwa [hzero, Nat.add_zero, (toNat_words hlt).1] at hmac
  -- the first word of the sum is zero
  have hdvd : radix ∣ tmp' := by
    have hd0' : d0.toNat = tmp % radix * nprime.toNat % radix := by
      rw [hd0, UInt32.toNat_mul, (toNat_words hlt).1]
      rfl
    have hmod : tmp' ≡ tmp % radix + tmp % radix * nprime.toNat * (N.d 0).toNat [MOD radix] := by
      rw [htmp', hd0']
      exact ((Nat.mod_modEq _ _).mul_right _).add_left _
    exact (hmod.dvd_iff dvd_rfl).mpr (dvd_add_mul hnprime)
  have htop : s.1.toNat + s.2.1.toNat < radix * radix := by
    have hA := toNat_lt_radix s.1
    have hB := toNat_lt_radix s.2.1
    have hdouble : radix + radix ≤ radix * radix := by decide
    omega
  refine ⟨d0.toNat, s.1.toNat + s.2.1.toNat, s.2.2, toNat_lt_radix d0, htop, ?_, ?_⟩
  · rintro c' rfl hmax
    rw [montMulAdd, hmax]
    rfl
  · have hsum : value s.2.2 0 n + radix ^ n * (s.1.toNat + s.2.1.toNat) = _ :=
      montLoop_sum a d0 (toWord (tmp / radix : Nat)) (toWord (tmp' / radix : Nat)) b.d N.d c n
    have hfirst (d : Words) : value d 0 (n + 1) = (d 0).toNat + radix * value d 1 n := by
      rw [Nat.add_comm n 1, value_add, value_one, pow_one]
    have hsplit := Nat.div_add_mod tmp radix
    have hsplit' := Nat.mul_div_cancel' hdvd
    rw [hsum, (toNat_words hlt).2, (toNat_words hlt').2, hfirst, hfirst, hfirst]
    linear_combination hsplit + hsplit' + htmp + htmp'

/-- **Step lemma.** One digit -/
theorem montMulAdd_spec (hmax : c.dmax = N.dmax) (hN : 0 < N.dmax)
    (hnprime : radix ∣ (N.d 0).toNat * nprime.toNat + 1) (a : UInt32) (b : LiteBignum) :
    (montMulAdd c a b nprime N).dmax = N.dmax ∧
      (montMulAdd c a b nprime N).val * radix ≡
        c.val + a.toNat * value b.d 0 N.dmax [MOD N.val] := by
  obtain ⟨n, hn⟩ := Nat.exists_eq_succ_of_ne_zero hN.ne'
  obtain ⟨d0, top, d, hd0, htop, heq, hsum⟩ := montMulAdd_sum n hnprime a b c.d
  have hcval : c.val = value c.d 0 (n + 1) := by rw [LiteBignum.val, hmax, hn]
  have hNval : N.val = value N.d 0 (n + 1) := by rw [LiteBignum.val, hn]
  have hlt := reduce_lt (hNval ▸ value_lt N.d 0 (n + 1)) (value_lt c.d 0 (n + 1))
    (value_lt b.d 0 (n + 1)) (toNat_lt_radix a) hd0 (hNval ▸ hsum)
  rw [heq c rfl hn, hn]
  set c' : LiteBignum := { c with d := Function.update d n (toWord (top : Nat)) }
  have hmax' : c'.dmax = n + 1 := hmax.trans hn
  -- the words and the carry
  have hparts : value d 0 n + radix ^ n * top = c'.val + radix ^ (n + 1) * (top / radix) := by
    have hupdate := value_update_top d (toWord (top : Nat)) 0 n
    rw [Nat.zero_add, (toNat_words htop).1] at hupdate
    have hsplit := Nat.div_add_mod top radix
    rw [LiteBignum.val, hmax', hupdate, Nat.pow_succ]
    linear_combination radix ^ n * hsplit.symm
  rw [hparts] at hsum hlt
  have hmod : (c'.val + radix ^ (n + 1) * (top / radix)) * radix ≡
      c.val + a.toNat * value b.d 0 (n + 1) [MOD N.val] := by
    rw [Nat.mul_comm, hsum, hcval, hNval]
    exact Nat.add_mul_mod_self_right ..
  split
  · rename_i hcarry
    -- the carry is 1, and without the modulus the number fits
    have hone : top / radix = 1 := by
      have hN' := value_lt N.d 0 (n + 1)
      rw [← hNval] at hN'
      have htwo : top / radix < 2 := by
        refine Nat.lt_of_mul_lt_mul_left (a := radix ^ (n + 1)) ?_
        linarith only [hlt, hN', Nat.zero_le c'.val]
      exact Nat.le_antisymm (Nat.le_of_lt_succ htwo) (Nat.one_le_iff_ne_zero.mpr hcarry)
    rw [hone, Nat.mul_one] at hlt hmod
    have hval := val_bnSub_of_lt (c := c') (a := N) (by omega) (by omega)
    rw [hmax'] at hval
    refine ⟨hmax', ?_⟩
    refine Nat.ModEq.trans ?_ hmod
    rw [← hval, Nat.add_mul]
    exact (Nat.add_mul_mod_self_left ..).symm
  · rename_i hcarry
    rw [not_not.mp hcarry, Nat.mul_zero, Nat.add_zero] at hmod
    exact ⟨hmax', hmod⟩

theorem montRounds_spec (hmax : c.dmax = N.dmax) (hN : 0 < N.dmax)
    (hnprime : radix ∣ (N.d 0).toNat * nprime.toNat + 1) (hzero : c.val = 0)
    (a : Option LiteBignum) (b : LiteBignum) (i : Nat) :
    (montRounds a b nprime N i c).dmax = N.dmax ∧
      (montRounds a b nprime N i c).val * radix ^ (i + 1) ≡
        value (montDigit a) 0 (i + 1) * value b.d 0 N.dmax [MOD N.val] := by
  induction i with
  | zero =>
      obtain ⟨hdmax, hmod⟩ := montMulAdd_spec hmax hN hnprime (montDigit a 0) b
      rw [hzero, Nat.zero_add] at hmod
      rw [montRounds, Nat.zero_add, pow_one, value_one]
      exact ⟨hdmax, hmod⟩
  | succ i ih =>
      obtain ⟨hdmax, hmod⟩ := ih
      obtain ⟨hdmax', hstep⟩ := montMulAdd_spec hdmax hN hnprime (montDigit a (i + 1)) b
      rw [montRounds]
      refine ⟨hdmax', ?_⟩
      set r := montRounds a b nprime N i c
      set r' := montMulAdd r (montDigit a (i + 1)) b nprime N
      set V := value b.d 0 N.dmax
      calc r'.val * radix ^ (i + 1 + 1) = r'.val * radix * radix ^ (i + 1) := by ring
        _ ≡ (r.val + (montDigit a (i + 1)).toNat * V) * radix ^ (i + 1) [MOD N.val] :=
            hstep.mul_right _
        _ = r.val * radix ^ (i + 1) + (montDigit a (i + 1)).toNat * radix ^ (i + 1) * V := by ring
        _ ≡ value (montDigit a) 0 (i + 1) * V +
              (montDigit a (i + 1)).toNat * radix ^ (i + 1) * V [MOD N.val] := hmod.add_right _
        _ = value (montDigit a) 0 (i + 1 + 1) * V := by
            rw [value_succ _ 0 (i + 1), Nat.zero_add]
            ring

/-- **`bn_mont_mul`** multiplies and divides by `radix ^ n`. -/
theorem montMul_spec (hmax : c.dmax = N.dmax) (hN : 0 < N.dmax)
    (hnprime : radix ∣ (N.d 0).toNat * nprime.toNat + 1) (a : Option LiteBignum)
    (b : LiteBignum) :
    (montMul c a b nprime N).dmax = N.dmax ∧
      IsProduct N.val (radix ^ N.dmax) (value (montDigit a) 0 N.dmax) (value b.d 0 N.dmax)
        (montMul c a b nprime N).val := by
  have hzero : LiteBignum.val { c with d := memsetZero c.d (bnSize N) } = 0 :=
    value_eq_zero fun i hi => by
      rw [Nat.zero_add]
      exact memsetZero_apply (hmax ▸ hi)
  have hrounds := montRounds_spec (c := { c with d := memsetZero c.d (bnSize N) }) hmax hN hnprime
    hzero a b (N.dmax - 1)
  rw [Nat.sub_add_cancel hN] at hrounds
  exact hrounds

/-- The product of two numbers of `n` words -/
theorem montMul_some {a : LiteBignum} (hmax : c.dmax = N.dmax) (hN : 0 < N.dmax)
    (hnprime : radix ∣ (N.d 0).toNat * nprime.toNat + 1) (ha : a.dmax = N.dmax)
    (hb : b.dmax = N.dmax) :
    (montMul c (some a) b nprime N).dmax = N.dmax ∧
      IsProduct N.val (radix ^ N.dmax) a.val b.val (montMul c (some a) b nprime N).val := by
  have hval {d : LiteBignum} (h : d.dmax = N.dmax) : d.val = value d.d 0 N.dmax := by
    rw [LiteBignum.val, h]
  rw [hval ha, hval hb]
  exact montMul_spec hmax hN hnprime (some a) b

/-- The digits of a factor that is not given are those of 1. -/
theorem value_montDigit_none (hN : 0 < N.dmax) : value (montDigit none) 0 N.dmax = 1 := by
  rw [value_of_clear (m := 1) hN fun i hlow _ => ?_, value_one]
  · rfl
  · rw [Nat.zero_add]
    exact if_neg (by omega)

theorem montMul_none (hmax : c.dmax = N.dmax) (hN : 0 < N.dmax)
    (hnprime : radix ∣ (N.d 0).toNat * nprime.toNat + 1) (hb : b.dmax = N.dmax) :
    (montMul c none b nprime N).dmax = N.dmax ∧
      IsProduct N.val (radix ^ N.dmax) 1 b.val (montMul c none b nprime N).val := by
  have hspec := montMul_spec hmax hN hnprime none b
  rw [value_montDigit_none hN, ← hb] at hspec
  rw [← hb]
  exact hspec

end MontMul

/-! ## What the products need -/

section Nprime

open scoped UInt32.CommRing

theorem ninvLoop_eq_hensel (n0 : UInt32) (k : Nat) : ninvLoop n0 k = hensel n0 k := by
  induction k with
  | zero => rfl
  | succ k ih =>
      rw [ninvLoop, hensel, ih]

/-- Five steps are enough for 32 bits. -/
theorem mul_ninvLoop {n0 : UInt32} (hodd : n0.toNat % 2 = 1) : n0 * ninvLoop n0 5 = 1 := by
  have hhalf : n0 = 1 + 2 * (n0 >>> 1) := by
    have hlt := n0.toNat_lt
    rw [← UInt32.toNat_inj, UInt32.toNat_add, UInt32.toNat_mul, UInt32.toNat_shiftRight,
      Nat.shiftRight_eq_div_pow]
    change n0.toNat = (1 + 2 * (n0.toNat / 2) % 2 ^ 32) % 2 ^ 32
    omega
  rw [ninvLoop_eq_hensel]
  exact mul_hensel hhalf rfl

end Nprime

/-- **`bn_compute_nprime`** -/
theorem computeNprime_spec {n0 : UInt32} (hodd : n0.toNat % 2 = 1) :
    radix ∣ n0.toNat * (computeNprime n0).toNat + 1 := by
  have hneg : n0 * computeNprime n0 + 1 = 0 := by
    have hinv := mul_ninvLoop hodd
    have hcompl : ~~~(ninvLoop n0 5) + 1 = -ninvLoop n0 5 := by
      rw [UInt32.neg_eq_not_add]
    rw [computeNprime, hcompl, UInt32.mul_neg, hinv]
    rfl
  have hnat := congrArg UInt32.toNat hneg
  rw [UInt32.toNat_add, UInt32.toNat_mul, UInt32.toNat_one, UInt32.toNat_zero, Nat.mod_add_mod] at hnat
  exact Nat.dvd_of_mod_eq_zero hnat

section ComputeRR

variable {N RR : LiteBignum}

/-- **Step lemma.** A round doubles modulo `N`, and its assertion holds. -/
theorem rrStep_spec (hmax : RR.dmax = N.dmax) (hN : 0 < N.dmax) (hlt : RR.val < N.val) :
    ∃ RR', rrStep N RR = some RR' ∧ RR'.dmax = N.dmax ∧ RR'.val = 2 * RR.val % N.val := by
  obtain ⟨hsum, hcarry⟩ := bnLshift_spec RR
  have hdmax : (bnLshift RR).1.dmax = N.dmax := hmax
  have hNlt := N.val_lt
  rw [rrStep]
  generalize bnLshift RR = s at hsum hcarry hdmax ⊢
  obtain ⟨D, carry⟩ := s
  dsimp only at hsum hcarry hdmax ⊢
  have hmod : 2 * RR.val % N.val = if N.val ≤ 2 * RR.val then 2 * RR.val - N.val else 2 * RR.val := by
    split
    · rename_i hle
      rw [Nat.mod_eq_sub_mod hle, Nat.mod_eq_of_lt (by lia)]
    · rename_i hgt
      exact Nat.mod_eq_of_lt (not_le.mp hgt)
  have hDlt := D.val_lt
  rw [hdmax] at hDlt
  rw [hmax] at hsum
  by_cases hzero : carry = 0
  · rw [hzero, UInt32.toNat_zero, Nat.zero_mul, Nat.add_zero] at hsum
    rw [if_neg (not_not.mpr hzero), Option.map_some]
    refine ⟨_, rfl, ?_, ?_⟩
    · split <;> exact hdmax
    · rw [hmod, ← hsum]
      by_cases hge : N.val ≤ D.val
      · rw [if_pos ((bnGte_iff hdmax (hdmax ▸ hN)).mpr hge), if_pos hge]
        exact val_bnSub_of_le hdmax.ge hge
      · rw [if_neg ((bnGte_iff hdmax (hdmax ▸ hN)).not.mpr hge), if_neg hge]
  · have hone : carry.toNat = 1 :=
      Nat.le_antisymm hcarry (Nat.pos_of_ne_zero fun h => hzero (UInt32.toNat.inj h))
    rw [hone, Nat.one_mul] at hsum
    -- the subtraction borrows the bit that has been shifted out
    have hfits : D.val < N.val := by lia
    have hborrow : (bnSub D N).2 = 0xFFFFFFFF := by rw [borrow_bnSub hdmax.ge, if_pos hfits]
    have hval := val_bnSub_of_lt hdmax.ge hfits
    rw [hdmax] at hval
    have hresult : (bnSub D N).1.val = 2 * RR.val - N.val := by lia
    have hless : ¬ N.val ≤ (bnSub D N).1.val := by lia
    rw [if_pos hzero, if_pos hborrow, Option.map_some]
    refine ⟨_, rfl, ?_, ?_⟩
    · split <;> exact hdmax
    · have hgte := (bnGte_iff (a := (bnSub D N).1) hdmax (hN.trans_eq hdmax.symm)).not.mpr hless
      rw [if_neg hgte, hmod, if_pos (by lia), hresult]

theorem rrLoop_spec (hmax : RR.dmax = N.dmax) (hN : 0 < N.dmax) (hlt : RR.val < N.val) (i : Nat) :
    ∃ RR', rrLoop N i RR = some RR' ∧ RR'.dmax = N.dmax ∧ RR'.val = 2 ^ i * RR.val % N.val := by
  induction i with
  | zero => exact ⟨RR, rfl, hmax, by rw [pow_zero, Nat.one_mul, Nat.mod_eq_of_lt hlt]⟩
  | succ i ih =>
      obtain ⟨RR₁, hrun, hmax₁, hval₁⟩ := ih
      have hlt₁ : RR₁.val < N.val := hval₁ ▸ Nat.mod_lt _ (Nat.zero_lt_of_lt hlt)
      obtain ⟨RR₂, hstep, hmax₂, hval₂⟩ := rrStep_spec hmax₁ hN hlt₁
      refine ⟨RR₂, by rw [rrLoop, hrun, Option.bind_some, hstep], hmax₂, ?_⟩
      rw [hval₂, hval₁, Nat.mul_mod_mod, pow_succ]
      congr 1
      ring

/-- The modulus is more than half of what its words hold. -/
theorem pow_lt_two_mul_val (hN : 0 < N.dmax) (hodd : N.val % 2 = 1)
    (htop : bnCheckTopbit N ≠ 0) : radix ^ N.dmax < 2 * N.val := by
  obtain ⟨n, hn⟩ := Nat.exists_eq_succ_of_ne_zero hN.ne'
  have hword : 2 ^ 31 ≤ (N.d n).toNat := by
    by_contra hsmall
    refine htop ?_
    rw [bnCheckTopbit, hn, Nat.succ_sub_one, ← UInt32.toNat_inj, UInt32.toNat_shiftRight,
      Nat.shiftRight_eq_div_pow]
    exact Nat.div_eq_of_lt (not_le.mp hsmall)
  have hle : radix ^ N.dmax ≤ 2 * N.val := by
    calc radix ^ N.dmax = 2 * (2 ^ 31 * radix ^ n) := by rw [hn, Nat.pow_succ, radix]; ring
      _ ≤ 2 * ((N.d n).toNat * radix ^ n) := Nat.mul_le_mul_left 2 (Nat.mul_le_mul_right _ hword)
      _ ≤ 2 * N.val := by
          rw [LiteBignum.val, hn, value_succ, Nat.zero_add]
          exact Nat.mul_le_mul_left 2 (Nat.le_add_left ..)
  -- half of the range is even
  refine lt_of_le_of_ne hle fun heq => ?_
  have hfour : 4 ∣ radix ^ N.dmax := by
    rw [hn, Nat.pow_succ]
    exact dvd_mul_of_dvd_right (by decide) _
  omega

theorem bnInit_spec (mem : Words) (N : LiteBignum) :
    (bnInit mem (bnSize N)).dmax = N.dmax ∧ (bnInit mem (bnSize N)).val = 0 := by
  have hdmax : (bnInit mem (bnSize N)).dmax = N.dmax := Nat.mul_div_cancel _ (by decide)
  refine ⟨hdmax, value_eq_zero fun i hi => ?_⟩
  rw [Nat.zero_add]
  exact memsetZero_apply (hi.trans_eq hdmax)

/-- **`bn_compute_RR`** -/
theorem computeRR_spec (mem : Words) (hN : 0 < N.dmax) (hodd : N.val % 2 = 1)
    (htop : bnCheckTopbit N ≠ 0) :
    ∃ RR, computeRR (bnInit mem (bnSize N)) N = some RR ∧ RR.dmax = N.dmax ∧
      RR.val ≡ radix ^ N.dmax * radix ^ N.dmax [MOD N.val] := by
  have hhalf := pow_lt_two_mul_val hN hodd htop
  have hNlt := N.val_lt
  obtain ⟨hdmax, hzero⟩ := bnInit_spec mem N
  have hstart := val_bnSub_of_lt (c := bnInit mem (bnSize N)) (a := N) hdmax.ge (by omega)
  rw [hzero, Nat.zero_add, hdmax] at hstart
  have hsub : (bnSub (bnInit mem (bnSize N)) N).1.dmax = N.dmax := hdmax
  obtain ⟨RR, hrun, hmax, hval⟩ := rrLoop_spec hsub hN (by omega) (N.dmax * 32)
  refine ⟨RR, hrun, hmax, ?_⟩
  have hradix : 2 ^ (N.dmax * 32) = radix ^ N.dmax := by rw [Nat.mul_comm, pow_mul]; rfl
  rw [hval, hradix]
  refine (Nat.mod_modEq _ _).trans (Nat.ModEq.mul_left _ ?_)
  rw [← hstart]
  exact (Nat.add_mod_right ..).symm

end ComputeRR

/-! ## The loop -/

/-- The bits of an exponent -/
theorem bnIsBitSet_eq {e : LiteBignum} {i : Nat} (hi : i < e.dmax * 32) :
    bnIsBitSet e i = e.val.testBit i := by
  have hword : (e.d (0 + i / 32)).toNat = value e.d 0 e.dmax / radix ^ (i / 32) % radix :=
    toNat_eq_digit (by omega)
  have hradix : radix ^ (i / 32) = 2 ^ (32 * (i / 32)) := by rw [pow_mul]; rfl
  rw [Nat.zero_add] at hword
  rw [bnIsBitSet, if_neg (by omega), hword, hradix, radix, Nat.testBit_mod_two_pow,
    Nat.testBit_div_two_pow, LiteBignum.val, Nat.mod_add_div]
  have hlt : i % 32 < 32 := Nat.mod_lt _ (by decide)
  rw [decide_eq_true hlt, Bool.true_and]

namespace ModexpState

/-- The two numbers have different buffers, and `acc` represents `v`. -/
structure Holds (N : LiteBignum) (v : Nat) (s : ModexpState) : Prop where
  distinct : s.output.d ≠ s.acc.d
  output_dmax : s.output.dmax = N.dmax
  acc_dmax : s.acc.dmax = N.dmax
  represents : Represents N.val (radix ^ N.dmax) v (s.number s.acc).val

section Loop

variable {N aR exp input : LiteBignum} {nprime : UInt32} {v x : Nat} {s : ModexpState}

theorem number_write_self (s : ModexpState) {h : Handle} {c : LiteBignum} (hmax : c.dmax = h.dmax) :
    (s.write h c).number h = c := by
  rw [number, write, ← hmax]
  dsimp only
  rw [Function.update_self]

/-- **Step lemma.** A round squares, and multiplies if the bit is set. -/
theorem Holds.step (hs : s.Holds N v) (hN : 0 < N.dmax) (hcop : Nat.Coprime N.val (radix ^ N.dmax))
    (hnprime : radix ∣ (N.d 0).toNat * nprime.toNat + 1) (haR : aR.dmax = N.dmax)
    (hx : Represents N.val (radix ^ N.dmax) x aR.val) (bit : Bool) :
    (s.step aR nprime N bit).Holds N (v * v * if bit then x else 1) := by
  have hacc : (s.number s.acc).dmax = N.dmax := hs.acc_dmax
  have hsquare := montMul_some (c := s.number s.output) hs.output_dmax hN hnprime hacc hacc
  rw [ModexpState.step]
  set out := montMul (s.number s.output) (some (s.number s.acc)) (s.number s.acc) nprime N
  have hout : out.dmax = N.dmax := hsquare.1
  have hnumber : (s.write s.output out).number s.output = out :=
    number_write_self s (hout.trans hs.output_dmax.symm)
  have hrep : Represents N.val (radix ^ N.dmax) (v * v) out.val :=
    hs.represents.mul hcop hs.represents hsquare.2
  cases bit with
  | false =>
      refine ⟨hs.distinct.symm, hs.acc_dmax, hs.output_dmax, ?_⟩
      rw [if_neg Bool.false_ne_true, Nat.mul_one]
      rw [← hnumber] at hrep
      exact hrep
  | true =>
      dsimp only [write]
      rw [if_pos rfl, if_pos rfl]
      set s₁ := s.write s.output out
      have hproduct := montMul_some (c := s₁.number s₁.acc) hs.acc_dmax hN hnprime
        (a := s₁.number s₁.output) hs.output_dmax haR
      set acc := montMul (s₁.number s₁.acc) (some (s₁.number s₁.output)) aR nprime N
      have hnumber' : (s₁.write s₁.acc acc).number s₁.acc = acc :=
        number_write_self s₁ (hproduct.1.trans hs.acc_dmax.symm)
      refine ⟨hs.distinct, hs.output_dmax, hs.acc_dmax, ?_⟩
      have hrep' : Represents N.val (radix ^ N.dmax) (v * v) (s₁.number s₁.output).val := by
        rw [← hnumber] at hrep
        exact hrep
      have hresult := hrep'.mul hcop hx hproduct.2
      rw [← hnumber'] at hresult
      exact hresult

/-- **Run lemma.** The bits that are read are those above `i`. -/
theorem Holds.loop (hN : 0 < N.dmax) (hcop : Nat.Coprime N.val (radix ^ N.dmax))
    (hnprime : radix ∣ (N.d 0).toNat * nprime.toNat + 1) (haR : aR.dmax = N.dmax)
    (hx : Represents N.val (radix ^ N.dmax) x aR.val) {i : Nat} (hi : i ≤ exp.dmax * 32)
    (hs : s.Holds N (x ^ (exp.val / 2 ^ i))) :
    (s.loop aR nprime N exp i).Holds N (x ^ exp.val) := by
  induction i generalizing s with
  | zero => rwa [pow_zero, Nat.div_one] at hs
  | succ i ih =>
      have hstep := hs.step hN hcop hnprime haR hx (bnIsBitSet exp i)
      refine ih (by omega) ?_
      have hpow : x ^ (exp.val / 2 ^ i) = x ^ (exp.val / 2 ^ (i + 1)) *
          x ^ (exp.val / 2 ^ (i + 1)) * if bnIsBitSet exp i then x else 1 := by
        have hhalf : exp.val / 2 ^ i =
            exp.val / 2 ^ (i + 1) + exp.val / 2 ^ (i + 1) + (exp.val.testBit i).toNat := by
          rw [Nat.toNat_testBit, Nat.pow_succ, ← Nat.div_div_eq_div_mul]
          omega
        rw [bnIsBitSet_eq (by omega), hhalf, pow_add, pow_add]
        cases exp.val.testBit i
        · rfl
        · rw [if_pos rfl, Bool.toNat_true, pow_one]
      rwa [hpow]

/-- The copy at the end brings the number into the caller's buffer. -/
theorem copyOut_spec (hdistinct : s.output.d ≠ s.acc.d) (hout : s.output.dmax = N.dmax)
    (hacc : s.acc.dmax = N.dmax) :
    s.copyOut.output = ⟨N.dmax, .caller⟩ ∧
      (s.copyOut.number s.copyOut.output).val = (s.number s.output).val := by
  rw [copyOut]
  by_cases hcaller : s.acc.d ≠ .acc
  · have hacc' : s.acc.d = .caller := by
      cases h : s.acc.d with
      | caller => rfl
      | acc => exact absurd h hcaller
    have hout' : s.output.d = .acc := by
      cases h : s.output.d with
      | caller => exact absurd (h.trans hacc'.symm) hdistinct
      | acc => rfl
    rw [if_pos hcaller]
    refine ⟨?_, ?_⟩
    · dsimp only
      rw [← hacc, ← hacc']
    · refine LiteBignum.val_congr (hacc.trans hout.symm) fun i hi => ?_
      have hi' : i < bnSize (s.number s.output) / liteBnBytes := by
        rw [bnSize, Nat.mul_div_cancel _ (by decide)]
        exact hi.trans_eq (hacc.trans hout.symm)
      dsimp only [number]
      rw [Function.update_self, memcpyWords, hout']
      exact if_pos hi'
  · have hout' : s.output.d = .caller := by
      cases h : s.output.d with
      | caller => rfl
      | acc => exact absurd (h.trans (not_not.mp hcaller).symm) hdistinct
    rw [if_neg hcaller]
    exact ⟨by rw [← hout, ← hout'], rfl⟩

end Loop

end ModexpState

/-- One subtraction reduces a number of the words of the modulus. -/
theorem finalReduce_spec {D N : LiteBignum} (hmax : D.dmax = N.dmax)
    (hhalf : radix ^ N.dmax < 2 * N.val) :
    let result := if (bnSub D N).2 ≠ 0 then (bnAdd (bnSub D N).1 N).1 else (bnSub D N).1
    result.dmax = N.dmax ∧ result.val = D.val % N.val := by
  intro result
  have hlt := D.val_lt
  rw [hmax] at hlt
  refine ⟨?_, ?_⟩
  · dsimp only [result]
    split <;> exact hmax
  · dsimp only [result]
    by_cases hless : D.val < N.val
    · have hborrow : (bnSub D N).2 ≠ 0 := by
        rw [borrow_bnSub hmax.ge, if_pos hless]
        decide
      have hsub := val_bnSub_of_lt hmax.ge hless
      have hadd := (val_bnAdd (c := (bnSub D N).1) (a := N) hmax.ge).1
      rw [dmax_bnSub, ← Nat.cast_add, hsub, hmax, ← Nat.cast_pow, ← Int.natCast_emod,
        Nat.add_mod_right, Nat.mod_eq_of_lt hlt] at hadd
      rw [if_pos hborrow, Nat.mod_eq_of_lt hless]
      exact Int.ofNat_inj.mp hadd
    · have hborrow : (bnSub D N).2 = 0 := by rw [borrow_bnSub hmax.ge, if_neg hless]
      have hge := not_lt.mp hless
      rw [if_neg (not_not.mpr hborrow), val_bnSub_of_le hmax.ge hge, Nat.mod_eq_sub_mod hge,
        Nat.mod_eq_of_lt (by omega)]

/-- **`bn_modexp_internal`** leaves the power in the caller's buffer, reduced, whichever bits the
exponent has.  The assertion in it holds. -/
theorem modexpInternal_spec (mem : Words) {output input exp N : LiteBignum} (hN : 0 < N.dmax)
    (hodd : N.val % 2 = 1) (htop : bnCheckTopbit N ≠ 0) (hinput : input.dmax = N.dmax)
    (houtput : output.dmax = N.dmax) :
    ∃ s, modexpInternal mem output input exp N = some s ∧ s.output = ⟨N.dmax, .caller⟩ ∧
      (s.number s.output).val = input.val ^ exp.val % N.val := by
  have hcop : Nat.Coprime N.val (radix ^ N.dmax) := by
    refine Nat.Coprime.pow_right _ (Nat.Coprime.pow_right 32 ?_)
    exact Nat.coprime_two_right.mpr (Nat.odd_iff.mpr hodd)
  have hnprime : radix ∣ (N.d 0).toNat * (computeNprime (N.d 0)).toNat + 1 := by
    refine computeNprime_spec ?_
    have hdigit : (N.d (0 + 0)).toNat = value N.d 0 N.dmax / radix ^ 0 % radix := toNat_eq_digit hN
    have htwo : 2 ∣ radix := by decide
    rw [Nat.zero_add, pow_zero, Nat.div_one] at hdigit
    rw [hdigit, Nat.mod_mod_of_dvd _ htwo]
    exact hodd
  obtain ⟨RR, hrun, hmaxRR, hRR⟩ := computeRR_spec mem hN hodd htop
  obtain ⟨hmax, -⟩ := bnInit_spec mem N
  obtain ⟨hmaxAcc, hprodAcc⟩ := montMul_none hmax hN hnprime hmaxRR
  obtain ⟨hmaxAR, hprodAR⟩ := montMul_some hmax hN hnprime hinput hmaxRR
  have hacc := represents_of_isProduct hcop hRR hprodAcc
  have haR := represents_of_isProduct hcop hRR hprodAR
  rw [modexpInternal, hrun, Option.map_some]
  dsimp only
  set nprime := computeNprime (N.d 0)
  set acc := montMul (bnInit mem (bnSize N)) none RR nprime N
  set aR := montMul (bnInit mem (bnSize N)) (some input) RR nprime N
  set s₀ : ModexpState :=
    { mem := fun buffer => if buffer = .caller then output.d else acc.d
      output := ⟨output.dmax, .caller⟩
      acc := ⟨acc.dmax, .acc⟩ }
  have hstart : s₀.Holds N (input.val ^ (exp.val / 2 ^ (exp.dmax * 32))) := by
    have hlt : exp.val < 2 ^ (exp.dmax * 32) := by
      rw [Nat.mul_comm, pow_mul]
      exact exp.val_lt
    rw [Nat.div_eq_of_lt hlt, pow_zero]
    exact ⟨PowerBuffer.noConfusion, houtput, hmaxAcc, hacc⟩
  have hloop := hstart.loop hN hcop hnprime hmaxAR haR le_rfl
  set s₁ := s₀.loop aR nprime N exp (exp.dmax * 32)
  -- out of the representations, and into the caller's buffer
  obtain ⟨hmaxOut, hprodOut⟩ := montMul_none (c := s₁.number s₁.output) (b := s₁.number s₁.acc)
    hloop.output_dmax hN hnprime hloop.acc_dmax
  have hpower := hloop.represents.modEq hcop hprodOut
  set out := montMul (s₁.number s₁.output) none (s₁.number s₁.acc) nprime N
  have hnumber : (s₁.write s₁.output out).number s₁.output = out :=
    s₁.number_write_self (hmaxOut.trans hloop.output_dmax.symm)
  obtain ⟨hhandle, hvalue⟩ := ModexpState.copyOut_spec (s := s₁.write s₁.output out)
    hloop.distinct hloop.output_dmax hloop.acc_dmax
  change _ = ((s₁.write s₁.output out).number s₁.output).val at hvalue
  rw [hnumber] at hvalue
  set s₂ := (s₁.write s₁.output out).copyOut
  rw [hhandle] at hvalue ⊢
  obtain ⟨hmaxResult, hresult⟩ := finalReduce_spec (D := s₂.number ⟨N.dmax, .caller⟩) (N := N) rfl
    (pow_lt_two_mul_val hN hodd htop)
  have hbuffer : s₂.output.d = .caller := congrArg Handle.d hhandle
  rw [hvalue, hpower] at hresult
  refine ⟨_, rfl, congrArg (Handle.mk N.dmax) hbuffer, ?_⟩
  rw [← hresult, ← s₂.number_write_self (h := ⟨N.dmax, .caller⟩) hmaxResult]
  dsimp only [ModexpState.number]
  exact congrArg (fun d => value (Function.update s₂.mem .caller _ d) 0 N.dmax) hbuffer

/-- A modulus of one word, an input that is larger, and an exponent of two words. -/
theorem modexpInternal_spec_cube :
    ∃ s, modexpInternal (ofList []) ⟨1, ofList []⟩ ⟨1, ofList [0x80000004]⟩ ⟨2, ofList [3, 0]⟩
        ⟨1, ofList [0x80000001]⟩ = some s ∧ s.output = ⟨1, .caller⟩ ∧
      (s.number s.output).val = 27 :=
  modexpInternal_spec (ofList []) (by decide) (by decide) (by decide) rfl rfl

end Dcrypto
end CrosEc
