import CrosEc.Dcrypto.DivisionExact
import CrosEc.Lib.ExtendedEuclid
import Mathlib.Data.Nat.Log

/-!
# The modular inverse

The loop of `bn_modinv_vartime` keeps two remainders and their cofactors, these in two's complement
with their signs beside them.  A cofactor and what is added to it have the same sign, so nothing
gets larger than the modulus, which leaves one word of the buffers for the sign.

All this rests on the divisions.  Where none of them leaves too much, the algorithm is that of
Euclid.
-/

namespace CrosEc
namespace Dcrypto

open Lib Words

/-! ## Lengths -/

/-- The words of a number that is not zero. -/
def wordCount (x : Nat) : Nat := Nat.log radix x + 1

theorem wordCount_value {d : Words} {n : Nat} (hn : 0 < n) (htop : d (n - 1) ≠ 0) :
    wordCount (value d 0 n) = n := by
  obtain ⟨k, rfl⟩ := Nat.exists_eq_succ_of_ne_zero hn.ne'
  exact congrArg (· + 1)
    (Nat.log_eq_of_pow_le_of_lt_pow (value_le_of_top htop) (value_lt d 0 (k + 1)))

theorem wordCount_mono {x y : Nat} (h : x ≤ y) : wordCount x ≤ wordCount y :=
  Nat.succ_le_succ (Nat.log_mono_right h)

theorem trim_le (d : Words) (n : Nat) : trim d n ≤ n := by
  induction n with
  | zero => exact le_rfl
  | succ n ih =>
      rw [trim]
      split
      · exact ih.trans (Nat.le_succ n)
      · exact le_rfl

theorem value_trim (d : Words) (n : Nat) : value d 0 (trim d n) = value d 0 n := by
  induction n with
  | zero => rfl
  | succ n ih =>
      rw [trim]
      split
      · rename_i hzero
        rw [ih, value_succ, Nat.zero_add, hzero, UInt32.toNat_zero, Nat.zero_mul, Nat.add_zero]
      · rfl

theorem trim_top (d : Words) (n : Nat) (h : trim d n ≠ 0) : d (trim d n - 1) ≠ 0 := by
  induction n with
  | zero => exact absurd rfl h
  | succ n ih =>
      rw [trim] at h ⊢
      by_cases hzero : d n = 0
      · rw [if_pos hzero] at h ⊢
        exact ih h
      · rwa [if_neg hzero, Nat.add_sub_cancel]

/-! ## Numbers with a sign -/

section Signed

variable {c q nt tmp : LiteBignum} {neg : Bool} {x : Int}

/-- The sign is that of the number. -/
theorem LiteBignum.signed_neg_iff (c : LiteBignum) (neg : Bool) : c.signed neg < 0 ↔ neg = true := by
  have hlt := c.val_lt_int
  have hlow := c.val_nonneg
  rw [LiteBignum.signed]
  cases neg with
  | false =>
      refine iff_of_false ?_ Bool.false_ne_true
      rw [if_neg Bool.false_ne_true]
      omega
  | true =>
      refine iff_of_true ?_ rfl
      rw [if_pos rfl]
      omega

/-- **The product of the quotient and a cofactor**, when it fits. -/
theorem mulQuotient_spec (hq : 0 < q.dmax) (hqval : 0 < q.val) (hqmax : q.dmax ≤ tmp.dmax)
    (hnt : nt.dmax = tmp.dmax) (hpos : 0 < nt.dmax)
    (hfits : |(q.val : Int) * nt.signed neg| < (radix : Int) ^ tmp.dmax) :
    (mulQuotient tmp q nt neg).dmax = tmp.dmax ∧
      (mulQuotient tmp q nt neg).signed neg = q.val * nt.signed neg := by
  obtain ⟨hlow, hhigh⟩ := abs_lt.mp hfits
  rw [mulQuotient]
  cases neg with
  | true =>
      rw [if_pos rfl]
      refine ⟨rfl, ?_⟩
      have hneg : nt.signed true < 0 := (nt.signed_neg_iff true).mpr rfl
      have hprod : (q.val : Int) * nt.signed true < 0 :=
        mul_neg_of_pos_of_neg (by exact_mod_cast hqval) hneg
      have hval := val_bnMulEx (c := tmp) hpos hnt.le q q.dmax
      have hint : ((bnMulEx tmp q q.dmax nt).val : Int) =
          (q.val * nt.signed true + q.val * (radix : Int) ^ tmp.dmax) % (radix : Int) ^ tmp.dmax := by
        rw [hval, LiteBignum.signed, if_pos rfl, hnt, ← LiteBignum.val]
        push_cast
        congr 1
        ring
      rw [Int.add_mul_emod_self_right, ← Int.add_emod_right, Int.emod_eq_of_lt (by omega) (by omega)]
        at hint
      rw [LiteBignum.signed, if_pos rfl, hint, dmax_bnMulEx, Int.add_sub_cancel]
  | false =>
      rw [if_neg Bool.false_ne_true]
      have hsigned (a : LiteBignum) : a.signed false = a.val := by
        rw [LiteBignum.signed, if_neg Bool.false_ne_true, Int.sub_zero]
      rw [hsigned] at hhigh ⊢
      have hlt : q.val * nt.val < radix ^ tmp.dmax := by exact_mod_cast hhigh
      dsimp only
      split
      · refine ⟨rfl, ?_⟩
        rw [hsigned, val_bnMulEx hpos hnt.le q q.dmax, ← LiteBignum.val, Nat.mod_eq_of_lt hlt]
        exact Nat.cast_mul ..
      · refine ⟨rfl, ?_⟩
        rw [hsigned, val_bnMulEx hq hqmax nt (bnDigits nt), value_bnDigits hpos, Nat.mul_comm,
          Nat.mod_eq_of_lt hlt]
        exact Nat.cast_mul ..

/-- Few subtractions, none of which leaves the range. -/
theorem subTimes_spec {M : Int} (hM : M < (radix : Int) ^ nt.dmax) (n : Nat) {s : LiteBignum × Bool}
    (hs : s.1.dmax = nt.dmax)
    (hrange : ∀ k ≤ n, |s.1.signed s.2 - (k : Nat) * nt.signed neg| ≤ M) :
    (subTimes nt neg n s).1.dmax = nt.dmax ∧
      (subTimes nt neg n s).1.signed (subTimes nt neg n s).2 =
        s.1.signed s.2 - n * nt.signed neg := by
  induction n generalizing s with
  | zero => exact ⟨hs, by rw [Nat.cast_zero, Int.zero_mul, Int.sub_zero]; rfl⟩
  | succ n ih =>
      obtain ⟨hlow, hhigh⟩ := abs_le.mp (hrange 1 (by omega))
      rw [Nat.cast_one, Int.one_mul] at hlow hhigh
      have hsub : (bnSignedSub s.1 s.2 nt neg).1.signed (bnSignedSub s.1 s.2 nt neg).2.1 =
          s.1.signed s.2 - nt.signed neg :=
        signed_bnSignedSub hs.symm (by rw [hs]; omega) (by rw [hs]; omega)
      have hnext (k : Nat) (hk : k ≤ n) :
          |(bnSignedSub s.1 s.2 nt neg).1.signed (bnSignedSub s.1 s.2 nt neg).2.1 -
            (k : Nat) * nt.signed neg| ≤ M := by
        have hlater := hrange (k + 1) (by omega)
        rw [hsub]
        rw [Nat.cast_succ] at hlater
        rwa [show s.1.signed s.2 - nt.signed neg - k * nt.signed neg =
          s.1.signed s.2 - (k + 1) * nt.signed neg by ring]
      obtain ⟨hmax, hval⟩ := ih (s := ((bnSignedSub s.1 s.2 nt neg).1, (bnSignedSub s.1 s.2 nt neg).2.1))
        hs hnext
      refine ⟨hmax, hval.trans ?_⟩
      rw [hsub]
      push_cast
      ring

/-- **The new cofactor**, computed either way. -/
theorem nextCofactor_spec (t : LiteBignum) (tNeg : Bool) (nt : LiteBignum) (neg : Bool)
    {M : Int} (hq : 0 < q.dmax)
    (hqval : 0 < q.val) (hqmax : q.dmax ≤ tmp.dmax) (ht : t.dmax = tmp.dmax)
    (hnt : nt.dmax = tmp.dmax) (hpos : 0 < nt.dmax) (hM : M < (radix : Int) ^ tmp.dmax)
    (hrange : ∀ k ≤ q.val, |t.signed tNeg - (k : Nat) * nt.signed neg| ≤ M)
    (hproduct : |(q.val : Int) * nt.signed neg| ≤ M) :
    let few := q.dmax = 1 ∧ (q.d 0).toNat ≤ 2
    let tmp' := if few then tmp else mulQuotient tmp q nt neg
    let next := if few then subTimes nt neg (q.d 0).toNat (t, tNeg)
      else ((bnSignedSub t tNeg tmp' neg).1, (bnSignedSub t tNeg tmp' neg).2.1)
    tmp'.dmax = tmp.dmax ∧ next.1.dmax = tmp.dmax ∧
      next.1.signed next.2 = t.signed tNeg - q.val * nt.signed neg := by
  intro few tmp' next
  by_cases hfew : few
  · have hval : q.val = (q.d 0).toNat := by rw [LiteBignum.val, hfew.1, value_one]
    have hnext : next = subTimes nt neg (q.d 0).toNat (t, tNeg) := if_pos hfew
    have htmp : tmp' = tmp := if_pos hfew
    rw [hval] at hrange ⊢
    obtain ⟨hmax, hsigned⟩ := subTimes_spec (s := (t, tNeg)) (by rw [hnt]; exact hM)
      (q.d 0).toNat (ht.trans hnt.symm) hrange
    rw [hnext, htmp]
    exact ⟨rfl, hmax.trans hnt, hsigned⟩
  · have htmp : tmp' = mulQuotient tmp q nt neg := if_neg hfew
    have hnext : next = ((bnSignedSub t tNeg tmp' neg).1, (bnSignedSub t tNeg tmp' neg).2.1) :=
      if_neg hfew
    obtain ⟨hmax, hsigned⟩ := mulQuotient_spec hq hqval hqmax hnt hpos (hproduct.trans_lt hM)
    rw [← htmp] at hmax hsigned
    obtain ⟨hlow, hhigh⟩ := abs_le.mp (hrange q.val le_rfl)
    have hsub : (bnSignedSub t tNeg tmp' neg).1.signed (bnSignedSub t tNeg tmp' neg).2.1 =
        t.signed tNeg - tmp'.signed neg :=
      signed_bnSignedSub (hmax.trans ht.symm) (by rw [hsigned, ht]; omega)
        (by rw [hsigned, ht]; omega)
    rw [hnext]
    exact ⟨hmax, ht, hsub.trans (by rw [hsigned])⟩

end Signed

/-! ## A round -/

/-- No division of Euclid's algorithm has a carry that does harm. -/
inductive EuclidHarmless : Nat → Nat → Prop
  | done (r : Nat) : EuclidHarmless r 0
  | step {r r' : Nat} (hpos : 0 < r') (hdiv : CarryHarmless (wordCount r) (wordCount r') r r')
      (h : EuclidHarmless r' (r % r')) : EuclidHarmless r r'

/-- The state holds the remainders `r` and `r'` and the cofactors `t` and `t'`. -/
structure InvState.Holds (W r r' : Nat) (t t' : Int) (s : InvState) : Prop where
  rLen_pos : 0 < s.rLen
  rLen_le : s.rLen ≤ W
  r_top : s.r.d (s.rLen - 1) ≠ 0
  r_val : value s.r.d 0 s.rLen = r
  nr_top : s.nrLen ≠ 0 → s.nr.d (s.nrLen - 1) ≠ 0
  nr_val : value s.nr.d 0 s.nrLen = r'
  t_dmax : s.t.dmax = W + 1
  nt_dmax : s.nt.dmax = W + 1
  tmp_dmax : s.tmp.dmax = W + 1
  t_val : s.t.signed s.tNeg = t
  nt_val : s.nt.signed s.ntNeg = t'

section Round

variable {M A W r r' : Nat} {t t' : Int} {s : InvState}

theorem InvState.Holds.nrLen_pos (h : s.Holds W r r' t t') (hpos : 0 < r') : 0 < s.nrLen := by
  by_contra hzero
  have hval := h.nr_val
  rw [Nat.eq_zero_of_not_pos hzero, value_zero] at hval
  omega

/-- **Step lemma.** A round is one of Euclid's algorithm. -/
theorem invStep_spec (mem : Words) (h : s.Holds W r r' t t') (hcof : Cofactors M A r r' t t')
    (hM : M < radix ^ W) (hpos : 0 < r')
    (hdiv : CarryHarmless (wordCount r) (wordCount r') r r') :
    ∃ s', invStep mem s = some s' ∧
      s'.Holds W r' (r % r') t' (t - (r / r' : Nat) * t') := by
  have hnr := h.nrLen_pos hpos
  have hcount : wordCount r = s.rLen := by rw [← h.r_val, wordCount_value h.rLen_pos h.r_top]
  have hcount' : wordCount r' = s.nrLen := by
    rw [← h.nr_val, wordCount_value hnr (h.nr_top hnr.ne')]
  have hle : s.nrLen ≤ s.rLen := by
    rw [← hcount, ← hcount']
    exact wordCount_mono hcof.lt.le
  rw [hcount, hcount', ← h.r_val, ← h.nr_val] at hdiv
  have hdivides := divides_of_carryHarmless mem s.q.d s.r.d s.r.d hnr hle (h.nr_top hnr.ne') hdiv
  rw [divides_iff (by rw [h.nr_val]; exact hpos), h.r_val, h.nr_val] at hdivides
  obtain ⟨qd, rd, hrun, hquot, hrem⟩ := hdivides
  rw [invStep, hrun]
  refine ⟨_, rfl, ?_⟩
  -- the quotient
  set q : LiteBignum := ⟨trim qd (s.rLen - s.nrLen + 1), qd⟩
  have hqval : q.val = r / r' := (value_trim ..).trans hquot
  have hqpos : 0 < q.val := by
    rw [hqval]
    exact Nat.div_pos hcof.lt.le hpos
  have hqmax : q.dmax ≤ s.tmp.dmax := by
    have htrim := trim_le qd (s.rLen - s.nrLen + 1)
    have hrLen := h.rLen_le
    rw [h.tmp_dmax]
    exact htrim.trans (by omega)
  have hfits : (M : Int) < (radix : Int) ^ s.tmp.dmax := by
    have hpow : radix ^ W ≤ radix ^ (W + 1) := Nat.pow_le_pow_right radix_pos (Nat.le_succ W)
    rw [h.tmp_dmax]
    exact_mod_cast hM.trans_le hpow
  obtain ⟨htmp, hnextMax, hnext⟩ := nextCofactor_spec s.t s.tNeg s.nt s.ntNeg
    (dmax_pos hqpos.ne') hqpos hqmax (h.t_dmax.trans h.tmp_dmax.symm)
    (h.nt_dmax.trans h.tmp_dmax.symm) (by rw [h.nt_dmax]; exact Nat.succ_pos W) hfits
    (by rw [hqval, h.t_val, h.nt_val]; exact fun k hk => hcof.abs_sub_mul_le hpos hk)
    (by rw [hqval, h.nt_val]; exact hcof.abs_mul_le hpos)
  rw [hqval, h.t_val, h.nt_val] at hnext
  exact
    { rLen_pos := hnr
      rLen_le := hle.trans h.rLen_le
      r_top := h.nr_top hnr.ne'
      r_val := h.nr_val
      nr_top := trim_top rd s.nrLen
      nr_val := (value_trim rd s.nrLen).trans hrem
      t_dmax := h.nt_dmax
      nt_dmax := hnextMax.trans h.tmp_dmax
      tmp_dmax := htmp.trans h.tmp_dmax
      t_val := h.nt_val
      nt_val := hnext }

/-- **Run lemma.** The loop ends, with the greatest common divisor. -/
theorem invLoop_spec (mem : Words) (hM : M < radix ^ W) (hharm : EuclidHarmless r r')
    (h : s.Holds W r r' t t') (hcof : Cofactors M A r r' t t') {fuel : Nat} (hfuel : r' < fuel) :
    ∃ s' t₁ t₁', invLoop mem fuel s = .done s' ∧ s'.Holds W (Nat.gcd M A) 0 t₁ t₁' ∧
      Cofactors M A (Nat.gcd M A) 0 t₁ t₁' := by
  induction hharm generalizing s t t' fuel with
  | done r =>
      obtain ⟨fuel, rfl⟩ := Nat.exists_eq_succ_of_ne_zero (Nat.ne_zero_of_lt hfuel)
      have hgcd : Nat.gcd M A = r := by rw [← hcof.gcd, Nat.gcd_zero_right]
      have hzero : s.nrLen = 0 := by
        by_contra hne
        have hpos := value_pos_of_top (Nat.pos_of_ne_zero hne) (h.nr_top hne)
        rw [h.nr_val] at hpos
        exact absurd hpos (lt_irrefl _)
      rw [invLoop, if_pos hzero, hgcd]
      exact ⟨s, t, t', rfl, h, hcof⟩
  | @step r r' hpos hdiv _ ih =>
      obtain ⟨fuel, rfl⟩ := Nat.exists_eq_succ_of_ne_zero (Nat.ne_zero_of_lt hfuel)
      obtain ⟨s₁, hrun, hs₁⟩ := invStep_spec mem h hcof hM hpos hdiv
      rw [invLoop, if_neg (h.nrLen_pos hpos).ne', hrun]
      exact ih hs₁ (hcof.step hpos) ((Nat.mod_lt r hpos).trans_le (Nat.le_of_lt_succ hfuel))

end Round

/-! ## The whole inversion -/

/-- Fewer digits than the destination has -/
theorem bnSetBn_spec (d src : LiteBignum) {n : Nat} (hn : n ≤ d.dmax) :
    (bnSetBn d src n).dmax = d.dmax ∧ (∀ i < n, (bnSetBn d src n).d i = src.d i) ∧
      (bnSetBn d src n).val = value src.d 0 n := by
  have hwords (i : Nat) (hi : i < n) : (bnSetBn d src n).d i = src.d i :=
    if_pos ⟨hi, hi.trans_le hn⟩
  refine ⟨rfl, hwords, ?_⟩
  have hclear : (bnSetBn d src n).val = value (bnSetBn d src n).d 0 n := by
    refine value_of_clear hn fun i hlow hi => ?_
    have hi' : i < d.dmax := hi
    rw [Nat.zero_add, bnSetBn]
    dsimp only
    rw [if_neg (by omega), if_pos hi']
  rw [hclear]
  exact value_congr fun i hi => by rw [Nat.zero_add]; exact hwords i hi

/-- A number that is less than what some words hold has no more digits. -/
theorem bnDigits_le_of_lt {a : LiteBignum} {W : Nat} (hpos : a.val ≠ 0) (hlt : a.val < radix ^ W) :
    bnDigits a ≤ W := by
  by_contra hgt
  have htop := value_le_of_top (v := a.d) (n := bnDigits a - 1) (bnDigits_top hpos)
  rw [Nat.sub_add_cancel (bnDigits_pos a), value_bnDigits (dmax_pos hpos)] at htop
  have hpow : radix ^ W ≤ radix ^ (bnDigits a - 1) :=
    Nat.pow_le_pow_right radix_pos (by omega)
  omega

/-- The buffers are filled with zeros. -/
theorem bnInit_words (mem : Words) (len : Nat) :
    (bnInit mem (len * liteBnBytes)).dmax = len ∧
      ∀ i < len, (bnInit mem (len * liteBnBytes)).d i = 0 :=
  ⟨Nat.mul_div_cancel _ (by decide), fun _ hi => memsetZero_apply hi⟩

theorem invInit_spec (mem : Words) {src mod : LiteBignum} (hpos : 0 < src.val)
    (hlt : src.val < mod.val) :
    (invInit mem src mod).Holds mod.dmax mod.val src.val 0 1 := by
  have hmod : mod.val ≠ 0 := by omega
  have hmodMax := dmax_pos hmod
  have hsrcMax := dmax_pos hpos.ne'
  have hrLen := bnDigits_le hmodMax
  have hnrLen : bnDigits src ≤ mod.dmax := bnDigits_le_of_lt hpos.ne' (hlt.trans mod.val_lt)
  obtain ⟨hmax, -⟩ := bnInit_words mem mod.dmax
  obtain ⟨htMax, htWords⟩ := bnInit_words mem (mod.dmax + 1)
  have hsize : bnSize mod + 4 = (mod.dmax + 1) * liteBnBytes := (Nat.succ_mul ..).symm
  -- the remainders
  obtain ⟨-, hrWords, -⟩ := bnSetBn_spec (bnInit mem (bnSize mod)) mod
    (hrLen.trans hmax.ge)
  obtain ⟨-, hnrWords, -⟩ := bnSetBn_spec (bnInit mem (bnSize mod)) src
    (hnrLen.trans hmax.ge)
  have hrVal : value (bnSetBn (bnInit mem (bnSize mod)) mod (bnDigits mod)).d 0 (bnDigits mod) =
      mod.val := by
    rw [← value_bnDigits hmodMax]
    exact value_congr fun i hi => by rw [Nat.zero_add]; exact hrWords i hi
  have hnrVal : value (bnSetBn (bnInit mem (bnSize mod)) src (bnDigits src)).d 0 (bnDigits src) =
      src.val := by
    rw [← value_bnDigits hsrcMax]
    exact value_congr fun i hi => by rw [Nat.zero_add]; exact hnrWords i hi
  -- the cofactors
  have hzero : (bnInit mem (bnSize mod + 4)).signed false = 0 := by
    have hval : (bnInit mem (bnSize mod + 4)).val = 0 := by
      rw [hsize]
      exact value_eq_zero fun i hi => by rw [Nat.zero_add]; exact htWords i (hi.trans_eq htMax)
    rw [LiteBignum.signed, hval]
    rfl
  have hone : LiteBignum.signed { bnInit mem (bnSize mod + 4) with
      d := Function.update (bnInit mem (bnSize mod + 4)).d 0 1 } false = 1 := by
    have hval : value (Function.update (bnInit mem (bnSize mod + 4)).d 0 1) 0
        (bnInit mem (bnSize mod + 4)).dmax = 1 := by
      rw [hsize, htMax, value_of_clear (Nat.succ_le_succ (Nat.zero_le mod.dmax)) fun i hlow hi => ?_,
        value_one, Function.update_self]
      · rfl
      · rw [Nat.zero_add, Function.update_of_ne (by omega)]
        exact htWords i hi
    rw [LiteBignum.signed, LiteBignum.val, hval]
    rfl
  rw [← hsize] at htMax
  exact
    { rLen_pos := bnDigits_pos mod
      rLen_le := hrLen
      r_top := by
        have htop := bnDigits_top hmod
        rwa [← hrWords _ (Nat.sub_lt (bnDigits_pos mod) one_pos)] at htop
      r_val := hrVal
      nr_top := trim_top _ _
      nr_val := (value_trim ..).trans hnrVal
      t_dmax := htMax
      nt_dmax := htMax
      tmp_dmax := htMax
      t_val := hzero
      nt_val := hone }

/-- The cofactor, brought between zero and the modulus. -/
theorem positiveCofactor_spec {c mod : LiteBignum} {neg : Bool} (hmax : c.dmax = mod.dmax + 1)
    (hne : c.signed neg ≠ 0) (habs : |c.signed neg| < mod.val) :
    let result := if neg then (bnSignedAdd c neg mod false).1 else c
    result.dmax = mod.dmax + 1 ∧ 0 < result.val ∧ result.val < mod.val ∧
      (result.val : Int) ≡ c.signed neg [ZMOD mod.val] := by
  intro result
  obtain ⟨hlow, hhigh⟩ := abs_lt.mp habs
  have hsign := c.signed_neg_iff neg
  cases neg with
  | false =>
      have hresult : result = c := if_neg Bool.false_ne_true
      have hval : c.signed false = c.val := by
        rw [LiteBignum.signed, if_neg Bool.false_ne_true, Int.sub_zero]
      rw [hresult, hval]
      rw [hval] at hhigh hne
      exact ⟨hmax, by lia, by lia, rfl⟩
  | true =>
      have hresult : result = (bnAdd c mod).1 := if_pos rfl
      have hneg := hsign.mpr rfl
      have hadd := (val_bnAdd (c := c) (a := mod) (by lia)).1
      have hval : (c.val : Int) = c.signed true + (radix : Int) ^ c.dmax := by
        rw [LiteBignum.signed, if_pos rfl, Int.sub_add_cancel]
      have hmod : (mod.val : Int) < (radix : Int) ^ c.dmax := by
        have hpow : radix ^ mod.dmax ≤ radix ^ c.dmax := Nat.pow_le_pow_right radix_pos (by lia)
        exact_mod_cast mod.val_lt.trans_le hpow
      rw [hval, Int.add_right_comm, Int.add_emod_right, Int.emod_eq_of_lt (by lia) (by lia)]
        at hadd
      rw [hresult]
      refine ⟨hmax, by lia, by lia, ?_⟩
      rw [hadd]
      exact Int.add_modEq_right

/-- More fuel does not change how the loop ends. -/
theorem invLoop_mono (mem : Words) {fuel fuel' : Nat} (hle : fuel ≤ fuel') {s : InvState}
    (h : invLoop mem fuel s ≠ .outOfFuel) : invLoop mem fuel' s = invLoop mem fuel s := by
  induction fuel generalizing fuel' s with
  | zero => exact absurd rfl h
  | succ fuel ih =>
      obtain ⟨fuel', rfl⟩ := Nat.exists_eq_succ_of_ne_zero (Nat.ne_zero_of_lt hle)
      rw [invLoop] at h ⊢
      rw [invLoop]
      by_cases hzero : s.nrLen = 0
      · rw [if_pos hzero, if_pos hzero]
      · rw [if_neg hzero] at h ⊢
        rw [if_neg hzero]
        cases hstep : invStep mem s with
        | none => rfl
        | some s' =>
            rw [hstep] at h
            exact ih (Nat.le_of_succ_le_succ hle) h

theorem bnModinvVartime_mono (mem : Words) {dst src mod : LiteBignum} {fuel fuel' : Nat}
    (hle : fuel ≤ fuel') {result : Bool × LiteBignum}
    (h : bnModinvVartime mem fuel dst src mod = some result) :
    bnModinvVartime mem fuel' dst src mod = some result := by
  have hends : invLoop mem fuel (invInit mem src mod) ≠ .outOfFuel := by
    intro hout
    rw [bnModinvVartime, hout] at h
    exact absurd h (by simp)
  rw [bnModinvVartime, invLoop_mono mem hle hends]
  exact h

section Inverse

variable (mem : Words) {dst src mod : LiteBignum} {fuel : Nat}

/-- The loop ends with the cofactors, and the digit that is left tells whether there is an
inverse. -/
theorem invLoop_done (hpos : 0 < src.val) (hlt : src.val < mod.val)
    (hharm : EuclidHarmless mod.val src.val) (hfuel : src.val < fuel) :
    ∃ s t t', invLoop mem fuel (invInit mem src mod) = .done s ∧
      s.Holds mod.dmax (Nat.gcd src.val mod.val) 0 t t' ∧
      Cofactors mod.val src.val (Nat.gcd src.val mod.val) 0 t t' ∧
      (s.rLen ≠ 1 ∨ s.r.d 0 ≠ 1 ↔ Nat.gcd src.val mod.val ≠ 1) := by
  obtain ⟨s, t, t', hrun, hs, hcof⟩ := invLoop_spec mem mod.val_lt hharm
    (invInit_spec mem hpos hlt) (Cofactors.start hlt) hfuel
  rw [Nat.gcd_comm] at hs hcof
  refine ⟨s, t, t', hrun, hs, hcof, ?_⟩
  have hcount := wordCount_value hs.rLen_pos hs.r_top
  have hval := hs.r_val
  rw [hval] at hcount
  rw [← not_and_or, not_iff_not]
  constructor
  · rintro ⟨hlen, hword⟩
    rw [hlen, value_one, hword] at hval
    exact hval.symm
  · intro hgcd
    have hlen : s.rLen = 1 := by
      rw [← hcount, hgcd, wordCount, Nat.log_one_right]
    rw [hlen, value_one, hgcd] at hval
    exact ⟨hlen, UInt32.toNat.inj hval⟩

/-- What is coprime to the modulus is inverted. -/
theorem bnModinvVartime_of_coprime (hmod : 1 < mod.val) (hpos : 0 < src.val)
    (hlt : src.val < mod.val) (hdst : mod.dmax ≤ dst.dmax)
    (hharm : EuclidHarmless mod.val src.val) (hfuel : src.val < fuel)
    (hgcd : Nat.gcd src.val mod.val = 1) :
    ∃ dst', bnModinvVartime mem fuel dst src mod = some (true, dst') ∧
      0 < dst'.val ∧ dst'.val < mod.val ∧ dst'.val * src.val % mod.val = 1 := by
  obtain ⟨s, t, t', hrun, hs, hcof, hone⟩ := invLoop_done mem hpos hlt hharm hfuel
  rw [bnModinvVartime, hrun]
  dsimp only
  rw [if_neg (hone.not_left.mpr hgcd)]
  rw [hgcd] at hcof
  obtain ⟨hne, habs⟩ := hcof.inverse hmod
  rw [← hs.t_val] at hne habs
  obtain ⟨hmax, hlow, hhigh, hcongr⟩ := positiveCofactor_spec hs.t_dmax hne habs
  set c := if s.tNeg then (bnSignedAdd s.t s.tNeg mod false).1 else s.t
  have hdigits := bnDigits_le_of_lt hlow.ne' (hhigh.trans mod.val_lt)
  obtain ⟨-, -, hval⟩ := bnSetBn_spec dst c (hdigits.trans hdst)
  rw [value_bnDigits (dmax_pos hlow.ne')] at hval
  refine ⟨_, rfl, ?_⟩
  rw [hval]
  refine ⟨hlow, hhigh, ?_⟩
  have hinverse : ((c.val * src.val : Nat) : Int) ≡ (1 : Nat) [ZMOD mod.val] := by
    rw [Nat.cast_mul]
    rw [hs.t_val] at hcongr
    exact (hcongr.mul_right _).trans hcof.modEq
  rw [Int.natCast_modEq_iff, Nat.ModEq, Nat.mod_eq_of_lt hmod] at hinverse
  exact hinverse

/-- What is not coprime to the modulus is refused. -/
theorem bnModinvVartime_of_not_coprime (dst : LiteBignum) (hpos : 0 < src.val)
    (hlt : src.val < mod.val) (hharm : EuclidHarmless mod.val src.val) (hfuel : src.val < fuel)
    (hgcd : Nat.gcd src.val mod.val ≠ 1) :
    bnModinvVartime mem fuel dst src mod = some (false, dst) := by
  obtain ⟨s, t, t', hrun, hs, hcof, hone⟩ := invLoop_done mem hpos hlt hharm hfuel
  rw [bnModinvVartime, hrun]
  exact if_pos (hone.mpr hgcd)

end Inverse

/-- `bn_modinv_vartime` inverts: it returns 1 if and only if there is an inverse, and then `dst` is
the inverse. -/
def Inverts (mem : Words) (fuel : Nat) (dst src mod : LiteBignum) : Prop :=
  ∃ ok dst', bnModinvVartime mem fuel dst src mod = some (ok, dst') ∧
    (ok = true ↔ Nat.gcd src.val mod.val = 1) ∧
    (ok = true → 0 < dst'.val ∧ dst'.val < mod.val ∧ dst'.val * src.val % mod.val = 1)

/-- **The modular inverse**, when no division leaves too much: `bn_modinv_vartime` ends, and it
inverts. -/
theorem inverts_of_euclidHarmless (mem : Words) {dst src mod : LiteBignum} (hmod : 1 < mod.val)
    (hpos : 0 < src.val) (hlt : src.val < mod.val) (hdst : mod.dmax ≤ dst.dmax)
    (hharm : EuclidHarmless mod.val src.val) {fuel : Nat} (hfuel : src.val < fuel) :
    Inverts mem fuel dst src mod := by
  by_cases hgcd : Nat.gcd src.val mod.val = 1
  · obtain ⟨dst', hrun, hinverse⟩ :=
      bnModinvVartime_of_coprime mem hmod hpos hlt hdst hharm hfuel hgcd
    exact ⟨true, dst', hrun, iff_of_true rfl hgcd, fun _ => hinverse⟩
  · have hrun := bnModinvVartime_of_not_coprime mem dst hpos hlt hharm hfuel hgcd
    exact ⟨false, dst, hrun, iff_of_false Bool.false_ne_true hgcd,
      fun h => absurd h Bool.false_ne_true⟩

/-- A number of one word can be inverted. -/
theorem euclidHarmless_of_lt {r r' : Nat} (h : r' < radix) : EuclidHarmless r r' := by
  induction r' using Nat.strong_induction_on generalizing r with
  | _ r' ih =>
      rcases Nat.eq_zero_or_pos r' with rfl | hpos
      · exact .done r
      · have hone : wordCount r' = 1 := congrArg (· + 1) (Nat.log_of_lt h)
        have hmod := Nat.mod_lt r hpos
        exact .step hpos (Or.inl hone) (ih (r % r') hmod (hmod.trans h))

/-- The inverse of 3 modulo `2 ^ 64 + 1` -/
theorem inverts_of_euclidHarmless_three :
    Inverts (ofList []) 4 ⟨3, ofList []⟩ ⟨1, ofList [3]⟩ ⟨3, ofList [1, 0, 1]⟩ := by
  refine inverts_of_euclidHarmless (ofList []) ?_ ?_ ?_ ?_ (euclidHarmless_of_lt ?_) ?_ <;> decide

/-- `2 ^ 94 + 1` has an inverse modulo `2 ^ 95 + 1`, but the first division leaves `2 ^ 94 + 1`
again. -/
theorem not_inverts_addsBack :
    ¬ ∀ (mem : Words) (dst src mod : LiteBignum), 1 < mod.val → mod.dmax ≤ 64 → 0 < src.val →
      src.val < mod.val → mod.dmax ≤ dst.dmax → ∃ fuel, Inverts mem fuel dst src mod := by
  intro h
  obtain ⟨fuel, ok, dst, hrun, hiff, -⟩ := h (ofList []) ⟨3, ofList []⟩
    ⟨3, ofList [1, 0, 0x40000000]⟩ ⟨3, ofList [1, 0, 0x80000000]⟩ (by decide) (by decide)
    (by decide) (by decide) (by decide)
  have hfails : (bnModinvVartime (ofList []) 3 ⟨3, ofList []⟩ ⟨3, ofList [1, 0, 0x40000000]⟩
      ⟨3, ofList [1, 0, 0x80000000]⟩).map Prod.fst = some false := by decide +kernel
  obtain ⟨result, hresult, hfalse⟩ := Option.map_eq_some_iff.mp hfails
  have hmore := bnModinvVartime_mono (ofList []) (Nat.le_add_right fuel 3) hrun
  have hmore' := bnModinvVartime_mono (ofList []) (Nat.le_add_left 3 fuel) hresult
  rw [hmore, Option.some.injEq] at hmore'
  rw [← hmore'] at hfalse
  have htrue := hiff.mpr (by decide +kernel)
  exact absurd (hfalse.symm.trans htrue) Bool.false_ne_true

end Dcrypto
end CrosEc
