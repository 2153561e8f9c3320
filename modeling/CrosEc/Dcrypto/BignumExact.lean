import CrosEc.Dcrypto.Bignum

/-!
# Sums, differences and products are exact

Each function of `bn.c` computes, in the words of its result, the number that its name says,
modulo what these words can hold.  A number with a sign is held in two's complement with the sign
beside the words (`LiteBignum.signed`); the subtraction of such numbers is exact as long as the
difference fits.
-/

namespace CrosEc
namespace Dcrypto

open Lib Words

/-- The number in two's complement, whose sign is kept beside it. -/
def LiteBignum.signed (a : LiteBignum) (neg : Bool) : Int :=
  a.val - if neg then (radix : Int) ^ a.dmax else 0

theorem LiteBignum.val_lt (a : LiteBignum) : a.val < radix ^ a.dmax := value_lt a.d 0 a.dmax

theorem LiteBignum.val_lt_int (a : LiteBignum) : (a.val : Int) < (radix : Int) ^ a.dmax := by
  exact_mod_cast a.val_lt

theorem LiteBignum.val_nonneg (a : LiteBignum) : (0 : Int) ≤ a.val := Int.natCast_nonneg _

theorem LiteBignum.val_congr {a b : LiteBignum} (hmax : a.dmax = b.dmax)
    (h : ∀ i < a.dmax, a.d i = b.d i) : a.val = b.val := by
  rw [LiteBignum.val, LiteBignum.val, ← hmax]
  exact value_congr fun i hi => by rw [Nat.zero_add]; exact h i hi

/-! ## The carry behind the loop -/

section Carry

variable {c : Words} {off k : Nat} {A : Int}

theorem carryTail_of_notMem {j : Nat} (hj : j < off ∨ off + k ≤ j) :
    (carryTail k off (A, c)).2 j = c j := by
  induction k generalizing off A c with
  | zero => rfl
  | succ k ih =>
      have hne : j ≠ off := by omega
      rw [carryTail]
      split
      · rfl
      · exact (ih (by omega)).trans (Function.update_of_ne hne ..)

theorem carryTail_succ (hA : A ≠ 0) :
    carryTail (k + 1) off (A, c) =
      carryTail k (off + 1)
        ((A + (c off).toNat) / radix, Function.update c off (toWord (A + (c off).toNat))) := by
  rw [carryTail, if_neg hA]

/-- The early exit does not matter: a carry that is zero stays zero. -/
theorem carryTail_sum (k off : Nat) (A : Int) (c : Words) :
    (value (carryTail k off (A, c)).2 off k : Int) +
      (carryTail k off (A, c)).1 * (radix : Int) ^ k = A + value c off k := by
  induction k generalizing off A c with
  | zero => simp [carryTail]
  | succ k ih =>
      by_cases hA : A = 0
      · simp [carryTail, hA]
      · rw [carryTail_succ hA]
        set A' := A + (c off).toNat
        have hrun := ih (off + 1) (A' / radix) (Function.update c off (toWord A'))
        have hhead : (carryTail k (off + 1) (A' / radix, Function.update c off (toWord A'))).2 off =
            toWord A' :=
          (carryTail_of_notMem (Or.inl (Nat.lt_succ_self off))).trans (Function.update_self ..)
        have hrest : value (Function.update c off (toWord A')) (off + 1) k = value c (off + 1) k :=
          value_update_of_notMem _ (Or.inl (Nat.lt_succ_self off))
        have hdiv := Int.emod_add_mul_ediv A' radix
        rw [hrest] at hrun
        rw [show k + 1 = 1 + k by omega, value_add, value_add, value_one, value_one, hhead]
        simp only [Nat.cast_add, Nat.cast_mul, toNat_toWord, pow_add, pow_one]
        linear_combination (radix : Int) * hrun + hdiv

end Carry

/-- A loop over the words of the shorter number, and the carry through the others. -/
theorem carryLoop_tail_sum (term : Nat → UInt32 → Int) {m n : Nat} (hmn : m ≤ n) (A : Int)
    (c : Words) :
    (value (carryTail (n - m) m (carryLoop term 0 m (A, c))).2 0 n : Int) +
        (carryTail (n - m) m (carryLoop term 0 m (A, c))).1 * (radix : Int) ^ n =
      A + weigh (fun i => term i (c i)) m + (radix : Int) ^ m * value c m (n - m) := by
  obtain ⟨k, rfl⟩ := Nat.exists_eq_add_of_le hmn
  rw [Nat.add_sub_cancel_left]
  set s := carryLoop term 0 m (A, c)
  have hloop : (value s.2 0 m : Int) + s.1 * (radix : Int) ^ m =
      A + weigh (fun i => term i (c i)) m := by
    simpa only [Nat.zero_add] using carryLoop_sum term 0 m A c
  have htail := carryTail_sum k m s.1 s.2
  have hlow : value (carryTail k m (s.1, s.2)).2 0 m = value s.2 0 m :=
    value_congr fun i hi => carryTail_of_notMem (Or.inl (by omega))
  have hhigh : value s.2 m k = value c m k :=
    value_congr fun i _ => carryLoop_of_notMem (Or.inr (by omega))
  rw [hhigh] at htail
  rw [value_add, Nat.zero_add, hlow]
  push_cast
  rw [pow_add]
  linear_combination hloop + (radix : Int) ^ m * htail

/-! ## Addition and subtraction -/

section AddSub

variable {a c : LiteBignum}

@[simp]
theorem dmax_bnSub (c a : LiteBignum) : (bnSub c a).1.dmax = c.dmax := rfl

@[simp]
theorem dmax_bnAdd (c a : LiteBignum) : (bnAdd c a).1.dmax = c.dmax := rfl

/-- The number splits at the size of a shorter one. -/
theorem LiteBignum.val_split (c : LiteBignum) {m : Nat} (h : m ≤ c.dmax) :
    (c.val : Int) = weigh (fun i => ((c.d i).toNat : Int)) m +
      (radix : Int) ^ m * value c.d m (c.dmax - m) := by
  have hsplit := value_add c.d 0 m (c.dmax - m)
  have hlow := value_eq_weigh c.d 0 m
  rw [Nat.add_sub_cancel' h, Nat.zero_add] at hsplit
  simp only [Nat.zero_add] at hlow
  rw [LiteBignum.val, hsplit, ← hlow]
  push_cast
  rfl

theorem LiteBignum.val_eq_weigh (a : LiteBignum) :
    (a.val : Int) = weigh (fun i => ((a.d i).toNat : Int)) a.dmax := by
  have h := value_eq_weigh a.d 0 a.dmax
  simp only [Nat.zero_add] at h
  exact h

/-- What a number and a carry add up to. -/
theorem LiteBignum.val_add_carry (c : LiteBignum) {A y : Int}
    (h : (c.val : Int) + A * (radix : Int) ^ c.dmax = y) :
    y / (radix : Int) ^ c.dmax = A ∧ y % (radix : Int) ^ c.dmax = c.val := by
  have hpos : (0 : Int) < (radix : Int) ^ c.dmax := by exact_mod_cast radix_pow_pos c.dmax
  rw [Int.ediv_emod_unique hpos]
  exact ⟨by rw [← h]; ring, c.val_nonneg, c.val_lt_int⟩

theorem val_bnSub (h : a.dmax ≤ c.dmax) :
    ((bnSub c a).1.val : Int) = (c.val - a.val) % (radix : Int) ^ c.dmax := by
  have hsum := carryLoop_tail_sum (fun i x => x.toNat - (a.d i).toNat) h 0 c.d
  rw [weigh_sub, ← a.val_eq_weigh, Int.zero_add] at hsum
  refine ((bnSub c a).1.val_add_carry (hsum.trans ?_)).2.symm
  rw [c.val_split h]
  ring

/-- What is negative wraps once. -/
theorem val_bnSub_of_lt (h : a.dmax ≤ c.dmax) (hlt : c.val < a.val) :
    (bnSub c a).1.val + a.val = c.val + radix ^ c.dmax := by
  have hsub := val_bnSub h
  have hpow : (radix : Int) ^ a.dmax ≤ (radix : Int) ^ c.dmax := pow_le_pow_right₀ (by decide) h
  have ha := a.val_lt_int
  rw [← Int.add_emod_right, Int.emod_eq_of_lt (by omega) (by omega)] at hsub
  have hcast : (((bnSub c a).1.val + a.val : Nat) : Int) = (c.val + radix ^ c.dmax : Nat) := by
    push_cast
    omega
  exact Int.ofNat_inj.mp hcast

/-- The borrow is 0 or -1. -/
theorem borrow_bnSub (h : a.dmax ≤ c.dmax) :
    (bnSub c a).2 = if c.val < a.val then 0xFFFFFFFF else 0 := by
  have hsum := carryLoop_tail_sum (fun i x => x.toNat - (a.d i).toNat) h 0 c.d
  rw [weigh_sub, ← a.val_eq_weigh, Int.zero_add] at hsum
  have hparts := (bnSub c a).1.val_add_carry (y := c.val - a.val) (hsum.trans (by
    rw [c.val_split h]
    ring))
  have hword : (bnSub c a).2 = toWord ((c.val - a.val : Int) / (radix : Int) ^ c.dmax) :=
    congrArg toWord hparts.1.symm
  have hpow : (radix : Int) ^ a.dmax ≤ (radix : Int) ^ c.dmax := pow_le_pow_right₀ (by decide) h
  have hc := c.val_lt_int
  have ha := a.val_lt_int
  rw [hword]
  split
  · have hneg : (c.val - a.val : Int) / (radix : Int) ^ c.dmax = -1 := by
      refine ((Int.ediv_emod_unique (r := c.val - a.val + (radix : Int) ^ c.dmax) (by lia)).mpr
        ⟨by ring, by lia, by lia⟩).1
    rw [hneg]
    decide
  · rw [Int.ediv_eq_zero_of_lt (by lia) (by lia)]
    decide

/-- What is not negative is the difference. -/
theorem val_bnSub_of_le (h : a.dmax ≤ c.dmax) (hle : a.val ≤ c.val) :
    (bnSub c a).1.val = c.val - a.val := by
  have hsub := val_bnSub h
  have hlt := c.val_lt_int
  rw [Int.emod_eq_of_lt (by omega) (by omega)] at hsub
  omega

/-- The words and the carry of `bn_add`. -/
theorem val_bnAdd (h : a.dmax ≤ c.dmax) :
    ((bnAdd c a).1.val : Int) = (c.val + a.val) % (radix : Int) ^ c.dmax ∧
      ((bnAdd c a).2.toNat : Int) = (c.val + a.val) / (radix : Int) ^ c.dmax := by
  have hsum := carryLoop_tail_sum (fun i x => x.toNat + (a.d i).toNat) h 0 c.d
  rw [weigh_add, ← a.val_eq_weigh, Int.zero_add] at hsum
  have hparts := (bnAdd c a).1.val_add_carry (y := c.val + a.val) (hsum.trans (by
    rw [c.val_split h]
    ring))
  have hpos : (0 : Int) < (radix : Int) ^ c.dmax := by exact_mod_cast radix_pow_pos c.dmax
  have hpow : (radix : Int) ^ a.dmax ≤ (radix : Int) ^ c.dmax := pow_le_pow_right₀ (by decide) h
  have hlow : 0 ≤ (c.val + a.val : Int) / (radix : Int) ^ c.dmax :=
    Int.ediv_nonneg (by omega) hpos.le
  have hhigh : (c.val + a.val : Int) / (radix : Int) ^ c.dmax < 2 := by
    refine Int.ediv_lt_of_lt_mul hpos ?_
    have := c.val_lt_int
    have := a.val_lt_int
    omega
  refine ⟨hparts.2.symm, ?_⟩
  rw [dmax_bnAdd] at hparts
  have hword := toNat_toWord_of_lt hlow (hhigh.trans_le (by decide))
  rw [hparts.1] at hword ⊢
  exact hword

theorem val_bnAdd_of_lt (h : a.dmax ≤ c.dmax) (hlt : c.val + a.val < radix ^ c.dmax) :
    (bnAdd c a).1.val = c.val + a.val := by
  have hadd := (val_bnAdd h).1
  rw [Int.emod_eq_of_lt (by omega) (by exact_mod_cast hlt)] at hadd
  omega

end AddSub

/-! ## Subtraction of numbers with a sign -/

section Signed

variable {a c : LiteBignum}

@[simp]
theorem dmax_bnSignedSub (c : LiteBignum) (cNeg : Bool) (a : LiteBignum) (aNeg : Bool) :
    (bnSignedSub c cNeg a aNeg).1.dmax = c.dmax := rfl

/-- Adding the complement and one. -/
theorem signedSub_sum (a c : LiteBignum) :
    (value (carryLoop (fun i x => x.toNat + (~~~(a.d i)).toNat) 0 a.dmax (1, c.d)).2 0 a.dmax : Int) +
        (carryLoop (fun i x => x.toNat + (~~~(a.d i)).toNat) 0 a.dmax (1, c.d)).1 *
          (radix : Int) ^ a.dmax =
      value c.d 0 a.dmax - a.val + (radix : Int) ^ a.dmax := by
  have hnot (x : UInt32) : ((~~~x).toNat : Int) = radix - 1 - x.toNat := by
    have hx := x.toNat_lt
    have hsize : UInt32.size = 2 ^ 32 := rfl
    rw [UInt32.toNat_not, hsize, radix]
    omega
  rw [carryLoop_sum, weigh_add, a.val_eq_weigh, value_eq_weigh]
  simp only [hnot, Nat.zero_add]
  rw [weigh_sub, weigh_max]
  ring

/-- The words hold the difference, and the carry says whether it was negative. -/
theorem bnSignedSub_words (h : a.dmax = c.dmax) (cNeg aNeg : Bool) :
    ((bnSignedSub c cNeg a aNeg).1.val : Int) =
        c.val - a.val + (if a.val ≤ c.val then 0 else (radix : Int) ^ c.dmax) ∧
      (carryLoop (fun i x => x.toNat + (~~~(a.d i)).toNat) 0 a.dmax (1, c.d)).1 =
        if a.val ≤ c.val then 1 else 0 := by
  have hsum := signedSub_sum a c
  have hwords : (bnSignedSub c cNeg a aNeg).1.val =
      value (carryLoop (fun i x => (x.toNat : Int) + (~~~(a.d i)).toNat) 0 a.dmax (1, c.d)).2 0
        c.dmax := by
    simp only [bnSignedSub, LiteBignum.val, h, Nat.sub_self, carryLoop]
  rw [show value c.d 0 a.dmax = c.val by rw [h]; rfl] at hsum
  rw [h] at hsum hwords ⊢
  rw [← hwords] at hsum
  have hparts := LiteBignum.val_add_carry (bnSignedSub c cNeg a aNeg).1 hsum
  have hc := c.val_lt_int
  have ha := a.val_lt_int
  rw [h] at ha
  rw [dmax_bnSignedSub] at hparts
  have hpos : (0 : Int) < (radix : Int) ^ c.dmax := by exact_mod_cast radix_pow_pos c.dmax
  rw [← hparts.1, ← hparts.2]
  split_ifs with hle
  · rw [Int.add_ediv_of_dvd_right (dvd_refl _), Int.ediv_self hpos.ne', Int.add_emod_right,
      Int.ediv_eq_zero_of_lt (by lia) (by lia), Int.emod_eq_of_lt (by lia) (by lia)]
    exact ⟨(Int.add_zero _).symm, rfl⟩
  · rw [Int.ediv_eq_zero_of_lt (by lia) (by lia), Int.emod_eq_of_lt (by lia) (by lia)]
    exact ⟨rfl, rfl⟩

/-- **The subtraction is exact** when the difference fits into the words and the sign. -/
theorem signed_bnSignedSub (h : a.dmax = c.dmax) {cNeg aNeg : Bool}
    (hlow : -(radix : Int) ^ c.dmax ≤ c.signed cNeg - a.signed aNeg)
    (hhigh : c.signed cNeg - a.signed aNeg < (radix : Int) ^ c.dmax) :
    (bnSignedSub c cNeg a aNeg).1.signed (bnSignedSub c cNeg a aNeg).2.1 =
      c.signed cNeg - a.signed aNeg := by
  obtain ⟨hval, hcarry⟩ := bnSignedSub_words h cNeg aNeg
  have hneg : (bnSignedSub c cNeg a aNeg).2.1 =
      if (!cNeg && aNeg && decide (a.val ≤ c.val)) || (cNeg && !aNeg && decide (c.val < a.val))
      then cNeg else xor cNeg (xor (!aNeg) (decide (a.val ≤ c.val))) := by
    simp only [bnSignedSub, h, Nat.sub_self, carryLoop]
    rw [← h, hcarry]
    by_cases hle : a.val ≤ c.val
    · cases cNeg <;> cases aNeg <;> simp [hle]
    · cases cNeg <;> cases aNeg <;> simp [hle, Nat.lt_of_not_le hle]
  have hc := c.val_lt_int
  have ha := a.val_lt_int
  unfold LiteBignum.signed at hlow hhigh ⊢
  rw [hneg, hval, dmax_bnSignedSub]
  rw [h] at ha hlow hhigh ⊢
  generalize (radix : Int) ^ c.dmax = M at *
  cases cNeg <;> cases aNeg <;> by_cases hle : a.val ≤ c.val <;>
    simp [hle] at hlow hhigh ⊢ <;> omega

end Signed

/-! ## Multiplication -/

section Mul

variable {a b c : LiteBignum}

/-- One row of the product. -/
theorem bnMulAdd_sum (c : Words) (x : UInt32) (b : LiteBignum) (i : Nat) :
    value (bnMulAdd c x b i).2 i b.dmax + (bnMulAdd c x b i).1.toNat * radix ^ b.dmax =
      value c i b.dmax + b.val * x.toNat := by
  have hsum := carryLoop_sum (fun i y => y.toNat + (b.d i).toNat * x.toNat) i b.dmax 0 c
  have hcarry := carry_carryLoop (fun i y => y.toNat + (b.d i).toNat * x.toNat) i b.dmax 0 c
  rw [weigh_add, weigh_mul, ← b.val_eq_weigh, ← value_eq_weigh, Int.zero_add] at hsum hcarry
  have hpos : (0 : Int) < (radix : Int) ^ b.dmax := by exact_mod_cast radix_pow_pos b.dmax
  -- the words and one product are less than radix times what b can be
  have hlt : (value c i b.dmax + b.val * x.toNat : Int) < radix * (radix : Int) ^ b.dmax := by
    have hc := value_lt c i b.dmax
    have hb := b.val_lt
    have hx : x.toNat + 1 ≤ radix := toNat_lt_radix x
    have hnat : value c i b.dmax + b.val * x.toNat < radix * radix ^ b.dmax := by
      calc value c i b.dmax + b.val * x.toNat
          < radix ^ b.dmax + radix ^ b.dmax * x.toNat :=
            Nat.add_lt_add_of_lt_of_le hc (Nat.mul_le_mul_right _ hb.le)
        _ = (x.toNat + 1) * radix ^ b.dmax := by ring
        _ ≤ radix * radix ^ b.dmax := Nat.mul_le_mul_right _ hx
    exact_mod_cast hnat
  have hword := toNat_toWord_of_lt
    (Int.ediv_nonneg (by positivity) hpos.le) (Int.ediv_lt_of_lt_mul hpos hlt)
  rw [← hcarry] at hword
  zify
  rw [bnMulAdd, hword]
  exact hsum

theorem bnMulAdd_of_notMem {c : Words} {x : UInt32} {i j : Nat} (hj : j < i ∨ i + b.dmax ≤ j) :
    (bnMulAdd c x b i).2 j = c j := carryLoop_of_notMem hj

/-- **Run lemma.** After `i` rows the words and the carry hold the product with `i` words of `a`,
and above them everything is as it was. -/
theorem mulLoop_sum (a : Words) (hb : 0 < b.dmax) (z : Words) (hz : ∀ i < b.dmax - 1, z i = 0)
    (i : Nat) :
    value (mulLoop a b i (0, z)).2 0 (i + b.dmax - 1) +
          (mulLoop a b i (0, z)).1.toNat * radix ^ (i + b.dmax - 1) = value a 0 i * b.val ∧
      ∀ j, i + b.dmax - 1 ≤ j → (mulLoop a b i (0, z)).2 j = z j := by
  induction i with
  | zero =>
      have hclear : value z 0 (b.dmax - 1) = 0 :=
        value_eq_zero fun j hj => by rw [Nat.zero_add]; exact hz j hj
      simp [mulLoop, hclear]
  | succ i ih =>
      obtain ⟨hsum, hframe⟩ := ih
      set s := mulLoop a b i (0, z)
      rw [show mulLoop a b (i + 1) (0, z) =
        bnMulAdd (Function.update s.2 (i + b.dmax - 1) s.1) (a i) b i from rfl]
      set w := Function.update s.2 (i + b.dmax - 1) s.1 with hw
      -- the carry of the rows so far is the top word of the window
      have hwindow : value w 0 (i + b.dmax) = value a 0 i * b.val := by
        have htop := value_update_top s.2 s.1 0 (i + b.dmax - 1)
        rw [Nat.zero_add, show i + b.dmax - 1 + 1 = i + b.dmax by lia] at htop
        rw [htop, hsum]
      have hrow := bnMulAdd_sum w (a i) b i
      have hlow : value (bnMulAdd w (a i) b i).2 0 i = value w 0 i :=
        value_congr fun j hj => bnMulAdd_of_notMem (Or.inl (by lia))
      have hsplit := value_add w 0 i b.dmax
      constructor
      · rw [show i + 1 + b.dmax - 1 = i + b.dmax by lia, value_add, value_succ, hlow,
          Nat.zero_add, Nat.pow_add]
        rw [hwindow, Nat.zero_add] at hsplit
        linear_combination radix ^ i * hrow - hsplit
      · intro j hj
        rw [bnMulAdd_of_notMem (Or.inr (by lia)), hw, Function.update_of_ne (by lia)]
        exact hframe j (by lia)

theorem memsetZero_apply {buf : Words} {dmax i : Nat} (hi : i < dmax) :
    memsetZero buf (dmax * liteBnBytes) i = 0 := by
  rw [memsetZero, Nat.mul_div_cancel _ (by decide), if_pos hi]

@[simp]
theorem dmax_bnMulEx (c a : LiteBignum) (aLen : Nat) (b : LiteBignum) :
    (bnMulEx c a aLen b).dmax = c.dmax := rfl

/-- **The product**, as far as the words of the result go. -/
theorem val_bnMulEx (hb : 0 < b.dmax) (hc : b.dmax ≤ c.dmax) (a : LiteBignum) (aLen : Nat) :
    (bnMulEx c a aLen b).val = value a.d 0 aLen * b.val % radix ^ c.dmax := by
  obtain ⟨hsum, hframe⟩ := mulLoop_sum a.d hb (memsetZero c.d (bnSize c))
    (fun i hi => memsetZero_apply (by lia)) aLen
  set s := mulLoop a.d b aLen (0, memsetZero c.d (bnSize c))
  have htop : value (bnMulEx c a aLen b).d 0 (aLen + b.dmax) = value a.d 0 aLen * b.val := by
    have hupdate := value_update_top s.2 s.1 0 (aLen + b.dmax - 1)
    rw [Nat.zero_add, show aLen + b.dmax - 1 + 1 = aLen + b.dmax by lia] at hupdate
    exact hupdate.trans hsum
  rcases Nat.le_total (aLen + b.dmax) c.dmax with hfits | hlong
  · -- the words above the product are still clear
    have hclear : (bnMulEx c a aLen b).val = value (bnMulEx c a aLen b).d 0 (aLen + b.dmax) := by
      refine value_of_clear hfits fun i hlow hhigh => ?_
      rw [Nat.zero_add]
      refine (Function.update_of_ne (by lia) ..).trans ?_
      rw [hframe i (by lia)]
      exact memsetZero_apply hhigh
    rw [← htop, ← hclear]
    exact (Nat.mod_eq_of_lt (bnMulEx c a aLen b).val_lt).symm
  · obtain ⟨k, hk⟩ := Nat.exists_eq_add_of_le hlong
    rw [← htop, hk, value_mod]
    rfl

/-- **`DCRYPTO_bn_mul` is exact** when the result has the words of both factors. -/
theorem val_bnMul (hb : 0 < b.dmax) (hc : c.dmax = a.dmax + b.dmax) :
    (bnMul c a b).val = a.val * b.val := by
  rw [bnMul, val_bnMulEx hb (by omega), Nat.mod_eq_of_lt]
  · rfl
  · rw [hc, Nat.pow_add]
    exact Nat.mul_lt_mul'' a.val_lt b.val_lt

end Mul

/-! ## Digits -/

theorem digitsLoop_le (d : Words) (n : Nat) : digitsLoop d n ≤ n := by
  induction n with
  | zero => exact le_rfl
  | succ n ih =>
      rw [digitsLoop]
      split
      · exact ih.trans (Nat.le_succ n)
      · exact le_rfl

theorem digitsLoop_clear (d : Words) (n : Nat) {i : Nat} (hlow : digitsLoop d n < i) (hi : i ≤ n) :
    d i = 0 := by
  induction n with
  | zero => exact absurd (hlow.trans_le hi) (Nat.not_lt_zero _)
  | succ n ih =>
      rw [digitsLoop] at hlow
      split at hlow
      · rename_i hzero
        rcases Nat.lt_or_ge n i with hlt | hge
        · rwa [show i = n + 1 by omega]
        · exact ih hlow hge
      · omega

theorem digitsLoop_top (d : Words) (n : Nat) (h : digitsLoop d n ≠ 0) : d (digitsLoop d n) ≠ 0 := by
  induction n with
  | zero => exact absurd rfl h
  | succ n ih =>
      rw [digitsLoop] at h ⊢
      by_cases hzero : d (n + 1) = 0
      · rw [if_pos hzero] at h ⊢
        exact ih h
      · rwa [if_neg hzero]

section Digits

variable {a : LiteBignum}

theorem bnDigits_pos (a : LiteBignum) : 0 < bnDigits a := Nat.succ_pos _

theorem bnDigits_le (h : 0 < a.dmax) : bnDigits a ≤ a.dmax := by
  have hle := digitsLoop_le a.d (a.dmax - 1)
  unfold bnDigits
  omega

/-- The digits are the number. -/
theorem value_bnDigits (h : 0 < a.dmax) : value a.d 0 (bnDigits a) = a.val :=
  (value_of_clear (bnDigits_le h) fun i hlow hi => by
    rw [Nat.zero_add]
    exact digitsLoop_clear a.d (a.dmax - 1) hlow (by omega)).symm

theorem dmax_pos (h : a.val ≠ 0) : 0 < a.dmax := by
  by_contra hzero
  rw [LiteBignum.val, Nat.eq_zero_of_not_pos hzero] at h
  exact h rfl

/-- The top digit -/
theorem bnDigits_top (h : a.val ≠ 0) : a.d (bnDigits a - 1) ≠ 0 := by
  have hmax := dmax_pos h
  rw [bnDigits, Nat.add_sub_cancel]
  by_cases htop : digitsLoop a.d (a.dmax - 1) = 0
  · -- one digit, which is the number
    rw [htop]
    intro hzero
    rw [← value_bnDigits hmax, bnDigits, htop, Nat.zero_add, value_one, hzero] at h
    exact h rfl
  · exact digitsLoop_top _ _ htop

end Digits

/-! ## Comparison -/

theorem orDigits_of_le {d : Words} {lo hi : Nat} (h : hi ≤ lo) : orDigits d lo hi = 0 := by
  rw [orDigits, Nat.sub_eq_zero_of_le h]
  rfl

theorem foldr_or_eq_zero_iff (d : Words) (l : List Nat) :
    l.foldr (fun i top => top ||| d i) 0 = 0 ↔ ∀ i ∈ l, d i = 0 := by
  induction l with
  | nil => simp
  | cons j l ih => rw [List.foldr_cons, UInt32.or_eq_zero_iff, ih, List.forall_mem_cons, and_comm]

theorem orDigits_eq_zero_iff {d : Words} {lo hi : Nat} :
    orDigits d lo hi = 0 ↔ ∀ i, lo ≤ i → i < hi → d i = 0 := by
  rw [orDigits, foldr_or_eq_zero_iff]
  constructor
  · intro h i hlow hi
    exact h i (List.mem_range'_1.mpr ⟨hlow, by omega⟩)
  · intro h i hi
    obtain ⟨hlow, hhigh⟩ := List.mem_range'_1.mp hi
    exact h i hlow (by omega)

/-- A number is equal to a longer one when the words that only the longer one has are zero. -/
theorem value_eq_value_iff {c d : Words} {m n : Nat} (h : m ≤ n) :
    value c 0 m = value d 0 n ↔ (∀ i, m ≤ i → i < n → d i = 0) ∧ ∀ i < m, c i = d i := by
  constructor
  · intro hval
    have hhigh : value d 0 n / radix ^ m = 0 := by
      rw [← hval]
      exact Nat.div_eq_of_lt (value_lt c 0 m)
    have hclear (i : Nat) (hlow : m ≤ i) (hi : i < n) : d i = 0 := by
      have hdigit : (d (0 + i)).toNat = value d 0 n / radix ^ i % radix := toNat_eq_digit hi
      have hsplit : radix ^ i = radix ^ m * radix ^ (i - m) := by
        rw [← Nat.pow_add, Nat.add_sub_cancel' hlow]
      rw [Nat.zero_add, hsplit, ← Nat.div_div_eq_div_mul, hhigh, Nat.zero_div, Nat.zero_mod]
        at hdigit
      exact UInt32.toNat.inj hdigit
    refine ⟨hclear, fun i hi => ?_⟩
    rw [value_of_clear h fun i hlow hi => by rw [Nat.zero_add]; exact hclear i hlow hi] at hval
    have hword := eq_of_value_eq hval hi
    rwa [Nat.zero_add] at hword
  · rintro ⟨hclear, hwords⟩
    rw [value_of_clear h fun i hlow hi => by rw [Nat.zero_add]; exact hclear i hlow hi]
    exact value_congr fun i hi => by rw [Nat.zero_add]; exact hwords i hi

/-- **`bn_eq` compares the numbers**, of any lengths. -/
theorem bnEq_iff {a b : LiteBignum} : bnEq a b = true ↔ a.val = b.val := by
  have hall : (List.range (min a.dmax b.dmax)).all (fun i => a.d i == b.d i) = true ↔
      ∀ i < min a.dmax b.dmax, a.d i = b.d i := by
    simp only [List.all_eq_true, List.mem_range, beq_iff_eq]
  rw [bnEq]
  rcases Nat.le_total a.dmax b.dmax with h | h
  · rw [orDigits_of_le h, if_neg (not_not.mpr rfl), LiteBignum.val, LiteBignum.val,
      value_eq_value_iff h, ← orDigits_eq_zero_iff]
    rw [Nat.min_eq_left h] at hall ⊢
    by_cases hzero : orDigits b.d a.dmax b.dmax = 0
    · rw [if_neg (not_not.mpr hzero), hall, and_iff_right hzero]
    · rw [if_pos hzero]
      exact iff_of_false Bool.false_ne_true fun heq => hzero heq.1
  · rw [orDigits_of_le h, LiteBignum.val, LiteBignum.val, eq_comm (a := value a.d 0 a.dmax),
      value_eq_value_iff h, ← orDigits_eq_zero_iff]
    rw [Nat.min_eq_right h] at hall ⊢
    by_cases hzero : orDigits a.d b.dmax a.dmax = 0
    · rw [if_neg (not_not.mpr hzero), if_neg (not_not.mpr rfl), hall, and_iff_right hzero]
      simp only [eq_comm]
    · rw [if_pos hzero]
      exact iff_of_false Bool.false_ne_true fun heq => hzero heq.1

end Dcrypto
end CrosEc
