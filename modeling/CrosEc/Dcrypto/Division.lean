import CrosEc.Dcrypto.BignumExact
import CrosEc.Lib.LongDivision

/-!
# Long division

`bn_div_word_ex` is exact.  A round of `bn_div_ex` writes the right digit from a right window, as
its estimate is too large by one at the most (`estimateQd_spec`).  A round whose estimate is right
leaves the remainder in the window (`divStep_of_exact`).  A round that adds one back goes on with
the carry of the subtraction, so that too much is left of the dividend (`divStep_of_succ`).
-/

namespace CrosEc
namespace Dcrypto

open Lib Words

/-! ## Division by a word -/

theorem divWordLoop_of_le {u q : Words} {div rem : UInt32} {m j : Nat} (hj : m ≤ j) :
    (divWordLoop u div m (rem, q)).2 j = q j := by
  induction m generalizing rem q with
  | zero => rfl
  | succ m ih =>
      have hne : j ≠ m := by omega
      rw [divWordLoop, ih (by omega), Function.update_of_ne hne]

/-- The words of a digit and of what is left. -/
theorem divWord_digit {rem x div : UInt32} (hrem : rem < div) :
    (toWord ((radix * rem.toNat + x.toNat) / div.toNat : Nat)).toNat =
        (radix * rem.toNat + x.toNat) / div.toNat ∧
      (toWord ((radix * rem.toNat + x.toNat : Nat) -
        ((radix * rem.toNat + x.toNat) / div.toNat : Nat) * div.toNat : Int)).toNat =
        (radix * rem.toNat + x.toNat) % div.toNat := by
  set tmp := radix * rem.toNat + x.toNat
  have hrem' : rem.toNat < div.toNat := UInt32.lt_iff_toNat_lt.mp hrem
  have hdiv : 0 < div.toNat := by omega
  have htmp : tmp < div.toNat * radix := by
    have hx := toNat_lt_radix x
    calc tmp < radix * rem.toNat + radix := Nat.add_lt_add_left hx _
      _ = radix * (rem.toNat + 1) := by rw [Nat.mul_succ]
      _ ≤ radix * div.toNat := Nat.mul_le_mul_left _ hrem'
      _ = div.toNat * radix := Nat.mul_comm ..
  have hleft : ((tmp : Nat) - (tmp / div.toNat : Nat) * div.toNat : Int) = (tmp % div.toNat : Nat) := by
    have hparts : div.toNat * (tmp / div.toNat) + tmp % div.toNat = tmp := Nat.div_add_mod ..
    have hcast : ((div.toNat * (tmp / div.toNat) + tmp % div.toNat : Nat) : Int) = tmp := by
      rw [hparts]
    rw [Nat.cast_add, Nat.cast_mul] at hcast
    linear_combination -hcast
  refine ⟨toNat_toWord_natCast (Nat.div_lt_of_lt_mul htmp), ?_⟩
  rw [hleft]
  exact toNat_toWord_natCast ((Nat.mod_lt _ hdiv).trans (toNat_lt_radix div))

/-- **Run lemma.** Quotient and remainder, if the remainder so far is one. -/
theorem divWordLoop_spec (u : Words) {div rem : UInt32} (hrem : rem < div) (m : Nat) (q : Words) :
    value (divWordLoop u div m (rem, q)).2 0 m * div.toNat +
        (divWordLoop u div m (rem, q)).1.toNat = rem.toNat * radix ^ m + value u 0 m ∧
      (divWordLoop u div m (rem, q)).1 < div := by
  induction m generalizing rem q with
  | zero => simpa [divWordLoop] using hrem
  | succ m ih =>
      set tmp := radix * rem.toNat + (u m).toNat with htmp
      set qd := toWord (tmp / div.toNat : Nat) with hqd
      have hstep : divWordLoop u div (m + 1) (rem, q) =
          divWordLoop u div m
            (toWord ((tmp : Int) - qd.toNat * div.toNat), Function.update q m qd) := by
        rw [divWordLoop]
      obtain ⟨hdigit, hleft⟩ := divWord_digit (x := u m) hrem
      have hdiv : 0 < div.toNat := Nat.zero_lt_of_lt (UInt32.lt_iff_toNat_lt.mp hrem)
      rw [← htmp, ← hqd] at hdigit
      rw [← htmp, ← hdigit] at hleft
      set rem' := toWord ((tmp : Int) - qd.toNat * div.toNat)
      have hrem' : rem' < div := by
        rw [UInt32.lt_iff_toNat_lt, hleft]
        exact Nat.mod_lt _ hdiv
      obtain ⟨hsum, hlt⟩ := ih hrem' (Function.update q m qd)
      have htop : (divWordLoop u div m (rem', Function.update q m qd)).2 m = qd :=
        (divWordLoop_of_le le_rfl).trans (Function.update_self ..)
      rw [hstep]
      refine ⟨?_, hlt⟩
      have hparts : div.toNat * (tmp / div.toNat) + tmp % div.toNat = tmp := Nat.div_add_mod ..
      rw [← hdigit, ← hleft] at hparts
      rw [value_succ, value_succ, Nat.zero_add, htop, Nat.pow_succ]
      linear_combination hsum + radix ^ m * hparts + radix ^ m * htmp

/-- **`bn_div_word_ex` is exact.** -/
theorem bnDivWordEx_quotient (q : Words) (r : Option Words) (u : Words) (m : Nat) {div : UInt32}
    (hdiv : 0 < div) :
    value (bnDivWordEx q r u m div).1 0 m = value u 0 m / div.toNat := by
  obtain ⟨hsum, hlt⟩ := divWordLoop_spec u hdiv m q
  have hlt' := UInt32.lt_iff_toNat_lt.mp hlt
  rw [UInt32.toNat_zero, Nat.zero_mul, Nat.zero_add, Nat.mul_comm] at hsum
  have hpos : 0 < div.toNat := by omega
  exact ((Nat.div_mod_unique hpos).mpr ⟨(Nat.add_comm ..).trans hsum, hlt'⟩).1.symm

theorem bnDivWordEx_remainder (q r : Words) (u : Words) (m : Nat) {div : UInt32} (hdiv : 0 < div) :
    ∃ rem : UInt32, (bnDivWordEx q (some r) u m div).2 = some (Function.update r 0 rem) ∧
      rem.toNat = value u 0 m % div.toNat := by
  obtain ⟨hsum, hlt⟩ := divWordLoop_spec u hdiv m q
  have hlt' := UInt32.lt_iff_toNat_lt.mp hlt
  rw [UInt32.toNat_zero, Nat.zero_mul, Nat.zero_add, Nat.mul_comm] at hsum
  have hpos : 0 < div.toNat := by omega
  refine ⟨_, rfl, ?_⟩
  exact ((Nat.div_mod_unique hpos).mpr ⟨(Nat.add_comm ..).trans hsum, hlt'⟩).2.symm

/-! ## The estimate -/

section Estimate

variable {v₁ v₂ u₂ qd rhat x : Nat}

/-- Tuning does not go below what fits three leading words. -/
theorem le_fineTune (hx : x ≤ qd) (hfits : x * (v₁ * radix + v₂) ≤ (qd * v₁ + rhat) * radix + u₂) :
    x ≤ fineTune v₁ v₂ u₂ qd rhat := by
  induction qd generalizing rhat with
  | zero => omega
  | succ qd ih =>
      rw [fineTune]
      split
      · rename_i htest
        -- the estimate is too large for the leading words, and what fits them is not
        have hlarge : (((qd + 1) * v₁ + rhat) * radix + u₂) < (qd + 1) * (v₁ * radix + v₂) := by
          calc ((qd + 1) * v₁ + rhat) * radix + u₂
              = (qd + 1) * (v₁ * radix) + (radix * rhat + u₂) := by ring
            _ < (qd + 1) * (v₁ * radix) + (qd + 1) * v₂ := Nat.add_lt_add_left htest.2 _
            _ = (qd + 1) * (v₁ * radix + v₂) := by ring
        have hne : x ≠ qd + 1 := by
          rintro rfl
          omega
        refine ih (by omega) (hfits.trans_eq ?_)
        ring
      · exact hx

/-- What is left after the tuning fits three leading words. -/
theorem fineTune_mul_le (hqd : qd ≤ radix) (hv₂ : v₂ ≤ radix) :
    fineTune v₁ v₂ u₂ qd rhat * (v₁ * radix + v₂) ≤ (qd * v₁ + rhat) * radix + u₂ := by
  induction qd generalizing rhat with
  | zero => rw [fineTune, Nat.zero_mul]; exact Nat.zero_le _
  | succ qd ih =>
      rw [fineTune]
      split
      · refine (ih (by omega)).trans_eq ?_
        ring
      · rename_i htest
        have hlow : (qd + 1) * v₂ ≤ radix * rhat + u₂ := by
          rcases Nat.lt_or_ge rhat radix with hsmall | hlarge
          · have hnot : ¬ radix * rhat + u₂ < (qd + 1) * v₂ := fun h =>
              htest ⟨Nat.div_eq_of_lt hsmall, h⟩
            omega
          · calc (qd + 1) * v₂ ≤ radix * radix := Nat.mul_le_mul hqd hv₂
              _ ≤ radix * rhat := Nat.mul_le_mul_left _ hlarge
              _ ≤ radix * rhat + u₂ := Nat.le_add_right ..
        calc (qd + 1) * (v₁ * radix + v₂) = (qd + 1) * v₁ * radix + (qd + 1) * v₂ := by ring
          _ ≤ (qd + 1) * v₁ * radix + (radix * rhat + u₂) := Nat.add_le_add_left hlow _
          _ = ((qd + 1) * v₁ + rhat) * radix + u₂ := by ring

theorem fineTune_le : fineTune v₁ v₂ u₂ qd rhat ≤ qd := by
  induction qd generalizing rhat with
  | zero => exact le_rfl
  | succ qd ih =>
      rw [fineTune]
      split
      · exact (ih ..).trans (Nat.le_succ qd)
      · exact le_rfl

end Estimate

section Window

variable {un vn : Words} {j m : Nat}

theorem leading_two (d : Words) (off m : Nat) :
    value d off (m + 2) / radix ^ m = (d (off + m + 1)).toNat * radix + (d (off + m)).toNat := by
  rw [value_div, value_succ, value_one, pow_one, Nat.add_comm]

theorem leading_three (d : Words) (off m : Nat) :
    value d off (m + 3) / radix ^ m =
      (radix * (d (off + m + 2)).toNat + (d (off + m + 1)).toNat) * radix + (d (off + m)).toNat := by
  rw [value_div, value_succ, value_succ, value_one]
  ring

/-- **The estimate of a round**: not too small, and too large by one at the most. -/
theorem estimateQd_spec (htop : 2 ^ 31 ≤ (vn (m + 1)).toNat)
    (hW : value un j (m + 3) < value vn 0 (m + 2) * radix) :
    value un j (m + 3) / value vn 0 (m + 2) ≤
        (estimateQd (un (j + m + 2)) (un (j + m + 1)) (un (j + m)) (vn (m + 1)) (vn m)).toNat ∧
      (estimateQd (un (j + m + 2)) (un (j + m + 1)) (un (j + m)) (vn (m + 1)) (vn m)).toNat *
        value vn 0 (m + 2) ≤ value un j (m + 3) + value vn 0 (m + 2) := by
  have hv₂ := leading_two vn 0 m
  have hv₁ := value_div vn 0 (m + 1) 1
  have hW₃ := leading_three un j m
  have hW₂ : value un j (m + 3) / radix ^ (m + 1) =
      (un (j + m + 2)).toNat * radix + (un (j + m + 1)).toNat := leading_two un j (m + 1)
  rw [value_one] at hv₁
  simp only [Nat.zero_add] at hv₁ hv₂
  have hu₁ := toNat_lt_radix (un (j + m + 1))
  have hv₂_lt := toNat_lt_radix (vn m)
  have heq : un (j + m + 2) = vn (m + 1) ↔ (un (j + m + 2)).toNat = (vn (m + 1)).toNat :=
    UInt32.toNat_inj.symm
  rw [estimateQd]
  set v := value vn 0 (m + 2)
  set W := value un j (m + 3)
  set v₁ := (vn (m + 1)).toNat
  set v₂ := (vn m).toNat
  set u₀ := (un (j + m + 2)).toNat
  set u₁ := (un (j + m + 1)).toNat
  set u₂ := (un (j + m)).toNat
  have hradix : radix ≤ 2 * (v₁ + 1) := by
    have : radix = 2 * 2 ^ 31 := rfl
    lia
  have hpow := radix_pow_pos (m + 1)
  have hv_high : v < (v₁ + 1) * radix ^ (m + 1) := by
    rw [← hv₁]
    exact (Nat.div_lt_iff_lt_mul hpow).mp (Nat.lt_succ_self _)
  have hv_low : v₁ * radix ^ (m + 1) ≤ v := by
    rw [← hv₁]
    exact Nat.div_mul_le_self ..
  have hv_pos : 0 < v := (Nat.mul_pos (by lia) hpow).trans_le hv_low
  have hW_low : u₀ * radix * radix ^ (m + 1) ≤ W := by
    refine le_trans (Nat.mul_le_mul_right _ ?_) (Nat.div_mul_le_self W (radix ^ (m + 1)))
    lia
  have hdigit : W / v < radix := Nat.div_lt_of_lt_mul hW
  have hu₀ : u₀ < v₁ + 1 := by
    have hlt : u₀ * (radix * radix ^ (m + 1)) < (v₁ + 1) * (radix * radix ^ (m + 1)) := by
      calc u₀ * (radix * radix ^ (m + 1)) = u₀ * radix * radix ^ (m + 1) := by ring
        _ ≤ W := hW_low
        _ < v * radix := hW
        _ ≤ (v₁ + 1) * radix ^ (m + 1) * radix := Nat.mul_le_mul_right _ hv_high.le
        _ = (v₁ + 1) * (radix * radix ^ (m + 1)) := by ring
    exact Nat.lt_of_mul_lt_mul_right hlt
  split
  · -- maxed out
    rename_i hmax
    rw [heq] at hmax
    have hqd : (0xFFFFFFFF : UInt32).toNat = radix - 1 := rfl
    rw [hqd]
    rw [hmax] at hW_low
    exact ⟨by lia, mul_le_add_of_leading_eq hradix hv_high.le hW_low⟩
  · rename_i hmax
    rw [heq] at hmax
    have hrhat : radix * u₀ + u₁ < v₁ * radix := by
      calc radix * u₀ + u₁ < radix * u₀ + radix := Nat.add_lt_add_left hu₁ _
        _ = radix * (u₀ + 1) := by ring
        _ ≤ radix * v₁ := Nat.mul_le_mul_left _ (by lia)
        _ = v₁ * radix := Nat.mul_comm ..
    have hqd_lt : (radix * u₀ + u₁) / v₁ < radix := Nat.div_lt_of_lt_mul hrhat
    have hqd := toNat_toWord_natCast hqd_lt
    have hrest : (radix * u₀ + u₁) / v₁ * v₁ ≤ radix * u₀ + u₁ := Nat.div_mul_le_self ..
    dsimp only
    rw [hqd]
    set qd := (radix * u₀ + u₁) / v₁
    set rhat := radix * u₀ + u₁ - qd * v₁
    have hsum : qd * v₁ + rhat = radix * u₀ + u₁ := by lia
    have hfine : fineTune v₁ v₂ u₂ qd rhat ≤ qd := fineTune_le
    have htune := toNat_toWord_natCast (hfine.trans_lt hqd_lt)
    rw [htune]
    have hvm : radix ^ m ≤ v := by
      refine le_trans ?_ (le_trans (Nat.le_mul_of_pos_left (radix ^ (m + 1)) (by lia)) hv_low)
      exact Nat.pow_le_pow_right radix_pos (Nat.le_succ m)
    constructor
    · refine le_fineTune ?_ ?_
      · have hlead := div_le_div_leading (W := W) hpow
          (le_trans (Nat.le_mul_of_pos_left _ (by lia)) hv_low)
        rw [hv₁, hW₂, Nat.mul_comm u₀] at hlead
        exact hlead
      · have hlead := div_le_div_leading (W := W) (radix_pow_pos m) hvm
        rw [hv₂, hW₃] at hlead
        rw [hsum]
        exact (Nat.le_div_iff_mul_le (by
          have := Nat.mul_pos (show 0 < v₁ by lia) radix_pos
          lia)).mp hlead
    · refine mul_le_add_of_leading (radix_pow_pos m) ?_ ?_
      · rw [hv₂, hW₃, ← hsum]
        exact fineTune_mul_le hqd_lt.le hv₂_lt.le
      · calc fineTune v₁ v₂ u₂ qd rhat * radix ^ m
            ≤ radix * radix ^ m := Nat.mul_le_mul_right _ (fineTune_le.trans hqd_lt.le)
          _ = radix ^ (m + 1) := by rw [Nat.pow_succ, Nat.mul_comm]
          _ ≤ v₁ * radix ^ (m + 1) := Nat.le_mul_of_pos_left _ (by lia)
          _ ≤ v := hv_low

end Window

/-! ## Multiply and subtract -/

section MulSub

variable {qd : UInt32} {vn un : Words} {j n : Nat}

theorem toWord_add_mul (x y : Int) : toWord (x + y * radix) = toWord x := by
  rw [toWord, toWord, show (radix : Int) = 2 ^ 32 from rfl, Int.add_mul_emod_self_right]

/-- The variable `k` of the source is the carry with the other sign. -/
theorem mulSub_eq_carryLoop (qd : UInt32) (vn : Words) (j n : Nat) (un : Words) :
    mulSub qd vn j n (0, un) =
      (-(carryLoop (fun i x => x.toNat - (vn i).toNat * qd.toNat) j n (0, un)).1,
        (carryLoop (fun i x => x.toNat - (vn i).toNat * qd.toNat) j n (0, un)).2) := by
  induction n with
  | zero => rfl
  | succ n ih =>
      rw [mulSub, ih, carryLoop_succ]
      dsimp only
      set s := carryLoop (fun i x => (x.toNat : Int) - (vn i).toNat * qd.toNat) j n (0, un)
      set p : Int := qd.toNat * (vn n).toNat with hp
      have hparts := Int.emod_add_mul_ediv p radix
      have ht : ((s.2 (j + n)).toNat : Int) - -s.1 - p % radix =
          s.1 + ((s.2 (j + n)).toNat - (vn n).toNat * qd.toNat) + p / radix * radix := by
        rw [hp] at hparts ⊢
        linear_combination -hparts
      have hpos : (radix : Int) ≠ 0 := by decide
      rw [ht, toWord_add_mul, Int.add_mul_ediv_right _ _ hpos]
      congr 1
      ring

/-- The low words of the window, and the carry into the top one. -/
theorem mulSub_sum (qd : UInt32) (vn : Words) (j n : Nat) (un : Words) :
    (value (mulSub qd vn j n (0, un)).2 j n : Int) =
        (value un j n - qd.toNat * value vn 0 n) % (radix : Int) ^ n ∧
      (mulSub qd vn j n (0, un)).1 =
        -((value un j n - qd.toNat * value vn 0 n) / (radix : Int) ^ n) := by
  have hweigh : weigh (fun i => ((un (j + i)).toNat : Int) - (vn i).toNat * qd.toNat) n =
      value un j n - qd.toNat * value vn 0 n := by
    rw [weigh_sub, weigh_mul, value_eq_weigh, value_eq_weigh]
    simp only [Nat.zero_add, mul_comm]
  rw [mulSub_eq_carryLoop, value_carryLoop, carry_carryLoop, hweigh, Int.zero_add]
  exact ⟨rfl, rfl⟩

theorem mulSub_of_notMem {i : Nat} (hi : i < j ∨ j + n ≤ i) :
    (mulSub qd vn j n (0, un)).2 i = un i := by
  rw [mulSub_eq_carryLoop]
  exact carryLoop_of_notMem hi

end MulSub

/-! ## A round -/

section Round

variable {un vn q : Words} {j m : Nat}

/-- The estimate that a round of the division makes at digit `j`. -/
def roundQd (un vn : Words) (n j : Nat) : UInt32 :=
  estimateQd (un (j + n)) (un (j + n - 1)) (un (j + n - 2)) (vn (n - 1)) (vn (n - 2))

/-- What a round leaves in the low words of its window, without adding one back. -/
def roundUn (qd : UInt32) (un vn : Words) (n j : Nat) : Words :=
  Function.update (mulSub qd vn j n (0, un)).2 (j + n)
    (toWord (((mulSub qd vn j n (0, un)).2 (j + n)).toNat - (mulSub qd vn j n (0, un)).1))

theorem divStep_eq (vn : Words) (n j : Nat) (un q : Words) :
    divStep vn n j (un, q) =
      if (((mulSub (roundQd un vn n j) vn j n (0, un)).2 (j + n)).toNat : Int) -
          (mulSub (roundQd un vn n j) vn j n (0, un)).1 < 0 then
        (addBack vn j n (mulSub (roundQd un vn n j) vn j n (0, un)).1
            (roundUn (roundQd un vn n j) un vn n j),
          Function.update q j (roundQd un vn n j - 1))
      else (roundUn (roundQd un vn n j) un vn n j, Function.update q j (roundQd un vn n j)) := by
  rw [divStep]
  rfl

/-- The top word of the window after the subtraction, as an integer. -/
theorem mulSub_top (qd : UInt32) (un vn : Words) (j n : Nat) :
    (((mulSub qd vn j n (0, un)).2 (j + n)).toNat : Int) - (mulSub qd vn j n (0, un)).1 =
      (value un j (n + 1) - qd.toNat * value vn 0 n) / (radix : Int) ^ n := by
  have hpos : (radix : Int) ^ n ≠ 0 := pow_ne_zero _ (by decide)
  rw [mulSub_of_notMem (Or.inr le_rfl), (mulSub_sum ..).2, value_succ, Nat.cast_add, Nat.cast_mul,
    Nat.cast_pow, add_sub_right_comm, Int.add_mul_ediv_right _ _ hpos]
  ring

theorem value_roundUn (qd : UInt32) (un vn : Words) (j n : Nat) :
    (value (roundUn qd un vn n j) j n : Int) =
      (value un j (n + 1) - qd.toNat * value vn 0 n) % (radix : Int) ^ n := by
  rw [roundUn, value_update_of_notMem _ (Or.inr le_rfl), (mulSub_sum ..).1, value_succ,
    Nat.cast_add, Nat.cast_mul, Nat.cast_pow, add_sub_right_comm, Int.add_mul_emod_self_right]

theorem roundUn_of_lt {qd : UInt32} {n i : Nat} (hi : i < j) : roundUn qd un vn n j i = un i := by
  have hne : i ≠ j + n := by omega
  rw [roundUn, Function.update_of_ne hne]
  exact mulSub_of_notMem (Or.inl hi)

theorem addBack_of_lt {k : Int} {n i : Nat} (hi : i < j) : addBack vn j n k un i = un i := by
  have hne : i ≠ j + n := by omega
  rw [addBack, Function.update_of_ne hne]
  exact carryLoop_of_notMem (Or.inl hi)

theorem value_addBack (vn un : Words) (j n : Nat) (k : Int) :
    (value (addBack vn j n k un) j n : Int) =
      (k + value un j n + value vn 0 n) % (radix : Int) ^ n := by
  rw [addBack, value_update_of_notMem _ (Or.inr le_rfl), value_carryLoop, weigh_add,
    ← value_eq_weigh, value_eq_weigh vn, Int.add_assoc]
  simp only [Nat.zero_add]

/-- The estimate is right: the window keeps the remainder. -/
theorem divStep_of_exact (hv : 0 < value vn 0 (m + 2))
    (hqd : (roundQd un vn (m + 2) j).toNat = value un j (m + 3) / value vn 0 (m + 2)) :
    divStep vn (m + 2) j (un, q) = (roundUn (roundQd un vn (m + 2) j) un vn (m + 2) j,
        Function.update q j (roundQd un vn (m + 2) j)) ∧
      value (roundUn (roundQd un vn (m + 2) j) un vn (m + 2) j) j (m + 2) =
        value un j (m + 3) % value vn 0 (m + 2) := by
  set qd := roundQd un vn (m + 2) j with hround
  have hparts : value vn 0 (m + 2) * qd.toNat + value un j (m + 3) % value vn 0 (m + 2) =
      value un j (m + 3) := by rw [hqd]; exact Nat.div_add_mod ..
  have hrem : (value un j (m + 3) : Int) - qd.toNat * value vn 0 (m + 2) =
      (value un j (m + 3) % value vn 0 (m + 2) : Nat) := by
    rw [sub_eq_iff_eq_add]
    exact_mod_cast (hparts.symm.trans (by ring))
  have hlt : ((value un j (m + 3) % value vn 0 (m + 2) : Nat) : Int) < (radix : Int) ^ (m + 2) := by
    exact_mod_cast (Nat.mod_lt _ hv).trans (value_lt vn 0 (m + 2))
  have htop := mulSub_top qd un vn j (m + 2)
  have hval := value_roundUn qd un vn j (m + 2)
  rw [show m + 2 + 1 = m + 3 from rfl, hrem] at htop hval
  rw [Int.ediv_eq_zero_of_lt (Int.natCast_nonneg _) hlt] at htop
  rw [Int.emod_eq_of_lt (Int.natCast_nonneg _) hlt] at hval
  rw [divStep_eq, ← hround, htop, if_neg (by decide)]
  exact ⟨rfl, Int.ofNat_inj.mp hval⟩

/-- The estimate is too large by one: the digit is right all the same, but the carry of the
subtraction is added to the remainder. -/
theorem divStep_of_succ (hv : 0 < value vn 0 (m + 2))
    (hqd : (roundQd un vn (m + 2) j).toNat = value un j (m + 3) / value vn 0 (m + 2) + 1) :
    ∃ un' : Words, divStep vn (m + 2) j (un, q) =
        (un', Function.update q j (roundQd un vn (m + 2) j - 1)) ∧
      (∀ i < j, un' i = un i) ∧
      value un' j (m + 2) = (value un j (m + 3) % value vn 0 (m + 2) +
        (un (j + (m + 2))).toNat + 1) % radix ^ (m + 2) := by
  set qd := roundQd un vn (m + 2) j with hround
  set v := value vn 0 (m + 2)
  set W := value un j (m + 3)
  have hparts : v * (W / v) + W % v = W := Nat.div_add_mod ..
  have hrem : (W : Int) - qd.toNat * v = (W % v : Nat) - v := by
    have hcast : ((v * (W / v) + W % v : Nat) : Int) = W := by rw [hparts]
    rw [Nat.cast_add, Nat.cast_mul] at hcast
    rw [hqd]
    rw [Nat.cast_add, Nat.cast_one]
    linear_combination -hcast
  have hmod : ((W % v : Nat) : Int) < v := by exact_mod_cast Nat.mod_lt W hv
  have hlt : (v : Int) < (radix : Int) ^ (m + 2) := by exact_mod_cast value_lt vn 0 (m + 2)
  have htop := mulSub_top qd un vn j (m + 2)
  have hval := value_roundUn qd un vn j (m + 2)
  rw [show m + 2 + 1 = m + 3 from rfl, hrem] at htop hval
  have hpos : (0 : Int) < (radix : Int) ^ (m + 2) := by exact_mod_cast radix_pow_pos (m + 2)
  set M := (radix : Int) ^ (m + 2)
  -- the difference is negative, but not below one multiple of the window
  obtain ⟨hneg, hwords⟩ : (((W % v : Nat) : Int) - v) / M = -1 ∧
      (((W % v : Nat) : Int) - v) % M = (W % v : Nat) - v + M :=
    (Int.ediv_emod_unique hpos).mpr ⟨by ring, by lia, by lia⟩
  have hborrow : (mulSub qd vn j (m + 2) (0, un)).1 = (un (j + (m + 2))).toNat + 1 := by
    rw [hneg, mulSub_of_notMem (Or.inr le_rfl)] at htop
    lia
  refine ⟨addBack vn j (m + 2) (mulSub qd vn j (m + 2) (0, un)).1 (roundUn qd un vn (m + 2) j),
    ?_, fun i hi => (addBack_of_lt hi).trans (roundUn_of_lt hi), ?_⟩
  · rw [divStep_eq, ← hround, htop, hneg, if_pos (by decide)]
  · have hback := value_addBack vn (roundUn qd un vn (m + 2) j) j (m + 2)
      (mulSub qd vn j (m + 2) (0, un)).1
    rw [hborrow, hval, hwords] at hback
    rw [hborrow]
    have hsum : ((un (j + (m + 2))).toNat : Int) + 1 + ((W % v : Nat) - v + M) + v =
        (W % v : Nat) + (un (j + (m + 2))).toNat + 1 + M := by ring
    rw [hsum, Int.add_emod_right] at hback
    have hM : M = ((radix ^ (m + 2) : Nat) : Int) := (Nat.cast_pow ..).symm
    have hcast : (((W % v + (un (j + (m + 2))).toNat + 1) % radix ^ (m + 2) : Nat) : Int) =
        ((W % v : Nat) + (un (j + (m + 2))).toNat + 1) % ((radix ^ (m + 2) : Nat) : Int) := by
      rw [Int.natCast_emod, Nat.cast_succ, Nat.cast_add]
    rw [hM, ← hcast] at hback
    exact Int.ofNat_inj.mp hback

end Round

end Dcrypto
end CrosEc
