import CrosEc.Dcrypto.Normalize

/-!
# The carry of a division

When the estimate of a digit is too large, `bn_div_ex` adds one divisor back, and this loop starts
with the carry that the subtraction has left in `k`.  The digit is right all the same, but one more
than the top word of the window is left too much of the dividend.

As long as no digit is estimated too large, quotient and remainder are exact.  So they are when the
last digit is the only one and the denormalisation drops what is too much.  For a quotient that is
not longer than the divisor these are the only cases in which they are.
-/

namespace CrosEc
namespace Dcrypto

open Lib Words

/-! ## Windows and estimates -/

/-- The estimate of a digit from a window of `n + 1` words and a divisor of `n` words. -/
def estimate (n W V : Nat) : Nat :=
  (estimateQd (wordAt W n) (wordAt W (n - 1)) (wordAt W (n - 2)) (wordAt V (n - 1))
    (wordAt V (n - 2))).toNat

/-- The window at digit `j`: what the digits above leave, and the digit of the dividend. -/
def window (U V j : Nat) : Nat := U / radix ^ (j + 1) % V * radix + U / radix ^ j % radix

/-- The digit at `j` is estimated too large. -/
def AddsBack (n U V j : Nat) : Prop := window U V j < estimate n (window U V j) V * V

instance (n U V j : Nat) : Decidable (AddsBack n U V j) := inferInstanceAs (Decidable (_ < _))

/-- What is too much after the round at digit `j`, if it adds back. -/
def backCarry (n U V j : Nat) : Nat := window U V j / radix ^ n + 1

/-- No carry does harm to the division of `u`, of `m` words, by `v`, of `n` words. -/
def CarryHarmless (m n u v : Nat) : Prop :=
  let s := (shiftFactor 32 (wordAt v (n - 1))).toNat
  n = 1 ∨ ∀ j ≤ m - n, AddsBack n (u * 2 ^ s) (v * 2 ^ s) j →
    j = 0 ∧ backCarry n (u * 2 ^ s) (v * 2 ^ s) 0 < 2 ^ s

instance (m n u v : Nat) : Decidable (CarryHarmless m n u v) :=
  inferInstanceAs (Decidable (_ ∨ ∀ j ≤ m - n, _))

section Rounds

variable {vn un q : Words} {n j T U : Nat}

/-- The estimate of a round is that of its window. -/
theorem toNat_roundQd (un vn : Words) (m j : Nat) :
    (roundQd un vn (m + 2) j).toNat =
      estimate (m + 2) (value un j (m + 3)) (value vn 0 (m + 2)) := by
  have hun {i : Nat} (hi : i < m + 3) : wordAt (value un j (m + 3)) i = un (j + i) :=
    wordAt_value hi
  have hvn {i : Nat} (hi : i < m + 2) : wordAt (value vn 0 (m + 2)) i = vn i := by
    rw [wordAt_value hi, Nat.zero_add]
  rw [estimate, hun (by lia), hun (by lia), hun (by lia), hvn (by lia), hvn (by lia)]
  rfl

/-! ## A round in any state -/

/-- **A round**, whatever its window holds: what is too much after it is a word, and not zero if the
round adds back. -/
theorem divStep_error (vn un q : Words) (n j : Nat) :
    ∃ e : Nat, e < radix ∧
      (value un j (n + 1) < (roundQd un vn n j).toNat * value vn 0 n → 0 < e) ∧
      (∀ i < j, (divStep vn n j (un, q)).1 i = un i) ∧
      (∀ i, i ≠ j → (divStep vn n j (un, q)).2 i = q i) ∧
      (value (divStep vn n j (un, q)).1 j n : Int) ≡
        value un j (n + 1) - ((divStep vn n j (un, q)).2 j).toNat * value vn 0 n + e
          [ZMOD (radix : Int) ^ n] := by
  have hpos : (0 : Int) < (radix : Int) ^ n := by exact_mod_cast radix_pow_pos n
  rw [divStep_eq]
  set qd := roundQd un vn n j
  have hval := value_roundUn qd un vn j n
  split
  · rename_i hneg
    obtain ⟨-, hcarry⟩ := mulSub_sum qd vn j n un
    have hborrow := hneg
    rw [mulSub_top] at hneg
    have hlow : (value un j (n + 1) : Int) - qd.toNat * value vn 0 n < 0 := by
      by_contra hge
      exact absurd (Int.ediv_nonneg (not_lt.mp hge) hpos.le) (not_le.mpr hneg)
    have hV : (value vn 0 n : Int) < (radix : Int) ^ n := by exact_mod_cast value_lt vn 0 n
    have hL : (value un j n : Int) < (radix : Int) ^ n := by exact_mod_cast value_lt un j n
    have hqd : 0 < qd.toNat := by
      by_contra h0
      rw [Nat.eq_zero_of_not_pos h0] at hlow
      simp only [Nat.cast_zero, Int.zero_mul, Int.sub_zero] at hlow
      lia
    have hone : (qd - 1).toNat = qd.toNat - 1 := by
      rw [UInt32.toNat_sub_of_le]
      · rfl
      · rw [UInt32.le_iff_toNat_le]
        exact hqd
    -- the carry is between zero and the digit
    have hhigh : (value un j n - qd.toNat * value vn 0 n : Int) / (radix : Int) ^ n ≤ 0 := by
      have hmul : (0 : Int) ≤ qd.toNat * value vn 0 n := by positivity
      have hone : (value un j n - qd.toNat * value vn 0 n : Int) / (radix : Int) ^ n < 1 :=
        Int.ediv_lt_of_lt_mul hpos (by lia)
      lia
    have hbound : -(qd.toNat : Int) ≤
        (value un j n - qd.toNat * value vn 0 n : Int) / (radix : Int) ^ n := by
      rw [Int.le_ediv_iff_mul_le hpos]
      have hmul : (qd.toNat : Int) * value vn 0 n ≤ qd.toNat * (radix : Int) ^ n :=
        Int.mul_le_mul_of_nonneg_left hV.le (Int.natCast_nonneg _)
      have hun : (0 : Int) ≤ value un j n := Int.natCast_nonneg _
      linarith
    set k := (mulSub qd vn j n (0, un)).1
    have hk : (k.toNat : Int) = k := Int.toNat_of_nonneg (by lia)
    have hradix := toNat_lt_radix qd
    refine ⟨k.toNat, by lia, fun _ => by lia, fun i hi => (addBack_of_lt hi).trans (roundUn_of_lt hi),
      fun i hi => Function.update_of_ne hi .., ?_⟩
    dsimp only
    rw [Function.update_self, hone, hk, value_addBack, hval, Nat.cast_sub hqd]
    generalize (value un j (n + 1) : Int) = W at *
    set M := (radix : Int) ^ n
    calc (k + (W - qd.toNat * value vn 0 n) % M + value vn 0 n) % M
        ≡ k + (W - qd.toNat * value vn 0 n) % M + value vn 0 n [ZMOD M] := Int.mod_modEq ..
      _ ≡ k + (W - qd.toNat * value vn 0 n) + value vn 0 n [ZMOD M] :=
          ((Int.mod_modEq ..).add_left k).add_right _
      _ = W - (qd.toNat - (1 : Nat)) * value vn 0 n + k := by push_cast; ring
  · rename_i hfits
    rw [mulSub_top, not_lt, Int.le_ediv_iff_mul_le hpos] at hfits
    refine ⟨0, radix_pos, fun hlt => ?_, fun i hi => roundUn_of_lt hi,
      fun i hi => Function.update_of_ne hi .., ?_⟩
    · have hlt' : (value un j (n + 1) : Int) < qd.toNat * value vn 0 n := by exact_mod_cast hlt
      lia
    dsimp only
    rw [Function.update_self, hval, Nat.cast_zero, Int.add_zero]
    exact Int.mod_modEq ..

/-- The rounds down to digit `j` have left `E` too much, as far as the words go. -/
def LeavesError (vn : Words) (n T U j : Nat) (s : Words × Words) (E : Nat) : Prop :=
  (value s.1 0 (j + n) : Int) ≡
    U - value s.2 j (T - j) * radix ^ j * value vn 0 n + E [ZMOD (radix : Int) ^ (j + n)]

/-- The digits after a round -/
theorem value_digits {s : Words × Words} (hj : j < T) (hkept : ∀ i, i ≠ j → s.2 i = q i) :
    value s.2 j (T - j) = (s.2 j).toNat + radix * value q (j + 1) (T - (j + 1)) := by
  have hsplit := value_add s.2 j 1 (T - (j + 1))
  rw [value_one, pow_one, show 1 + (T - (j + 1)) = T - j by omega] at hsplit
  rw [hsplit]
  congr 2
  exact value_congr fun i _ => hkept _ (by omega)

theorem LeavesError.step {E : Nat} (hj : j < T)
    (h : LeavesError vn n T U (j + 1) (un, q) E) :
    ∃ e < radix, (value un j (n + 1) < (roundQd un vn n j).toNat * value vn 0 n → 0 < e) ∧
      LeavesError vn n T U j (divStep vn n j (un, q)) (E + e * radix ^ j) := by
  obtain ⟨e, he, hadds, hframe, hkept, hmod⟩ := divStep_error vn un q n j
  refine ⟨e, he, hadds, ?_⟩
  unfold LeavesError at h ⊢
  set s := divStep vn n j (un, q)
  have hlow : value s.1 0 j = value un 0 j :=
    value_congr fun i hi => by rw [Nat.zero_add]; exact hframe i hi
  have hdigits := value_digits hj hkept
  have hwindow : value un 0 (j + 1 + n) = value un 0 j + radix ^ j * value un j (n + 1) := by
    rw [show j + 1 + n = j + (n + 1) by omega, value_add, Nat.zero_add]
  have hwords : value s.1 0 (j + n) = value un 0 j + radix ^ j * value s.1 j n := by
    rw [value_add, Nat.zero_add, hlow]
  have hscaled : (radix : Int) ^ j * value s.1 j n ≡
      radix ^ j * (value un j (n + 1) - (s.2 j).toNat * value vn 0 n + e)
        [ZMOD (radix : Int) ^ (j + n)] := by
    rw [pow_add]
    exact hmod.mul_left'
  have hprev : (value un 0 (j + 1 + n) : Int) ≡
      U - value q (j + 1) (T - (j + 1)) * radix ^ (j + 1) * value vn 0 n + E
        [ZMOD (radix : Int) ^ (j + n)] :=
    h.of_dvd (pow_dvd_pow _ (by omega))
  rw [hwindow] at hprev
  rw [hwords, hdigits]
  push_cast at hprev ⊢
  generalize (value q (j + 1) (T - (j + 1)) : Int) = Q at *
  generalize (value vn 0 n : Int) = V at *
  generalize (value un j (n + 1) : Int) = W at *
  generalize (value un 0 j : Int) = L at *
  calc L + (radix : Int) ^ j * value s.1 j n
      ≡ L + radix ^ j * (W - (s.2 j).toNat * V + e) [ZMOD (radix : Int) ^ (j + n)] :=
        hscaled.add_left L
    _ = L + radix ^ j * W + (e * radix ^ j - radix ^ j * ((s.2 j).toNat * V)) := by ring
    _ ≡ U - Q * radix ^ (j + 1) * V + E + (e * radix ^ j - radix ^ j * ((s.2 j).toNat * V))
        [ZMOD (radix : Int) ^ (j + n)] := hprev.add_right _
    _ = U - ((s.2 j).toNat + radix * Q) * radix ^ j * V + (E + e * radix ^ j) := by
        rw [pow_succ]
        ring

/-- **Run lemma.** What is too much does not get less. -/
theorem LeavesError.loop {s : Words × Words} {E : Nat} (hj : j ≤ T)
    (h : LeavesError vn n T U j s E) (hE : E < radix ^ T) (hdvd : radix ^ j ∣ E) :
    ∃ E', E ≤ E' ∧ E' < radix ^ T ∧ LeavesError vn n T U 0 (divLoop vn n j s) E' := by
  induction j generalizing s E with
  | zero => exact ⟨E, le_rfl, hE, h⟩
  | succ j ih =>
      obtain ⟨e, he, -, hstep⟩ := h.step (by omega)
      have hsum : E + e * radix ^ j < radix ^ T := by
        obtain ⟨c, rfl⟩ := hdvd
        have hT : radix ^ T = radix ^ (j + 1) * radix ^ (T - (j + 1)) := by
          rw [← Nat.pow_add, Nat.add_sub_cancel' hj]
        rw [hT] at hE ⊢
        have hc : c + 1 ≤ radix ^ (T - (j + 1)) := Nat.lt_of_mul_lt_mul_left hE
        calc radix ^ (j + 1) * c + e * radix ^ j
            < radix ^ (j + 1) * c + radix * radix ^ j :=
              Nat.add_lt_add_left (Nat.mul_lt_mul_of_pos_right he (radix_pow_pos j)) _
          _ = radix ^ (j + 1) * (c + 1) := by rw [Nat.pow_succ]; ring
          _ ≤ radix ^ (j + 1) * radix ^ (T - (j + 1)) := Nat.mul_le_mul_left _ hc
      have hdvd' : radix ^ j ∣ E + e * radix ^ j :=
        Nat.dvd_add ((pow_dvd_pow _ (Nat.le_succ j)).trans hdvd) (dvd_mul_left ..)
      obtain ⟨E', hle, hlt, hrun⟩ := ih (by omega) hstep hsum hdvd'
      exact ⟨E', (Nat.le_add_right ..).trans hle, hlt, hrun⟩

/-! ## Rounds that leave nothing too much -/

/-- The rounds down to digit `j` have divided exactly. -/
structure LeavesExact (vn : Words) (n T U j : Nat) (s : Words × Words) : Prop where
  sum : value s.1 0 (j + n) + value s.2 j (T - j) * radix ^ j * value vn 0 n = U
  lt : value s.1 j n < value vn 0 n

theorem LeavesExact.leavesError {s : Words × Words} (h : LeavesExact vn n T U j s) :
    LeavesError vn n T U j s 0 := by
  have hsum : (value s.1 0 (j + n) : Int) + value s.2 j (T - j) * radix ^ j * value vn 0 n = U := by
    exact_mod_cast h.sum
  unfold LeavesError
  rw [← hsum, Nat.cast_zero, Int.add_zero, Int.add_sub_cancel]

/-- The dividend above the low words. -/
theorem LeavesExact.split (h : LeavesExact vn n T U (j + 1) (un, q)) :
    U = value un 0 (j + 1) + radix ^ (j + 1) *
      (value un (j + 1) n + value q (j + 1) (T - (j + 1)) * value vn 0 n) := by
  rw [← h.sum, value_add, Nat.zero_add]
  ring

/-- The window of the next round -/
theorem LeavesExact.window_eq (h : LeavesExact vn n T U (j + 1) (un, q)) :
    window U (value vn 0 n) j = value un j (n + 1) := by
  have hsplit := h.split
  set R := value un (j + 1) n + value q (j + 1) (T - (j + 1)) * value vn 0 n with hR
  have hlow : U / radix ^ (j + 1) = R := by
    rw [hsplit, Nat.add_mul_div_left _ _ (radix_pow_pos (j + 1)),
      Nat.div_eq_of_lt (value_lt un 0 (j + 1)), Nat.zero_add]
  have hdigit : U / radix ^ j = (un j).toNat + radix * R := by
    rw [hsplit, value_succ, Nat.zero_add, Nat.pow_succ, Nat.mul_assoc, Nat.add_assoc,
      Nat.mul_comm (un j).toNat, ← Nat.mul_add, Nat.add_mul_div_left _ _ (radix_pow_pos j),
      Nat.div_eq_of_lt (value_lt un 0 j), Nat.zero_add]
  have hparts : value un j (n + 1) = (un j).toNat + radix * value un (j + 1) n := by
    rw [Nat.add_comm n 1, value_add, value_one, pow_one]
  rw [window, hlow, hdigit, hparts, hR, Nat.add_mul_mod_self_right, Nat.mod_eq_of_lt h.lt,
    Nat.add_mul_mod_self_left, Nat.mod_eq_of_lt (toNat_lt_radix (un j)), Nat.mul_comm, Nat.add_comm]

theorem LeavesExact.window_lt (h : LeavesExact vn n T U (j + 1) (un, q)) :
    value un j (n + 1) < value vn 0 n * radix := by
  have hlt := h.lt
  have hword := toNat_lt_radix (un j)
  rw [Nat.add_comm n 1, value_add, value_one, pow_one]
  calc (un j).toNat + radix * value un (j + 1) n
      < radix + radix * value un (j + 1) n := Nat.add_lt_add_right hword _
    _ = (value un (j + 1) n + 1) * radix := by ring
    _ ≤ value vn 0 n * radix := Nat.mul_le_mul_right _ hlt

variable {m : Nat}

/-- The estimate of a round is the digit, or the round adds back. -/
theorem LeavesExact.estimate_cases (h : LeavesExact vn (m + 2) T U (j + 1) (un, q))
    (htop : 2 ^ 31 ≤ (vn (m + 1)).toNat) :
    (¬ AddsBack (m + 2) U (value vn 0 (m + 2)) j ∧ (roundQd un vn (m + 2) j).toNat =
        value un j (m + 3) / value vn 0 (m + 2)) ∨
      AddsBack (m + 2) U (value vn 0 (m + 2)) j ∧ (roundQd un vn (m + 2) j).toNat =
        value un j (m + 3) / value vn 0 (m + 2) + 1 := by
  have hv := Nat.zero_lt_of_lt h.lt
  obtain ⟨hlow, hhigh⟩ := estimateQd_spec htop h.window_lt
  have hround : estimateQd (un (j + m + 2)) (un (j + m + 1)) (un (j + m)) (vn (m + 1)) (vn m) =
      roundQd un vn (m + 2) j := rfl
  rw [hround] at hlow hhigh
  have hest := toNat_roundQd un vn m j
  rw [AddsBack, h.window_eq, ← hest]
  rcases eq_or_eq_succ_of_estimate hv hlow hhigh with heq | heq
  · refine Or.inl ⟨?_, heq⟩
    rw [heq, not_lt]
    exact Nat.div_mul_le_self ..
  · refine Or.inr ⟨?_, heq⟩
    rw [heq, Nat.mul_comm]
    exact Nat.lt_mul_div_succ _ hv

/-- **A round that does not add back.** -/
theorem LeavesExact.step (hj : j < T) (h : LeavesExact vn (m + 2) T U (j + 1) (un, q))
    (htop : 2 ^ 31 ≤ (vn (m + 1)).toNat) (hadds : ¬ AddsBack (m + 2) U (value vn 0 (m + 2)) j) :
    LeavesExact vn (m + 2) T U j (divStep vn (m + 2) j (un, q)) := by
  have hv := Nat.zero_lt_of_lt h.lt
  obtain ⟨-, hqd⟩ := (h.estimate_cases htop).resolve_right fun hadd => hadds hadd.1
  obtain ⟨hstep, hrem⟩ := divStep_of_exact (q := q) hv hqd
  have hdigits := value_digits (s := divStep vn (m + 2) j (un, q)) (q := q) hj fun i hi => by
    rw [hstep]
    exact Function.update_of_ne hi ..
  rw [hstep] at hdigits ⊢
  dsimp only at hdigits
  rw [Function.update_self, hqd] at hdigits
  refine ⟨?_, ?_⟩
  · have hlow : value (roundUn (roundQd un vn (m + 2) j) un vn (m + 2) j) 0 j = value un 0 j :=
      value_congr fun i hi => by rw [Nat.zero_add]; exact roundUn_of_lt hi
    have hparts := Nat.div_add_mod (value un j (m + 3)) (value vn 0 (m + 2))
    have hwindow : value un j (m + 3) = (un j).toNat + radix * value un (j + 1) (m + 2) := by
      rw [show m + 3 = 1 + (m + 2) by omega, value_add, value_one, pow_one]
    dsimp only
    rw [hdigits, value_add, Nat.zero_add, hlow, hrem, h.split, value_succ un 0 j, Nat.zero_add,
      Nat.pow_succ]
    rw [hwindow] at hparts ⊢
    linear_combination radix ^ j * hparts
  · dsimp only
    rw [hrem]
    exact Nat.mod_lt _ hv

/-- **A round that adds back**: the digit is right. -/
theorem LeavesExact.step_of_addsBack (hj : j < T) (h : LeavesExact vn (m + 2) T U (j + 1) (un, q))
    (htop : 2 ^ 31 ≤ (vn (m + 1)).toNat) (hadds : AddsBack (m + 2) U (value vn 0 (m + 2)) j) :
    value (divStep vn (m + 2) j (un, q)).2 j (T - j) =
        value un j (m + 3) / value vn 0 (m + 2) + radix * value q (j + 1) (T - (j + 1)) ∧
      value (divStep vn (m + 2) j (un, q)).1 j (m + 2) =
        (value un j (m + 3) % value vn 0 (m + 2) + backCarry (m + 2) U (value vn 0 (m + 2)) j) %
          radix ^ (m + 2) := by
  have hv := Nat.zero_lt_of_lt h.lt
  obtain ⟨-, hqd⟩ := (h.estimate_cases htop).resolve_left fun hadd => hadd.1 hadds
  obtain ⟨un', hstep, -, hval⟩ := divStep_of_succ (q := q) hv hqd
  have hdigits := value_digits (s := divStep vn (m + 2) j (un, q)) (q := q) hj fun i hi => by
    rw [hstep]
    exact Function.update_of_ne hi ..
  have hone : (roundQd un vn (m + 2) j - 1).toNat =
      value un j (m + 3) / value vn 0 (m + 2) := by
    rw [UInt32.toNat_sub_of_le, hqd]
    · rfl
    · rw [UInt32.le_iff_toNat_le, hqd]
      exact Nat.succ_le_succ (Nat.zero_le _)
  have hcarry : backCarry (m + 2) U (value vn 0 (m + 2)) j = (un (j + (m + 2))).toNat + 1 := by
    have htopWord := value_div un j (m + 2) 1
    rw [value_one] at htopWord
    rw [backCarry, h.window_eq]
    exact congrArg (· + 1) htopWord
  rw [hstep] at hdigits ⊢
  dsimp only at hdigits ⊢
  rw [Function.update_self, hone] at hdigits
  exact ⟨hdigits, by rw [hval, hcarry, Nat.add_assoc]⟩

/-- After the last round -/
theorem LeavesExact.done {s : Words × Words} (h : LeavesExact vn n T U 0 s) :
    value s.2 0 T = U / value vn 0 n ∧ value s.1 0 n = U % value vn 0 n := by
  have hsum := h.sum
  rw [Nat.zero_add, Nat.sub_zero, pow_zero, Nat.mul_one] at hsum
  have hunique := (Nat.div_mod_unique (Nat.zero_lt_of_lt h.lt)).mpr
    ⟨(Nat.mul_comm .. ▸ hsum : value s.1 0 n + value vn 0 n * value s.2 0 T = U), h.lt⟩
  exact ⟨hunique.1.symm, hunique.2.symm⟩

/-- The window of the last round -/
theorem LeavesExact.last (h : LeavesExact vn n T U 1 (un, q)) :
    U = value un 0 (n + 1) + value vn 0 n * (radix * value q 1 (T - 1)) := by
  have hsplit := h.split
  rw [Nat.zero_add, pow_one] at hsplit
  rw [hsplit, Nat.add_comm n 1, value_add un 0 1 n, Nat.zero_add, pow_one]
  ring

/-- **Run lemma.** The rounds above the last one are exact, or one of them leaves a whole word too
much. -/
theorem divLoop_cases {s : Words × Words} (hj : j < T)
    (h : LeavesExact vn (m + 2) T U (j + 1) s) (htop : 2 ^ 31 ≤ (vn (m + 1)).toNat) :
    (∃ s₁, divLoop vn (m + 2) (j + 1) s = divStep vn (m + 2) 0 s₁ ∧
        LeavesExact vn (m + 2) T U 1 s₁ ∧
        ∀ i, 1 ≤ i → i ≤ j → ¬ AddsBack (m + 2) U (value vn 0 (m + 2)) i) ∨
      (∃ i, 1 ≤ i ∧ i ≤ j ∧ AddsBack (m + 2) U (value vn 0 (m + 2)) i) ∧
        ∃ E, radix ≤ E ∧ E < radix ^ T ∧
          LeavesError vn (m + 2) T U 0 (divLoop vn (m + 2) (j + 1) s) E := by
  induction j generalizing s with
  | zero => exact Or.inl ⟨s, rfl, h, fun i hlow hhigh => by omega⟩
  | succ j ih =>
      rw [divLoop]
      by_cases hadds : AddsBack (m + 2) U (value vn 0 (m + 2)) (j + 1)
      · have hlt : value s.1 (j + 1) (m + 3) <
            (roundQd s.1 vn (m + 2) (j + 1)).toNat * value vn 0 (m + 2) := by
          rw [AddsBack, h.window_eq] at hadds
          rwa [toNat_roundQd]
        obtain ⟨e, he, hpos, hstep⟩ := h.leavesError.step hj
        have he' := hpos hlt
        rw [Nat.zero_add] at hstep
        have hE : e * radix ^ (j + 1) < radix ^ T := by
          calc e * radix ^ (j + 1) < radix * radix ^ (j + 1) :=
                Nat.mul_lt_mul_of_pos_right he (radix_pow_pos _)
            _ = radix ^ (j + 2) := by rw [Nat.pow_succ radix (j + 1), Nat.mul_comm]
            _ ≤ radix ^ T := Nat.pow_le_pow_right radix_pos hj
        obtain ⟨E, hle, hlt, hrun⟩ := hstep.loop hj.le hE (dvd_mul_left ..)
        refine Or.inr ⟨⟨j + 1, by omega, le_rfl, hadds⟩, E, ?_, hlt, hrun⟩
        calc radix = radix ^ 1 := (pow_one _).symm
          _ ≤ radix ^ (j + 1) := Nat.pow_le_pow_right radix_pos (by omega)
          _ ≤ e * radix ^ (j + 1) := Nat.le_mul_of_pos_left _ he'
          _ ≤ E := hle
      · rcases ih (by omega) (h.step hj htop hadds) with ⟨s₁, heq, hexact, hnone⟩ | ⟨⟨i, hi⟩, herror⟩
        · refine Or.inl ⟨s₁, heq, hexact, fun i hlow hhigh => ?_⟩
          rcases Nat.lt_or_ge j i with hlt | hge
          · rwa [show i = j + 1 by omega]
          · exact hnone i hlow hge
        · exact Or.inr ⟨⟨i, hi.1, hi.2.1.trans (Nat.le_succ j), hi.2.2⟩, herror⟩

end Rounds

/-! ## The whole division -/

section Division

variable {mem q u v : Words} {m n : Nat}

theorem value_le_of_top {v : Words} {n : Nat} (htop : v n ≠ 0) : radix ^ n ≤ value v 0 (n + 1) := by
  have hpos : 0 < (v n).toNat := toNat_pos_of_ne_zero htop
  rw [value_succ, Nat.zero_add]
  exact (Nat.le_mul_of_pos_left _ hpos).trans (Nat.le_add_left ..)

theorem bnDivEx_eq (mem q : Words) (r : Option Words) (u : Words) (hn : 2 ≤ n) (hmn : n ≤ m)
    (htop : v (n - 1) ≠ 0) :
    let s := shiftFactor 32 (v (n - 1))
    let run := divLoop (normalizeV mem v n s) n (m - n + 1) (normalizeU mem u m s, q)
    bnDivEx mem q r u m v n = some (run.2, r.map fun r => denormalize r run.1 n s) := by
  rw [bnDivEx, if_neg (by omega)]
  dsimp only
  rw [if_neg htop, if_neg (by omega)]

/-- The shift of a divisor whose top word is not zero -/
theorem shift_spec (mem : Words) (hn : 0 < n) (htop : v (n - 1) ≠ 0) :
    let s := shiftFactor 32 (v (n - 1))
    s.toNat < 32 ∧ value (normalizeV mem v n s) 0 n = value v 0 n * 2 ^ s.toNat ∧
      2 ^ 31 ≤ (normalizeV mem v n s (n - 1)).toNat := by
  obtain ⟨k, rfl⟩ := Nat.exists_eq_succ_of_ne_zero hn.ne'
  rw [Nat.succ_sub_one, Nat.succ_eq_add_one] at *
  intro s
  have hpos : 0 < (v k).toNat := toNat_pos_of_ne_zero htop
  obtain ⟨hs, hlow, hhigh⟩ : s.toNat < 32 ∧ 2 ^ 31 ≤ (v k).toNat * 2 ^ s.toNat ∧
      (v k).toNat * 2 ^ s.toNat < radix :=
    shiftFactor_spec le_rfl (Nat.le_mul_of_pos_left _ hpos)
  have hfits : value v 0 (k + 1) * 2 ^ s.toNat < radix ^ (k + 1) := by
    have hval := value_lt v 0 k
    rw [value_succ, Nat.zero_add, Nat.pow_succ]
    calc (value v 0 k + (v k).toNat * radix ^ k) * 2 ^ s.toNat
        = value v 0 k * 2 ^ s.toNat + (v k).toNat * 2 ^ s.toNat * radix ^ k := by ring
      _ < radix ^ k * 2 ^ s.toNat + (v k).toNat * 2 ^ s.toNat * radix ^ k :=
          Nat.add_lt_add_right (Nat.mul_lt_mul_of_pos_right hval (by positivity)) _
      _ = ((v k).toNat + 1) * 2 ^ s.toNat * radix ^ k := by ring
      _ ≤ radix * radix ^ k := Nat.mul_le_mul_right _ ?_
      _ = radix ^ k * radix := Nat.mul_comm ..
    -- the shifted word and its low bits fit
    obtain ⟨c, hc⟩ : 2 ^ s.toNat ∣ radix := pow_dvd_pow 2 hs.le
    rw [hc, Nat.mul_comm] at hhigh ⊢
    have hlt := Nat.lt_of_mul_lt_mul_left hhigh
    exact Nat.mul_le_mul_left _ hlt
  have hvalue := value_normalizeV mem (Nat.succ_pos k) hs hfits
  refine ⟨hs, hvalue, ?_⟩
  -- the top word is the number divided by the weight of the top word
  have hword : (normalizeV mem v (k + 1) s k).toNat =
      value v 0 (k + 1) * 2 ^ s.toNat / radix ^ k := by
    have hdiv := value_div (normalizeV mem v (k + 1) s) 0 k 1
    rw [hvalue, value_one, Nat.zero_add] at hdiv
    exact hdiv.symm
  rw [hword, Nat.le_div_iff_mul_le (radix_pow_pos k), value_succ, Nat.zero_add]
  calc 2 ^ 31 * radix ^ k ≤ (v k).toNat * 2 ^ s.toNat * radix ^ k := Nat.mul_le_mul_right _ hlow
    _ = (v k).toNat * radix ^ k * 2 ^ s.toNat := by ring
    _ ≤ (value v 0 k + (v k).toNat * radix ^ k) * 2 ^ s.toNat :=
        Nat.mul_le_mul_right _ (Nat.le_add_left ..)

/-- Before the first round nothing is divided. -/
theorem leavesExact_normalize (mem q u : Words) (hn : 0 < n) (hmn : n ≤ m) (htop : v (n - 1) ≠ 0) :
    let s := shiftFactor 32 (v (n - 1))
    LeavesExact (normalizeV mem v n s) n (m - n + 1) (value u 0 m * 2 ^ s.toNat) (m - n + 1)
      (normalizeU mem u m s, q) := by
  intro s
  obtain ⟨hs, hV, -⟩ := shift_spec mem hn htop
  have hU := value_normalizeU (u := u) mem (hn.trans_le hmn) hs
  have hlen : m - n + 1 + n = m + 1 := by omega
  refine ⟨?_, ?_⟩
  · rw [hlen, Nat.sub_self, value_zero, Nat.zero_mul, Nat.zero_mul, Nat.add_zero]
    exact hU
  · have hdiv := value_div (normalizeU mem u m s) 0 (m - n + 1) n
    rw [hlen, hU, Nat.zero_add] at hdiv
    dsimp only
    rw [← hdiv, hV]
    refine Nat.div_lt_of_lt_mul ?_
    obtain ⟨k, rfl⟩ := Nat.exists_eq_succ_of_ne_zero hn.ne'
    have hlow := value_le_of_top htop
    calc value u 0 m * 2 ^ s.toNat < radix ^ m * 2 ^ s.toNat :=
          Nat.mul_lt_mul_of_pos_right (value_lt u 0 m) (by positivity)
      _ = radix ^ (m - (k + 1) + 1) * radix ^ k * 2 ^ s.toNat := by
          rw [← Nat.pow_add, show m - (k + 1) + 1 + k = m by omega]
      _ ≤ radix ^ (m - (k + 1) + 1) * value v 0 (k + 1) * 2 ^ s.toNat :=
          Nat.mul_le_mul_right _ (Nat.mul_le_mul_left _ hlow)
      _ = radix ^ (m - (k + 1) + 1) * (value v 0 (k + 1) * 2 ^ s.toNat) := Nat.mul_assoc ..

/-- What a division leaves, with the carries of its rounds. -/
theorem bnDivEx_cases (mem q r u : Words) (hn : 2 ≤ n) (hmn : n ≤ m) (htop : v (n - 1) ≠ 0) :
    let s := (shiftFactor 32 (v (n - 1))).toNat
    let U := value u 0 m * 2 ^ s
    let V := value v 0 n * 2 ^ s
    ∃ q' r' : Words, bnDivEx mem q (some r) u m v n = some (q', some r') ∧
      ((∀ j ≤ m - n, ¬ AddsBack n U V j) ∧
          value q' 0 (m - n + 1) = value u 0 m / value v 0 n ∧
          value r' 0 n = value u 0 m % value v 0 n ∨
        AddsBack n U V 0 ∧ (∀ j, 1 ≤ j → j ≤ m - n → ¬ AddsBack n U V j) ∧
          value q' 0 (m - n + 1) = value u 0 m / value v 0 n ∧
          value r' 0 n = (value u 0 m % value v 0 n * 2 ^ s + backCarry n U V 0) % radix ^ n / 2 ^ s ∨
        (∃ j, 1 ≤ j ∧ j ≤ m - n ∧ AddsBack n U V j) ∧
          ∃ un E : Nat, radix ≤ E ∧ E < radix ^ (m - n + 1) ∧ value r' 0 n = un / 2 ^ s ∧
            (un : Int) ≡ U - value q' 0 (m - n + 1) * V + E [ZMOD (radix : Int) ^ n]) := by
  intro s U V
  obtain ⟨hs, hV, hhigh⟩ := shift_spec mem (by lia) htop
  have hstart := leavesExact_normalize mem q u (by lia) hmn htop
  have heq := bnDivEx_eq mem q (some r) u hn hmn htop
  dsimp only at hstart heq hV hhigh hs
  obtain ⟨k, rfl⟩ : ∃ k, n = k + 2 := ⟨n - 2, by lia⟩
  have hpos : 0 < 2 ^ s := by positivity
  have hdenorm (un : Words) := value_denormalize (s := shiftFactor 32 (v (k + 2 - 1))) r un
    (show 0 < k + 2 by lia) hs
  refine ⟨_, _, heq, ?_⟩
  rw [hdenorm]
  have hVpos : 0 < V := Nat.mul_pos ((radix_pow_pos _).trans_le (value_le_of_top htop)) hpos
  have hquotient : U / V = value u 0 m / value v 0 (k + 2) := Nat.mul_div_mul_right _ _ hpos
  have hremainder : U % V = value u 0 m % value v 0 (k + 2) * 2 ^ s := Nat.mul_mod_mul_right ..
  rcases divLoop_cases (Nat.lt_succ_self (m - (k + 2))) hstart hhigh with
    ⟨s₁, hrun, hexact, hnone⟩ | ⟨hadds, E, hlow, hlt, herror⟩
  · rw [hrun]
    by_cases hadds : AddsBack (k + 2) U V 0
    · obtain ⟨hquot, hrem⟩ := hexact.step_of_addsBack (by lia) hhigh (hV.symm ▸ hadds)
      have hlast : U = _ := hexact.last
      rw [hV] at hlast
      have hdiv : U / V = value s₁.1 0 (k + 3) / V + radix * value s₁.2 1 (m - (k + 2) + 1 - 1) := by
        rw [hlast]
        exact Nat.add_mul_div_left _ _ hVpos
      have hmod : U % V = value s₁.1 0 (k + 3) % V := by
        rw [hlast]
        exact Nat.add_mul_mod_self_left ..
      rw [hV] at hnone hquot hrem
      refine Or.inr (Or.inl ⟨hadds, hnone, ?_, ?_⟩)
      · rw [← hquotient, hdiv]
        exact hquot
      · rw [← hremainder, hmod]
        exact congrArg (· / 2 ^ s) hrem
    · obtain ⟨hquot, hrem⟩ := (hexact.step (by lia) hhigh (hV.symm ▸ hadds)).done
      rw [hV] at hnone hquot hrem
      refine Or.inl ⟨fun j hj => ?_, hquot.trans hquotient, ?_⟩
      · rcases Nat.eq_zero_or_pos j with rfl | hj'
        · exact hadds
        · exact hnone j hj' hj
      · rw [hrem, hremainder, Nat.mul_div_cancel _ hpos]
  · rw [hV] at hadds
    refine Or.inr (Or.inr ⟨hadds, _, E, hlow, hlt, rfl, ?_⟩)
    rw [LeavesError, hV] at herror
    simpa only [Nat.zero_add, Nat.sub_zero, pow_zero, mul_one] using herror

end Division

end Dcrypto
end CrosEc
