import CrosEc.Dcrypto.ModinvExact

/-!
# The two ways to compute a key

`DCRYPTO_rsa_key_compute` multiplies `p` and `q`, or divides `N` by `p` and multiplies again.  The
second way uses the quotient only.  What a round that adds back leaves too much makes the dividend
larger, and the quotient does not notice as long as all of it stays below the divisor.  For the
digits below the two top ones it always does.
-/

namespace CrosEc
namespace Dcrypto

open Lib Words

/-! ## A carry that the quotient does not notice -/

/-- The two top digits of the quotient of `u`, of `2 n` words, by `v`, of `n` words with the top bit
set, leave less than the divisor too much. -/
def QuotientHarmless (n u v : Nat) : Prop :=
  n = 1 ∨ ¬ AddsBack n u v n ∧
    (AddsBack n u v (n - 1) → (backCarry n u v (n - 1) + 2) * radix ^ (n - 1) ≤ v)

instance (n u v : Nat) : Decidable (QuotientHarmless n u v) :=
  inferInstanceAs (Decidable (_ ∨ _ ∧ (_ → _)))

/-- A remainder of a multiple of the divisor has room for what is too much. -/
theorem mod_add_lt {v w E k B : Nat} (hB : 0 < B) (h : E + k * B < v) :
    (v * w + E) / B % v + k < v := by
  set U := v * w + E with hU
  have hv : 0 < v := Nat.zero_lt_of_lt h
  -- the digits above this one are at most those of `w`
  have hparts := Nat.div_add_mod (U / B) v
  have hlow : B * (U / B) ≤ U := Nat.mul_div_le ..
  have hdigits : w < B * (U / B / v + 1) := by
    have hlt : U / B < v * (U / B / v + 1) := Nat.lt_mul_div_succ _ hv
    have hlt' : U < B * (v * (U / B / v + 1)) := by
      calc U < B * (U / B + 1) := Nat.lt_mul_div_succ _ hB
        _ ≤ B * (v * (U / B / v + 1)) := Nat.mul_le_mul_left _ hlt
    have hw : v * w < v * (B * (U / B / v + 1)) := by
      rw [Nat.mul_left_comm]
      exact (Nat.le_add_right ..).trans_lt hlt'
    exact Nat.lt_of_mul_lt_mul_left hw
  refine Nat.lt_of_mul_lt_mul_left (a := B) ?_
  set c := U / B / v
  set r := U / B % v
  have hle : v * (w + 1) ≤ v * (B * (c + 1)) := Nat.mul_le_mul_left _ hdigits
  have hsum : B * (v * c) + B * r ≤ v * w + E := by
    rw [← Nat.mul_add, hparts]
    exact hlow
  have hle' : v * w + v ≤ B * (v * c) + B * v := by
    calc v * w + v = v * (w + 1) := (Nat.mul_succ ..).symm
      _ ≤ v * (B * (c + 1)) := hle
      _ = B * (v * c) + B * v := by ring
  have hk : B * k = k * B := Nat.mul_comm ..
  rw [Nat.mul_add, hk]
  omega

section Rounds

variable {vn un q : Words} {T U j m w E : Nat}

/-- The remainder of a window is that of the dividend. -/
theorem LeavesExact.window_mod {n : Nat} (h : LeavesExact vn n T U (j + 1) (un, q)) :
    value un j (n + 1) % value vn 0 n = U / radix ^ j % value vn 0 n := by
  have hwindow := h.window_eq
  have hdiv : U / radix ^ j = radix * (U / radix ^ (j + 1)) + U / radix ^ j % radix := by
    rw [Nat.pow_succ, ← Nat.div_div_eq_div_mul]
    exact (Nat.div_add_mod ..).symm
  rw [← hwindow, window]
  nth_rewrite 2 [hdiv]
  rw [Nat.mul_comm]
  exact ((Nat.mod_modEq ..).mul_left radix).add_right _

/-- **A round that adds back**, where what is too much stays below the divisor: the rounds so far
have divided a larger number exactly. -/
theorem LeavesExact.step_larger (hj : j < T) (h : LeavesExact vn (m + 2) T U (j + 1) (un, q))
    (htop : 2 ^ 31 ≤ (vn (m + 1)).toNat) (hadds : AddsBack (m + 2) U (value vn 0 (m + 2)) j)
    (hlt : U / radix ^ j % value vn 0 (m + 2) + backCarry (m + 2) U (value vn 0 (m + 2)) j <
      value vn 0 (m + 2)) :
    LeavesExact vn (m + 2) T (U + backCarry (m + 2) U (value vn 0 (m + 2)) j * radix ^ j) j
      (divStep vn (m + 2) j (un, q)) := by
  obtain ⟨hdigits, hrem⟩ := h.step_of_addsBack hj htop hadds
  obtain ⟨-, -, -, hframe, -, -⟩ := divStep_error vn un q (m + 2) j
  set k := backCarry (m + 2) U (value vn 0 (m + 2)) j
  have hlow : value (divStep vn (m + 2) j (un, q)).1 0 j = value un 0 j :=
    value_congr fun i hi => by rw [Nat.zero_add]; exact hframe i hi
  rw [← h.window_mod] at hlt
  rw [Nat.mod_eq_of_lt (hlt.trans (value_lt vn 0 (m + 2)))] at hrem
  refine ⟨?_, hrem.trans_lt hlt⟩
  have hparts := Nat.div_add_mod (value un j (m + 3)) (value vn 0 (m + 2))
  have hwindow : value un j (m + 3) = (un j).toNat + radix * value un (j + 1) (m + 2) := by
    rw [show m + 3 = 1 + (m + 2) by omega, value_add, value_one, pow_one]
  rw [hdigits, value_add, Nat.zero_add, hlow, hrem, h.split, value_succ un 0 j, Nat.zero_add,
    Nat.pow_succ]
  rw [hwindow] at hparts ⊢
  linear_combination radix ^ j * hparts

/-- **Run lemma.** The quotient of a multiple of the divisor comes out, though the dividend gets
larger from round to round. -/
theorem divLoop_quotient {s : Words × Words} (hj : j ≤ T)
    (h : LeavesExact vn (m + 2) T (value vn 0 (m + 2) * w + E) j s)
    (htop : 2 ^ 31 ≤ (vn (m + 1)).toNat) (hE : E + 2 * radix ^ j ≤ value vn 0 (m + 2)) :
    value (divLoop vn (m + 2) j s).2 0 T = w := by
  have hv := Nat.zero_lt_of_lt h.lt
  induction j generalizing s E with
  | zero =>
      rw [pow_zero] at hE
      rw [divLoop, h.done.1, Nat.mul_add_div hv, Nat.div_eq_of_lt (by omega), Nat.add_zero]
  | succ j ih =>
      rw [divLoop]
      have hradix : 2 * radix ^ j ≤ radix ^ (j + 1) := by
        rw [Nat.pow_succ']
        exact Nat.mul_le_mul_right _ (by decide)
      by_cases hadds : AddsBack (m + 2) (value vn 0 (m + 2) * w + E) (value vn 0 (m + 2)) j
      · set k := backCarry (m + 2) (value vn 0 (m + 2) * w + E) (value vn 0 (m + 2)) j with hk
        have hcarry : k * radix ^ j ≤ radix ^ (j + 1) := by
          rw [Nat.pow_succ']
          exact Nat.mul_le_mul_right _ (backCarry_le j hv (value_lt vn 0 (m + 2)))
        have hroom : E + k * radix ^ j + 2 * radix ^ j ≤ value vn 0 (m + 2) := by
          calc E + k * radix ^ j + 2 * radix ^ j
              ≤ E + radix ^ (j + 1) + radix ^ (j + 1) :=
                Nat.add_le_add (Nat.add_le_add_left hcarry E) hradix
            _ = E + 2 * radix ^ (j + 1) := by ring
            _ ≤ value vn 0 (m + 2) := hE
        have hfits : E + k * radix ^ j < value vn 0 (m + 2) :=
          (Nat.lt_add_of_pos_right (Nat.mul_pos two_pos (radix_pow_pos j))).trans_le hroom
        have hstep := h.step_larger hj htop hadds (mod_add_lt (radix_pow_pos j) hfits)
        rw [Nat.add_assoc] at hstep
        exact ih (Nat.le_of_succ_le hj) hstep hroom
      · refine ih (Nat.le_of_succ_le hj) (h.step hj htop hadds) ?_
        calc E + 2 * radix ^ j ≤ E + 2 * radix ^ (j + 1) :=
              Nat.add_le_add_left (hradix.trans (Nat.le_mul_of_pos_left _ two_pos)) E
          _ ≤ value vn 0 (m + 2) := hE

/-- The first digit that may leave too much. -/
theorem divLoop_quotient_of_room {s : Words × Words} (hj : j < T)
    (h : LeavesExact vn (m + 2) T (value vn 0 (m + 2) * w) (j + 1) s)
    (htop : 2 ^ 31 ≤ (vn (m + 1)).toNat) (hroom : 2 * radix ^ j ≤ value vn 0 (m + 2))
    (hadds : AddsBack (m + 2) (value vn 0 (m + 2) * w) (value vn 0 (m + 2)) j →
      (backCarry (m + 2) (value vn 0 (m + 2) * w) (value vn 0 (m + 2)) j + 2) * radix ^ j ≤
        value vn 0 (m + 2)) :
    value (divLoop vn (m + 2) (j + 1) s).2 0 T = w := by
  rw [divLoop]
  by_cases hback : AddsBack (m + 2) (value vn 0 (m + 2) * w) (value vn 0 (m + 2)) j
  · have hfits := hadds hback
    rw [Nat.add_mul] at hfits
    have hless := mod_add_lt (v := value vn 0 (m + 2)) (w := w) (E := 0) (radix_pow_pos j)
      (by
        rw [Nat.zero_add]
        exact (Nat.lt_add_of_pos_right (Nat.mul_pos two_pos (radix_pow_pos j))).trans_le hfits)
    exact divLoop_quotient hj.le (h.step_larger hj htop hback hless) htop hfits
  · exact divLoop_quotient (E := 0) hj.le (h.step hj htop hback) htop
      (by rw [Nat.zero_add]; exact hroom)

end Rounds

/-! ## The quotient of a multiple -/

/-- The top bit of a number is set. -/
def LiteBignum.TopBitSet (a : LiteBignum) : Prop :=
  0 < a.dmax ∧ 2 ^ 31 ≤ (a.d (a.dmax - 1)).toNat

instance (a : LiteBignum) : Decidable a.TopBitSet := inferInstanceAs (Decidable (_ ∧ _))

/-- A divisor with the top bit set is not shifted. -/
theorem shiftFactor_of_topBit {vtop : UInt32} (h : 2 ^ 31 ≤ vtop.toNat) :
    (shiftFactor 32 vtop).toNat = 0 := by
  obtain ⟨-, -, hhigh⟩ := shiftFactor_spec le_rfl
    (Nat.le_mul_of_pos_left _ (by omega) : 2 ^ 32 ≤ vtop.toNat * 2 ^ 32)
  by_contra hne
  have htwo : 2 ^ 1 ≤ 2 ^ (shiftFactor 32 vtop).toNat :=
    Nat.pow_le_pow_right two_pos (Nat.pos_of_ne_zero hne)
  have hmul := Nat.mul_le_mul h htwo
  omega

/-- `bn_div_ex` finds the other factor. -/
theorem bnDivEx_multiple (mem q : Words) (r : Option Words) {u v : Words} {n w : Nat} (hn : 0 < n)
    (htop : 2 ^ 31 ≤ (v (n - 1)).toNat) (hval : value u 0 (2 * n) = value v 0 n * w)
    (hharm : QuotientHarmless n (value u 0 (2 * n)) (value v 0 n)) :
    ∃ q' r', bnDivEx mem q r u (2 * n) v n = some (q', r') ∧ value q' 0 (n + 1) = w := by
  have hne : v (n - 1) ≠ 0 := fun hzero => by
    rw [hzero] at htop
    exact absurd htop (by decide)
  rcases Nat.lt_or_ge n 2 with hone | htwo
  · obtain rfl : n = 1 := by omega
    have hpos : 0 < v 0 := UInt32.lt_iff_toNat_lt.mpr (toNat_pos_of_ne_zero hne)
    have hquot := bnDivWordEx_quotient q r u 2 hpos
    rw [show 2 * 1 = 2 from rfl, value_one] at hval
    rw [hval, Nat.mul_div_cancel_left w (toNat_pos_of_ne_zero hne)] at hquot
    refine ⟨(bnDivWordEx q r u 2 (v 0)).1, (bnDivWordEx q r u 2 (v 0)).2, ?_, hquot⟩
    rw [bnDivEx, if_neg (by omega)]
    dsimp only
    rw [if_neg hne, if_pos rfl]
  obtain ⟨k, rfl⟩ : ∃ k, n = k + 2 := ⟨n - 2, by omega⟩
  obtain ⟨-, hV, hhigh⟩ := shift_spec mem hn hne
  have hstart := leavesExact_normalize mem q u hn (m := 2 * (k + 2)) (by omega) hne
  have hrun := bnDivEx_eq mem q r u htwo (m := 2 * (k + 2)) (by omega) hne
  dsimp only at hV hhigh hstart hrun
  rw [shiftFactor_of_topBit htop, pow_zero, Nat.mul_one] at hV hstart
  rw [show 2 * (k + 2) - (k + 2) + 1 = k + 3 by omega] at hstart hrun
  refine ⟨_, _, hrun, ?_⟩
  set vn := normalizeV mem v (k + 2) (shiftFactor 32 (v (k + 2 - 1)))
  rw [← hV] at hharm hval
  obtain ⟨hfirst, hsecond⟩ := hharm.resolve_left (by omega)
  rw [hval] at hstart hfirst hsecond
  have hexact := hstart.step (Nat.lt_succ_self (k + 2)) hhigh hfirst
  rw [divLoop]
  refine divLoop_quotient_of_room (by omega) hexact hhigh ?_ hsecond
  rw [value_succ, Nat.zero_add]
  calc 2 * radix ^ (k + 1) ≤ (vn (k + 1)).toNat * radix ^ (k + 1) :=
        Nat.mul_le_mul_right _ ((by decide : 2 ≤ 2 ^ 31).trans hhigh)
    _ ≤ _ := Nat.le_add_left ..

namespace LiteBignum

variable {a : LiteBignum}

theorem TopBitSet.le_val (h : a.TopBitSet) : 2 ^ 31 * radix ^ (a.dmax - 1) ≤ a.val := by
  have hval := value_succ a.d 0 (a.dmax - 1)
  rw [Nat.sub_add_cancel h.1, Nat.zero_add] at hval
  rw [LiteBignum.val, hval]
  exact (Nat.mul_le_mul_right _ h.2).trans (Nat.le_add_left ..)

theorem TopBitSet.two_pow_le (h : a.TopBitSet) : 2 ^ 31 ≤ a.val :=
  (Nat.le_mul_of_pos_right _ (radix_pow_pos _)).trans h.le_val

/-- A number that does not fit into fewer words has all its digits. -/
theorem bnDigits_eq (hpos : 0 < a.dmax) (h : radix ^ (a.dmax - 1) ≤ a.val) :
    bnDigits a = a.dmax := by
  have hle := bnDigits_le hpos
  have hlt := value_lt a.d 0 (bnDigits a)
  rw [value_bnDigits hpos] at hlt
  have hpow := (Nat.pow_lt_pow_iff_right (by decide : 1 < radix)).mp (h.trans_lt hlt)
  omega

end LiteBignum

section Key

variable {N d p q phi quotient : LiteBignum} {e : UInt32} {fuel : Nat}

/-- A product of two numbers with the top bit set has all its digits. -/
theorem bnDigits_product (hp : p.TopBitSet) (hq : q.TopBitSet) (hmax : N.dmax = p.dmax + q.dmax)
    (hval : N.val = p.val * q.val) : bnDigits N = p.dmax + q.dmax := by
  have hposP := hp.1
  have hposQ := hq.1
  rw [← hmax]
  refine LiteBignum.bnDigits_eq (by omega) ?_
  rw [hval]
  calc radix ^ (N.dmax - 1) = radix * radix ^ (p.dmax - 1 + (q.dmax - 1)) := by
        rw [← Nat.pow_succ', hmax]
        congr 1
        omega
    _ ≤ 2 ^ 31 * 2 ^ 31 * radix ^ (p.dmax - 1 + (q.dmax - 1)) :=
        Nat.mul_le_mul_right _ (by decide)
    _ = 2 ^ 31 * radix ^ (p.dmax - 1) * (2 ^ 31 * radix ^ (q.dmax - 1)) := by
        rw [Nat.pow_add]
        ring
    _ ≤ p.val * q.val := Nat.mul_le_mul hp.le_val hq.le_val

/-- `DCRYPTO_bn_div` finds the other factor. -/
theorem bnDiv_multiple (mem : Words) (hp : p.TopBitSet) (hq : q.TopBitSet) (hpq : p.dmax = q.dmax)
    (hmax : N.dmax = p.dmax + q.dmax) (hval : N.val = p.val * q.val)
    (hquotient : quotient.dmax = p.dmax) (hharm : QuotientHarmless p.dmax (p.val * q.val) p.val) :
    ∃ q', bnDiv mem quotient none N p = some (q', none) ∧ q'.dmax = p.dmax ∧ q'.val = q.val := by
  have hdigits : bnDigits p = p.dmax := LiteBignum.bnDigits_eq hp.1
    ((Nat.le_mul_of_pos_left _ (by decide)).trans hp.le_val)
  have hdigitsN : bnDigits N = 2 * p.dmax := by
    rw [bnDigits_product hp hq hmax hval, ← hpq, Nat.two_mul]
  have hlt : q.val < radix ^ p.dmax := hpq ▸ q.val_lt
  have hwords : value N.d 0 (2 * p.dmax) = p.val * q.val := by
    rw [← hdigitsN, value_bnDigits (by rw [hmax]; exact Nat.add_pos_left hp.1 _), hval]
  rw [← hwords] at hharm
  obtain ⟨q', r', hrun, hquot⟩ :=
    bnDivEx_multiple mem quotient.d none hp.1 hp.2 hwords hharm
  unfold bnDiv
  dsimp only
  rw [hdigitsN, hdigits, if_neg (by omega), Option.map_none, hrun]
  refine ⟨_, rfl, hquotient, ?_⟩
  -- the word above the quotient is clear, and outside of the buffer's length
  have hlow := value_mod q' 0 p.dmax 1
  rw [hquot, Nat.mod_eq_of_lt hlt] at hlow
  rw [hlow, LiteBignum.val]
  dsimp only
  rw [hquotient]
  refine value_congr fun i hi => if_neg ?_
  omega

/-- The copy of a number -/
theorem bnWrap_memcpy (mem : Words) (N : LiteBignum) :
    (bnWrap (memcpyWords mem N.d (bnSize N)) (bnSize N)).dmax = N.dmax ∧
      (bnWrap (memcpyWords mem N.d (bnSize N)) (bnSize N)).val = N.val := by
  have hmax : bnSize N / liteBnBytes = N.dmax := Nat.mul_div_cancel _ (by decide)
  refine ⟨hmax, ?_⟩
  rw [LiteBignum.val, LiteBignum.val, bnWrap]
  dsimp only
  rw [hmax]
  refine value_congr fun i hi => if_pos ?_
  rw [hmax, Nat.zero_add]
  exact hi

theorem dmax_bnDiv {mem : Words} {src divisor : LiteBignum} {rem : Option LiteBignum}
    {result : LiteBignum × Option LiteBignum}
    (h : bnDiv mem quotient rem src divisor = some result) : result.1.dmax = quotient.dmax := by
  rw [bnDiv] at h
  dsimp only at h
  split at h
  · exact absurd h (by simp)
  · split at h
    · exact absurd h (by simp)
    · obtain rfl := Option.some.inj h
      rfl

/-! ## The key -/

/-- `d` is the inverse of `e`, reduced. -/
def IsExponent (d e phi : Nat) : Prop := 0 < d ∧ d < phi ∧ d * e % phi = 1

theorem IsExponent.unique {d d' e phi : Nat} (hcop : Nat.gcd e phi = 1) (h : IsExponent d e phi)
    (h' : IsExponent d' e phi) : d = d' := by
  have hmod : d * e ≡ d' * e [MOD phi] := h.2.2.trans h'.2.2.symm
  refine Nat.ModEq.eq_of_lt_of_lt (Nat.ModEq.cancel_right_of_coprime ?_ hmod) h.2.1 h'.2.1
  rwa [Nat.gcd_comm]

/-- The subtractions leave `(p - 1) (q - 1)`. -/
theorem val_finishKey_phi (hp : 1 < p.val) (hq : 1 < q.val) (hpmax : p.dmax ≤ phi.dmax)
    (hqmax : q.dmax ≤ phi.dmax) (hval : phi.val = p.val * q.val) :
    (bnAdd (bnSub (bnSub phi p).1 q).1 (bnWrap (fun _ => 1) 4)).1.val =
      (p.val - 1) * (q.val - 1) := by
  have hone : (bnWrap (fun _ => 1) 4).val = 1 := value_one ..
  have hprod : phi.val + 1 = (p.val - 1) * (q.val - 1) + p.val + q.val := by
    obtain ⟨a, ha⟩ := Nat.exists_eq_add_of_lt hp
    obtain ⟨b, hb⟩ := Nat.exists_eq_add_of_lt hq
    rw [hval, ha, hb, Nat.add_sub_cancel, Nat.add_sub_cancel]
    ring
  have hpos : 0 < (p.val - 1) * (q.val - 1) := Nat.mul_pos (by omega) (by omega)
  have hsubP := val_bnSub_of_le (c := phi) (a := p) hpmax (by omega)
  have hsubQ := val_bnSub_of_le (c := (bnSub phi p).1) (a := q) hqmax (by omega)
  have hphi := phi.val_lt
  have hfits : (bnSub (bnSub phi p).1 q).1.val + (bnWrap (fun _ => 1) 4).val <
      radix ^ (bnSub (bnSub phi p).1 q).1.dmax := by
    rw [hone, dmax_bnSub, dmax_bnSub]
    omega
  have hmax : (bnWrap (fun _ => 1) 4).dmax ≤ (bnSub (bnSub phi p).1 q).1.dmax :=
    dmax_pos (a := phi) (by omega)
  rw [val_bnAdd_of_lt hmax hfits, hone]
  omega

/-- The end of both ways: the inverse of `e`. -/
theorem finishKey_spec (mem : Words) (N : LiteBignum) (hp : 2 ^ 31 ≤ p.val) (hq : 2 ^ 31 ≤ q.val)
    (hpmax : p.dmax ≤ phi.dmax) (hqmax : q.dmax ≤ phi.dmax) (hval : phi.val = p.val * q.val)
    (hd : phi.dmax ≤ d.dmax) (hcop : Nat.gcd e.toNat ((p.val - 1) * (q.val - 1)) = 1)
    (hfuel : e.toNat < fuel) :
    ∃ d', finishKey mem fuel N d p q phi e = some ⟨true, N, d'⟩ ∧
      IsExponent d'.val e.toNat ((p.val - 1) * (q.val - 1)) := by
  have hphi := val_finishKey_phi (by omega) (by omega) hpmax hqmax hval
  have he : (bnWrap (fun _ => e) 4).val = e.toNat := value_one ..
  have hbig : e.toNat < (p.val - 1) * (q.val - 1) := by
    calc e.toNat < 2 ^ 32 := e.toNat_lt
      _ ≤ (2 ^ 31 - 1) * (2 ^ 31 - 1) := by decide
      _ ≤ (p.val - 1) * (q.val - 1) := Nat.mul_le_mul (by omega) (by omega)
  have hpos : 0 < e.toNat := by
    by_contra hzero
    rw [Nat.eq_zero_of_not_pos hzero, Nat.gcd_zero_left] at hcop
    have hmul := Nat.mul_le_mul (show 2 ≤ p.val - 1 by omega) (show 2 ≤ q.val - 1 by omega)
    omega
  rw [← hphi] at hbig hcop ⊢
  rw [← he] at hpos hbig hcop hfuel ⊢
  obtain ⟨d', hrun, hinverse⟩ := bnModinvVartime_of_coprime mem (by lia) hpos hbig hd
    (euclidHarmless_of_lt (by rw [he]; exact e.toNat_lt)) hfuel hcop
  refine ⟨d', ?_, hinverse⟩
  rw [finishKey]
  dsimp only
  rw [hrun]
  rfl

/-- With `p` and `q` the result is their product and the exponent. -/
theorem rsaKeyCompute_of_factors (mem : Words) (hp : p.TopBitSet) (hq : q.TopBitSet)
    (hN : N.dmax = p.dmax + q.dmax) (hd : N.dmax ≤ d.dmax)
    (hcop : Nat.gcd e.toNat ((p.val - 1) * (q.val - 1)) = 1) (hfuel : e.toNat < fuel) :
    ∃ key, rsaKeyCompute mem fuel N d p (some q) e = some key ∧ key.ok = true ∧
      key.N.val = p.val * q.val ∧ IsExponent key.d.val e.toNat ((p.val - 1) * (q.val - 1)) := by
  have hprod := val_bnMul (c := N) (a := p) hq.1 hN
  obtain ⟨hphi, hval⟩ := bnWrap_memcpy mem (bnMul N p q)
  rw [hprod] at hval
  have hmax := hphi.trans (dmax_bnMulEx N p p.dmax q)
  obtain ⟨d', hrun, hexp⟩ := finishKey_spec mem (bnMul N p q) hp.two_pow_le hq.two_pow_le
    (by lia) (by lia) hval (hmax.trans_le hd) hcop hfuel
  exact ⟨⟨true, bnMul N p q, d'⟩, hrun, rfl, hprod, hexp⟩

/-- Without `q` an `N` that `p` does not divide is refused. -/
theorem rsaKeyCompute_of_not_dvd (mem : Words) (fuel : Nat) (d : LiteBignum) (e : UInt32)
    (hp : p.TopBitSet) (hN : N.dmax = p.dmax + p.dmax) (hdvd : ¬ p.val ∣ N.val) :
    rsaKeyCompute mem fuel N d p none e = some ⟨false, N, d⟩ := by
  obtain ⟨hinit, -⟩ := bnInit_words mem p.dmax
  rw [rsaKeyCompute]
  dsimp only
  cases hrun : bnDiv mem (bnInit mem (bnSize p)) none
      (bnWrap (memcpyWords mem N.d (bnSize N)) (bnSize N)) p with
  | none => rfl
  | some result =>
      have hmax : result.1.dmax = p.dmax := (dmax_bnDiv hrun).trans hinit
      have hprod := val_bnMul (c := bnWrap (memcpyWords mem N.d (bnSize N)) (bnSize N)) (a := p)
        (b := result.1) (by rw [hmax]; exact hp.1)
        (by rw [(bnWrap_memcpy mem N).1, hmax]; exact hN)
      refine if_neg fun heq => hdvd ?_
      rw [bnEq_iff.mp heq, hprod]
      exact dvd_mul_right ..

/-- Without `q` the result is the exponent, if the other factor comes out. -/
theorem rsaKeyCompute_of_product (mem : Words) (hp : p.TopBitSet) (hq : q.TopBitSet)
    (hpq : p.dmax = q.dmax) (hN : N.dmax = p.dmax + q.dmax) (hd : N.dmax ≤ d.dmax)
    (hval : N.val = p.val * q.val)
    (hcop : Nat.gcd e.toNat ((p.val - 1) * (q.val - 1)) = 1) (hfuel : e.toNat < fuel)
    (hharm : QuotientHarmless p.dmax (p.val * q.val) p.val) :
    ∃ key, rsaKeyCompute mem fuel N d p none e = some key ∧ key.ok = true ∧
      IsExponent key.d.val e.toNat ((p.val - 1) * (q.val - 1)) := by
  have hinit : (bnInit mem (bnSize p)).dmax = p.dmax := (bnInit_words mem p.dmax).1
  obtain ⟨hcopyMax, hcopy⟩ := bnWrap_memcpy mem N
  rw [rsaKeyCompute]
  dsimp only
  set copy := bnWrap (memcpyWords mem N.d (bnSize N)) (bnSize N)
  obtain ⟨q', hdiv, hmax, hquot⟩ := bnDiv_multiple mem hp hq hpq (hcopyMax.trans hN)
    (hcopy.trans hval) hinit hharm
  have hprodMax : (bnMul copy p q').dmax = N.dmax := hcopyMax
  have hprod := val_bnMul (c := copy) (a := p) (b := q') (by rw [hmax]; exact hp.1) (by lia)
  rw [hquot] at hprod
  have hsame := bnEq_iff.mpr (hval.trans hprod.symm)
  obtain ⟨d', hrun, hexp⟩ := finishKey_spec mem N hp.two_pow_le (hquot.symm ▸ hq.two_pow_le)
    (by lia) (by lia) (by rw [hprod, hquot]) (hprodMax.trans_le hd) (hquot.symm ▸ hcop) hfuel
  refine ⟨⟨true, N, d'⟩, ?_, rfl, hquot ▸ hexp⟩
  rw [hdiv]
  exact (if_pos hsame).trans hrun

end Key

/-- The two ways agree.  There is one reduced inverse `D` of `e`, and with buffers that the caller
makes as long as they have to be, the results are `p * q` and `D` when `p` and `q` are given, and
`D` when `p` and their product are.  An `N` that `p` does not divide is refused. -/
def KeysAgree (p q : LiteBignum) (e : UInt32) : Prop :=
  ∃ D, IsExponent D e.toNat ((p.val - 1) * (q.val - 1)) ∧
    ∀ (mem : Words) (fuel : Nat) (N d : LiteBignum), e.toNat < fuel →
      N.dmax = p.dmax + q.dmax → N.dmax ≤ d.dmax →
      (∃ key, rsaKeyCompute mem fuel N d p (some q) e = some key ∧ key.ok = true ∧
        key.N.val = p.val * q.val ∧ key.d.val = D) ∧
      (N.val = p.val * q.val → ∃ key, rsaKeyCompute mem fuel N d p none e = some key ∧
        key.ok = true ∧ key.d.val = D) ∧
      (¬ p.val ∣ N.val → ∃ key, rsaKeyCompute mem fuel N d p none e = some key ∧ key.ok = false)

/-- **The two ways to compute a key** agree, when the two top digits of the quotient leave no more
too much than the divisor has room for. -/
theorem keysAgree_of_quotientHarmless {p q : LiteBignum} {e : UInt32} (hpq : p.dmax = q.dmax)
    (hp : p.TopBitSet) (hq : q.TopBitSet)
    (hcop : Nat.gcd e.toNat ((p.val - 1) * (q.val - 1)) = 1)
    (hharm : QuotientHarmless p.dmax (p.val * q.val) p.val) : KeysAgree p q e := by
  -- the exponent is that of one of the computations
  obtain ⟨key, -, -, -, hexp⟩ := rsaKeyCompute_of_factors (N := ⟨p.dmax + q.dmax, p.d⟩)
    (d := ⟨p.dmax + q.dmax, p.d⟩) (fun _ => 0) hp hq rfl le_rfl hcop (Nat.lt_succ_self e.toNat)
  refine ⟨key.d.val, hexp, fun mem fuel N d hfuel hN hd => ⟨?_, fun hval => ?_, fun hdvd => ?_⟩⟩
  · obtain ⟨key', hrun, hok, hprod, hexp'⟩ := rsaKeyCompute_of_factors mem hp hq hN hd hcop hfuel
    exact ⟨key', hrun, hok, hprod, hexp'.unique hcop hexp⟩
  · obtain ⟨key', hrun, hok, hexp'⟩ :=
      rsaKeyCompute_of_product mem hp hq hpq hN hd hval hcop hfuel hharm
    exact ⟨key', hrun, hok, hexp'.unique hcop hexp⟩
  · exact ⟨_, rsaKeyCompute_of_not_dvd mem fuel d e hp (hpq ▸ hN) hdvd, rfl⟩

/-- Factors of three words.  The second digit of the quotient adds back, but what it leaves too
much is less than the divisor. -/
theorem keysAgree_of_quotientHarmless_three :
    KeysAgree ⟨3, ofList [0x7FFFFFFF, 3, 0x80000002]⟩
      ⟨3, ofList [0xFFFFFFFE, 0xFFFFFFFF, 0x80000002]⟩ 65537 := by
  refine keysAgree_of_quotientHarmless ?_ ?_ ?_ ?_ ?_ <;> decide +kernel

/-- `p = 0x80000000ffffffff` and `q = 0xfffffffe80000000`: the carry of the second digit makes the
quotient one larger, and their product is refused. -/
theorem not_keysAgree_addsBack :
    ¬ ∀ (p q : LiteBignum) (e : UInt32), p.dmax = q.dmax → p.dmax ≤ 32 → p.TopBitSet →
      q.TopBitSet → Nat.gcd e.toNat ((p.val - 1) * (q.val - 1)) = 1 → KeysAgree p q e := by
  intro h
  obtain ⟨D, -, hkeys⟩ := h ⟨2, ofList [0xFFFFFFFF, 0x80000000]⟩
    ⟨2, ofList [0x80000000, 0xFFFFFFFE]⟩ 65537 rfl (by decide) (by decide) (by decide)
    (by decide +kernel)
  obtain ⟨-, hproduct, -⟩ := hkeys (ofList []) 65538
    ⟨4, ofList [0x80000000, 0x80000001, 0x3FFFFFFD, 0x80000000]⟩ ⟨4, ofList []⟩ (by decide) rfl
    (by decide)
  obtain ⟨key, hrun, hok, -⟩ := hproduct (by decide +kernel)
  have hfails : (rsaKeyCompute (ofList []) 65538
      ⟨4, ofList [0x80000000, 0x80000001, 0x3FFFFFFD, 0x80000000]⟩ ⟨4, ofList []⟩
      ⟨2, ofList [0xFFFFFFFF, 0x80000000]⟩ none 65537).map KeyResult.ok = some false := by
    decide +kernel
  rw [hrun, Option.map_some, hok] at hfails
  exact absurd hfails (by decide)

end Dcrypto
end CrosEc
