import CrosEc.Dcrypto.DivisionCarry

/-!
# When long division is right

The quotient and the remainder of `bn_div_ex` and of `DCRYPTO_bn_div` are right when no carry does
harm.  A quotient that is not longer than the divisor is right in no other case.  In a longer one
what is too much can leave the window at its top.
-/

namespace CrosEc
namespace Dcrypto

open Lib Words

section Division

variable {mem q u v : Words} {m n : Nat}

/-! ## `bn_div_ex` -/

/-- `bn_div_ex` divides: the result is 1, and `q` and `r` hold quotient and remainder. -/
def Divides (mem q r u : Words) (m : Nat) (v : Words) (n : Nat) : Prop :=
  ∃ q' r' : Words, bnDivEx mem q (some r) u m v n = some (q', some r') ∧
    value u 0 m = value q' 0 (m - n + 1) * value v 0 n + value r' 0 n ∧
    value r' 0 n < value v 0 n

/-- Quotient and remainder are what they have to be. -/
theorem divides_iff {r : Words} (hpos : 0 < value v 0 n) :
    Divides mem q r u m v n ↔
      ∃ q' r' : Words, bnDivEx mem q (some r) u m v n = some (q', some r') ∧
        value q' 0 (m - n + 1) = value u 0 m / value v 0 n ∧
        value r' 0 n = value u 0 m % value v 0 n := by
  constructor
  · rintro ⟨q', r', heq, hsum, hlt⟩
    have hsum' : value r' 0 n + value v 0 n * value q' 0 (m - n + 1) = value u 0 m := by
      rw [hsum]
      ring
    obtain ⟨hdiv, hmod⟩ := (Nat.div_mod_unique hpos).mpr ⟨hsum', hlt⟩
    exact ⟨q', r', heq, hdiv.symm, hmod.symm⟩
  · rintro ⟨q', r', heq, hdiv, hmod⟩
    refine ⟨q', r', heq, ?_, ?_⟩
    · rw [hdiv, hmod, Nat.mul_comm]
      exact (Nat.div_add_mod ..).symm
    · rw [hmod]
      exact Nat.mod_lt _ hpos

theorem value_pos_of_top (hn : 0 < n) (htop : v (n - 1) ≠ 0) : 0 < value v 0 n := by
  obtain ⟨k, rfl⟩ := Nat.exists_eq_succ_of_ne_zero hn.ne'
  exact (radix_pow_pos k).trans_le (value_le_of_top htop)

/-- The shift is that of the number. -/
theorem wordAt_top (v : Words) (hn : 0 < n) : wordAt (value v 0 n) (n - 1) = v (n - 1) := by
  rw [wordAt_value (by omega), Nat.zero_add]

/-- One word divides exactly. -/
theorem divides_word (mem q r u : Words) (hm : 1 ≤ m) (htop : v 0 ≠ 0) :
    Divides mem q r u m v 1 := by
  have hpos : 0 < v 0 := UInt32.lt_iff_toNat_lt.mpr (toNat_pos_of_ne_zero htop)
  obtain ⟨rem, hrem, hval⟩ := bnDivWordEx_remainder q r u m hpos
  rw [divides_iff (by rw [value_one]; exact toNat_pos_of_ne_zero htop)]
  refine ⟨(bnDivWordEx q (some r) u m (v 0)).1, Function.update r 0 rem, ?_, ?_, ?_⟩
  · rw [bnDivEx, if_neg (by omega)]
    dsimp only
    rw [if_neg htop, if_pos rfl, ← hrem]
  · rw [Nat.sub_add_cancel hm, value_one]
    exact bnDivWordEx_quotient q (some r) u m hpos
  · rw [value_one, value_one, Function.update_self]
    exact hval

/-- The last round leaves its carry above the bits that are shifted out, or among them. -/
theorem add_carry_div_eq_iff {R V s c N : Nat} (hR : R < V) (hV : V * 2 ^ s < N) (hc : c < N) :
    (R * 2 ^ s + c) % N / 2 ^ s = R ↔ c < 2 ^ s := by
  have hpos : 0 < 2 ^ s := by positivity
  have hfits : R * 2 ^ s + 2 ^ s ≤ V * 2 ^ s := by
    rw [← Nat.succ_mul]
    exact Nat.mul_le_mul_right _ hR
  constructor
  · intro h
    obtain ⟨hlow, hhigh⟩ := (Nat.div_eq_iff hpos).mp h
    by_contra hge
    rcases Nat.lt_or_ge (R * 2 ^ s + c) N with hlt | hwrap
    · rw [Nat.mod_eq_of_lt hlt] at hhigh
      lia
    · rw [Nat.mod_eq_sub_mod hwrap, Nat.mod_eq_of_lt (by lia)] at hlow
      lia
  · intro h
    rw [Nat.mod_eq_of_lt (by lia), Nat.mul_comm, Nat.mul_add_div hpos, Nat.div_eq_of_lt h,
      Nat.add_zero]

/-- What one round leaves too much has a bound. -/
theorem backCarry_le {U V : Nat} (j : Nat) (hV : 0 < V) (hlt : V < radix ^ n) :
    backCarry n U V j ≤ radix := by
  have hmod : U / radix ^ (j + 1) % V + 1 ≤ V := Nat.mod_lt _ hV
  have hword : U / radix ^ j % radix < radix := Nat.mod_lt _ radix_pos
  have hwindow : window U V j < radix ^ n * radix := by
    calc window U V j < U / radix ^ (j + 1) % V * radix + radix := Nat.add_lt_add_left hword _
      _ = (U / radix ^ (j + 1) % V + 1) * radix := (Nat.succ_mul ..).symm
      _ ≤ radix ^ n * radix := Nat.mul_le_mul_right _ (hmod.trans hlt.le)
  exact Nat.div_lt_of_lt_mul hwindow

/-- **Division without a carry that does harm** -/
theorem divides_of_carryHarmless (mem q r u : Words) (hn : 0 < n) (hmn : n ≤ m)
    (htop : v (n - 1) ≠ 0) (h : CarryHarmless m n (value u 0 m) (value v 0 n)) :
    Divides mem q r u m v n := by
  rcases Nat.lt_or_ge n 2 with hone | htwo
  · obtain rfl : n = 1 := by omega
    exact divides_word mem q r u hmn htop
  have hpos := value_pos_of_top hn htop
  rw [CarryHarmless, wordAt_top v hn] at h
  obtain ⟨hs, hV, -⟩ := shift_spec mem hn htop
  have hfits := value_lt (normalizeV mem v n (shiftFactor 32 (v (n - 1)))) 0 n
  rw [hV] at hfits
  have hharmless := h.resolve_left (by omega)
  rw [divides_iff hpos]
  obtain ⟨q', r', heq, ⟨-, hquot, hrem⟩ | ⟨hadds, -, hquot, hrem⟩ | ⟨⟨j, hlow, hj, hadds⟩, -⟩⟩ :=
    bnDivEx_cases mem q r u htwo hmn htop
  · exact ⟨q', r', heq, hquot, hrem⟩
  · obtain ⟨-, hcarry⟩ := hharmless 0 (Nat.zero_le _) hadds
    refine ⟨q', r', heq, hquot, hrem.trans ?_⟩
    rw [add_carry_div_eq_iff (Nat.mod_lt _ hpos) hfits]
    · exact hcarry
    · calc backCarry n _ _ 0 < 2 ^ (shiftFactor 32 (v (n - 1))).toNat := hcarry
        _ ≤ value v 0 n * 2 ^ (shiftFactor 32 (v (n - 1))).toNat := Nat.le_mul_of_pos_left _ hpos
        _ < radix ^ n := hfits
  · exact absurd (hharmless j hj hadds).1 (by omega)

/-- A quotient that is not longer than the divisor is right without such a carry only. -/
theorem carryHarmless_of_divides {r : Words} (hn : 0 < n) (hmn : n ≤ m) (htop : v (n - 1) ≠ 0)
    (hlen : m < 2 * n) (h : Divides mem q r u m v n) :
    CarryHarmless m n (value u 0 m) (value v 0 n) := by
  rw [CarryHarmless, wordAt_top v hn]
  rcases Nat.lt_or_ge n 2 with hone | htwo
  · exact Or.inl (by lia)
  refine Or.inr ?_
  have hpos := value_pos_of_top hn htop
  obtain ⟨hs, hV, -⟩ := shift_spec mem hn htop
  have hfits := value_lt (normalizeV mem v n (shiftFactor 32 (v (n - 1)))) 0 n
  rw [hV] at hfits
  have hshift : 2 ^ (shiftFactor 32 (v (n - 1))).toNat < radix :=
    Nat.pow_lt_pow_right (by decide) hs
  have hradix : radix < radix ^ n := lt_self_pow₀ (by decide) htwo
  rw [divides_iff hpos] at h
  obtain ⟨q₁, r₁, heq₁, hquot₁, hrem₁⟩ := h
  obtain ⟨q', r', heq, hcases⟩ := bnDivEx_cases mem q r u htwo hmn htop
  obtain ⟨rfl, rfl⟩ : q' = q₁ ∧ r' = r₁ := by
    rw [heq, Option.some.injEq, Prod.mk.injEq, Option.some.injEq] at heq₁
    exact heq₁
  rcases hcases with ⟨hnone, -⟩ | ⟨hadds, hnone, -, hrem⟩ | ⟨-, un, E, hlow, hhigh, hrem, hmod⟩
  · exact fun j hj hadds => absurd hadds (hnone j hj)
  · have hcarry := (add_carry_div_eq_iff (Nat.mod_lt _ hpos) hfits
      ((backCarry_le 0 (Nat.mul_pos hpos (by positivity)) hfits).trans_lt hradix)).mp
        (hrem.symm.trans hrem₁)
    intro j hj hadds'
    rcases Nat.eq_zero_or_pos j with rfl | hj'
    · exact ⟨rfl, hcarry⟩
    · exact absurd hadds' (hnone j hj' hj)
  · -- what is too much is a whole word, and the bits that are shifted out do not hold it
    rw [hrem₁] at hrem
    set R := value u 0 m % value v 0 n
    set s := (shiftFactor 32 (v (n - 1))).toNat
    have hsplit : un = R * 2 ^ s + un % 2 ^ s := by
      rw [hrem, Nat.mul_comm]
      exact (Nat.div_add_mod ..).symm
    have hlost : un % 2 ^ s < 2 ^ s := Nat.mod_lt _ (by positivity)
    have hparts : (value u 0 m : Int) = R + value u 0 m / value v 0 n * value v 0 n := by
      exact_mod_cast (Nat.mod_add_div' ..).symm
    have hmod' : (un % 2 ^ s : Nat) ≡ (E : Int) [ZMOD (radix : Int) ^ n] := by
      have hun : ((un % 2 ^ s : Nat) : Int) = un - R * 2 ^ s := by
        rw [eq_sub_iff_add_eq, Int.add_comm]
        exact_mod_cast hsplit.symm
      rw [hquot₁] at hmod
      calc ((un % 2 ^ s : Nat) : Int) = un - R * 2 ^ s := hun
        _ ≡ _ - R * 2 ^ s [ZMOD (radix : Int) ^ n] := hmod.sub_right _
        _ = E := by
            push_cast
            linear_combination (2 : Int) ^ s * hparts
    have hE : E < radix ^ n :=
      hhigh.trans_le (Nat.pow_le_pow_right radix_pos (by lia))
    have heqE : un % 2 ^ s = E := by
      have hnat : un % 2 ^ s ≡ E [MOD radix ^ n] := by
        rw [← Int.natCast_modEq_iff, Nat.cast_pow]
        exact hmod'
      exact Nat.ModEq.eq_of_lt_of_lt hnat (by lia) hE
    lia

/-! ## `DCRYPTO_bn_div` -/

/-- `DCRYPTO_bn_div` divides: it returns 1, and the results are quotient and remainder. -/
def BnDivides (mem : Words) (quotient remainder src divisor : LiteBignum) : Prop :=
  ∃ q r : LiteBignum, bnDiv mem quotient (some remainder) src divisor = some (q, some r) ∧
    q.val = src.val / divisor.val ∧ r.val = src.val % divisor.val

theorem bnDivides_iff {quotient remainder src divisor : LiteBignum} (hsrc : 0 < src.dmax)
    (hdiv : divisor.val ≠ 0) (hlen : bnDigits divisor ≤ bnDigits src)
    (hq : bnDigits src - bnDigits divisor + 1 ≤ quotient.dmax)
    (hr : bnDigits divisor ≤ remainder.dmax) :
    BnDivides mem quotient remainder src divisor ↔
      Divides mem quotient.d remainder.d src.d (bnDigits src) divisor.d (bnDigits divisor) := by
  have hval := value_bnDigits (dmax_pos hdiv)
  have hpos : 0 < value divisor.d 0 (bnDigits divisor) := by omega
  -- the words above the digits are set to zero
  have hpad (d : Words) {len dmax : Nat} (hle : len ≤ dmax) :
      value (fun i => if len ≤ i ∧ i < dmax then 0 else d i) 0 dmax = value d 0 len := by
    rw [value_of_clear hle fun i hlow hi => ?_]
    · refine value_congr fun i hi => if_neg ?_
      omega
    · rw [Nat.zero_add, if_pos ⟨hlow, hi⟩]
  rw [divides_iff hpos, hval, value_bnDigits hsrc, BnDivides]
  unfold bnDiv
  dsimp only [Option.map_some]
  rw [if_neg (not_lt.mpr hlen)]
  constructor
  · rintro ⟨q, r, heq, hquot, hrem⟩
    cases hrun : bnDivEx mem quotient.d (some remainder.d) src.d (bnDigits src) divisor.d
        (bnDigits divisor) with
    | none =>
        rw [hrun] at heq
        exact absurd heq (by simp)
    | some s =>
        obtain ⟨q', r'⟩ := s
        rw [hrun] at heq
        cases r' with
        | none => exact absurd heq (by simp)
        | some r' =>
            simp only [Option.bind_some, Option.map_some, Option.some.injEq, Prod.mk.injEq] at heq
            obtain ⟨rfl, rfl⟩ := heq
            exact ⟨q', r', rfl, (hpad q' hq).symm.trans hquot, (hpad r' hr).symm.trans hrem⟩
  · rintro ⟨q', r', heq, hquot, hrem⟩
    rw [heq]
    exact ⟨_, _, rfl, (hpad q' hq).trans hquot, (hpad r' hr).trans hrem⟩

end Division

/-- **Long division.**  Where no carry does harm `bn_div_ex` and `DCRYPTO_bn_div` divide, and a
dividend of fewer than twice the digits of the divisor is divided in no other case.  What the
buffers hold before does not matter, and `r` may be the buffer of `u`. -/
theorem divides_iff_carryHarmless (mem : Words) :
    (∀ (q r u v : Words) (m n : Nat), 0 < n → n ≤ m → v (n - 1) ≠ 0 →
      (CarryHarmless m n (value u 0 m) (value v 0 n) → Divides mem q r u m v n) ∧
        (m < 2 * n → Divides mem q r u m v n →
          CarryHarmless m n (value u 0 m) (value v 0 n))) ∧
      ∀ quotient remainder src divisor : LiteBignum,
        0 < src.dmax → divisor.val ≠ 0 → bnDigits divisor ≤ bnDigits src →
        bnDigits src - bnDigits divisor + 1 ≤ quotient.dmax →
        bnDigits divisor ≤ remainder.dmax →
        (CarryHarmless (bnDigits src) (bnDigits divisor) src.val divisor.val →
            BnDivides mem quotient remainder src divisor) ∧
          (bnDigits src < 2 * bnDigits divisor → BnDivides mem quotient remainder src divisor →
            CarryHarmless (bnDigits src) (bnDigits divisor) src.val divisor.val) := by
  refine ⟨fun q r u v m n hn hmn htop => ⟨divides_of_carryHarmless mem q r u hn hmn htop,
    fun hlen => carryHarmless_of_divides hn hmn htop hlen⟩, ?_⟩
  intro quotient remainder src divisor hsrc hdiv hlen hq hr
  have hmax := dmax_pos hdiv
  have hn := bnDigits_pos divisor
  have htop := bnDigits_top hdiv
  rw [bnDivides_iff hsrc hdiv hlen hq hr, ← value_bnDigits hsrc, ← value_bnDigits hmax]
  exact ⟨divides_of_carryHarmless _ _ _ _ hn hlen htop,
    fun hlen' => carryHarmless_of_divides hn hlen htop hlen'⟩

/-- A division without a carry, and one by the same divisor where the carry does harm. -/
theorem divides_iff_carryHarmless_three :
    Divides (ofList []) (ofList []) (ofList [0, 0, 0x80000001]) (ofList [0, 0, 0x80000001]) 3
        (ofList [1, 0, 0x80000000]) 3 ∧
      ¬ Divides (ofList []) (ofList []) (ofList [0, 0, 0x80000000]) (ofList [0, 0, 0x80000000]) 3
        (ofList [1, 0, 0x80000000]) 3 := by
  refine ⟨?_, fun h => ?_⟩
  · exact ((divides_iff_carryHarmless _).1 _ _ _ _ 3 3 (by decide) le_rfl (by decide)).1
      (by decide +kernel)
  · have hcarry := ((divides_iff_carryHarmless _).1 _ _ _ _ 3 3 (by decide) le_rfl (by decide)).2
      (by decide) h
    exact absurd hcarry (by decide +kernel)

/-- `2^95` divided by `2^95 + 1`: the remainder is the divisor. -/
theorem not_divides_addsBack :
    ¬ ∀ (mem q r u v : Words) (m n : Nat), 1 ≤ n → n ≤ m → m ≤ 64 → v (n - 1) ≠ 0 →
      Divides mem q r u m v n := by
  intro h
  have hdivides := h (ofList []) (ofList []) (ofList []) (ofList [0, 0, 0x80000000])
    (ofList [1, 0, 0x80000000]) 3 3 (by decide) le_rfl (by decide) (by decide)
  exact absurd (carryHarmless_of_divides (by decide) le_rfl (by decide) (by decide) hdivides)
    (by decide +kernel)

end Dcrypto
end CrosEc
