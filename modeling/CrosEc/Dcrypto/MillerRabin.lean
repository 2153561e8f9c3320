import CrosEc.Dcrypto.Modexp
import CrosEc.Dcrypto.ModexpExact
import CrosEc.Dcrypto.Normalize
import CrosEc.Lib.StrongProbablePrime

/-!
# `chip/g/dcrypto/bn.c`: the test of Miller and Rabin

`bn_probable_prime` takes `bn_modexp` and `bn_modexp_word` as they are: the chip computes them in
hardware for most sizes.  The random numbers are what `rand_bytes` fills a base with in each round,
and the words that `rand` returns for each digit that has to be drawn again.
-/

namespace CrosEc
namespace Dcrypto

open Lib Words

/-- `RSA_MAX_BYTES` -/
def rsaMaxBytes : Nat := 256

/-- `bn_bits` -/
def bnBits (b : LiteBignum) : Nat := b.dmax * 32

/-- `bn_copy` -/
def bnCopy (dst src : LiteBignum) : LiteBignum :=
  ⟨src.dmax, memcpyWords dst.d src.d (bnSize src)⟩

/-- `bn_rshift`, for a number that has words -/
def bnRshift (r : LiteBignum) (carry neg : UInt32) : LiteBignum :=
  let highbit : UInt32 := if (carry = 0 ∧ neg ≠ 0) ∨ (carry ≠ 0 ∧ neg = 0) then 1 else 0
  let ones := (List.range r.dmax).foldl (fun ones i => ones &&& r.d i) 0xFFFFFFFF
  let d : Words := fun i =>
    if i + 1 < r.dmax then r.d i >>> 1 ||| r.d (i + 1) <<< 31
    else if i + 1 = r.dmax then r.d i >>> 1 ||| highbit <<< 31
    else r.d i
  -- -1 >> 1 = 0.
  if ones = 0xFFFFFFFF ∧ highbit ≠ 0 ∧ neg ≠ 0 then { r with d := memsetZero d (bnSize r) }
  else { r with d }

/-- `bn_is_even` -/
def bnIsEven (b : LiteBignum) : Bool := !bnIsBitSet b 0

/-- `ONE` -/
def bnOne : LiteBignum := bnWrap (fun _ => 1) 4

/-- `rounds` -/
def primeRounds (p : LiteBignum) : Nat :=
  if bnBits p ≥ 1024 then 7 else if bnBits p ≥ 512 then 15 else 22

/-- `while (bn_is_even(&r)) { bn_rshift(&r, 0, 0); s++; }`; `none` if it does not end in time. -/
def oddLoop : Nat → LiteBignum → Nat → Option (LiteBignum × Nat)
  | 0, _, _ => none
  | fuel + 1, r, s => if bnIsEven r then oddLoop fuel (bnRshift r 0 0) (s + 1) else some (r, s)

/-! ## The bases -/

/-- `while (BN_DIGIT(&A, i) > BN_DIGIT(p, i)) BN_DIGIT(&A, i) = rand();`; `none` if the words that
`rand` returns do not end it. -/
def redraw (bound : UInt32) : List UInt32 → UInt32 → Option UInt32
  | [], x => if x > bound then none else some x
  | draw :: rand, x => if x > bound then redraw bound rand draw else some x

/-- The digits of a base below `i`, from the top one down. -/
def pickLoop (p : Words) (rand : Nat → List UInt32) : Nat → Words → Option Words
  | 0, A => some A
  | i + 1, A =>
      (redraw (p i) (rand i) (A i)).bind fun x =>
        let A := Function.update A i x
        if x < p i then some A else pickLoop p rand i A

/-- `pick random A, such that A < p`: `bytes` is what `rand_bytes` fills the number with. -/
def pickBase (p : LiteBignum) (bytes : Words) (rand : Nat → List UInt32) (A : LiteBignum) :
    Option LiteBignum :=
  (pickLoop p.d rand A.dmax bytes).map fun d => { A with d }

/-! ## The test -/

section Test

/- `bn_modexp` and `bn_modexp_word`, with the number that `output` points to -/
variable (modexp : (output input exp N : LiteBignum) → LiteBignum)
  (modexpWord : (output input : LiteBignum) → (exp : UInt32) → (N : LiteBignum) → LiteBignum)

/-- `y = y ^ 2 mod p`, with `A` and `y`; `none` for the result 0. -/
def squareLoop (p : LiteBignum) : Nat → LiteBignum × LiteBignum → Option (LiteBignum × LiteBignum)
  | 0, s => some s
  | n + 1, (A, y) =>
      let A := bnCopy A y
      let y := modexpWord y A 2 p
      if bnEq y bnOne then none
      else
        let y := (bnAdd y bnOne).1
        if bnEq y p then some (A, (bnSub y bnOne).1)
        else squareLoop p n (A, (bnSub y bnOne).1)

/-- A round with the base that is in `A`; `none` for the result 0. -/
def testBase (p r : LiteBignum) (s : Nat) (A y : LiteBignum) : Option (LiteBignum × LiteBignum) :=
  let y := modexp y A r p
  if bnEq y bnOne then some (A, y)
  else
    let y := (bnAdd y bnOne).1
    if bnEq y p then some (A, y)
    else
      let y := (bnSub y bnOne).1
      (squareLoop modexpWord p (s - 1) (A, y)).bind fun (A, y) =>
        let y := (bnAdd y bnOne).1
        if bnEq y p then some (A, y) else none

/-- The rounds from `j` on; `none` if a base is not drawn. -/
def testLoop (bytes : Nat → Words) (rand : Nat → Nat → List UInt32) (p r : LiteBignum) (s : Nat) :
    Nat → Nat → LiteBignum × LiteBignum → Option Bool
  | 0, _, _ => some true
  | n + 1, j, (A, y) =>
      (pickBase p (bytes j) (rand j) A).bind fun A =>
        match testBase modexp modexpWord p r s A y with
        | none => some false
        | some state => testLoop bytes rand p r s n (j + 1) state

/-- `bn_probable_prime`; `none` if it does not end.  `mem` is what the stack holds before. -/
def bnProbablePrime (mem : Words) (bytes : Nat → Words) (rand : Nat → Nat → List UInt32)
    (p : LiteBignum) : Option Bool :=
  -- Failsafe: update rounds table above to support smaller primes.
  if bnBits p < 384 then some false
  else if bnSize p > rsaMaxBytes / 2 then some false
  else
    let r := (bnSub (bnCopy (bnWrap mem (bnSize p)) p) bnOne).1
    (oddLoop (bnBits p) r 0).bind fun (r, s) =>
      testLoop modexp modexpWord bytes rand p r s (primeRounds p) 0
        (bnWrap mem (bnSize p), bnWrap mem (bnSize p))

end Test

end Dcrypto

/-!
## What the test of Miller and Rabin decides

The loop of shifts takes the factors 2 out of `p - 1`.  A round accepts a base exactly when `p` is a
strong probable prime to it: between two squarings `y` is neither 1 nor `p - 1`, as 1 is refused and
`p - 1` accepted at once, and the one that is added for the comparison with `p` is always taken back
before the next squaring.
-/

namespace Dcrypto

open Lib Words

/-! ### The factors 2 -/

theorem bnRshift_spec {r : LiteBignum} (hr : 0 < r.dmax) :
    (bnRshift r 0 0).dmax = r.dmax ∧ (bnRshift r 0 0).val = r.val / 2 := by
  have hshift : bnRshift r 0 0 = { r with d := denormalize r.d r.d r.dmax 1 } := by
    rw [bnRshift, if_neg (by simp), if_neg (by simp)]
    congr 1
    funext i
    have hone : (1 : UInt32) ≠ 0 := by decide
    rw [denormalize, if_pos hone]
    by_cases hi : i + 1 < r.dmax
    · rw [if_pos hi, if_pos hi]
      rfl
    · rw [if_neg hi, if_neg hi]
      by_cases htop : i + 1 = r.dmax
      · rw [if_pos htop, if_pos htop, UInt32.zero_shiftLeft, UInt32.or_zero, ← htop,
          Nat.add_sub_cancel]
      · rw [if_neg htop, if_neg htop]
  rw [hshift]
  exact ⟨rfl, value_denormalize r.d r.d hr (by decide)⟩

theorem bnIsEven_iff {b : LiteBignum} (hb : 0 < b.dmax) : bnIsEven b = true ↔ b.val % 2 = 0 := by
  rw [bnIsEven, bnIsBitSet_eq (by omega), Nat.testBit_zero]
  simp only [Bool.not_eq_true', decide_eq_false_iff_not]
  omega

/-- **The shifts** end, and take the factors 2 out. -/
theorem oddLoop_spec {fuel : Nat} {r : LiteBignum} (hr : 0 < r.dmax) (hpos : 0 < r.val)
    (hlt : r.val < 2 ^ fuel) (s : Nat) :
    ∃ r' k, oddLoop fuel r s = some (r', s + k) ∧ r'.dmax = r.dmax ∧ r.val = 2 ^ k * r'.val ∧
      r'.val % 2 = 1 := by
  induction fuel generalizing r s with
  | zero => lia
  | succ fuel ih =>
      rw [oddLoop]
      by_cases heven : bnIsEven r = true
      · obtain ⟨hdmax, hval⟩ := bnRshift_spec hr
        have hmod := (bnIsEven_iff hr).mp heven
        rw [Nat.pow_succ] at hlt
        obtain ⟨r', k, hrun, hmax, hfactor, hodd⟩ := ih (r := bnRshift r 0 0) (by lia)
          (by lia) (by lia) (s + 1)
        rw [if_pos heven, hrun]
        refine ⟨r', k + 1, ?_, hmax.trans hdmax, ?_, hodd⟩
        · rw [Nat.add_right_comm, Nat.add_assoc]
        · rw [Nat.pow_succ', Nat.mul_assoc, ← hfactor, hval]
          lia
      · rw [if_neg heven]
        refine ⟨r, 0, rfl, rfl, by rw [pow_zero, Nat.one_mul], ?_⟩
        have hmod := (bnIsEven_iff hr).not.mp heven
        lia

/-! ### A round -/

theorem val_bnOne : bnOne.val = 1 := rfl

/-- `bn_modexp` and `bn_modexp_word` compute powers modulo `p`, from numbers of its length. -/
structure ComputesPowers (modexp : (output input exp N : LiteBignum) → LiteBignum)
    (modexpWord : (output input : LiteBignum) → (exp : UInt32) → (N : LiteBignum) → LiteBignum)
    (p : LiteBignum) : Prop where
  modexp : ∀ output input exp : LiteBignum, output.dmax = p.dmax → input.dmax = p.dmax →
    exp.dmax = p.dmax → (modexp output input exp p).dmax = p.dmax ∧
      (modexp output input exp p).val = input.val ^ exp.val % p.val
  modexpWord : ∀ (output input : LiteBignum) (exp : UInt32), output.dmax = p.dmax →
    input.dmax = p.dmax → (modexpWord output input exp p).dmax = p.dmax ∧
      (modexpWord output input exp p).val = input.val ^ exp.toNat % p.val

section Round

variable {modexp : (output input exp N : LiteBignum) → LiteBignum}
  {modexpWord : (output input : LiteBignum) → (exp : UInt32) → (N : LiteBignum) → LiteBignum}
  {p r A y : LiteBignum} {s n : Nat}

/-- The comparison with `p - 1`, and `y` after it. -/
theorem addOne_spec (hp : 0 < p.dmax) (hy : y.dmax = p.dmax) (hlt : y.val < p.val) :
    (bnEq (bnAdd y bnOne).1 p = true ↔ y.val = p.val - 1) ∧
      (bnSub (bnAdd y bnOne).1 bnOne).1.dmax = p.dmax ∧
      (bnSub (bnAdd y bnOne).1 bnOne).1.val = y.val := by
  have hone : bnOne.dmax ≤ y.dmax := by rw [hy]; exact hp
  have hplt := p.val_lt
  have hadd := val_bnAdd_of_lt hone (by rw [val_bnOne, hy]; omega)
  rw [val_bnOne] at hadd
  refine ⟨?_, hy, ?_⟩
  · rw [bnEq_iff, hadd]
    omega
  · have hle : bnOne.val ≤ (bnAdd y bnOne).1.val := by
      rw [hadd, val_bnOne]
      exact Nat.le_add_left ..
    have hsub := val_bnSub_of_le (c := (bnAdd y bnOne).1) hone hle
    rw [hsub, val_bnOne, hadd, Nat.add_sub_cancel]

theorem bnCopy_spec (dst src : LiteBignum) :
    (bnCopy dst src).dmax = src.dmax ∧ (bnCopy dst src).val = src.val := by
  refine ⟨rfl, value_congr fun i hi => ?_⟩
  have hi' : 0 + i < bnSize src / liteBnBytes := by
    rw [bnSize, Nat.mul_div_cancel _ (by decide), Nat.zero_add]
    exact hi
  exact if_pos hi'

/-- The end of a round: what the squarings leave is `p - 1`. -/
def accepts (p : LiteBignum) (result : Option (LiteBignum × LiteBignum)) : Bool :=
  match result with
  | none => false
  | some (_, y) => bnEq (bnAdd y bnOne).1 p

/-- The squares of a number are the squares of its square, but for itself. -/
theorem exists_square_iff {p x : Nat} (hx : x % p ≠ p - 1) (n : Nat) :
    (∃ i ≤ n + 1, x ^ 2 ^ i % p = p - 1) ↔ ∃ i ≤ n, (x ^ 2 % p) ^ 2 ^ i % p = p - 1 := by
  have hshift (i : Nat) : (x ^ 2 % p) ^ 2 ^ i % p = x ^ 2 ^ (i + 1) % p := by
    rw [← Nat.pow_mod, ← pow_mul, ← Nat.pow_succ']
  constructor
  · rintro ⟨i, hi, heq⟩
    cases i with
    | zero => exact absurd (by simpa using heq) hx
    | succ i => exact ⟨i, by omega, (hshift i).trans heq⟩
  · rintro ⟨i, hi, heq⟩
    exact ⟨i + 1, by omega, (hshift i).symm.trans heq⟩

/-- **Run lemma.** From a number other than `p - 1`, the squarings end with `p - 1` if one of the
squares is. -/
theorem squareLoop_spec (hpow : ComputesPowers modexp modexpWord p) (hp : 0 < p.dmax)
    (htwo : 2 < p.val) (hy : y.dmax = p.dmax) (hlt : y.val < p.val) (hne : y.val ≠ p.val - 1) :
    accepts p (squareLoop modexpWord p n (A, y)) = true ↔
      ∃ i ≤ n, y.val ^ 2 ^ i % p.val = p.val - 1 := by
  have hmod : y.val % p.val ≠ p.val - 1 := by rwa [Nat.mod_eq_of_lt hlt]
  induction n generalizing A y with
  | zero =>
      rw [squareLoop, accepts, (addOne_spec hp hy hlt).1]
      refine iff_of_false hne ?_
      rintro ⟨i, hi, heq⟩
      obtain rfl := Nat.le_zero.mp hi
      rw [pow_zero, pow_one] at heq
      exact hmod heq
  | succ n ih =>
      obtain ⟨hcopy, hcopyVal⟩ := bnCopy_spec A y
      obtain ⟨hmax, hval⟩ := hpow.modexpWord y (bnCopy A y) 2 hy (hcopy.trans hy)
      have htwo' : (2 : UInt32).toNat = 2 := rfl
      rw [hcopyVal, htwo'] at hval
      rw [exists_square_iff hmod, ← hval, squareLoop]
      set y' := modexpWord y (bnCopy A y) 2 p
      have hlt' : y'.val < p.val := hval ▸ Nat.mod_lt _ (by omega)
      obtain ⟨hadd, hsubMax, hsubVal⟩ := addOne_spec hp hmax hlt'
      by_cases hone : bnEq y' bnOne = true
      · -- no square of 1 is `p - 1`
        rw [if_pos hone]
        rw [bnEq_iff, val_bnOne] at hone
        refine iff_of_false Bool.false_ne_true ?_
        rintro ⟨i, -, heq⟩
        rw [hone, one_pow, Nat.mod_eq_of_lt (by omega)] at heq
        omega
      rw [if_neg hone]
      by_cases hminus : bnEq (bnAdd y' bnOne).1 p = true
      · rw [if_pos hminus]
        have heq := hadd.mp hminus
        refine iff_of_true ?_ ⟨0, Nat.zero_le n, ?_⟩
        · rw [accepts, (addOne_spec hp hsubMax (hsubVal ▸ hlt')).1, hsubVal, heq]
        · rw [pow_zero, pow_one, Nat.mod_eq_of_lt hlt', heq]
      · rw [if_neg hminus]
        have hne' := hadd.not.mp hminus
        rw [← hsubVal] at hlt' hne' ⊢
        exact ih hsubMax hlt' hne' (by rwa [Nat.mod_eq_of_lt hlt'])

theorem squareLoop_dmax (hpow : ComputesPowers modexp modexpWord p) (hA : A.dmax = p.dmax)
    (hy : y.dmax = p.dmax) {A' y' : LiteBignum}
    (h : squareLoop modexpWord p n (A, y) = some (A', y')) :
    A'.dmax = p.dmax ∧ y'.dmax = p.dmax := by
  induction n generalizing A y with
  | zero =>
      obtain ⟨rfl, rfl⟩ := Prod.mk.inj (Option.some.inj h)
      exact ⟨hA, hy⟩
  | succ n ih =>
      have hcopy : (bnCopy A y).dmax = p.dmax := hy
      have hmax := (hpow.modexpWord y (bnCopy A y) 2 hy hcopy).1
      have hsub : (bnSub (bnAdd (modexpWord y (bnCopy A y) 2 p) bnOne).1 bnOne).1.dmax = p.dmax :=
        hmax
      rw [squareLoop] at h
      by_cases hone : bnEq (modexpWord y (bnCopy A y) 2 p) bnOne = true
      · rw [if_pos hone] at h
        exact absurd h (by simp)
      rw [if_neg hone] at h
      by_cases hminus : bnEq (bnAdd (modexpWord y (bnCopy A y) 2 p) bnOne).1 p = true
      · rw [if_pos hminus] at h
        obtain ⟨rfl, rfl⟩ := Prod.mk.inj (Option.some.inj h)
        exact ⟨hcopy, hsub⟩
      · rw [if_neg hminus] at h
        exact ih hcopy hsub h

/-- **Step lemma.** A round accepts the bases to which `p` is a strong probable prime. -/
theorem testBase_spec (hpow : ComputesPowers modexp modexpWord p) (hp : 0 < p.dmax)
    (htwo : 2 < p.val) (hr : r.dmax = p.dmax) (hfactor : p.val - 1 = 2 ^ s * r.val) (hs : 0 < s)
    (hodd : r.val % 2 = 1) (hA : A.dmax = p.dmax) (hy : y.dmax = p.dmax) :
    (StrongProbablePrime p.val A.val → ∃ A' y', testBase modexp modexpWord p r s A y = some (A', y') ∧
        A'.dmax = p.dmax ∧ y'.dmax = p.dmax) ∧
      (¬ StrongProbablePrime p.val A.val → testBase modexp modexpWord p r s A y = none) := by
  obtain ⟨hmax, hval⟩ := hpow.modexp y A r hy hA hr
  rw [strongProbablePrime_iff hfactor hodd, testBase]
  set y₁ := modexp y A r p
  have hlt : y₁.val < p.val := hval ▸ Nat.mod_lt _ (by omega)
  obtain ⟨hadd, hsubMax, hsubVal⟩ := addOne_spec hp hmax hlt
  -- the squares of the power
  have hsquares (i : Nat) : A.val ^ (2 ^ i * r.val) % p.val = y₁.val ^ 2 ^ i % p.val := by
    rw [hval, ← Nat.pow_mod, ← pow_mul, Nat.mul_comm]
  by_cases hone : bnEq y₁ bnOne = true
  · rw [if_pos hone]
    rw [bnEq_iff, val_bnOne] at hone
    exact ⟨fun _ => ⟨A, y₁, rfl, hA, hmax⟩, fun h => absurd (Or.inl (hval ▸ hone)) h⟩
  rw [if_neg hone]
  rw [bnEq_iff, val_bnOne, hval] at hone
  by_cases hminus : bnEq (bnAdd y₁ bnOne).1 p = true
  · rw [if_pos hminus]
    refine ⟨fun _ => ⟨A, _, rfl, hA, hmax⟩, fun h => absurd (Or.inr ⟨0, hs, ?_⟩) h⟩
    rw [hsquares, pow_zero, pow_one, Nat.mod_eq_of_lt hlt]
    exact hadd.mp hminus
  rw [if_neg hminus]
  have hne := hadd.not.mp hminus
  set y₂ := (bnSub (bnAdd y₁ bnOne).1 bnOne).1
  have htest : (A.val ^ r.val % p.val = 1 ∨ ∃ i < s, A.val ^ (2 ^ i * r.val) % p.val = p.val - 1) ↔
      accepts p (squareLoop modexpWord p (s - 1) (A, y₂)) = true := by
    rw [squareLoop_spec hpow hp htwo hsubMax (hsubVal ▸ hlt) (hsubVal ▸ hne), hsubVal,
      or_iff_right hone]
    simp only [hsquares]
    exact exists_congr fun i => and_congr_left' (by omega)
  rw [htest]
  dsimp only
  cases hloop : squareLoop modexpWord p (s - 1) (A, y₂) with
  | none => exact ⟨fun h => absurd h Bool.false_ne_true, fun _ => rfl⟩
  | some state =>
      obtain ⟨A', y'⟩ := state
      obtain ⟨hA', hy'⟩ := squareLoop_dmax hpow hA hsubMax hloop
      rw [Option.bind_some, accepts]
      dsimp only
      by_cases heq : bnEq (bnAdd y' bnOne).1 p = true
      · rw [if_pos heq]
        exact ⟨fun _ => ⟨A', _, rfl, hA', hy'⟩, fun h => absurd heq h⟩
      · rw [if_neg heq]
        exact ⟨fun h => absurd h heq, fun _ => rfl⟩

/-! ### The bases -/

/-- A base below `p` that `rand_bytes` fills in is kept. -/
theorem pickLoop_of_lt {p A : Words} (rand : Nat → List UInt32) {n : Nat}
    (hlt : value A 0 n < value p 0 n) : pickLoop p rand n A = some A := by
  induction n with
  | zero => exact absurd hlt (lt_irrefl _)
  | succ n ih =>
      rw [value_succ, value_succ, Nat.zero_add] at hlt
      have hle : (A n).toNat ≤ (p n).toNat := by
        by_contra hgt
        have hlow := value_lt p 0 n
        have htop : ((p n).toNat + 1) * radix ^ n ≤ (A n).toNat * radix ^ n :=
          Nat.mul_le_mul_right _ (not_le.mp hgt)
        rw [Nat.succ_mul] at htop
        omega
      have hkeep : redraw (p n) (rand n) (A n) = some (A n) := by
        have hle' : ¬ A n > p n := UInt32.not_lt.mpr (UInt32.le_iff_toNat_le.mpr hle)
        cases rand n with
        | nil => rw [redraw, if_neg hle']
        | cons draw rest => rw [redraw, if_neg hle']
      rw [pickLoop, hkeep, Option.bind_some, Function.update_eq_self]
      by_cases hless : A n < p n
      · exact if_pos hless
      · have heq : (A n).toNat = (p n).toNat :=
          Nat.le_antisymm hle (not_lt.mp (UInt32.lt_iff_toNat_lt.not.mp hless))
        rw [heq] at hlt
        exact (if_neg hless).trans (ih (by omega))

/-- **Run lemma.** The rounds accept if `p` is a strong probable prime to each base that they use. -/
theorem testLoop_spec (hpow : ComputesPowers modexp modexpWord p) (hp : 0 < p.dmax)
    (htwo : 2 < p.val) (hr : r.dmax = p.dmax) (hfactor : p.val - 1 = 2 ^ s * r.val) (hs : 0 < s)
    (hodd : r.val % 2 = 1) {bytes : Nat → Words} {rand : Nat → Nat → List UInt32}
    {base : Nat → Nat} {j : Nat} (hA : A.dmax = p.dmax) (hy : y.dmax = p.dmax)
    (hbases : ∀ i, j ≤ i → i < j + n → (∀ l, j ≤ l → l < i → StrongProbablePrime p.val (base l)) →
      ∃ d, pickLoop p.d (rand i) p.dmax (bytes i) = some d ∧ value d 0 p.dmax = base i) :
    ((∀ i, j ≤ i → i < j + n → StrongProbablePrime p.val (base i)) ∧
        testLoop modexp modexpWord bytes rand p r s n j (A, y) = some true) ∨
      (∃ i, j ≤ i ∧ i < j + n ∧ ¬ StrongProbablePrime p.val (base i)) ∧
        testLoop modexp modexpWord bytes rand p r s n j (A, y) = some false := by
  induction n generalizing j A y with
  | zero => exact Or.inl ⟨fun i hlow hhigh => by lia, rfl⟩
  | succ n ih =>
      obtain ⟨d, hpick, hval⟩ := hbases j le_rfl (by lia) fun l hlow hhigh => by lia
      have hbase : pickBase p (bytes j) (rand j) A = some { A with d } := by
        rw [pickBase, hA, hpick, Option.map_some]
      have hbaseVal : ({ A with d } : LiteBignum).val = base j := by
        rw [LiteBignum.val, hA, hval]
      obtain ⟨hyes, hno⟩ := testBase_spec (A := { A with d }) (y := y) hpow hp htwo hr hfactor hs
        hodd hA hy
      rw [hbaseVal] at hyes hno
      rw [testLoop, hbase, Option.bind_some]
      by_cases hstrong : StrongProbablePrime p.val (base j)
      · obtain ⟨A', y', hround, hA', hy'⟩ := hyes hstrong
        rw [hround]
        have hlater (i : Nat) (hlow : j + 1 ≤ i) (hhigh : i < j + 1 + n)
            (hbefore : ∀ l, j + 1 ≤ l → l < i → StrongProbablePrime p.val (base l)) :
            ∃ d, pickLoop p.d (rand i) p.dmax (bytes i) = some d ∧ value d 0 p.dmax = base i := by
          refine hbases i (by lia) (by lia) fun l hl hli => ?_
          rcases Nat.eq_or_lt_of_le hl with rfl | hlt
          · exact hstrong
          · exact hbefore l hlt hli
        rcases ih hA' hy' hlater with ⟨hall, hrun⟩ | ⟨⟨i, hlow, hhigh, hfail⟩, hrun⟩
        · refine Or.inl ⟨fun i hlow hhigh => ?_, hrun⟩
          rcases Nat.eq_or_lt_of_le hlow with rfl | hlt
          · exact hstrong
          · exact hall i hlt (by lia)
        · exact Or.inr ⟨⟨i, by lia, by lia, hfail⟩, hrun⟩
      · rw [hno hstrong]
        exact Or.inr ⟨⟨j, le_rfl, by lia, hstrong⟩, rfl⟩

end Round

/-- **`bn_probable_prime`** decides whether `p` is a strong probable prime to the bases that it
draws, and it accepts every prime. -/
theorem bnProbablePrime_spec
    {modexp : (output input exp N : LiteBignum) → LiteBignum}
    {modexpWord : (output input : LiteBignum) → (exp : UInt32) → (N : LiteBignum) → LiteBignum}
    {p : LiteBignum} (hpow : ComputesPowers modexp modexpWord p) (hodd : p.val % 2 = 1)
    (htop : bnCheckTopbit p ≠ 0) (hbits : 384 ≤ bnBits p) (hsize : bnSize p ≤ rsaMaxBytes / 2)
    (mem : Words) {bytes : Nat → Words} {rand : Nat → Nat → List UInt32} {base : Nat → Nat}
    (hbases : ∀ j < primeRounds p, (∀ i < j, StrongProbablePrime p.val (base i)) →
      1 ≤ base j ∧ base j < p.val ∧
        ∃ d, pickLoop p.d (rand j) p.dmax (bytes j) = some d ∧ value d 0 p.dmax = base j) :
    (∃ result, bnProbablePrime modexp modexpWord mem bytes rand p = some result ∧
        (result = true ↔ ∀ j < primeRounds p, StrongProbablePrime p.val (base j))) ∧
      (p.val.Prime → bnProbablePrime modexp modexpWord mem bytes rand p = some true) := by
  have hp : 0 < p.dmax := by
    unfold bnBits at hbits
    omega
  have hhalf := pow_lt_two_mul_val hp hodd htop
  have hlarge : 4 < radix ^ p.dmax :=
    (show 4 < radix ^ 1 by decide).trans_le (Nat.pow_le_pow_right radix_pos hp)
  have hwrap (d : Words) : (bnWrap d (bnSize p)).dmax = p.dmax := Nat.mul_div_cancel _ (by decide)
  -- `r` is `p - 1`
  obtain ⟨hcopy, hcopyVal⟩ := bnCopy_spec (bnWrap mem (bnSize p)) p
  have hsub := val_bnSub_of_le (c := bnCopy (bnWrap mem (bnSize p)) p) (a := bnOne)
    (hp.trans_eq hcopy.symm) (by rw [hcopyVal, val_bnOne]; omega)
  rw [hcopyVal, val_bnOne] at hsub
  have hrange : p.val - 1 < 2 ^ bnBits p := by
    have hlt := p.val_lt
    have hpow : radix ^ p.dmax = 2 ^ bnBits p := by
      rw [bnBits, Nat.mul_comm, pow_mul]
      rfl
    omega
  obtain ⟨r, k, hrun, hr, hfactor, hrodd⟩ := @oddLoop_spec (bnBits p)
    (bnSub (bnCopy (bnWrap mem (bnSize p)) p) bnOne).1 hp (by omega) (by omega) 0
  rw [hsub] at hfactor
  have hk : 0 < k := by
    by_contra hzero
    rw [Nat.eq_zero_of_not_pos hzero, pow_zero, Nat.one_mul] at hfactor
    omega
  have hcases := testLoop_spec (A := bnWrap mem (bnSize p)) (y := bnWrap mem (bnSize p))
    (n := primeRounds p) (j := 0) (s := 0 + k) hpow hp (by omega) hr
    (by rw [Nat.zero_add]; exact hfactor) (by omega) hrodd (hwrap mem) (hwrap mem)
    fun i _ hi hbefore => (hbases i (by omega) fun l hl => hbefore l (Nat.zero_le l) hl).2.2
  have hresult : bnProbablePrime modexp modexpWord mem bytes rand p =
      testLoop modexp modexpWord bytes rand p r (0 + k) (primeRounds p) 0
        (bnWrap mem (bnSize p), bnWrap mem (bnSize p)) := by
    rw [bnProbablePrime, if_neg (by omega), if_neg (by omega)]
    dsimp only
    rw [hrun, Option.bind_some]
  rw [← hresult, Nat.zero_add] at hcases
  rcases hcases with ⟨hall, heq⟩ | ⟨⟨j, -, hj, hfail⟩, heq⟩
  · have hall' (j : Nat) (hj : j < primeRounds p) : StrongProbablePrime p.val (base j) :=
      hall j (Nat.zero_le j) hj
    exact ⟨⟨true, heq, iff_of_true rfl hall'⟩, fun _ => heq⟩
  · refine ⟨⟨false, heq, iff_of_false Bool.false_ne_true fun h => hfail (h j hj)⟩, fun hprime => ?_⟩
    -- the bases of a prime are all accepted
    have hstrong (i : Nat) (hi : i < primeRounds p) : StrongProbablePrime p.val (base i) := by
      induction i using Nat.strong_induction_on with
      | _ i ih =>
          obtain ⟨hlow, hhigh, -⟩ := hbases i hi fun l hl => ih l hl (hl.trans hi)
          exact strongProbablePrime_of_prime hprime (Nat.not_dvd_of_pos_of_lt hlow hhigh)
    exact absurd (hstrong j hj) hfail

/-- Powers by division, for a number of 384 bits, and the base 2 in each round -/
theorem bnProbablePrime_spec_two :
    ∃ result, bnProbablePrime
        (fun _ input exp N => ⟨N.dmax, wordAt (input.val ^ exp.val % N.val)⟩)
        (fun _ input exp N => ⟨N.dmax, wordAt (input.val ^ exp.toNat % N.val)⟩) (ofList [])
        (fun _ => ofList [2]) (fun _ _ => []) ⟨12, fun _ => 0xFFFFFFFF⟩ = some result ∧
      (result = true ↔
        ∀ j < 22, StrongProbablePrime (LiteBignum.val ⟨12, fun _ => 0xFFFFFFFF⟩) 2) := by
  have hreduced (x : Nat) :
      value (wordAt (x % LiteBignum.val ⟨12, fun _ => 0xFFFFFFFF⟩)) 0 12 =
        x % LiteBignum.val ⟨12, fun _ => 0xFFFFFFFF⟩ := by
    rw [value_wordAt]
    exact Nat.mod_eq_of_lt ((Nat.mod_lt _ (by decide)).trans (by decide))
  have hpow : ComputesPowers
      (fun _ input exp N => ⟨N.dmax, wordAt (input.val ^ exp.val % N.val)⟩)
      (fun _ input exp N => ⟨N.dmax, wordAt (input.val ^ exp.toNat % N.val)⟩)
      ⟨12, fun _ => 0xFFFFFFFF⟩ :=
    ⟨fun _ _ _ _ _ _ => ⟨rfl, hreduced _⟩, fun _ _ _ _ _ => ⟨rfl, hreduced _⟩⟩
  exact (bnProbablePrime_spec hpow (by decide) (by decide) (by decide) (by decide) (ofList [])
    fun j _ _ => ⟨(by decide : 1 ≤ 2), by decide, ofList [2], pickLoop_of_lt _ (by decide), rfl⟩).1

end Dcrypto
end CrosEc
