import CrosEc.Lib.Words

/-!
# `chip/g/dcrypto/bn.c`: numbers of many words

The functions of `bn.c` that the computation of an RSA key uses: addition, subtraction and
multiplication, long division and the modular inverse.

A buffer is a memory of words, as large as the function that writes it needs.  `mem` is what the
stack holds where a function does not initialise its buffers.  The 64-bit sums are integers: none
of them overflows.
-/

namespace CrosEc
namespace Dcrypto

open Lib Words

/-- `LITE_BN_BYTES` -/
def liteBnBytes : Nat := 4

/-- `struct LITE_BIGNUM`, with the words that its `d` points to. -/
structure LiteBignum where
  dmax : Nat
  d : Words

/-- The number. -/
def LiteBignum.val (a : LiteBignum) : Nat := value a.d 0 a.dmax

/-- `bn_size` -/
def bnSize (b : LiteBignum) : Nat := b.dmax * liteBnBytes

/-- `DCRYPTO_bn_wrap` -/
def bnWrap (buf : Words) (len : Nat) : LiteBignum := ⟨len / liteBnBytes, buf⟩

/-- `memset(buf, 0x00, len)`, for a whole number of words. -/
def memsetZero (buf : Words) (len : Nat) : Words :=
  fun i => if i < len / liteBnBytes then 0 else buf i

/-- `memcpy(dst, src, len)`, for a whole number of words. -/
def memcpyWords (dst src : Words) (len : Nat) : Words :=
  fun i => if i < len / liteBnBytes then src i else dst i

/-- `bn_init` -/
def bnInit (buf : Words) (len : Nat) : LiteBignum := bnWrap (memsetZero buf len) len

/-- `top |= BN_DIGIT(a, i)`, for the words from `lo` up to `hi`. -/
def orDigits (d : Words) (lo hi : Nat) : UInt32 :=
  (List.range' lo (hi - lo)).foldr (fun i top => top ||| d i) 0

/-- `bn_eq`, for numbers that have words -/
def bnEq (a b : LiteBignum) : Bool :=
  if orDigits a.d b.dmax a.dmax ≠ 0 then false
  else if orDigits b.d a.dmax b.dmax ≠ 0 then false
  else (List.range (min a.dmax b.dmax)).all fun i => a.d i == b.d i

/-! ## Addition and subtraction -/

/-- `for (; A && i < dmax; i++) { A += BN_DIGIT(c, i); BN_DIGIT(c, i) = (uint32_t) A; A >>= 32; }`,
with the words that are left. -/
def carryTail : Nat → Nat → Int × Words → Int × Words
  | 0, _, s => s
  | k + 1, i, s =>
      if s.1 = 0 then s
      else
        let A := s.1 + (s.2 i).toNat
        carryTail k (i + 1) (A / radix, Function.update s.2 i (toWord A))

/-- `bn_sub`; the result is the borrow. -/
def bnSub (c a : LiteBignum) : LiteBignum × UInt32 :=
  let s := carryLoop (fun i x => x.toNat - (a.d i).toNat) 0 a.dmax (0, c.d)
  let s := carryTail (c.dmax - a.dmax) a.dmax s
  ({ c with d := s.2 }, toWord s.1)

/-- `bn_signed_sub`; the results are `*c_neg` and the borrow. -/
def bnSignedSub (c : LiteBignum) (cNeg : Bool) (a : LiteBignum) (aNeg : Bool) :
    LiteBignum × Bool × Bool :=
  let s := carryLoop (fun i x => x.toNat + (~~~(a.d i)).toNat) 0 a.dmax (1, c.d)
  let s := carryLoop (fun _ x => x.toNat + 0xFFFFFFFF) a.dmax (c.dmax - a.dmax) s
  let A := s.1 % 2
  let carry := (!cNeg && aNeg && A == 1) || (cNeg && !aNeg && A == 0)
  ({ c with d := s.2 },
    if carry then cNeg else (cNeg.toNat + (!aNeg).toNat + A) % 2 == 1, carry)

/-- `bn_add`; the result is the carry. -/
def bnAdd (c a : LiteBignum) : LiteBignum × UInt32 :=
  let s := carryLoop (fun i x => x.toNat + (a.d i).toNat) 0 a.dmax (0, c.d)
  let s := carryTail (c.dmax - a.dmax) a.dmax s
  ({ c with d := s.2 }, toWord s.1)

/-- `bn_signed_add`; the results are `*c_neg` and the carry. -/
def bnSignedAdd (c : LiteBignum) (cNeg : Bool) (a : LiteBignum) (aNeg : Bool) :
    LiteBignum × Bool × Bool :=
  let (c, A) := bnAdd c a
  let carry := (!cNeg && !aNeg && A != 0) || (cNeg && aNeg && A == 0)
  (c, if carry then cNeg else (cNeg.toNat + aNeg.toNat + A.toNat) % 2 == 1, carry)

/-! ## Multiplication -/

/-- `bn_mul_add` -/
def bnMulAdd (c : Words) (a : UInt32) (b : LiteBignum) (offset : Nat) : UInt32 × Words :=
  let s := carryLoop (fun i x => x.toNat + (b.d i).toNat * a.toNat) offset b.dmax (0, c)
  (toWord s.1, s.2)

/-- The loop of `bn_mul_ex`. -/
def mulLoop (a : Words) (b : LiteBignum) : Nat → UInt32 × Words → UInt32 × Words
  | 0, s => s
  | i + 1, s =>
      let s := mulLoop a b i s
      bnMulAdd (Function.update s.2 (i + b.dmax - 1) s.1) (a i) b i

/-- `bn_mul_ex` -/
def bnMulEx (c a : LiteBignum) (aLen : Nat) (b : LiteBignum) : LiteBignum :=
  let s := mulLoop a.d b aLen (0, memsetZero c.d (bnSize c))
  { c with d := Function.update s.2 (aLen + b.dmax - 1) s.1 }

/-- `DCRYPTO_bn_mul`, the same loops for all words of `a` -/
def bnMul (c a b : LiteBignum) : LiteBignum := bnMulEx c a a.dmax b

/-! ## Division -/

/-- The loop of `bn_div_word_ex`, from the top word down. -/
def divWordLoop (u : Words) (div : UInt32) : Nat → UInt32 × Words → UInt32 × Words
  | 0, s => s
  | i + 1, s =>
      let tmp := radix * s.1.toNat + (u i).toNat
      let qd := toWord (tmp / div.toNat : Nat)
      divWordLoop u div i (toWord (tmp - qd.toNat * div.toNat), Function.update s.2 i qd)

/-- `bn_div_word_ex`; the results are `q` and `r`. -/
def bnDivWordEx (q : Words) (r : Option Words) (u : Words) (m : Nat) (div : UInt32) :
    Words × Option Words :=
  let s := divWordLoop u div m (0, q)
  (s.2, r.map fun r => Function.update r 0 s.1)

/-- `while ((vtop & 0x80000000) == 0) { s = s + 1; vtop = vtop << 1; }`, which ends before the
word is empty -/
def shiftFactor : Nat → UInt32 → UInt32
  | 0, _ => 0
  | k + 1, vtop => if vtop &&& 0x80000000 = 0 then shiftFactor k (vtop <<< 1) + 1 else 0

/-- `vn`, the normalised `v` -/
def normalizeV (mem v : Words) (n : Nat) (s : UInt32) : Words := fun i =>
  if s ≠ 0 then
    if i = 0 then v 0 <<< s
    else if i < n then v i <<< s ||| v (i - 1) >>> (32 - s)
    else mem i
  else if i < n then v i else mem i

/-- `un`, the normalised `u`, with one more word on top -/
def normalizeU (mem u : Words) (m : Nat) (s : UInt32) : Words := fun i =>
  if s ≠ 0 then
    if i = m then u (m - 1) >>> (32 - s)
    else if i = 0 then u 0 <<< s
    else if i < m then u i <<< s ||| u (i - 1) >>> (32 - s)
    else mem i
  else if i < m then u i else if i = m then 0 else mem i

/-- `while ((rhat >> 32) == 0 && qd * vn[n - 2] > (rhat << 32) + un[j + n - 2])`, with `qd` going
down and `rhat` going up by `vn[n - 1]` -/
def fineTune (v₁ v₂ u₂ : Nat) : Nat → Nat → Nat
  | 0, _ => 0
  | qd + 1, rhat =>
      if rhat / radix = 0 ∧ radix * rhat + u₂ < (qd + 1) * v₂ then
        fineTune v₁ v₂ u₂ qd (rhat + v₁)
      else qd + 1

/-- The estimate of a quotient digit, from `un[j + n]`, `un[j + n - 1]` and `un[j + n - 2]` and
from `vn[n - 1]` and `vn[n - 2]`. -/
def estimateQd (u₀ u₁ u₂ v₁ v₂ : UInt32) : UInt32 :=
  if u₀ = v₁ then 0xFFFFFFFF
  else
    let rhat := radix * u₀.toNat + u₁.toNat
    let qd := toWord (rhat / v₁.toNat : Nat)
    toWord (fineTune v₁.toNat v₂.toNat u₂.toNat qd.toNat (rhat - qd.toNat * v₁.toNat))

/-- Multiply and subtract: the loop over the words of `vn`, with `k` and `un`. -/
def mulSub (qd : UInt32) (vn : Words) (j : Nat) : Nat → Int × Words → Int × Words
  | 0, s => s
  | i + 1, s =>
      let s := mulSub qd vn j i s
      let p : Int := qd.toNat * (vn i).toNat
      let t := (s.2 (j + i)).toNat - s.1 - p % radix
      (p / radix - t / radix, Function.update s.2 (j + i) (toWord t))

/-- Add one back.  The loop goes on with the `k` of the loop before it. -/
def addBack (vn : Words) (j n : Nat) (k : Int) (un : Words) : Words :=
  let s := carryLoop (fun i x => x.toNat + (vn i).toNat) j n (k, un)
  Function.update s.2 (j + n) (toWord ((s.2 (j + n)).toNat + s.1))

/-- One round of the main loop, with `un` and `q`. -/
def divStep (vn : Words) (n j : Nat) (s : Words × Words) : Words × Words :=
  let un := s.1
  let qd := estimateQd (un (j + n)) (un (j + n - 1)) (un (j + n - 2)) (vn (n - 1)) (vn (n - 2))
  let (k, un) := mulSub qd vn j n (0, un)
  let t := (un (j + n)).toNat - k
  let un := Function.update un (j + n) (toWord t)
  if t < 0 then (addBack vn j n k un, Function.update s.2 j (qd - 1))
  else (un, Function.update s.2 j qd)

/-- The main loop, reducing `un` digit by digit. -/
def divLoop (vn : Words) (n : Nat) : Nat → Words × Words → Words × Words
  | 0, s => s
  | j + 1, s => divLoop vn n j (divStep vn n j s)

/-- Denormalise `un` into `r`. -/
def denormalize (r un : Words) (n : Nat) (s : UInt32) : Words := fun i =>
  if s ≠ 0 then
    if i + 1 < n then un i >>> s ||| un (i + 1) <<< (32 - s)
    else if i + 1 = n then un (n - 1) >>> s
    else r i
  else if i < n then un i else r i

/-- `bn_div_ex`; the results are `q` and `r`. -/
def bnDivEx (mem q : Words) (r : Option Words) (u : Words) (m : Nat) (v : Words) (n : Nat) :
    Option (Words × Option Words) :=
  if m < n ∨ n = 0 then none
  else
    let vtop := v (n - 1)
    if vtop = 0 then none
    else if n = 1 then some (bnDivWordEx q r u m vtop)
    else
      let s := shiftFactor 32 vtop
      let vn := normalizeV mem v n s
      let (un, q) := divLoop vn n (m - n + 1) (normalizeU mem u m s, q)
      some (q, r.map fun r => denormalize r un n s)

/-- `bn_set_bn` -/
def bnSetBn (d src : LiteBignum) (n : Nat) : LiteBignum :=
  { d with d := fun i =>
      if i < n ∧ i < d.dmax then src.d i else if i < d.dmax then 0 else d.d i }

/-- The loop of `bn_digits`. -/
def digitsLoop (d : Words) : Nat → Nat
  | 0 => 0
  | n + 1 => if d (n + 1) = 0 then digitsLoop d n else n + 1

/-- `bn_digits`, for a number that has words -/
def bnDigits (a : LiteBignum) : Nat := digitsLoop a.d (a.dmax - 1) + 1

/-- `DCRYPTO_bn_div`; `none` for the result 0, else the quotient and the remainder. -/
def bnDiv (mem : Words) (quotient : LiteBignum) (remainder : Option LiteBignum)
    (src divisor : LiteBignum) : Option (LiteBignum × Option LiteBignum) :=
  let srcLen := bnDigits src
  let divLen := bnDigits divisor
  if srcLen < divLen then none
  else
    match bnDivEx mem quotient.d (remainder.map LiteBignum.d) src.d srcLen divisor.d divLen with
    | none => none
    | some (q, r) =>
        let pad (len dmax : Nat) (d : Words) : Words :=
          fun i => if len ≤ i ∧ i < dmax then 0 else d i
        some ({ quotient with d := pad (srcLen - divLen + 1) quotient.dmax q },
          remainder.bind fun rem => r.map fun r => { rem with d := pad divLen rem.dmax r })

/-! ## The modular inverse -/

/-- `while (n && BN_DIGIT(d, n - 1) == 0) --n;` -/
def trim (d : Words) : Nat → Nat
  | 0 => 0
  | n + 1 => if d n = 0 then trim d n else n + 1

/-- The variables of `bn_modinv_vartime`.  `r`, `nr`, `t` and `nt` are what the pointers `pR`,
`pnR`, `pT` and `pnT` point to. -/
structure InvState where
  r : LiteBignum
  nr : LiteBignum
  q : LiteBignum
  t : LiteBignum
  nt : LiteBignum
  tmp : LiteBignum
  tNeg : Bool
  ntNeg : Bool
  rLen : Nat
  nrLen : Nat

/-- `while (n--) bn_signed_sub(pT, &t_neg, pnT, nt_neg);` -/
def subTimes (nt : LiteBignum) (ntNeg : Bool) : Nat → LiteBignum × Bool → LiteBignum × Bool
  | 0, s => s
  | n + 1, s =>
      let (t, tNeg, _) := bnSignedSub s.1 s.2 nt ntNeg
      subTimes nt ntNeg n (t, tNeg)

/-- `bn_mul_ex(&tmp, ...)`, with the smaller operand first -/
def mulQuotient (tmp q nt : LiteBignum) (ntNeg : Bool) : LiteBignum :=
  if ntNeg then bnMulEx tmp q q.dmax nt
  else
    let ntLen := bnDigits nt
    if q.dmax < ntLen then bnMulEx tmp q q.dmax nt
    else bnMulEx tmp nt ntLen q

/-- One round of the loop of `bn_modinv_vartime`; `none` if the division fails. -/
def invStep (mem : Words) (s : InvState) : Option InvState :=
  match bnDivEx mem s.q.d (some s.r.d) s.r.d s.rLen s.nr.d s.nrLen with
  | none => none
  | some (qd, rd) =>
      -- swap R and nR
      let r := s.nr
      let nr := { s.r with d := rd.getD s.r.d }
      let nrLen := trim nr.d s.nrLen
      let q : LiteBignum := ⟨trim qd (s.rLen - s.nrLen + 1), qd⟩
      let few := q.dmax = 1 ∧ (q.d 0).toNat ≤ 2
      let tmp := if few then s.tmp else mulQuotient s.tmp q s.nt s.ntNeg
      -- compute t - q*nt
      let (t, tNeg) :=
        if few then subTimes s.nt s.ntNeg (q.d 0).toNat (s.t, s.tNeg)
        else
          let (t, tNeg, _) := bnSignedSub s.t s.tNeg tmp s.ntNeg
          (t, tNeg)
      -- swap T and nT
      some { r, nr, q, t := s.nt, nt := t, tmp, tNeg := s.ntNeg, ntNeg := tNeg,
             rLen := s.nrLen, nrLen }

/-- The initialisation of `bn_modinv_vartime`. -/
def invInit (mem : Words) (src mod : LiteBignum) : InvState :=
  let rLen := bnDigits mod
  let nrLen := bnDigits src
  let nt := bnInit mem (bnSize mod + 4)
  let nr := bnSetBn (bnInit mem (bnSize mod)) src nrLen
  { r := bnSetBn (bnInit mem (bnSize mod)) mod rLen
    nr
    q := bnInit mem (bnSize mod)
    t := bnInit mem (bnSize mod + 4)
    nt := { nt with d := Function.update nt.d 0 1 }
    tmp := bnInit mem (bnSize mod + 4)
    tNeg := false
    ntNeg := false
    rLen
    nrLen := trim nr.d nrLen }

/-- How a loop ends. -/
inductive LoopResult (α : Type) where
  | done (a : α)
  /-- `return 0` -/
  | failed
  | outOfFuel

/-- `while (nr_len)` -/
def invLoop (mem : Words) : Nat → InvState → LoopResult InvState
  | 0, _ => .outOfFuel
  | fuel + 1, s =>
      if s.nrLen = 0 then .done s
      else
        match invStep mem s with
        | none => .failed
        | some s => invLoop mem fuel s

/-- `bn_modinv_vartime`; the result is the returned value and `dst`. -/
def bnModinvVartime (mem : Words) (fuel : Nat) (dst src mod : LiteBignum) :
    Option (Bool × LiteBignum) :=
  match invLoop mem fuel (invInit mem src mod) with
  | .outOfFuel => none
  | .failed => some (false, dst)
  | .done s =>
      -- gcd not 1; no direct inverse
      if s.rLen ≠ 1 ∨ s.r.d 0 ≠ 1 then some (false, dst)
      else
        let t := if s.tNeg then (bnSignedAdd s.t s.tNeg mod false).1 else s.t
        some (true, bnSetBn dst t (bnDigits t))

/-! ## The key -/

/-- What `DCRYPTO_rsa_key_compute` returns, and its two results. -/
structure KeyResult where
  ok : Bool
  N : LiteBignum
  d : LiteBignum

/-- The end of `DCRYPTO_rsa_key_compute`: `phi` holds the modulus. -/
def finishKey (mem : Words) (fuel : Nat) (N d p q phi : LiteBignum) (e : UInt32) :
    Option KeyResult :=
  let phi := (bnSub phi p).1
  let phi := (bnSub phi q).1
  let phi := (bnAdd phi (bnWrap (fun _ => 1) 4)).1
  (bnModinvVartime mem fuel d (bnWrap (fun _ => e) 4) phi).map fun (ok, d) => ⟨ok, N, d⟩

/-- `DCRYPTO_rsa_key_compute` -/
def rsaKeyCompute (mem : Words) (fuel : Nat) (N d p : LiteBignum) (q : Option LiteBignum)
    (e : UInt32) : Option KeyResult :=
  match q with
  | none =>
      -- q not provided, calculate it.
      let phi := bnWrap (memcpyWords mem N.d (bnSize N)) (bnSize N)
      let qLocal := bnInit mem (bnSize p)
      match bnDiv mem qLocal none phi p with
      | none => some ⟨false, N, d⟩
      | some (q, _) =>
          -- Check that p * q == N
          let phi := bnMul phi p q
          if bnEq N phi then finishKey mem fuel N d p q phi e else some ⟨false, N, d⟩
  | some q =>
      let N := bnMul N p q
      let phi := bnWrap (memcpyWords mem N.d (bnSize N)) (bnSize N)
      finishKey mem fuel N d p q phi e

end Dcrypto
end CrosEc
