import CrosEc.Dcrypto.Bignum

/-!
# `chip/g/dcrypto/bn.c`: modular powers in software

`bn_modexp_internal` works with Montgomery products.  It needs a second buffer, and a round whose
bit of the exponent is clear does not copy: it swaps the two numbers, so that `output` may end up
with the local buffer and `acc` with the caller's.
-/

namespace CrosEc
namespace Dcrypto

open Lib Words

/-- `bn_is_bit_set` -/
def bnIsBitSet (a : LiteBignum) (n : Nat) : Bool :=
  if a.dmax ≤ n / 32 then false else (a.d (n / 32)).toNat.testBit (n % 32)

/-- `bn_check_topbit`, for a number that has words -/
def bnCheckTopbit (N : LiteBignum) : UInt32 := N.d (N.dmax - 1) >>> 31

/-- The loop of `bn_lshift`, with `carry`. -/
def lshiftLoop : Nat → UInt32 × Words → UInt32 × Words
  | 0, s => s
  | i + 1, s =>
      let s := lshiftLoop i s
      let w := s.2 i <<< 1 ||| s.1
      (s.2 i >>> 31, Function.update s.2 i w)

/-- `bn_lshift`; the result is the carry. -/
def bnLshift (r : LiteBignum) : LiteBignum × UInt32 :=
  let s := lshiftLoop r.dmax (0, r.d)
  ({ r with d := s.2 }, s.1)

/-- `for (; BN_DIGIT(a, i) == BN_DIGIT(b, i) && i > 0; --i)` -/
def gteLoop (a b : Words) : Nat → Nat
  | 0 => 0
  | i + 1 => if a (i + 1) = b (i + 1) then gteLoop a b i else i + 1

/-- `bn_gte`, for numbers that have words -/
def bnGte (a b : LiteBignum) : Bool :=
  if orDigits a.d b.dmax a.dmax ≠ 0 then true
  else if orDigits b.d a.dmax b.dmax ≠ 0 then false
  else
    let i := gteLoop a.d b.d (min a.dmax b.dmax - 1)
    a.d i ≥ b.d i

/-! ## Montgomery products -/

/-- The loop of `bn_mont_mul_add`, with `A`, `B` and the words of `c`. -/
def montLoop (a d0 : UInt32) (b N : Words) : Nat → UInt32 × UInt32 × Words → UInt32 × UInt32 × Words
  | 0, s => s
  | i + 1, s =>
      let (A, B, c) := montLoop a d0 b N i s
      let tmp := A.toNat + a.toNat * (b (i + 1)).toNat + (c (i + 1)).toNat
      let tmp' := B.toNat + d0.toNat * (N (i + 1)).toNat + tmp % radix
      (toWord (tmp / radix : Nat), toWord (tmp' / radix : Nat),
        Function.update c i (toWord (tmp' : Nat)))

/-- `bn_mont_mul_add` -/
def montMulAdd (c : LiteBignum) (a : UInt32) (b : LiteBignum) (nprime : UInt32) (N : LiteBignum) :
    LiteBignum :=
  let tmp := (c.d 0).toNat + a.toNat * (b.d 0).toNat
  let d0 := toWord (tmp : Nat) * nprime
  let tmp' := tmp % radix + d0.toNat * (N.d 0).toNat
  let (A, B, d) := montLoop a d0 b.d N.d (N.dmax - 1)
    (toWord (tmp / radix : Nat), toWord (tmp' / radix : Nat), c.d)
  let top := A.toNat + B.toNat
  let c := { c with d := Function.update d (N.dmax - 1) (toWord (top : Nat)) }
  if top / radix ≠ 0 then (bnSub c N).1 else c

/-- `a ? BN_DIGIT(a, i) : 1` for the first digit, `a ? BN_DIGIT(a, i) : 0` for the others -/
def montDigit (a : Option LiteBignum) (i : Nat) : UInt32 :=
  match a with
  | some a => a.d i
  | none => if i = 0 then 1 else 0

/-- The calls of `bn_mont_mul_add` up to the one for digit `i`. -/
def montRounds (a : Option LiteBignum) (b : LiteBignum) (nprime : UInt32) (N : LiteBignum) :
    Nat → LiteBignum → LiteBignum
  | 0, c => montMulAdd c (montDigit a 0) b nprime N
  | i + 1, c => montMulAdd (montRounds a b nprime N i c) (montDigit a (i + 1)) b nprime N

/-- `bn_mont_mul` -/
def montMul (c : LiteBignum) (a : Option LiteBignum) (b : LiteBignum) (nprime : UInt32)
    (N : LiteBignum) : LiteBignum :=
  montRounds a b nprime N (N.dmax - 1) { c with d := memsetZero c.d (bnSize N) }

/-- One round of the loop of `bn_compute_RR`; `none` if the assertion fails.  The first subtraction
is part of the assertion, which is there unless `CONFIG_DEBUG_ASSERT` is undefined. -/
def rrStep (N RR : LiteBignum) : Option LiteBignum :=
  let (RR, carry) := bnLshift RR
  let subtracted :=
    if carry ≠ 0 then
      let (RR, borrow) := bnSub RR N
      if borrow = 0xFFFFFFFF then some RR else none
    else some RR
  subtracted.map fun RR => if bnGte RR N then (bnSub RR N).1 else RR

/-- `Repeat 2 * R % N, log2(R) times.` -/
def rrLoop (N : LiteBignum) : Nat → LiteBignum → Option LiteBignum
  | 0, RR => some RR
  | i + 1, RR => (rrLoop N i RR).bind (rrStep N)

/-- `bn_compute_RR` -/
def computeRR (RR N : LiteBignum) : Option LiteBignum := rrLoop N (N.dmax * 32) (bnSub RR N).1

/-- `for (i = 0; i < 5; i++) ninv *= 2 - (n0 * ninv);` -/
def ninvLoop (n0 : UInt32) : Nat → UInt32
  | 0 => 1
  | i + 1 => ninvLoop n0 i * (2 - n0 * ninvLoop n0 i)

/-- `bn_compute_nprime` -/
def computeNprime (n0 : UInt32) : UInt32 := ~~~(ninvLoop n0 5) + 1

/-! ## Powers -/

/-- The buffers that `output` and `acc` can have. -/
inductive PowerBuffer where
  /-- The one that the caller gave -/
  | caller
  /-- `acc_buf` -/
  | acc
  deriving DecidableEq

/-- A `struct LITE_BIGNUM` that has one of them. -/
structure Handle where
  dmax : Nat
  d : PowerBuffer

/-- The variables of `bn_modexp_internal` that change in its loop, with both buffers. -/
structure ModexpState where
  mem : PowerBuffer → Words
  output : Handle
  acc : Handle

namespace ModexpState

/-- The number of a handle -/
def number (s : ModexpState) (h : Handle) : LiteBignum := ⟨h.dmax, s.mem h.d⟩

/-- The buffer of a handle after a number is written to it -/
def write (s : ModexpState) (h : Handle) (c : LiteBignum) : ModexpState :=
  { s with mem := Function.update s.mem h.d c.d }

/-- One round, for one bit of the exponent. -/
def step (aR : LiteBignum) (nprime : UInt32) (N : LiteBignum) (bit : Bool) (s : ModexpState) :
    ModexpState :=
  let acc := s.number s.acc
  let s := s.write s.output (montMul (s.number s.output) (some acc) acc nprime N)
  if bit then
    s.write s.acc (montMul (s.number s.acc) (some (s.number s.output)) aR nprime N)
  else { s with output := s.acc, acc := s.output }

/-- The loop, from the top bit of the exponent down. -/
def loop (aR : LiteBignum) (nprime : UInt32) (N exp : LiteBignum) : Nat → ModexpState → ModexpState
  | 0, s => s
  | i + 1, s => loop aR nprime N exp i (s.step aR nprime N (bnIsBitSet exp i))

/-- `Copy to output buffer if necessary.` -/
def copyOut (s : ModexpState) : ModexpState :=
  if s.acc.d ≠ .acc then
    { s with
      mem := Function.update s.mem s.acc.d
        (memcpyWords (s.mem s.acc.d) (s.mem .acc) (bnSize (s.number s.output)))
      output := s.acc }
  else s

end ModexpState

/-- `bn_modexp_internal`; the result is what `output` is and what the two buffers hold.  The number
`output` has the caller's buffer when it is called.  `mem` is what the stack holds before. -/
def modexpInternal (mem : Words) (output input exp N : LiteBignum) : Option ModexpState :=
  let nprime := computeNprime (N.d 0)
  (computeRR (bnInit mem (bnSize N)) N).map fun RR =>
    let acc := montMul (bnInit mem (bnSize N)) none RR nprime N
    let aR := montMul (bnInit mem (bnSize N)) (some input) RR nprime N
    let s : ModexpState :=
      { mem := fun buffer => if buffer = .caller then output.d else acc.d
        output := ⟨output.dmax, .caller⟩
        acc := ⟨acc.dmax, .acc⟩ }
    let s := s.loop aR nprime N exp (exp.dmax * 32)
    -- Convert out.
    let s := s.write s.output
      (montMul (s.number s.output) none (s.number s.acc) nprime N)
    let s := s.copyOut
    -- Final reduce.
    let (reduced, borrow) := bnSub (s.number s.output) N
    let s := s.write s.output (if borrow ≠ 0 then (bnAdd reduced N).1 else reduced)
    { s with output := { s.output with dmax := N.dmax } }

end Dcrypto
end CrosEc
