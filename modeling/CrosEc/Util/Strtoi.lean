import CrosEc.Lib.Packed
import Mathlib.Data.Nat.Digits.Defs

/-!
# `common/util.c`: `strtoi` and `strtoul`

A pointer into a string is what the memory holds from there on, and a byte behind that memory is
not read: this has no result.  The two functions share their digits, which are here those of a
number of `w` bits.
-/

namespace CrosEc
namespace Util

open Lib

/-! ## The code -/

/-- A `char` where an `int` is wanted. -/
def charInt (c : UInt8) : BitVec 32 := c.toBitVec.setWidth 32

def isspace (c : UInt8) : Bool :=
  c == ' '.toUInt8 || c == '\t'.toUInt8 || c == '\r'.toUInt8 || c == '\n'.toUInt8

/-- `while ((c = *nptr++) && isspace(c))`: the character behind the spaces and what follows it. -/
def skipSpace : Bytes → Option (UInt8 × Bytes)
  | [] => none
  | c :: nptr => if c ≠ 0 ∧ isspace c then skipSpace nptr else some (c, nptr)

/-- `c == '0' && *nptr == 'x'`: what follows the prefix, if it is there. -/
def hexPrefix (c : UInt8) (nptr : Bytes) : Option (Option (UInt8 × Bytes)) :=
  if c = '0'.toUInt8 then
    match nptr with
    | [] => none
    | x :: nptr =>
        if x = 'x'.toUInt8 then
          match nptr with
          | [] => none
          | c :: nptr => some (some (c, nptr))
        else some none
  else some none

/-- `MIN(base, 10)` -/
def minTen (base : BitVec 32) : BitVec 32 := if base.toInt < 10 then base else 10#32

/-- The value of a digit. -/
def digitValue (base : BitVec 32) (c : UInt8) : Option (BitVec 32) :=
  let c := charInt c
  let zero := charInt '0'.toUInt8
  let upper := charInt 'A'.toUInt8
  let lower := charInt 'a'.toUInt8
  if zero.toInt ≤ c.toInt ∧ c.toInt < (zero + minTen base).toInt then some (c - zero)
  else if upper.toInt ≤ c.toInt ∧ c.toInt < (upper + base - 10#32).toInt then
    some (c - upper + 10#32)
  else if lower.toInt ≤ c.toInt ∧ c.toInt < (lower + base - 10#32).toInt then
    some (c - lower + 10#32)
  else none

/-- `while (c)`, for a result of `w` bits; the results are the number and `*endptr`. -/
def parseDigits {w : Nat} (base : BitVec 32) (c : UInt8) (nptr : Bytes) (result : BitVec w)
    (endptr : Bytes) : Option (BitVec w × Bytes) :=
  if c = 0 then some (result, endptr)
  else
    match digitValue base c, nptr with
    | none, _ => some (result, endptr)
    | some _, [] => none
    | some digit, c' :: nptr' =>
        parseDigits base c' nptr' (result * base.signExtend w + digit.signExtend w) (c' :: nptr')

/-- `strtoi`; the results are the number and `*endptr`. -/
def strtoi (nptr : Bytes) (base : BitVec 32) : Option (BitVec 32 × Bytes) := do
  let endptr := nptr
  let (c, nptr) ← skipSpace nptr
  match ← hexPrefix c nptr with
  | some (c, nptr) => parseDigits 16#32 c nptr 0#32 endptr
  | none =>
      if base = 0#32 then
        if c = '-'.toUInt8 then
          match nptr with
          | [] => none
          | c :: nptr =>
              let (result, endptr) ← parseDigits 10#32 c nptr 0#32 endptr
              return (-result, endptr)
        else parseDigits 10#32 c nptr 0#32 endptr
      else parseDigits base c nptr 0#32 endptr

/-- `strtoul`; the results are the number and `*endptr`. -/
def strtoul (nptr : Bytes) (base : BitVec 32) : Option (BitVec 64 × Bytes) := do
  let endptr := nptr
  let (c, nptr) ← skipSpace nptr
  match ← hexPrefix c nptr with
  | some (c, nptr) => parseDigits 16#32 c nptr 0#64 endptr
  | none =>
      if base = 0#32 then
        if c = '-'.toUInt8 then return (0#64, endptr)
        else parseDigits 10#32 c nptr 0#64 endptr
      else parseDigits base c nptr 0#64 endptr

/-! ## Reading a numeral -/

variable {w : Nat} {base : BitVec 32} {c : UInt8} {text rest : Bytes} {ds : List Nat}

/-- The text spells these digits. -/
def Spells (base : BitVec 32) (text : Bytes) (ds : List Nat) : Prop :=
  List.Forall₂ (fun c k => c ≠ 0 ∧ k < 2 ^ 31 ∧ digitValue base c = some (BitVec.ofNat 32 k))
    text ds

theorem Spells.ne_zero {ds : List Nat} (h : Spells base text ds) : ∀ c ∈ text, c ≠ 0 := by
  intro c hc
  obtain ⟨i, hi, rfl⟩ := List.mem_iff_getElem.mp hc
  exact (List.Forall₂.get h hi (h.length_eq ▸ hi)).1

/-- The number of some digits, the highest one first, after a number that is read already. -/
def numeral (base : Nat) (x : Nat) (ds : List Nat) : Nat := ds.foldl (fun x k => x * base + k) x

/-- The digits of a number are those it is read from. -/
theorem numeral_digits (base v : Nat) : numeral base 0 (Nat.digits base v).reverse = v := by
  have hfold := Nat.ofDigits_eq_foldr base (Nat.digits base v)
  rw [Nat.ofDigits_digits] at hfold
  rw [numeral, List.foldl_reverse]
  refine Eq.trans ?_ hfold.symm
  congr 1
  funext k x
  rw [Nat.cast_id]
  ring

theorem signExtend_ofNat {k : Nat} (w : Nat) (hk : k < 2 ^ 31) :
    (BitVec.ofNat 32 k).signExtend w = BitVec.ofNat w k := by
  have hto : (BitVec.ofNat 32 k).toNat = k := by
    rw [BitVec.toNat_ofNat, Nat.mod_eq_of_lt]
    omega
  have hmsb : (BitVec.ofNat 32 k).msb = false := by
    rw [BitVec.msb_eq_decide, hto]
    exact decide_eq_false (by omega)
  rw [BitVec.signExtend_eq_setWidth_of_msb_false hmsb]
  apply BitVec.eq_of_toNat_eq
  rw [BitVec.toNat_setWidth, hto, BitVec.toNat_ofNat]

/-- One digit is read. -/
theorem parseDigits_cons {k : Nat} (hbase : base.toNat < 2 ^ 31) (hc : c ≠ 0) (hk : k < 2 ^ 31)
    (hdigit : digitValue base c = some (BitVec.ofNat 32 k)) (c' : UInt8) (nptr : Bytes) (x : Nat)
    (endptr : Bytes) :
    parseDigits base c (c' :: nptr) (BitVec.ofNat w x) endptr =
      parseDigits base c' nptr (BitVec.ofNat w (x * base.toNat + k)) (c' :: nptr) := by
  have hext : base.signExtend w = BitVec.ofNat w base.toNat := by
    rw [← signExtend_ofNat w hbase, BitVec.ofNat_toNat, BitVec.setWidth_eq]
  rw [parseDigits.eq_def, if_neg hc, hdigit]
  dsimp only
  rw [hext, signExtend_ofNat w hk, BitVec.ofNat_add, BitVec.ofNat_mul]

/-- **A numeral is read** up to the NUL behind it. -/
theorem parseDigits_spells (hbase : base.toNat < 2 ^ 31) (h : Spells base (c :: text) ds) (x : Nat)
    (rest endptr : Bytes) :
    parseDigits base c (text ++ 0 :: rest) (BitVec.ofNat w x) endptr =
      some (BitVec.ofNat w (numeral base.toNat x ds), 0 :: rest) := by
  induction text generalizing c ds x endptr with
  | nil =>
      rcases h with _ | ⟨⟨hc, hk, hdigit⟩, hnil⟩
      cases hnil
      rw [List.nil_append, parseDigits_cons hbase hc hk hdigit, parseDigits.eq_def,
        if_pos rfl]
      rfl
  | cons c' text ih =>
      rcases h with _ | ⟨⟨hc, hk, hdigit⟩, htail⟩
      rw [List.cons_append, parseDigits_cons hbase hc hk hdigit, ih htail]
      rfl

/-! ## Where a numeral starts -/

theorem skipSpace_cons (hc : isspace c = false) (nptr : Bytes) :
    skipSpace (c :: nptr) = some (c, nptr) := by
  rw [skipSpace, hc]
  exact if_neg (fun h => Bool.false_ne_true h.2)

/-- A character that is no decimal digit is not in a decimal numeral. -/
theorem Spells.ne (h : Spells 10#32 (c :: text) ds) {d : UInt8}
    (hd : digitValue 10#32 d = none) : c ≠ d := by
  rintro rfl
  rcases h with _ | ⟨⟨-, -, hdigit⟩, -⟩
  rw [hd] at hdigit
  cases hdigit

theorem Spells.isspace_eq (h : Spells 10#32 (c :: text) ds) : isspace c = false := by
  have hspace : c ≠ ' '.toUInt8 := h.ne (by decide)
  have htab : c ≠ '\t'.toUInt8 := h.ne (by decide)
  have hreturn : c ≠ '\r'.toUInt8 := h.ne (by decide)
  have hnewline : c ≠ '\n'.toUInt8 := h.ne (by decide)
  rw [isspace, beq_eq_false_iff_ne.mpr hspace, beq_eq_false_iff_ne.mpr htab,
    beq_eq_false_iff_ne.mpr hreturn, beq_eq_false_iff_ne.mpr hnewline]
  rfl

/-- A decimal numeral does not start as a hexadecimal one. -/
theorem Spells.hexPrefix_eq (h : Spells 10#32 (c :: text) ds) (rest : Bytes) :
    hexPrefix c (text ++ 0 :: rest) = some none := by
  unfold hexPrefix
  split
  · cases text with
    | nil => exact if_neg (by decide)
    | cons c' text =>
        rcases h with _ | ⟨-, htail⟩
        have hx : c' ≠ 'x'.toUInt8 := Spells.ne htail (by decide)
        exact if_neg hx
  · rfl

/-- **`strtoi`** of a decimal numeral. -/
theorem strtoi_decimal (h : Spells 10#32 (c :: text) ds) (rest : Bytes) :
    strtoi (c :: text ++ 0 :: rest) 0#32 =
      some (BitVec.ofNat 32 (numeral 10 0 ds), 0 :: rest) := by
  have hminus : c ≠ '-'.toUInt8 := h.ne (by decide)
  rw [strtoi, List.cons_append, skipSpace_cons h.isspace_eq]
  dsimp only [Option.bind_eq_bind, Option.bind_some]
  rw [h.hexPrefix_eq]
  dsimp only [Option.bind_some]
  rw [if_pos rfl, if_neg hminus]
  exact parseDigits_spells (by decide) h 0 rest _

/-- `strtoi` of a decimal numeral with a sign. -/
theorem strtoi_negative (h : Spells 10#32 (c :: text) ds) (rest : Bytes) :
    strtoi ('-'.toUInt8 :: c :: text ++ 0 :: rest) 0#32 =
      some (-BitVec.ofNat 32 (numeral 10 0 ds), 0 :: rest) := by
  have hdigits := parseDigits_spells (w := 32) (by decide) h 0 rest
    ('-'.toUInt8 :: c :: (text ++ 0 :: rest))
  rw [strtoi, List.cons_append, List.cons_append, skipSpace_cons (by decide)]
  dsimp only [Option.bind_eq_bind, Option.bind_some]
  have hsign : hexPrefix '-'.toUInt8 (c :: (text ++ 0 :: rest)) = some none := if_neg (by decide)
  rw [hsign]
  dsimp only [Option.bind_some]
  rw [if_pos rfl, if_pos rfl]
  exact congrArg (Option.bind · _) hdigits

/-- `strtoi` of a hexadecimal numeral, whatever the base. -/
theorem strtoi_hexadecimal (h : Spells 16#32 (c :: text) ds) (rest : Bytes) (base : BitVec 32) :
    strtoi ('0'.toUInt8 :: 'x'.toUInt8 :: c :: text ++ 0 :: rest) base =
      some (BitVec.ofNat 32 (numeral 16 0 ds), 0 :: rest) := by
  rw [strtoi, List.cons_append, List.cons_append, List.cons_append, skipSpace_cons (by decide)]
  exact parseDigits_spells (by decide) h 0 rest _

/-- **`strtoul`** of a decimal numeral. -/
theorem strtoul_decimal (h : Spells 10#32 (c :: text) ds) (rest : Bytes)
    (hbase : base = 0#32 ∨ base = 10#32) :
    strtoul (c :: text ++ 0 :: rest) base =
      some (BitVec.ofNat 64 (numeral 10 0 ds), 0 :: rest) := by
  have hminus : c ≠ '-'.toUInt8 := h.ne (by decide)
  rw [strtoul, List.cons_append, skipSpace_cons h.isspace_eq]
  dsimp only [Option.bind_eq_bind, Option.bind_some]
  rw [h.hexPrefix_eq]
  dsimp only [Option.bind_some]
  rcases hbase with rfl | rfl
  · rw [if_pos rfl, if_neg hminus]
    exact parseDigits_spells (by decide) h 0 rest _
  · rw [if_neg (by decide)]
    exact parseDigits_spells (by decide) h 0 rest _

/-- `strtoul` of a hexadecimal numeral, whatever the base. -/
theorem strtoul_hexadecimal (h : Spells 16#32 (c :: text) ds) (rest : Bytes) (base : BitVec 32) :
    strtoul ('0'.toUInt8 :: 'x'.toUInt8 :: c :: text ++ 0 :: rest) base =
      some (BitVec.ofNat 64 (numeral 16 0 ds), 0 :: rest) := by
  rw [strtoul, List.cons_append, List.cons_append, List.cons_append, skipSpace_cons (by decide)]
  exact parseDigits_spells (by decide) h 0 rest _

/-! ## How far the memory is read

More memory changes nothing, and a string is read up to its NUL at most.
-/

theorem parseDigits_append {nptr endptr e : Bytes} {r v : BitVec w}
    (h : parseDigits base c nptr r endptr = some (v, e)) (more : Bytes) :
    parseDigits base c (nptr ++ more) r (endptr ++ more) = some (v, e ++ more) := by
  induction nptr generalizing c r endptr with
  | nil =>
      rw [parseDigits.eq_def] at h ⊢
      split at h
      · rename_i hc
        cases h
        rw [if_pos hc]
      · rename_i hc
        rw [if_neg hc]
        cases hdigit : digitValue base c with
        | none =>
            rw [hdigit] at h
            cases h
            rfl
        | some d =>
            rw [hdigit] at h
            cases h
  | cons c' nptr ih =>
      rw [parseDigits.eq_def] at h ⊢
      split at h
      · rename_i hc
        cases h
        rw [if_pos hc]
      · rename_i hc
        rw [if_neg hc]
        cases hdigit : digitValue base c with
        | none =>
            rw [hdigit] at h
            cases h
            rfl
        | some d =>
            rw [hdigit] at h
            exact ih h

theorem skipSpace_append {nptr rest : Bytes} (h : skipSpace nptr = some (c, rest)) (more : Bytes) :
    skipSpace (nptr ++ more) = some (c, rest ++ more) := by
  induction nptr with
  | nil => cases h
  | cons c' nptr ih =>
      rw [skipSpace] at h
      rw [List.cons_append, skipSpace]
      split at h
      · rename_i hspace
        rw [if_pos hspace]
        exact ih h
      · rename_i hspace
        cases h
        rw [if_neg hspace]

theorem hexPrefix_append {nptr : Bytes} {r : Option (UInt8 × Bytes)}
    (h : hexPrefix c nptr = some r) (more : Bytes) :
    hexPrefix c (nptr ++ more) = some (r.map fun p => (p.1, p.2 ++ more)) := by
  unfold hexPrefix at h ⊢
  split at h
  · rename_i hc
    rw [if_pos hc]
    match nptr, h with
    | x :: nptr, h =>
        dsimp only at h
        rw [List.cons_append]
        dsimp only
        split at h
        · rename_i hx
          rw [if_pos hx]
          match nptr, h with
          | c' :: nptr, h =>
              cases h
              rfl
        · rename_i hx
          cases h
          rw [if_neg hx]
          rfl
  · rename_i hc
    cases h
    rw [if_neg hc]
    rfl

/-- `strtoi` with a base, behind the spaces and the prefix. -/
theorem strtoi_eq {nptr rest : Bytes} {r : Option (UInt8 × Bytes)}
    (hskip : skipSpace nptr = some (c, rest)) (hhex : hexPrefix c rest = some r)
    (hbase : base ≠ 0#32) :
    strtoi nptr base = r.elim (parseDigits base c rest 0#32 nptr)
      fun p => parseDigits 16#32 p.1 p.2 0#32 nptr := by
  rw [strtoi, hskip]
  dsimp only [Option.bind_eq_bind, Option.bind_some]
  rw [hhex]
  cases r with
  | none => exact if_neg hbase
  | some p => rfl

/-- **More memory** behind what `strtoi` reads. -/
theorem strtoi_append {nptr e : Bytes} {v : BitVec 32} (h : strtoi nptr base = some (v, e))
    (hbase : base ≠ 0#32) (more : Bytes) :
    strtoi (nptr ++ more) base = some (v, e ++ more) := by
  have hread := h
  rw [strtoi] at hread
  obtain ⟨⟨c, rest⟩, hskip, hread⟩ := Option.bind_eq_some_iff.mp hread
  obtain ⟨r, hhex, -⟩ := Option.bind_eq_some_iff.mp hread
  rw [strtoi_eq hskip hhex hbase] at h
  rw [strtoi_eq (skipSpace_append hskip more) (hexPrefix_append hhex more) hbase]
  cases r with
  | none => exact parseDigits_append h more
  | some p => exact parseDigits_append h more

theorem digitValue_lt {d : BitVec 32} (h : digitValue 16#32 c = some d) : d.toNat < 16 := by
  have hall : ∀ n : Fin 256,
      (digitValue 16#32 (UInt8.ofFin n)).all (fun d => decide (d.toNat < 16)) = true := by
    decide +kernel
  have hc : (digitValue 16#32 c).all (fun d => decide (d.toNat < 16)) = true := hall c.toFin
  rw [h, Option.all_some] at hc
  exact of_decide_eq_true hc

theorem toNat_nextDigit {m : Nat} {r d : BitVec 32} (hr : r.toNat < 16 ^ m) (hd : d.toNat < 16)
    (hm : m < 8) :
    (r * (16#32).signExtend 32 + d.signExtend 32).toNat < 16 ^ (m + 1) := by
  have hnext : 16 ^ (m + 1) = 16 ^ m * 16 := pow_succ 16 m
  have hpow : 16 ^ (m + 1) ≤ 16 ^ 8 := Nat.pow_le_pow_right (by decide) hm
  have hbase : (16#32).toNat = 16 := by decide
  rw [BitVec.signExtend_eq, BitVec.signExtend_eq, BitVec.toNat_add, BitVec.toNat_mul, hbase]
  omega

/-- Hexadecimal digits up to a NUL, behind `m` of them. -/
theorem parseDigits_string {m : Nat} {text rest nptr : Bytes} {r : BitVec 32}
    (hstring : c :: nptr = text ++ 0 :: rest) (hr : r.toNat < 16 ^ m) (hm : m + text.length ≤ 8)
    {endptr : Bytes} (hend : endptr ≠ []) :
    ∃ v e, parseDigits 16#32 c nptr r endptr = some (v, e) ∧
      v.toNat < 16 ^ (m + text.length) ∧ e ≠ [] := by
  have hstop : ∃ v e, some (r, endptr) = some (v, e) ∧ v.toNat < 16 ^ (m + text.length) ∧ e ≠ [] :=
    ⟨r, endptr, rfl, hr.trans_le (Nat.pow_le_pow_right (by decide) (by lia)), hend⟩
  induction text generalizing c nptr m r endptr with
  | nil =>
      cases hstring
      rw [parseDigits.eq_def, if_pos rfl]
      exact hstop
  | cons c text ih =>
      rw [List.cons_append] at hstring
      obtain ⟨rfl, hnptr⟩ := List.cons.inj hstring
      obtain ⟨c', nptr', hnext⟩ := List.exists_cons_of_ne_nil
        (show text ++ 0 :: rest ≠ [] by simp)
      rw [List.length_cons] at hm hstop ⊢
      rw [hnptr, hnext, parseDigits.eq_def]
      split
      · exact hstop
      · cases hdigit : digitValue 16#32 c with
        | none => exact hstop
        | some d =>
            have hr' := toNat_nextDigit hr (digitValue_lt hdigit) (by lia)
            have hsum : m + (text.length + 1) = m + 1 + text.length := by lia
            rw [hsum]
            exact ih hnext.symm hr' (by lia) (List.cons_ne_nil _ _)
              ⟨_, _, rfl, hr'.trans_le (Nat.pow_le_pow_right (by decide) (by lia)),
                List.cons_ne_nil _ _⟩

/-- The spaces before a string. -/
theorem skipSpace_string (text rest : Bytes) :
    ∃ text' : Bytes, text'.length ≤ text.length ∧
      ∃ c nptr, skipSpace (text ++ 0 :: rest) = some (c, nptr) ∧
        c :: nptr = text' ++ 0 :: rest := by
  induction text with
  | nil => exact ⟨[], le_refl _, 0, rest, rfl, rfl⟩
  | cons c text ih =>
      rw [List.cons_append, skipSpace]
      split
      · obtain ⟨text', hlen, hskip⟩ := ih
        exact ⟨text', Nat.le_succ_of_le hlen, hskip⟩
      · exact ⟨c :: text, le_refl _, c, text ++ 0 :: rest, rfl, rfl⟩

/-- The prefix of a string. -/
theorem hexPrefix_string {text rest nptr : Bytes} (hstring : c :: nptr = text ++ 0 :: rest) :
    hexPrefix c nptr = some none ∨
      ∃ text' : Bytes, text'.length ≤ text.length ∧
        ∃ c' nptr', hexPrefix c nptr = some (some (c', nptr')) ∧
          c' :: nptr' = text' ++ 0 :: rest := by
  unfold hexPrefix
  split
  · match text, hstring with
    | [], hstring =>
        cases hstring
        contradiction
    | [_], hstring =>
        cases hstring
        exact Or.inl (if_neg (by decide))
    | _ :: x :: text, hstring =>
        cases hstring
        dsimp only [List.append_eq, List.cons_append]
        split
        · obtain ⟨c', nptr', hnext⟩ := List.exists_cons_of_ne_nil
            (show text ++ 0 :: rest ≠ [] by simp)
          rw [hnext]
          exact Or.inr ⟨text, by simp; omega, c', nptr', rfl, hnext.symm⟩
        · exact Or.inl rfl
  · exact Or.inl rfl

/-- **`strtoi` of a short string** to base 16: all of the string and its NUL are enough to read, and
the number has no more digits than the string. -/
theorem strtoi_string (text rest : Bytes) (hlen : text.length ≤ 8) :
    ∃ v e, strtoi (text ++ 0 :: rest) 16#32 = some (v, e) ∧ v.toNat < 16 ^ text.length ∧
      e ≠ [] := by
  have hdigits : ∀ {text' nptr : Bytes} {c : UInt8}, text'.length ≤ text.length →
      c :: nptr = text' ++ 0 :: rest →
      ∃ v e, parseDigits 16#32 c nptr 0#32 (text ++ 0 :: rest) = some (v, e) ∧
        v.toNat < 16 ^ text.length ∧ e ≠ [] := by
    intro text' nptr c hle hstring
    obtain ⟨v, e, hv, hlt, he⟩ := parseDigits_string hstring (r := 0#32) (m := 0) (by simp)
      (by omega) (show text ++ 0 :: rest ≠ [] by simp)
    exact ⟨v, e, hv, hlt.trans_le (Nat.pow_le_pow_right (by decide) (by omega)), he⟩
  obtain ⟨text', hle, c, nptr, hskip, hstring⟩ := skipSpace_string text rest
  rcases hexPrefix_string hstring with hnone | ⟨text'', hle', c', nptr', hsome, hstring'⟩
  · rw [strtoi_eq hskip hnone (by decide)]
    exact hdigits hle hstring
  · rw [strtoi_eq hskip hsome (by decide)]
    exact hdigits (hle'.trans hle) hstring'

end Util
end CrosEc
