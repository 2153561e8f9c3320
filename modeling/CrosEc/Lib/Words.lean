import Mathlib.Algebra.BigOperators.Ring.Finset
import Mathlib.Tactic

/-!
# Numbers in words of 32 bits

A number lies in a memory of words with its least significant word first.  `value d off n` is the
number in the `n` words from `off` on.

The operations on such numbers are loops that go up through the words with a carry.  `carryLoop`
is this loop for any term that is added to a word, and says what it does at once: of the sum of
all terms it leaves the remainder in the words and the quotient in the carry
(`value_carryLoop`, `carry_carryLoop`), and it does not touch another word.
-/

namespace CrosEc
namespace Lib

/-- A memory of 32-bit words. -/
abbrev Words := Nat → UInt32

namespace Words

/-- A memory that starts with the words of a list. -/
def ofList (l : List UInt32) : Words := fun i => l.getD i 0

/-- The weight of a word relative to the one below it. -/
def radix : Nat := 2 ^ 32

theorem radix_pos : 0 < radix := by decide

theorem radix_pow_pos (n : Nat) : 0 < radix ^ n := Nat.pow_pos radix_pos

theorem toNat_lt_radix (x : UInt32) : x.toNat < radix := x.toNat_lt

/-- `(uint32_t) x` -/
def toWord (x : Int) : UInt32 := UInt32.ofNat (x % 2 ^ 32).toNat

theorem toNat_toWord (x : Int) : ((toWord x).toNat : Int) = x % (radix : Int) := by
  have hlow : 0 ≤ x % 2 ^ 32 := Int.emod_nonneg _ (by decide)
  have hhigh : x % 2 ^ 32 < 2 ^ 32 := Int.emod_lt_of_pos _ (by decide)
  have hlt : (x % 2 ^ 32).toNat < 2 ^ 32 := by omega
  rw [toWord, UInt32.toNat_ofNat_of_lt' hlt, Int.toNat_of_nonneg hlow]
  rfl

theorem toNat_toWord_of_lt {x : Int} (hlow : 0 ≤ x) (hhigh : x < radix) :
    ((toWord x).toNat : Int) = x := by
  rw [toNat_toWord, Int.emod_eq_of_lt hlow hhigh]

theorem toNat_toWord_natCast {x : Nat} (h : x < radix) : (toWord (x : Int)).toNat = x := by
  have hx := toNat_toWord_of_lt (Int.natCast_nonneg x) (Int.ofNat_lt.mpr h)
  exact Int.ofNat_inj.mp hx

/-! ## Sums over the words -/

/-- The sum of `n` terms, each with the weight of its word. -/
def weigh (f : Nat → Int) (n : Nat) : Int := ∑ i ∈ Finset.range n, f i * (radix : Int) ^ i

section Weigh

variable {f g : Nat → Int} {n : Nat}

@[simp]
theorem weigh_zero (f : Nat → Int) : weigh f 0 = 0 := rfl

theorem weigh_succ (f : Nat → Int) (n : Nat) :
    weigh f (n + 1) = weigh f n + f n * (radix : Int) ^ n := Finset.sum_range_succ _ n

theorem weigh_add (f g : Nat → Int) (n : Nat) :
    weigh (fun i => f i + g i) n = weigh f n + weigh g n := by
  simp only [weigh, add_mul, Finset.sum_add_distrib]

theorem weigh_sub (f g : Nat → Int) (n : Nat) :
    weigh (fun i => f i - g i) n = weigh f n - weigh g n := by
  simp only [weigh, sub_mul, Finset.sum_sub_distrib]

theorem weigh_mul (f : Nat → Int) (k : Int) (n : Nat) :
    weigh (fun i => f i * k) n = weigh f n * k := by
  rw [weigh, weigh, Finset.sum_mul]
  exact Finset.sum_congr rfl fun i _ => by ring

/-- The largest number of `n` words. -/
theorem weigh_max (n : Nat) : weigh (fun _ => radix - 1) n = (radix : Int) ^ n - 1 := by
  induction n with
  | zero => rfl
  | succ n ih => rw [weigh_succ, ih]; ring

end Weigh

/-! ## The number in some words -/

/-- The number in `n` words from `off` on. -/
def value (d : Words) (off n : Nat) : Nat :=
  ∑ i ∈ Finset.range n, (d (off + i)).toNat * radix ^ i

section Value

variable {c d : Words} {off off' m n : Nat}

@[simp]
theorem value_zero (d : Words) (off : Nat) : value d off 0 = 0 := rfl

theorem value_succ (d : Words) (off n : Nat) :
    value d off (n + 1) = value d off n + (d (off + n)).toNat * radix ^ n :=
  Finset.sum_range_succ _ n

theorem value_one (d : Words) (off : Nat) : value d off 1 = (d off).toNat := by
  simp [value]

theorem value_eq_weigh (d : Words) (off n : Nat) :
    (value d off n : Int) = weigh (fun i => ((d (off + i)).toNat : Int)) n := by
  simp only [value, weigh, Nat.cast_sum, Nat.cast_mul, Nat.cast_pow]

theorem value_congr (h : ∀ i < n, c (off + i) = d (off' + i)) :
    value c off n = value d off' n :=
  Finset.sum_congr rfl fun i hi => by rw [h i (Finset.mem_range.mp hi)]

theorem value_lt (d : Words) (off n : Nat) : value d off n < radix ^ n := by
  induction n with
  | zero => simp
  | succ n ih =>
      have hword : (d (off + n)).toNat + 1 ≤ radix := toNat_lt_radix _
      calc value d off (n + 1)
          = value d off n + (d (off + n)).toNat * radix ^ n := value_succ ..
        _ < ((d (off + n)).toNat + 1) * radix ^ n := by rw [Nat.succ_mul]; omega
        _ ≤ radix * radix ^ n := Nat.mul_le_mul_right _ hword
        _ = radix ^ (n + 1) := by rw [Nat.pow_succ, Nat.mul_comm]

/-- Low words and high words. -/
theorem value_add (d : Words) (off m n : Nat) :
    value d off (m + n) = value d off m + radix ^ m * value d (off + m) n := by
  induction n with
  | zero => simp
  | succ n ih => rw [← Nat.add_assoc, value_succ, ih, value_succ, ← Nat.add_assoc]; ring

theorem value_eq_zero (h : ∀ i < n, d (off + i) = 0) : value d off n = 0 :=
  Finset.sum_eq_zero fun i hi => by rw [h i (Finset.mem_range.mp hi)]; simp

/-- Words that are clear do not count. -/
theorem value_of_clear (hmn : m ≤ n) (h : ∀ i, m ≤ i → i < n → d (off + i) = 0) :
    value d off n = value d off m := by
  obtain ⟨k, rfl⟩ := Nat.exists_eq_add_of_le hmn
  have hhigh : value d (off + m) k = 0 :=
    value_eq_zero fun i hi => by rw [Nat.add_assoc]; exact h _ (by omega) (by omega)
  rw [value_add, hhigh, Nat.mul_zero, Nat.add_zero]

theorem value_mod (d : Words) (off m n : Nat) :
    value d off (m + n) % radix ^ m = value d off m := by
  rw [value_add, Nat.add_mul_mod_self_left, Nat.mod_eq_of_lt (value_lt d off m)]

theorem value_div (d : Words) (off m n : Nat) :
    value d off (m + n) / radix ^ m = value d (off + m) n := by
  rw [value_add, Nat.add_mul_div_left _ _ (radix_pow_pos m),
    Nat.div_eq_of_lt (value_lt d off m), Nat.zero_add]

/-- A word is a digit of the number. -/
theorem toNat_eq_digit {i : Nat} (hi : i < n) :
    (d (off + i)).toNat = value d off n / radix ^ i % radix := by
  obtain ⟨k, rfl⟩ := Nat.exists_eq_add_of_lt hi
  have hlow := value_mod d (off + i) 1 k
  rw [value_one, Nat.pow_one] at hlow
  rw [show i + k + 1 = i + (1 + k) by omega, value_div, hlow]

/-- The word of a number that has the weight `radix ^ i`. -/
def wordAt (x i : Nat) : UInt32 := UInt32.ofNat (x / radix ^ i)

theorem wordAt_value {i : Nat} (hi : i < n) : wordAt (value d off n) i = d (off + i) := by
  rw [← UInt32.toNat_inj, wordAt, UInt32.toNat_ofNat', toNat_eq_digit hi]
  rfl

/-- The words of a number -/
theorem value_wordAt (x n : Nat) : value (wordAt x) 0 n = x % radix ^ n := by
  induction n with
  | zero => rw [value_zero, pow_zero, Nat.mod_one]
  | succ n ih =>
      have hword : (wordAt x n).toNat = x / radix ^ n % radix := UInt32.toNat_ofNat'
      rw [value_succ, Nat.zero_add, ih, hword, Nat.mod_pow_succ, Nat.mul_comm]

theorem eq_of_value_eq (h : value c off n = value d off' n) {i : Nat} (hi : i < n) :
    c (off + i) = d (off' + i) :=
  UInt32.toNat.inj (by rw [toNat_eq_digit hi, toNat_eq_digit hi, h])

theorem value_update_of_notMem (x : UInt32) {j : Nat} (hj : j < off ∨ off + n ≤ j) :
    value (Function.update d j x) off n = value d off n :=
  value_congr fun i hi => Function.update_of_ne (by omega) ..

/-- A word behind the number. -/
theorem value_update_top (d : Words) (x : UInt32) (off n : Nat) :
    value (Function.update d (off + n) x) off (n + 1) =
      value d off n + x.toNat * radix ^ n := by
  rw [value_succ, value_update_of_notMem x (Or.inr le_rfl), Function.update_self]

end Value

/-! ## The loop with a carry -/

/-- `for (i = 0; i < n; i++) { A += term(i, c[off + i]); c[off + i] = (uint32_t) A; A >>= 32; }` -/
def carryLoop (term : Nat → UInt32 → Int) (off : Nat) : Nat → Int × Words → Int × Words
  | 0, s => s
  | i + 1, s =>
      let s := carryLoop term off i s
      let A := s.1 + term i (s.2 (off + i))
      (A / radix, Function.update s.2 (off + i) (toWord A))

section CarryLoop

variable {term : Nat → UInt32 → Int} {off n : Nat} {A : Int} {c : Words}

theorem carryLoop_succ (term : Nat → UInt32 → Int) (off i : Nat) (s : Int × Words) :
    carryLoop term off (i + 1) s =
      (((carryLoop term off i s).1 + term i ((carryLoop term off i s).2 (off + i))) / radix,
        Function.update (carryLoop term off i s).2 (off + i)
          (toWord ((carryLoop term off i s).1 + term i ((carryLoop term off i s).2 (off + i))))) := by
  rw [carryLoop]

/-- **Frame.** -/
theorem carryLoop_of_notMem {j : Nat} (hj : j < off ∨ off + n ≤ j) :
    (carryLoop term off n (A, c)).2 j = c j := by
  induction n with
  | zero => rfl
  | succ n ih =>
      have hne : j ≠ off + n := by omega
      rw [carryLoop_succ]
      exact (Function.update_of_ne hne ..).trans (ih (by omega))

/-- **Run lemma.** Words and carry together keep the sum of the terms. -/
theorem carryLoop_sum (term : Nat → UInt32 → Int) (off n : Nat) (A : Int) (c : Words) :
    (value (carryLoop term off n (A, c)).2 off n : Int) +
        (carryLoop term off n (A, c)).1 * (radix : Int) ^ n =
      A + weigh (fun i => term i (c (off + i))) n := by
  induction n with
  | zero => simp [carryLoop]
  | succ n ih =>
      have hword : (carryLoop term off n (A, c)).2 (off + n) = c (off + n) :=
        carryLoop_of_notMem (Or.inr le_rfl)
      simp only [carryLoop_succ, value_update_top, hword, weigh_succ, Nat.cast_add, Nat.cast_mul,
        Nat.cast_pow, toNat_toWord]
      have hdiv := Int.emod_add_mul_ediv
        ((carryLoop term off n (A, c)).1 + term n (c (off + n))) radix
      linear_combination ih + (radix : Int) ^ n * hdiv

theorem carryLoop_value_lt (term : Nat → UInt32 → Int) (off n : Nat) (s : Int × Words) :
    (value (carryLoop term off n s).2 off n : Int) < (radix : Int) ^ n := by
  exact_mod_cast value_lt (carryLoop term off n s).2 off n

theorem value_carryLoop (term : Nat → UInt32 → Int) (off n : Nat) (A : Int) (c : Words) :
    (value (carryLoop term off n (A, c)).2 off n : Int) =
      (A + weigh (fun i => term i (c (off + i))) n) % (radix : Int) ^ n := by
  rw [← carryLoop_sum, Int.add_mul_emod_self_right,
    Int.emod_eq_of_lt (Int.natCast_nonneg _) (carryLoop_value_lt ..)]

theorem carry_carryLoop (term : Nat → UInt32 → Int) (off n : Nat) (A : Int) (c : Words) :
    (carryLoop term off n (A, c)).1 =
      (A + weigh (fun i => term i (c (off + i))) n) / (radix : Int) ^ n := by
  have hpos : (0 : Int) < (radix : Int) ^ n := by exact_mod_cast radix_pow_pos n
  rw [← carryLoop_sum, Int.add_mul_ediv_right _ _ hpos.ne',
    Int.ediv_eq_zero_of_lt (Int.natCast_nonneg _) (carryLoop_value_lt ..), Int.zero_add]

end CarryLoop

end Words
end Lib
end CrosEc
