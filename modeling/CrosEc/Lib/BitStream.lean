import Mathlib.Data.Nat.Bitwise

/-!
# Bit streams in bytes, most significant bit first

A memory of bytes read as a stream of bits: bit `m` is bit `7 - m % 8` of byte `m / 8`.
`Filled` is the invariant of a writer that fills such a memory from the front and clears the
rest of the byte it stands in.
-/

namespace CrosEc
namespace Lib

/-- Bit `m` of the stream. -/
def streamBit (mem : Nat → UInt8) (m : Nat) : Bool := (mem (m / 8)).toNat.testBit (7 - m % 8)

/-- The first `o` bits of the memory are those of `f`, and the last byte begun is clear behind
them. -/
def Filled (mem : Nat → UInt8) (o : Nat) (f : Nat → Bool) : Prop :=
  ∀ m, m / 8 < (o + 7) / 8 → streamBit mem m = (decide (m < o) && f m)

theorem Filled.zero (mem : Nat → UInt8) (f : Nat → Bool) : Filled mem 0 f := by
  intro m hm
  omega

theorem streamBit_update_self (mem : Nat → UInt8) (v : UInt8) (m : Nat) :
    streamBit (Function.update mem (m / 8) v) m = v.toNat.testBit (7 - m % 8) := by
  simp [streamBit]

theorem streamBit_update_of_ne (mem : Nat → UInt8) (v : UInt8) {m i : Nat} (h : m / 8 ≠ i) :
    streamBit (Function.update mem i v) m = streamBit mem m := by
  simp [streamBit, h]

/-- **Step lemma.** The writer goes on inside the byte it stands in, or begins the next one. -/
theorem Filled.update {mem : Nat → UInt8} {o o' : Nat} {f : Nat → Bool} (h : Filled mem o f)
    {v : UInt8} (hlt : o < o') (hbyte : o' ≤ 8 * (o / 8) + 8)
    (hv : ∀ m, m / 8 = o / 8 → v.toNat.testBit (7 - m % 8) = (decide (m < o') && f m)) :
    Filled (Function.update mem (o / 8) v) o' f := by
  intro m hm
  by_cases hself : m / 8 = o / 8
  · rw [← hself, streamBit_update_self]
    exact hv m hself
  · -- the byte was complete before
    have hold : m / 8 < o / 8 := by lia
    rw [streamBit_update_of_ne mem v hself, h m (by lia)]
    have h1 : m < o := by lia
    have h2 : m < o' := by lia
    simp [h1, h2]

/-- The part of the byte the writer stands in that is written already. -/
theorem Filled.testBit_current {mem : Nat → UInt8} {o : Nat} {f : Nat → Bool} (h : Filled mem o f)
    (hmid : o % 8 ≠ 0) {m : Nat} (hm : m / 8 = o / 8) :
    (mem (o / 8)).toNat.testBit (7 - m % 8) = (decide (m < o) && f m) := by
  rw [← hm]
  exact h m (by omega)

theorem testBit_byte_of_le (b : UInt8) {k : Nat} (hk : 8 ≤ k) : b.toNat.testBit k = false :=
  Nat.testBit_lt_two_pow (lt_of_lt_of_le b.toNat_lt (Nat.pow_le_pow_right (by decide) hk))

/-- Moving inside a byte. -/
theorem streamBit_add_of_lt (mem : Nat → UInt8) {i j : Nat} (h : i % 8 + j < 8) :
    streamBit mem (i + j) = (mem (i / 8)).toNat.testBit (7 - (i % 8 + j)) := by
  have hdiv : (i + j) / 8 = i / 8 := by omega
  have hmod : (i + j) % 8 = i % 8 + j := by omega
  rw [streamBit, hdiv, hmod]

/-- Moving to the next byte. -/
theorem streamBit_add_of_le (mem : Nat → UInt8) {i j : Nat} (h : 8 ≤ i % 8 + j)
    (hj : i % 8 + j < 16) :
    streamBit mem (i + j) = (mem (i / 8 + 1)).toNat.testBit (15 - (i % 8 + j)) := by
  have hdiv : (i + j) / 8 = i / 8 + 1 := by lia
  have hmod : 7 - (i + j) % 8 = 15 - (i % 8 + j) := by lia
  rw [streamBit, hdiv, hmod]

theorem testBit_ofNat (x : Nat) {k : Nat} (hk : k < 8) :
    (UInt8.ofNat x).toNat.testBit k = x.testBit k := by
  rw [UInt8.toNat_ofNat', Nat.testBit_mod_two_pow]
  simp [hk]

/-- Bits that are or-ed into a byte behind those written already. -/
theorem testBit_or_behind {old : UInt8} {o o' x m : Nat} {f : Nat → Bool} (hlt : o < o')
    (hold : old.toNat.testBit (7 - m % 8) = (decide (m < o) && f m))
    (hx : x.testBit (7 - m % 8) = (decide (o ≤ m ∧ m < o') && f m)) :
    (old ||| UInt8.ofNat x).toNat.testBit (7 - m % 8) = (decide (m < o') && f m) := by
  rw [UInt8.toNat_or, Nat.testBit_or, hold, testBit_ofNat x (by omega), hx]
  by_cases hmo : m < o
  · have hmo' : m < o' := by omega
    simp [hmo, hmo']
  · simp [hmo, Nat.not_lt.1 hmo]

end Lib
end CrosEc
