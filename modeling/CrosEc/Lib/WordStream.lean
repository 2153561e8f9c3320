import Mathlib.Tactic

/-!
# Bit streams in words, least significant bit first

A memory of 32-bit words read as a stream of bits: bit `m` is bit `m % 32` of word `m / 32`.
`HoldsBits` is the invariant of a writer that fills such a memory from the front and clears the
rest of the word it stands in; it appends bits to that word (`HoldsBits.append_within`) or to
it and the next one (`HoldsBits.append_across`).

The other end of a line is a shift register, which takes its bits in at the top
(`getLsbD_foldl_shiftIn`).
-/

namespace CrosEc
namespace Lib

/-- Bit `m` of the memory. -/
def wordBit (mem : Nat → BitVec 32) (m : Nat) : Bool := (mem (m / 32)).getLsbD (m % 32)

/-- The memory begins with these bits, and the last word begun is clear behind them. -/
def HoldsBits (mem : Nat → BitVec 32) (bits : List Bool) : Prop :=
  ∀ m, m / 32 < (bits.length + 31) / 32 → wordBit mem m = bits.getD m false

section Writer

variable {mem : Nat → BitVec 32} {bits new : List Bool} {v : BitVec 32}

theorem wordBit_update_self (mem : Nat → BitVec 32) (v : BitVec 32) {m i : Nat} (h : m / 32 = i) :
    wordBit (Function.update mem i v) m = v.getLsbD (m % 32) := by
  rw [wordBit, h, Function.update_self]

theorem wordBit_update_of_ne (mem : Nat → BitVec 32) (v : BitVec 32) {m i : Nat}
    (h : m / 32 ≠ i) : wordBit (Function.update mem i v) m = wordBit mem m := by
  rw [wordBit, Function.update_of_ne h, wordBit]

theorem getD_append_left {m : Nat} (h : m < bits.length) :
    (bits ++ new).getD m false = bits.getD m false := by
  simp [List.getD_eq_getElem?_getD, List.getElem?_append_left h]

theorem getD_append_right {m : Nat} (h : bits.length ≤ m) :
    (bits ++ new).getD m false = new.getD (m - bits.length) false := by
  simp [List.getD_eq_getElem?_getD, List.getElem?_append_right h]

theorem getD_of_le {m : Nat} (h : bits.length ≤ m) : bits.getD m false = false := by
  simp [List.getD_eq_getElem?_getD, List.getElem?_eq_none h]

/-- The word the writer stands in, behind which new bits are or-ed in. -/
theorem HoldsBits.getLsbD_or (h : HoldsBits mem bits) {old : BitVec 32}
    (hold : old = if bits.length % 32 = 0 then 0#32 else mem (bits.length / 32))
    (hv : ∀ j, v.getLsbD j = new.getD j false) {m : Nat} (hm : m / 32 = bits.length / 32) :
    (old ||| v <<< (bits.length % 32)).getLsbD (m % 32) = (bits ++ new).getD m false := by
  have hm32 : m % 32 < 32 := Nat.mod_lt _ (by decide)
  have hwritten : old.getLsbD (m % 32) = bits.getD m false := by
    rw [hold]
    split_ifs with hstart
    · rw [getD_of_le (by lia), BitVec.getLsbD_zero]
    · have hbit := h m (by lia)
      rwa [wordBit, hm] at hbit
  rw [BitVec.getLsbD_or, BitVec.getLsbD_shiftLeft, hwritten, hv]
  by_cases hlt : m < bits.length
  · have hshift : m % 32 < bits.length % 32 := by lia
    rw [getD_append_left hlt]
    simp [hshift]
  · have hshift : ¬ m % 32 < bits.length % 32 := by lia
    have hidx : m % 32 - bits.length % 32 = m - bits.length := by lia
    rw [getD_append_right (by lia), getD_of_le (by lia), hidx]
    simp [hm32, hshift]

/-- **Step lemma.** The new bits fit into the word. -/
theorem HoldsBits.append_within (h : HoldsBits mem bits)
    (hv : ∀ j, v.getLsbD j = new.getD j false) (hfits : bits.length % 32 + new.length ≤ 32) :
    HoldsBits (Function.update mem (bits.length / 32)
      ((if bits.length % 32 = 0 then 0#32 else mem (bits.length / 32)) |||
        v <<< (bits.length % 32))) (bits ++ new) := by
  intro m hm
  rw [List.length_append] at hm
  by_cases hself : m / 32 = bits.length / 32
  · rw [wordBit_update_self _ _ hself]
    exact h.getLsbD_or rfl hv hself
  · -- The word was complete before.
    have hlt : m < bits.length := by lia
    rw [wordBit_update_of_ne _ _ hself, getD_append_left hlt]
    exact h m (by lia)

/-- **Step lemma.** The new bits begin the next word. -/
theorem HoldsBits.append_across (h : HoldsBits mem bits)
    (hv : ∀ j, v.getLsbD j = new.getD j false) (hmid : bits.length % 32 ≠ 0)
    (hnew : new.length ≤ 32) :
    HoldsBits (Function.update
      (Function.update mem (bits.length / 32)
        (mem (bits.length / 32) ||| v <<< (bits.length % 32)))
      (bits.length / 32 + 1) (v >>> (32 - bits.length % 32))) (bits ++ new) := by
  intro m hm
  rw [List.length_append] at hm
  by_cases hnext : m / 32 = bits.length / 32 + 1
  · have hidx : 32 - bits.length % 32 + m % 32 = m - bits.length := by lia
    rw [wordBit_update_self _ _ hnext, BitVec.getLsbD_ushiftRight, hv,
      getD_append_right (by lia), hidx]
  · rw [wordBit_update_of_ne _ _ hnext]
    by_cases hself : m / 32 = bits.length / 32
    · rw [wordBit_update_self _ _ hself]
      exact h.getLsbD_or (by rw [if_neg hmid]) hv hself
    · have hlt : m < bits.length := by lia
      rw [wordBit_update_of_ne _ _ hself, getD_append_left hlt]
      exact h m (by lia)

/-- A zero behind the bits: the word is clear, or the next word is cleared for it. -/
theorem HoldsBits.append_false (h : HoldsBits mem bits) :
    HoldsBits (Function.update mem ((bits.length + 31) / 32) 0#32) (bits ++ [false]) := by
  have hgetD : ∀ m, (bits ++ [false]).getD m false = bits.getD m false := by
    intro m
    by_cases hlt : m < bits.length
    · exact getD_append_left hlt
    · rw [getD_append_right (by lia), getD_of_le (by lia : bits.length ≤ m)]
      cases m - bits.length <;> rfl
  intro m hm
  rw [List.length_append, List.length_singleton] at hm
  rw [hgetD]
  by_cases hself : m / 32 = (bits.length + 31) / 32
  · rw [wordBit_update_self _ _ hself, BitVec.getLsbD_zero, getD_of_le (by lia)]
  · rw [wordBit_update_of_ne _ _ hself]
    exact h m (by lia)

/-- The first `n` bits of a memory. -/
def firstBits (mem : Nat → BitVec 32) (n : Nat) : List Bool := (List.range n).map (wordBit mem)

theorem HoldsBits.firstBits_eq (h : HoldsBits mem bits) : firstBits mem bits.length = bits := by
  apply List.ext_getElem
  · simp [firstBits]
  · intro i hi hi'
    have hlt : i < bits.length := hi'
    simp only [firstBits, List.getElem_map, List.getElem_range]
    rw [h i (by omega), List.getD_eq_getElem?_getD, List.getElem?_eq_getElem hlt,
      Option.getD_some]

end Writer

/-! ## Shift registers -/

/-- A bit enters at the top. -/
def shiftIn {w : Nat} (d : BitVec w) (b : Bool) : BitVec w :=
  (d >>> 1) ||| if b then BitVec.twoPow w (w - 1) else 0#w

variable {w : Nat}

theorem getLsbD_shiftIn (d : BitVec w) (b : Bool) {i : Nat} (hi : i < w) :
    (shiftIn d b).getLsbD i = if i + 1 = w then b else d.getLsbD (i + 1) := by
  rw [shiftIn, BitVec.getLsbD_or, BitVec.getLsbD_ushiftRight, Nat.add_comm 1 i]
  by_cases htop : i + 1 = w
  · have hidx : w - 1 = i := by omega
    cases b with
    | false => simp [htop]
    | true => simp [htop, hidx, hi]
  · have hidx : w - 1 ≠ i := by omega
    cases b with
    | false => simp [htop]
    | true => simp [htop, hidx]

/-- **The register after a list of bits**: the bits at the top, the first of them lowest, and
the old contents below. -/
theorem getLsbD_foldl_shiftIn (bs : List Bool) (d : BitVec w) {i : Nat} (hi : i < w)
    (hlen : bs.length ≤ w) :
    (bs.foldl shiftIn d).getLsbD i =
      if i + bs.length < w then d.getLsbD (i + bs.length)
      else bs.getD (i + bs.length - w) false := by
  induction bs generalizing d with
  | nil => simp [hi]
  | cons b bs ih =>
      rw [List.length_cons] at hlen
      rw [List.foldl_cons, ih _ (by lia), List.length_cons]
      by_cases hold : i + (bs.length + 1) < w
      · rw [if_pos (by lia), if_pos hold, getLsbD_shiftIn _ _ (by lia), if_neg (by lia)]
        rfl
      · by_cases hfirst : i + bs.length < w
        · have hzero : i + (bs.length + 1) - w = 0 := by lia
          rw [if_pos hfirst, if_neg hold, getLsbD_shiftIn _ _ (by lia), if_pos (by lia),
            hzero, List.getD_cons_zero]
        · have hsucc : i + (bs.length + 1) - w = (i + bs.length - w) + 1 := by lia
          rw [if_neg hfirst, if_neg hold, hsucc, List.getD_cons_succ]

/-- The bits that went in last, taken out at the bottom. -/
theorem getLsbD_foldl_shiftIn_ushiftRight (bs : List Bool) (d : BitVec w) (hlen : bs.length ≤ w)
    (i : Nat) :
    ((bs.foldl shiftIn d) >>> (w - bs.length)).getLsbD i = bs.getD i false := by
  rw [BitVec.getLsbD_ushiftRight]
  by_cases hi : i < bs.length
  · have hidx : w - bs.length + i + bs.length - w = i := by lia
    rw [getLsbD_foldl_shiftIn bs d (by lia) hlen, if_neg (by lia), hidx]
  · rw [BitVec.getLsbD_of_ge _ _ (by lia), getD_of_le (by lia)]

end Lib
end CrosEc
