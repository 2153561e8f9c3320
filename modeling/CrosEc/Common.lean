import CrosEc.Lib.Packed

/-!
# What every module shares

The error codes of `include/common.h` and the memory routines of
`common/util.c`, as functions on byte buffers.
-/

namespace CrosEc

open Lib

/-- A return code: the 32 bits of the `int` the firmware passes around. -/
abbrev Code := UInt32

def ecSuccess : Code := 0
def ecErrorUnknown : Code := 1
def ecErrorOverflow : Code := 3
def ecErrorInval : Code := 5
def ecErrorBusy : Code := 6

/-- A task of the scheduler. -/
abbrev TaskId := Nat

/-- `MIN` of `include/util.h`, of two unsigned numbers. -/
def cMin {w : Nat} (a b : BitVec w) : BitVec w := if a < b then a else b

@[simp] theorem toNat_cMin {w : Nat} (a b : BitVec w) :
    (cMin a b).toNat = min a.toNat b.toNat := by
  unfold cMin
  split
  · rename_i hlt
    exact (Nat.min_eq_left (le_of_lt hlt)).symm
  · rename_i hge
    exact (Nat.min_eq_right (Nat.not_lt.mp hge)).symm

/-! ## Sizes of enumerations

The enumerations and small arrays of the sources are `Fin`, and their members are numerals.
-/

instance neZero_one : NeZero 1 := ⟨Nat.succ_ne_zero 0⟩

instance neZero_two : NeZero 2 := ⟨Nat.succ_ne_zero 1⟩

instance neZero_three : NeZero 3 := ⟨Nat.succ_ne_zero 2⟩

instance neZero_eight : NeZero 8 := ⟨Nat.succ_ne_zero 7⟩

instance neZero_ten : NeZero 10 := ⟨Nat.succ_ne_zero 9⟩

instance neZero_thirtyTwo : NeZero 32 := ⟨Nat.succ_ne_zero 31⟩

/-! ## Memory routines -/

/-- `memcpy(buf + off, data, sizeof(data))` from outside the buffer, or a `memset`.
Bytes past the end of the buffer are not part of it. -/
def writeAt (buf : Bytes) (off : Nat) (data : Bytes) : Bytes :=
  buf.take off ++ data.take (buf.length - off) ++ buf.drop (off + data.length)

/-- `memcpy(buf + dst, buf + src, len)` inside one buffer.  The routine copies
upward, so with overlapping ranges it reads back what it has just written. -/
def copyForward (buf : Bytes) (dst src : Nat) : Nat → Bytes
  | 0 => buf
  | len + 1 => copyForward (buf.set dst (buf.getD src 0)) (dst + 1) (src + 1) len

/-- `memmove(buf + dst, buf + src, len)` inside one buffer: the old contents of the
source range, whatever the overlap. -/
def moveWithin (buf : Bytes) (dst src len : Nat) : Bytes :=
  writeAt buf dst (readBytes len (buf.drop src))

/-- `memcmp` over the bytes of both buffers: the difference of the first two bytes that
differ.  Both buffers have as many bytes as the caller compares. -/
def memcmp : Bytes → Bytes → Code
  | a :: as, b :: bs => if a = b then memcmp as bs else a.toUInt32 - b.toUInt32
  | _, _ => 0

@[simp] theorem length_writeAt (buf : Bytes) (off : Nat) (data : Bytes) :
    (writeAt buf off data).length = buf.length := by
  simp only [writeAt, List.length_append, List.length_take, List.length_drop]
  lia

/-- A write that ends inside the buffer. -/
theorem writeAt_append (pre old post data : Bytes) {off : Nat} (hoff : pre.length = off)
    (hlen : old.length = data.length) :
    writeAt (pre ++ old ++ post) off data = pre ++ data ++ post := by
  subst hoff
  have hfits : data.take ((pre ++ old ++ post).length - pre.length) = data := by
    apply List.take_of_length_le
    simp only [List.length_append]
    omega
  have hpre : (pre ++ old ++ post).take pre.length = pre := by
    rw [List.append_assoc, List.take_left]
  have hpost : (pre ++ old ++ post).drop (pre.length + data.length) = post := by
    rw [← hlen, ← List.length_append, List.drop_left]
  rw [writeAt, hfits, hpre, hpost]

/-- Index by index: the data where it was written, the old bytes elsewhere. -/
theorem getElem?_writeAt {buf data : Bytes} {off : Nat} (hfits : off + data.length ≤ buf.length)
    (i : Nat) :
    (writeAt buf off data)[i]? =
      if off ≤ i ∧ i < off + data.length then data[i - off]? else buf[i]? := by
  have htake : data.take (buf.length - off) = data := List.take_of_length_le (by lia)
  have hlen : (buf.take off).length = off := by rw [List.length_take]; lia
  rw [writeAt, htake]
  by_cases hlow : i < off
  · rw [if_neg (by lia), List.append_assoc, List.getElem?_append_left (by lia),
      List.getElem?_take_of_lt hlow]
  · by_cases hhigh : i < off + data.length
    · rw [if_pos (by lia), List.append_assoc, List.getElem?_append_right (by lia), hlen,
        List.getElem?_append_left (by lia)]
    · rw [if_neg (by lia), List.getElem?_append_right (by simp [hlen]; lia),
        List.getElem?_drop]
      congr 1
      simp only [List.length_append, hlen]
      lia

/-- A range that the write does not meet keeps its bytes. -/
theorem take_drop_writeAt_disjoint {buf data : Bytes} {off start len : Nat}
    (hfits : off + data.length ≤ buf.length)
    (hdisjoint : start + len ≤ off ∨ off + data.length ≤ start) :
    ((writeAt buf off data).drop start).take len = (buf.drop start).take len := by
  apply List.ext_getElem?
  intro i
  by_cases hi : i < len
  · rw [List.getElem?_take_of_lt hi, List.getElem?_take_of_lt hi, List.getElem?_drop,
      List.getElem?_drop, getElem?_writeAt hfits, if_neg (by omega)]
  · rw [List.getElem?_take_eq_none (by omega), List.getElem?_take_eq_none (by omega)]

/-- The range that was written reads back. -/
theorem take_drop_writeAt_self (buf data : Bytes) {off : Nat}
    (hfits : off + data.length ≤ buf.length) :
    ((writeAt buf off data).drop off).take data.length = data := by
  apply List.ext_getElem?
  intro i
  by_cases hi : i < data.length
  · rw [List.getElem?_take_of_lt hi, List.getElem?_drop, getElem?_writeAt hfits,
      if_pos (by omega), Nat.add_sub_cancel_left]
  · rw [List.getElem?_take_eq_none (by omega), List.getElem?_eq_none (by omega)]

/-- Writing the same bytes again changes nothing. -/
theorem writeAt_writeAt_self {buf data : Bytes} {off : Nat}
    (hfits : off + data.length ≤ buf.length) :
    writeAt (writeAt buf off data) off data = writeAt buf off data := by
  apply List.ext_getElem?
  intro i
  rw [getElem?_writeAt (by simpa using hfits), getElem?_writeAt hfits]
  split <;> rfl

/-- The first `len` bytes of the endless repetition of `period`. -/
def cyclic : Bytes → Nat → Bytes
  | _, 0 => []
  | [], len + 1 => 0 :: cyclic [] len
  | b :: period, len + 1 => b :: cyclic (period ++ [b]) len

@[simp] theorem length_cyclic (period : Bytes) (len : Nat) : (cyclic period len).length = len := by
  induction len generalizing period with
  | zero => cases period <;> rfl
  | succ len ih => cases period <;> simp [cyclic, ih]

/-- One period in front of a cyclic run begins with that run. -/
theorem take_append_cyclic (period : Bytes) (len : Nat) (hperiod : period ≠ []) :
    (period ++ cyclic period len).take len = cyclic period len := by
  induction len generalizing period with
  | zero => cases period <;> rfl
  | succ len ih =>
      cases period with
      | nil => exact absurd rfl hperiod
      | cons b period =>
          have hnext := ih (period ++ [b]) (by simp)
          rw [List.append_assoc] at hnext
          rw [cyclic, List.cons_append, List.take_succ_cons]
          exact congrArg _ hnext

/-- An upward copy of a range onto itself changes nothing. -/
theorem copyForward_self (buf : Bytes) (pos len : Nat) (hfits : pos + len ≤ buf.length) :
    copyForward buf pos pos len = buf := by
  induction len generalizing pos with
  | zero => rfl
  | succ len ih =>
      have hset : buf.set pos (buf.getD pos 0) = buf := by
        rw [List.getD_eq_getElem?_getD, List.getElem?_eq_getElem (by omega), Option.getD_some,
          List.set_getElem_self]
      rw [copyForward, hset, ih (pos + 1) (by omega)]

/-- An upward copy repeats the bytes between source and destination. -/
theorem copyForward_cyclic (pre period room : Bytes) (hperiod : period ≠ []) {len : Nat}
    (hroom : len ≤ room.length) :
    copyForward (pre ++ period ++ room) (pre.length + period.length) pre.length len =
      pre ++ period ++ cyclic period len ++ room.drop len := by
  induction len generalizing pre period room with
  | zero => cases period <;> simp [copyForward, cyclic]
  | succ len ih =>
      cases period with
      | nil => exact absurd rfl hperiod
      | cons b period =>
          cases room with
          | nil => simp at hroom
          | cons r room =>
              -- One byte moves from the front of the period to its end.
              have hread : (pre ++ b :: period ++ r :: room).getD pre.length 0 = b := by
                simp [List.getD_eq_getElem?_getD]
              have hset : (pre ++ b :: period ++ r :: room).set
                  (pre.length + (b :: period).length) b =
                    (pre ++ [b]) ++ (period ++ [b]) ++ room := by
                rw [← List.length_append, List.set_append_right _ _ (by simp)]
                simp
              have hnext := ih (pre ++ [b]) (period ++ [b]) room (by simp)
                (by simpa using hroom)
              have hdst : (pre ++ [b]).length + (period ++ [b]).length =
                  pre.length + (b :: period).length + 1 := by
                simp
                omega
              rw [copyForward, hread, hset, ← hdst,
                show pre.length + 1 = (pre ++ [b]).length by simp, hnext]
              simp [cyclic]

/-! ## A checksum

Concrete runs need a hash that can be evaluated; this one stands in for the digests of
the cryptographic engine there. -/

/-- The bytes as the digits of a number in base 257, cut to `m` bytes. -/
def checksum (m : Nat) (bs : Bytes) : Blob m :=
  ⟨encodeLE m (bs.foldl (fun acc b => 257 * acc + b.toNat + 1) 0), length_encodeLE _ _⟩

end CrosEc
