import CrosEc.VbootHash.Reported

/-!
# `common/flash.c`: writing RW, and the jump to it

On a build with the RWSIG task `flash_abort_or_invalidate_hash` also calls `rwsig_abort` if the
range meets RW, so that the EC does not jump to what has been written.  It comes to that only behind
its early returns: when a hash is computed it returns before, and with `CONFIG_EXTERNAL_STORAGE` it
does so when the EC runs from RW.

The calls are recorded in their order.  What happens to the hash is that of
`State.flashWrite` and `State.flashErase` (`rwFlashOp_state`).
-/

namespace CrosEc
namespace VbootHash

/-- A build with `CONFIG_VBOOT_HASH` and the RWSIG task. -/
structure RwBuild extends Build where
  /-- `CONFIG_EXTERNAL_STORAGE` -/
  externalStorage : Bool
  /-- `CONFIG_RW_MEM_OFF` and `CONFIG_RW_SIZE` -/
  rwMemOff : Nat
  rwSize : Nat
  rwSize_pos : 0 < rwSize
  /-- so that the sum does not overflow -/
  rwEnd_lt : rwMemOff + rwSize < 2 ^ 31

/-- `flash_write` and `flash_erase` -/
inductive FlashOp where
  | write
  | erase
  deriving DecidableEq

inductive Call where
  /-- `rwsig_abort` -/
  | rwsigAbort
  /-- `flash_physical_write` and `flash_physical_erase` -/
  | physical (op : FlashOp) (offset size : Int)
  deriving DecidableEq

variable {b : RwBuild} {inRw : Bool} {op : FlashOp} {offset size : Int} {p : Physical} {s : State}

/-- If RW flash has been written to: the comparisons of `flash_abort_or_invalidate_hash`. -/
def RwBuild.writesRw (b : RwBuild) (offset size : Int) : Bool :=
  (b.rwMemOff ≤ offset && offset < b.rwMemOff + b.rwSize) ||
    (b.rwMemOff < addInt offset size && addInt offset size ≤ b.rwMemOff + b.rwSize) ||
    (offset < b.rwMemOff && b.rwMemOff + b.rwSize < addInt offset size)

/-- `flash_abort_or_invalidate_hash` on this build; `inRw` is `system_is_in_rw()`. -/
def rwAbortOrInvalidateHash (b : RwBuild) (inRw : Bool) (offset size : Int) (s : State) :
    State × List Call :=
  if s.inProgress then (s.abort, [])
  -- The AP will catch the mismatch on the next hash check.
  else if b.externalStorage && inRw then (s, [])
  else (s.invalidate offset size, if b.writesRw offset size then [.rwsigAbort] else [])

/-- `flash_range_ok` in `flash_write` and in `flash_erase` -/
def RwBuild.accepts (b : RwBuild) (offset size : Int) : FlashOp → Bool
  | .write => State.rangeOk b.toBuild offset size b.flashWriteSize
  | .erase => b.multipleRegion || State.rangeOk b.toBuild offset size b.flashEraseSize

/-- `flash_write` and `flash_erase` on this build, with their calls -/
def rwFlashOp (b : RwBuild) (inRw : Bool) (op : FlashOp) (offset size : Int) (p : Physical)
    (s : State) : Code × State × List Call :=
  if b.accepts offset size op then
    let (s, calls) := rwAbortOrInvalidateHash b inRw offset size s
    let (rv, s) := s.physical b.toBuild offset size p
    (rv, s, calls ++ [.physical op offset size])
  else (ecErrorInval, s, [])

theorem rwAbortOrInvalidateHash_state (inRw : Bool) (hstorage : b.externalStorage = false) :
    (rwAbortOrInvalidateHash b inRw offset size s).1 = s.abortOrInvalidateHash offset size := by
  rw [rwAbortOrInvalidateHash, State.abortOrInvalidateHash, hstorage, Bool.false_and]
  split <;> rfl

/-- Without external storage the hash fares as on any build. -/
theorem rwFlashOp_state (hstorage : b.externalStorage = false) :
    ((rwFlashOp b inRw .write offset size p s).1, (rwFlashOp b inRw .write offset size p s).2.1) =
        s.flashWrite b.toBuild offset size p ∧
      ((rwFlashOp b inRw .erase offset size p s).1, (rwFlashOp b inRw .erase offset size p s).2.1) =
        s.flashErase b.toBuild offset size p := by
  rw [State.flashWrite, State.flashErase, ← rwAbortOrInvalidateHash_state inRw hstorage]
  constructor
  · by_cases hok : State.rangeOk b.toBuild offset size b.flashWriteSize = true
    · rw [rwFlashOp, if_pos (show b.accepts offset size .write = true from hok), if_pos hok]
    · rw [rwFlashOp, if_neg (show ¬ b.accepts offset size .write = true from hok), if_neg hok]
  · by_cases hok : (b.multipleRegion || State.rangeOk b.toBuild offset size b.flashEraseSize) = true
    · rw [rwFlashOp, if_pos (show b.accepts offset size .erase = true from hok), if_pos hok]
    · rw [rwFlashOp, if_neg (show ¬ b.accepts offset size .erase = true from hok), if_neg hok]

/-! ## What it is for -/

/-- The range has an offset in RW. -/
def RwBuild.Intersects (b : RwBuild) (offset size : Int) : Prop :=
  ∃ i, (offset ≤ i ∧ i < offset + size) ∧ b.rwMemOff ≤ i ∧ i < b.rwMemOff + b.rwSize

/-- The operation stops the jump to RW before it writes RW, and only then. -/
def StopsJump (b : RwBuild) (inRw : Bool) (op : FlashOp) (offset size : Int) (p : Physical)
    (s : State) : Prop :=
  (b.Intersects offset size →
    (rwFlashOp b inRw op offset size p s).2.2 = [.rwsigAbort, .physical op offset size]) ∧
  (¬ b.Intersects offset size →
    (rwFlashOp b inRw op offset size p s).2.2 = [.physical op offset size])

/-- `flash_abort_or_invalidate_hash` returns before it looks for RW. -/
def ReturnsEarly (b : RwBuild) (inRw : Bool) (s : State) : Prop :=
  s.inProgress = true ∨ b.externalStorage = true ∧ inRw = true

/-- The end of the range overflows an `int`, and the range begins before RW. -/
def RwBuild.WrapsBeforeRw (b : RwBuild) (offset size : Int) : Prop :=
  2 ^ 31 ≤ offset + size ∧ offset < b.rwMemOff

theorem intersects_iff (hsize : 0 < size) :
    b.Intersects offset size ↔ offset < b.rwMemOff + b.rwSize ∧ b.rwMemOff < offset + size := by
  have hpos := b.rwSize_pos
  constructor
  · rintro ⟨i, ⟨hlow, hhigh⟩, hrw, hrw'⟩
    lia
  · rintro ⟨hlow, hhigh⟩
    exact ⟨max offset b.rwMemOff, by lia, by lia⟩

/-- The comparisons are right unless the end of the range has wrapped around. -/
theorem writesRw_iff (b : RwBuild) (offset : Int32) {size : Int32} (hsize : 0 < size.toInt) :
    b.writesRw offset.toInt size.toInt = true ↔
      b.Intersects offset.toInt size.toInt ∧ ¬ b.WrapsBeforeRw offset.toInt size.toInt := by
  have hpos := b.rwSize_pos
  have hend := b.rwEnd_lt
  have hlow := Int32.le_toInt offset
  have hhigh := Int32.toInt_lt offset
  have hhigh' := Int32.toInt_lt size
  rw [intersects_iff hsize, RwBuild.WrapsBeforeRw, RwBuild.writesRw]
  simp only [Bool.or_eq_true, Bool.and_eq_true, decide_eq_true_eq]
  rcases Int.lt_or_le (offset.toInt + size.toInt) (2 ^ 31) with hfits | hwraps
  · have hsum : addInt offset.toInt size.toInt = offset.toInt + size.toInt :=
      Int.bmod_eq_of_le (by lia) (by lia)
    rw [hsum]
    lia
  · have hsum : addInt offset.toInt size.toInt = offset.toInt + size.toInt - 2 ^ 32 := by
      rw [addInt, Int.bmod_def]
      lia
    rw [hsum]
    lia

/-- What is called by an operation that is accepted. -/
theorem calls_of_accepts (h : b.accepts offset size op = true) :
    (rwFlashOp b inRw op offset size p s).2.2 =
      (rwAbortOrInvalidateHash b inRw offset size s).2 ++ [.physical op offset size] := by
  rw [rwFlashOp, if_pos h]

theorem calls_of_returnsEarly (h : ReturnsEarly b inRw s) :
    (rwAbortOrInvalidateHash b inRw offset size s).2 = [] := by
  rw [rwAbortOrInvalidateHash]
  rcases h with hprogress | ⟨hstorage, hrw⟩
  · rw [if_pos hprogress]
  · split
    · rfl
    · rw [hstorage, hrw]
      rfl

theorem calls_of_not_returnsEarly (h : ¬ ReturnsEarly b inRw s) :
    (rwAbortOrInvalidateHash b inRw offset size s).2 =
      if b.writesRw offset size then [.rwsigAbort] else [] := by
  obtain ⟨hprogress, hstorage⟩ := not_or.mp h
  rw [rwAbortOrInvalidateHash, if_neg hprogress, if_neg (by simpa using hstorage)]

/-- **When a write to RW stops the jump to RW.**  It does unless `flash_abort_or_invalidate_hash`
returns early, or the end of the range wraps around before RW. -/
theorem stopsJump_iff (b : RwBuild) (inRw : Bool) (s : State) (op : FlashOp) (offset size : Int32)
    (p : Physical) (hsize : 0 < size.toInt)
    (haccepts : b.accepts offset.toInt size.toInt op = true) :
    StopsJump b inRw op offset.toInt size.toInt p s ↔
      ¬ b.Intersects offset.toInt size.toInt ∨
        ¬ ReturnsEarly b inRw s ∧ ¬ b.WrapsBeforeRw offset.toInt size.toInt := by
  rw [StopsJump, calls_of_accepts haccepts]
  by_cases hearly : ReturnsEarly b inRw s
  · rw [calls_of_returnsEarly hearly]
    simp [hearly]
  · rw [calls_of_not_returnsEarly hearly]
    have hwrites := writesRw_iff b offset hsize
    by_cases hmeets : b.Intersects offset.toInt size.toInt
    · by_cases hwraps : b.WrapsBeforeRw offset.toInt size.toInt
      · simp [hmeets, hwraps, Bool.eq_false_iff.mpr (mt hwrites.mp (by simp [hwraps]))]
      · simp [hmeets, hwraps, hearly, hwrites.mpr ⟨hmeets, hwraps⟩]
    · simp [hmeets, Bool.eq_false_iff.mpr (mt hwrites.mp (by simp [hmeets]))]

/-- With `flash_range_ok` the end of the range does not wrap around. -/
theorem not_wrapsBeforeRw {align : Nat}
    (h : State.rangeOk b.toBuild offset size align = true) : ¬ b.WrapsBeforeRw offset size := by
  have hflash := b.flashSize_le
  simp only [State.rangeOk, Bool.not_eq_true', Bool.or_eq_false_iff, decide_eq_false_iff_not] at h
  rintro ⟨hwraps, -⟩
  omega

/-! ## A write during a hash computation -/

/-- RW is the second half of the flash. -/
def testRwBuild : RwBuild where
  toBuild := testBuild true
  externalStorage := false
  rwMemOff := 1024
  rwSize := 1024
  rwSize_pos := by decide
  rwEnd_lt := by decide

/-- Four bytes at the start of RW, and no hash computation. -/
theorem stopsJump_iff_idle :
    StopsJump testRwBuild false .write (1024 : Int32).toInt (4 : Int32).toInt ⟨ecSuccess, fun _ => 0⟩
        (State.boot fun _ => 0) ↔
      ¬ testRwBuild.Intersects (1024 : Int32).toInt (4 : Int32).toInt ∨
        ¬ ReturnsEarly testRwBuild false (State.boot fun _ => 0) ∧
          ¬ testRwBuild.WrapsBeforeRw (1024 : Int32).toInt (4 : Int32).toInt :=
  stopsJump_iff testRwBuild false (State.boot fun _ => 0) .write 1024 4 ⟨ecSuccess, fun _ => 0⟩
    (by decide) (by decide)

/-- The hash of RW is computed when the same bytes are written: nothing stops the jump. -/
theorem not_stopsJump_inProgress :
    testRwBuild.accepts 1024 4 .write = true ∧
      ¬ StopsJump testRwBuild false .write 1024 4 ⟨ecSuccess, fun _ => 0⟩
        ((State.boot fun _ => 0).start testRwBuild.toBuild 1024 1024 [] 0).2 := by
  refine ⟨by decide, ?_⟩
  rintro ⟨hmeets, -⟩
  have hcalls := hmeets ⟨1024, by decide, by decide⟩
  revert hcalls
  decide

end VbootHash
end CrosEc
