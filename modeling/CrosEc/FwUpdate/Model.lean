import CrosEc.Common
import CrosEc.Lib.Memory
import CrosEc.Lib.Interleaving

/-!
# `common/update_fw.c`: updating the section that is not running

A first PDU selects the section, every other one carries a block for it.  A PDU is the bytes from
`struct update_command` on; the handler answers into the same buffer.  Flash is memory from its
start on, and the ranges that a PDU makes the handler erase and write are in `FlashOp`.
-/

namespace CrosEc
namespace FwUpdate

open Lib

/-! ## Flash -/

/-- `flash_physical_erase(base, size)` and `flash_physical_write(offset, data)` -/
inductive FlashOp where
  | erase (base size : UInt32)
  | write (offset : UInt32) (data : Bytes)
  deriving DecidableEq

namespace FlashOp

def start : FlashOp → Nat
  | .erase base _ => base.toNat
  | .write offset _ => offset.toNat

def size : FlashOp → Nat
  | .erase _ size => size.toNat
  | .write _ data => data.length

/-- The bytes of flash that the operation is asked to change. -/
def range (op : FlashOp) : Set Nat := Set.Ico op.start (op.start + op.size)

end FlashOp

/-- How the flash operations during one PDU end: their results, and what they leave in their
ranges. -/
structure FlashOutcome where
  eraseOk : Bool
  erased : Nat → UInt8
  writeOk : Bool
  written : Nat → UInt8

/-- The contents of flash after an operation. -/
def FlashOutcome.leaves (o : FlashOutcome) (flash : Nat → UInt8) (op : FlashOp) : Nat → UInt8 :=
  fun a =>
    if op.start ≤ a ∧ a < op.start + op.size then
      match op with
      | .erase .. => o.erased a
      | .write .. => o.written a
    else flash a

theorem FlashOutcome.leaves_of_notMem (o : FlashOutcome) (flash : Nat → UInt8) {op : FlashOp}
    {a : Nat} (h : a ∉ op.range) : o.leaves flash op a = flash a := by
  unfold FlashOutcome.leaves
  exact if_neg h

/-! ## PDUs -/

/-- `sizeof(struct update_command)`, and of `struct upgrade_command` -/
def commandSize : Nat := 8

/-- `sizeof(struct update_frame_header)` -/
def frameHeaderSize : Nat := 12

/-- `be32toh` of the first four bytes -/
def be32 (bs : Bytes) : UInt32 := Codec.uint32.decode (readBytes 4 bs).reverse

/-- `block_base` -/
def blockBase (body : Bytes) : UInt32 := be32 (body.drop 4)

/-- `size_t body_size` -/
def bodySize (body : Bytes) : UInt32 := UInt32.ofNat (body.length - commandSize)

/-- What comes behind the command. -/
def updateData (body : Bytes) : Bytes := body.drop commandSize

/-- A PDU without a block. -/
def IsStart (body : Bytes) : Prop := blockBase body = 0 ∧ bodySize body = 0

instance (body : Bytes) : Decidable (IsStart body) := by
  unfold IsStart
  infer_instance

def updateSuccess : UInt8 := 0
def updateBadAddr : UInt8 := 1
def updateEraseFailure : UInt8 := 2
def updateDataError : UInt8 := 3
def updateWriteFailure : UInt8 := 4
def updateVerifyError : UInt8 := 5
def updateGenError : UInt8 := 6
def updateRollbackError : UInt8 := 8
def updateRateLimitError : UInt8 := 9
def updateRwsigBusy : UInt8 := 10

/-! ## The board -/

/-- The touchpad, with its address range and the hashes of its firmware if there are any. -/
structure Touchpad where
  virtualOff : UInt32
  virtualSize : UInt32
  fwHashes : Option (List (Blob 32))

/-- The sections, which end below 2^32, and the size of a block, whose frame has a size of 32 bits. -/
structure Board where
  roMemOff : UInt32
  roSize : UInt32
  rwMemOff : UInt32
  rwSize : UInt32
  pduSize : UInt32
  touchpad : Option Touchpad
  sha256 : Bytes → Blob 32
  ro_fits : roMemOff.toNat + roSize.toNat < 2 ^ 32
  rw_fits : rwMemOff.toNat + rwSize.toNat < 2 ^ 32
  pdu_fits : frameHeaderSize + pduSize.toNat < 2 ^ 32

/-- `system_get_image_copy` -/
inductive ImageCopy where
  | unknown | ro | rw
  deriving DecidableEq

/-- What `fw_update_start` asks the rest of the system for. -/
structure StartInfo where
  flashProtect : UInt32
  roVersion : Option (Blob 32)
  rwVersion : Option (Blob 32)
  minRollback : UInt32
  keyVersion : UInt32
  rwsigInProgress : Bool

/-- `update_section`, and the flash -/
structure State where
  baseOffset : UInt32
  topOffset : UInt32
  flash : Nat → UInt8

/-- `struct first_response_pdu` with the common header -/
structure FirstResponse where
  returnValue : UInt32
  headerType : UInt16
  protocolVersion : UInt16
  maximumPduSize : UInt32
  flashProtection : UInt32
  offset : UInt32
  version : Blob 32
  minRollback : UInt32
  keyVersion : UInt32

/-- What the handler puts into the buffer of the PDU. -/
inductive Response where
  | startup (pdu : FirstResponse)
  | code (c : UInt8)

structure Outcome where
  response : Response
  ops : List FlashOp
  state : State

/-! ## The handler -/

section Handler

variable (b : Board) (running : ImageCopy) (o : FlashOutcome)

/-- `is_touchpad_block` -/
def isTouchpadBlock (blockOffset bodySize : UInt32) : Bool :=
  match b.touchpad with
  | none => false
  | some t =>
      decide (t.virtualOff ≤ blockOffset ∧ blockOffset + bodySize ≤ t.virtualOff + t.virtualSize)

/-- `check_update_chunk` -/
def checkUpdateChunk (blockOffset bodySize : UInt32) (s : State) : UInt8 × List FlashOp × State :=
  if s.baseOffset ≠ s.topOffset ∧ s.baseOffset ≤ blockOffset ∧
      blockOffset + bodySize ≤ s.topOffset then
    if blockOffset = s.baseOffset then
      let erase := FlashOp.erase s.baseOffset (s.topOffset - s.baseOffset)
      (if o.eraseOk then updateSuccess else updateEraseFailure, [erase],
        { s with flash := o.leaves s.flash erase })
    else (updateSuccess, [], s)
  else if isTouchpadBlock b blockOffset bodySize then (updateSuccess, [], s)
  else (updateBadAddr, [], s)

/-- `contents_allowed` -/
def contentsAllowed (blockOffset bodySize : UInt32) (data : Bytes) : Bool :=
  match b.touchpad with
  | none => true
  | some t =>
      match t.fwHashes with
      | none => true
      | some hashes =>
          if isTouchpadBlock b blockOffset bodySize then
            let fwOffset := blockOffset - t.virtualOff
            if t.virtualSize / b.pduSize ≤ fwOffset / b.pduSize ∨ fwOffset % b.pduSize ≠ 0 then
              false
            else hashes[(fwOffset / b.pduSize).toNat]? = some (b.sha256 data)
          else true

/-- `fw_update_start` -/
def updateStart (info : StartInfo) (s : State) : FirstResponse × State :=
  let blank : FirstResponse :=
    { returnValue := 0
      headerType := 1
      protocolVersion := 6
      maximumPduSize := 0
      flashProtection := 0
      offset := 0
      version := Arr.replicate 32 0
      minRollback := 0
      keyVersion := 0 }
  let fill (base size : UInt32) (version : Option (Blob 32)) : FirstResponse × State :=
    ({ blank with
        maximumPduSize := b.pduSize
        flashProtection := info.flashProtect
        offset := base
        version := version.getD blank.version
        minRollback := info.minRollback
        keyVersion := info.keyVersion
        returnValue := if info.rwsigInProgress then updateRwsigBusy.toUInt32 else 0 },
      { s with baseOffset := base, topOffset := base + size })
  match running with
  | .ro => fill b.rwMemOff b.rwSize info.rwVersion
  | .rw => fill b.roMemOff b.roSize info.roVersion
  | .unknown => ({ blank with returnValue := updateGenError.toUInt32 }, s)

/-- `fw_update_command_handler`; `touchpadOk` is the result of `touchpad_update_write`. -/
def commandHandler (info : StartInfo) (touchpadOk : Bool) (body : Bytes) (s : State) : Outcome :=
  let offset := blockBase body
  let size := bodySize body
  let data := updateData body
  if body.length < commandSize then ⟨.code updateGenError, [], s⟩
  else if IsStart body then
    let started := updateStart b running info s
    ⟨.startup started.1, [], started.2⟩
  else if contentsAllowed b offset size data = false then ⟨.code updateRollbackError, [], s⟩
  else
    let checked := checkUpdateChunk b o offset size s
    if checked.1 ≠ updateSuccess then ⟨.code checked.1, checked.2.1, checked.2.2⟩
    else if isTouchpadBlock b offset size then
      ⟨.code (if touchpadOk then updateSuccess else updateWriteFailure), checked.2.1, checked.2.2⟩
    else
      let write := FlashOp.write offset data
      let written := { checked.2.2 with flash := o.leaves checked.2.2.flash write }
      let code :=
        if o.writeOk = false then updateWriteFailure
        else if load written.flash offset.toNat data.length ≠ data then updateVerifyError
        else updateSuccess
      ⟨.code code, checked.2.1 ++ [write], written⟩

end Handler

/-! ## A small board -/

/-- Two sections of 64K. -/
def testBoard : Board where
  roMemOff := 0
  roSize := 0x10000
  rwMemOff := 0x10000
  rwSize := 0x10000
  pduSize := 1024
  touchpad := none
  sha256 := fun _ => Arr.replicate 32 0
  ro_fits := by decide
  rw_fits := by decide
  pdu_fits := by decide

def testInfo : StartInfo where
  flashProtect := 0
  roVersion := none
  rwVersion := none
  minRollback := 0
  keyVersion := 0
  rwsigInProgress := false

/-- A flash on which everything works. -/
def testFlash : FlashOutcome where
  eraseOk := true
  erased := fun _ => 0xff
  writeOk := true
  written := fun _ => 0

end FwUpdate

/-!
## What an update can reach

`check_update_chunk` compares `block_offset + body_size`, a 32-bit sum, with the end of the
section.  A block that ends below 2^32 is erased and written in the section that does not run, in
every state of every update; one that does not passes the comparison and leaves the section.
-/

namespace FwUpdate

open Lib

/-- The block ends below 2^32. -/
def NoWrap (body : Bytes) : Prop :=
  (blockBase body).toNat + (updateData body).length < 2 ^ 32

instance (body : Bytes) : Decidable (NoWrap body) := by
  unfold NoWrap
  infer_instance

/-- A range that passes the check of the chunk is in the section. -/
theorem range_of_check {base top offset : UInt32} {body : Bytes} (hwrap : NoWrap body)
    (hoffset : offset = blockBase body) (hbase : base ≤ offset)
    (htop : offset + bodySize body ≤ top) :
    Set.Ico offset.toNat (offset.toNat + (updateData body).length) ⊆
      Set.Ico base.toNat top.toNat := by
  subst hoffset
  unfold NoWrap at hwrap
  have hsize : (bodySize body).toNat = (updateData body).length := by
    rw [bodySize, UInt32.toNat_ofNat', updateData, List.length_drop, Nat.mod_eq_of_lt]
    rw [updateData, List.length_drop] at hwrap
    omega
  rw [UInt32.le_iff_toNat_le] at hbase htop
  rw [UInt32.toNat_add, hsize, Nat.mod_eq_of_lt hwrap] at htop
  exact Set.Ico_subset_Ico hbase htop

section Common

variable (b : Board) (running : ImageCopy)

/-- One PDU, with what the rest of the system answers. -/
structure Pdu where
  body : Bytes
  info : StartInfo
  outcome : FlashOutcome
  touchpadOk : Bool

def handlePdu (s : State) (p : Pdu) : Outcome :=
  commandHandler b running p.outcome p.info p.touchpadOk p.body s

/-- The section that does not run. -/
def inactiveSection : Set Nat :=
  match running with
  | .ro => Set.Ico b.rwMemOff.toNat (b.rwMemOff.toNat + b.rwSize.toNat)
  | .rw => Set.Ico b.roMemOff.toNat (b.roMemOff.toNat + b.roSize.toNat)
  | .unknown => ∅

/-- No section is selected, or the one that does not run. -/
def SectionSelected (s : State) : Prop :=
  s.baseOffset = s.topOffset ∨ (s.baseOffset ≤ s.topOffset ∧
    Set.Ico s.baseOffset.toNat s.topOffset.toNat = inactiveSection b running)

/-- A section that ends below 2^32, as it is selected. -/
theorem sectionSelected_of_fits {base size : UInt32} (hfits : base.toNat + size.toNat < 2 ^ 32) :
    base ≤ base + size ∧
      Set.Ico base.toNat (base + size).toNat = Set.Ico base.toNat (base.toNat + size.toNat) := by
  have hsum : (base + size).toNat = base.toNat + size.toNat := by
    rw [UInt32.toNat_add, Nat.mod_eq_of_lt hfits]
  rw [hsum, UInt32.le_iff_toNat_le, hsum]
  exact ⟨Nat.le_add_right _ _, rfl⟩

theorem updateStart_section {info : StartInfo} {s : State} (h : SectionSelected b running s) :
    SectionSelected b running (updateStart b running info s).2 := by
  unfold updateStart
  cases running with
  | unknown => exact h
  | ro => exact Or.inr (sectionSelected_of_fits b.rw_fits)
  | rw => exact Or.inr (sectionSelected_of_fits b.ro_fits)

variable {b running}

/-- The erase of a section. -/
theorem range_erase {base top : UInt32} (h : base ≤ top) :
    (FlashOp.erase base (top - base)).range = Set.Ico base.toNat top.toNat := by
  have hle := UInt32.le_iff_toNat_le.mp h
  rw [FlashOp.range, FlashOp.start, FlashOp.size, UInt32.toNat_sub_of_le _ _ h]
  congr 1
  omega

/-- What `check_update_chunk` has done, and what it has found if it succeeds. -/
theorem checkUpdateChunk_spec (o : FlashOutcome) {body : Bytes} {s : State} (hwrap : NoWrap body)
    (hs : SectionSelected b running s) :
    SectionSelected b running (checkUpdateChunk b o (blockBase body) (bodySize body) s).2.2 ∧
      (∀ op ∈ (checkUpdateChunk b o (blockBase body) (bodySize body) s).2.1,
        op.range ⊆ inactiveSection b running) ∧
      ((checkUpdateChunk b o (blockBase body) (bodySize body) s).1 = updateSuccess →
        isTouchpadBlock b (blockBase body) (bodySize body) = false →
          (FlashOp.write (blockBase body) (updateData body)).range ⊆
            inactiveSection b running) := by
  have hfail : updateBadAddr ≠ updateSuccess := by decide
  unfold checkUpdateChunk
  split
  · rename_i hinside
    obtain ⟨hne, hbase, htop⟩ := hinside
    obtain ⟨hle, heq⟩ := hs.resolve_left hne
    have hwrite := range_of_check hwrap rfl hbase htop
    rw [heq] at hwrite
    split
    · refine ⟨hs, ?_, fun _ _ => hwrite⟩
      intro op hop
      rw [List.mem_singleton.mp hop, range_erase hle, heq]
    · exact ⟨hs, by simp, fun _ _ => hwrite⟩
  · split
    · rename_i htouchpad
      exact ⟨hs, by simp, fun _ hnot => absurd htouchpad (by rw [hnot]; decide)⟩
    · exact ⟨hs, by simp, fun hok => absurd hok hfail⟩

/-- **A step of an update** keeps to the section that does not run. -/
theorem handlePdu_inside {p : Pdu} {s : State} (hwrap : NoWrap p.body)
    (hs : SectionSelected b running s) :
    SectionSelected b running (handlePdu b running s p).state ∧
      ∀ op ∈ (handlePdu b running s p).ops, op.range ⊆ inactiveSection b running := by
  obtain ⟨hstate, hops, hwrite⟩ := checkUpdateChunk_spec p.outcome hwrap hs
  unfold handlePdu commandHandler
  dsimp only
  by_cases hshort : p.body.length < commandSize
  · rw [if_pos hshort]
    exact ⟨hs, by simp⟩
  rw [if_neg hshort]
  by_cases hstart : IsStart p.body
  · rw [if_pos hstart]
    exact ⟨updateStart_section b running hs, by simp⟩
  rw [if_neg hstart]
  by_cases hcontents : contentsAllowed b (blockBase p.body) (bodySize p.body)
      (updateData p.body) = false
  · rw [if_pos hcontents]
    exact ⟨hs, by simp⟩
  rw [if_neg hcontents]
  by_cases hok : (checkUpdateChunk b p.outcome (blockBase p.body) (bodySize p.body) s).1 ≠
      updateSuccess
  · rw [if_pos hok]
    exact ⟨hstate, hops⟩
  rw [if_neg hok]
  by_cases htouchpad : isTouchpadBlock b (blockBase p.body) (bodySize p.body) = true
  · rw [if_pos htouchpad]
    exact ⟨hstate, hops⟩
  rw [if_neg htouchpad]
  refine ⟨hstate, ?_⟩
  intro op hop
  rcases List.mem_append.mp hop with hop | hop
  · exact hops op hop
  · rw [List.mem_singleton.mp hop]
    exact hwrite (not_not.mp hok) (by simpa using htouchpad)

/-- Before the first PDU -/
def powerOn (flash : Nat → UInt8) : State where
  baseOffset := 0
  topOffset := 0
  flash := flash

/-- The states of all updates whose blocks end below 2^32. -/
def Updating (b : Board) (running : ImageCopy) (flash : Nat → UInt8) : State → Prop :=
  Reachable (fun s p => some (handlePdu b running s p).state)
    (fun _ (p : Pdu) => decide (NoWrap p.body)) (powerOn flash)

theorem Updating.section {flash : Nat → UInt8} {s : State} (h : Updating b running flash s) :
    SectionSelected b running s := by
  refine h.invariant (SectionSelected b running) (Or.inl rfl) ?_
  intro s p s' hs hallowed hstep
  cases hstep
  exact (handlePdu_inside (of_decide_eq_true hallowed) hs).1

end Common

end FwUpdate
end CrosEc
