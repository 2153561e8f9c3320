import CrosEc.FwUpdate.Usb
import CrosEc.Lib.Interleaving

/-!
# Blocks come together as they were sent

While a block is assembled the buffer holds the header's command and the packets since then, and
what is still missing fits behind them.  That is so if no packet is longer than what is missing.
`update_out_handler` does not check this: the remainder wraps, and the next packets are stored
behind the end of the buffer.
-/

namespace CrosEc
namespace FwUpdate

open Lib

section Runs

variable (b : Board) (running : ImageCopy)

/-- Before the first packet -/
def bootReceiver (blockBuffer : Nat → UInt8) (update : State) : Receiver where
  rxState := .idle
  blockBuffer := blockBuffer
  blockSize := 0
  blockIndex := 0
  prevActivityTimestamp := 0
  dataWasTransferred := false
  update := update

/-- A packet inside a block is not longer than the rest of the block. -/
def NoOverrun (r : Receiver) (p : Packet) : Prop :=
  (afterTimeout r p).rxState = .insideBlock → p.data.length ≤ (afterTimeout r p).blockSize.toNat

instance (r : Receiver) (p : Packet) : Decidable (NoOverrun r p) := by
  unfold NoOverrun
  infer_instance

/-- The callbacks of a sequence of packets, the last one first. -/
abbrev Callbacks (allowed : Receiver → Packet → Bool) (init : Receiver) :
    List (Receiver × Packet) → Receiver → Prop :=
  Trace (fun r p => some (updateOutHandler b running r p).receiver) allowed init

/-- The packets from the last header on: the header came outside of a block, the others inside. -/
structure SinceHeader (steps : List (Receiver × Packet)) (header : Bytes) (received : Bytes) :
    Prop where
  steps_eq : ∃ inside r p earlier, steps = inside ++ (r, p) :: earlier ∧
    (afterTimeout r p).rxState = .outsideBlock ∧ p.data = header ∧
    (∀ step ∈ inside, (afterTimeout step.1 step.2).rxState = .insideBlock) ∧
    received = (inside.reverse.map fun step => step.2.data).flatten
  header_length : header.length = frameHeaderSize

/-- The state of a block that is being assembled. -/
structure Assembling (steps : List (Receiver × Packet)) (r : Receiver) (header received : Bytes) :
    Prop where
  since : SinceHeader steps header received
  /-- the buffer has the command of the header and the packets after it -/
  buffered : load r.blockBuffer 0 r.blockIndex.toNat = frameCmd header ++ received
  announced : cmdOffset + (r.blockIndex.toNat + r.blockSize.toNat) = (frameBlockSize header).toNat
  fits : r.blockIndex.toNat + r.blockSize.toNat ≤ b.blockBufferSize

/-- The packets since the header go on with this one. -/
theorem SinceHeader.next {steps : List (Receiver × Packet)} {header received : Bytes}
    {r : Receiver} {p : Packet} (h : SinceHeader steps header received)
    (hinside : (afterTimeout r p).rxState = .insideBlock) :
    SinceHeader ((r, p) :: steps) header (received ++ p.data) := by
  obtain ⟨⟨inside, r', p', earlier, rfl, hout, hheader, hall, rfl⟩, hlen⟩ := h
  refine ⟨⟨(r, p) :: inside, r', p', earlier, rfl, hout, hheader, ?_, ?_⟩, hlen⟩
  · rw [List.forall_mem_cons]
    exact ⟨hinside, hall⟩
  · simp

theorem afterTimeout_kept (r : Receiver) (p : Packet) :
    (afterTimeout r p).blockBuffer = r.blockBuffer ∧ (afterTimeout r p).blockSize = r.blockSize ∧
      (afterTimeout r p).blockIndex = r.blockIndex ∧
      ((afterTimeout r p).rxState = r.rxState ∨ (afterTimeout r p).rxState = .idle) := by
  unfold afterTimeout
  dsimp only
  split
  · exact ⟨rfl, rfl, rfl, Or.inr rfl⟩
  · exact ⟨rfl, rfl, rfl, Or.inl rfl⟩

variable {b running}

/-! ## One packet -/

theorem blockBufferSize_lt : cmdOffset + b.blockBufferSize < 2 ^ 32 := by
  have hfits := b.pdu_fits
  simp only [frameHeaderSize] at hfits
  simp only [cmdOffset, Board.blockBufferSize, commandSize]
  omega

/-- The header of a block. -/
theorem outsidePacket_spec (b : Board) (steps : List (Receiver × Packet)) {r : Receiver} {p : Packet}
    (hout : (afterTimeout r p).rxState = .outsideBlock) :
    (∀ w ∈ (outsidePacket b (afterTimeout r p) p).writes, w.1 + w.2 ≤ b.blockBufferSize) ∧
      (outsidePacket b (afterTimeout r p) p).blocks = [] ∧
      ((outsidePacket b (afterTimeout r p) p).receiver.rxState = .insideBlock →
        ∃ header received, Assembling b ((r, p) :: steps)
          (outsidePacket b (afterTimeout r p) p).receiver header received) := by
  have hbuffer := blockBufferSize_lt (b := b)
  unfold outsidePacket fetchTransferStart
  split
  · exact ⟨by simp, rfl, by simp⟩
  · by_cases hlen : p.data.length = frameHeaderSize
    · rw [if_pos hlen]
      dsimp only
      have hcmd : (frameCmd p.data).length = commandSize := by
        rw [frameCmd, List.length_drop, hlen]
        rfl
      split
      · exact ⟨by simp [sendErrorReset], rfl, by simp [sendErrorReset]⟩
      · rename_i hsize
        obtain ⟨hlarge, hsmall⟩ := not_or.mp hsize
        rw [UInt32.not_le, UInt32.lt_iff_toNat_lt] at hlarge
        rw [UInt32.not_lt, UInt32.le_iff_toNat_le, UInt32.toNat_ofNat',
          Nat.mod_eq_of_lt (by lia)] at hsmall
        have hframe : (frameBlockSize p.data - UInt32.ofNat cmdOffset).toNat + cmdOffset =
            (frameBlockSize p.data).toNat := by
          have hoffset : (UInt32.ofNat cmdOffset).toNat = 4 := rfl
          have hlt := (frameBlockSize p.data).toNat_lt
          rw [UInt32.toNat_sub, hoffset] at hsmall ⊢
          simp only [cmdOffset] at hbuffer ⊢
          lia
        refine ⟨?_, rfl, fun _ => ⟨p.data, [], ?_⟩⟩
        · intro w hw
          rw [List.mem_singleton.mp hw, hcmd, Board.blockBufferSize]
          lia
        · have hindex : (UInt32.ofNat (frameHeaderSize - cmdOffset)).toNat = commandSize := rfl
          have hcommand : (UInt32.ofNat commandSize).toNat = commandSize := rfl
          rw [hcommand] at hlarge
          have hrest : (frameBlockSize p.data - UInt32.ofNat cmdOffset -
              UInt32.ofNat (frameHeaderSize - cmdOffset)).toNat + commandSize =
                (frameBlockSize p.data - UInt32.ofNat cmdOffset).toNat := by
            rw [UInt32.toNat_sub_of_le, hindex]
            · lia
            · rw [UInt32.le_iff_toNat_le, hindex]
              lia
          exact {
            since := ⟨⟨[], r, p, steps, rfl, hout, rfl, by simp, rfl⟩, hlen⟩
            buffered := by
              dsimp only
              rw [hindex, List.append_nil, ← hcmd]
              exact load_store_self ..
            announced := by
              dsimp only
              rw [hindex]
              lia
            fits := by
              dsimp only
              rw [hindex]
              lia }
    · rw [if_neg hlen]
      exact ⟨by simp [sendErrorReset], rfl, by simp [sendErrorReset]⟩

variable (running) in
/-- A packet of data. -/
theorem insidePacket_spec {steps : List (Receiver × Packet)} {r : Receiver} {p : Packet}
    {header received : Bytes} (hinside : (afterTimeout r p).rxState = .insideBlock)
    (hfits : NoOverrun r p) (h : Assembling b steps r header received) :
    (∀ w ∈ (insidePacket b running (afterTimeout r p) p).writes, w.1 + w.2 ≤ b.blockBufferSize) ∧
      (∀ block ∈ (insidePacket b running (afterTimeout r p) p).blocks,
        SinceHeader ((r, p) :: steps) header (received ++ p.data) ∧
          block = frameCmd header ++ (received ++ p.data) ∧
          cmdOffset + block.length = (frameBlockSize header).toNat) ∧
      ((insidePacket b running (afterTimeout r p) p).receiver.rxState = .insideBlock →
        Assembling b ((r, p) :: steps) (insidePacket b running (afterTimeout r p) p).receiver
          header (received ++ p.data)) := by
  have hbuffer := blockBufferSize_lt (b := b)
  have hlen := hfits hinside
  obtain ⟨hkeptBuffer, hkeptSize, hkeptIndex, -⟩ := afterTimeout_kept r p
  have hsum := h.fits
  rw [← hkeptIndex, ← hkeptSize] at hsum
  have hannounced := h.announced
  rw [← hkeptIndex, ← hkeptSize] at hannounced
  have hbuffered := h.buffered
  rw [← hkeptBuffer, ← hkeptIndex] at hbuffered
  have hsince := h.since.next hinside
  generalize afterTimeout r p = awake at hlen hsum hannounced hbuffered ⊢
  have hcount : (UInt32.ofNat p.data.length).toNat = p.data.length := by
    rw [UInt32.toNat_ofNat', Nat.mod_eq_of_lt (by lia)]
  have hindex : (awake.blockIndex + UInt32.ofNat p.data.length).toNat =
      awake.blockIndex.toNat + p.data.length := by
    rw [UInt32.toNat_add, hcount, Nat.mod_eq_of_lt (by lia)]
  have hsize : (awake.blockSize - UInt32.ofNat p.data.length).toNat =
      awake.blockSize.toNat - p.data.length := by
    rw [UInt32.toNat_sub_of_le, hcount]
    rw [UInt32.le_iff_toNat_le, hcount]
    exact hlen
  have hload : load (store awake.blockBuffer awake.blockIndex.toNat p.data) 0
      (awake.blockIndex.toNat + p.data.length) = frameCmd header ++ (received ++ p.data) := by
    rw [load_add, load_store_before (by lia), hbuffered, Nat.zero_add, load_store_self,
      List.append_assoc]
  have hwrites : awake.blockIndex.toNat + p.data.length ≤ b.blockBufferSize := by lia
  have hfirst : 0 + 1 ≤ b.blockBufferSize := by
    rw [Board.blockBufferSize, commandSize]
    lia
  unfold insidePacket
  dsimp only
  split
  · split
    · exact ⟨by simpa [sendErrorReset] using hwrites, by simp [sendErrorReset],
        by simp [sendErrorReset]⟩
    · refine ⟨by simpa using hwrites, by simp, fun _ => ?_⟩
      exact {
        since := hsince
        buffered := by
          dsimp only
          rw [hindex]
          exact hload
        announced := by
          dsimp only
          rw [hindex, hsize]
          lia
        fits := by
          dsimp only
          rw [hindex, hsize]
          lia }
  · rename_i hdone
    have hrest : awake.blockSize.toNat - p.data.length = 0 := by
      rw [← hsize, not_not.mp hdone]
      rfl
    refine ⟨?_, ?_, by simp⟩
    · intro w hw
      rcases List.mem_append.mp hw with hw | hw
      · rw [List.mem_singleton.mp hw]
        exact hwrites
      · rw [List.mem_singleton.mp hw]
        exact hfirst
    · intro block hblock
      have heq : block = frameCmd header ++ (received ++ p.data) := by
        rw [List.mem_singleton.mp hblock, hindex]
        exact hload
      refine ⟨hsince, heq, ?_⟩
      have hlength : block.length = awake.blockIndex.toNat + p.data.length := by
        rw [List.mem_singleton.mp hblock, length_load, hindex]
      lia

variable (b running) in
/-- A packet in state `rx_idle` -/
theorem idlePacket_spec (r : Receiver) (p : Packet) (hidle : r.rxState = .idle) :
    (idlePacket b running r p).writes = [] ∧ (idlePacket b running r p).blocks = [] ∧
      (idlePacket b running r p).receiver.rxState ≠ .insideBlock := by
  unfold idlePacket
  dsimp only
  split
  · exact ⟨rfl, rfl, by rw [hidle]; decide⟩
  · split
    · exact ⟨rfl, rfl, by simp [sendErrorReset]⟩
    · split
      · exact ⟨rfl, rfl, by simp [sendErrorReset]⟩
      · refine ⟨rfl, rfl, ?_⟩
        split
        · exact fun h => absurd (hidle.symm.trans h) (by decide)
        · simp

/-- What every callback keeps. -/
def BlockKept (b : Board) (steps : List (Receiver × Packet)) (r : Receiver) : Prop :=
  r.rxState = .insideBlock → ∃ header received, Assembling b steps r header received

/-- A block is what its header announced: its command and the packets since then. -/
structure Reassembled (steps : List (Receiver × Packet)) (block header received : Bytes) : Prop where
  since : SinceHeader steps header received
  block_eq : block = frameCmd header ++ received
  announced : cmdOffset + block.length = (frameBlockSize header).toNat

variable (running) in
/-- **One callback.** -/
theorem updateOutHandler_spec {steps : List (Receiver × Packet)} {r : Receiver} {p : Packet}
    (hfits : NoOverrun r p) (hkept : BlockKept b steps r) :
    (∀ w ∈ (updateOutHandler b running r p).writes, w.1 + w.2 ≤ b.blockBufferSize) ∧
      (∀ block ∈ (updateOutHandler b running r p).blocks,
        ∃ header received, Reassembled ((r, p) :: steps) block header received) ∧
      BlockKept b ((r, p) :: steps) (updateOutHandler b running r p).receiver := by
  unfold updateOutHandler
  dsimp only
  cases hstate : (afterTimeout r p).rxState with
  | idle =>
      obtain ⟨hwrites, hblocks, hstays⟩ := idlePacket_spec b running _ p hstate
      rw [hwrites, hblocks]
      exact ⟨by simp, by simp, fun h => absurd h hstays⟩
  | outsideBlock =>
      obtain ⟨hwrites, hblocks, hassembling⟩ := outsidePacket_spec b steps hstate
      rw [hblocks]
      exact ⟨hwrites, by simp, hassembling⟩
  | insideBlock =>
      have hinside : r.rxState = .insideBlock := by
        rcases (afterTimeout_kept r p).2.2.2 with h | h
        · exact h.symm.trans hstate
        · rw [h] at hstate
          cases hstate
      obtain ⟨header, received, h⟩ := hkept hinside
      obtain ⟨hwrites, hblocks, hassembling⟩ :=
        insidePacket_spec running hstate hfits h
      refine ⟨hwrites, ?_, fun hstill => ⟨header, received ++ p.data, hassembling hstill⟩⟩
      intro block hblock
      obtain ⟨hsince, heq, hannounced⟩ := hblocks block hblock
      exact ⟨header, received ++ p.data, hsince, heq, hannounced⟩

/-! ## Every sequence of packets -/

theorem blockKept_of_callbacks {buffer : Nat → UInt8} {update : State}
    {steps : List (Receiver × Packet)} {r : Receiver}
    (h : Callbacks b running (fun r p => decide (NoOverrun r p)) (bootReceiver buffer update)
      steps r) : BlockKept b steps r := by
  induction h with
  | start => exact fun h => by cases h
  | next p _ hallowed hstep ih =>
      cases hstep
      exact (updateOutHandler_spec running (of_decide_eq_true hallowed) ih).2.2

/-- **Blocks are collected in the buffer and passed on as they were sent**, in every sequence of
packets of which none is longer than the rest of its block. -/
theorem update_reassembles {buffer : Nat → UInt8} {update : State}
    {steps : List (Receiver × Packet)} {r : Receiver} {p : Packet}
    (h : Callbacks b running (fun r p => decide (NoOverrun r p)) (bootReceiver buffer update)
      steps r) (hp : NoOverrun r p) :
    (r.rxState = .insideBlock → r.blockIndex.toNat + r.blockSize.toNat ≤ b.blockBufferSize) ∧
      (∀ w ∈ (updateOutHandler b running r p).writes, w.1 + w.2 ≤ b.blockBufferSize) ∧
      ∀ block ∈ (updateOutHandler b running r p).blocks,
        ∃ header received, Reassembled ((r, p) :: steps) block header received := by
  have hkept := blockKept_of_callbacks h
  obtain ⟨hwrites, hblocks, -⟩ := updateOutHandler_spec running hp hkept
  refine ⟨?_, hwrites, hblocks⟩
  intro hinside
  obtain ⟨header, received, hassembling⟩ := hkept hinside
  exact hassembling.fits

end Runs

/-! ## A block of one byte on the small board -/

def testPacket (data : Bytes) (hpos : 0 < data.length) (hle : data.length ≤ usbMaxPacketSize) :
    Packet where
  data := data
  now := 0
  vendorResponse := []
  info := testInfo
  outcome := testFlash
  touchpadOk := true
  data_pos := hpos
  data_le := hle

/-- The update start PDU. -/
def startPacket : Packet :=
  testPacket [0, 0, 0, 12, 0, 0, 0, 0, 0, 0, 0, 0] (by decide) (by decide)

/-- The header of a block of one byte. -/
def headerPacket : Packet :=
  testPacket [0, 0, 0, 13, 0, 0, 0, 0, 0, 1, 0, 0] (by decide) (by decide)

def lastPacket : Packet := testPacket [7] (by decide) (by decide)

/-- A full packet. -/
def fullPacket : Packet := testPacket (List.replicate 64 7) (by decide) (by decide)

def testReceiver : Receiver :=
  bootReceiver (fun _ => 0) ⟨0, 0, fun _ => 0xff⟩

/-- The receiver after the start and the header. -/
def headedReceiver : Receiver :=
  (updateOutHandler testBoard .ro (updateOutHandler testBoard .ro testReceiver startPacket).receiver
    headerPacket).receiver

/-- The block is complete with its one byte. -/
theorem update_reassembles_one :
    (headedReceiver.rxState = .insideBlock →
        headedReceiver.blockIndex.toNat + headedReceiver.blockSize.toNat ≤
          testBoard.blockBufferSize) ∧
      (∀ w ∈ (updateOutHandler testBoard .ro headedReceiver lastPacket).writes,
        w.1 + w.2 ≤ testBoard.blockBufferSize) ∧
      ∀ block ∈ (updateOutHandler testBoard .ro headedReceiver lastPacket).blocks,
        ∃ header received, Reassembled [(headedReceiver, lastPacket),
          ((updateOutHandler testBoard .ro testReceiver startPacket).receiver, headerPacket),
          (testReceiver, startPacket)] block header received := by
  have hstart : NoOverrun testReceiver startPacket ∧
      NoOverrun (updateOutHandler testBoard .ro testReceiver startPacket).receiver headerPacket ∧
      NoOverrun headedReceiver lastPacket := by
    decide +kernel
  exact update_reassembles (.next headerPacket (.next startPacket .start
    (decide_eq_true hstart.1) rfl) (decide_eq_true hstart.2.1) rfl) hstart.2.2

/-- Full packets instead of the one byte: the rest of the block wraps, and the seventeenth of them
is stored behind the buffer. -/
theorem update_overruns_buffer :
    ∃ steps r, Callbacks testBoard .ro anyEvent testReceiver steps r ∧
      r.rxState = .insideBlock ∧
      testBoard.blockBufferSize < r.blockIndex.toNat + r.blockSize.toNat ∧
      ∃ w ∈ (updateOutHandler testBoard .ro r fullPacket).writes,
        testBoard.blockBufferSize < w.1 + w.2 := by
  have hrun : ((recordEvents (fun r p => some (updateOutHandler testBoard .ro r p).receiver) anyEvent
      testReceiver (startPacket :: headerPacket :: List.replicate 16 fullPacket) []).any
        fun run => decide (run.2.rxState = .insideBlock ∧
          testBoard.blockBufferSize < run.2.blockIndex.toNat + run.2.blockSize.toNat ∧
          ∃ w ∈ (updateOutHandler testBoard .ro run.2 fullPacket).writes,
            testBoard.blockBufferSize < w.1 + w.2)) = true := by
    decide +kernel
  exact Trace.exists_of_recordEvents _ hrun

end FwUpdate
end CrosEc
