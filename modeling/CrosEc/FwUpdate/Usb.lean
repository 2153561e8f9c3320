import CrosEc.FwUpdate.Model

/-!
# `common/usb_update.c`: blocks from USB packets

A block comes as a header packet, which announces its size, and data packets; the handler collects
them in `block_buffer` and passes the whole block on.  The buffer is memory from its start on, so
that a write behind its end has an offset too.
-/

namespace CrosEc
namespace FwUpdate

open Lib

/-- `enum rx_state` -/
inductive RxState where
  | idle | insideBlock | outsideBlock
  deriving DecidableEq

/-- `offsetof(struct update_frame_header, cmd)` -/
def cmdOffset : Nat := 4

/-- `USB_MAX_PACKET_SIZE` -/
def usbMaxPacketSize : Nat := 64

/-- `UPDATE_DONE` -/
def updateDone : UInt32 := 0xb007ab1e

/-- `UPDATE_EXTRA_CMD` -/
def updateExtraCmd : UInt32 := 0xb007ab1f

/-- `sizeof(block_buffer)` -/
def Board.blockBufferSize (b : Board) : Nat := commandSize + b.pduSize.toNat

/-- The static variables of `usb_update.c`, over those of `update_fw.c`. -/
structure Receiver where
  rxState : RxState
  /-- `block_buffer`, and the memory behind it -/
  blockBuffer : Nat → UInt8
  blockSize : UInt32
  blockIndex : UInt32
  prevActivityTimestamp : UInt64
  dataWasTransferred : Bool
  update : State

/-- A packet, with the time when its callback runs and what the rest of the system answers. -/
structure Packet where
  data : Bytes
  now : UInt64
  /-- the response to a vendor command -/
  vendorResponse : Bytes
  info : StartInfo
  outcome : FlashOutcome
  touchpadOk : Bool
  data_pos : 0 < data.length
  data_le : data.length ≤ usbMaxPacketSize

/-- What is put into the queue `update_to_usb`. -/
inductive Reply where
  | vendor (bytes : Bytes)
  | startup (response : Response)
  | code (c : UInt8)

/-- A callback: what it leaves, where in `block_buffer` it wrote how much, the blocks of data that
it passed to `fw_update_command_handler`, and its replies. -/
structure Callback where
  receiver : Receiver
  writes : List (Nat × Nat)
  blocks : List Bytes
  replies : List Reply

/-- The fields of `struct update_frame_header` -/
def frameBlockSize (frame : Bytes) : UInt32 := be32 frame

/-- The frame from its command on. -/
def frameCmd (frame : Bytes) : Bytes := frame.drop cmdOffset

/-- `fetch_transfer_start` drains the queue; a packet of another size is no frame. -/
def fetchTransferStart (packet : Bytes) : Option Bytes :=
  if packet.length = frameHeaderSize then some packet else none

/-- `try_vendor_command` takes the packet; `update_pdu_valid` always agrees. -/
def isVendorCommand (packet : Bytes) : Bool :=
  frameHeaderSize ≤ packet.length ∧ packet.length ≤ usbMaxPacketSize ∧
    blockBase (frameCmd packet) = updateExtraCmd ∧
    frameBlockSize packet = UInt32.ofNat packet.length

/-- The update start PDU: no payload, digest and base are zero. -/
def isUpdateStart (frame : Bytes) : Bool :=
  frameBlockSize frame = UInt32.ofNat frameHeaderSize ∧ be32 (frameCmd frame) = 0 ∧
    blockBase (frameCmd frame) = 0

/-- `send_error_reset(UPDATE_GEN_ERROR)` -/
def sendErrorReset (r : Receiver) (writes : List (Nat × Nat)) : Callback where
  receiver := { r with rxState := .idle, dataWasTransferred := false }
  writes := writes
  blocks := []
  replies := [.code updateGenError]

/-- The return value of the first response, zero unless it reports a problem. -/
def Response.failed : Response → Bool
  | .startup pdu => pdu.returnValue ≠ 0
  | .code c => c ≠ 0

/-- The byte that the host gets for a block.  A block of data is never a start PDU. -/
def Response.byte : Response → UInt8
  | .startup pdu => (pdu.returnValue >>> 24).toUInt8
  | .code c => c

section Handler

variable (b : Board) (running : ImageCopy)

def callHandler (p : Packet) (body : Bytes) (s : State) : Outcome :=
  commandHandler b running p.outcome p.info p.touchpadOk body s

/-- The first lines of `update_out_handler`: after five seconds start over. -/
def afterTimeout (r : Receiver) (p : Packet) : Receiver :=
  let r' := { r with prevActivityTimestamp := p.now }
  if 5000000 < p.now - r.prevActivityTimestamp ∧ r.rxState ≠ .idle then
    { r' with rxState := .idle }
  else r'

/-- A packet in state `rx_idle` -/
def idlePacket (r : Receiver) (p : Packet) : Callback :=
  if isVendorCommand p.data then ⟨r, [], [], [.vendor p.vendorResponse]⟩
  else
    match fetchTransferStart p.data with
    | none => sendErrorReset r []
    | some frame =>
        if isUpdateStart frame = false then sendErrorReset r []
        else
          let o := callHandler b running p (frameCmd frame) r.update
          let r' := { r with update := o.state }
          ⟨if o.response.failed then r'
            else { r' with rxState := .outsideBlock, dataWasTransferred := false },
            [], [], [.startup o.response]⟩

/-- A packet in state `rx_outside_block` -/
def outsidePacket (r : Receiver) (p : Packet) : Callback :=
  if p.data.length = 4 ∧ be32 p.data = updateDone then
    -- `fw_update_complete` does nothing.
    ⟨{ r with rxState := .idle, dataWasTransferred := false }, [], [], [.code 0]⟩
  else
    match fetchTransferStart p.data with
    | none => sendErrorReset r []
    | some frame =>
        let size := frameBlockSize frame - UInt32.ofNat cmdOffset
        if size ≤ UInt32.ofNat commandSize ∨ UInt32.ofNat b.blockBufferSize < size then
          sendErrorReset { r with blockSize := size } []
        else
          let index := UInt32.ofNat (frameHeaderSize - cmdOffset)
          ⟨{ r with
              rxState := .insideBlock
              blockBuffer := store r.blockBuffer 0 (frameCmd frame)
              blockIndex := index
              blockSize := size - index },
            [(0, (frameCmd frame).length)], [], []⟩

/-- A packet in state `rx_inside_block` -/
def insidePacket (r : Receiver) (p : Packet) : Callback :=
  let writes := [(r.blockIndex.toNat, p.data.length)]
  let r' : Receiver :=
    { r with
      blockBuffer := store r.blockBuffer r.blockIndex.toNat p.data
      blockIndex := r.blockIndex + UInt32.ofNat p.data.length
      blockSize := r.blockSize - UInt32.ofNat p.data.length }
  if r'.blockSize ≠ 0 then
    if p.data.length ≤ frameHeaderSize then sendErrorReset r' writes else ⟨r', writes, [], []⟩
  else
    let block := load r'.blockBuffer 0 r'.blockIndex.toNat
    let o := callHandler b running p block r'.update
    ⟨{ r' with
        rxState := .outsideBlock
        blockBuffer := store r'.blockBuffer 0 [o.response.byte]
        dataWasTransferred := true
        update := o.state },
      writes ++ [(0, 1)], [block], [.code o.response.byte]⟩

/-- `update_out_handler` -/
def updateOutHandler (r : Receiver) (p : Packet) : Callback :=
  let awake := afterTimeout r p
  match awake.rxState with
  | .idle => idlePacket b running awake p
  | .outsideBlock => outsidePacket b awake p
  | .insideBlock => insidePacket b running awake p

end Handler

end FwUpdate
end CrosEc
