import CrosEc.FwUpdate.Usb
import CrosEc.Uart.Model

/-!
# `common/usb_update.c`: vendor commands

A packet that announces its own size and the block base `UPDATE_EXTRA_CMD` is a vendor command.
`try_vendor_command` copies it into `buffer`, reads the subcommand behind the frame header and
queues a response.  Neither `buffer` nor `response` is initialised; what they hold before, and the
stack behind `struct touchpad_info`, is in `Stale`.
-/

namespace CrosEc
namespace FwUpdate
namespace Vendor

open Lib Uart

/-! ## What the command finds -/

/-- `CONFIG_ROLLBACK_SECRET_SIZE`, `CONFIG_ROLLBACK_UPDATE` and `CONFIG_USB_PAIRING` -/
structure SecretConfig where
  size : Nat
  update : Bool
  pairing : Bool

/-- `CONFIG_TOUCHPAD_VIRTUAL_OFF`, `CONFIG_TOUCHPAD_VIRTUAL_SIZE`, and the hash with
`CONFIG_TOUCHPAD_HASH_FW` -/
structure TouchpadVirtual where
  off : UInt32
  size : UInt32
  fullHash : Option (Blob 32)

/-- The build.  `CONFIG_ROLLBACK` and `CONFIG_TOUCHPAD` each have options of their own. -/
structure Config where
  rwsig : Bool
  rollback : Option (Option SecretConfig)
  touchpad : Option (Option TouchpadVirtual)
  consoleRead : Bool

/-- `rwsig_get_status` -/
inductive RwsigStatus where
  | unknown | inProgress | valid | invalid | aborted

/-- The size of `struct touchpad_info` -/
def touchpadInfoSize : Nat := 50

/-- The rest of the device. -/
structure Device (k : Nat) where
  rwsigStatus : RwsigStatus
  /-- `system_run_image_copy` returns. -/
  jumpReturns : Bool
  /-- `rollback_get_secret`, unless it fails -/
  secret : Option Bytes
  hmacSha256 : Bytes → Bytes → Blob 32
  x25519PublicFromPrivate : Blob 32 → Blob 32
  x25519 : Blob 32 → Bytes → Blob 32
  /-- `touchpad_get_info`: the zeroed structure filled in, and the return value -/
  touchpadInfo : Blob touchpadInfoSize × UInt32
  /-- `touchpad_debug` of its parameter: the return value and the data to write back -/
  touchpadDebug : Bytes → UInt32 × Bytes
  uart : TxState k
  /-- `queue_space(&update_to_usb)` -/
  space : Nat

/-- What the stack holds when the function is entered. -/
structure Stale where
  buffer : Blob usbMaxPacketSize
  response : UInt8
  behindInfo : Blob usbMaxPacketSize

/-! ## What the command does -/

inductive Effect where
  | rwsigContinue
  | rwsigAbort
  | flashSetProtect (mask flags : UInt32)
  | rollbackAddEntropy (data : Bytes)
  | touchpadDebug (param : Bytes)
  | consoleReadInit
  | consoleRead (type : UInt8) (size : Nat)
  | runImageCopy
  deriving DecidableEq

/-- `QUEUE_ADD_UNITS(&update_to_usb, source, count)`, with the memory from `source` on -/
structure Piece where
  source : Bytes
  count : Nat

/-- One response, in the pieces that it is queued in -/
abbrev Message := List Piece

/-- A return from the function: what it has done, and the responses that it has queued. -/
structure Reaction where
  effects : List Effect
  messages : List Message

/-- The function returns, or the device resets or jumps. -/
inductive Exit where
  | returns (r : Reaction)
  | leaves

/-- What the pieces put into a queue with this space. -/
def pushed : Nat → List Piece → Bytes
  | _, [] => []
  | space, piece :: pieces =>
      let bytes := piece.source.take (min piece.count space)
      bytes ++ pushed (space - bytes.length) pieces

def Reaction.queued (r : Reaction) (space : Nat) : Bytes := pushed space r.messages.flatten

/-! ## Subcommands -/

/-- `enum update_extra_command` -/
inductive ExtraCommand where
  | immediateReset | jumpToRw | stayInRo | unlockRw | unlockRollback | injectEntropy
  | pairChallenge | touchpadInfo | touchpadDebug | consoleReadInit | consoleReadNext
  deriving DecidableEq

def ExtraCommand.decode : Nat → Option ExtraCommand
  | 0 => some .immediateReset
  | 1 => some .jumpToRw
  | 2 => some .stayInRo
  | 3 => some .unlockRw
  | 4 => some .unlockRollback
  | 5 => some .injectEntropy
  | 6 => some .pairChallenge
  | 7 => some .touchpadInfo
  | 8 => some .touchpadDebug
  | 9 => some .consoleReadInit
  | 10 => some .consoleReadNext
  | _ => none

def ecResSuccess : UInt8 := 0
def ecResInvalidCommand : UInt8 := 1
def ecResError : UInt8 := 2
def ecResInvalidParam : UInt8 := 3
def ecResInvalidChecksum : UInt8 := 7
def ecResInProgress : UInt8 := 8
def ecResUnavailable : UInt8 := 9

/-- `QUEUE_ADD_UNITS(&update_to_usb, &response, sizeof(response))` -/
def answer (effects : List Effect) (response : UInt8) : Exit :=
  .returns ⟨effects, [[⟨[response], 1⟩]]⟩

/-- `sizeof(*cmd_buffer) + sizeof(uint16_t)` -/
def headerSize : Nat := frameHeaderSize + 2

/-- `int data_count` as an unsigned number -/
def toUnsigned (dataCount : Int) : Nat := (dataCount % 2 ^ 32).toNat

/-- `sizeof(struct pair_challenge)` -/
def pairChallengeSize : Nat := 48

section Commands

variable {k : Nat} (config : Config) (device : Device k)

/-- `UPDATE_EXTRA_CMD_JUMP_TO_RW` -/
def jumpToRw (stale : UInt8) : Exit :=
  if config.rwsig then
    answer [.rwsigContinue]
      (match device.rwsigStatus with
      | .valid => ecResSuccess
      | .invalid => ecResInvalidChecksum
      | .inProgress => ecResInProgress
      | _ => ecResError)
  else if device.jumpReturns then answer [.runImageCopy] stale
  else .leaves

/-- `UPDATE_EXTRA_CMD_INJECT_ENTROPY` -/
def injectEntropy (size : Nat) (dataCount : Int) (data : Bytes) (stale : UInt8) : Exit :=
  if dataCount < size then answer [] ecResInvalidParam
  -- the response stays as it is
  else answer [.rollbackAddEntropy (data.take dataCount.toNat)] stale

/-- `KEY_CONTEXT` -/
def keyContext : Bytes := "device-identity".toUTF8.toList

/-- `pair_challenge` -/
def pairChallenge (size : Nat) (challenge : Bytes) : Exit :=
  match device.secret with
  | none => answer [] ecResUnavailable
  | some secret =>
      let devicePrivate := device.hmacSha256 (secret.take size) keyContext
      let devicePublic := device.x25519PublicFromPrivate devicePrivate
      let sharedSecret := device.x25519 devicePrivate (challenge.take 32)
      let authenticator := device.hmacSha256 sharedSecret.val ((challenge.drop 32).take 16)
      .returns ⟨[], [[⟨[ecResSuccess], 1⟩, ⟨devicePublic.val, 32⟩, ⟨authenticator.val, 16⟩]]⟩

/-- The fields of `struct touchpad_info` that do not come from the driver. -/
def fillInfo (virtual : Option TouchpadVirtual) (tp : Bytes) : Bytes :=
  match virtual with
  | none => tp
  | some v =>
      let tp := writeAt tp 4 (Codec.uint32.encode v.off)
      let tp := writeAt tp 8 (Codec.uint32.encode v.size)
      match v.fullHash with
      | none => tp
      | some hash => writeAt tp 12 hash.val

/-- `UPDATE_EXTRA_CMD_TOUCHPAD_INFO`; `response_size` is unsigned. -/
def touchpadInfo (virtual : Option TouchpadVirtual) (dataCount : Int) (behind : Bytes) : Exit :=
  if dataCount ≠ 0 then answer [] ecResInvalidParam
  else
    let (tp, responseSize) := device.touchpadInfo
    if responseSize < 1 then .returns ⟨[], [[⟨[ecResError], responseSize.toNat⟩]]⟩
    else .returns ⟨[], [[⟨fillInfo virtual tp.val ++ behind, responseSize.toNat⟩]]⟩

/-- `UPDATE_EXTRA_CMD_TOUCHPAD_DEBUG` -/
def touchpadDebug (dataCount : Int) (data : Bytes) : Exit :=
  let param := data.take (toUnsigned dataCount)
  let (rv, written) := device.touchpadDebug param
  let response := rv.toUInt8
  if response ≠ ecResSuccess ∨ written.length = 0 then answer [.touchpadDebug param] response
  else if device.space < written.length then .returns ⟨[.touchpadDebug param], []⟩
  else .returns ⟨[.touchpadDebug param], [[⟨written, written.length⟩]]⟩

/-- `uart_console_read_buffer`: the return value and what it wrote. -/
def consoleReadBuffer (type : UInt8) (size : Nat) : UInt8 × Bytes :=
  let read (type : ConsoleRead) :=
    (ecResSuccess, (device.uart.uartConsoleReadBuffer type (BitVec.ofNat 16 size)).1)
  match type.toNat with
  | 0 => read .next
  | 1 => read .recent
  | _ => (ecResInvalidParam, [])

/-- `UPDATE_EXTRA_CMD_CONSOLE_READ_NEXT`; `output` has 64 bytes. -/
def consoleReadNext (dataCount : Int) (data : Bytes) : Exit :=
  if dataCount ≠ 1 then answer [] ecResInvalidParam
  else
    let type := data.headD 0
    let size := min 64 device.space
    let (response, output) := consoleReadBuffer device type size
    if response ≠ ecResSuccess ∨ output.length = 0 then answer [.consoleRead type size] response
    else .returns ⟨[.consoleRead type size], [[⟨output, output.length⟩]]⟩

def ecFlashProtectRwAtBoot : UInt32 := 0x80
def ecFlashProtectRollbackAtBoot : UInt32 := 0x200

/-- The `switch` over the subcommand: one that is not in the build is an invalid command. -/
def runCommand (stale : Stale) (dataCount : Int) (data : Bytes) : Option ExtraCommand → Exit
  | some .immediateReset => .leaves
  | some .jumpToRw => jumpToRw config device stale.response
  | some .stayInRo =>
      if config.rwsig then answer [.rwsigAbort] ecResSuccess else answer [] ecResInvalidCommand
  | some .unlockRw => answer [.flashSetProtect ecFlashProtectRwAtBoot 0] ecResSuccess
  | some .unlockRollback =>
      match config.rollback with
      | some _ => answer [.flashSetProtect ecFlashProtectRollbackAtBoot 0] ecResSuccess
      | none => answer [] ecResInvalidCommand
  | some .injectEntropy =>
      match config.rollback with
      | some (some secret) =>
          if secret.update then injectEntropy secret.size dataCount data stale.response
          else answer [] ecResInvalidCommand
      | _ => answer [] ecResInvalidCommand
  | some .pairChallenge =>
      match config.rollback with
      | some (some secret) =>
          if secret.pairing then
            -- the comparison is one of unsigned numbers
            if toUnsigned dataCount < pairChallengeSize then answer [] ecResInvalidParam
            else pairChallenge device secret.size data
          else answer [] ecResInvalidCommand
      | _ => answer [] ecResInvalidCommand
  | some .touchpadInfo =>
      match config.touchpad with
      | some virtual => touchpadInfo device virtual dataCount stale.behindInfo.val
      | none => answer [] ecResInvalidCommand
  | some .touchpadDebug =>
      match config.touchpad with
      | some _ => touchpadDebug device dataCount data
      | none => answer [] ecResInvalidCommand
  | some .consoleReadInit =>
      if config.consoleRead then answer [.consoleReadInit] ecResSuccess
      else answer [] ecResInvalidCommand
  | some .consoleReadNext =>
      if config.consoleRead then consoleReadNext device dataCount data
      else answer [] ecResInvalidCommand
  | none => answer [] ecResInvalidCommand

/-- `buffer` with the packet in it -/
def commandBuffer (stale : Stale) (packet : Bytes) : Bytes :=
  packet ++ stale.buffer.val.drop packet.length

/-- `be16toh(*((uint16_t *)(cmd_buffer + 1)))` -/
def subcommandOf (buffer : Bytes) : Nat :=
  256 * (buffer.getD frameHeaderSize 0).toNat + (buffer.getD (frameHeaderSize + 1) 0).toNat

/-- `try_vendor_command` of a packet that `isVendorCommand` accepts -/
def tryVendorCommand (stale : Stale) (packet : Bytes) : Exit :=
  let buffer := commandBuffer stale packet
  runCommand config device stale (packet.length - headerSize) (buffer.drop headerSize)
    (ExtraCommand.decode (subcommandOf buffer))

end Commands

end Vendor
end FwUpdate
end CrosEc
