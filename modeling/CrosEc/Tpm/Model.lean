import CrosEc.Common
import CrosEc.Lib.Interleaving
import CrosEc.Lib.Memory

/-!
# `common/tpm_registers.c`: the registers of the TPM

The host reads and writes the registers of the TPM in transfers of 1 to 64 bytes, at any time: a
transfer is handled in interrupt context and is one step.  A command is written to `data_fifo`
piece by piece; `tpm_go` wakes the TPM task, which takes the command from `data_fifo`, executes
it in place, and stores the response in `data_fifo`.  The transfers of the host come between the
last two, which are one step each, and so may a request for a reset, which the task serves when
it has nothing to execute.

What the handlers of the vendor commands and the TPM library answer comes with the step; a
handler stays inside the buffer that it is given.  The last fields of a state record what has
happened: they are read by no function.
-/

namespace CrosEc
namespace Tpm

open Lib

/-! ## The registers -/

/-- `enum tpm_states` -/
inductive TpmState where
  | idle
  | ready
  | receivingCmd
  | executingCmd
  | completingCmd
  deriving DecidableEq

/-- The value of the enumerator. -/
def TpmState.code : TpmState → BitVec 32
  | idle => 0
  | ready => 1
  | receivingCmd => 2
  | executingCmd => 3
  | completingCmd => 4

/-! Addresses of the registers. -/

def tpmAccess : BitVec 32 := 0
def tpmIntfCapability : BitVec 32 := 0x14
def tpmSts : BitVec 32 := 0x18
def tpmDataFifo : BitVec 32 := 0x24
def tpmDidVid : BitVec 32 := 0xf00
def tpmRid : BitVec 32 := 0xf04
def tpmFwVer : BitVec 32 := 0xf90

def googleVid : BitVec 32 := 0x1ae0
def googleDid : BitVec 32 := 0x0028
def cr50Rid : BitVec 32 := 0
def ifCapabilityReg : BitVec 32 := 3#32 <<< 28 ||| 3#32 <<< 9 ||| 0x15#32

/-! Bits of the registers. -/

def tpmRegValidSts : UInt8 := 0x80
def activeLocality : UInt8 := 0x20
def requestUse : UInt8 := 0x02

def burstCountShift : Nat := 8
def burstCountMask : BitVec 32 := 0xffff
def stsFamilyTpm2 : BitVec 32 := 1#32 <<< 26
def stsValid : BitVec 32 := 0x80
def commandReady : BitVec 32 := 0x40
def tpmGo : BitVec 32 := 0x20
def dataAvail : BitVec 32 := 0x10
def expect : BitVec 32 := 0x08
def responseRetry : BitVec 32 := 0x02

/-- `sizeof(tpm_.regs.data_fifo)` -/
def sizeofDataFifo : BitVec 32 := 2048

/-- `sizeof(tpm_fw_ver)` -/
def sizeofFwVer : Nat := 80

/-- The variables of the file, and the events of the TPM task. -/
structure Device where
  state : TpmState
  fifoReadIndex : BitVec 32
  fifoWriteIndex : BitVec 32
  access : UInt8
  sts : BitVec 32
  /-- the memory from `data_fifo` on -/
  dataFifo : Nat → UInt8
  fwVerIndex : Nat
  resetInProgress : Bool
  /-- `TASK_EVENT_WAKE` -/
  wakeEvent : Bool
  /-- `TPM_EVENT_RESET` -/
  resetEvent : Bool

namespace Device

/-- `set_tpm_state` -/
def setTpmState (state : TpmState) (r : Device) : Device :=
  if state = .idle then
    { r with
      state := state
      fifoReadIndex := 0
      fifoWriteIndex := 0
      sts := r.sts &&& ~~~dataAvail &&& ~~~(burstCountMask <<< burstCountShift) |||
        63#32 <<< burstCountShift }
  else { r with state := state }

/-- `single_bit_set` -/
def singleBitSet (value : BitVec 32) : Bool := value ≠ 0#32 ∧ value &&& (value - 1#32) = 0#32

/-- `copy_bytes`: the bytes that are written to `dest`. -/
def copyBytes (dataSize : Nat) (value : BitVec 32) : List UInt8 :=
  (List.range (min dataSize 4)).map fun i => UInt8.ofBitVec ((value >>> (i * 8)).setWidth 8)

/-- `access_reg_write` -/
def accessRegWrite (data : UInt8) (r : Device) : Device :=
  if singleBitSet (data.toBitVec.setWidth 32) = false then r
  else if data = requestUse then { r with access := r.access ||| activeLocality }
  else if data = activeLocality then
    -- No matter what we do, fall into idle state.
    { r with access := r.access &&& ~~~activeLocality }.setTpmState .idle
  else r

/-- `sts_reg_write_cr` -/
def stsRegWriteCr (r : Device) : Device :=
  match r.state with
  | .idle =>
      let r := r.setTpmState .ready
      { r with sts := r.sts ||| commandReady }
  | .ready => { r with sts := r.sts ||| commandReady }
  | .completingCmd | .executingCmd | .receivingCmd =>
      let r := r.setTpmState .idle
      { r with sts := r.sts &&& ~~~commandReady }

/-- `sts_reg_write_tg`.  It is the state that is compared with `expect`, not the register. -/
def stsRegWriteTg (r : Device) : Device :=
  match r.state with
  | .receivingCmd =>
      if r.state.code &&& expect = 0#32 then { r.setTpmState .executingCmd with wakeEvent := true }
      else r
  | _ => r

/-- `sts_reg_write_rr` -/
def stsRegWriteRr (r : Device) : Device :=
  match r.state with
  | .completingCmd => { r with fifoReadIndex := 0 }
  | _ => r

/-- The value of up to four bytes, the lowest first. -/
def leValue : List UInt8 → BitVec 32
  | [] => 0
  | b :: bs => b.toBitVec.setWidth 32 ||| leValue bs <<< 8

/-- The value that is written to the status register. -/
def stsValue (data : List UInt8) : BitVec 32 := leValue (data.take 4)

/-- `sts_reg_write` -/
def stsRegWrite (data : List UInt8) (r : Device) : Device :=
  let value := stsValue data
  if singleBitSet value = false then r
  else if value = commandReady then r.stsRegWriteCr
  else if value = tpmGo then r.stsRegWriteTg
  else if value = responseRetry then r.stsRegWriteRr
  else r

/-- `be32toh` of the field at `off` -/
def be32 (mem : Nat → UInt8) (off : Nat) : BitVec 32 :=
  (mem off).toBitVec ++ (mem (off + 1)).toBitVec ++ (mem (off + 2)).toBitVec ++
    (mem (off + 3)).toBitVec

def be16 (mem : Nat → UInt8) (off : Nat) : BitVec 16 :=
  (mem off).toBitVec ++ (mem (off + 1)).toBitVec

/-- The bytes of `htobe32` -/
def be32Bytes (x : BitVec 32) : List UInt8 :=
  [.ofBitVec (x.extractLsb' 24 8), .ofBitVec (x.extractLsb' 16 8),
    .ofBitVec (x.extractLsb' 8 8), .ofBitVec (x.extractLsb' 0 8)]

/-- `be32toh(tpmh->size)` -/
def packetSize (r : Device) : BitVec 32 := be32 r.dataFifo 2

/-- `fifo_reg_write` -/
def fifoRegWrite (data : List UInt8) (r : Device) : Device :=
  let dataSize := BitVec.ofNat 32 data.length
  let r :=
    if r.state = .ready ∧ r.fifoWriteIndex = 0#32 then r.setTpmState .receivingCmd else r
  if r.state ≠ .receivingCmd then r
  else if r.fifoWriteIndex + dataSize > sizeofDataFifo then
    { r with fifoWriteIndex := 0 }.setTpmState .ready
  else
    let r := { r with
      dataFifo := store r.dataFifo r.fifoWriteIndex.toNat data
      fifoWriteIndex := r.fifoWriteIndex + dataSize }
    if r.fifoWriteIndex < 6 then { r with sts := r.sts ||| expect }
    else if r.fifoWriteIndex < r.packetSize then { r with sts := r.sts ||| expect }
    else { r with sts := r.sts &&& ~~~expect }

/-- `tpm_register_put` -/
def registerPut (regaddr : BitVec 32) (data : List UInt8) (r : Device) : Device :=
  if r.resetInProgress then r
  else if regaddr = tpmAccess then r.accessRegWrite (data.headD 0)
  else if regaddr = tpmSts then r.stsRegWrite data
  else if regaddr = tpmDataFifo then r.fifoRegWrite data
  else if regaddr = tpmFwVer then { r with fwVerIndex := 0 }
  else r

/-- `fifo_reg_read`, and the bytes that are written to `dest` -/
def fifoRegRead (dataSize : BitVec 32) (r : Device) : Device × List UInt8 :=
  let stillInFifo := r.fifoWriteIndex - r.fifoReadIndex
  let dataSize := cMin dataSize stillInFifo
  let dest := load r.dataFifo r.fifoReadIndex.toNat dataSize.toNat
  let readIndex := r.fifoReadIndex + dataSize
  let sts := r.sts &&& ~~~(burstCountMask <<< burstCountShift)
  let sts :=
    if r.fifoWriteIndex = readIndex then
      sts &&& ~~~(dataAvail ||| commandReady) ||| 63#32 <<< burstCountShift
    else sts ||| cMin (r.fifoWriteIndex - readIndex) 63#32 <<< burstCountShift
  ({ r with fifoReadIndex := readIndex, sts := sts }, dest)

/-- The loop that reads the version string, up to its end. -/
def readFwVer (fwVer : List UInt8) : Nat → Nat → Nat × List UInt8
  | 0, index => (index, [])
  | n + 1, index =>
      let byte := if index < sizeofFwVer then fwVer.getD index 0 else 0
      let (index', dest) := readFwVer fwVer n (if byte ≠ 0 then index + 1 else index)
      (index', byte :: dest)

/-- `tpm_register_get`, and the bytes that are written to `dest` -/
def registerGet (fwVer : List UInt8) (regaddr dataSize : BitVec 32) (r : Device) : Device × List UInt8 :=
  if regaddr = tpmDidVid then (r, copyBytes dataSize.toNat (googleDid <<< 16 ||| googleVid))
  else if regaddr = tpmRid then (r, copyBytes dataSize.toNat cr50Rid)
  else if regaddr = tpmIntfCapability then (r, copyBytes dataSize.toNat ifCapabilityReg)
  else if regaddr = tpmAccess then (r, copyBytes dataSize.toNat (r.access.toBitVec.setWidth 32))
  else if regaddr = tpmSts then (r, copyBytes dataSize.toNat r.sts)
  else if regaddr = tpmDataFifo then r.fifoRegRead dataSize
  else if regaddr = tpmFwVer then
    let (index, dest) := readFwVer fwVer dataSize.toNat r.fwVerIndex
    ({ r with fwVerIndex := index }, dest)
  else (r, [])

/-- The bytes that have been received. -/
def received (r : Device) : List UInt8 := load r.dataFifo 0 r.fifoWriteIndex.toNat

/-! ## The TPM task -/

/-- `tpm_init`, which gives up where a rolling reboot is suspected -/
def init (rollingReboot : Bool) (r : Device) : Device :=
  if rollingReboot then r
  else { r.setTpmState .idle with
    access := tpmRegValidSts
    sts := stsFamilyTpm2 ||| 63#32 <<< burstCountShift ||| stsValid }

/-- `tpm_reset_now`: the variables are cleared, up to those that are preserved. -/
def resetNow (rollingReboot : Bool) (r : Device) : Device :=
  { Device.init rollingReboot { r with
      state := .idle
      fifoReadIndex := 0
      fifoWriteIndex := 0
      access := 0
      sts := 0
      dataFifo := fun i => if i < sizeofDataFifo.toNat then 0 else r.dataFifo i
      fwVerIndex := 0 } with resetInProgress := false }

end Device

/-- `struct vendor_cmd_params`, for a handler -/
structure VendorCmdParams where
  code : BitVec 16
  inSize : BitVec 32
  outSize : BitVec 32
  flags : BitVec 32
  deriving DecidableEq

/-- What the task does with a command. -/
inductive Command where
  /-- a vendor command, which is passed to its handler -/
  | vendor (p : VendorCmdParams)
  /-- a vendor command that is shorter than its header -/
  | short (commandSize : BitVec 32)
  /-- not executed, because the board is not the one that the image is for -/
  | mismatched
  /-- a command for the TPM library -/
  | library
  deriving DecidableEq

/-- `IS_CUSTOM_CODE` -/
def isCustomCode (code : BitVec 32) : Bool :=
  code = 0xbaccd00a#32 ∨ code &&& 0x20000000#32 ≠ 0#32

/-- `sizeof(struct tpm_cmd_header)` -/
def sizeofCmdHeader : BitVec 32 := 12

/-- `call_extension_command` up to the call of `extension_route_command` -/
def callExtensionCommand (tpmh : Nat → UInt8) (totalSize flags : BitVec 32) : Command :=
  let commandSize := Device.be32 tpmh 2
  if commandSize ≥ sizeofCmdHeader then
    .vendor {
      code := Device.be16 tpmh 10
      inSize := commandSize - sizeofCmdHeader
      outSize := totalSize - sizeofCmdHeader
      flags := flags }
  else .short commandSize

/-- `tpm_task` up to the execution of the command -/
def takeCommand (boardIdMismatched : Bool) (tpmh : Nat → UInt8) : Command :=
  if isCustomCode (Device.be32 tpmh 6) then callExtensionCommand tpmh sizeofDataFifo 0
  else if boardIdMismatched then .mismatched
  else .library

/-- What the handler of a vendor command, or the TPM library, answers. -/
inductive Outcome where
  /-- the return code, what the buffer holds, and `out_size` -/
  | handled (rc : BitVec 32) (buffer : List UInt8) (outSize : Nat)
  | executed (response : List UInt8)
  deriving DecidableEq

/-- `VENDOR_RC_ERR` -/
def vendorRcErr : BitVec 32 := 0x500

/-- `TPM_ST_NO_SESSIONS`, the size, and `TPM_RC_LOCKOUT` -/
def tpmBrokenResponse : List UInt8 := [0x80, 0x01, 0, 0, 0, 10, 0, 0, 9, 0x21]

/-- `tpm_task` from the execution of the command on: the buffer with the response, and the size
of the response.  A response of the library that does not fit is not copied. -/
def respond (mem : Nat → UInt8) : Command → Outcome → Option ((Nat → UInt8) × Nat)
  | .vendor p, .handled rc buffer outSize =>
      if buffer.length ≤ p.outSize.toNat ∧ outSize ≤ p.outSize.toNat then
        let totalSize := outSize + sizeofCmdHeader.toNat
        let mem := store mem sizeofCmdHeader.toNat buffer
        let mem := store mem 2 (Device.be32Bytes (BitVec.ofNat 32 totalSize))
        some (store mem 6 (Device.be32Bytes (if rc ≠ 0 then rc ||| vendorRcErr else rc)), totalSize)
      else none
  | .short commandSize, _ => some (mem, commandSize.toNat)
  | .mismatched, _ => some (store mem 0 tpmBrokenResponse, tpmBrokenResponse.length)
  | .library, .executed response =>
      some (if response.length ≤ sizeofDataFifo.toNat then store mem 0 response else mem,
        response.length)
  | _, _ => none

/-- The response is announced to the host, if there is one. -/
def Device.complete (mem : Nat → UInt8) (responseSize : Nat) (r : Device) : Device :=
  if responseSize ≠ 0 ∧ responseSize ≤ sizeofDataFifo.toNat then
    let r := { r with
      dataFifo := mem
      fifoReadIndex := 0
      fifoWriteIndex := BitVec.ofNat 32 responseSize }.setTpmState .completingCmd
    { r with
      sts := r.sts &&& ~~~(burstCountMask <<< burstCountShift) |||
        BitVec.ofNat 32 (min responseSize 63) <<< burstCountShift ||| dataAvail }
  else { r with dataFifo := mem }

/-! ## Interleavings -/

/-- A `tpm_go` that has been accepted, and the bytes of its command. -/
structure Go where
  id : Nat
  bytes : List UInt8
  deriving DecidableEq

/-- What the TPM task is doing with the commands in the FIFO. -/
inductive Task where
  | waiting
  /-- it executes a command, which it has taken for the last `tpm_go` before -/
  | running (command : Command) (taken : Go)
  deriving DecidableEq

structure State where
  tpm : Device
  /-- `tpm_fw_ver` -/
  fwVer : List UInt8
  task : Task
  /-- how often `tpm_go` has been accepted -/
  goCount : Nat
  /-- the last `tpm_go`, if it has not been aborted -/
  current : Option Go
  /-- whose response has been stored last -/
  answered : Option Go
  /-- the response that has been stored last -/
  response : List UInt8
  /-- what the host has read since then, or since it has asked for a retry -/
  readBack : List UInt8

/-- The state after the first reset. -/
def State.init (fwVer : List UInt8) (mem : Nat → UInt8) (rollingReboot : Bool) : State where
  tpm := Device.resetNow rollingReboot
    { state := .idle
      fifoReadIndex := 0
      fifoWriteIndex := 0
      access := 0
      sts := 0
      dataFifo := mem
      fwVerIndex := 0
      resetInProgress := false
      wakeEvent := false
      resetEvent := false }
  fwVer := fwVer
  task := .waiting
  goCount := 0
  current := none
  answered := none
  response := []
  readBack := []

inductive Event where
  /-- the host writes a register -/
  | put (regaddr : BitVec 32) (data : List UInt8)
  /-- the host reads a register -/
  | get (regaddr dataSize : BitVec 32)
  /-- `tpm_reset_request` -/
  | resetRequest
  /-- the task takes its events, and the command in the FIFO or a reset -/
  | take (boardIdMismatched rollingReboot : Bool)
  /-- the task stores the response -/
  | store (outcome : Outcome)

/-- The host writes `command_ready`, or releases the locality. -/
def aborts (regaddr : BitVec 32) (data : List UInt8) : Bool :=
  (regaddr = tpmSts ∧ Device.stsValue data = commandReady) ∨
    (regaddr = tpmAccess ∧ data.headD 0 = activeLocality)

/-- The host writes `response_retry`. -/
def retries (regaddr : BitVec 32) (data : List UInt8) : Bool :=
  regaddr = tpmSts ∧ Device.stsValue data = responseRetry

namespace State

/-- The host writes a register. -/
def put (regaddr : BitVec 32) (data : List UInt8) (s : State) : State :=
  let tpm := s.tpm.registerPut regaddr data
  -- `tpm_go` is accepted
  if s.tpm.state ≠ .executingCmd ∧ tpm.state = .executingCmd then
    { s with
      tpm := tpm
      goCount := s.goCount + 1
      current := some ⟨s.goCount + 1, tpm.received⟩ }
  else
    { s with
      tpm := tpm
      current := if aborts regaddr data ∧ s.tpm.resetInProgress = false then none else s.current
      readBack := if retries regaddr data ∧ s.tpm.resetInProgress = false then [] else s.readBack }

/-- The host reads a register. -/
def get (regaddr dataSize : BitVec 32) (s : State) : State :=
  let (tpm, dest) := s.tpm.registerGet s.fwVer regaddr dataSize
  { s with
    tpm := tpm
    readBack := if regaddr = tpmDataFifo then s.readBack ++ dest else s.readBack }

/-- The task takes its events: it resets the TPM, or it takes the command. -/
def take (boardIdMismatched rollingReboot : Bool) (s : State) : Option State :=
  match s.task with
  | .waiting =>
      if s.tpm.resetEvent then
        some { s with
          tpm := Device.resetNow rollingReboot { s.tpm with wakeEvent := false, resetEvent := false }
          current := none }
      else if s.tpm.wakeEvent then
        some { s with
          tpm := { s.tpm with wakeEvent := false }
          task := .running (takeCommand boardIdMismatched s.tpm.dataFifo) ⟨s.goCount, s.tpm.received⟩ }
      else none
  | .running _ _ => none

/-- The task stores the response. -/
def store (outcome : Outcome) (s : State) : Option State :=
  match s.task with
  | .waiting => none
  | .running command taken =>
      (respond s.tpm.dataFifo command outcome).map fun (mem, responseSize) =>
        let tpm := s.tpm.complete mem responseSize
        if responseSize ≠ 0 ∧ responseSize ≤ sizeofDataFifo.toNat then
          { s with
            tpm := tpm
            task := .waiting
            answered := some taken
            response := load mem 0 responseSize
            readBack := [] }
        else { s with tpm := tpm, task := .waiting }

/-- A `tpm_go` has not been served yet. -/
def Busy (s : State) : Prop := s.tpm.wakeEvent = true ∨ s.task ≠ .waiting

instance (s : State) : Decidable s.Busy := inferInstanceAs (Decidable (_ ∨ _))

end State

/-- One step. -/
def step (s : State) : Event → Option State
  | .put regaddr data =>
      if 1 ≤ data.length ∧ data.length ≤ 64 then some (s.put regaddr data) else none
  | .get regaddr dataSize =>
      if 1 ≤ dataSize ∧ dataSize ≤ 64 then some (s.get regaddr dataSize) else none
  | .resetRequest =>
      if s.tpm.resetInProgress then some s
      else some { s with tpm := { s.tpm with resetInProgress := true, resetEvent := true } }
  | .take boardIdMismatched rollingReboot => s.take boardIdMismatched rollingReboot
  | .store outcome => s.store outcome

end Tpm
end CrosEc
