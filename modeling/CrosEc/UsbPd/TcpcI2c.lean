import CrosEc.Common

/-!
# `common/usb_pd_tcpc.c`: the registers over I2C

`tcpc_i2c_process` and what it calls, for a chip that is only a port controller (without
`CONFIG_USB_POWER_DELIVERY`).  The array `pd` is a function of the port.  The calls of the board,
of the scheduler and of `send_response` are recorded in their order.

`payload` is the buffer of the I2C slave, of which the first `len` bytes come from the bus.  A copy
that does not stay inside of the buffer or of `tx_payload` has no result.
-/

namespace CrosEc
namespace UsbPd
namespace TcpcI2c

open Lib

/-! ## Registers -/

/-- The registers that are read or written. -/
inductive Register where
  | vendorId
  | alert
  | alertMask
  | powerStatusMask
  | tcpcCtrl
  | roleCtrl
  | powerCtrl
  | ccStatus
  | powerStatus
  | msgHdrInfo
  | rxDetect
  | rxByteCnt
  | rxHdr
  | rxData
  | transmit
  | txHdr
  | txData
  deriving DecidableEq

/-- The addresses of `driver/tcpm/tcpci.h`. -/
def Register.address : Register → UInt8
  | .vendorId => 0x00
  | .alert => 0x10
  | .alertMask => 0x12
  | .powerStatusMask => 0x14
  | .tcpcCtrl => 0x19
  | .roleCtrl => 0x1a
  | .powerCtrl => 0x1c
  | .ccStatus => 0x1d
  | .powerStatus => 0x1e
  | .msgHdrInfo => 0x2e
  | .rxDetect => 0x2f
  | .rxByteCnt => 0x30
  | .rxHdr => 0x32
  | .rxData => 0x34
  | .transmit => 0x50
  | .txHdr => 0x52
  | .txData => 0x54

def registers : List Register :=
  [.vendorId, .alert, .alertMask, .powerStatusMask, .tcpcCtrl, .roleCtrl, .powerCtrl, .ccStatus,
    .powerStatus, .msgHdrInfo, .rxDetect, .rxByteCnt, .rxHdr, .rxData, .transmit, .txHdr, .txData]

/-- `switch (reg)` -/
def registerAt (reg : UInt8) : Option Register := registers.find? fun r => r.address = reg

/-! ## The port -/

/-- The options of the build. -/
structure Build where
  /-- `CONFIG_USB_PD_DUAL_ROLE` -/
  dualRole : Bool
  /-- `CONFIG_USBC_VCONN` -/
  vconn : Bool
  /-- `CONFIG_LOW_POWER_IDLE` -/
  lowPowerIdle : Bool
  /-- `TCPC_LOW_POWER` -/
  tcpcLowPower : Bool

/-- `struct pd_port_controller`; `tx_data` is null or the `tx_payload` of a port. -/
structure Port (ports : Nat) where
  powerRole : UInt8
  dataRole : UInt8
  polarity : UInt8
  ccPull : UInt8
  ccStatus : UInt8 × UInt8
  alert : UInt16
  alertMask : UInt16
  rxEnabled : UInt8
  powerStatus : UInt8
  powerStatusMask : UInt8
  lowPowerTs : UInt64
  rxHead : Fin 3 → UInt32
  rxPayload : Fin 3 → Blob 28
  rxBufHead : Fin 3
  rxBufTail : Fin 3
  txType : UInt8
  txHead : UInt16
  txPayload : Blob 28
  txData : Option (Fin ports)

variable {ports : Nat}

/-- What is called. -/
inductive Call (ports : Nat) where
  | sendResponse (len : Nat)
  | setHostMode (port : Fin ports) (enable : Bool)
  | selectPolarity (port : Fin ports) (polarity : UInt8)
  | setVconn (port : Fin ports) (polarity enable : UInt8)
  | rxDisableMonitoring (port : Fin ports)
  /-- `PD_EVENT_CC` -/
  | eventCc (port : Fin ports)
  /-- `PD_EVENT_TX` -/
  | eventTx (port : Fin ports)
  | alertClear (port : Fin ports)
  /-- `enable_sleep` and `disable_sleep` -/
  | sleep (enable : Bool)
  deriving DecidableEq

def Call.isSendResponse : Call ports → Bool
  | .sendResponse _ => true
  | _ => false

/-- `TCPC_REG_POWER_STATUS_UNINIT` -/
def powerStatusUninit : UInt8 := 0x40

/-- `TCPC_REG_ALERT_RX_STATUS` -/
def alertRxStatus : UInt16 := 0x04

/-- `TCPC_REG_RX_DETECT_SOP_HRST_MASK` -/
def rxDetectSopHrstMask : UInt8 := 0x21

/-- `TYPEC_CC_RP` and `TYPEC_CC_RD` -/
def typecCcRp : UInt8 := 1
def typecCcRd : UInt8 := 2

/-- `TYPEC_CC_VOLT_OPEN` -/
def typecCcVoltOpen : UInt8 := 0

/-- `PD_REV20` -/
def pdRev20 : UInt8 := 1

/-- `2*(PD_T_DRP_SRC + PD_T_DRP_SNK)` -/
def lowPowerDelay : UInt64 := 2 * (30 * 1000 + 40 * 1000)

namespace Port

/-- `rx_buf_is_empty` -/
def rxBufIsEmpty (p : Port ports) : Bool := p.rxBufTail = p.rxBufHead

/-- `rx_buf_increment` -/
def rxBufIncrement (bufPtr : Fin 3) : Fin 3 := if bufPtr = 2 then 0 else bufPtr + 1

/-- `tcpc_set_cc` -/
def setCc (b : Build) (now : UInt64) (port : Fin ports) (pull : UInt8) (p : Port ports) :
    Port ports × List (Call ports) :=
  -- If CC pull resistor not changing, then nothing to do.
  if p.ccPull = pull then (p, [])
  else
    ({ p with
        ccPull := pull
        lowPowerTs := if b.tcpcLowPower then now + lowPowerDelay else p.lowPowerTs
        ccStatus := (typecCcVoltOpen, typecCcVoltOpen) },
      (if b.dualRole then [.setHostMode port (pull = typecCcRp)] else []) ++ [.eventCc port])

/-- `tcpc_set_vconn` -/
def setVconn (b : Build) (port : Fin ports) (enable : UInt8) (p : Port ports) :
    Port ports × List (Call ports) :=
  (p, if b.vconn then [.setVconn port p.polarity enable] else [])

/-- `tcpc_set_polarity` -/
def setPolarity (port : Fin ports) (polarity : UInt8) (p : Port ports) :
    Port ports × List (Call ports) :=
  ({ p with polarity }, [.selectPolarity port polarity])

/-- The tail of the ring and the mask, when `mask` is cleared. -/
def giveBack (mask : UInt16) (p : Port ports) : Fin 3 × UInt16 :=
  if mask &&& alertRxStatus ≠ 0 ∧ p.rxBufIsEmpty = false then
    let tail := rxBufIncrement p.rxBufTail
    -- If the buffer is not empty, keep alert active.
    (tail, if tail ≠ p.rxBufHead then mask &&& ~~~alertRxStatus else mask)
  else (p.rxBufTail, mask)

/-- `tcpc_alert_status_clear` -/
def alertStatusClear (port : Fin ports) (mask : UInt16) (p : Port ports) :
    Port ports × List (Call ports) :=
  let (rxBufTail, mask) := p.giveBack mask
  let alert := p.alert &&& ~~~mask
  ({ p with rxBufTail, alert }, if alert = 0 then [.alertClear port] else [])

/-- `tcpc_transmit` of `tx_head` and `tx_payload` -/
def transmit (port : Fin ports) (type : UInt8) (p : Port ports) : Port ports × List (Call ports) :=
  ({ p with txType := type, txHead := p.txHead, txData := some port }, [.eventTx port])

/-- `memcpy(pd[port].tx_payload, ...)` -/
def copyTxPayload (data : Bytes) (p : Port ports) : Option (Port ports) :=
  if data.length ≤ 28 then
    some { p with
      txPayload := ⟨writeAt p.txPayload.val 0 data, by rw [length_writeAt, p.txPayload.property]⟩ }
  else none

end Port

/-- `tcpc_set_rx_enable` -/
def setRxEnable (b : Build) (port : Fin ports) (enable : UInt8) (pd : Fin ports → Port ports) :
    (Fin ports → Port ports) × List (Call ports) :=
  let pd := Function.update pd port { pd port with rxEnabled := enable }
  (pd,
    (if enable = 0 then [.rxDisableMonitoring port] else []) ++
      -- If any PD port is connected, then disable deep sleep.
      if b.lowPowerIdle then [.sleep ((List.finRange ports).all fun i => (pd i).rxEnabled = 0)]
      else [])

/-! ## Writing and reading -/

/-- Two bytes of the buffer. -/
def payloadShort (payload : Bytes) : UInt16 :=
  (payload.getD 1 0).toUInt16 ||| ((payload.getD 2 0).toUInt16 <<< 8)

/-- `tcpc_i2c_write` -/
def i2cWrite (b : Build) (now : UInt64) (port : Fin ports) (reg : UInt8) (len : Nat)
    (payload : Bytes) (pd : Fin ports → Port ports) :
    Option ((Fin ports → Port ports) × List (Call ports)) :=
  let p := pd port
  let value := payload.getD 1 0
  let set (r : Port ports × List (Call ports)) := some (Function.update pd port r.1, r.2)
  -- If we are not yet initialized, ignore any write command.
  if p.powerStatus &&& powerStatusUninit ≠ 0 then some (pd, [])
  else
    match registerAt reg with
    | some .roleCtrl => set (p.setCc b now port (value &&& 0x3))
    | some .powerCtrl => set (p.setVconn b port (value &&& 0x1))
    | some .tcpcCtrl => set (p.setPolarity port (value &&& 0x1))
    | some .msgHdrInfo =>
        set ({ p with powerRole := value &&& 0x1, dataRole := (value &&& 0x8) >>> 3 }, [])
    | some .alert => set (p.alertStatusClear port (payloadShort payload))
    | some .alertMask => set ({ p with alertMask := payloadShort payload }, [])
    | some .rxDetect => some (setRxEnable b port (value &&& rxDetectSopHrstMask) pd)
    | some .powerStatusMask => set ({ p with powerStatusMask := value }, [])
    | some .txHdr => set ({ p with txHead := payloadShort payload }, [])
    | some .txData =>
        (p.copyTxPayload ((payload.drop 1).take (len - 1))).bind fun p => set (p, [])
    | some .transmit => set (p.transmit port (value &&& 0x7))
    | _ => some (pd, [])

/-- The two bytes of a short. -/
def shortBytes (x : UInt16) : Bytes := [x.toUInt8, (x >>> 8).toUInt8]

/-- What `tcpc_i2c_read` puts into the buffer. -/
def i2cResponse (p : Port ports) (reg : UInt8) : Bytes :=
  match registerAt reg with
  | some .vendorId => shortBytes 0x18d1
  | some .ccStatus =>
      [(if p.ccPull = typecCcRd then (0x10 : UInt8) else 0) ||| ((p.ccStatus.2 &&& 0x3) <<< 2) |||
        (p.ccStatus.1 &&& 0x3)]
  | some .roleCtrl => [(p.ccPull <<< 2) ||| p.ccPull]
  | some .tcpcCtrl => [p.polarity]
  | some .msgHdrInfo => [(p.dataRole <<< 3) ||| (pdRev20 <<< 1) ||| p.powerRole]
  | some .rxDetect => [if p.rxEnabled ≠ 0 then rxDetectSopHrstMask else 0]
  | some .alert => shortBytes p.alert
  | some .alertMask => shortBytes p.alertMask
  | some .rxByteCnt => [(3 : UInt8) + (4 : UInt8) * ((p.rxHead p.rxBufTail >>> 12) &&& 7).toUInt8]
  | some .rxHdr => shortBytes (p.rxHead p.rxBufTail).toUInt16
  | some .rxData => (p.rxPayload p.rxBufTail).val
  | some .powerStatus => [p.powerStatus]
  | some .powerStatusMask => [p.powerStatusMask]
  | some .txHdr => shortBytes p.txHead
  | some .txData => p.txPayload.val
  | _ => []

/-- The results of `tcpc_i2c_process`: the ports, the buffer and the calls. -/
structure Processed (ports : Nat) where
  pd : Fin ports → Port ports
  payload : Bytes
  calls : List (Call ports)

/-- `tcpc_i2c_process` -/
def i2cProcess (b : Build) (now : UInt64) (read : Bool) (port : Fin ports) (len : Nat)
    (payload : Bytes) (pd : Fin ports → Port ports) : Option (Processed ports) :=
  -- If this is a read, we must call send_response().
  let calls := if len = 0 ∧ read = true then [.sendResponse 0] else []
  -- If this is a write, length must be at least 2.
  if read = false ∧ len < 2 then some ⟨pd, payload, calls⟩
  else
    -- Register is always first byte.
    let reg := payload.getD 0 0
    if read then
      let response := i2cResponse (pd port) reg
      if response.length ≤ payload.length then
        some ⟨pd, writeAt payload 0 response, calls ++ [.sendResponse response.length]⟩
      else none
    else
      (i2cWrite b now port reg len payload pd).map fun r => ⟨r.1, payload, calls ++ r.2⟩

/-! ## What a register is -/

/-- A port without the state that a register stands for. -/
def Port.without (p : Port ports) : Option Register → Port ports
  | some .roleCtrl =>
      { p with ccPull := 0, ccStatus := (typecCcVoltOpen, typecCcVoltOpen), lowPowerTs := 0 }
  | some .tcpcCtrl => { p with polarity := 0 }
  | some .msgHdrInfo => { p with powerRole := 0, dataRole := 0 }
  | some .alert => { p with alert := 0, rxBufTail := 0 }
  | some .alertMask => { p with alertMask := 0 }
  | some .rxDetect => { p with rxEnabled := 0 }
  | some .powerStatusMask => { p with powerStatusMask := 0 }
  | some .txHdr => { p with txHead := 0 }
  | some .txData => { p with txPayload := Arr.replicate 28 0 }
  | some .transmit => { p with txType := 0, txData := none }
  | _ => p

/-- A read is answered once and changes no port; a write is not answered, and changes nothing but
the state of the register. -/
structure Processed.Confined (r : Processed ports) (read : Bool) (port : Fin ports) (reg : UInt8)
    (pd : Fin ports → Port ports) : Prop where
  responses : (r.calls.filter Call.isSendResponse).length = if read = true then 1 else 0
  of_read : read = true → r.pd = pd
  port_eq : (r.pd port).without (registerAt reg) = (pd port).without (registerAt reg)
  others : ∀ other, other ≠ port → r.pd other = pd other

def Confined (b : Build) (now : UInt64) (read : Bool) (port : Fin ports) (len : Nat)
    (payload : Bytes) (pd : Fin ports → Port ports) : Prop :=
  ∃ r, i2cProcess b now read port len payload pd = some r ∧
    r.Confined read port (payload.getD 0 0) pd

/-- A write of more than the 28 bytes that a message may have, to a port that is initialised. -/
def OverlongTxData (read : Bool) (port : Fin ports) (len : Nat) (payload : Bytes)
    (pd : Fin ports → Port ports) : Prop :=
  read = false ∧ (pd port).powerStatus &&& powerStatusUninit = 0 ∧
    registerAt (payload.getD 0 0) = some .txData ∧ 29 < len

/-- The bytes of the I2C slave's buffer: `I2C_MAX_HOST_PACKET_SIZE + 4 +
CONFIG_I2C_EXTRA_PACKET_SIZE`, without two. -/
def hostBufferSize (extra : Nat) : Nat := 128 + 4 + extra - 2

/-! ## Writing -/

variable {b : Build} {now : UInt64} {port : Fin ports} {reg : UInt8} {len : Nat} {payload : Bytes}
  {pd : Fin ports → Port ports}

/-- A result that is confined to a register of a port, without an answer. -/
structure Keeps (port : Fin ports) (r : Option Register) (pd : Fin ports → Port ports)
    (result : (Fin ports → Port ports) × List (Call ports)) : Prop where
  port_eq : (result.1 port).without r = (pd port).without r
  others : ∀ other, other ≠ port → result.1 other = pd other
  responses : result.2.filter Call.isSendResponse = []

/-- The port is changed, and no other one. -/
theorem Keeps.update {r : Option Register} {p : Port ports} {calls : List (Call ports)}
    (hport : p.without r = (pd port).without r) (hcalls : calls.filter Call.isSendResponse = []) :
    Keeps port r pd (Function.update pd port p, calls) where
  port_eq := by
    dsimp only
    rw [Function.update_self, hport]
  others := fun _ hne => Function.update_of_ne hne _ _
  responses := hcalls

theorem Keeps.same (r : Option Register) : Keeps port r pd (pd, []) :=
  ⟨rfl, fun _ _ => rfl, rfl⟩

/-- **A write** of data that fits. -/
theorem i2cWrite_keeps
    (hfits : (pd port).powerStatus &&& powerStatusUninit = 0 → registerAt reg = some .txData →
      len ≤ 29) :
    ∃ result, i2cWrite b now port reg len payload pd = some result ∧
      Keeps port (registerAt reg) pd result := by
  rw [i2cWrite]
  dsimp only
  by_cases hinit : (pd port).powerStatus &&& powerStatusUninit = 0
  swap
  · rw [if_pos hinit]
    exact ⟨_, rfl, .same _⟩
  rw [if_neg (not_not.mpr hinit)]
  cases hreg : registerAt reg with
  | none => exact ⟨_, rfl, .same _⟩
  | some r =>
      cases r with
      | roleCtrl =>
          refine ⟨_, rfl, .update ?_ ?_⟩
          · rw [Port.setCc]
            split <;> rfl
          · rw [Port.setCc]
            split
            · rfl
            · cases b.dualRole <;> rfl
      | powerCtrl =>
          refine ⟨_, rfl, .update rfl ?_⟩
          rw [Port.setVconn]
          cases b.vconn <;> rfl
      | alert =>
          refine ⟨_, rfl, .update rfl ?_⟩
          rw [Port.alertStatusClear]
          dsimp only
          split <;> rfl
      | rxDetect =>
          refine ⟨_, rfl, ?_⟩
          rw [setRxEnable]
          refine .update rfl ?_
          rw [List.filter_append]
          split <;> split <;> rfl
      | txData =>
          have hlen := hfits hinit hreg
          have hcopy : ((payload.drop 1).take (len - 1)).length ≤ 28 := by
            rw [List.length_take]
            omega
          dsimp only
          rw [Port.copyTxPayload, if_pos hcopy]
          exact ⟨_, rfl, .update rfl rfl⟩
      | msgHdrInfo => exact ⟨_, rfl, .update rfl rfl⟩
      | alertMask => exact ⟨_, rfl, .update rfl rfl⟩
      | powerStatusMask => exact ⟨_, rfl, .update rfl rfl⟩
      | tcpcCtrl => exact ⟨_, rfl, .update rfl rfl⟩
      | txHdr => exact ⟨_, rfl, .update rfl rfl⟩
      | transmit => exact ⟨_, rfl, .update rfl rfl⟩
      | vendorId => exact ⟨_, rfl, .same _⟩
      | ccStatus => exact ⟨_, rfl, .same _⟩
      | powerStatus => exact ⟨_, rfl, .same _⟩
      | rxByteCnt => exact ⟨_, rfl, .same _⟩
      | rxHdr => exact ⟨_, rfl, .same _⟩
      | rxData => exact ⟨_, rfl, .same _⟩

/-- **Too much data** for `tx_payload`. -/
theorem i2cWrite_overlong (hinit : (pd port).powerStatus &&& powerStatusUninit = 0)
    (hreg : registerAt reg = some .txData) (hlong : 29 < len) (hlen : len ≤ payload.length) :
    i2cWrite b now port reg len payload pd = none := by
  have hcopy : ¬ ((payload.drop 1).take (len - 1)).length ≤ 28 := by
    rw [List.length_take, List.length_drop]
    omega
  rw [i2cWrite]
  dsimp only
  rw [if_neg (not_not.mpr hinit), hreg]
  dsimp only
  rw [Port.copyTxPayload, if_neg hcopy]
  rfl

/-- A response is never longer than a message. -/
theorem length_i2cResponse_le (p : Port ports) (reg : UInt8) : (i2cResponse p reg).length ≤ 28 := by
  rw [i2cResponse]
  cases hreg : registerAt reg with
  | none => simp
  | some r =>
      cases r with
      | rxData => exact (p.rxPayload p.rxBufTail).property.le
      | txData => exact p.txPayload.property.le
      | _ => simp [shortBytes]

/-! ## The transactions -/

theorem i2cProcess_read (hsize : 28 ≤ payload.length) :
    i2cProcess b now true port len payload pd =
      some ⟨pd, writeAt payload 0 (i2cResponse (pd port) (payload.getD 0 0)),
        (if len = 0 then [.sendResponse 0] else []) ++
          [.sendResponse (i2cResponse (pd port) (payload.getD 0 0)).length]⟩ := by
  have hle := (length_i2cResponse_le (pd port) (payload.getD 0 0)).trans hsize
  rw [i2cProcess, if_neg (fun h => Bool.noConfusion h.1)]
  dsimp only
  rw [if_pos rfl, if_pos hle]
  simp only [and_true]

/-- A read is confined unless it is empty: that one is answered twice. -/
theorem confined_read_iff (hsize : 28 ≤ payload.length) :
    Confined b now true port len payload pd ↔ len ≠ 0 := by
  rw [Confined, i2cProcess_read hsize]
  constructor
  · rintro ⟨r, hr, hconfined⟩ hempty
    cases hr
    have hcount := hconfined.responses
    rw [if_pos hempty] at hcount
    cases hcount
  · intro hne
    refine ⟨_, rfl, ?_, fun _ => rfl, rfl, fun _ _ => rfl⟩
    rw [if_neg hne]
    rfl

/-- A write is confined unless it is too much data for `tx_payload`. -/
theorem confined_write_iff (hlen : len ≤ payload.length) :
    Confined b now false port len payload pd ↔ ¬ OverlongTxData false port len payload pd := by
  rw [Confined, i2cProcess]
  by_cases hshort : len < 2
  · rw [if_pos ⟨rfl, hshort⟩]
    refine iff_of_true ⟨_, rfl, ?_, fun _ => rfl, rfl, fun _ _ => rfl⟩ ?_
    · simp
    rintro ⟨-, -, -, hlong⟩
    omega
  rw [if_neg (fun h => hshort h.2)]
  dsimp only
  rw [if_neg Bool.false_ne_true]
  by_cases hover : OverlongTxData false port len payload pd
  · obtain ⟨-, hinit, hreg, hlong⟩ := hover
    rw [i2cWrite_overlong hinit hreg hlong hlen]
    refine iff_of_false ?_ (not_not.mpr ⟨rfl, hinit, hreg, hlong⟩)
    rintro ⟨r, hr, -⟩
    cases hr
  · have hkeeps : ∃ result, i2cWrite b now port (payload.getD 0 0) len payload pd = some result ∧
        Keeps port (registerAt (payload.getD 0 0)) pd result :=
      i2cWrite_keeps fun hinit hreg => not_lt.mp fun hlong => hover ⟨rfl, hinit, hreg, hlong⟩
    obtain ⟨result, hresult, hkeeps⟩ := hkeeps
    rw [hresult]
    refine iff_of_true ⟨_, rfl, ?_, fun h => Bool.noConfusion h, hkeeps.port_eq, hkeeps.others⟩ hover
    rw [List.filter_append, hkeeps.responses]
    simp

/-- **Register access.**  A transaction is confined unless it is an empty read, or a write of more
than 28 bytes to `TCPC_REG_TX_DATA` of a port that is initialised. -/
theorem confined_iff (b : Build) (now : UInt64) (read : Bool) (port : Fin ports) (len : Nat)
    (payload : Bytes) (pd : Fin ports → Port ports) (extra : Nat)
    (hsize : payload.length = hostBufferSize extra) (hlen : len ≤ payload.length) :
    Confined b now read port len payload pd ↔
      ¬ (read = true ∧ len = 0) ∧ ¬ OverlongTxData read port len payload pd := by
  cases read with
  | true =>
      rw [confined_read_iff (by rw [hsize, hostBufferSize]; omega)]
      simp [OverlongTxData]
  | false =>
      rw [confined_write_iff hlen]
      simp

/-! ## Two transactions that are not confined -/

/-- A port that is initialised and otherwise all zero. -/
def zeroPort : Port 1 :=
  { powerRole := 0, dataRole := 0, polarity := 0, ccPull := 0, ccStatus := (0, 0), alert := 0,
    alertMask := 0, rxEnabled := 0, powerStatus := 0, powerStatusMask := 0, lowPowerTs := 0,
    rxHead := fun _ => 0, rxPayload := fun _ => Arr.replicate 28 0, rxBufHead := 0, rxBufTail := 0,
    txType := 0, txHead := 0, txPayload := Arr.replicate 28 0, txData := none }

def testBuild : Build := ⟨true, true, true, true⟩

/-- A buffer that begins with the address of a register. -/
def bufferOf (reg : Register) : Bytes := reg.address :: List.replicate 129 0xff

theorem length_bufferOf (reg : Register) : (bufferOf reg).length = 130 := by
  rw [bufferOf, List.length_cons, List.length_replicate]

/-- A write of 28 bytes to `TCPC_REG_TX_DATA`. -/
theorem confined_iff_full :
    Confined testBuild 0 false 0 29 (bufferOf .txData) (fun _ => zeroPort) ↔
      ¬ (false = true ∧ 29 = 0) ∧
        ¬ OverlongTxData false 0 29 (bufferOf .txData) fun _ => zeroPort :=
  confined_iff testBuild 0 false 0 29 (bufferOf .txData) (fun _ => zeroPort) 0
    (length_bufferOf .txData) (by rw [length_bufferOf]; decide)

/-- A write of 29 bytes to `TCPC_REG_TX_DATA`, and a read without a register. -/
theorem not_confined_overlong :
    ¬ Confined testBuild 0 false 0 30 (bufferOf .txData) (fun _ => zeroPort) ∧
      ¬ Confined testBuild 0 true 0 0 (bufferOf .txData) (fun _ => zeroPort) := by
  constructor
  · rw [confined_write_iff (by rw [length_bufferOf]; decide), not_not]
    exact ⟨rfl, by decide, by decide, by decide⟩
  · rw [confined_read_iff (by rw [length_bufferOf]; decide)]
    exact not_not.mpr rfl

end TcpcI2c
end UsbPd
end CrosEc
