import CrosEc.UsbPd.Message
import CrosEc.Lib.Interleaving
import CrosEc.Lib.Ring

/-!
# `common/usb_pd_tcpc.c`: received messages and the alert register

`tcpc_run` puts every message that it receives into the slot at the head of a ring and keeps it
by moving the head on.  The port manager finds `RX_STATUS` in the alert register, fetches the
message at the tail with `tcpc_get_message`, and gives the slot back by clearing `RX_STATUS`.

`rx_head` and `rx_payload` are one list of `RX_BUFFER_SIZE + 1` messages.  The last four fields
of a state record what has happened: they are written here and read by no function.
-/

namespace CrosEc
namespace UsbPd
namespace Tcpc

open Lib

/-- What `pd_analyze_rx` returns and the payload that it leaves. -/
structure Message where
  head : Int
  payload : Arr (BitVec 32) 7
  deriving DecidableEq

/-- `TCPC_REG_ALERT_CC_STATUS` -/
def alertCcStatus : BitVec 16 := 0x01#16
/-- `TCPC_REG_ALERT_RX_STATUS` -/
def alertRxStatus : BitVec 16 := 0x04#16
/-- `TCPC_REG_ALERT_RX_HARD_RST` -/
def alertRxHardRst : BitVec 16 := 0x08#16
/-- `TCPC_REG_ALERT_TX_FAILED` -/
def alertTxFailed : BitVec 16 := 0x10#16
/-- `TCPC_REG_ALERT_TX_DISCARDED` -/
def alertTxDiscarded : BitVec 16 := 0x20#16
/-- `TCPC_REG_ALERT_TX_SUCCESS` -/
def alertTxSuccess : BitVec 16 := 0x40#16

/-- `PD_TX_ERR_GOODCRC` -/
def pdTxErrGoodcrc : Int := -1
/-- `PD_CTRL_GOOD_CRC` -/
def pdCtrlGoodCrc : BitVec 16 := 1#16

/-- `struct pd_port_controller`, for a ring of `size` messages. -/
structure State (size : Nat) where
  alert : BitVec 16
  alertMask : BitVec 16
  /-- the Alert# line to the port manager -/
  alertLine : Bool
  rxEnabled : Bool
  rxBuf : Arr Message (size + 1)
  rxBufHead : Nat
  rxBufTail : Nat
  /-- the messages for which the head was moved on -/
  kept : List Message
  /-- those of them for which a GoodCRC was sent -/
  acknowledged : List Message
  /-- what `tcpc_get_message` returned since the last clear of `RX_STATUS` -/
  fetched : Option Message
  /-- the messages that were fetched and then cleared -/
  handedOut : List Message

/-- A port that is all zero. -/
def init (size : Nat) : State size where
  alert := 0#16
  alertMask := 0#16
  alertLine := false
  rxEnabled := false
  rxBuf := Arr.replicate _ ⟨0, Arr.replicate _ 0#32⟩
  rxBufHead := 0
  rxBufTail := 0
  kept := []
  acknowledged := []
  fetched := none
  handedOut := []

variable {size : Nat}

namespace State

/-- `rx_buf_is_full` -/
def rxBufIsFull (s : State size) : Bool :=
  let diff : Int := s.rxBufTail - s.rxBufHead
  diff = 1 ∨ diff = -size

/-- `rx_buf_is_empty` -/
def rxBufIsEmpty (s : State size) : Bool := s.rxBufTail = s.rxBufHead

/-- `rx_buf_increment` -/
def rxBufIncrement (size bufPtr : Nat) : Nat := if bufPtr = size then 0 else bufPtr + 1

/-- `alert` -/
def raise (mask : BitVec 16) (s : State size) : State size :=
  { s with
    alert := s.alert ||| mask
    alertLine := s.alertLine || s.alertMask &&& mask ≠ 0#16 }

/-- `handle_request`; `collision` says whether another packet comes before the GoodCRC. -/
def handleRequest (msg : Message) (collision : Bool) (s : State size) : State size :=
  let head : BitVec 16 := BitVec.ofInt 16 msg.head
  if head &&& 0x1F#16 ≠ pdCtrlGoodCrc ∨ pdHeaderCnt head ≠ 0 then
    if collision then s else { s with acknowledged := s.acknowledged ++ [msg] }
  else
    s

/-- The incoming packet of `tcpc_run`. -/
def receive (msg : Message) (collision : Bool) (s : State size) : State size :=
  let s := { s with
    rxBuf := ⟨s.rxBuf.val.set s.rxBufHead msg, by rw [List.length_set, s.rxBuf.property]⟩ }
  if 0 < msg.head ∧ !s.rxBufIsFull then
    let s := { s with
      rxBufHead := rxBufIncrement size s.rxBufHead
      kept := s.kept ++ [msg] }
    (s.handleRequest msg collision).raise alertRxStatus
  else if msg.head = pdRxErrHardReset then
    s.raise alertRxHardRst
  else
    s

/-- The outgoing packet of `tcpc_run`, which ended with `res`. -/
def transmitted (res : Int) (s : State size) : State size :=
  if 0 ≤ res then s.raise alertTxSuccess
  else if res = pdTxErrGoodcrc then s.raise alertTxFailed
  else s.raise alertTxDiscarded

/-- What `tcpc_run` finds: a packet that was received and whether another one follows at once;
a transmission to be made and its result; the changes of the two CC lines. -/
structure Run where
  received : Option (Message × Bool)
  sent : Option Int
  ccChanged : Bool × Bool

/-- `tcpc_run` -/
def tcpcRun (r : Run) (s : State size) : State size :=
  let s :=
    match r.received with
    | some (msg, collision) => if s.rxEnabled then s.receive msg collision else s
    | none => s
  match r.sent, s.rxEnabled with
  | some res, true => s.transmitted res
  | _, _ =>
      let s := if r.ccChanged.1 then s.raise alertCcStatus else s
      if r.ccChanged.2 then s.raise alertCcStatus else s

/-- An incoming packet comes before everything else. -/
theorem tcpcRun_some (msg : Message) (collision : Bool) (sent : Option Int)
    (ccChanged : Bool × Bool) (s : State size) :
    s.tcpcRun ⟨some (msg, collision), sent, ccChanged⟩ =
      (if s.rxEnabled then s.receive msg collision else s).tcpcRun ⟨none, sent, ccChanged⟩ := rfl

/-- `tcpc_alert_status` -/
def tcpcAlertStatus (s : State size) : BitVec 16 := s.alert

/-- `tcpc_alert_status_clear` -/
def tcpcAlertStatusClear (mask : BitVec 16) (s : State size) : State size :=
  let (s, mask) :=
    if mask &&& alertRxStatus ≠ 0#16 then
      let s := { s with fetched := none, handedOut := s.handedOut ++ s.fetched.toList }
      if !s.rxBufIsEmpty then
        let s := { s with rxBufTail := rxBufIncrement size s.rxBufTail }
        if !s.rxBufIsEmpty then
          -- buffer is not empty, keep alert active
          (s, mask &&& ~~~alertRxStatus)
        else
          (s, mask)
      else
        (s, mask)
    else
      (s, mask)
  let s := { s with alert := s.alert &&& ~~~mask }
  if s.alert = 0#16 then { s with alertLine := false } else s

/-- `tcpc_get_message` -/
def tcpcGetMessage (s : State size) : Option Message := s.rxBuf.val[s.rxBufTail]?

/-- The messages from the tail up to the head. -/
def held (s : State size) : List Message :=
  (s.rxBuf.val.rotate s.rxBufTail).take
    ((s.rxBufHead + (size + 1) - s.rxBufTail) % (size + 1))

end State

/-- The calls that a port gets. -/
inductive Event where
  | run (r : State.Run)
  | getMessage
  | alertStatus
  | alertStatusClear (mask : BitVec 16)
  | alertMaskSet (mask : BitVec 16)
  | setRxEnable (enable : Bool)

/-- One call. -/
def step (s : State size) : Event → Option (State size)
  | .run r => s.tcpcRun r
  | .getMessage => do
      let msg ← s.tcpcGetMessage
      return { s with fetched := some msg }
  | .alertStatus => s
  | .alertStatusClear mask => s.tcpcAlertStatusClear mask
  | .alertMaskSet mask => some { s with alertMask := mask }
  | .setRxEnable enable => some { s with rxEnabled := enable }

end Tcpc
end UsbPd
end CrosEc
