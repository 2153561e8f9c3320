import CrosEc.Common
import CrosEc.Lib.Bits
import CrosEc.Lib.Interleaving
import CrosEc.Lib.Ring

/-!
# `common/mkbp_event.c` and `common/keyboard_mkbp.c`: events for the host

An event of the matrix keyboard protocol is a bit in `events`: it says that the source of this
type has data.  The host takes one event at a time with `EC_CMD_GET_NEXT_EVENT`.  Keys, buttons,
switches and emulated SysRq share one FIFO, and their sources answer only when the oldest entry
of the FIFO is of their type; the others have sources of their own.

Calls are executed one after the other here.  The last three fields of a state record what has
happened: they are written here and read by no function.
-/

namespace CrosEc
namespace Mkbp

open Lib

/-- `enum ec_mkbp_event` -/
inductive EventType where
  | keyMatrix
  | hostEvent
  | sensorFifo
  | button
  | switch
  | fingerprint
  | sysrq
  | hostEvent64
  | cecEvent
  | cecMessage
  deriving DecidableEq

/-- `EC_MKBP_EVENT_COUNT` -/
def ecMkbpEventCount : Nat := 10

namespace EventType

/-- The value of the enumerator. -/
def code : EventType → Fin 10
  | keyMatrix => 0
  | hostEvent => 1
  | sensorFifo => 2
  | button => 3
  | switch => 4
  | fingerprint => 5
  | sysrq => 6
  | hostEvent64 => 7
  | cecEvent => 8
  | cecMessage => 9

def ofCode : Fin 10 → EventType
  | 0 => keyMatrix
  | 1 => hostEvent
  | 2 => sensorFifo
  | 3 => button
  | 4 => switch
  | 5 => fingerprint
  | 6 => sysrq
  | 7 => hostEvent64
  | 8 => cecEvent
  | 9 => cecMessage

/-- The byte in a response. -/
def byte (t : EventType) : UInt8 := UInt8.ofNat t.code

end EventType

def ecResSuccess : UInt16 := 0
def ecResError : UInt16 := 2
def ecResUnavailable : UInt16 := 9

/-- `EC_MKBP_HAS_MORE_EVENTS` -/
def ecMkbpHasMoreEvents : UInt8 := 0x80
/-- `EC_MKBP_EVENT_TYPE_MASK` -/
def ecMkbpEventTypeMask : UInt8 := 0x7f

/-- Where the data of an event comes from. -/
inductive Source where
  /-- `get_next_event` of `keyboard_mkbp.c` -/
  | fifo
  /-- another module, which has its data ready and sends no event itself -/
  | other
  | none
  deriving DecidableEq

/-- The configuration of the board. -/
structure Board where
  keyboardCols : Nat
  /-- `CONFIG_HOST_EVENT64` -/
  hostEvent64 : Bool
  /-- `CONFIG_EMULATED_SYSRQ` -/
  emulatedSysrq : Bool
  /-- the types for which other modules declare a source -/
  otherSources : EventType → Bool
  cols_pos : 0 < keyboardCols
  /-- `KEYBOARD_COLS_MAX` -/
  cols_le : keyboardCols ≤ 13

namespace Board

/-- `get_data_size` -/
def getDataSize (b : Board) : EventType → Nat
  | .keyMatrix => b.keyboardCols
  | .hostEvent64 => if b.hostEvent64 then 8 else 0
  | .hostEvent | .button | .switch | .sysrq => 4
  | _ => 0

/-- The source that `DECLARE_EVENT_SOURCE` gives a type. -/
def source (b : Board) (t : EventType) : Source :=
  match t with
  | .keyMatrix | .button | .switch => .fifo
  | .sysrq => if b.emulatedSysrq then .fifo else .none
  | _ => if b.otherSources t then .other else .none

end Board

/-- `struct ec_response_get_next_event` -/
structure Slot where
  eventType : EventType
  data : Blob 13
  deriving DecidableEq

def Slot.zero : Slot := ⟨.keyMatrix, Arr.replicate _ 0⟩

/-- The bytes of an event: its type and its data. -/
abbrev Entry := UInt8 × Bytes

/-- The entry in a slot. -/
def Slot.entry (b : Board) (slot : Slot) : Entry :=
  (slot.eventType.byte, slot.data.val.take (b.getDataSize slot.eventType))

/-- `FIFO_DEPTH` -/
def fifoDepth : Nat := 16

/-- The two settings of `struct ec_mkbp_protocol_config` that the FIFO depends on: the flag
`EC_MKBP_FLAGS_ENABLE`, and the depth. -/
structure Config where
  enable : Bool
  fifoMaxDepth : UInt8

/-- How an entry left the FIFO. -/
inductive Fate where
  /-- for the host -/
  | fetched
  /-- it was added to an empty FIFO, and the host could not be woken -/
  | asleep
  /-- by `mkbp_clear_fifo` -/
  | cleared
  deriving DecidableEq

structure State where
  fifoStart : Nat
  fifoEnd : Nat
  fifoEntries : Nat
  fifo : Arr Slot fifoDepth
  config : Config
  events : BitVec 32
  /-- the static variable of `mkbp_get_next_event` -/
  last : Nat
  /-- the interrupt line to the host -/
  hostActive : Bool
  /-- what was put into the FIFO -/
  accepted : List Entry
  /-- what is not in the FIFO any more -/
  left : List (Entry × Fate)
  /-- the events of the FIFO that the host got -/
  responses : List Entry

def State.init : State where
  fifoStart := 0
  fifoEnd := 0
  fifoEntries := 0
  fifo := Arr.replicate _ Slot.zero
  config := ⟨true, 16⟩
  events := 0#32
  last := 0
  hostActive := false
  accepted := []
  left := []
  responses := []

/-- The state of the host while a call runs: whether it sleeps (with `CONFIG_MKBP_WAKEUP_MASK`),
and whether a host event is pending that wakes it. -/
structure Host where
  sleeping : Bool
  wakeEvent : Bool

/-! ## `mkbp_event.c` -/

/-- `set_event`, on the variable `events`. -/
def orEvent (t : EventType) (events : BitVec 32) : BitVec 32 := events ||| 1#32 <<< t.code.val

/-- `clear_event` -/
def andNotEvent (t : EventType) (events : BitVec 32) : BitVec 32 :=
  events &&& ~~~(1#32 <<< t.code.val)

/-- `event_is_set` -/
def hasEvent (t : EventType) (events : BitVec 32) : Bool := events &&& 1#32 <<< t.code.val ≠ 0#32

theorem EventType.ofCode_code (t : EventType) : ofCode t.code = t := by
  cases t <;> rfl

theorem EventType.code_ofCode (i : Fin 10) : (ofCode i).code = i := by
  revert i
  decide

theorem EventType.code_inj {t u : EventType} : t.code.val = u.code.val ↔ t = u := by
  constructor
  · intro h
    rw [← ofCode_code t, ← ofCode_code u, Fin.ext h]
  · rintro rfl
    rfl

theorem hasEvent_eq (t : EventType) (events : BitVec 32) :
    hasEvent t events = events.getLsbD t.code.val := by
  have hlt : t.code.val < 32 := by omega
  have htest := and_bit_ne_zero_iff events hlt
  unfold hasEvent
  cases h : events.getLsbD t.code.val with
  | true => simpa [h] using htest
  | false => simpa [h] using htest

theorem hasEvent_orEvent (t u : EventType) (events : BitVec 32) :
    hasEvent u (orEvent t events) = (hasEvent u events || decide (t = u)) := by
  have hlt : t.code.val < 32 := by omega
  rw [hasEvent_eq, hasEvent_eq, orEvent, getLsbD_or_bit _ hlt]
  simp [EventType.code_inj]

theorem hasEvent_andNotEvent (t u : EventType) (events : BitVec 32) :
    hasEvent u (andNotEvent t events) = (hasEvent u events && !decide (t = u)) := by
  have hlt : u.code.val < 32 := by omega
  rw [hasEvent_eq, hasEvent_eq, andNotEvent, getLsbD_and_not_bit _ hlt]
  simp [EventType.code_inj]

namespace State

/-- `set_event` -/
def setEvent (t : EventType) (s : State) : State := { s with events := orEvent t s.events }

/-- `clear_event` -/
def clearEvent (t : EventType) (s : State) : State := { s with events := andNotEvent t s.events }

/-- `event_is_set` -/
def eventIsSet (s : State) (t : EventType) : Bool := hasEvent t s.events

/-- `set_host_interrupt` -/
def setHostInterrupt (active : Bool) (s : State) : State := { s with hostActive := active }

/-- `mkbp_send_event` -/
def mkbpSendEvent (host : Host) (t : EventType) (s : State) : State × Bool :=
  let s := s.setEvent t
  -- skip host wake if this isn't a wake event
  if host.sleeping ∧ !host.wakeEvent ∧ t ≠ .keyMatrix then (s, false)
  else (s.setHostInterrupt true, true)

/-! ## `keyboard_mkbp.c` -/

/-- `fifo[i]` -/
def slot (s : State) (i : Nat) : Slot := s.fifo.val.getD i Slot.zero

/-- The entries of the FIFO, the oldest one first. -/
def held (s : State) : List Slot := (s.fifo.val.rotate s.fifoStart).take s.fifoEntries

variable (b : Board)

/-- `fifo_remove`: the return value, and what it copies to `buffp`. -/
def fifoRemove (fate : Fate) (s : State) : State × Code × Bytes :=
  if s.fifoEntries = 0 then
    -- no entry remaining: the last known state
    let last := (s.fifoStart + fifoDepth - 1) % fifoDepth
    (s, ecErrorUnknown, ((s.slot last).entry b).2)
  else
    let entry := (s.slot s.fifoStart).entry b
    ({ s with
        fifoStart := (s.fifoStart + 1) % fifoDepth
        fifoEntries := s.fifoEntries - 1
        left := s.left ++ [(entry, fate)] }, ecSuccess, entry.2)

/-- `mkbp_clear_fifo` -/
def mkbpClearFifo (s : State) : State :=
  { s with
    fifoStart := 0
    fifoEnd := 0
    fifoEntries := 0
    fifo := Arr.replicate _ Slot.zero
    left := s.left ++ s.held.map fun slot => (slot.entry b, .cleared) }

/-- `mkbp_fifo_add` -/
def mkbpFifoAdd (host : Host) (t : EventType) (buffp : Bytes) (s : State) : State × Code :=
  if !s.config.enable ∧ t = .keyMatrix then (s, ecSuccess)
  else if s.fifoEntries ≥ s.config.fifoMaxDepth.toNat then (s, ecErrorOverflow)
  else
    let data := readBytes (b.getDataSize t) buffp
    let new : Slot := ⟨t, writeAt (s.slot s.fifoEnd).data.val 0 data, by
      rw [length_writeAt, (s.slot s.fifoEnd).data.property]⟩
    let s := { s with
      fifo := ⟨s.fifo.val.set s.fifoEnd new, by rw [List.length_set, s.fifo.property]⟩
      fifoEnd := (s.fifoEnd + 1) % fifoDepth
      fifoEntries := s.fifoEntries + 1
      accepted := s.accepted ++ [(t.byte, data)] }
    let (s, sent) := s.mkbpSendEvent host t
    -- the host is still asleep: don't queue our event, except if another one just woke it
    if !sent ∧ s.fifoEntries = 1 then ((s.fifoRemove b .asleep).1, ecSuccess)
    else (s, ecSuccess)

/-- `-EC_ERROR_BUSY` -/
def busy : Int := -ecErrorBusy.toNat

/-- `get_next_event`: the return value, and what it copies to `out`. -/
def getNextEvent (host : Host) (evt : EventType) (s : State) : State × Int × Bytes :=
  let t := (s.slot s.fifoStart).eventType
  if s.fifoEntries = 0 then (s, -1, [])
  else if t ≠ evt then (s, busy, [])
  else
    let (s, _, out) := s.fifoRemove b .fetched
    -- keep sending events if the FIFO is not empty
    let s :=
      if s.fifoEntries ≠ 0 then (s.mkbpSendEvent host (s.slot s.fifoStart).eventType).1 else s
    let size := b.getDataSize t
    if size ≠ 0 then (s, size, out) else (s, -ecErrorUnknown.toNat, out)

/-- `host_command_mkbp_set_config` with the two settings, if the host marks them as valid. -/
def mkbpSetConfig (fifoMaxDepth : Option UInt8) (enable : Option Bool) (s : State) : State :=
  { s with config :=
      { fifoMaxDepth := (fifoMaxDepth.map fun depth => min depth 16).getD s.config.fifoMaxDepth
        enable := enable.getD s.config.enable } }

/-! ## `mkbp_get_next_event` -/

/-- What `mkbp_get_next_event` meets: the host, and the data of the other sources. -/
structure Env where
  host : Host
  other : EventType → Bytes

/-- How a round of the loop ends. -/
inductive Round where
  | unavailable
  | noSource
  | data (evt : EventType) (dataSize : Int) (out : Bytes)

/-- The next event to service, from `last` on. -/
def findEvent (s : State) : Option Nat :=
  (List.range ecMkbpEventCount).find? fun i => s.eventIsSet (.ofCode (Fin.ofNat 10 (s.last + i)))

/-- One round of the loop. -/
def round (env : Env) (s : State) : State × Round :=
  match s.findEvent with
  | none => (s.setHostInterrupt false, .unavailable)
  | some i =>
      let evt : EventType := .ofCode (Fin.ofNat 10 (i + s.last))
      -- clear the event before its data is retrieved: the source may send it again
      let s := { s with last := evt.code.val + 1 }.clearEvent evt
      match b.source evt with
      | .none => (s, .noSource)
      | .other => (s, .data evt (env.other evt).length (env.other evt))
      | .fifo =>
          let (s, dataSize, out) := s.getNextEvent b env.host evt
          (if dataSize = busy then s.setEvent evt else s, .data evt dataSize out)

/-- The loop, for at most `fuel` rounds. -/
def retryLoop (env : Env) : Nat → State → Option (State × Round)
  | 0, _ => none
  | fuel + 1, s =>
      match s.round b env with
      | (s, .data evt dataSize out) =>
          if dataSize = busy then retryLoop env fuel s else some (s, .data evt dataSize out)
      | (s, r) => some (s, r)

/-- The result of the command, and its data. -/
structure Response where
  result : UInt16
  resp : Bytes

/-- The event in the data of a response. -/
def Response.entry (r : Response) : Entry := (r.resp.headD 0 &&& ecMkbpEventTypeMask, r.resp.tail)

/-- `mkbp_get_next_event`, with a loop of at most `fuel` rounds. -/
def mkbpGetNextEvent (env : Env) (version fuel : Nat) (s : State) : Option (State × Response) :=
  match s.retryLoop b env fuel with
  | none => none
  | some (s, .unavailable) => some (s, ⟨ecResUnavailable, []⟩)
  | some (s, .noSource) => some (s, ⟨ecResError, []⟩)
  | some (s, .data evt dataSize out) =>
      let more := s.events ≠ 0#32
      let s := if more then s else s.setHostInterrupt false
      let type := if more ∧ 2 ≤ version then evt.byte ||| ecMkbpHasMoreEvents else evt.byte
      if dataSize < 0 then some (s, ⟨ecResError, []⟩)
      else
        let r : Response := ⟨ecResSuccess, type :: out.take dataSize.toNat⟩
        some ({ s with
          responses := if b.source evt = .fifo then s.responses ++ [r.entry] else s.responses }, r)

end State

/-- A call. -/
inductive Event where
  | fifoAdd (host : Host) (t : EventType) (buffp : Bytes)
  | getNextEvent (env : State.Env) (version : Nat)
  | clearFifo
  | setConfig (fifoMaxDepth : Option UInt8) (enable : Option Bool)
  /-- another module has an event -/
  | sendEvent (host : Host) (t : EventType)

/-- One call.  A loop of `EC_MKBP_EVENT_COUNT` rounds has to be enough. -/
def step (b : Board) (s : State) : Event → Option State
  | .fifoAdd host t buffp => (s.mkbpFifoAdd b host t buffp).1
  | .getNextEvent env version => (s.mkbpGetNextEvent b env version ecMkbpEventCount).map Prod.fst
  | .clearFifo => s.mkbpClearFifo b
  | .setConfig fifoMaxDepth enable => s.mkbpSetConfig fifoMaxDepth enable
  | .sendEvent host t => (s.mkbpSendEvent host t).1

/-- The source of every type that is added to the FIFO reads the FIFO. -/
def fifoTypes (b : Board) (_ : State) : Event → Bool
  | .fifoAdd _ t _ => b.source t = .fifo
  | _ => true

end Mkbp
end CrosEc
