import CrosEc.Queue.Fifo
import CrosEc.Lib.Interleaving
import CrosEc.Lib.Packed

/-!
# `common/motion_sense.c`: the sensor FIFO

Tasks add samples, timestamps and events to `motion_sense_fifo`, which the host reads.
`motion_sense_fifo_add_unit` holds `g_sensor_mutex` twice, first to make room and to ask whether
the sample is wanted, then to add it; other tasks and the host may come in between.

What the code does not keep is a ledger: the units that were to be queued and those that left the
queue, the calls that returned, and the numbers that `motion_sensors[]` was indexed with.
-/

namespace CrosEc
namespace MotionSense

open Lib Queue

def flagFlush : UInt8 := 1
def flagTimestamp : UInt8 := 2
def flagWakeup : UInt8 := 4
def flagTabletMode : UInt8 := 8
def flagOdr : UInt8 := 16

/-- `struct ec_response_motion_sensor_data`, with the union as three words -/
structure SensorData where
  flags : UInt8
  sensorNum : UInt8
  data : Fin 3 → BitVec 16

def SensorData.toBytes (d : SensorData) : Bytes :=
  d.flags :: d.sensorNum ::
    (encodeLE 2 (d.data 0).toNat ++ encodeLE 2 (d.data 1).toNat ++ encodeLE 2 (d.data 2).toNat)

/-- `vector.sensor_num` of a unit of the queue -/
def sensorNumOf (vector : Bytes) : Nat := (vector.getD 1 0).toNat

/-- The number of sensors, the queue, and `CONFIG_TABLET_MODE`. -/
structure Board where
  motionSensorCount : Nat
  fifo : Queue 32
  /-- `sizeof(struct ec_response_motion_sensor_data)` -/
  unitBytes : fifo.unitBytes = 8
  tabletMode : Bool

/-- `struct motion_sensor_t`, as far as the FIFO needs it -/
structure Sensor where
  xyz : Fin 3 → Int
  oversampling : UInt16
  oversamplingRatio : UInt16
  lost : UInt16

/-- The arguments of `motion_sense_fifo_add_unit`: values are those of a sensor. -/
structure AddUnit (b : Board) where
  data : SensorData
  sensor : Option (Fin b.motionSensorCount)
  validData : Nat
  valid : validData = 0 ∨ (sensor.isSome ∧ validData ≤ 3)

/-- The sensor whose values are valid. -/
def AddUnit.sampled {b : Board} (c : AddUnit b) : Option (Fin b.motionSensorCount) :=
  if 0 < c.validData then c.sensor else none

/-- A task that adds units, and the calls that it makes after this one. -/
inductive Task (b : Board) where
  | idle
  /-- in front of the first section -/
  | entry (call : AddUnit b) (rest : List (AddUnit b))
  /-- in front of the second section, with the number of the unit that was discarded -/
  | adding (data : SensorData) (evicted : Option Nat) (rest : List (AddUnit b))

/-- The next call. -/
def Task.next {b : Board} : List (AddUnit b) → Task b
  | [] => .idle
  | c :: cs => .entry c cs

/-! ## The ledger -/

/-- How a unit left the queue. -/
inductive Fate where
  | read
  | lost
  deriving DecidableEq

/-- A call of `motion_sense_fifo_add_unit` that returned: the unit that it discarded, by its number
among those that left the queue; whether its own unit was to be queued, and was. -/
structure Outcome where
  evicted : Option Nat
  wanted : Bool
  added : Bool
  deriving DecidableEq

structure Ledger where
  /-- the units that were to be queued, in order -/
  toQueue : List Bytes
  /-- the units that left the queue, in order -/
  gone : List (Bytes × Fate)
  /-- what the host was told of `motion_sense_fifo_lost` before it was cleared -/
  cleared : BitVec 32
  calls : List Outcome
  /-- the numbers that `motion_sensors[]` was indexed with for a lost unit -/
  indexed : List Nat
  /-- an access outside of the queue's buffer or the caller's memory -/
  fault : Bool

structure State (b : Board) where
  fifo : QueueState 32
  /-- `motion_sense_fifo_lost` -/
  fifoLost : BitVec 32
  wakeUpNeeded : Bool
  motionSensors : Fin b.motionSensorCount → Sensor
  tasks : Nat → Task b
  ledger : Ledger

def State.init (b : Board) (sensors : Fin b.motionSensorCount → Sensor) : State b where
  fifo := queueInit 32 (List.replicate (units b.fifo * bytes b.fifo) 0)
  fifoLost := 0
  wakeUpNeeded := false
  motionSensors := sensors
  tasks := fun _ => .idle
  ledger := ⟨[], [], 0, [], [], false⟩

/-! ## `motion_sense_fifo_add_unit` -/

/-- The values of a sample. -/
def Sensor.setXyz (s : Sensor) (validData : Nat) (data : SensorData) : Sensor :=
  { s with xyz := fun i => if i.val < validData then (data.data i).toInt else s.xyz i }

/-- Whether the AP really needs this data. -/
def Sensor.wanted (s : Sensor) : Bool := s.oversamplingRatio ≠ 0 && s.oversampling = 0

/-- The count of the samples. -/
def Sensor.oversample (s : Sensor) : Sensor :=
  if s.oversamplingRatio = 0 then s
  else { s with oversampling := (s.oversampling + 1) % s.oversamplingRatio }

section Steps

variable {b : Board}

/-- The count of a sensor's lost units; there is no sensor outside of the array. -/
def addLost (sensors : Fin b.motionSensorCount → Sensor) (num : Nat) :
    Fin b.motionSensorCount → Sensor :=
  fun i => if i.val = num then { sensors i with lost := (sensors i).lost + 1 } else sensors i

/-- The first unit is discarded if the queue is full: its number in the ledger. -/
def State.makeRoom (s : State b) : Option Nat × State b :=
  if queueSpace b.fifo s.fifo = 0 then
    match queueRemoveUnit b.fifo (List.replicate 8 0) s.fifo with
    | none => (none, { s with ledger := { s.ledger with fault := true } })
    | some (vector, _, fifo) =>
        (some s.ledger.gone.length, { s with
          fifo := fifo
          fifoLost := s.fifoLost + 1
          motionSensors := addLost s.motionSensors (sensorNumOf vector)
          ledger := { s.ledger with
            gone := s.ledger.gone ++ [(vector, .lost)]
            indexed := s.ledger.indexed ++ [sensorNumOf vector] } })
  else (none, s)

/-- The answer of the oversampling, for the sensor whose values are valid. -/
def State.wants (s : State b) (c : AddUnit b) : Bool :=
  match c.sampled with
  | none => true
  | some i => (s.motionSensors i).wanted

/-- The values of a sample are copied, and the sample is counted. -/
def State.takeSample (s : State b) (c : AddUnit b) : State b :=
  match c.sampled with
  | none => s
  | some i =>
      let sensor := ((s.motionSensors i).setXyz c.validData c.data).oversample
      { s with motionSensors := Function.update s.motionSensors i sensor }

/-- The first section of `motion_sense_fifo_add_unit`. -/
def State.firstSection (t : Nat) (c : AddUnit b) (rest : List (AddUnit b)) (s : State b) :
    State b :=
  let (evicted, s) := s.makeRoom
  let wanted := s.wants c
  let s := s.takeSample c
  if wanted then { s with tasks := Function.update s.tasks t (.adding c.data evicted rest) }
  else { s with
    tasks := Function.update s.tasks t (.next rest)
    ledger := { s.ledger with calls := s.ledger.calls ++ [⟨evicted, false, false⟩] } }

/-- The flags that are set in between. -/
def SensorData.addFlags (data : SensorData) (b : Board) (tabletMode : Bool) : SensorData :=
  if b.tabletMode && tabletMode then { data with flags := data.flags ||| flagTabletMode } else data

/-- The second section of `motion_sense_fifo_add_unit`, and what is in front of it. -/
def State.secondSection (t : Nat) (data : SensorData) (evicted : Option Nat)
    (rest : List (AddUnit b)) (tabletMode : Bool) (s : State b) : State b :=
  let wakeUp := data.flags &&& flagWakeup ≠ 0
  let data := data.addFlags b tabletMode
  match queueAddUnit b.fifo data.toBytes s.fifo with
  | none => { s with ledger := { s.ledger with fault := true } }
  | some (ret, fifo) => { s with
      fifo := fifo
      wakeUpNeeded := s.wakeUpNeeded || wakeUp
      tasks := Function.update s.tasks t (.next rest)
      ledger := { s.ledger with
        toQueue := s.ledger.toQueue ++ [data.toBytes]
        calls := s.ledger.calls ++ [⟨evicted, true, ret ≠ 0⟩] } }

end Steps

/-! ## The callers -/

/-- `enum motion_sense_async_event` -/
inductive AsyncEvent where
  | flush
  | odr

def AsyncEvent.flags : AsyncEvent → UInt8
  | .flush => flagFlush ||| flagTimestamp
  | .odr => flagOdr ||| flagTimestamp

/-- A unit with a timestamp; `reserved` is what the stack had there. -/
def timestampVector (flags sensorNum : UInt8) (timestamp : BitVec 32) (reserved : BitVec 16) :
    SensorData :=
  ⟨flags, sensorNum, ![reserved, timestamp.extractLsb' 0 16, timestamp.extractLsb' 16 16]⟩

/-- A unit of `check_and_queue_gestures`; `addInfo` is what the stack had there. -/
def activityVector (b : Board) (flags activity state : UInt8) (addInfo : Fin 2 → BitVec 16) :
    SensorData :=
  ⟨flags, UInt8.ofNat b.motionSensorCount,
    ![BitVec.ofNat 16 (activity.toNat + 256 * state.toNat), addInfo 0, addInfo 1]⟩

/-- `motion_sense_insert_timestamp` -/
def insertTimestamp (b : Board) (timestamp : BitVec 32) (reserved : BitVec 16) : AddUnit b where
  data := timestampVector flagTimestamp 0 timestamp reserved
  sensor := none
  validData := 0
  valid := .inl rfl

/-- `motion_sense_insert_async_event` -/
def insertAsyncEvent {b : Board} (sensor : Fin b.motionSensorCount) (evt : AsyncEvent)
    (timestamp : BitVec 32) (reserved : BitVec 16) : AddUnit b where
  data := timestampVector evt.flags (UInt8.ofNat sensor) timestamp reserved
  sensor := some sensor
  validData := 0
  valid := .inl rfl

/-- An activity, for `motion_sense_fifo_add_data` -/
def activity (b : Board) (flags activity state : UInt8) (addInfo : Fin 2 → BitVec 16) :
    AddUnit b where
  data := activityVector b flags activity state addInfo
  sensor := none
  validData := 0
  valid := .inl rfl

/-! ## The readers -/

section Readers

variable {b : Board}

/-- `MOTIONSENSE_CMD_FIFO_READ`; `data` is the room for units in the response. -/
def State.fifoRead (maxDataVector : BitVec 32) (data : Bytes) (s : State b) : State b :=
  let reported := cMin (BitVec.ofNat 32 data.length / b.fifo.unitBytes)
    (cMin (queueCount s.fifo) maxDataVector)
  match queueRemoveUnits b.fifo data reported s.fifo with
  | none => { s with ledger := { s.ledger with fault := true } }
  | some (data, reported, fifo) => { s with
      fifo := fifo
      ledger := { s.ledger with
        gone := s.ledger.gone ++
          (toUnits (bytes b.fifo) reported.toNat data).map fun u => (u, .read) } }

/-- `MOTIONSENSE_CMD_FIFO_INFO`: the counts of lost units are cleared. -/
def State.fifoInfo (s : State b) : State b :=
  { s with
    fifoLost := 0
    motionSensors := fun i => { s.motionSensors i with lost := 0 }
    ledger := { s.ledger with cleared := s.ledger.cleared + s.fifoLost } }

/-- `motion_sense_set_data_rate`, with the ratio that it computes -/
def State.setDataRate (i : Fin b.motionSensorCount) (ratio : UInt16) (s : State b) : State b :=
  let sensor := { s.motionSensors i with oversamplingRatio := ratio, oversampling := 0 }
  { s with motionSensors := Function.update s.motionSensors i sensor }

end Readers

/-! ## Runs -/

inductive Event (b : Board) where
  /-- `motion_sense_fifo_add_data` is called: a timestamp first -/
  | addData (t : Nat) (call : AddUnit b) (time : BitVec 32) (reserved : BitVec 16)
  | asyncEvent (t : Nat) (sensor : Fin b.motionSensorCount) (evt : AsyncEvent) (time : BitVec 32)
      (reserved : BitVec 16)
  | timestamp (t : Nat) (time : BitVec 32) (reserved : BitVec 16)
  /-- a task goes through its next section -/
  | task (t : Nat) (tabletMode : Bool)
  | fifoRead (maxDataVector : BitVec 32) (data : Bytes)
  | fifoInfo
  | setDataRate (i : Fin b.motionSensorCount) (ratio : UInt16)

variable {b : Board}

/-- A task that has nothing to do makes these calls. -/
def State.call (t : Nat) (calls : List (AddUnit b)) (s : State b) : Option (State b) :=
  match s.tasks t with
  | .idle => some { s with tasks := Function.update s.tasks t (.next calls) }
  | .entry _ _ | .adding _ _ _ => none

def step (s : State b) : Event b → Option (State b)
  | .addData t call time reserved => s.call t [insertTimestamp b time reserved, call]
  | .asyncEvent t sensor evt time reserved => s.call t [insertAsyncEvent sensor evt time reserved]
  | .timestamp t time reserved => s.call t [insertTimestamp b time reserved]
  | .task t tabletMode =>
      match s.tasks t with
      | .idle => none
      | .entry call rest => some (s.firstSection t call rest)
      | .adding data evicted rest => some (s.secondSection t data evicted rest tabletMode)
  | .fifoRead maxDataVector data => some (s.fifoRead maxDataVector data)
  | .fifoInfo => some s.fifoInfo
  | .setDataRate i ratio => some (s.setDataRate i ratio)

end MotionSense
end CrosEc
