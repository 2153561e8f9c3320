import CrosEc.Common

/-!
# `common/lightbar.c`: the task and its bytecode programs

`lightbar_task` shows one sequence after the other.  The sequence `PROGRAM` is an interpreter for
programs that the host sends with `LIGHTBAR_CMD_SET_PROGRAM`.

The interpreter is a machine with a mode: between two instructions, in the middle of one that
shows colours step by step, or in one of the places where it waits.  Messages, and the other
commands of the host, can come between any two steps; a wait ends with a message if there is one,
and else with its time.  The machine keeps a log of its accesses, which is not in the source.
-/

namespace CrosEc
namespace Lightbar

/-- `NUM_LEDS` -/
def numLeds : Nat := 4
/-- `EC_LB_PROG_LEN` -/
def ecLbProgLen : Nat := 192
/-- `LB_CONT_MAX` -/
def lbContMax : Nat := 3
/-- `LB_COL_ALL`, the number of colours. -/
def lbColAll : Nat := 3
/-- `EC_RES_INVALID_PARAM` -/
def ecResInvalidParam : Nat := 3
/-- `PROGRAM_FINISHED` -/
def programFinished : Nat := 2

/-! ## Sequences -/

/-- `enum lightbar_sequence` -/
inductive Sequence where
  | error
  | s5
  | s3
  | s0
  | s5s3
  | s3s0
  | s0s3
  | s3s5
  | stop
  | run
  | konami
  | tap
  | program
  deriving DecidableEq

namespace Sequence

/-- The value of the enumeration. -/
def code : Sequence → Nat
  | error => 0
  | s5 => 1
  | s3 => 2
  | s0 => 3
  | s5s3 => 4
  | s3s0 => 5
  | s0s3 => 6
  | s3s5 => 7
  | stop => 8
  | run => 9
  | konami => 10
  | tap => 11
  | program => 12

/-- The sequences, in the order of `LIGHTBAR_MSG_LIST`. -/
def all : List Sequence :=
  [error, s5, s3, s0, s5s3, s3s0, s0s3, s3s5, stop, run, konami, tap, program]

/-- The sequence with a value. -/
def ofCode (code : Nat) : Sequence := all.getD code error

/-- `is_normal_sequence` -/
def isNormal (seq : Sequence) : Bool := s5.code ≤ seq.code ∧ seq.code ≤ s3s5.code

end Sequence

/-- A message for the task: `lightbar_sequence` ignores the value zero. -/
abbrev Message := { seq : Sequence // seq ≠ .error }

/-- `st.cur_seq` and `st.prev_seq` -/
structure Task where
  curSeq : Sequence
  prevSeq : Sequence
  deriving DecidableEq

/-- The state that `lightbar_restore_state` starts with. -/
def Task.init : Task := ⟨.s5, .s5⟩

/-- The loop of `lightbar_task`, after its sequence has returned `nextSeq`. -/
def Task.next (st : Task) (nextSeq : Nat) : Task :=
  if nextSeq ≠ 0 then
    if st.curSeq.code ≠ nextSeq then
      { prevSeq := if st.curSeq.isNormal then st.curSeq else st.prevSeq
        curSeq := .ofCode nextSeq }
    else st
  else
    match st.curSeq with
    | .s5s3 => { st with curSeq := .s3 }
    | .s3s0 => { st with curSeq := .s0 }
    | .s0s3 => { st with curSeq := .s3 }
    | .s3s5 => { st with curSeq := .s5 }
    | .stop | .run | .error | .konami | .tap | .program => { st with curSeq := st.prevSeq }
    | .s5 | .s3 | .s0 => st

/-! ## Colours -/

/-- `_ramp_table`, in units of `1 / FP_SCALE`. -/
def rampTable : List Nat :=
  [0, 24, 96, 215, 380, 590, 842, 1134, 1464, 1828, 2222, 2643, 3086, 3548, 4024, 4509, 5000,
    5490, 5975, 6451, 6913, 7356, 7777, 8171, 8535, 8865, 9157, 9409, 9619, 9784, 9903, 9975,
    10000]

/-- `cycle_010` -/
def cycle010 (i : BitVec 8) : Nat :=
  if i = 128#8 then 10000
  else
    let i := if 128 < i.toNat then 256 - i.toNat else i.toNat
    let bucket := i / 4
    let index := i % 4
    rampTable.getD bucket 0 + (rampTable.getD (bucket + 1) 0 - rampTable.getD bucket 0) * index / 4

/-! ## The machine -/

/-- `struct lightbar_program`.  The bytes go on behind `data` with what is there in memory. -/
structure Program where
  size : BitVec 8
  data : Nat → BitVec 8

/-- The controller as `lb_common.c` sees it: the overall brightness, the colours of the LEDs, and
whether they are lit. -/
structure Leds where
  brightness : BitVec 8
  current : Nat → Nat → BitVec 8
  lit : Bool

/-- An access of the interpreter: a byte of the program, a colour of `led_desc`, or a call of
`lb_set_rgb`. -/
inductive Access where
  | fetch (i : Nat)
  | desc (led control color : Nat)
  | rgb (led : Nat) (r g b : Int)
  deriving DecidableEq

/-- The places of the interpreter.  It returns with a value, and perhaps with the message that has
interrupted it. -/
inductive Mode where
  | fetch
  | ramp (stopAt w : Nat)
  | rampWait (stopAt w : Nat)
  | cycle (w : Nat)
  | cycleWait (w : Nat)
  | wait
  | yield
  | returned (rc : Nat) (interruptedBy : Option Message)
  deriving DecidableEq

/-- The state of `sequence_PROGRAM`.  `led_desc` is its memory, one byte after the other. -/
structure Machine where
  curProg : Program
  pc : BitVec 8
  ledDesc : Nat → BitVec 8
  lbWaitDelay : BitVec 32
  lbRampDelay : BitVec 32
  savedBrightness : BitVec 8
  leds : Leds
  batteryLevel : Nat
  batteryIsCharging : Bool
  pendingMsg : Option Message
  mode : Mode
  log : List Access

namespace Machine

def note (m : Machine) (access : Access) : Machine := { m with log := access :: m.log }

/-- `lb_set_brightness` -/
def lbSetBrightness (m : Machine) (newval : BitVec 8) : Machine :=
  { m with leds := { m.leds with brightness := newval } }

/-- `lb_set_rgb` for one LED. -/
def lbSetRgb (m : Machine) (led : Nat) (r g b : Int) : Machine :=
  let rgb := fun color => if color = 0 then BitVec.ofInt 8 r else if color = 1 then BitVec.ofInt 8 g
    else BitVec.ofInt 8 b
  { m with leds := { m.leds with current := Function.update m.leds.current led rgb } }.note
    (.rgb led r g b)

/-- The place of `led_desc[led][control][color]`. -/
def descIndex (led control color : Nat) : Nat := led * 9 + control * 3 + color

/-- `led_desc[led][control][color]` -/
def desc (m : Machine) (led control color : Nat) : BitVec 8 :=
  m.ledDesc (descIndex led control color)

/-- `led_desc[led][control][color] = value` -/
def setDesc (m : Machine) (led control color : Nat) (value : BitVec 8) : Machine :=
  { m with ledDesc := Function.update m.ledDesc (descIndex led control color) value }.note
    (.desc led control color)

/-- A loop over the LEDs, from `i` on. -/
def forLedsFrom (body : Nat → Machine → Machine) : Nat → Nat → Machine → Machine
  | 0, _, m => m
  | n + 1, i, m => forLedsFrom body n (i + 1) (body i m)

/-- A loop over the LEDs. -/
def forLeds (body : Nat → Machine → Machine) (m : Machine) : Machine :=
  forLedsFrom body numLeds 0 m

/-! ## Decoding -/

/-- The machine after it has fetched a byte. -/
def fetched (m : Machine) : Machine := { m with pc := m.pc + 1 }.note (.fetch m.pc.toNat)

/-- `decode_8` -/
def decode8 (m : Machine) : Option (BitVec 8) × Machine :=
  if m.curProg.size ≤ m.pc then (none, m) else (some (m.curProg.data m.pc.toNat), m.fetched)

/-- `decode_8`, `n` times. -/
def decodeBytes : Nat → Machine → Option (List (BitVec 8)) × Machine
  | 0, m => (some [], m)
  | n + 1, m =>
      match m.decode8 with
      | (none, m) => (none, m)
      | (some byte, m) =>
          match decodeBytes n m with
          | (none, m) => (none, m)
          | (some bytes, m) => (some (byte :: bytes), m)

/-- `decode_32` -/
def decode32 (m : Machine) : Option (BitVec 32) × Machine :=
  if (m.curProg.size.toNat : Int) - 3 ≤ m.pc.toNat then (none, m)
  else
    match decodeBytes 4 m with
    | (some [a, b, c, d], m) => (some (a ++ b ++ c ++ d), m)
    | (_, m) => (none, m)

/-! ## Instructions -/

/-- What an instruction comes to: it is done, it returns a value that is not zero, or it goes on
in a mode of its own. -/
inductive Exec where
  | success (m : Machine)
  | code (rc : Nat) (m : Machine)
  | enters (mode : Mode) (m : Machine)

/-- What `get_battery_level` finds, and the brightness that it sets from the keyboard backlight. -/
structure Battery where
  level : Nat
  isCharging : Bool
  brightness : Option (BitVec 8)

/-- `get_battery_level`, which does nothing in the demo mode. -/
def getBatteryLevel (m : Machine) (battery : Option Battery) : Machine :=
  match battery with
  | none => m
  | some battery =>
      let m := { m with batteryLevel := battery.level, batteryIsCharging := battery.isCharging }
      match battery.brightness with
      | none => m
      | some brightness => m.lbSetBrightness brightness

def lightbyteOn (m : Machine) : Exec := .success { m with leds := { m.leds with lit := true } }

def lightbyteOff (m : Machine) : Exec := .success { m with leds := { m.leds with lit := false } }

/-- The operand is stored into `pc` itself. -/
def lightbyteJump (m : Machine) : Exec :=
  match m.decode8 with
  | (some target, m) => .success { m with pc := target }
  | (none, m) => .code ecResInvalidParam m

def lightbyteJumpBattery (m : Machine) (battery : Option Battery) : Exec :=
  match decodeBytes 2 m with
  | (some [lowPc, highPc], m) =>
      let m := m.getBatteryLevel battery
      .success (if m.batteryLevel = 0 then { m with pc := lowPc }
        else if m.batteryLevel = 3 then { m with pc := highPc }
        else m)
  | (_, m) => .code ecResInvalidParam m

def lightbyteJumpIfCharging (m : Machine) : Exec :=
  match m.decode8 with
  | (some chargePc, m) => .success (if m.batteryIsCharging then { m with pc := chargePc } else m)
  | (none, m) => .code ecResInvalidParam m

def lightbyteSetWaitDelay (m : Machine) : Exec :=
  match m.decode32 with
  | (some delay, m) => .success { m with lbWaitDelay := delay }
  | (none, m) => .code ecResInvalidParam m

def lightbyteSetRampDelay (m : Machine) : Exec :=
  match m.decode32 with
  | (some delay, m) => .success { m with lbRampDelay := delay }
  | (none, m) => .code ecResInvalidParam m

def lightbyteWait (m : Machine) : Exec := if m.lbWaitDelay ≠ 0 then .enters .wait m else .success m

def lightbyteSetBrightness (m : Machine) : Exec :=
  match m.decode8 with
  | (some val, m) => .success (m.lbSetBrightness val)
  | (none, m) => .code ecResInvalidParam m

/-- The fields of the packed location. -/
def packedLed (packedLoc : BitVec 8) : BitVec 8 := packedLoc >>> 4
def packedControl (packedLoc : BitVec 8) : Nat := ((packedLoc >>> 2) &&& 3#8).toNat
def packedColor (packedLoc : BitVec 8) : Nat := (packedLoc &&& 3#8).toNat

def lightbyteSetColorSingle (m : Machine) : Exec :=
  match decodeBytes 2 m with
  | (some [packedLoc, value], m) =>
      if lbContMax ≤ packedControl packedLoc then .code ecResInvalidParam m
      else
        .success (m.forLeds fun i m =>
          if (packedLed packedLoc).getLsbD i then
            m.setDesc i (packedControl packedLoc) (packedColor packedLoc) value
          else m)
  | (_, m) => .code ecResInvalidParam m

def lightbyteSetColorRgb (m : Machine) : Exec :=
  match decodeBytes 4 m with
  | (some [packedLoc, r, g, b], m) =>
      if lbContMax ≤ packedControl packedLoc then .code ecResInvalidParam m
      else
        .success (m.forLeds fun i m =>
          if (packedLed packedLoc).getLsbD i then
            let m := m.setDesc i (packedControl packedLoc) 0 r
            let m := m.setDesc i (packedControl packedLoc) 1 g
            m.setDesc i (packedControl packedLoc) 2 b
          else m)
  | (_, m) => .code ecResInvalidParam m

def lightbyteGetColors (m : Machine) : Exec :=
  .success (m.forLeds fun i m =>
    let m := m.setDesc i 0 0 (m.leds.current i 0)
    let m := m.setDesc i 0 1 (m.leds.current i 1)
    m.setDesc i 0 2 (m.leds.current i 2))

/-- The swap of one colour. -/
def swapColor (m : Machine) (i j : Nat) : Machine :=
  let tmp := m.desc i 0 j
  let m := m.setDesc i 0 j (m.desc i 1 j)
  m.setDesc i 1 j tmp

def lightbyteSwapColors (m : Machine) : Exec :=
  .success (m.forLeds fun i m => ((m.swapColor i 0).swapColor i 1).swapColor i 2)

/-- `get_interp_value` -/
def getInterpValue (m : Machine) (led color interp : Nat) : Int :=
  let base : Int := (m.desc led 0 color).toNat
  let delta : Int := (m.desc led 1 color).toNat - base
  base + (delta * interp).tdiv 10000

/-- The colours that `get_interp_value` reads. -/
def noteInterp (m : Machine) (led color : Nat) : Machine :=
  (m.note (.desc led 0 color)).note (.desc led 1 color)

/-- `set_all_leds` -/
def setAllLeds (m : Machine) (control : Nat) : Machine :=
  m.forLeds fun i m =>
    let m := ((m.note (.desc i control 0)).note (.desc i control 1)).note (.desc i control 2)
    m.lbSetRgb i (m.desc i control 0).toNat (m.desc i control 1).toNat (m.desc i control 2).toNat

/-- One step of `ramp_all_leds`, before it waits. -/
def rampLeds (m : Machine) (w : Nat) : Machine :=
  let f := cycle010 (BitVec.ofNat 8 w)
  m.forLeds fun i m =>
    let m := ((m.noteInterp i 0).noteInterp i 1).noteInterp i 2
    m.lbSetRgb i (m.getInterpValue i 0 f) (m.getInterpValue i 1 f) (m.getInterpValue i 2 f)

/-- `cycle_010` of `w`, shifted by the phase of a colour. -/
def phase (m : Machine) (w i color : Nat) : Nat :=
  cycle010 (BitVec.ofNat 8 w + m.desc i 2 color)

/-- One step of `CYCLE`, before it waits. -/
def cycleLeds (m : Machine) (w : Nat) : Machine :=
  m.forLeds fun i m =>
    let m := ((m.note (.desc i 2 0)).note (.desc i 2 1)).note (.desc i 2 2)
    let m := ((m.noteInterp i 0).noteInterp i 1).noteInterp i 2
    m.lbSetRgb i (m.getInterpValue i 0 (m.phase w i 0)) (m.getInterpValue i 1 (m.phase w i 1))
      (m.getInterpValue i 2 (m.phase w i 2))

def lightbyteRampOnce (m : Machine) : Exec :=
  if m.lbRampDelay = 0 then .success (m.setAllLeds 1) else .enters (.ramp 128 0) m

def lightbyteCycleOnce (m : Machine) : Exec :=
  if m.lbRampDelay = 0 then .success (m.setAllLeds 0) else .enters (.ramp 256 0) m

def lightbyteCycle (m : Machine) : Exec :=
  if m.lbRampDelay = 0 then .code ecResInvalidParam m else .enters (.cycle 0) m

def lightbyteHalt (m : Machine) : Exec := .code programFinished m

/-- `MAX_OPCODE` -/
def maxOpcode : Nat := 17

/-- `lightbyte_dispatch` -/
def dispatch (m : Machine) (opcode : Nat) (battery : Option Battery) : Exec :=
  match opcode with
  | 0 => m.lightbyteOn
  | 1 => m.lightbyteOff
  | 2 => m.lightbyteJump
  | 3 => m.lightbyteJumpBattery battery
  | 4 => m.lightbyteJumpIfCharging
  | 5 => m.lightbyteSetWaitDelay
  | 6 => m.lightbyteSetRampDelay
  | 7 => m.lightbyteWait
  | 8 => m.lightbyteSetBrightness
  | 9 => m.lightbyteSetColorSingle
  | 10 => m.lightbyteSetColorRgb
  | 11 => m.lightbyteGetColors
  | 12 => m.lightbyteSwapColors
  | 13 => m.lightbyteRampOnce
  | 14 => m.lightbyteCycleOnce
  | 15 => m.lightbyteCycle
  | _ => m.lightbyteHalt

/-! ## The run -/

/-- The end of `sequence_PROGRAM` with the brightness restored. -/
def restore (m : Machine) (rc : Nat) (interruptedBy : Option Message) : Machine :=
  { m.lbSetBrightness m.savedBrightness with mode := .returned rc interruptedBy }

/-- The decode-execute loop, up to its `WAIT_OR_RET`. -/
def fetch (m : Machine) (battery : Option Battery) : Machine :=
  match m.decode8 with
  | (none, m) => { m with mode := .returned ecResInvalidParam none }
  | (some nextInst, m) =>
      if maxOpcode ≤ nextInst.toNat then m.restore ecResInvalidParam none
      else
        match m.dispatch nextInst.toNat battery with
        | .success m => { m with mode := .yield }
        | .code rc m => m.restore rc none
        | .enters mode m => { m with mode := mode }

/-- `WAIT_OR_RET`: the message that ends the wait and the program, if any. -/
def waitOrRet (m : Machine) : Option Message × Machine :=
  match m.pendingMsg with
  | none => (none, m)
  | some msg =>
      let m := { m with pendingMsg := none }
      if msg.val ≠ .program then (some msg, m) else (none, m)

/-- A wait inside an instruction. -/
def waitInside (m : Machine) (next : Mode) : Machine :=
  match m.waitOrRet with
  | (some msg, m) => m.restore msg.val.code (some msg)
  | (none, m) => { m with mode := next }

/-- The wait between two instructions. -/
def waitBetween (m : Machine) : Machine :=
  match m.waitOrRet with
  | (some msg, m) => { m with mode := .returned msg.val.code (some msg) }
  | (none, m) => { m with mode := .fetch }

/-- What the rest of the system can do in the meantime. -/
inductive HostCmd where
  | seq (num : Nat)
  | setBrightness (num : BitVec 8)
  | setRgb (led : Nat) (r g b : BitVec 8)
  | init
  | lit (on : Bool)
  | demoIsCharging (ischarge : Bool)

/-- `lightbar_sequence` with a number from the host. -/
def lightbarSequence (m : Machine) (num : Nat) : Machine :=
  if h : Sequence.ofCode num ≠ .error then { m with pendingMsg := some ⟨.ofCode num, h⟩ } else m

def hostCmd (m : Machine) : HostCmd → Machine
  | .seq num => m.lightbarSequence num
  | .setBrightness num => m.lbSetBrightness num
  | .setRgb led r g b =>
      let rgb := fun color => if color = 0 then r else if color = 1 then g else b
      let current := fun i => if led < numLeds ∧ i ≠ led then m.leds.current i else rgb
      { m with leds := { m.leds with current := current } }
  | .init => { m with leds := { m.leds with current := fun _ _ => 0 } }
  | .lit on => { m with leds := { m.leds with lit := on } }
  | .demoIsCharging ischarge => { m with batteryIsCharging := ischarge }

/-- A step: of the host, or of the program with the battery as it is now. -/
inductive Event where
  | host (cmd : HostCmd)
  | task (battery : Option Battery)

def step (m : Machine) : Event → Option Machine
  | .host cmd =>
      match m.mode with
      | .returned _ _ => none
      | _ => some (m.hostCmd cmd)
  | .task battery =>
      match m.mode with
      | .fetch => some (m.fetch battery)
      | .ramp stopAt w =>
          if w < stopAt then some { m.rampLeds w with mode := .rampWait stopAt w }
          else some { m with mode := .yield }
      | .rampWait stopAt w => some (m.waitInside (.ramp stopAt (w + 1)))
      | .cycle w => some { m.cycleLeds w with mode := .cycleWait w }
      | .cycleWait w => some (m.waitInside (.cycle (w + 1)))
      | .wait => some (m.waitInside .yield)
      | .yield => some m.waitBetween
      | .returned _ _ => none

end Machine

/-- The start of `sequence_PROGRAM`. -/
def Program.start (nextProg : Program) (leds : Leds) (batteryLevel : Nat)
    (batteryIsCharging : Bool) (pendingMsg : Option Message) : Machine where
  curProg := nextProg
  pc := 0
  ledDesc := fun _ => 0
  lbWaitDelay := 0
  lbRampDelay := 0
  savedBrightness := leds.brightness
  leds := { leds with lit := true, brightness := 255#8 }
  batteryLevel := batteryLevel
  batteryIsCharging := batteryIsCharging
  pendingMsg := pendingMsg
  mode := .fetch
  log := []

end Lightbar
end CrosEc
