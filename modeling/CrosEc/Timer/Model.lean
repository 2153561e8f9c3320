import CrosEc.Common
import CrosEc.Lib.Interleaving

/-!
# `common/timer.c`: the timers of the tasks

Every task has one timer.  `timer_running` says which timers run and `timer_deadline` when
they are due.  The hardware compares the low word of the clock with one event, whose value
`next_deadline` repeats; `clksrc_high` counts the overflows of the low word.

Tasks arm and cancel timers in single memory accesses.  The timer interrupt runs
`process_timers` between any two of them, and no task runs meanwhile.  The bits of
`timer_running` are a function here.  `time` is the true time: the interrupt for an overflow
is pending from the moment the low word has wrapped until `clksrc_high` has caught up.
-/

namespace CrosEc
namespace Timer

/-- `timestamp_t` of `include/timer.h` -/
structure Timestamp where
  hi : UInt32
  lo : UInt32
  deriving DecidableEq

/-- The 64-bit value of a time stamp. -/
def Timestamp.val (ts : Timestamp) : Nat := ts.hi.toNat * 2 ^ 32 + ts.lo.toNat

/-- Where a call of `timer_arm` is: the memory access it does next. -/
inductive ArmPc where
  /-- `if (timer_running & (1<<tskid))` -/
  | testRunning
  /-- `timer_deadline[tskid] = tstamp`, a word at a time -/
  | storeLow
  | storeHigh
  /-- `atomic_or(&timer_running, 1<<tskid)` -/
  | setRunning
  /-- `tstamp.le.hi < clksrc_high` -/
  | testPast
  /-- `tstamp.le.hi == clksrc_high`; the variable is volatile and read again -/
  | testHigh
  /-- `tstamp.le.lo <= next_deadline` -/
  | testLow
  /-- `task_trigger_irq(timer_irq)` -/
  | triggerIrq
  deriving DecidableEq

/-- What a task is doing: anything but arming, with the code its last `timer_arm`
returned, or a call of `timer_arm`. -/
inductive Activity (n : Nat) where
  | outside (last : Option Code)
  | arming (pc : ArmPc) (tskid : Fin n) (tstamp : Timestamp)

/-- A call of `expire_timer`: the timer, its deadline, and the time of the call. -/
structure Expiry (n : Nat) where
  tskid : Fin n
  deadline : Timestamp
  time : Nat

/-- The module's variables, the hardware timer, and where every task is. -/
structure State (n : Nat) where
  timerRunning : Fin n → Bool
  timerDeadline : Fin n → Timestamp
  nextDeadline : UInt32
  clksrcHigh : UInt32
  /-- The value that `__hw_clock_event_set` has left in the hardware. -/
  hwEvent : Option UInt32
  irqPending : Bool
  time : Nat
  expiries : List (Expiry n)
  tasks : Fin n → Activity n

variable {n : Nat}

/-- `timer_init`, with the time that a jump has preserved or zero. -/
def timerInit (n : Nat) (ts : Timestamp) : State n where
  timerRunning := fun _ => false
  timerDeadline := fun _ => ⟨0, 0⟩
  nextDeadline := 0xffffffff
  clksrcHigh := ts.hi
  hwEvent := none
  irqPending := false
  time := ts.val
  expiries := []
  tasks := fun _ => .outside none

namespace State

/-! ## The clock -/

/-- `__hw_clock_source_read` -/
def hwClockSourceRead (s : State n) : UInt32 := UInt32.ofNat s.time

/-- `get_time`.  Inside the interrupt nobody else writes `clksrc_high`, and the second read
of it finds no difference. -/
def getTime (s : State n) : Timestamp := ⟨s.clksrcHigh, s.hwClockSourceRead⟩

/-- The low word has overflowed and `process_timers(1)` has not been called for it. -/
def overflowPending (s : State n) : Bool := s.clksrcHigh.toNat < s.time / 2 ^ 32

/-- The clock advances.  It has 64 bits, and the interrupt for one overflow is served before
the next one. -/
def tick (dt : Nat) (s : State n) : Option (State n) :=
  if (s.time + dt) / 2 ^ 32 ≤ s.clksrcHigh.toNat + 1 ∧ s.time + dt < 2 ^ 64 then
    some { s with time := s.time + dt }
  else
    none

/-! ## `process_timers` -/

/-- `expire_timer`; the event that it sends to the task is recorded. -/
def expireTimer (tskid : Fin n) (s : State n) : State n :=
  { s with
    timerRunning := Function.update s.timerRunning tskid false
    expiries := ⟨tskid, s.timerDeadline tskid, s.time⟩ :: s.expiries }

/-- One timer of the scan, with `next`, the earliest deadline so far. -/
def scanTimer (now : Timestamp) (acc : State n × Timestamp) (tskid : Fin n) :
    State n × Timestamp :=
  let (s, next) := acc
  let deadline := s.timerDeadline tskid
  if deadline.val ≤ now.val then
    (s.expireTimer tskid, next)
  else if deadline.hi = now.hi ∧ deadline.lo < next.lo then
    (s, deadline)
  else
    (s, next)

/-- The timers that run, in the order in which `__fls` takes them. -/
def runningTimers (s : State n) : List (Fin n) :=
  (List.finRange n).reverse.filter s.timerRunning

/-- The scan over the running timers, with `next.val = -1ull` at first.  It can only stop
timers (`scanTimers_running`), so the test for a new timer at its end finds none and the
scan is not repeated. -/
def scanTimers (now : Timestamp) (s : State n) : State n × Timestamp :=
  s.runningTimers.foldl (scanTimer now) (s, ⟨0xffffffff, 0xffffffff⟩)

/-- `__hw_clock_event_clear(); next_deadline = 0xffffffff` -/
def clearEvent (s : State n) : State n :=
  { s with hwEvent := none, nextDeadline := 0xffffffff }

/-- `__hw_clock_event_set(lo); next_deadline = lo` -/
def setEvent (lo : UInt32) (s : State n) : State n :=
  { s with hwEvent := some lo, nextDeadline := lo }

/-- The outer loop of `process_timers`.  The list says for every round how far the clock
moves on before the two calls of `get_time`. -/
def processLoop : List (Nat × Nat) → State n → Option (State n)
  | [], _ => none
  | (dt, dt') :: rounds, s => do
    let s ← s.tick dt
    let (s, next) := s.scanTimers s.getTime
    if next.hi = 0xffffffff then
      return s.clearEvent
    let s ← (s.setEvent next.lo).tick dt'
    if next.val ≤ s.getTime.val then
      processLoop rounds s
    else
      return s

/-- `process_timers` -/
def processTimers (overflow : Bool) (rounds : List (Nat × Nat)) (s : State n) :
    Option (State n) :=
  processLoop rounds (if overflow then { s with clksrcHigh := s.clksrcHigh + 1 } else s)

/-- The timer interrupt, for an overflow or because it is pending. -/
def timerInterrupt (overflow : Bool) (rounds : List (Nat × Nat)) (s : State n) :
    Option (State n) :=
  if (if overflow then s.overflowPending else s.irqPending) then
    processTimers overflow rounds { s with irqPending := false }
  else
    none

/-! ## `timer_arm` and `timer_cancel` -/

/-- The task goes on with its call at `pc`. -/
def goto (task : Fin n) (pc : ArmPc) (tskid : Fin n) (tstamp : Timestamp) (s : State n) :
    State n :=
  { s with tasks := Function.update s.tasks task (.arming pc tskid tstamp) }

/-- The task returns from its call. -/
def leave (task : Fin n) (rc : Code) (s : State n) : State n :=
  { s with tasks := Function.update s.tasks task (.outside (some rc)) }

/-- The call of `timer_arm`. -/
def callArm (task tskid : Fin n) (tstamp : Timestamp) (s : State n) : Option (State n) :=
  match s.tasks task with
  | .outside _ => some (s.goto task .testRunning tskid tstamp)
  | .arming .. => none

/-- The store of the deadline's low word. -/
def storeLow (tskid : Fin n) (tstamp : Timestamp) (s : State n) : State n :=
  { s with
    timerDeadline := Function.update s.timerDeadline tskid
      { s.timerDeadline tskid with lo := tstamp.lo } }

/-- The store of the deadline's high word. -/
def storeHigh (tskid : Fin n) (tstamp : Timestamp) (s : State n) : State n :=
  { s with
    timerDeadline := Function.update s.timerDeadline tskid
      { s.timerDeadline tskid with hi := tstamp.hi } }

/-- One memory access of `timer_arm(tstamp, tskid)`, called by `task`. -/
def timerArm (task : Fin n) (pc : ArmPc) (tskid : Fin n) (tstamp : Timestamp) (s : State n) :
    State n :=
  match pc with
  | .testRunning =>
      if s.timerRunning tskid then s.leave task ecErrorBusy
      else s.goto task .storeLow tskid tstamp
  | .storeLow => (s.storeLow tskid tstamp).goto task .storeHigh tskid tstamp
  | .storeHigh => (s.storeHigh tskid tstamp).goto task .setRunning tskid tstamp
  | .setRunning =>
      { s with timerRunning := Function.update s.timerRunning tskid true }.goto task .testPast
        tskid tstamp
  | .testPast =>
      if tstamp.hi < s.clksrcHigh then s.goto task .triggerIrq tskid tstamp
      else s.goto task .testHigh tskid tstamp
  | .testHigh =>
      if tstamp.hi = s.clksrcHigh then s.goto task .testLow tskid tstamp
      else s.leave task ecSuccess
  | .testLow =>
      if tstamp.lo ≤ s.nextDeadline then s.goto task .triggerIrq tskid tstamp
      else s.leave task ecSuccess
  | .triggerIrq => { s with irqPending := true }.leave task ecSuccess

/-- `timer_cancel` -/
def timerCancel (tskid : Fin n) (s : State n) : State n :=
  { s with timerRunning := Function.update s.timerRunning tskid false }

end State

/-! ## Interleavings -/

/-- What can happen next.  The interrupt line may be raised by the hardware at any time:
when the clock reaches the event, or by `force_time`. -/
inductive Event (n : Nat) where
  | call (task tskid : Fin n) (tstamp : Timestamp)
  | access (task : Fin n)
  | cancel (tskid : Fin n)
  | tick (dt : Nat)
  | raise
  | interrupt (overflow : Bool) (rounds : List (Nat × Nat))

/-- One step of the system. -/
def step (s : State n) : Event n → Option (State n)
  | .call task tskid tstamp => s.callArm task tskid tstamp
  | .access task =>
      match s.tasks task with
      | .outside _ => none
      | .arming pc tskid tstamp => some (s.timerArm task pc tskid tstamp)
  | .cancel tskid => some (s.timerCancel tskid)
  | .tick dt => s.tick dt
  | .raise => some { s with irqPending := true }
  | .interrupt overflow rounds => s.timerInterrupt overflow rounds

end Timer
end CrosEc
