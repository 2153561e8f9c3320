import CrosEc.Common
import CrosEc.Lib.Interleaving

/-!
# `core/cortex-m/task.c`: events and the scheduler

Every task has a bitmap of pending events.  A task that waits for an event reads and clears
its bitmap; if it was empty the task asks the scheduler to take away its bit in `tasks_ready`
and to run another task.  Who sets an event of a task sets its bit in `tasks_ready` afterwards.

One task runs, until an interrupt comes or it calls the scheduler.  Interrupts nest, and each
may set events; the one that returns to the task calls the scheduler if it is needed.
`atomic_or`, `atomic_read_clear`, `atomic_clear` and `svc_handler` are single steps.  The
bitmaps over tasks are functions.  Task profiling is off, and the arming of the timer for a
time-out only shows in `TASK_EVENT_TIMER`, which its interrupt may set at any time.
-/

namespace CrosEc
namespace Task

/-- `TASK_EVENT_MUTEX` of `include/task.h` -/
def taskEventMutex : UInt32 := 0x40000000

/-- `TASK_EVENT_TIMER` of `include/task.h` -/
def taskEventTimer : UInt32 := 0x80000000

/-- `TASK_ID_IDLE`, the first task of `TASK_ID_COUNT = n + 1`. -/
def taskIdIdle {n : Nat} : Fin (n + 1) := 0

/-- Who has called `__wait_evt`, with the variables it goes on with. -/
inductive Caller where
  /-- `task_set_event` with `wait`; `scheduled` once `__schedule` has been called. -/
  | setEvent (scheduled : Bool)
  | waitEvent
  /-- `task_wait_event_mask`, with the mask as the caller gave it and `events` so far. -/
  | waitEventMask (requested : UInt32) (timeoutUs : Int32) (deadline : UInt64)
      (events : UInt32)

/-- After `__schedule` has returned to `__wait_evt`. -/
def Caller.afterSchedule : Caller → Caller
  | .setEvent _ => .setEvent true
  | caller => caller

/-- What the last call of a task has returned, after `task_wait_event_mask` with the mask
that was given and the events that were collected. -/
inductive Return where
  | setEvent (ret : UInt32)
  | waitEvent (evt : UInt32)
  | waitEventMask (requested events ret : UInt32)

/-- Where a task is: in code of its own, or before a step of one of the functions. -/
inductive Thread (n : Nat) where
  | user (last : Option Return)
  /-- `atomic_or(&receiver->events, event)` -/
  | setEvent (tskid : Fin (n + 1)) (event : UInt32) (wait : Bool)
  /-- `__schedule(0, tskid)` -/
  | schedule (tskid : Fin (n + 1))
  /-- `evt = atomic_read_clear(&tsk->events)` -/
  | readClear (caller : Caller) (timeoutUs : Int32) (resched : Fin (n + 1))
  /-- `__schedule(1, resched)` -/
  | sleep (caller : Caller) (timeoutUs : Int32) (resched : Fin (n + 1))
  /-- `if (timeout_us > 0) atomic_clear(&tsk->events, TASK_EVENT_TIMER)` -/
  | clearTimer (caller : Caller) (timeoutUs : Int32) (evt : UInt32)
  /-- `atomic_or(&current_task->events, events & ~event_mask)` -/
  | repost (requested events : UInt32)

/-- Where an interrupt is. -/
inductive Irq (n : Nat) where
  | handler
  /-- `atomic_or(&tasks_ready, 1 << tskid)` -/
  | setReady (tskid : Fin (n + 1))
  /-- `need_resched_or_profiling = 1` -/
  | setResched
  deriving DecidableEq

/-- The scheduler's variables, where every task is, and the interrupts in progress, the
innermost first. -/
structure State (n : Nat) where
  events : Fin (n + 1) → UInt32
  tasksReady : Fin (n + 1) → Bool
  tasksEnabled : Fin (n + 1) → Bool
  currentTask : Fin (n + 1)
  needResched : Bool
  threads : Fin (n + 1) → Thread n
  irqs : List (Irq n)

variable {n : Nat}

namespace State

/-! ## The scheduler -/

/-- `atomic_or(&tasks[tskid].events, bits)` -/
def orEvents (tskid : Fin (n + 1)) (bits : UInt32) (s : State n) : State n :=
  { s with events := Function.update s.events tskid (s.events tskid ||| bits) }

/-- `atomic_clear(&tasks[tskid].events, bits)` -/
def clearEvents (tskid : Fin (n + 1)) (bits : UInt32) (s : State n) : State n :=
  { s with events := Function.update s.events tskid (s.events tskid &&& ~~~bits) }

/-- `tasks_ready |= 1 << tskid` -/
def setReady (tskid : Fin (n + 1)) (s : State n) : State n :=
  { s with tasksReady := Function.update s.tasksReady tskid true }

/-- The task goes on at another place. -/
def goto (task : Fin (n + 1)) (thread : Thread n) (s : State n) : State n :=
  { s with threads := Function.update s.threads task thread }

/-- `if (desched && !current->events) tasks_ready &= ~(1 << (current - tasks))` -/
def removeCurrent (desched : Bool) (s : State n) : State n :=
  if desched ∧ s.events s.currentTask = 0 then
    { s with tasksReady := Function.update s.tasksReady s.currentTask false }
  else
    s

/-- `svc_handler`; `none` if its assertion fails that some task can run. -/
def svcHandler (desched : Bool) (resched : Fin (n + 1)) (s : State n) : Option (State n) :=
  let s := (s.removeCurrent desched).setReady resched
  (Fin.findRev? fun t => s.tasksReady t && s.tasksEnabled t).map fun next =>
    { s with currentTask := next, needResched := false }

/-- `task_enable_all_tasks` -/
def taskEnableAllTasks (s : State n) : Option (State n) :=
  { s with tasksReady := fun _ => true, tasksEnabled := fun _ => true }.svcHandler false 0

/-! ## The functions that tasks call -/

/-- After `__wait_evt` has returned `evt`. `now` is what `get_time` returns. -/
def resume (caller : Caller) (evt : UInt32) (now : UInt64) : Thread n :=
  match caller with
  | .setEvent _ => .user (some (.setEvent evt))
  | .waitEvent => .user (some (.waitEvent evt))
  | .waitEventMask requested timeoutUs deadline events =>
      let events := events ||| evt
      let timeRemainingUs := (deadline - now).toUInt32.toInt32
      if 0 < timeoutUs ∧ timeRemainingUs ≤ 0 then
        .repost requested (events ||| taskEventTimer)
      else if events &&& (requested ||| taskEventTimer) = 0 then
        .readClear (.waitEventMask requested timeoutUs deadline events) timeRemainingUs
          taskIdIdle
      else
        .repost requested events

/-- The next step of the task that runs. -/
def runThread (now : UInt64) (s : State n) : Option (State n) :=
  let me := s.currentTask
  match s.threads me with
  | .user _ => none
  | .setEvent tskid event true =>
      (s.orEvents tskid event).goto me (.readClear (.setEvent false) (-1) tskid)
  | .setEvent tskid event false => (s.orEvents tskid event).goto me (.schedule tskid)
  | .schedule tskid => (s.goto me (.user (some (.setEvent 0)))).svcHandler false tskid
  | .readClear caller timeoutUs resched =>
      let evt := s.events me
      let s := { s with events := Function.update s.events me 0 }
      if evt = 0 then
        s.goto me (.sleep caller timeoutUs resched)
      else
        s.goto me (.clearTimer caller timeoutUs evt)
  | .sleep caller timeoutUs resched =>
      (s.goto me (.readClear caller.afterSchedule timeoutUs taskIdIdle)).svcHandler true resched
  | .clearTimer caller timeoutUs evt =>
      let s := if 0 < timeoutUs then s.clearEvents me taskEventTimer else s
      s.goto me (resume caller evt now)
  | .repost requested events =>
      let eventMask := requested ||| taskEventTimer
      (s.orEvents me (events &&& ~~~eventMask)).goto me
        (.user (some (.waitEventMask requested events (events &&& eventMask))))

end State

/-- A call by the task that runs. -/
inductive Call (n : Nat) where
  | setEvent (tskid : Fin (n + 1)) (event : UInt32) (wait : Bool)
  | waitEvent (timeoutUs : Int32)
  | waitEventMask (eventMask : UInt32) (timeoutUs : Int32)

/-- Where the call begins.  The loop of `task_wait_event_mask` is always entered. -/
def Call.start (now : UInt64) : Call n → Thread n
  | .setEvent tskid event wait => .setEvent tskid event wait
  | .waitEvent timeoutUs => .readClear .waitEvent timeoutUs taskIdIdle
  | .waitEventMask eventMask timeoutUs =>
      .readClear (.waitEventMask eventMask timeoutUs (now + timeoutUs.toInt64.toUInt64) 0)
        timeoutUs taskIdIdle

/-! ## Interleavings -/

/-- What can happen next: the running task calls a function or goes on with it, or an
interrupt comes, sets an event, goes on with that, or returns. -/
inductive Event (n : Nat) where
  | call (call : Call n) (now : UInt64)
  | run (now : UInt64)
  | irqEnter
  | irqSetEvent (tskid : Fin (n + 1)) (event : UInt32)
  | irqRun
  | irqReturn

namespace State

/-- The innermost interrupt has come to another place. -/
def gotoIrq (irq : Irq n) (outer : List (Irq n)) (s : State n) : State n :=
  { s with irqs := irq :: outer }

/-- `task_set_event` in an interrupt, after the event is set. -/
def runIrq (s : State n) : Option (State n) :=
  match s.irqs with
  | .setReady tskid :: outer => (s.setReady tskid).gotoIrq .setResched outer
  | .setResched :: outer => { s with needResched := true }.gotoIrq .handler outer
  | _ => none

/-- The end of an interrupt, with `task_resched_if_needed`. -/
def irqReturn (s : State n) : Option (State n) :=
  match s.irqs with
  | [.handler] =>
      if s.needResched then { s with irqs := [] }.svcHandler false taskIdIdle
      else some { s with irqs := [] }
  | .handler :: outer => some { s with irqs := outer }
  | _ => none

/-- The call of a function by the task that runs. -/
def startCall (call : Call n) (now : UInt64) (s : State n) : Option (State n) :=
  match s.threads s.currentTask with
  | .user _ => some (s.goto s.currentTask (call.start now))
  | _ => none

end State

/-- One step of the system.  A task runs only while no interrupt does. -/
def step (s : State n) : Event n → Option (State n)
  | .call call now => if s.irqs.isEmpty then s.startCall call now else none
  | .run now => if s.irqs.isEmpty then s.runThread now else none
  | .irqEnter => some (s.gotoIrq .handler s.irqs)
  | .irqSetEvent tskid event =>
      match s.irqs with
      | .handler :: outer => some ((s.orEvents tskid event).gotoIrq (.setReady tskid) outer)
      | _ => none
  | .irqRun => s.runIrq
  | .irqReturn => s.irqReturn

/-- The hooks task has initialised the modules and calls `task_enable_all_tasks`; other tasks
have not run yet, but may have events. -/
def hooksInit (hooks : Fin (n + 1)) (events : Fin (n + 1) → UInt32) : State n where
  events := events
  tasksReady := fun t => t = hooks
  tasksEnabled := fun t => t = hooks || t = taskIdIdle
  currentTask := hooks
  needResched := false
  threads := fun _ => .user none
  irqs := []

/-- What `task_enable_all_tasks` leaves. -/
def allEnabled (hooks : Fin (n + 1)) (events : Fin (n + 1) → UInt32) : State n :=
  { hooksInit hooks events with
    tasksReady := fun _ => true
    tasksEnabled := fun _ => true
    currentTask := Fin.last n }

theorem taskEnableAllTasks_hooksInit (hooks : Fin (n + 1)) (events : Fin (n + 1) → UInt32) :
    (hooksInit hooks events).taskEnableAllTasks = some (allEnabled hooks events) := by
  have hready : Function.update (fun _ : Fin (n + 1) => true) 0 true = fun _ => true :=
    Function.update_eq_self ..
  simp only [State.taskEnableAllTasks, State.svcHandler, State.removeCurrent, State.setReady,
    Bool.false_eq_true, false_and, if_false, hready, Bool.and_self, Fin.findRev?_succ, if_true,
    Option.map_some]
  rfl

end Task
end CrosEc
