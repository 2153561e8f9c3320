import CrosEc.Task.Model

/-!
# `core/cortex-m/task.c`: mutexes

A mutex has a lock word and a bitmap of the tasks that want it.  `mutex_lock` enters the
bitmap, tries to take the lock, and waits for `TASK_EVENT_MUTEX` while somebody else owns it.
`mutex_unlock` frees the lock and reads the bitmap in one critical section, and then sends the
event to the tasks of its snapshot, the highest first.

The functions of the scheduler that are called here are those of `Task.Model`, run by a task
at any time: every task may take its next step in every state, so that all interleavings are
covered, whatever the scheduler makes of the priorities.  Meanwhile any event may be sent to a
task, and a task that is not in a function of the mutexes may read its events.
-/

namespace CrosEc
namespace Mutex

open CrosEc.Task

/-- Where a task is with mutexes of the type `μ`. -/
inductive Thread (μ : Type) (n : Nat) where
  | user
  /-- `atomic_or(&mtx->waiters, id)` -/
  | register (mtx : μ)
  /-- `ldrex`, and `strexeq` if the lock is free -/
  | attempt (mtx : μ)
  /-- inside of `task_wait_event_mask(TASK_EVENT_MUTEX, 0)` -/
  | wait (mtx : μ) (inner : Task.Thread n)
  /-- `atomic_clear(&mtx->waiters, id)` -/
  | unregister (mtx : μ)
  /-- the critical section of `mutex_unlock` -/
  | release (mtx : μ)
  /-- the loop of `mutex_unlock`, with the tasks that are still to be notified -/
  | notify (mtx : μ) (waiters : Fin (n + 1) → Bool)
  /-- inside of `task_set_event(id, TASK_EVENT_MUTEX, 0)`, after the event is set -/
  | schedule (mtx : μ) (waiters : Fin (n + 1) → Bool) (id : Fin (n + 1))

/-- The mutexes, the events of the tasks, and where every task is.  `held` says which mutexes
a task has locked and has not begun to unlock, and `lastUnlocker` who freed a mutex last. -/
structure State (μ : Type) (n : Nat) where
  lock : μ → UInt32
  waiters : μ → Fin (n + 1) → Bool
  events : Fin (n + 1) → UInt32
  threads : Fin (n + 1) → Thread μ n
  held : Fin (n + 1) → μ → Bool
  lastUnlocker : μ → Option (Fin (n + 1))

/-- Nobody has a mutex, and there may be events. -/
def init (μ : Type) {n : Nat} (events : Fin (n + 1) → UInt32) : State μ n where
  lock := fun _ => 0
  waiters := fun _ _ => false
  events := events
  threads := fun _ => .user
  held := fun _ _ => false
  lastUnlocker := fun _ => none

variable {μ : Type} {n : Nat}

/-- A step of a function of the scheduler, as far as it concerns the events and the task that
takes it. -/
def innerStep (me : Fin (n + 1)) (now : UInt64) (events : Fin (n + 1) → UInt32)
    (inner : Task.Thread n) : Option ((Fin (n + 1) → UInt32) × Task.Thread n) :=
  let s : Task.State n :=
    { events := events
      tasksReady := fun _ => true
      tasksEnabled := fun _ => true
      currentTask := me
      needResched := false
      threads := fun _ => inner
      irqs := [] }
  (s.runThread now).map fun s' => (s'.events, s'.threads me)

namespace State

/-- The task goes on at another place. -/
def goto (task : Fin (n + 1)) (thread : Thread μ n) (s : State μ n) : State μ n :=
  { s with threads := Function.update s.threads task thread }

def setEvents (task : Fin (n + 1)) (bits : UInt32) (s : State μ n) : State μ n :=
  { s with events := Function.update s.events task bits }

variable [DecidableEq μ]

def setLock (mtx : μ) (value : UInt32) (s : State μ n) : State μ n :=
  { s with lock := Function.update s.lock mtx value }

/-- The bit of `task` in `mtx->waiters`. -/
def setWaiter (mtx : μ) (task : Fin (n + 1)) (bit : Bool) (s : State μ n) : State μ n :=
  { s with
    waiters := Function.update s.waiters mtx (Function.update (s.waiters mtx) task bit) }

/-- The task has locked the mutex, or begins to unlock it. -/
def setHeld (task : Fin (n + 1)) (mtx : μ) (bit : Bool) (s : State μ n) : State μ n :=
  { s with held := Function.update s.held task (Function.update (s.held task) mtx bit) }

/-- The attempt of `mutex_lock`.  `exclusive` says whether the store succeeds. -/
def attempt (task : Fin (n + 1)) (mtx : μ) (now : UInt64) (exclusive : Bool)
    (s : State μ n) : State μ n :=
  let value : UInt32 :=
    if s.lock mtx = 0 then if exclusive then 0 else 1 else s.lock mtx
  if value = 0 then
    (s.setLock mtx 2).goto task (.unregister mtx)
  else if value = 2 then
    s.goto task (.wait mtx ((Call.waitEventMask taskEventMutex 0).start now))
  else
    s.goto task (.attempt mtx)

/-- The critical section of `mutex_unlock`. -/
def release (task : Fin (n + 1)) (mtx : μ) (s : State μ n) : State μ n :=
  { s.setLock mtx 0 with
    lastUnlocker := Function.update s.lastUnlocker mtx (some task) }.goto task
      (.notify mtx (s.waiters mtx))

/-- The next step of a task in a function of the mutexes. -/
def runThread (task : Fin (n + 1)) (now : UInt64) (exclusive : Bool) (s : State μ n) :
    Option (State μ n) :=
  match s.threads task with
  | .user => none
  | .register mtx => (s.setWaiter mtx task true).goto task (.attempt mtx)
  | .attempt mtx => s.attempt task mtx now exclusive
  | .wait mtx inner => do
    let (events, inner) ← innerStep task now s.events inner
    let s := { s with events := events }
    match inner with
    | .user _ => s.goto task (.attempt mtx)
    | _ => s.goto task (.wait mtx inner)
  | .unregister mtx =>
      ((s.setWaiter mtx task false).setHeld task mtx true).goto task .user
  | .release mtx => s.release task mtx
  | .notify mtx waiters =>
      match Fin.findRev? waiters with
      | some id => do
        let (events, _) ← innerStep task now s.events (.setEvent id taskEventMutex false)
        { s with events := events }.goto task
          (.schedule mtx (Function.update waiters id false) id)
      | none =>
          -- `atomic_clear(&tsk->events, TASK_EVENT_MUTEX)`
          (s.setEvents task (s.events task &&& ~~~taskEventMutex)).goto task .user
  | .schedule mtx waiters id => do
    let (events, _) ← innerStep task now s.events (.schedule id)
    { s with events := events }.goto task (.notify mtx waiters)

end State

/-! ## Interleavings -/

/-- What can happen next: a task calls a function or takes its next step, somebody sends
events to a task, or a task reads events of its own. -/
inductive Event (μ : Type) (n : Nat) where
  | lock (task : Fin (n + 1)) (mtx : μ)
  | unlock (task : Fin (n + 1)) (mtx : μ)
  | run (task : Fin (n + 1)) (now : UInt64) (exclusive : Bool)
  | send (task : Fin (n + 1)) (bits : UInt32)
  | read (task : Fin (n + 1)) (bits : UInt32)

/-- The task is not in a function of the mutexes. -/
def Thread.isUser : Thread μ n → Bool
  | .user => true
  | _ => false

theorem Thread.eq_user {thread : Thread μ n} (h : thread.isUser = true) : thread = .user := by
  cases thread with
  | user => rfl
  | _ => cases h

variable [DecidableEq μ]

/-- One step of the system.  A mutex is unlocked by its owner. -/
def step (s : State μ n) : Event μ n → Option (State μ n)
  | .lock task mtx =>
      if (s.threads task).isUser then s.goto task (.register mtx) else none
  | .unlock task mtx =>
      if (s.threads task).isUser ∧ s.held task mtx then
        (s.setHeld task mtx false).goto task (.release mtx)
      else
        none
  | .run task now exclusive => s.runThread task now exclusive
  | .send task bits =>
      some (s.setEvents task (s.events task ||| bits))
  | .read task bits =>
      if (s.threads task).isUser then
        some (s.setEvents task (s.events task &&& ~~~bits))
      else
        none

end Mutex
end CrosEc
