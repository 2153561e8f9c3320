import CrosEc.Lib.Interleaving

/-!
# `common/hooks.c`: deferred routines

`hook_call_deferred` records when a routine is to be called, and the loop of `hook_task` calls
the routines that are due.  It is called by any tasks and interrupt handlers, and by the routines
themselves, at any time.  Each read and each write of `__deferred_until`, of `defer_new_call` and
of the events of the task is one step; the clock advances between any two of them.

`latest` says for every routine which request was made last and has not been cancelled: it is
read by no function.  A request is made when its deadline is written.
-/

namespace CrosEc
namespace Hooks

/-- `(int)` of a `uint64_t` -/
def cInt (x : UInt64) : Int := x.toUInt32.toInt32.toInt

/-- `(uint64_t)` of an `int` -/
def cUInt64 (x : Int) : UInt64 := UInt64.ofInt x

/-- Where a caller is in `hook_call_deferred`. -/
inductive Caller where
  | idle
  /-- `get_time().val + us` is computed for routine `i` -/
  | timed (i : Nat) (deadline : UInt64)
  /-- `defer_new_call = 1` -/
  | wrote
  /-- `if (hook_task_started) task_wake(TASK_ID_HOOKS)` -/
  | flagged
  deriving DecidableEq

/-- Where `hook_task` is. -/
inductive Pc where
  | notStarted
  /-- `hook_notify(HOOK_INIT)` -/
  | initHooks
  /-- `t = get_time().val` -/
  | loop
  /-- `if (__deferred_until[i] && ..` -/
  | testSet (i : Nat)
  /-- `.. __deferred_until[i] < t)` -/
  | testDue (i : Nat)
  /-- `__deferred_until[i] = 0` -/
  | clear (i : Nat)
  /-- `__deferred_funcs[i].routine()` is called -/
  | start (i : Nat)
  /-- and has not returned yet -/
  | running (i : Nat)
  /-- the periodic hooks -/
  | ticks
  /-- when the next tick is due -/
  | calcTime
  /-- `defer_new_call = 0` -/
  | resetFlag
  /-- `if (!__deferred_until[i])` -/
  | calcSet (i : Nat)
  /-- `if (__deferred_until[i] < t)` -/
  | calcPast (i : Nat)
  /-- `else if (__deferred_until[i] - t < next)` -/
  | calcLess (i : Nat)
  /-- `next = __deferred_until[i] - t` -/
  | calcAssign (i : Nat)
  /-- `if (next > 0 && !defer_new_call)` -/
  | checkFlag
  /-- `task_wait_event(next)` is called -/
  | goSleep
  /-- and waits since this time -/
  | sleeping (since : UInt64)
  deriving DecidableEq

/-- A request for a call: when the routine is due, and whether it has been started since then. -/
structure Request where
  deadline : UInt64
  started : Bool
  deriving DecidableEq

/-- The callers are any tasks and interrupt handlers. -/
structure State (ι : Type) where
  now : UInt64
  /-- `__deferred_until` -/
  deferredUntil : Nat → UInt64
  deferNewCall : Bool
  hookTaskStarted : Bool
  /-- the task has an event that it has not taken -/
  wakePending : Bool
  pc : Pc
  t : UInt64
  next : Int
  lastTick : UInt64
  callers : ι → Caller
  latest : Nat → Option Request

def State.init (ι : Type) (hookTickInterval now : UInt64) : State ι where
  now := now
  deferredUntil := fun _ => 0
  deferNewCall := false
  hookTaskStarted := false
  wakePending := false
  pc := .notStarted
  t := 0
  next := 0
  lastTick := -hookTickInterval
  callers := fun _ => .idle
  latest := fun _ => none

/-- The steps. -/
inductive Event (ι : Type) where
  /-- the clock advances -/
  | tick (now : UInt64)
  /-- `hook_call_deferred` is called for routine `i` -/
  | call (caller : ι) (i : Nat) (us : Int)
  | write (caller : ι)
  | flag (caller : ι)
  | wake (caller : ι)
  /-- the next step of `hook_task` -/
  | hook
  /-- a routine or a hook waits, and takes the events of the task -/
  | takeEvents
  deriving DecidableEq

variable {ι : Type}

namespace State

def goto (s : State ι) (pc : Pc) : State ι := { s with pc := pc }

/-- The routine is started: the request that it is due for is served. -/
def serve (s : State ι) (i : Nat) : State ι :=
  match s.latest i with
  | some r =>
      if r.deadline < s.now then
        { s with latest := Function.update s.latest i (some { r with started := true }) }
      else s
  | none => s

/-- The next step of `hook_task`, with `n` routines. -/
def hookStep (n : Nat) (hookTickInterval : UInt64) (s : State ι) : Option (State ι) :=
  match s.pc with
  | .notStarted => some { s with hookTaskStarted := true, pc := .initHooks }
  | .initHooks => some (s.goto .loop)
  | .loop => some { s with t := s.now, next := 0, pc := .testSet 0 }
  | .testSet i =>
      if i < n then
        if s.deferredUntil i ≠ 0 then some (s.goto (.testDue i)) else some (s.goto (.testSet (i + 1)))
      else some (s.goto .ticks)
  | .testDue i =>
      if s.deferredUntil i < s.t then some (s.goto (.clear i)) else some (s.goto (.testSet (i + 1)))
  | .clear i =>
      -- Cleared first, so that the routine can request to be called again.
      some { s with deferredUntil := Function.update s.deferredUntil i 0, pc := .start i }
  | .start i => some ((s.serve i).goto (.running i))
  | .running i => some (s.goto (.testSet (i + 1)))
  | .ticks =>
      some { s with
        lastTick := if s.t - s.lastTick ≥ hookTickInterval then s.t else s.lastTick
        pc := .calcTime }
  | .calcTime =>
      some { s with
        t := s.now
        next :=
          if s.lastTick + hookTickInterval > s.now then
            cInt (s.lastTick + hookTickInterval - s.now)
          else s.next
        pc := .resetFlag }
  | .resetFlag => some { s with deferNewCall := false, pc := .calcSet 0 }
  | .calcSet i =>
      if i < n ∧ s.next > 0 then
        if s.deferredUntil i = 0 then some (s.goto (.calcSet (i + 1))) else some (s.goto (.calcPast i))
      else some (s.goto .checkFlag)
  | .calcPast i =>
      if s.deferredUntil i < s.t then some { s with next := 0, pc := .calcSet (i + 1) }
      else some (s.goto (.calcLess i))
  | .calcLess i =>
      if s.deferredUntil i - s.t < cUInt64 s.next then some (s.goto (.calcAssign i))
      else some (s.goto (.calcSet (i + 1)))
  | .calcAssign i =>
      some { s with next := cInt (s.deferredUntil i - s.t), pc := .calcSet (i + 1) }
  | .checkFlag =>
      if s.next > 0 ∧ s.deferNewCall = false then some (s.goto .goSleep) else some (s.goto .loop)
  | .goSleep => some (s.goto (.sleeping s.now))
  | .sleeping since =>
      if s.wakePending ∨ (since.toNat + s.next : Int) ≤ s.now.toNat then
        some { s with wakePending := false, pc := .loop }
      else none

/-- The code of the routines and the hooks is running. -/
def inRoutine (s : State ι) : Bool :=
  match s.pc with
  | .initHooks | .running _ | .ticks => true
  | _ => false

end State

/-- `hook_call_deferred` is called, and returns, or goes on to set the alarm. -/
def hookCallDeferred [DecidableEq ι] (n : Nat) (caller : ι) (i : Nat) (us : Int) (s : State ι) :
    State ι :=
  -- Routine not registered: `EC_ERROR_INVAL`
  if n ≤ i then s
  else if us = -1 then
    { s with
      deferredUntil := Function.update s.deferredUntil i 0
      latest := Function.update s.latest i none }
  else { s with callers := Function.update s.callers caller (.timed i (s.now + cUInt64 us)) }

/-- One step, with `n` routines. -/
def step [DecidableEq ι] (n : Nat) (hookTickInterval : UInt64) (s : State ι) :
    Event ι → Option (State ι)
  | .tick now => if s.now ≤ now then some { s with now := now } else none
  | .call caller i us =>
      match s.callers caller with
      | .idle => some (hookCallDeferred n caller i us s)
      | _ => none
  | .write caller =>
      match s.callers caller with
      | .timed i deadline => some { s with
          deferredUntil := Function.update s.deferredUntil i deadline
          latest := Function.update s.latest i (some ⟨deadline, false⟩)
          callers := Function.update s.callers caller .wrote }
      | _ => none
  | .flag caller =>
      match s.callers caller with
      | .wrote => some { s with
          deferNewCall := true
          callers := Function.update s.callers caller .flagged }
      | _ => none
  | .wake caller =>
      match s.callers caller with
      | .flagged => some { s with
          wakePending := s.wakePending || s.hookTaskStarted
          callers := Function.update s.callers caller .idle }
      | _ => none
  | .hook => s.hookStep n hookTickInterval
  | .takeEvents => if s.inRoutine then some { s with wakePending := false } else none

/-- A routine is not requested or cancelled between the test of its deadline and its start, and
it is not cancelled between the last two reads of its deadline.  No deadline is zero, which means
that there is none. -/
def undisturbed (s : State ι) : Event ι → Bool
  | .call _ i us =>
      if us = -1 then s.pc ≠ .testDue i ∧ s.pc ≠ .clear i ∧ s.pc ≠ .start i ∧ s.pc ≠ .calcAssign i
      else s.now + cUInt64 us ≠ 0
  | .write caller =>
      match s.callers caller with
      | .timed i _ => s.pc ≠ .clear i ∧ s.pc ≠ .start i
      | _ => true
  | _ => true

end Hooks
end CrosEc
