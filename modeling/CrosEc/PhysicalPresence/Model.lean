import Mathlib.Tactic

/-!
# `common/physical_presence.c`: the press sequence

A caller of `physical_detect_start` asks for a number of button presses, each within its interval
after the one before, and is called back after the last.  Three deferred functions do the work:
`physical_detect_prompt`, `physical_detect_check_press` and `physical_detect_done`.

The parts that are protected by `pp_mutex`, and the parts that are not, are functions of their own
here, so that they can be put together as whole calls or interleaved.  Times are microseconds
since boot.
-/

namespace CrosEc
namespace PhysicalPresence

/-- How many presses there have to be, and when. -/
structure Timing where
  shortPressCount : Nat
  shortPressMinIntervalUs : Nat
  shortPressMaxIntervalUs : Nat
  longPressCount : Nat
  longPressMinIntervalUs : Nat
  longPressMaxIntervalUs : Nat

/-- Stricter physical presence for non-dev builds. -/
def Timing.strict : Timing := ⟨5, 100000, 5000000, 9, 60000000, 300000000⟩

/-- `CONFIG_PHYSICAL_PRESENCE_DEBUG_UNSAFE` -/
def Timing.debugUnsafe : Timing := ⟨3, 100000, 15000000, 5, 2000000, 300000000⟩

/-- The shortest interval before the press with this number. -/
def Timing.minInterval (t : Timing) (pressCount : Nat) : Nat :=
  if pressCount < t.shortPressCount then t.shortPressMinIntervalUs else t.longPressMinIntervalUs

/-- The longest interval before the press with this number. -/
def Timing.maxInterval (t : Timing) (pressCount : Nat) : Nat :=
  if pressCount < t.shortPressCount then t.shortPressMaxIntervalUs else t.longPressMaxIntervalUs

/-- `enum pp_detect_state` -/
inductive PpDetectState where
  | idle
  | awaitingPress
  | betweenPresses
  | finishing
  | abort
  deriving DecidableEq

/-- `pp_detect_in_progress` -/
def PpDetectState.inProgress (s : PpDetectState) : Bool :=
  s = .awaitingPress || s = .betweenPresses

/-- The deferred functions. -/
inductive Deferred where
  | done
  | prompt
  | checkPress
  deriving DecidableEq

/-- The state machine data, for callbacks `κ`, and when the deferred functions are due. -/
structure Detect (κ : Type) where
  ppDetectState : PpDetectState
  ppDetectCallback : Option κ
  ppPressCount : Nat
  ppPressCountNeeded : Nat
  ppLastPress : Nat
  deferredUntil : Deferred → Option Nat

variable {κ : Type}

namespace Detect

def init (κ : Type) : Detect κ where
  ppDetectState := .idle
  ppDetectCallback := none
  ppPressCount := 0
  ppPressCountNeeded := 0
  ppLastPress := 0
  deferredUntil := fun _ => none

/-- `hook_call_deferred(f, us)` -/
def callDeferred (f : Deferred) (clock us : Nat) (d : Detect κ) : Detect κ :=
  { d with deferredUntil := Function.update d.deferredUntil f (some (clock + us)) }

/-- `hook_call_deferred(f, -1)`, and what `hook_task` does before it calls a function -/
def cancelDeferred (f : Deferred) (d : Detect κ) : Detect κ :=
  { d with deferredUntil := Function.update d.deferredUntil f none }

/-- `hook_task` finds that the function is due. -/
def due (f : Deferred) (clock : Nat) (d : Detect κ) : Bool :=
  (d.deferredUntil f).any fun deadline => deadline < clock

/-! ## The parts of `physical_detect_done` -/

/-- The first part with the mutex: the callback is kept only after the full sequence. -/
def finish (d : Detect κ) : Detect κ :=
  { d with
    ppDetectCallback :=
      if d.ppDetectState.inProgress = false ∨ d.ppPressCount < d.ppPressCountNeeded then none
      else d.ppDetectCallback
    ppDetectState := .finishing }

/-- `pp_detect_callback = NULL` -/
def clearCallback (d : Detect κ) : Detect κ := { d with ppDetectCallback := none }

/-- The second part with the mutex. -/
def goIdle (d : Detect κ) : Detect κ := { d with ppDetectState := .idle }

/-! ## The other deferred functions -/

/-- `physical_detect_prompt`, which does not lock the mutex -/
def prompt (d : Detect κ) : Detect κ := { d with ppDetectState := .awaitingPress }

/-- `physical_detect_check_press` with the mutex.  The time of the press and `dt` have been read
before.  A negative `dt` is a very large one in the source; the press is ignored either way. -/
def checkPress (t : Timing) (now : Nat) (dt : Int) (clock : Nat) (d : Detect κ) : Detect κ :=
  -- If we no longer care about presses, ignore them.
  if d.ppDetectState.inProgress = false then d
  -- Ignore extra presses we don't need.
  else if d.ppPressCountNeeded ≤ d.ppPressCount then d
  -- Ignore presses outside the expected interval.
  else if dt < t.minInterval d.ppPressCount ∨ t.maxInterval d.ppPressCount < dt then d
  else
    let d := { d with
      ppDetectState := .betweenPresses
      ppLastPress := now
      ppPressCount := d.ppPressCount + 1 }
    if d.ppPressCount = d.ppPressCountNeeded then d.callDeferred .done clock 0
    else if d.ppPressCount < t.shortPressCount then
      (d.callDeferred .prompt clock t.shortPressMinIntervalUs).callDeferred
        .done clock t.shortPressMaxIntervalUs
    else
      (d.callDeferred .prompt clock t.longPressMinIntervalUs).callDeferred
        .done clock t.longPressMaxIntervalUs

/-! ## The interface -/

/-- `physical_detect_busy` -/
def busy (d : Detect κ) : Bool := d.ppDetectState ≠ .idle

/-- `physical_detect_start` with the mutex; `none` is `EC_ERROR_BUSY`. -/
def begin (t : Timing) (isLong : Bool) (callback : κ) (clock : Nat) (d : Detect κ) :
    Option (Detect κ) :=
  if d.busy then none
  else some { d with
    ppPressCountNeeded := if isLong then t.longPressCount else t.shortPressCount
    ppPressCount := 0
    ppLastPress := clock
    ppDetectCallback := some callback
    ppDetectState := .betweenPresses }

/-- `physical_detect_abort`, all with the mutex -/
def abort (clock : Nat) (d : Detect κ) : Detect κ :=
  if d.ppDetectState.inProgress then
    -- Speed up the call to done.
    ((({ d with ppDetectState := .abort }.cancelDeferred .prompt).cancelDeferred
      .checkPress).callDeferred .done clock 0)
  else d

/-! ## Whole calls -/

/-- `physical_detect_start`, where nothing comes between its parts -/
def start (t : Timing) (isLong : Bool) (callback : κ) (clock : Nat) (d : Detect κ) :
    Option (Detect κ) :=
  (d.begin t isLong callback clock).map fun d =>
    ((d.cancelDeferred .checkPress).callDeferred .prompt clock
      t.shortPressMinIntervalUs).callDeferred .done clock t.shortPressMaxIntervalUs

/-- `physical_detect_press` -/
def press (clock : Nat) (d : Detect κ) : Detect κ :=
  if d.busy then d.callDeferred .checkPress clock 0 else d

end Detect

end PhysicalPresence
end CrosEc
