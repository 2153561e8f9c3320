import CrosEc.PhysicalPresence.Model
import CrosEc.Lib.Interleaving

/-!
# The press sequence among several tasks

The hook task runs the deferred functions one after the other.  Other tasks and interrupts call
`physical_detect_start`, `physical_detect_abort` and `physical_detect_press` between any two of
its steps.  A step is a part that holds `pp_mutex`, or one access outside of it: the write of
`physical_detect_prompt`, the reads of `physical_detect_check_press` and `physical_detect_press`,
each use of the callback in `physical_detect_done`, and each call of `hook_call_deferred` in
`physical_detect_start`.

What the code does not have are `sequences` and `calls`: the starts that succeeded with what has
been done for each, and the calls of a callback, the last ones first.
-/

namespace CrosEc
namespace PhysicalPresence

/-- How far the hook task has got in the function that it has dispatched. -/
inductive HookTask where
  | idle
  | done
  /-- `physical_detect_done` has left the mutex -/
  | finished
  /-- it has found a callback -/
  | calling
  /-- it has called it -/
  | called
  | goingIdle
  | prompt
  | checkPress
  /-- `physical_detect_check_press` has read the time -/
  | pressed (now : Nat)
  /-- and the time of the last press -/
  | timed (now : Nat) (dt : Int)
  deriving DecidableEq

/-- A deferred function is dispatched. -/
def HookTask.enter : Deferred → HookTask
  | .done => .done
  | .prompt => .prompt
  | .checkPress => .checkPress

/-- `physical_detect_done` has left the mutex and has not set the state to idle. -/
def HookTask.inDone : HookTask → Bool
  | .finished | .calling | .called | .goingIdle => true
  | _ => false

/-- What another task still has to do in a call. -/
inductive OtherTask where
  | idle
  /-- the calls of `hook_call_deferred` at the end of `physical_detect_start` -/
  | cancelCheckPress
  | callPrompt
  | callDone
  /-- `physical_detect_press` has found that the detector is not idle -/
  | callCheckPress
  deriving DecidableEq

/-- The task has yet to call `hook_call_deferred` for `physical_detect_done`. -/
def OtherTask.inStart : OtherTask → Bool
  | .cancelCheckPress | .callPrompt | .callDone => true
  | .idle | .callCheckPress => false

/-- A sequence that was started. -/
structure Sequence (κ : Type) where
  callback : κ
  needed : Nat
  startTime : Nat
  /-- the times of the presses that were counted, the last one first -/
  presses : List Nat
  /-- an abort took effect -/
  aborted : Bool
  /-- a call of `physical_detect_done` has gone through since the start -/
  ended : Bool

/-- A call of a callback: the number of starts before it, and the last of them. -/
structure Call (κ : Type) where
  callback : κ
  number : Nat
  sequence : Option (Sequence κ)

/-- The detector, the tasks, and the record of what happened. -/
structure System (ι κ : Type) where
  detect : Detect κ
  clock : Nat
  hook : HookTask
  tasks : ι → OtherTask
  sequences : List (Sequence κ)
  calls : List (Call κ)

/-- What may happen next. -/
inductive Event (ι κ : Type) where
  /-- time passes -/
  | elapse (us : Nat)
  /-- the hook task finds a deferred function due -/
  | dispatch (f : Deferred)
  /-- the hook task takes a step in a deferred function -/
  | hook
  | start (i : ι) (isLong : Bool) (callback : κ)
  | abort (i : ι)
  | press (i : ι)
  /-- another task takes a step in a call -/
  | resume (i : ι)

variable {ι κ : Type} [DecidableEq ι]

/-- `physical_detect_check_press` counts the press. -/
def Detect.counts (t : Timing) (dt : Int) (d : Detect κ) : Bool :=
  d.ppDetectState.inProgress && d.ppPressCount < d.ppPressCountNeeded &&
    t.minInterval d.ppPressCount ≤ dt && dt ≤ t.maxInterval d.ppPressCount

namespace System

def init (ι κ : Type) : System ι κ where
  detect := Detect.init κ
  clock := 0
  hook := .idle
  tasks := fun _ => .idle
  sequences := []
  calls := []

/-- Something is noted about the sequence that was started last. -/
def note (f : Sequence κ → Sequence κ) (s : System ι κ) : System ι κ :=
  { s with sequences := s.sequences.modifyHead f }

def setTask (i : ι) (p : OtherTask) (s : System ι κ) : System ι κ :=
  { s with tasks := Function.update s.tasks i p }

/-- The hook task's next step. -/
def hookStep (t : Timing) (s : System ι κ) : Option (System ι κ) :=
  match s.hook with
  | .idle => none
  | .done => some { s with detect := s.detect.finish, hook := .finished }
  | .finished =>
      some { s with hook := if s.detect.ppDetectCallback.isSome then .calling else .goingIdle }
  | .calling =>
      s.detect.ppDetectCallback.map fun callback => { s with
        calls := ⟨callback, s.sequences.length, s.sequences.head?⟩ :: s.calls
        hook := .called }
  | .called => some { s with detect := s.detect.clearCallback, hook := .goingIdle }
  | .goingIdle =>
      some (note (fun q => { q with ended := true }) { s with
        detect := s.detect.goIdle
        hook := .idle })
  | .prompt => some { s with detect := s.detect.prompt, hook := .idle }
  | .checkPress => some { s with hook := .pressed s.clock }
  | .pressed now => some { s with hook := .timed now ((now : Int) - s.detect.ppLastPress) }
  | .timed now dt =>
      let s' := { s with detect := s.detect.checkPress t now dt s.clock, hook := .idle }
      some (if s.detect.counts t dt then
        s'.note fun q => { q with presses := now :: q.presses }
      else s')

/-- `physical_detect_start`, up to the end of the part with the mutex -/
def startStep (t : Timing) (i : ι) (isLong : Bool) (callback : κ) (s : System ι κ) :
    System ι κ :=
  match s.detect.begin t isLong callback s.clock with
  | none => s
  | some d => { s.setTask i .cancelCheckPress with
      detect := d
      sequences := ⟨callback, d.ppPressCountNeeded, s.clock, [], false, false⟩ :: s.sequences }

/-- `physical_detect_abort` -/
def abortStep (s : System ι κ) : System ι κ :=
  let s' := { s with detect := s.detect.abort s.clock }
  if s.detect.ppDetectState.inProgress then s'.note fun q => { q with aborted := true } else s'

/-- `physical_detect_press`, up to the read of the state -/
def pressStep (i : ι) (s : System ι κ) : System ι κ :=
  if s.detect.busy then s.setTask i .callCheckPress else s

/-- The next step of another task in a call. -/
def resumeStep (t : Timing) (i : ι) (s : System ι κ) : Option (System ι κ) :=
  match s.tasks i with
  | .idle => none
  | .cancelCheckPress =>
      some { s.setTask i .callPrompt with detect := s.detect.cancelDeferred .checkPress }
  | .callPrompt =>
      some { s.setTask i .callDone with
        detect := s.detect.callDeferred .prompt s.clock t.shortPressMinIntervalUs }
  | .callDone =>
      some { s.setTask i .idle with
        detect := s.detect.callDeferred .done s.clock t.shortPressMaxIntervalUs }
  | .callCheckPress =>
      some { s.setTask i .idle with detect := s.detect.callDeferred .checkPress s.clock 0 }

/-- One step of the system. -/
def step (t : Timing) (s : System ι κ) : Event ι κ → Option (System ι κ)
  | .elapse us => some { s with clock := s.clock + us }
  | .dispatch f =>
      if s.hook = .idle ∧ s.detect.due f s.clock then
        some { s with detect := s.detect.cancelDeferred f, hook := .enter f }
      else none
  | .hook => s.hookStep t
  | .start i isLong callback =>
      if s.tasks i = .idle then some (s.startStep t i isLong callback) else none
  | .abort i => if s.tasks i = .idle then some s.abortStep else none
  | .press i => if s.tasks i = .idle then some (s.pressStep i) else none
  | .resume i => s.resumeStep t i

end System

/-! ## The states in which the unprotected accesses do no harm -/

/-- `physical_detect_prompt` writes while a sequence is in progress, and a press is counted with
the time since the last press or the start. -/
def System.undisturbed (t : Timing) (s : System ι κ) : Event ι κ → Bool
  | .hook =>
      match s.hook with
      | .prompt => s.detect.ppDetectState.inProgress
      | .timed now dt => !s.detect.counts t dt || dt = (now : Int) - s.detect.ppLastPress
      | _ => true
  | _ => true

/-! ## When a callback is called -/

/-- Each press is within its interval after the press before, or after the start. -/
def WellTimed (t : Timing) (start : Nat) : List Nat → Prop
  | [] => True
  | press :: presses => WellTimed t start presses ∧
      presses.headD start + t.minInterval presses.length ≤ press ∧
      press ≤ presses.headD start + t.maxInterval presses.length

instance (t : Timing) (start : Nat) : DecidablePred (WellTimed t start)
  | [] => .isTrue trivial
  | _ :: presses =>
      haveI : Decidable (WellTimed t start presses) :=
        instDecidablePredListNatWellTimed t start presses
      inferInstanceAs (Decidable (_ ∧ _))

/-- All presses that the sequence needs were counted, in time, and it was not aborted. -/
def Sequence.Full (t : Timing) (q : Sequence κ) : Prop :=
  q.presses.length = q.needed ∧ WellTimed t q.startTime q.presses ∧ q.aborted = false

instance (t : Timing) (q : Sequence κ) : Decidable (q.Full t) :=
  inferInstanceAs (Decidable (_ ∧ _))

/-- The callback that was called is the one of the last start, whose sequence is full. -/
def Call.Earned (t : Timing) (c : Call κ) : Prop :=
  ∃ q, c.sequence = some q ∧ c.callback = q.callback ∧ q.Full t

/-- `physical_detect_done` has a deadline, or will get one at the end of a start. -/
def System.Scheduled (s : System ι κ) : Prop :=
  (s.detect.deferredUntil .done).isSome = true ∨ ∃ i, (s.tasks i).inStart = true

/-- `physical_detect_done` has been dispatched, or will be. -/
def System.Ending (s : System ι κ) : Prop :=
  s.hook = .done ∨ s.hook.inDone = true ∨ s.Scheduled

/-- **What the detector promises.** -/
structure System.Kept (t : Timing) (s : System ι κ) : Prop where
  /-- a callback is called only after the full sequence -/
  earned : ∀ c ∈ s.calls, c.Earned t
  /-- and at most once for a start -/
  once : (s.calls.map Call.number).Nodup
  /-- after the end of the sequence, and of the call that ends it, a new start succeeds -/
  restart : (∀ q ∈ s.sequences.head?, q.ended = true) → s.hook.inDone = false →
    ∀ isLong callback, (s.detect.begin t isLong callback s.clock).isSome = true
  /-- and where the detector is not idle, the end is on its way -/
  ending : s.detect.busy = true → s.Ending

end PhysicalPresence
end CrosEc
