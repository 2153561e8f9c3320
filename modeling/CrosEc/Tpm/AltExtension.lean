import CrosEc.Mutex.Safety

/-!
# `common/tpm_registers.c`: the alternative path for commands

Any task can have a command executed by the TPM task with `tpm_alt_extension`.  It locks
`alt_if.if_mutex`, clears `alt_if`, stores the address and the size of its buffer, sends
`TPM_EVENT_ALT_EXTENSION`, and polls `process_result`; after a reset of the TPM it starts over.
The mutex is that of `Mutex.Model`, and every read and every write of another field is one step;
the clearing of `alt_if` is one step.

The TPM task also serves commands from the FIFO and resets, of which only the events matter here.
A command without a response that fits never sets `process_result`.

`processed` and `returned` record what has happened: they are read by no function.
-/

namespace CrosEc
namespace Tpm
namespace AltExtension

open Lib

/-- A call of `tpm_alt_extension`: it stands for the address of its command. -/
structure AltCall (n : Nat) where
  caller : Fin (n + 1)
  number : Nat
  bufferSize : UInt32
  deriving DecidableEq

/-- `enum alt_process_result` -/
inductive AltProcessResult where
  | waiting
  | done
  | interrupted
  deriving DecidableEq

/-- Where a task is in `tpm_alt_extension`. -/
inductive Pc (n : Nat) where
  | outside
  /-- inside of `mutex_lock` -/
  | locking (c : AltCall n)
  /-- `memset(&alt_if, 0, sizeof(alt_if))` -/
  | clear (c : AltCall n)
  /-- `alt_if.alt_hdr = command` -/
  | setHdr (c : AltCall n)
  /-- `alt_if.alt_buffer_size = buffer_size` -/
  | setSize (c : AltCall n)
  /-- `alt_if.process_result = ALT_PROCESS_WAITING` -/
  | setWaiting (c : AltCall n)
  /-- `task_set_event(TASK_ID_TPM, TPM_EVENT_ALT_EXTENSION, 0)` -/
  | setEvent (c : AltCall n)
  /-- `while (REG32(&alt_if.process_result) == ALT_PROCESS_WAITING)` -/
  | poll (c : AltCall n)
  /-- `while (REG32(&alt_if.process_result) != ALT_PROCESS_DONE)` -/
  | test (c : AltCall n)
  /-- inside of `mutex_unlock` -/
  | unlocking (c : AltCall n)
  deriving DecidableEq

/-- Events of the TPM task. -/
structure TpmEvents where
  reset : Bool
  wake : Bool
  alt : Bool
  deriving DecidableEq

def TpmEvents.none : TpmEvents := ⟨false, false, false⟩

/-- Where the TPM task is in `tpm_task`. -/
inductive TpmPc (n : Nat) where
  /-- `while (!ap_is_on())` -/
  | apOff
  /-- the first `tpm_reset_now` -/
  | firstReset
  /-- `if (!evt) evt = task_wait_event(-1)` -/
  | loop
  /-- the tests of `evt` -/
  | handle
  /-- `tpm_reset_now` -/
  | resetting
  /-- `alt_if.process_result = ALT_PROCESS_INTERRUPTED` -/
  | interrupt
  /-- a command from the FIFO is executed -/
  | fifo
  /-- `tpmh = alt_if.alt_hdr` -/
  | readHdr
  /-- `buffer_size = alt_if.alt_buffer_size` -/
  | readSize (tpmh : Option (AltCall n))
  /-- the command is executed -/
  | processing (tpmh : Option (AltCall n)) (bufferSize : UInt32)
  /-- `alt_if.process_result = ALT_PROCESS_DONE` -/
  | finish
  deriving DecidableEq

structure State (n : Nat) where
  /-- `alt_if.if_mutex`, and where every task is in the functions of the mutexes -/
  mutex : Mutex.State Unit n
  altHdr : Option (AltCall n)
  altBufferSize : UInt32
  processResult : AltProcessResult
  pcs : Fin (n + 1) → Pc n
  /-- the pending events of the TPM task -/
  events : TpmEvents
  /-- the events that the TPM task has taken, and not handled yet -/
  evt : TpmEvents
  tpm : TpmPc n
  /-- the commands that have been executed, with the size of the buffer, and have a response -/
  processed : List (AltCall n × UInt32)
  /-- how many calls there have been -/
  callCount : Nat
  /-- the calls that have returned -/
  returned : List (AltCall n)

def State.init {n : Nat} (events : Fin (n + 1) → UInt32) : State n where
  mutex := Mutex.init Unit events
  altHdr := none
  altBufferSize := 0
  processResult := .waiting
  pcs := fun _ => .outside
  events := .none
  evt := .none
  tpm := .apOff
  processed := []
  callCount := 0
  returned := []

inductive Event (n : Nat) where
  /-- a task calls `tpm_alt_extension` -/
  | call (task : Fin (n + 1)) (bufferSize : UInt32)
  /-- the next step of a task in `tpm_alt_extension` -/
  | run (task : Fin (n + 1)) (now : UInt64) (exclusive : Bool)
  /-- the next step of the TPM task; `responds` says whether there is a response that fits -/
  | tpm (apIsOn responds : Bool)
  /-- `tpm_reset_request` -/
  | resetRequest
  /-- a command from the FIFO -/
  | fifoCommand
  /-- somebody sends events to a task -/
  | send (task : Fin (n + 1)) (bits : UInt32)
  /-- a task that is not in a function of the mutexes reads events of its own -/
  | read (task : Fin (n + 1)) (bits : UInt32)

variable {n : Nat}

namespace State

/-- The task goes on at another place of `tpm_alt_extension`. -/
def goto (task : Fin (n + 1)) (pc : Pc n) (s : State n) : State n :=
  { s with pcs := Function.update s.pcs task pc }

/-- `memset(&alt_if, 0, sizeof(alt_if))` -/
def clearAltIf (s : State n) : State n :=
  { s with
    mutex := { s.mutex with lock := fun _ => 0, waiters := fun _ _ => false }
    altHdr := none
    altBufferSize := 0
    processResult := .waiting }

/-- The next step of a task in `tpm_alt_extension`. -/
def run (task : Fin (n + 1)) (now : UInt64) (exclusive : Bool) (s : State n) : Option (State n) :=
  match s.pcs task with
  | .outside => none
  | .locking c =>
      (s.mutex.runThread task now exclusive).map fun mutex =>
        let s := { s with mutex := mutex }
        if (mutex.threads task).isUser then s.goto task (.clear c) else s
  | .clear c => some (s.clearAltIf.goto task (.setHdr c))
  | .setHdr c => some ({ s with altHdr := some c }.goto task (.setSize c))
  | .setSize c => some ({ s with altBufferSize := c.bufferSize }.goto task (.setWaiting c))
  | .setWaiting c => some ({ s with processResult := .waiting }.goto task (.setEvent c))
  | .setEvent c => some ({ s with events := { s.events with alt := true } }.goto task (.poll c))
  | .poll c =>
      -- `msleep(10)` otherwise
      if s.processResult = .waiting then some s else some (s.goto task (.test c))
  | .test c =>
      if s.processResult = .done then
        some ({ s with
          mutex := (s.mutex.setHeld task () false).goto task (.release ()) }.goto task (.unlocking c))
      else some (s.goto task (.setWaiting c))
  | .unlocking c =>
      (s.mutex.runThread task now exclusive).map fun mutex =>
        let s := { s with mutex := mutex }
        if (mutex.threads task).isUser then
          { s with returned := c :: s.returned }.goto task .outside
        else s

/-- The next step of the TPM task. -/
def tpmStep (apIsOn responds : Bool) (s : State n) : Option (State n) :=
  match s.tpm with
  | .apOff =>
      if apIsOn then some { s with tpm := .firstReset }
      else if s.events = .none then none
      else if s.events.reset ∨ s.events.alt then
        some { s with
          evt := { TpmEvents.none with alt := s.events.alt }
          events := .none
          tpm := .firstReset }
      else some { s with evt := s.events, events := .none }
  | .firstReset => some { s with tpm := .loop }
  | .loop =>
      if s.evt ≠ .none then some { s with tpm := .handle }
      else if s.events = .none then none
      else some { s with evt := s.events, events := .none, tpm := .handle }
  | .handle =>
      if s.evt.reset then some { s with tpm := .resetting }
      else if s.evt.wake then some { s with evt := { s.evt with wake := false }, tpm := .fifo }
      else if s.evt.alt then some { s with evt := { s.evt with alt := false }, tpm := .readHdr }
      else some { s with evt := .none, tpm := .loop }
  | .resetting =>
      if s.evt.alt then some { s with tpm := .interrupt }
      else some { s with evt := .none, tpm := .loop }
  | .interrupt => some { s with processResult := .interrupted, evt := .none, tpm := .loop }
  | .fifo => some { s with tpm := .loop }
  | .readHdr => some { s with tpm := .readSize s.altHdr }
  | .readSize tpmh => some { s with tpm := .processing tpmh s.altBufferSize }
  | .processing tpmh bufferSize =>
      if responds then
        some { s with
          processed := (tpmh.map fun c => (c, bufferSize)).toList ++ s.processed
          tpm := .finish }
      else some { s with tpm := .loop }
  | .finish => some { s with processResult := .done, tpm := .loop }

end State

/-- One step. -/
def step (s : State n) : Event n → Option (State n)
  | .call task bufferSize =>
      match s.pcs task with
      | .outside =>
          if (s.mutex.threads task).isUser then
            some ({ s with
              mutex := s.mutex.goto task (.register ())
              callCount := s.callCount + 1 }.goto task (.locking ⟨task, s.callCount, bufferSize⟩))
          else none
      | _ => none
  | .run task now exclusive => s.run task now exclusive
  | .tpm apIsOn responds => s.tpmStep apIsOn responds
  | .resetRequest => some { s with events := { s.events with reset := true } }
  | .fifoCommand => some { s with events := { s.events with wake := true } }
  | .send task bits =>
      some { s with mutex := s.mutex.setEvents task (s.mutex.events task ||| bits) }
  | .read task bits =>
      if (s.mutex.threads task).isUser then
        some { s with mutex := s.mutex.setEvents task (s.mutex.events task &&& ~~~bits) }
      else none

namespace State

/-- The task is between `mutex_lock` and `mutex_unlock`. -/
def Inside (s : State n) (t : Fin (n + 1)) : Bool :=
  match s.pcs t with
  | .clear _ | .setHdr _ | .setSize _ | .setWaiting _ | .setEvent _ | .poll _ | .test _ => true
  | _ => false

/-- The task has cleared `alt_if`, and has not freed the mutex yet. -/
def Cleared (s : State n) (t : Fin (n + 1)) : Bool :=
  match s.pcs t with
  | .setHdr _ | .setSize _ | .setWaiting _ | .setEvent _ | .poll _ | .test _ => true
  | .unlocking _ => (s.mutex.threads t).owns ()
  | _ => false

/-- The task has taken the mutex, and has not freed it yet. -/
def Holds (s : State n) (t : Fin (n + 1)) : Bool :=
  match s.pcs t with
  | .locking _ => (s.mutex.threads t).owns ()
  | .clear _ => true
  | _ => s.Cleared t

end State

/-- No task looks at the lock of the mutex while another one has cleared it and has not freed the
mutex yet. -/
def attemptsInTurn (s : State n) : Event n → Bool
  | .run task _ _ =>
      match s.mutex.threads task with
      | .attempt _ => ∀ other, s.Cleared other = false
      | _ => true
  | _ => true

end AltExtension
end Tpm
end CrosEc
