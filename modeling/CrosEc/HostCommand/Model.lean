import CrosEc.Common
import CrosEc.Lib.Interleaving

/-!
# `common/host_command.c`: slow commands

With `CONFIG_HOST_COMMAND_STATUS`.  The host sends a command in a packet; the interrupt of the
driver fills in `args0` and wakes the task of the host commands, which calls the handler of the
command and sends the response.  A handler that is slow sends `EC_RES_IN_PROGRESS` itself and
goes on; the result with which it returns is saved, and the host asks for it with
`EC_CMD_RESEND_RESPONSE`.  Meanwhile the host may ask for the status with
`EC_CMD_GET_COMMS_STATUS`, which is answered in the interrupt, in the same `args0`.

Handlers of other commands are arbitrary: the event that starts one says what it does.  What a
handler sees of a response that is sent is up to the driver.  Two variables are not the
firmware's: `owed` is what the host has to be told at the next request, and `resends` lists the
requests with what they were told.
-/

namespace CrosEc
namespace HostCommand

/-! ## `include/ec_commands.h` -/

def ecResSuccess : UInt16 := 0
def ecResInvalidCommand : UInt16 := 1
def ecResInvalidVersion : UInt16 := 6
def ecResInProgress : UInt16 := 8
def ecResUnavailable : UInt16 := 9

def ecCmdGetCommsStatus : UInt16 := 0x0009
def ecCmdReboot : UInt16 := 0x00d1
def ecCmdResendResponse : UInt16 := 0x00db

/-- `sizeof(struct ec_response_get_comms_status)` -/
def commsStatusSize : UInt16 := 4

/-- `EC_VER_MASK` -/
def ecVerMask (version : UInt8) : UInt32 := 1 <<< version.toUInt32

/-! ## The variables -/

/-- `struct host_cmd_handler_args`, as far as it is used here. -/
structure Args where
  command : UInt16
  version : UInt8
  responseSize : UInt16
  result : UInt16

/-- What a handler does: the response that it sends before it returns, what it returns, and
the size of the response data, if it sets it. -/
structure Handling where
  early : Option UInt16
  ret : UInt16
  size : Option UInt16

/-- A command that the task has begun with. -/
inductive Origin where
  | resend (owed : Option UInt16) (pending : Bool)
  /-- A handler that has sent `EC_RES_IN_PROGRESS`, and whether it produces data. -/
  | slow (data : Bool)
  | other

/-- Where the task is. -/
inductive TaskPc where
  | waiting
  /-- In the handler, before it sends a response. -/
  | handling (handling : Handling)
  /-- In the handler, after it has sent a response if it does so. -/
  | finishing (handling : Handling) (slow : Bool)
  /-- `host_command_process` has returned. -/
  | responding (rv : UInt16) (origin : Origin)

/-- A request to resend the response: what was owed before, whether a command was pending,
and the result that the host was told, if it was told any. -/
structure Resend where
  owed : Option UInt16
  pending : Bool
  delivered : Option UInt16

structure State where
  args0 : Args
  /-- `pending_args` points to `args0`. -/
  pendingArgs : Bool
  /-- `TASK_EVENT_CMD_PENDING` -/
  cmdPending : Bool
  commandPending : Bool
  savedResult : UInt8
  task : TaskPc
  owed : Option UInt16
  resends : List Resend

/-- What the board and its driver decide: the commands with their version masks, besides the
two of this file, and what `send_response` leaves in `args`. -/
structure Config where
  commands : UInt16 → Option UInt32
  afterSend : Args → Args

/-- Before the first command. -/
def State.init : State where
  args0 := ⟨0, 0, 0, 0⟩
  pendingArgs := false
  cmdPending := false
  commandPending := false
  savedResult := ecResUnavailable.toUInt8
  task := .waiting
  owed := none
  resends := []

variable (cfg : Config)

/-! ## Sending a response -/

namespace State

/-- `args->send_response(args)` -/
def sendResponse (s : State) : State := { s with args0 := cfg.afterSend s.args0 }

/-- `host_send_response`, and whether the host gets the response. -/
def hostSendResponse (inInterruptContext : Bool) (s : State) : State × Bool :=
  if !inInterruptContext then
    if s.commandPending then
      -- This must be the completion of the pending command.
      let savedResult :=
        if s.args0.responseSize ≠ 0 then ecResUnavailable.toUInt8 else s.args0.result.toUInt8
      ({ s with savedResult := savedResult, commandPending := false }, false)
    else if s.args0.result = ecResInProgress then
      ({ s with commandPending := true }.sendResponse cfg, true)
    else
      (s.sendResponse cfg, true)
  else
    (s.sendResponse cfg, true)

/-- `args->result = result` -/
def setResult (result : UInt16) (s : State) : State :=
  { s with args0 := { s.args0 with result := result } }

/-- `args->response_size = size` -/
def setSize (size : UInt16) (s : State) : State :=
  { s with args0 := { s.args0 with responseSize := size } }

/-! ## `host_command_process` -/

/-- `find_host_command`: the version mask of the command. -/
def findHostCommand (command : UInt16) : Option UInt32 :=
  if command = ecCmdResendResponse ∨ command = ecCmdGetCommsStatus then some (ecVerMask 0)
  else cfg.commands command

/-- `host_command_get_comms_status` -/
def hostCommandGetCommsStatus (s : State) : State × UInt16 :=
  (s.setSize commsStatusSize, ecResSuccess)

/-- `host_command_resend_response` -/
def hostCommandResendResponse (s : State) : State × UInt16 :=
  ({ (s.setResult s.savedResult.toUInt16).setSize 0 with
      savedResult := ecResUnavailable.toUInt8 }, ecResSuccess)

/-- `host_command_process` in the task, up to the handler's first step.  `handling` is what
the handler does if it is not one of this file. -/
def hostCommandProcess (handling : Handling) (s : State) : State :=
  match findHostCommand cfg s.args0.command with
  | none => { s with task := .responding ecResInvalidCommand .other }
  | some versionMask =>
      if ecVerMask s.args0.version &&& versionMask = 0 then
        { s with task := .responding ecResInvalidVersion .other }
      else if s.args0.command = ecCmdResendResponse then
        let (s', rv) := s.hostCommandResendResponse
        { s' with task := .responding rv (.resend s.owed s.commandPending), owed := none }
      else if s.args0.command = ecCmdGetCommsStatus then
        let (s', rv) := s.hostCommandGetCommsStatus
        { s' with task := .responding rv .other }
      else
        { s with task := .handling handling }

/-! ## `host_command_task` -/

/-- A round of the loop begins: `task_wait_event` has returned. -/
def taskWake (handling : Handling) (s : State) : Option State :=
  match s.task with
  | .waiting =>
      if s.cmdPending then
        let s := { s with cmdPending := false }
        some (if s.pendingArgs then s.hostCommandProcess cfg handling else s)
      else
        none
  | _ => none

/-- What the host has to be told after a slow command has completed. -/
def complete (rv : UInt16) (data : Bool) : Option UInt16 := if data then none else some rv

/-- The next step of the task in a handler or after it. -/
def taskRun (s : State) : Option State :=
  match s.task with
  | .waiting => none
  | .handling handling =>
      match handling.early with
      | none => some { s with task := .finishing handling false }
      | some early =>
          let (s, sent) := (s.setResult early).hostSendResponse cfg false
          some { s with task := .finishing handling (sent && early = ecResInProgress) }
  | .finishing handling slow =>
      let origin := if slow then .slow (handling.size.getD 0 ≠ 0) else .other
      let s := match handling.size with
        | some size => s.setSize size
        | none => s
      some { s with task := .responding handling.ret origin }
  | .responding rv origin =>
      let (s, sent) := (s.setResult rv).hostSendResponse cfg false
      let s := { s with task := .waiting }
      match origin with
      | .resend owed pending =>
          let delivered := if sent then some rv else none
          some { s with resends := ⟨owed, pending, delivered⟩ :: s.resends }
      | .slow data => some { s with owed := complete rv data }
      | .other => some s

/-! ## The interrupt -/

/-- `host_packet_receive` of a good packet, and `host_command_received`.  A command to reboot
does not return. -/
def receive (command : UInt16) (version : UInt8) (s : State) : Option State :=
  let s := { s with args0 := ⟨command, version, 0, ecResSuccess⟩ }
  if command = ecCmdReboot then
    none
  else if command = ecCmdGetCommsStatus then
    let (s, rv) :=
      if ecVerMask version &&& ecVerMask 0 = 0 then (s, ecResInvalidVersion)
      else s.hostCommandGetCommsStatus
    some ((s.setResult rv).hostSendResponse cfg true).1
  else
    some { s with pendingArgs := true, cmdPending := true }

/-- `host_packet_receive` of a bad packet. -/
def receiveBad (result : UInt16) (s : State) : State := (s.setResult result).sendResponse cfg

end State

/-! ## Interleavings -/

inductive Event where
  | receive (command : UInt16) (version : UInt8)
  | receiveBad (result : UInt16)
  | wake (handling : Handling)
  | run

/-- One step of the system. -/
def step (s : State) : Event → Option State
  | .receive command version => s.receive cfg command version
  | .receiveBad result => some (s.receiveBad cfg result)
  | .wake handling => s.taskWake cfg handling
  | .run => s.taskRun cfg

end HostCommand

/-!
## What the host is told about a slow command

`host_command_resend_response` puts the saved result into `args->result` and returns
`EC_SUCCESS`; `host_command_task` then stores what it returned into the same field.  So every
request to resend the response is answered with `EC_RES_SUCCESS`, or not at all while a command
is marked as pending, whatever the saved result is.
-/

namespace HostCommand

/-- The host is told what it has to be told: the result of the slow command that has
completed without data and has not been reported, or else that there is none. -/
def Resend.Right (x : Resend) : Prop := x.delivered = some (x.owed.getD ecResUnavailable)

instance (x : Resend) : Decidable x.Right := inferInstanceAs (Decidable (_ = _))

variable {cfg : Config} {s s' : State}

namespace State

/-- In the task, a response is sent unless a command is pending. -/
theorem hostSendResponse_snd (cfg : Config) (s : State) :
    (s.hostSendResponse cfg false).2 = !s.commandPending := by
  unfold hostSendResponse
  cases hpending : s.commandPending with
  | true => rfl
  | false =>
      simp only [Bool.not_false, Bool.false_eq_true, if_false, if_true]
      split <;> rfl

/-- **Frame.** Sending a response moves no task. -/
theorem hostSendResponse_frame (cfg : Config) (irq : Bool) (s : State) :
    (s.hostSendResponse cfg irq).1.task = s.task ∧
      (s.hostSendResponse cfg irq).1.resends = s.resends := by
  unfold hostSendResponse
  split_ifs <;> exact ⟨rfl, rfl⟩

/-- A request to resend the response is answered with `EC_RES_SUCCESS` or not at all. -/
structure Inv (s : State) : Prop where
  responding : ∀ {rv owed pending}, s.task = .responding rv (.resend owed pending) →
    rv = ecResSuccess ∧ s.commandPending = pending
  resends : ∀ x ∈ s.resends, x.delivered = if x.pending then none else some ecResSuccess

/-- An interrupt leaves the task where it is. -/
theorem Inv.interrupt (h : s.Inv)
    (hframe : s' = { s with
      args0 := s'.args0, pendingArgs := s'.pendingArgs, cmdPending := s'.cmdPending }) :
    s'.Inv := by
  rw [hframe]
  exact ⟨h.responding, h.resends⟩

/-- The task goes to a place that is not the response to such a request. -/
theorem Inv.goto (h : s.Inv) (hresends : s'.resends = s.resends)
    (htask : ∀ rv owed pending, s'.task ≠ .responding rv (.resend owed pending)) : s'.Inv :=
  ⟨fun heq => absurd heq (htask _ _ _), hresends ▸ h.resends⟩

/-- **Step lemma.** The task begins with a command. -/
theorem Inv.hostCommandProcess (h : s.Inv) (handling : Handling) :
    (s.hostCommandProcess cfg handling).Inv := by
  unfold State.hostCommandProcess
  split
  · exact h.goto rfl (by simp)
  · split_ifs
    · exact h.goto rfl (by simp)
    · -- The handler returns `EC_SUCCESS`, and nothing is pending that was not before.
      refine ⟨?_, h.resends⟩
      rintro rv owed pending ⟨⟩
      exact ⟨rfl, rfl⟩
    · exact h.goto rfl (by simp [hostCommandGetCommsStatus])
    · exact h.goto rfl (by simp)

/-- **Step lemma.** The task goes on. -/
theorem Inv.taskRun (h : s.Inv) (hs : s.taskRun cfg = some s') : s'.Inv := by
  unfold State.taskRun at hs
  split at hs
  case h_1 => cases hs
  case h_2 handling htask =>
    split at hs
    · cases hs
      exact h.goto rfl (by simp)
    · rename_i early hearly
      cases hs
      exact h.goto (hostSendResponse_frame cfg false _).2 (by simp)
  case h_3 handling slow htask =>
    cases hs
    refine h.goto ?_ ?_
    · cases handling.size <;> rfl
    · cases slow <;> simp
  case h_4 rv origin htask =>
    have hresends := (hostSendResponse_frame cfg false (s.setResult rv)).2
    cases origin with
    | resend owed pending =>
        simp only [Option.some.injEq] at hs
        subst hs
        obtain ⟨rfl, hpending⟩ := h.responding htask
        refine ⟨by rintro _ _ _ ⟨⟩, ?_⟩
        intro x hx
        rcases List.mem_cons.mp hx with rfl | hx
        · simp only [hostSendResponse_snd]
          rw [← hpending]
          show (if !s.commandPending then some ecResSuccess else none) =
            if s.commandPending then none else some ecResSuccess
          cases s.commandPending <;> rfl
        · rw [hresends] at hx
          exact h.resends x hx
    | slow data =>
        cases hs
        exact h.goto hresends (by simp)
    | other =>
        cases hs
        exact h.goto hresends (by simp)

end State

open State

/-- **Step lemma.** -/
theorem step_inv {e : Event} (h : s.Inv) (hs : step cfg s e = some s') : s'.Inv := by
  cases e with
  | receive command version =>
      simp only [step, receive] at hs
      split_ifs at hs <;> cases hs
      · exact h.interrupt rfl
      · exact h.interrupt rfl
      · exact h.interrupt rfl
  | receiveBad result =>
      cases hs
      exact h.interrupt rfl
  | wake handling =>
      simp only [step, taskWake] at hs
      split at hs
      · split_ifs at hs
        · cases hs
          exact Inv.hostCommandProcess (h.interrupt rfl) handling
        · cases hs
          exact h.interrupt rfl
      · cases hs
  | run => exact h.taskRun hs

/-- **Run lemma.** -/
theorem reachable_inv (h : Lib.Reachable (step cfg) Lib.anyEvent State.init s) : s.Inv := by
  refine h.invariant State.Inv ⟨?_, ?_⟩ fun _ _ _ hinv _ hs => step_inv hinv hs
  · rintro rv owed pending ⟨⟩
  · rintro x ⟨⟩

/-- **What a slow command reports.**  In every run, for every request to resend the response:
the host is told the result that is owed to it, or that there is none, if and only if the slow
command completed with `EC_RES_SUCCESS` and without data, its result has not been reported,
and no command is marked as pending. -/
theorem resend_right_iff (h : Lib.Reachable (step cfg) Lib.anyEvent State.init s) {x : Resend}
    (hx : x ∈ s.resends) : x.Right ↔ x.owed = some ecResSuccess ∧ x.pending = false := by
  have hdelivered := (reachable_inv h).resends x hx
  unfold Resend.Right
  rw [hdelivered]
  cases hpending : x.pending with
  | true => simp
  | false =>
      cases howed : x.owed with
      | none => simp [ecResSuccess, ecResUnavailable]
      | some r => simp [eq_comm]

/-- A board with the command to erase flash, and packets as `host_packet_respond` leaves
them. -/
def eraseConfig : Config where
  commands := fun command => if command = 0x0013 then some (ecVerMask 0) else none
  afterSend := fun args =>
    if args.result ≠ ecResSuccess then { args with responseSize := 0 } else args

/-- The host erases flash, which takes a while and has the result `ret`, asks for the status
meanwhile, and asks for the result twice. -/
def eraseRun (ret : UInt16) : List Event :=
  [.receive 0x0013 0, .wake ⟨some ecResInProgress, ret, none⟩, .run,
    .receive ecCmdGetCommsStatus 0, .run, .run,
    .receive ecCmdResendResponse 0, .wake ⟨none, 0, none⟩, .run,
    .receive ecCmdResendResponse 0, .wake ⟨none, 0, none⟩, .run]

theorem resend_right_iff_erased :
    ∃ s, Lib.Reachable (step eraseConfig) Lib.anyEvent State.init s ∧
      ∃ x ∈ s.resends, x.owed = some ecResSuccess ∧ x.Right := by
  obtain ⟨s, hreach, x, hx, hcond⟩ :
      ∃ s, Lib.Reachable (step eraseConfig) Lib.anyEvent State.init s ∧
        ∃ x ∈ s.resends, x.owed = some ecResSuccess ∧ x.pending = false :=
    Lib.Reachable.exists_of_runEvents (eraseRun ecResSuccess) (by decide +kernel)
  exact ⟨s, hreach, x, hx, hcond.1, (resend_right_iff hreach hx).mpr hcond⟩

/-- The erase fails with `EC_RES_ERROR`; both requests are answered with `EC_RES_SUCCESS`,
though the result is the error at first and unavailable afterwards. -/
theorem not_resend_right :
    ∃ s, Lib.Reachable (step eraseConfig) Lib.anyEvent State.init s ∧
      s.resends.map (fun x => (x.owed, x.delivered)) =
        [(none, some ecResSuccess), (some 2, some ecResSuccess)] ∧
      ∀ x ∈ s.resends, ¬ x.Right :=
  Lib.Reachable.exists_of_runEvents (eraseRun 2) (by decide +kernel)

end HostCommand
end CrosEc
