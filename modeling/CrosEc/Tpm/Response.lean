import CrosEc.Tpm.Registers

/-!
# The command of a response

An abort takes the state machine back to idle, and does not stop the TPM task: it still takes the
command that it has been woken for, and it still stores the response.  So a host that aborts a
command and sends another one can be given the response of the first, written over the second
(`tpm_response_of_aborted_command`).  While no command is aborted that the task has not served
yet, every response belongs to the current command (`tpm_response_current`).
-/

namespace CrosEc
namespace Tpm

open Lib

variable {s s' : State} {regaddr : BitVec 32} {data : List UInt8}

/-- The host aborts no command that the task has not served yet. -/
def abortsServed (s : State) : Event → Bool
  | .put regaddr data =>
      if s.tpm.resetInProgress = false ∧ aborts regaddr data then ¬ s.Busy else true
  | _ => true

/-- The command that the task has been woken for is the current one, and lies in the FIFO. -/
structure ResponseInv (s : State) : Prop where
  busy : s.Busy →
    s.tpm.state = .executingCmd ∧ s.current = some ⟨s.goCount, s.tpm.received⟩
  running : ∀ command taken, s.task = .running command taken →
    s.tpm.wakeEvent = false ∧ s.current = some taken
  completing : s.tpm.state = .completingCmd → ∃ go, s.current = some go ∧ s.answered = some go

theorem init_responseInv (fwVer : List UInt8) (mem : Nat → UInt8) (rollingReboot : Bool) :
    ResponseInv (State.init fwVer mem rollingReboot) where
  busy := by
    rintro (hwake | htask)
    · change (Device.resetNow rollingReboot _).wakeEvent = true at hwake
      rw [Device.resetNow_wakeEvent] at hwake
      cases hwake
    · exact absurd rfl htask
  running := by rintro command taken ⟨⟩
  completing := by
    intro (h : (Device.resetNow rollingReboot _).state = .completingCmd)
    rw [Device.resetNow_state] at h
    cases h

theorem not_busy_iff : ¬ s.Busy ↔ s.tpm.wakeEvent = false ∧ s.task = .waiting := by
  rw [State.Busy, not_or, Bool.not_eq_true, not_ne_iff]

theorem busy_of_running {command : Command} {taken : Go} (h : s.task = .running command taken) :
    s.Busy := by
  right
  rw [h]
  simp

/-- Outside of `tpm_state_executing_cmd` the task has nothing to serve. -/
theorem ResponseInv.not_busy (h : ResponseInv s) (hstate : s.tpm.state ≠ .executingCmd) :
    ¬ s.Busy := fun hbusy => hstate (h.busy hbusy).1

/-- The task has nothing to serve, and there is no response. -/
theorem ResponseInv.of_not_busy (hbusy : ¬ s.Busy) (hstate : s.tpm.state ≠ .completingCmd) :
    ResponseInv s where
  busy := fun h => absurd h hbusy
  running := fun _ _ h => absurd (busy_of_running h) hbusy
  completing := fun h => absurd h hstate

/-- The host writes a register. -/
theorem ResponseInv.put (h : ResponseInv s) (hb : Bounds s) (hsize : data.length ≤ 64)
    (hallowed : abortsServed s (.put regaddr data) = true) :
    ResponseInv (s.put regaddr data) := by
  rcases put_cases hb regaddr hsize with
    hsame | ⟨hreset, ⟨hstate, -, -, hput⟩ | ⟨tpm, heffect, hgo, hput⟩⟩
  · rwa [hsame]
  · rw [hput]
    have hwaiting := (not_busy_iff.mp (h.not_busy (by simp [hstate]))).2
    refine ⟨fun _ => ⟨rfl, rfl⟩, ?_, by simp⟩
    intro command taken htask
    rw [hwaiting] at htask
    cases htask
  · rw [hput]
    cases heffect with
    | other access sts fwVerIndex _ _ habort =>
        -- Where there is a current command, it has not been aborted.
        have hcurrent : s.tpm.state = .executingCmd ∨ s.tpm.state = .completingCmd →
            (if aborts regaddr data = true then none else s.current) = s.current := by
          intro hstate
          rw [if_neg]
          intro habort'
          simp [habort habort'] at hstate
        refine ⟨?_, ?_, ?_⟩
        · intro hbusy
          obtain ⟨hstate, hcommand⟩ := h.busy hbusy
          exact ⟨hstate, (hcurrent (Or.inl hstate)).trans hcommand⟩
        · intro command taken htask
          obtain ⟨hwake, htaken⟩ := h.running command taken htask
          have hstate := (h.busy (busy_of_running htask)).1
          exact ⟨hwake, (hcurrent (Or.inl hstate)).trans htaken⟩
        · intro hstate
          obtain ⟨go, hcommand, hanswered⟩ := h.completing hstate
          exact ⟨go, (hcurrent (Or.inr hstate)).trans hcommand, hanswered⟩
    | ready sts hstate => exact .of_not_busy (h.not_busy (by simp [hstate])) (by simp)
    | abort access sts habort =>
        simp only [abortsServed, hreset, habort, and_self, if_true, decide_eq_true_eq] at hallowed
        exact .of_not_busy hallowed (by simp)
    | go hstate _ _ =>
        have hexec : s.tpm.state = .executingCmd := hgo rfl
        rw [hstate] at hexec
        cases hexec
    | retry hstate hretry =>
        have hbusy := h.not_busy (by simp [hstate])
        refine ⟨fun h' => absurd h' hbusy, fun _ _ htask => absurd (busy_of_running htask) hbusy, ?_⟩
        intro _
        obtain ⟨go, hcommand, hanswered⟩ := h.completing hstate
        refine ⟨go, ?_, hanswered⟩
        show (if aborts regaddr data = true then none else s.current) = some go
        rw [aborts_of_retries hretry]
        exact hcommand
    | overflow hstate _ _ => exact .of_not_busy (h.not_busy (by simp [hstate])) (by simp)
    | receive sts writeIndex hstate _ _ _ =>
        refine .of_not_busy (h.not_busy ?_) (by simp)
        rcases hstate with hstate | ⟨hstate, -⟩ <;> simp [hstate]

/-- The host reads a register. -/
theorem ResponseInv.get (h : ResponseInv s) (dataSize : BitVec 32) :
    ResponseInv (s.get regaddr dataSize) := by
  have heffect := Device.registerGet_effect s.fwVer regaddr dataSize s.tpm
  unfold State.get
  generalize s.tpm.registerGet s.fwVer regaddr dataSize = result at heffect
  cases heffect with
  | other _ _ _ => exact ⟨h.busy, h.running, h.completing⟩
  | fifo _ _ _ => exact ⟨h.busy, h.running, h.completing⟩

/-- **Step lemma.** -/
theorem step_responseInv (h : ResponseInv s) (hb : Bounds s) {e : Event}
    (hallowed : abortsServed s e = true) (hstep : step s e = some s') : ResponseInv s' := by
  cases e with
  | put regaddr data =>
      simp only [step] at hstep
      split_ifs at hstep with hsize
      exact Option.some.inj hstep ▸ h.put hb hsize.2 hallowed
  | get regaddr dataSize =>
      simp only [step] at hstep
      split_ifs at hstep
      exact Option.some.inj hstep ▸ h.get dataSize
  | resetRequest =>
      simp only [step] at hstep
      split_ifs at hstep
      · exact Option.some.inj hstep ▸ h
      · exact Option.some.inj hstep ▸ ⟨h.busy, h.running, h.completing⟩
  | take mismatched rollingReboot =>
      obtain ⟨hwaiting, rfl | ⟨hwake, rfl⟩⟩ := take_cases hstep
      · refine .of_not_busy ?_ ?_
        · refine not_busy_iff.mpr ⟨?_, hwaiting⟩
          show (Device.resetNow rollingReboot _).wakeEvent = false
          rw [Device.resetNow_wakeEvent]
        · show (Device.resetNow rollingReboot _).state ≠ _
          rw [Device.resetNow_state]
          rintro ⟨⟩
      · obtain ⟨hstate, hcurrent⟩ := h.busy (Or.inl hwake)
        refine ⟨fun _ => ⟨hstate, hcurrent⟩, ?_, h.completing⟩
        intro command taken htask
        simp only [Task.running.injEq] at htask
        obtain ⟨-, rfl⟩ := htask
        exact ⟨rfl, hcurrent⟩
  | store outcome =>
      obtain ⟨command, taken, mem, size, htask, -, ⟨hpos, hsize, rfl⟩ | ⟨-, rfl⟩⟩ := store_cases hstep
      all_goals obtain ⟨hwake, hcurrent⟩ := h.running command taken htask
      · obtain ⟨sts, heq⟩ := complete_eq s.tpm mem hpos hsize
        rw [heq]
        refine ⟨?_, by rintro _ _ ⟨⟩, fun _ => ⟨taken, hcurrent, rfl⟩⟩
        intro hbusy
        exact absurd hbusy (not_busy_iff.mpr ⟨hwake, rfl⟩)
      · refine .of_not_busy (not_busy_iff.mpr ⟨hwake, rfl⟩) ?_
        have hbusy := busy_of_running htask
        show s.tpm.state ≠ .completingCmd
        rw [(h.busy hbusy).1]
        rintro ⟨⟩

/-- **A TPM response belongs to the current command**, in every interleaving in which the host
aborts no command that the task has not served yet: in `tpm_state_completing_cmd` the response is
that of the last `tpm_go` that has been accepted, which has not been aborted since; and where the
task stores the response, the FIFO still holds the bytes of this command. -/
theorem tpm_response_current {fwVer : List UInt8} {mem : Nat → UInt8} {rollingReboot : Bool}
    (h : Reachable step abortsServed (State.init fwVer mem rollingReboot) s) :
    (s.tpm.state = .completingCmd → ∃ go, s.current = some go ∧ s.answered = some go) ∧
      ∀ command taken, s.task = .running command taken →
        s.tpm.state = .executingCmd ∧ s.current = some taken ∧ taken.id = s.goCount ∧
          s.tpm.received = taken.bytes := by
  obtain ⟨-, hinv⟩ : Bounds s ∧ ResponseInv s := by
    refine h.invariant (fun s => Bounds s ∧ ResponseInv s)
      ⟨init_bounds _ _ _, init_responseInv _ _ _⟩ ?_
    intro s e s' hs hallowed hstep
    exact ⟨step_bounds hs.1 hstep, step_responseInv hs.2 hs.1 hallowed hstep⟩
  refine ⟨hinv.completing, ?_⟩
  intro command taken htask
  obtain ⟨hstate, hcurrent⟩ := hinv.busy (busy_of_running htask)
  obtain ⟨-, htaken⟩ := hinv.running command taken htask
  obtain rfl := Option.some.inj (htaken.symm.trans hcurrent)
  exact ⟨hstate, hcurrent, rfl, rfl⟩

/-- A command is executed, and a second one after the first has been aborted with its response. -/
theorem tpm_response_current_run :
    ∃ s, Reachable step abortsServed (State.init [] (fun _ => 0) false) s ∧
      s.tpm.state = .completingCmd ∧ s.goCount = 2 ∧
        ∃ go, s.current = some go ∧ s.answered = some go := by
  obtain ⟨s, hs, hstate, hcount⟩ : ∃ s,
      Reachable step abortsServed (State.init [] (fun _ => 0) false) s ∧
        s.tpm.state = .completingCmd ∧ s.goCount = 2 :=
    Reachable.exists_of_runEvents
      [.put tpmSts [0x40], .put tpmDataFifo [0x80, 1, 0, 0, 0, 10, 0, 0, 1, 0x44],
        .put tpmSts [0x20], .take false false, .store (.executed [1]), .put tpmSts [0x40],
        .put tpmSts [0x40], .put tpmDataFifo [0x80, 1, 0, 0, 0, 10, 0, 0, 1, 0x7e],
        .put tpmSts [0x20], .take false false, .store (.executed [2])]
      (by decide +kernel)
  exact ⟨s, hs, hstate, hcount, (tpm_response_current hs).1 hstate⟩

/-- **The response of a command that has been aborted.** The host aborts a command while it is
executed, and sends another one; the response of the first is written over it. -/
theorem tpm_response_of_aborted_command :
    ∃ s, Reachable step anyEvent (State.init [] (fun _ => 0) false) s ∧
      s.tpm.state = .completingCmd ∧
      s.answered = some ⟨1, [0x80, 1, 0, 0, 0, 10, 0, 0, 1, 0x44]⟩ ∧
      s.current = some ⟨2, [0x80, 1, 0, 0, 0, 10, 0, 0, 1, 0x7e]⟩ ∧
      s.tpm.received = [1, 1] :=
  Reachable.exists_of_runEvents
    [.put tpmSts [0x40], .put tpmDataFifo [0x80, 1, 0, 0, 0, 10, 0, 0, 1, 0x44],
      .put tpmSts [0x20], .take false false, .put tpmSts [0x40], .put tpmSts [0x40],
      .put tpmDataFifo [0x80, 1, 0, 0, 0, 10, 0, 0, 1, 0x7e], .put tpmSts [0x20],
      .store (.executed [1, 1])]
    (by decide +kernel)

end Tpm

/-!
## Complete commands

`expect` in the status register says that bytes of the command are missing; it is set and cleared
by every write to the FIFO.  `tpm_go` does not look at it: it compares the state with the bit, and
is accepted at any time.  So a command can be executed of which only a part has been received, and
a vendor handler is told a length that is larger than the FIFO (`tpm_incomplete_command_executed`).
While the host gives `tpm_go` only when `expect` is clear, and aborts no command that the task has
not served yet, all commands are complete (`tpm_command_complete`).
-/

namespace Tpm

open Lib

variable {s s' : State} {regaddr : BitVec 32} {data : List UInt8}

/-- `tpm_go` is given when no more data is expected, and the host aborts no command that the task
has not served yet. -/
def goesComplete (s : State) : Event → Bool
  | .put regaddr data =>
      abortsServed s (.put regaddr data) ∧
        (regaddr = tpmSts ∧ Device.stsValue data = tpmGo ∧ s.tpm.state = .receivingCmd →
          s.tpm.sts &&& expect = 0#32)
  | _ => true

/-- What is executed, or could be, is complete. -/
structure CompleteInv (s : State) : Prop where
  receiving : s.tpm.state = .receivingCmd → s.tpm.sts.getLsbD 3 = false → s.tpm.Complete
  executing : s.tpm.state = .executingCmd → s.tpm.Complete
  vendor : ∀ p taken, s.task = .running (.vendor p) taken →
    p.inSize.toNat + 12 ≤ s.tpm.fifoWriteIndex.toNat

theorem init_completeInv (fwVer : List UInt8) (mem : Nat → UInt8) (rollingReboot : Bool) :
    CompleteInv (State.init fwVer mem rollingReboot) := by
  have hstate : (State.init fwVer mem rollingReboot).tpm.state = .idle :=
    Device.resetNow_state rollingReboot
  refine ⟨?_, ?_, by rintro p taken ⟨⟩⟩
  all_goals
    intro h
    rw [hstate] at h
    cases h

/-- The task executes nothing, and the state is neither of the two. -/
theorem CompleteInv.of_not_busy (hbusy : ¬ s.Busy) (hreceiving : s.tpm.state ≠ .receivingCmd)
    (hexecuting : s.tpm.state ≠ .executingCmd) : CompleteInv s where
  receiving := fun h => absurd h hreceiving
  executing := fun h => absurd h hexecuting
  vendor := fun _ _ h => absurd (busy_of_running h) hbusy

/-- The host writes a register. -/
theorem CompleteInv.put (h : CompleteInv s) (hr : ResponseInv s) (hb : Bounds s)
    (hsize : data.length ≤ 64) (hallowed : goesComplete s (.put regaddr data) = true) :
    CompleteInv (s.put regaddr data) := by
  simp only [goesComplete, decide_eq_true_eq] at hallowed
  have hvendor : ¬ s.Busy → ∀ p taken, s.task = .running (.vendor p) taken → False :=
    fun hbusy p taken htask => hbusy (busy_of_running htask)
  rcases put_cases hb regaddr hsize with
    hsame | ⟨hreset, ⟨hstate, hreg, hvalue, hput⟩ | ⟨tpm, heffect, hgo, hput⟩⟩
  · rwa [hsame]
  · rw [hput]
    have hbusy := hr.not_busy (by simp [hstate])
    refine ⟨by simp, fun _ => ?_, fun p taken hp => (hvendor hbusy p taken hp).elim⟩
    -- No more data is expected, so the command is complete.
    exact h.receiving hstate ((expect_clear_iff _).mp (hallowed.2 ⟨hreg, hvalue, hstate⟩))
  · rw [hput]
    cases heffect with
    | other access sts fwVerIndex hsts _ _ =>
        refine ⟨?_, h.executing, h.vendor⟩
        intro hstate (hclear : sts.getLsbD 3 = false)
        rw [hsts hstate] at hclear
        exact h.receiving hstate hclear
    | ready sts hstate => exact .of_not_busy (hr.not_busy (by simp [hstate])) (by simp) (by simp)
    | abort access sts habort =>
        simp only [abortsServed, hreset, habort, and_self, if_true, decide_eq_true_eq] at hallowed
        exact .of_not_busy hallowed.1 (by simp) (by simp)
    | go hstate _ _ =>
        have hexec : s.tpm.state = .executingCmd := hgo rfl
        rw [hstate] at hexec
        cases hexec
    | retry hstate _ =>
        exact .of_not_busy (hr.not_busy (by simp [hstate])) (by simp [hstate]) (by simp [hstate])
    | overflow hstate _ _ => exact .of_not_busy (hr.not_busy (by simp [hstate])) (by simp) (by simp)
    | receive sts writeIndex hstate _ _ hexpect =>
        have hbusy : ¬ s.Busy := hr.not_busy (by
          rcases hstate with hstate | ⟨hstate, -⟩ <;> simp [hstate])
        exact ⟨fun _ => hexpect, by simp, fun p taken hp => (hvendor hbusy p taken hp).elim⟩

/-- The host reads a register. -/
theorem CompleteInv.get (h : CompleteInv s) (dataSize : BitVec 32) :
    CompleteInv (s.get regaddr dataSize) := by
  have heffect := Device.registerGet_effect s.fwVer regaddr dataSize s.tpm
  unfold State.get
  generalize s.tpm.registerGet s.fwVer regaddr dataSize = result at heffect
  cases heffect with
  | other _ _ _ => exact ⟨h.receiving, h.executing, h.vendor⟩
  | fifo sts _ hsts =>
      refine ⟨?_, h.executing, h.vendor⟩
      intro hstate (hclear : sts.getLsbD 3 = false)
      exact h.receiving hstate (hsts ▸ hclear)

/-- **Step lemma.** -/
theorem step_completeInv (h : CompleteInv s) (hr : ResponseInv s) (hb : Bounds s) {e : Event}
    (hallowed : goesComplete s e = true) (hstep : step s e = some s') : CompleteInv s' := by
  cases e with
  | put regaddr data =>
      simp only [step] at hstep
      split_ifs at hstep with hsize
      exact Option.some.inj hstep ▸ h.put hr hb hsize.2 hallowed
  | get regaddr dataSize =>
      simp only [step] at hstep
      split_ifs at hstep
      exact Option.some.inj hstep ▸ h.get dataSize
  | resetRequest =>
      simp only [step] at hstep
      split_ifs at hstep
      · exact Option.some.inj hstep ▸ h
      · exact Option.some.inj hstep ▸ ⟨h.receiving, h.executing, h.vendor⟩
  | take mismatched rollingReboot =>
      obtain ⟨hwaiting, rfl | ⟨hwake, rfl⟩⟩ := take_cases hstep
      · have hstate : ∀ tpm : Device, (tpm.resetNow rollingReboot).state = .idle := fun _ =>
          Device.resetNow_state rollingReboot
        refine .of_not_busy (not_busy_iff.mpr ⟨?_, hwaiting⟩) ?_ ?_
        · exact Device.resetNow_wakeEvent rollingReboot
        all_goals
          show (Device.resetNow rollingReboot _).state ≠ _
          rw [hstate]
          rintro ⟨⟩
      · refine ⟨h.receiving, h.executing, ?_⟩
        rintro p taken htask
        simp only [Task.running.injEq] at htask
        have hcomplete := h.executing (hr.busy (Or.inl hwake)).1
        have hin := (takeCommand_vendor htask.1).2
        show p.inSize.toNat + 12 ≤ s.tpm.fifoWriteIndex.toNat
        rw [hin]
        exact hcomplete.2
  | store outcome =>
      obtain ⟨command, taken, mem, size, htask, hrespond, ⟨hpos, hsize, rfl⟩ | ⟨hsize, rfl⟩⟩ :=
        store_cases hstep
      · obtain ⟨sts, heq⟩ := complete_eq s.tpm mem hpos hsize
        rw [heq]
        exact ⟨by rintro ⟨⟩, by rintro ⟨⟩, by rintro _ _ ⟨⟩⟩
      · have hmem : mem = s.tpm.dataFifo :=
          respond_unannounced (fun p hp => hb.room p taken (hp ▸ htask)) hrespond hsize
        subst hmem
        exact ⟨h.receiving, h.executing, by rintro _ _ ⟨⟩⟩

/-- **A TPM command is executed only when it has been received completely**, in every interleaving
in which `tpm_go` is given when no more data is expected and the host aborts no command that the
task has not served yet: in `tpm_state_executing_cmd` the header has been received and as many
bytes as it says, and a vendor handler is told no more bytes than have been received. -/
theorem tpm_command_complete {fwVer : List UInt8} {mem : Nat → UInt8} {rollingReboot : Bool}
    (h : Reachable step goesComplete (State.init fwVer mem rollingReboot) s) :
    (s.tpm.state = .executingCmd →
      6 ≤ s.tpm.fifoWriteIndex ∧ s.tpm.packetSize ≤ s.tpm.fifoWriteIndex) ∧
      ∀ p taken, s.task = .running (.vendor p) taken →
        sizeofCmdHeader.toNat + p.inSize.toNat ≤ s.tpm.fifoWriteIndex.toNat ∧
          s.tpm.fifoWriteIndex.toNat ≤ sizeofDataFifo.toNat := by
  obtain ⟨hb, -, hinv⟩ : Bounds s ∧ ResponseInv s ∧ CompleteInv s := by
    refine h.invariant (fun s => Bounds s ∧ ResponseInv s ∧ CompleteInv s)
      ⟨init_bounds _ _ _, init_responseInv _ _ _, init_completeInv _ _ _⟩ ?_
    intro s e s' hs hallowed hstep
    have haborts : abortsServed s e = true := by
      cases e with
      | put regaddr data =>
          simp only [goesComplete, decide_eq_true_eq] at hallowed
          exact hallowed.1
      | _ => rfl
    exact ⟨step_bounds hs.1 hstep, step_responseInv hs.2.1 hs.1 haborts hstep,
      step_completeInv hs.2.2 hs.2.1 hs.1 hallowed hstep⟩
  refine ⟨hinv.executing, ?_⟩
  intro p taken htask
  refine ⟨?_, hb.index_le⟩
  rw [Nat.add_comm]
  exact hinv.vendor p taken htask

/-- A vendor command without data is passed to its handler. -/
theorem tpm_command_complete_run :
    ∃ s, Reachable step goesComplete (State.init [] (fun _ => 0) false) s ∧
      ∃ p taken, s.task = .running (.vendor p) taken ∧
        sizeofCmdHeader.toNat + p.inSize.toNat ≤ s.tpm.fifoWriteIndex.toNat := by
  obtain ⟨s, hs, htask⟩ : ∃ s,
      Reachable step goesComplete (State.init [] (fun _ => 0) false) s ∧
        s.task = .running (.vendor ⟨0x17, 0, 2036, 0⟩)
          ⟨1, [0x80, 1, 0, 0, 0, 12, 0x20, 0, 0, 0, 0, 0x17]⟩ :=
    Reachable.exists_of_runEvents
      [.put tpmSts [0x40], .put tpmDataFifo [0x80, 1, 0, 0, 0, 12],
        .put tpmDataFifo [0x20, 0, 0, 0, 0, 0x17], .put tpmSts [0x20], .take false false]
      (by decide +kernel)
  exact ⟨s, hs, _, _, htask, ((tpm_command_complete hs).2 _ _ htask).1⟩

/-- **An incomplete command is executed.** Its header says 4096 bytes, and twelve have been
received. -/
theorem tpm_incomplete_command_executed :
    ∃ s, Reachable step anyEvent (State.init [] (fun _ => 0) false) s ∧
      s.tpm.state = .executingCmd ∧ s.tpm.fifoWriteIndex = 12 ∧ s.tpm.packetSize = 4096 ∧
      s.task = .running (.vendor ⟨0x17, 4084, 2036, 0⟩)
        ⟨1, [0x80, 1, 0, 0, 0x10, 0, 0x20, 0, 0, 0, 0, 0x17]⟩ :=
  Reachable.exists_of_runEvents
    [.put tpmSts [0x40], .put tpmDataFifo [0x80, 1, 0, 0, 0x10, 0, 0x20, 0, 0, 0, 0, 0x17],
      .put tpmSts [0x20], .take false false]
    (by decide +kernel)

end Tpm
end CrosEc
