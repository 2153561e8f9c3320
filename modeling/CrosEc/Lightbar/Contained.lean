import CrosEc.Lightbar.Instructions
import CrosEc.Lib.Interleaving

/-!
# What a program can do

The values that `sequence_PROGRAM` returns are taken for sequences by `lightbar_task`: the value of
an error is that of `LIGHTBAR_S0`, and `PROGRAM_FINISHED` is `LIGHTBAR_S3`.  A program that ends by
itself therefore goes on with the sequence before it only if that is this one.
-/

namespace CrosEc
namespace Lightbar

open Lib

/-! ## The task -/

/-- `lightbar_task` after its sequences have returned these values, the last one first, and the
sequences that they belong to. -/
def Task.run : List Nat → Task × List Sequence
  | [] => (.init, [])
  | nextSeq :: returned =>
      let (st, shown) := Task.run returned
      (st.next nextSeq, st.curSeq :: shown)

/-- `st.prev_seq` is the last normal sequence. -/
theorem Task.prevSeq_run (returned : List Nat)
    (h : (Task.run returned).1.curSeq.isNormal = false) :
    (Task.run returned).2.find? Sequence.isNormal = some (Task.run returned).1.prevSeq := by
  induction returned with
  | nil => simp [Task.run, Task.init, Sequence.isNormal, Sequence.code] at h
  | cons nextSeq returned ih =>
      rw [Task.run] at h ⊢
      generalize Task.run returned = r at h ih ⊢
      obtain ⟨⟨cur, prev⟩, shown⟩ := r
      dsimp only at h ih ⊢
      rw [List.find?_cons]
      by_cases hnormal : cur.isNormal = true
      · rw [hnormal]
        dsimp only
        by_cases hzero : nextSeq = 0
        · -- a normal sequence gives way to a normal one
          subst hzero
          cases cur <;> simp [Task.next, Sequence.isNormal, Sequence.code] at h hnormal
        · by_cases hsame : cur.code = nextSeq
          · rw [Task.next, if_pos hzero, if_neg (not_not.mpr hsame), hnormal] at h
            cases h
          · rw [Task.next, if_pos hzero, if_pos hsame, if_pos hnormal]
      · have hnormal : cur.isNormal = false := by simpa using hnormal
        rw [hnormal]
        dsimp only
        rw [ih hnormal]
        by_cases hzero : nextSeq = 0
        · subst hzero
          cases cur <;> simp [Task.next, Sequence.isNormal, Sequence.code] at hnormal ⊢
        · by_cases hsame : cur.code = nextSeq
          · rw [Task.next, if_pos hzero, if_neg (not_not.mpr hsame)]
          · rw [Task.next, if_pos hzero, if_pos hsame, hnormal]
            rfl

theorem Sequence.ofCode_code (seq : Sequence) : Sequence.ofCode seq.code = seq := by
  cases seq <;> rfl

/-- A message that has interrupted the program is the next sequence. -/
theorem Task.next_message {st : Task} (hcur : st.curSeq = .program) {msg : Message}
    (hmsg : msg.val ≠ .program) : (st.next msg.val.code).curSeq = msg.val := by
  have hcode : msg.val.code ≠ 0 := by
    intro h
    have := Sequence.ofCode_code msg.val
    rw [h] at this
    exact msg.2 this.symm
  have hne : st.curSeq.code ≠ msg.val.code := by
    intro h
    apply hmsg
    rw [← Sequence.ofCode_code msg.val, ← h, Sequence.ofCode_code, hcur]
  rw [Task.next, if_pos hcode, if_pos hne]
  exact Sequence.ofCode_code msg.val

theorem Task.next_error {st : Task} (hcur : st.curSeq = .program) :
    (st.next ecResInvalidParam).curSeq = .s0 := by
  rw [Task.next, hcur]
  rfl

theorem Task.next_finished {st : Task} (hcur : st.curSeq = .program) :
    (st.next programFinished).curSeq = .s3 := by
  rw [Task.next, hcur]
  rfl

/-! ## Steps of the program -/

namespace Machine

variable {st : Task} {m m' : Machine}

/-- If the program has returned, then the brightness is the saved one, and the task goes on with
the message that interrupted it or else with the sequence before. -/
def EndsWell (st : Task) (m : Machine) : Prop :=
  ∀ rc interruptedBy, m.mode = .returned rc interruptedBy →
    m.leds.brightness = m.savedBrightness ∧
      (st.next rc).curSeq = (interruptedBy.map Subtype.val).getD st.prevSeq

/-- A message ends the next wait. -/
def Interrupted (m : Machine) : Prop := ∃ msg ∈ m.pendingMsg, msg.val ≠ .program

/-- What the next instruction must be like.  Its bytes and its colour are inside; it is an error
only if the program has followed `S0`, and `HALT` only if it has followed `S3`; at the end of the
program the brightness is as it was. -/
def FetchFits (st : Task) (m : Machine) : Prop :=
  if m.curProg.size ≤ m.pc then st.prevSeq = .s0 ∧ m.leds.brightness = m.savedBrightness
  else
    m.pc.toNat < ecLbProgLen ∧
      if maxOpcode ≤ m.nextByte.toNat then st.prevSeq = .s0
      else
        m.fetched.OpFits m.nextByte.toNat ∧
          (m.fetched.Malformed m.nextByte.toNat → st.prevSeq = .s0) ∧
          (m.nextByte.toNat = 16 → st.prevSeq = .s3)

/-- What a step must be like.  Between two instructions the program is interrupted only with the
brightness as it was. -/
def StepFits (st : Task) (m : Machine) : Event → Prop
  | .host _ => True
  | .task _ =>
      match m.mode with
      | .fetch => m.FetchFits st
      | .yield => m.Interrupted → m.leds.brightness = m.savedBrightness
      | _ => True

theorem endsWell_of_running (h : ∀ rc msg, m.mode ≠ .returned rc msg) : m.EndsWell st :=
  fun rc msg hmode => absurd hmode (h rc msg)

theorem endsWell_iff {rc : Nat} {interruptedBy : Option Message}
    (hmode : m.mode = .returned rc interruptedBy) :
    m.EndsWell st ↔ m.leds.brightness = m.savedBrightness ∧
      (st.next rc).curSeq = (interruptedBy.map Subtype.val).getD st.prevSeq := by
  constructor
  · exact fun h => h rc interruptedBy hmode
  · intro h rc' msg' hmode'
    obtain ⟨rfl, rfl⟩ := Mode.returned.inj (hmode.symm.trans hmode')
    exact h

theorem restore_logs (m : Machine) (rc : Nat) (msg : Option Message) :
    Logs True m (m.restore rc msg) := Logs.of_eq rfl rfl rfl

/-- With the brightness restored, only the next sequence counts. -/
theorem restore_endsWell_iff {rc : Nat} {interruptedBy : Option Message} :
    (m.restore rc interruptedBy).EndsWell st ↔
      (st.next rc).curSeq = (interruptedBy.map Subtype.val).getD st.prevSeq := by
  rw [endsWell_iff rfl]
  exact and_iff_right rfl

/-- A step with its accesses, and with its end. -/
def StepSpec (st : Task) (fits : Prop) (m m' : Machine) : Prop :=
  ∃ ok, Logs ok m m' ∧ (ok ∧ m'.EndsWell st ↔ fits)

theorem StepSpec.of_running {ok : Prop} (h : Logs ok m m')
    (hrunning : ∀ rc msg, m'.mode ≠ .returned rc msg) : StepSpec st ok m m' :=
  ⟨ok, h, and_iff_left (endsWell_of_running hrunning)⟩

theorem fetch_spec (hcur : st.curSeq = .program) (m : Machine) (battery : Option Battery) :
    StepSpec st (m.FetchFits st) m (m.fetch battery) := by
  unfold FetchFits
  by_cases hend : m.curProg.size ≤ m.pc
  · rw [if_pos hend, fetch, decode8_of_missing hend]
    refine ⟨True, Logs.of_eq rfl rfl rfl, ?_⟩
    rw [true_and, endsWell_iff rfl, Task.next_error hcur, and_comm]
    exact and_congr_left' eq_comm
  have hlt : m.pc.toNat < m.curProg.size.toNat := by
    rw [BitVec.le_def] at hend
    omega
  have hbyte : m.curProg.data m.pc.toNat = m.nextByte := rfl
  rw [if_neg hend, fetch, decode8_of_lt hlt]
  dsimp only
  rw [hbyte]
  by_cases hopcode : maxOpcode ≤ m.nextByte.toNat
  · rw [if_pos hopcode, if_pos hopcode]
    refine ⟨_, m.fetched_logs.then_quiet (restore_logs _ _ _), ?_⟩
    rw [restore_endsWell_iff, Task.next_error hcur]
    exact and_congr_right' eq_comm
  rw [if_neg hopcode, if_neg hopcode]
  have hspec := m.fetched.dispatch_spec (not_le.mp hopcode) battery
  cases hexec : m.fetched.dispatch m.nextByte.toNat battery with
  | success m₁ =>
      rw [hexec] at hspec
      obtain ⟨hlogs, hformed, hrunning⟩ := hspec
      have hall : Logs _ m { m₁ with mode := .yield } :=
        (m.fetched_logs.trans hlogs).then_quiet (Logs.of_eq rfl rfl rfl)
      refine ⟨_, hall, ?_⟩
      rw [and_iff_left (endsWell_of_running (by simp))]
      apply and_congr_right'
      exact ⟨fun h => ⟨h, fun hbad => absurd hbad hformed, fun hhalt => absurd hhalt hrunning⟩,
        fun h => h.1⟩
  | enters mode m₁ =>
      rw [hexec] at hspec
      obtain ⟨hlogs, hformed, hrunning, hne⟩ := hspec
      have hall : Logs _ m { m₁ with mode := mode } :=
        (m.fetched_logs.trans hlogs).then_quiet (Logs.of_eq rfl rfl rfl)
      refine ⟨_, hall, ?_⟩
      rw [and_iff_left (endsWell_of_running hne)]
      apply and_congr_right'
      exact ⟨fun h => ⟨h, fun hbad => absurd hbad hformed, fun hhalt => absurd hhalt hrunning⟩,
        fun h => h.1⟩
  | code rc m₁ =>
      rw [hexec] at hspec
      obtain ⟨hlogs, hcode⟩ := hspec
      refine ⟨_, (m.fetched_logs.trans hlogs).then_quiet (restore_logs _ _ _), ?_⟩
      rw [restore_endsWell_iff, and_assoc]
      apply and_congr_right'
      apply and_congr_right'
      rcases hcode with ⟨hbad, hrunning, rfl⟩ | ⟨hhalt, hformed, rfl⟩
      · rw [Task.next_error hcur]
        exact ⟨fun h => ⟨fun _ => h.symm, fun hhalt => absurd hhalt hrunning⟩,
          fun h => (h.1 hbad).symm⟩
      · rw [Task.next_finished hcur]
        exact ⟨fun h => ⟨fun hbad => absurd hbad hformed, fun _ => h.symm⟩,
          fun h => (h.2 hhalt).symm⟩

/-- The outcome of a wait. -/
theorem waitOrRet_spec (m : Machine) :
    ∃ r m', m.waitOrRet = (r, m') ∧ Logs True m m' ∧
      m'.leds = m.leds ∧ (∀ msg, r = some msg → msg.val ≠ .program ∧ m.Interrupted) ∧
      (r = none → ¬ m.Interrupted) := by
  unfold waitOrRet Interrupted
  cases hpending : m.pendingMsg with
  | none => exact ⟨none, m, rfl, Logs.refl m, rfl, by simp, by simp⟩
  | some msg =>
      by_cases hprogram : msg.val ≠ .program
      · refine ⟨some msg, _, if_pos hprogram, Logs.of_eq rfl rfl rfl, rfl, ?_, by simp⟩
        intro msg' hmsg'
        obtain rfl := Option.some.inj hmsg'
        exact ⟨hprogram, msg, rfl, hprogram⟩
      · refine ⟨none, _, if_neg hprogram, Logs.of_eq rfl rfl rfl, rfl, by simp, ?_⟩
        rintro - ⟨msg', hmsg', hne⟩
        obtain rfl := Option.some.inj hmsg'
        exact hprogram hne

/-- A wait inside an instruction does no harm. -/
theorem waitInside_spec (hcur : st.curSeq = .program) (m : Machine) {next : Mode}
    (hnext : ∀ rc msg, next ≠ .returned rc msg) : StepSpec st True m (m.waitInside next) := by
  obtain ⟨r, m', hr, hlogs, -, hmsg, -⟩ := m.waitOrRet_spec
  rw [waitInside, hr]
  cases r with
  | none => exact StepSpec.of_running (hlogs.then_quiet (Logs.of_eq rfl rfl rfl)) hnext
  | some msg =>
      refine ⟨True, hlogs.then_quiet (restore_logs _ _ _), ?_⟩
      rw [restore_endsWell_iff, Task.next_message hcur (hmsg msg rfl).1]
      simp

theorem waitBetween_spec (hcur : st.curSeq = .program) (m : Machine) :
    StepSpec st (m.Interrupted → m.leds.brightness = m.savedBrightness) m m.waitBetween := by
  obtain ⟨r, m', hr, hlogs, hleds, hmsg, hnone⟩ := m.waitOrRet_spec
  rw [waitBetween, hr]
  cases r with
  | none =>
      refine ⟨True, hlogs.then_quiet (Logs.of_eq rfl rfl rfl), ?_⟩
      rw [true_and]
      exact iff_of_true (endsWell_of_running (by simp)) fun h => absurd h (hnone rfl)
  | some msg =>
      obtain ⟨hne, hinterrupted⟩ := hmsg msg rfl
      refine ⟨True, hlogs.then_quiet (Logs.of_eq rfl rfl rfl), ?_⟩
      rw [true_and, endsWell_iff rfl, Task.next_message hcur hne]
      dsimp only
      rw [hleds, hlogs.saved]
      exact ⟨fun h _ => h.1, fun h => ⟨h hinterrupted, rfl⟩⟩

theorem hostCmd_logs (m : Machine) (cmd : HostCmd) :
    Logs True m (m.hostCmd cmd) ∧ (m.hostCmd cmd).mode = m.mode := by
  cases cmd with
  | seq num =>
      rw [hostCmd, lightbarSequence]
      split
      · exact ⟨Logs.of_eq rfl rfl rfl, rfl⟩
      · exact ⟨Logs.refl m, rfl⟩
  | setBrightness num => exact ⟨Logs.of_eq rfl rfl rfl, rfl⟩
  | setRgb led r g b => exact ⟨Logs.of_eq rfl rfl rfl, rfl⟩
  | init => exact ⟨Logs.of_eq rfl rfl rfl, rfl⟩
  | lit on => exact ⟨Logs.of_eq rfl rfl rfl, rfl⟩
  | demoIsCharging ischarge => exact ⟨Logs.of_eq rfl rfl rfl, rfl⟩

/-- **Step lemma.**  A step is possible only before the program has returned. -/
theorem step_spec (hcur : st.curSeq = .program) {ev : Event} (h : m.step ev = some m') :
    (∀ rc msg, m.mode ≠ .returned rc msg) ∧ StepSpec st (m.StepFits st ev) m m' := by
  cases ev with
  | host cmd =>
      obtain ⟨hlogs, hmode⟩ := m.hostCmd_logs cmd
      have hrunning : ∀ rc msg, m.mode ≠ .returned rc msg := by
        intro rc msg hret
        simp [step, hret] at h
      have heq : m.hostCmd cmd = m' := by
        cases hm : m.mode with
        | returned rc msg => exact absurd hm (hrunning rc msg)
        | _ => simpa [step, hm] using h
      subst heq
      exact ⟨hrunning, StepSpec.of_running hlogs fun rc msg => by rw [hmode]; exact hrunning rc msg⟩
  | task battery =>
      unfold StepFits
      cases hmode : m.mode with
      | fetch =>
          simp only [step, hmode, Option.some.injEq] at h
          subst h
          exact ⟨by simp, m.fetch_spec hcur battery⟩
      | ramp stopAt w =>
          simp only [step, hmode] at h
          refine ⟨by simp, ?_⟩
          split at h
          · obtain rfl := Option.some.inj h
            exact StepSpec.of_running ((m.rampLeds_quiet w).then_quiet (Logs.of_eq rfl rfl rfl))
              (by simp)
          · obtain rfl := Option.some.inj h
            exact StepSpec.of_running (Logs.of_eq rfl rfl rfl) (by simp)
      | rampWait stopAt w =>
          simp only [step, hmode, Option.some.injEq] at h
          subst h
          exact ⟨by simp, m.waitInside_spec hcur (by simp)⟩
      | cycle w =>
          simp only [step, hmode, Option.some.injEq] at h
          subst h
          exact ⟨by simp, StepSpec.of_running
            ((m.cycleLeds_quiet w).then_quiet (Logs.of_eq rfl rfl rfl)) (by simp)⟩
      | cycleWait w =>
          simp only [step, hmode, Option.some.injEq] at h
          subst h
          exact ⟨by simp, m.waitInside_spec hcur (by simp)⟩
      | wait =>
          simp only [step, hmode, Option.some.injEq] at h
          subst h
          exact ⟨by simp, m.waitInside_spec hcur (by simp)⟩
      | «yield» =>
          simp only [step, hmode, Option.some.injEq] at h
          subst h
          exact ⟨by simp, m.waitBetween_spec hcur⟩
      | returned rc msg => simp [step, hmode] at h

/-- What is asked of a program that started with `brightness` after the sequences `shown`. -/
structure Contained (shown : List Sequence) (st : Task) (brightness : BitVec 8) (m : Machine) :
    Prop where
  inside : ∀ a ∈ m.log, a.Inside
  restored : ∀ rc interruptedBy, m.mode = .returned rc interruptedBy →
    m.leds.brightness = brightness
  goesOn : ∀ rc interruptedBy, m.mode = .returned rc interruptedBy →
    some (st.next rc).curSeq =
      (interruptedBy.map Subtype.val).or (shown.find? Sequence.isNormal)

theorem contained_iff {shown : List Sequence} {brightness : BitVec 8}
    (hshown : shown.find? Sequence.isNormal = some st.prevSeq)
    (hsaved : m.savedBrightness = brightness) :
    Contained shown st brightness m ↔ (∀ a ∈ m.log, a.Inside) ∧ m.EndsWell st := by
  have hnext : ∀ msg : Option Message, (msg.map Subtype.val).or (some st.prevSeq) =
      some ((msg.map Subtype.val).getD st.prevSeq) := by
    intro msg
    cases msg <;> rfl
  constructor
  · rintro ⟨hinside, hrestored, hgoesOn⟩
    refine ⟨hinside, fun rc msg hmode => ⟨(hrestored rc msg hmode).trans hsaved.symm, ?_⟩⟩
    have := hgoesOn rc msg hmode
    rw [hshown, hnext] at this
    exact Option.some.inj this
  · rintro ⟨hinside, hends⟩
    refine ⟨hinside, fun rc msg hmode => (hends rc msg hmode).1.trans hsaved, ?_⟩
    intro rc msg hmode
    rw [hshown, hnext, (hends rc msg hmode).2]

/-- **Run lemma.**  The steps fit if and only if everything is inside and the end is good. -/
theorem run_spec (hcur : st.curSeq = .program) {m₀ : Machine} {steps : List (Machine × Event)}
    (hstart : m₀.mode = .fetch) (hlog : m₀.log = [])
    (h : Trace step anyEvent m₀ steps m) :
    m.savedBrightness = m₀.savedBrightness ∧
      ((∀ a ∈ m.log, a.Inside) ∧ m.EndsWell st ↔ ∀ x ∈ steps, x.1.StepFits st x.2) := by
  induction h with
  | start =>
      refine ⟨rfl, iff_of_true ⟨by simp [hlog], ?_⟩ (by simp)⟩
      exact endsWell_of_running (by simp [hstart])
  | @next steps m m' ev _ _ hstep ih =>
      obtain ⟨hsaved, hiff⟩ := ih
      obtain ⟨hrunning, ok, hlogs, hok⟩ := step_spec hcur hstep
      obtain ⟨l, hl, hinside⟩ := hlogs.accesses
      refine ⟨hlogs.saved.trans hsaved, ?_⟩
      rw [List.forall_mem_cons, ← hok, ← hiff, hl, List.forall_mem_append, hinside,
        and_iff_left (endsWell_of_running hrunning)]
      tauto

end Machine

/-- **Lightbar programs.**  A program that runs after any sequences have returned stays inside its
arrays, restores the brightness and goes on with the right sequence, if and only if all its steps
fit. -/
theorem program_contained_iff (returned : List Nat)
    (hcur : (Task.run returned).1.curSeq = .program) (prog : Program) (leds : Leds)
    (batteryLevel : Nat) (charging : Bool) (pending : Option Message)
    {steps : List (Machine × Machine.Event)} {m : Machine}
    (h : Trace Machine.step anyEvent (prog.start leds batteryLevel charging pending) steps m) :
    m.Contained (Task.run returned).2 (Task.run returned).1 leds.brightness ↔
      ∀ x ∈ steps, x.1.StepFits (Task.run returned).1 x.2 := by
  have hshown := Task.prevSeq_run returned (by rw [hcur]; rfl)
  obtain ⟨hsaved, hiff⟩ := Machine.run_spec hcur rfl rfl h
  exact (Machine.contained_iff hshown hsaved).trans hiff

/-- A program of one instruction. -/
def haltProgram : Program := ⟨1, fun _ => 16⟩

/-- The LEDs at half of their brightness. -/
def dimLeds : Leds := ⟨128, fun _ _ => 0, true⟩

/-- `HALT` after `S3`. -/
theorem program_contained_iff_halt :
    ∃ m, (haltProgram.start dimLeds 2 false none).step (.task none) = some m ∧
      m.mode = .returned programFinished none ∧
      m.Contained (Task.run [12, 2]).2 (Task.run [12, 2]).1 128#8 := by
  refine ⟨_, rfl, rfl, ?_⟩
  apply (program_contained_iff [12, 2] rfl haltProgram dimLeds 2 false none
    (Trace.start.next (.task none) rfl rfl)).mpr
  rw [List.forall_mem_singleton]
  simp [Machine.StepFits, Machine.FetchFits, Machine.OpFits, Machine.Malformed, Program.start,
    haltProgram, Machine.nextByte, Machine.maxOpcode, ecLbProgLen, Task.run, Task.init, Task.next,
    Sequence.code, Sequence.isNormal, Sequence.ofCode, Sequence.all]

/-- A program that jumps behind its array, with the greatest size. -/
def jumpProgram : Program := ⟨255, fun i => if i = 0 then 2 else 200⟩

/-- `HALT` after `S5`, with which the task does not go on, and a jump to bytes that are not in the
program. -/
theorem program_not_contained :
    (∃ m, (haltProgram.start dimLeds 2 false none).step (.task none) = some m ∧
      ¬ m.Contained (Task.run [12]).2 (Task.run [12]).1 128#8) ∧
    ∃ steps m, Trace Machine.step anyEvent (jumpProgram.start dimLeds 2 false none) steps m ∧
      ∃ a ∈ m.log, ¬ a.Inside := by
  constructor
  · refine ⟨_, rfl, fun h => ?_⟩
    have := h.goesOn _ _ rfl
    revert this
    decide
  · obtain ⟨steps, m, hrun, hfetch⟩ : ∃ steps m, Trace Machine.step anyEvent
        (jumpProgram.start dimLeds 2 false none) steps m ∧ Access.fetch 200 ∈ m.log :=
      Trace.exists_of_recordEvents [.task none, .task none, .task none] (by decide)
    exact ⟨steps, m, hrun, .fetch 200, hfetch, by simp [Access.Inside, ecLbProgLen]⟩

end Lightbar
end CrosEc
