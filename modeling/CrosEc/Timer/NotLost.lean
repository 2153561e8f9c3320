import CrosEc.Timer.Process

/-!
# No timer is lost

A timer that runs is looked after: the timer interrupt is pending, or the call that armed it
has yet to finish its check, or the hardware event is at or before its deadline.  The check
of `timer_arm` reads `clksrc_high` twice and `next_deadline` once, with interrupts in
between; `CallOk` says what each position of the call knows about its timer.

Two calls of `timer_arm` for one timer must not overlap: the test of `timer_running` and the
stores after it are not one step.  In the firmware a timer is armed by its own task only.
-/

namespace CrosEc
namespace Timer

variable {n : Nat}

/-- The task is in a call of `timer_arm` for the timer `t`. -/
def Activity.arms (t : Fin n) : Activity n → Bool
  | .outside _ => false
  | .arming _ tskid _ => tskid = t

/-- The timer is started and the check "modify the next event if needed" is not over. -/
def ArmPc.checking : ArmPc → Bool
  | .testPast | .testHigh | .testLow | .triggerIrq => true
  | _ => false

/-- The task has started the timer `t` and has not finished the check for it. -/
def Activity.checks (t : Fin n) : Activity n → Bool
  | .outside _ => false
  | .arming pc tskid _ => tskid = t && pc.checking

theorem Activity.arms_of_checks {t : Fin n} {a : Activity n} (h : a.checks t = true) :
    a.arms t = true := by
  cases a with
  | outside _ => cases h
  | arming pc tskid ts =>
      simp only [checks, Bool.and_eq_true] at h
      exact h.1

/-- A task arms one timer at a time. -/
theorem Activity.arms_unique {t u : Fin n} {a : Activity n} (ht : a.arms t = true)
    (hu : a.arms u = true) : t = u := by
  cases a with
  | outside _ => cases ht
  | arming pc tskid ts =>
      simp only [arms, decide_eq_true_eq] at ht hu
      exact ht.symm.trans hu

/-- No task calls `timer_arm` for a timer that some task is arming. -/
def noOverlap (s : State n) : Event n → Bool
  | .call _ tskid _ => ∀ task, (s.tasks task).arms tskid = false
  | _ => true

namespace State

/-- The timer `t` is looked after. -/
def NotLost (s : State n) (t : Fin n) : Prop :=
  s.irqPending = true ∨ (∃ task, (s.tasks task).checks t = true) ∨
    s.hwEvent = some s.nextDeadline ∧ s.nextDeadline ≤ (s.timerDeadline t).lo ∨
    (s.timerDeadline t).lo = 0xffffffff

instance (s : State n) (t : Fin n) : Decidable (s.NotLost t) :=
  inferInstanceAs (Decidable (_ ∨ _))

/-! ## The clock, and timers that expire -/

/-- `clksrc_high` is the high word of the time or one behind it, and no timer has been
expired early. -/
structure ClockOk (s : State n) : Prop where
  high_le : s.clksrcHigh.toNat ≤ s.time / 2 ^ 32
  le_high : s.time / 2 ^ 32 ≤ s.clksrcHigh.toNat + 1
  time_lt : s.time < 2 ^ 64
  onTime : ∀ x ∈ s.expiries, x.deadline.val ≤ x.time

/-- While the interrupt for an overflow is not pending, `clksrc_high` is the high word. -/
theorem ClockOk.high_eq {s : State n} (h : s.ClockOk) (hover : s.overflowPending = false) :
    s.clksrcHigh.toNat = s.time / 2 ^ 32 := by
  simp only [overflowPending, decide_eq_false_iff_not, not_lt] at hover
  exact le_antisymm h.high_le hover

/-- A pending overflow can be counted: the high word does not wrap. -/
theorem ClockOk.toNat_high_succ {s : State n} (h : s.ClockOk) (hover : s.overflowPending = true) :
    (s.clksrcHigh + 1).toNat = s.clksrcHigh.toNat + 1 := by
  have htime := h.time_lt
  simp only [overflowPending, decide_eq_true_eq] at hover
  rw [UInt32.toNat_add, UInt32.toNat_one]
  omega

theorem clockOk_timerInit (ts : Timestamp) : ClockOk (timerInit n ts) := by
  have hlo := ts.lo.toNat_lt
  have hhi := ts.hi.toNat_lt
  refine ⟨?_, ?_, ?_, fun x hx => absurd hx List.not_mem_nil⟩ <;>
    simp only [timerInit, Timestamp.val] <;> lia

/-- A call of `process_timers` keeps the clock right and expires no timer early. -/
theorem ClockOk.processed {s s' : State n} (h : s.ClockOk) (hp : Processed s s') :
    s'.ClockOk := by
  have hhigh : s'.clksrcHigh = s.clksrcHigh := by rw [hp.frame]
  refine ⟨?_, ?_, hp.time_lt, ?_⟩
  · rw [hhigh]
    exact h.high_le.trans (Nat.div_le_div_right hp.time_le)
  · rw [hhigh]
    exact hp.epoch_le
  · intro x hx
    exact (hp.expiries h.high_le x hx).elim (h.onTime x) id

/-- **Step lemma.** The timer interrupt is a call of `process_timers` on a state in which the
interrupt is not pending and the overflow, if there was one, is counted. -/
theorem timerInterrupt_eq_some {s s' : State n} {overflow : Bool} {rounds : List (Nat × Nat)}
    (hclock : s.ClockOk) (h : s.timerInterrupt overflow rounds = some s') :
    ∃ high, s.clksrcHigh ≤ high ∧
      ClockOk { s with irqPending := false, clksrcHigh := high } ∧
      Processed { s with irqPending := false, clksrcHigh := high } s' := by
  simp only [timerInterrupt, Option.ite_none_right_eq_some] at h
  obtain ⟨hguard, h⟩ := h
  have hprocessed := processed_processLoop h
  cases overflow with
  | false =>
      exact ⟨s.clksrcHigh, UInt32.le_refl _,
        ⟨hclock.high_le, hclock.le_high, hclock.time_lt, hclock.onTime⟩, hprocessed⟩
  | true =>
      have hsucc := hclock.toNat_high_succ hguard
      have hle := hclock.le_high
      simp only [↓reduceIte, overflowPending, decide_eq_true_eq] at hguard
      refine ⟨s.clksrcHigh + 1, ?_, ⟨?_, ?_, hclock.time_lt, hclock.onTime⟩, hprocessed⟩
      · rw [UInt32.le_iff_toNat_le, hsucc]
        omega
      · show (s.clksrcHigh + 1).toNat ≤ s.time / 2 ^ 32
        omega
      · show s.time / 2 ^ 32 ≤ (s.clksrcHigh + 1).toNat + 1
        omega

/-- **Frame.** What no step of `timer_arm` touches. -/
theorem timerArm_frame (task : Fin n) (pc : ArmPc) (t : Fin n) (ts : Timestamp) (s : State n) :
    s.timerArm task pc t ts = { s with
      timerRunning := (s.timerArm task pc t ts).timerRunning
      timerDeadline := (s.timerArm task pc t ts).timerDeadline
      irqPending := (s.timerArm task pc t ts).irqPending
      tasks := (s.timerArm task pc t ts).tasks } := by
  cases pc <;> simp only [timerArm] <;> (try split) <;> rfl

end State

open State

/-- **Inversion.** A step is an access of a task to the memory, or the clock advances, or the
interrupt calls `process_timers`. -/
theorem step_cases {s s' : State n} {e : Event n} (h : s.ClockOk) (hs : step s e = some s') :
    (s' = { s with
      timerRunning := s'.timerRunning, timerDeadline := s'.timerDeadline,
      irqPending := s'.irqPending, tasks := s'.tasks }) ∨
    (∃ dt, s.tick dt = some s') ∨
    ∃ high, s.clksrcHigh ≤ high ∧
      ClockOk { s with irqPending := false, clksrcHigh := high } ∧
      Processed { s with irqPending := false, clksrcHigh := high } s' := by
  cases e with
  | call task t ts =>
      simp only [step, callArm] at hs
      split at hs <;> cases hs
      exact .inl rfl
  | access task =>
      simp only [step] at hs
      split at hs <;> cases hs
      exact .inl (timerArm_frame ..)
  | cancel t =>
      cases hs
      exact .inl rfl
  | tick dt => exact .inr (.inl ⟨dt, hs⟩)
  | raise =>
      cases hs
      exact .inl rfl
  | interrupt overflow rounds => exact .inr (.inr (timerInterrupt_eq_some h hs))

/-- **Step lemma.** Every step keeps the clock right and expires no timer early. -/
theorem step_clockOk {s s' : State n} {e : Event n} (h : s.ClockOk) (hs : step s e = some s') :
    s'.ClockOk := by
  rcases step_cases h hs with hframe | ⟨dt, htick⟩ | ⟨high, -, hclock, hprocessed⟩
  · rw [hframe]
    exact ⟨h.high_le, h.le_high, h.time_lt, h.onTime⟩
  · obtain ⟨rfl, hepoch, htime⟩ := tick_eq_some htick
    refine ⟨?_, hepoch, htime, h.onTime⟩
    exact h.high_le.trans (Nat.div_le_div_right (Nat.le_add_right _ _))
  · exact hclock.processed hprocessed

/-- **Step lemma.** Time does not go back. -/
theorem step_time_le {s s' : State n} {e : Event n} (h : s.ClockOk)
    (hs : step s e = some s') : s.time ≤ s'.time := by
  rcases step_cases h hs with hframe | ⟨dt, htick⟩ | ⟨high, -, -, hprocessed⟩
  · rw [hframe]
  · exact (progress_tick htick).time_le
  · exact hprocessed.time_le

/-! ## The calls of `timer_arm` -/

namespace State

/-- What a call of `timer_arm` knows at each of its positions.  After the comparison with
`clksrc_high` a timer that still runs is not of a past epoch: the interrupt that begins an
epoch expires those of the past. -/
def CallOk (s : State n) (pc : ArmPc) (t : Fin n) (ts : Timestamp) : Prop :=
  match pc with
  | .testRunning => True
  | .storeLow => s.timerRunning t = false
  | .storeHigh => s.timerRunning t = false ∧ (s.timerDeadline t).lo = ts.lo
  | .setRunning => s.timerRunning t = false ∧ s.timerDeadline t = ts
  | .testPast | .triggerIrq => s.timerDeadline t = ts
  | .testHigh => s.timerDeadline t = ts ∧ (s.timerRunning t = true → s.clksrcHigh ≤ ts.hi)
  | .testLow => s.timerDeadline t = ts ∧ (s.timerRunning t = true → s.clksrcHigh ≤ ts.hi) ∧
      ts.hi ≤ s.clksrcHigh

/-- The interrupt is pending, or the call that started the timer is checking, or the timer is
served by the event or by a later overflow. -/
def LookedAfter (s : State n) (t : Fin n) : Prop :=
  s.irqPending = true ∨ (∃ task, (s.tasks task).checks t = true) ∨ s.Served t

/-- The invariant: one call of `timer_arm` for each timer at most, that knows what it should,
and every running timer looked after. -/
structure Inv (s : State n) : Prop where
  eventKnown : s.EventKnown
  alone : ∀ {u v t}, (s.tasks u).arms t = true → (s.tasks v).arms t = true → u = v
  callOk : ∀ {u pc t ts}, s.tasks u = .arming pc t ts → s.CallOk pc t ts
  lookedAfter : ∀ t, s.timerRunning t = true → s.LookedAfter t

/-- What a call knows stays true if its timer keeps its deadline and is not started, and
if, whenever a new epoch has begun, the timer is not of a past one. -/
theorem CallOk.mono {s s' : State n} {pc : ArmPc} {t : Fin n} {ts : Timestamp}
    (h : s.CallOk pc t ts) (hrunning : s'.timerRunning t = true → s.timerRunning t = true)
    (hdeadline : s'.timerDeadline t = s.timerDeadline t) (hle : s.clksrcHigh ≤ s'.clksrcHigh)
    (hepoch : s'.clksrcHigh = s.clksrcHigh ∨
      (s'.timerRunning t = true → s'.clksrcHigh ≤ (s'.timerDeadline t).hi)) :
    s'.CallOk pc t ts := by
  have hstopped : s.timerRunning t = false → s'.timerRunning t = false := by
    intro hfalse
    by_contra hne
    rw [hrunning (by simpa using hne)] at hfalse
    cases hfalse
  have hhigh : s'.timerDeadline t = ts → (s.timerRunning t = true → s.clksrcHigh ≤ ts.hi) →
      s'.timerRunning t = true → s'.clksrcHigh ≤ ts.hi := by
    intro hts hold hrun
    rcases hepoch with heq | hnew
    · rw [heq]
      exact hold (hrunning hrun)
    · rw [← hts]
      exact hnew hrun
  cases pc with
  | testRunning => trivial
  | storeLow => exact hstopped h
  | storeHigh => exact ⟨hstopped h.1, (congrArg Timestamp.lo hdeadline).trans h.2⟩
  | setRunning => exact ⟨hstopped h.1, hdeadline.trans h.2⟩
  | testPast => exact hdeadline.trans h
  | triggerIrq => exact hdeadline.trans h
  | testHigh => exact ⟨hdeadline.trans h.1, hhigh (hdeadline.trans h.1) h.2⟩
  | testLow =>
      exact ⟨hdeadline.trans h.1, hhigh (hdeadline.trans h.1) h.2.1,
        UInt32.le_trans h.2.2 hle⟩

/-- An access of a task `u` that is arming the timer `t` concerns that timer and that task
only.  What is left to show is what the task knows next and that `t` is looked after. -/
theorem Inv.access {s s' : State n} (h : s.Inv) {u t : Fin n} {a : Activity n}
    (hu : (s.tasks u).arms t = true)
    (hframe : s' = { s with
      timerRunning := s'.timerRunning, timerDeadline := s'.timerDeadline,
      irqPending := s'.irqPending, tasks := s'.tasks })
    (htasks : s'.tasks = Function.update s.tasks u a)
    (hother : ∀ v, v ≠ t → s'.timerRunning v = s.timerRunning v ∧
      s'.timerDeadline v = s.timerDeadline v)
    (hirq : s.irqPending = true → s'.irqPending = true)
    (hnext : ∀ {pc v ts}, a = .arming pc v ts → v = t ∧ s'.CallOk pc v ts)
    (hlooked : s'.timerRunning t = true → s'.LookedAfter t) : s'.Inv := by
  have hhigh : s'.clksrcHigh = s.clksrcHigh := by rw [hframe]
  have hevent : s'.hwEvent = s.hwEvent := by rw [hframe]
  have hdeadline : s'.nextDeadline = s.nextDeadline := by rw [hframe]
  -- Whoever arms a timer after the access armed it before.
  have harms : ∀ {v w}, (s'.tasks v).arms w = true → (s.tasks v).arms w = true := by
    intro v w hv
    rw [htasks] at hv
    rcases eq_or_ne v u with rfl | hne
    · rw [Function.update_self] at hv
      cases a with
      | outside _ => simp [Activity.arms] at hv
      | arming pc tskid ts =>
          obtain ⟨rfl, -⟩ := hnext rfl
          have hw : tskid = w := by simpa [Activity.arms] using hv
          exact hw ▸ hu
    · rwa [Function.update_of_ne hne] at hv
  refine ⟨?_, fun hv hw => h.alone (harms hv) (harms hw), ?_, ?_⟩
  · simp only [EventKnown, hevent, hdeadline]
    exact h.eventKnown
  · intro v pc w ts hv
    rw [htasks] at hv
    rcases eq_or_ne v u with rfl | hne
    · rw [Function.update_self] at hv
      obtain ⟨rfl, hok⟩ := hnext hv
      exact hok
    · rw [Function.update_of_ne hne] at hv
      have hw : w ≠ t := by
        rintro rfl
        exact hne (h.alone (by simp [hv, Activity.arms]) hu)
      exact (h.callOk hv).mono (fun hrun => (hother w hw).1 ▸ hrun) (hother w hw).2
        (hhigh ▸ UInt32.le_refl _) (.inl hhigh)
  · intro v hv
    rcases eq_or_ne v t with rfl | hne
    · exact hlooked hv
    · rw [(hother v hne).1] at hv
      rcases h.lookedAfter v hv with hpending | ⟨w, hw⟩ | hserved
      · exact .inl (hirq hpending)
      · have hwu : w ≠ u := by
          rintro rfl
          exact hne (Activity.arms_unique (Activity.arms_of_checks hw) hu)
        refine .inr (.inl ⟨w, ?_⟩)
        rw [htasks, Function.update_of_ne hwu]
        exact hw
      · refine .inr (.inr ?_)
        simp only [Served, hhigh, hdeadline, (hother v hne).2]
        exact hserved

/-- A timer is looked after by the call that has started it. -/
theorem lookedAfter_goto (s : State n) (u t : Fin n) {pc : ArmPc} (ts : Timestamp)
    (hpc : pc.checking = true) : (s.goto u pc t ts).LookedAfter t := by
  refine .inr (.inl ⟨u, ?_⟩)
  simp [goto, Activity.checks, hpc]

/-- The call moves on to a position of which it knows what it should. -/
theorem Inv.goto {s : State n} (h : s.Inv) {u t : Fin n} {pc : ArmPc} {ts : Timestamp}
    (hu : (s.tasks u).arms t = true) (hok : s.CallOk pc t ts)
    (hlooked : s.timerRunning t = true → (s.goto u pc t ts).LookedAfter t) :
    (s.goto u pc t ts).Inv := by
  refine h.access hu rfl rfl (fun _ _ => ⟨rfl, rfl⟩) id ?_ hlooked
  rintro _ _ _ ⟨⟩
  exact ⟨rfl, hok⟩

/-- The call returns, and the timer no longer needs it. -/
theorem Inv.leave {s : State n} (h : s.Inv) {u t : Fin n} {rc : Code}
    (hu : (s.tasks u).arms t = true)
    (hlooked : s.timerRunning t = true → s.irqPending = true ∨ s.Served t) :
    (s.leave u rc).Inv := by
  refine h.access hu rfl rfl (fun _ _ => ⟨rfl, rfl⟩) id ?_ ?_
  · rintro _ _ _ ⟨⟩
  · exact fun hrun => (hlooked hrun).imp_right .inr

/-- A call that is not checking does not look after its timer: others do. -/
theorem Inv.pending_or_served {s : State n} (h : s.Inv) {u t : Fin n} {pc : ArmPc}
    {ts : Timestamp} (hu : s.tasks u = .arming pc t ts) (hpc : pc.checking = false)
    (hrun : s.timerRunning t = true) : s.irqPending = true ∨ s.Served t := by
  rcases h.lookedAfter t hrun with hpending | ⟨w, hw⟩ | hserved
  · exact .inl hpending
  · have hwu : w = u :=
      h.alone (Activity.arms_of_checks hw) (by simp [hu, Activity.arms])
    rw [hwu, hu] at hw
    simp [Activity.checks, hpc] at hw
  · exact .inr hserved

/-- **Step lemma.** Every access of `timer_arm`. -/
theorem Inv.timerArm {s : State n} (h : s.Inv) {u t : Fin n} {pc : ArmPc} {ts : Timestamp}
    (hu : s.tasks u = .arming pc t ts) : (s.timerArm u pc t ts).Inv := by
  have harms : (s.tasks u).arms t = true := by simp [hu, Activity.arms]
  have hok := h.callOk hu
  -- Before it is started, the timer does not run, and there is nothing to look after.
  have hstopped : ∀ {p : Prop}, s.timerRunning t = false → s.timerRunning t = true → p := by
    intro p hfalse htrue
    rw [hfalse] at htrue
    cases htrue
  cases pc with
  | testRunning =>
      simp only [State.timerArm]
      split
      · exact h.leave harms (h.pending_or_served hu rfl)
      · rename_i hfalse
        have hfalse : s.timerRunning t = false := by simpa using hfalse
        exact h.goto harms hfalse (hstopped hfalse)
  | storeLow =>
      refine h.access harms rfl rfl ?_ id ?_ (hstopped hok)
      · intro v hv
        exact ⟨rfl, Function.update_of_ne hv ..⟩
      · rintro _ _ _ ⟨⟩
        refine ⟨rfl, hok, ?_⟩
        show (Function.update s.timerDeadline t _ t).lo = ts.lo
        rw [Function.update_self]
  | storeHigh =>
      refine h.access harms rfl rfl ?_ id ?_ (hstopped hok.1)
      · intro v hv
        exact ⟨rfl, Function.update_of_ne hv ..⟩
      · rintro _ _ _ ⟨⟩
        refine ⟨rfl, hok.1, ?_⟩
        show Function.update s.timerDeadline t _ t = ts
        rw [Function.update_self, hok.2]
  | setRunning =>
      refine h.access harms rfl rfl ?_ id ?_ fun _ => lookedAfter_goto _ u t ts rfl
      · intro v hv
        exact ⟨Function.update_of_ne hv .., rfl⟩
      · rintro _ _ _ ⟨⟩
        exact ⟨rfl, hok.2⟩
  | testPast =>
      simp only [State.timerArm]
      split
      · exact h.goto harms hok fun _ => lookedAfter_goto s u t ts rfl
      · rename_i hlt
        exact h.goto harms ⟨hok, fun _ => UInt32.not_lt.mp hlt⟩ fun _ =>
          lookedAfter_goto s u t ts rfl
  | testHigh =>
      simp only [State.timerArm]
      split
      · rename_i heq
        exact h.goto harms ⟨hok.1, hok.2, heq ▸ UInt32.le_refl _⟩ fun _ =>
          lookedAfter_goto s u t ts rfl
      · rename_i hne
        -- A timer that still runs is of a later epoch.
        refine h.leave harms fun hrun => .inr (.inl ?_)
        rw [hok.1]
        exact UInt32.lt_of_le_of_ne (hok.2 hrun) (Ne.symm hne)
  | testLow =>
      simp only [State.timerArm]
      split
      · exact h.goto harms hok.1 fun _ => lookedAfter_goto s u t ts rfl
      · rename_i hlt
        -- It is of this epoch, and `next_deadline` is before it.
        refine h.leave harms fun hrun => .inr (.inr ?_)
        rw [hok.1]
        exact ⟨UInt32.le_antisymm hok.2.2 (hok.2.1 hrun),
          UInt32.le_of_lt (UInt32.not_le.mp hlt)⟩
  | triggerIrq =>
      refine h.access harms rfl rfl (fun _ _ => ⟨rfl, rfl⟩) (fun _ => rfl) ?_ fun _ => .inl rfl
      rintro _ _ _ ⟨⟩

/-- **Step lemma.** A call of `timer_arm` for a timer that nobody is arming. -/
theorem Inv.callArm {s s' : State n} (h : s.Inv) {u t : Fin n} {ts : Timestamp}
    (hfree : ∀ v, (s.tasks v).arms t = false) (hs : s.callArm u t ts = some s') : s'.Inv := by
  simp only [State.callArm] at hs
  split at hs
  case h_2 => cases hs
  case h_1 rc hu =>
    cases hs
    -- Nobody but the caller has come to arm a timer.
    have hold : ∀ {v w}, ((s.goto u .testRunning t ts).tasks v).arms w = true →
        v = u ∧ w = t ∨ v ≠ u ∧ w ≠ t ∧ (s.tasks v).arms w = true := by
      intro v w hv
      rcases eq_or_ne v u with rfl | hne
      · have hw : t = w := by simpa [State.goto, Activity.arms] using hv
        exact .inl ⟨rfl, hw.symm⟩
      · simp only [State.goto, Function.update_of_ne hne] at hv
        refine .inr ⟨hne, ?_, hv⟩
        rintro rfl
        rw [hfree v] at hv
        cases hv
    refine ⟨h.eventKnown, ?_, ?_, ?_⟩
    · intro v w x hv hw
      rcases hold hv with ⟨rfl, rfl⟩ | ⟨-, hx, hv⟩ <;>
        rcases hold hw with ⟨rfl, hx'⟩ | ⟨-, hx', hw⟩
      · rfl
      · exact absurd rfl hx'
      · exact absurd hx' hx
      · exact h.alone hv hw
    · intro v pc w ts' hv
      rcases eq_or_ne v u with rfl | hne
      · simp only [State.goto, Function.update_self] at hv
        cases hv
        trivial
      · simp only [State.goto, Function.update_of_ne hne] at hv
        exact h.callOk hv
    · intro v hv
      refine (h.lookedAfter v hv).imp_right (Or.imp_left ?_)
      rintro ⟨w, hw⟩
      have hwu : w ≠ u := by
        rintro rfl
        rw [hu] at hw
        cases hw
      exact ⟨w, by simpa only [State.goto, Function.update_of_ne hwu] using hw⟩

/-- A step that is not a task's access to its timer: it can stop timers and begin an epoch,
and it leaves every timer that runs looked after. -/
theorem Inv.environment {s s' : State n} (h : s.Inv) (htasks : s'.tasks = s.tasks)
    (hdeadline : s'.timerDeadline = s.timerDeadline)
    (hrunning : ∀ t, s'.timerRunning t = true → s.timerRunning t = true)
    (hle : s.clksrcHigh ≤ s'.clksrcHigh)
    (hepoch : s'.clksrcHigh = s.clksrcHigh ∨ ∀ t, s'.timerRunning t = true → s'.Served t)
    (hevent : s'.EventKnown) (hlooked : ∀ t, s'.timerRunning t = true → s'.LookedAfter t) :
    s'.Inv := by
  refine ⟨hevent, ?_, ?_, hlooked⟩
  · rw [htasks]
    exact h.alone
  · intro u pc t ts hu
    rw [htasks] at hu
    refine (h.callOk hu).mono (hrunning t) (congrFun hdeadline t) hle ?_
    refine hepoch.imp_right fun hserved hrun => ?_
    rcases hserved t hrun with hlt | ⟨heq, -⟩
    · exact UInt32.le_of_lt hlt
    · rw [heq]
      exact UInt32.le_refl _

/-- **Step lemma.** The timer interrupt, while the epoch is not the last one. -/
theorem Inv.processed {s s' : State n} (h : s.Inv) {high : UInt32} (hle : s.clksrcHigh ≤ high)
    (hlast : high ≠ 0xffffffff)
    (hp : Processed { s with irqPending := false, clksrcHigh := high } s') : s'.Inv := by
  have hhigh : s'.clksrcHigh = high := by rw [hp.frame]
  refine h.environment ?_ ?_ hp.running (hhigh ▸ hle) (.inr (hp.served hlast)) hp.eventKnown
    fun t ht => .inr (.inr (hp.served hlast t ht))
  · rw [hp.frame]
  · rw [hp.frame]

end State

/-- **Step lemma.** Every step without an overlap keeps the invariant, before the last
epoch. -/
theorem step_inv {s s' : State n} {e : Event n} (hclock : s.ClockOk) (h : s.Inv)
    (hallowed : noOverlap s e = true) (hs : step s e = some s')
    (htime : s'.time < 0xffffffff * 2 ^ 32) : s'.Inv := by
  cases e with
  | call task t ts =>
      simp only [noOverlap, decide_eq_true_eq] at hallowed
      exact h.callArm hallowed hs
  | access task =>
      simp only [step] at hs
      split at hs
      · cases hs
      · rename_i pc t ts hu
        cases hs
        exact h.timerArm hu
  | cancel t =>
      cases hs
      refine h.environment rfl rfl ?_ (UInt32.le_refl _) (.inl rfl) h.eventKnown ?_
      all_goals
        intro v hv
        have hv : s.timerRunning v = true := by
          rcases eq_or_ne v t with rfl | hne
          · simp [timerCancel] at hv
          · simpa only [timerCancel, Function.update_of_ne hne] using hv
      · exact hv
      · exact h.lookedAfter v hv
  | tick dt =>
      obtain ⟨rfl, -⟩ := tick_eq_some hs
      exact h.environment rfl rfl (fun _ => id) (UInt32.le_refl _) (.inl rfl) h.eventKnown
        h.lookedAfter
  | raise =>
      cases hs
      exact h.environment rfl rfl (fun _ => id) (UInt32.le_refl _) (.inl rfl) h.eventKnown
        fun _ _ => .inl rfl
  | interrupt overflow rounds =>
      obtain ⟨high, hle, hclock', hp⟩ := timerInterrupt_eq_some hclock hs
      refine h.processed hle ?_ hp
      rintro rfl
      have hhigh := (hclock'.processed hp).high_le
      rw [show s'.clksrcHigh = 0xffffffff by rw [hp.frame]] at hhigh
      have hmax : (0xffffffff : UInt32).toNat = 0xffffffff := rfl
      omega

/-! ## Whole runs -/

/-- **Run lemma.** The clock is right in every reachable state. -/
theorem reachable_clockOk {allowed : State n → Event n → Bool} {ts : Timestamp} {s : State n}
    (h : Lib.Reachable step allowed (timerInit n ts) s) : s.ClockOk :=
  h.invariant ClockOk (clockOk_timerInit ts) fun _ _ _ hclock _ hs => step_clockOk hclock hs

/-- **Run lemma.** The invariant holds in every state that is reached without overlapping
calls before the last epoch. -/
theorem reachable_inv {ts : Timestamp} {s : State n}
    (h : Lib.Reachable step noOverlap (timerInit n ts) s)
    (htime : s.time < 0xffffffff * 2 ^ 32) : s.Inv := by
  have hboth : s.ClockOk ∧ (s.time < 0xffffffff * 2 ^ 32 → s.Inv) := by
    refine h.invariant (fun s => s.ClockOk ∧ (s.time < 0xffffffff * 2 ^ 32 → s.Inv))
      ⟨clockOk_timerInit ts, fun _ => ?_⟩ ?_
    · refine ⟨.inr ⟨rfl, rfl⟩, ?_, ?_, ?_⟩
      · rintro u v t ⟨⟩
      · rintro u pc t ts ⟨⟩
      · rintro t ⟨⟩
    · rintro s e s' ⟨hclock, hinv⟩ hallowed hs
      refine ⟨step_clockOk hclock hs, fun htime' => ?_⟩
      have hbefore := (step_time_le hclock hs).trans_lt htime'
      exact step_inv hclock (hinv hbefore) hallowed hs htime'
  exact hboth.2 htime

/-- In the firmware `timer_arm` is called for the timer of the calling task. -/
def ownTimer (_ : State n) : Event n → Bool
  | .call task tskid _ => task = tskid
  | _ => true

/-- An access of `timer_arm` is for the timer of the call, or the call returns. -/
theorem timerArm_tasks (u : Fin n) (pc : ArmPc) (t : Fin n) (ts : Timestamp) (s : State n) :
    ∃ a : Activity n, (s.timerArm u pc t ts).tasks = Function.update s.tasks u a ∧
      ∀ w, a.arms w = true → w = t := by
  have hgoto : ∀ pc' w, (Activity.arming pc' t ts).arms w = true → w = t := by
    intro pc' w hw
    simpa [Activity.arms, eq_comm] using hw
  have hleave : ∀ rc w, (Activity.outside rc : Activity n).arms w = true → w = t := by
    rintro rc w ⟨⟩
  cases pc <;> simp only [State.timerArm] <;> (try split) <;>
    first
      | exact ⟨_, rfl, hgoto _⟩
      | exact ⟨_, rfl, hleave _⟩

/-- **Step lemma.** Who arms a timer after a step did so before it, or has just called
`timer_arm`. -/
theorem step_arms {s s' : State n} {e : Event n} (hclock : s.ClockOk) (hs : step s e = some s')
    {v w : Fin n} (hv : (s'.tasks v).arms w = true) :
    (s.tasks v).arms w = true ∨ ∃ ts, e = .call v w ts := by
  cases e with
  | call u t ts =>
      simp only [step, callArm] at hs
      split at hs <;> cases hs
      rcases eq_or_ne v u with rfl | hne
      · have hw : t = w := by simpa [State.goto, Activity.arms] using hv
        exact .inr ⟨ts, by rw [hw]⟩
      · simp only [State.goto, Function.update_of_ne hne] at hv
        exact .inl hv
  | access u =>
      simp only [step] at hs
      split at hs <;> cases hs
      rename_i pc t ts hu
      obtain ⟨a, htasks, harms⟩ := timerArm_tasks u pc t ts s
      rw [htasks] at hv
      rcases eq_or_ne v u with rfl | hne
      · rw [Function.update_self] at hv
        left
        simp [hu, Activity.arms, harms w hv]
      · rw [Function.update_of_ne hne] at hv
        exact .inl hv
  | cancel t =>
      cases hs
      exact .inl hv
  | tick dt =>
      obtain ⟨rfl, -⟩ := tick_eq_some hs
      exact .inl hv
  | raise =>
      cases hs
      exact .inl hv
  | interrupt overflow rounds =>
      obtain ⟨high, -, -, hp⟩ := timerInterrupt_eq_some hclock hs
      rw [hp.frame] at hv
      exact .inl hv

/-- **Run lemma.** Tasks that arm their own timers only do not overlap. -/
theorem reachable_noOverlap {ts : Timestamp} {s : State n}
    (h : Lib.Reachable step ownTimer (timerInit n ts) s) :
    Lib.Reachable step noOverlap (timerInit n ts) s := by
  have hboth := h.invariant
    (fun s => Lib.Reachable step noOverlap (timerInit n ts) s ∧
      ∀ u t, (s.tasks u).arms t = true → u = t) ⟨.start, by rintro u t ⟨⟩⟩ ?_
  · exact hboth.1
  · rintro s e s' ⟨hreach, hown⟩ hallowed hs
    have hclock := reachable_clockOk hreach
    refine ⟨hreach.next e ?_ hs, ?_⟩
    · cases e with
      | call u t ts =>
          simp only [ownTimer, decide_eq_true_eq] at hallowed
          subst hallowed
          simp only [noOverlap, decide_eq_true_eq, ← Bool.not_eq_true]
          intro v hv
          -- Only the caller could be arming its timer, and the caller is not in a call.
          obtain rfl := hown v u hv
          simp only [step, callArm] at hs
          split at hs
          · rename_i rc hu
            rw [hu] at hv
            cases hv
          · cases hs
      | _ => rfl
    · intro v w hv
      rcases step_arms hclock hs hv with hold | ⟨ts, rfl⟩
      · exact hown v w hold
      · simpa [ownTimer] using hallowed

/-- **No timer is lost.**  In every state that is reached without overlapping calls of
`timer_arm` for one timer, and before the high word of the clock is `0xffffffff`: a running
timer with a deadline in the current epoch is looked after.  In every reachable state
`clksrc_high` is the true high word unless the interrupt of the overflow is pending, and no
timer has been expired before its deadline. -/
theorem timer_notLost {ts : Timestamp} {s : State n}
    (h : Lib.Reachable step Lib.anyEvent (timerInit n ts) s) :
    (Lib.Reachable step noOverlap (timerInit n ts) s → s.time < 0xffffffff * 2 ^ 32 →
      ∀ t, s.timerRunning t = true → (s.timerDeadline t).hi = s.clksrcHigh → s.NotLost t) ∧
    (s.clksrcHigh.toNat = s.time / 2 ^ 32 ∨ s.overflowPending = true) ∧
    ∀ x ∈ s.expiries, x.deadline.val ≤ x.time := by
  have hclock := reachable_clockOk h
  refine ⟨?_, ?_, hclock.onTime⟩
  · intro hapart htime t ht hhi
    have hinv := reachable_inv hapart htime
    rcases hinv.lookedAfter t ht with hpending | hchecks | hlt | ⟨-, hle⟩
    · exact .inl hpending
    · exact .inr (.inl hchecks)
    · rw [hhi] at hlt
      exact absurd hlt (UInt32.lt_irrefl _)
    · rcases hinv.eventKnown with hevent | ⟨-, hnone⟩
      · exact .inr (.inr (.inl ⟨hevent, hle⟩))
      · -- No event is set: the deadline is the last moment of the epoch.
        rw [hnone] at hle
        refine .inr (.inr (.inr (UInt32.le_antisymm ?_ hle)))
        rw [UInt32.le_iff_toNat_le]
        exact Nat.le_of_lt_succ (s.timerDeadline t).lo.toNat_lt
  · cases hover : s.overflowPending with
    | false => exact .inl (hclock.high_eq hover)
    | true => exact .inr rfl

/-- The accesses of a call of `timer_arm` that goes through all of its tests. -/
def armEvents (task tskid : Fin n) (tstamp : Timestamp) (accesses : Nat) : List (Event n) :=
  .call task tskid tstamp :: List.replicate accesses (.access task)

/-- Two tasks arm their timers for different epochs, the clock passes the first deadline, and
the overflow is counted. -/
def epochRun : List (Event 2) :=
  armEvents 0 0 ⟨0, 500⟩ 8 ++ armEvents 1 1 ⟨1, 70⟩ 6 ++
    [.interrupt false [(0, 0)], .tick 600, .raise, .interrupt false [(5, 0)],
      .tick (2 ^ 32 - 600), .interrupt true [(0, 1), (0, 0)]]

theorem timer_notLost_epochs :
    ∃ s, Lib.Reachable step noOverlap (timerInit 2 ⟨0, 0⟩) s ∧
      s.expiries.map (fun x => (x.tskid, x.time)) = [(0, 605)] ∧ s.clksrcHigh = 1 ∧
      s.hwEvent = some 70 ∧ s.NotLost 1 ∧ ∀ x ∈ s.expiries, x.deadline.val ≤ x.time := by
  obtain ⟨s, hreach, hexpiries, hevent, htime, hrun, hhi, hhigh⟩ :
      ∃ s, Lib.Reachable step ownTimer (timerInit 2 ⟨0, 0⟩) s ∧
        s.expiries.map (fun x => (x.tskid, x.time)) = [(0, 605)] ∧ s.hwEvent = some 70 ∧
        s.time < 0xffffffff * 2 ^ 32 ∧ s.timerRunning 1 = true ∧
        (s.timerDeadline 1).hi = s.clksrcHigh ∧ s.clksrcHigh = 1 :=
    Lib.Reachable.exists_of_runEvents epochRun (by decide +kernel)
  have hapart := reachable_noOverlap hreach
  have hall := timer_notLost (hapart.mono fun _ _ _ => rfl)
  exact ⟨s, hapart, hexpiries, hhigh, hevent, hall.1 hapart htime 1 hrun hhi, hall.2.2⟩

/-- Two tasks arm the timer 0 at once and a third one its own, in the order that loses a
timer: the deadline of the second call replaces that of the first one, which then checks its
own deadline against `next_deadline`. -/
def overlapRun : List (Event 3) :=
  armEvents 0 0 ⟨0, 1000⟩ 3 ++ armEvents 1 0 ⟨0, 5⟩ 8 ++ armEvents 2 2 ⟨0, 600⟩ 8 ++
    [.tick 10, .interrupt false [(0, 0)]] ++ List.replicate 4 (.access 0)

/-- In the last epoch the high word of a deadline is what stands for "no deadline". -/
def lastEpochRun : List (Event 1) :=
  armEvents 0 0 ⟨0xffffffff, 100⟩ 8 ++ [.interrupt false [(0, 0)]]

theorem not_timer_notLost :
    (∃ s, Lib.Reachable step Lib.anyEvent (timerInit 3 ⟨0, 0⟩) s ∧
      s.time < 0xffffffff * 2 ^ 32 ∧ s.timerRunning 0 = true ∧
      (s.timerDeadline 0).hi = s.clksrcHigh ∧ ¬ s.NotLost 0) ∧
    ∃ s, Lib.Reachable step noOverlap (timerInit 1 ⟨0xffffffff, 0⟩) s ∧
      s.timerRunning 0 = true ∧ (s.timerDeadline 0).hi = s.clksrcHigh ∧ ¬ s.NotLost 0 := by
  constructor
  · exact Lib.Reachable.exists_of_runEvents overlapRun (by decide +kernel)
  · exact Lib.Reachable.exists_of_runEvents lastEpochRun (by decide +kernel)

end Timer
end CrosEc
