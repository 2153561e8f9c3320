import CrosEc.PhysicalPresence.Interleaved

/-!
# Physical presence takes the full sequence

While a sequence is in progress, the detector's counters are those of the sequence that was
started last (`Running`).  `physical_detect_done` keeps the callback only if this sequence is
full, and from there on the state keeps everybody else away until the callback has been called.

Two accesses without the mutex break this.  `physical_detect_prompt` writes its state over
whatever it finds: over an abort, which then has no effect
(`physical_detect_abort_overwritten`), or over the idle state, which then nothing leaves.  And
`physical_detect_check_press` computes the interval before it locks: a press from before a start
is counted for it (`physical_detect_early_press_counted`).
-/

namespace CrosEc
namespace PhysicalPresence

open Lib

variable {ι κ : Type} {t : Timing} {s s' : System ι κ} {e : Event ι κ}
  {d : Detect κ} {q : Sequence κ}

/-! ## The parts of the detector -/

/-- What the deferred functions' deadlines leave alone. -/
structure SameProgress (d d' : Detect κ) : Prop where
  state : d'.ppDetectState = d.ppDetectState
  callback : d'.ppDetectCallback = d.ppDetectCallback
  count : d'.ppPressCount = d.ppPressCount
  needed : d'.ppPressCountNeeded = d.ppPressCountNeeded
  lastPress : d'.ppLastPress = d.ppLastPress

theorem SameProgress.refl (d : Detect κ) : SameProgress d d := ⟨rfl, rfl, rfl, rfl, rfl⟩

theorem sameProgress_cancelDeferred (f : Deferred) (d : Detect κ) :
    SameProgress d (d.cancelDeferred f) := ⟨rfl, rfl, rfl, rfl, rfl⟩

theorem counts_iff {dt : Int} :
    d.counts t dt = true ↔ d.ppDetectState.inProgress = true ∧
      d.ppPressCount < d.ppPressCountNeeded ∧ (t.minInterval d.ppPressCount : Int) ≤ dt ∧
      dt ≤ t.maxInterval d.ppPressCount := by
  simp only [Detect.counts, Bool.and_eq_true, decide_eq_true_eq, and_assoc]

theorem checkPress_of_not_counts {now clock : Nat} {dt : Int} (h : d.counts t dt = false) :
    d.checkPress t now dt clock = d := by
  unfold Detect.checkPress
  by_cases hprogress : d.ppDetectState.inProgress = false
  · rw [if_pos hprogress]
  rw [if_neg hprogress]
  by_cases hcount : d.ppPressCountNeeded ≤ d.ppPressCount
  · rw [if_pos hcount]
  rw [if_neg hcount]
  by_cases hinterval : dt < t.minInterval d.ppPressCount ∨ t.maxInterval d.ppPressCount < dt
  · rw [if_pos hinterval]
  · have hcounts : d.counts t dt = true :=
      counts_iff.mpr ⟨Bool.not_eq_false _ ▸ hprogress, by omega, by omega, by omega⟩
    rw [h] at hcounts
    cases hcounts

/-- A press that counts: the counters, and another call of `physical_detect_done`. -/
theorem checkPress_of_counts (now clock : Nat) {dt : Int} (h : d.counts t dt = true) :
    SameProgress { d with
        ppDetectState := .betweenPresses
        ppLastPress := now
        ppPressCount := d.ppPressCount + 1 } (d.checkPress t now dt clock) ∧
      ((d.checkPress t now dt clock).deferredUntil .done).isSome = true := by
  obtain ⟨hprogress, hcount, hmin, hmax⟩ := counts_iff.mp h
  have hinterval : ¬(dt < t.minInterval d.ppPressCount ∨ t.maxInterval d.ppPressCount < dt) := by
    omega
  unfold Detect.checkPress
  rw [if_neg (by simp [hprogress]), if_neg (by omega), if_neg hinterval]
  dsimp only
  split_ifs
  · exact ⟨⟨rfl, rfl, rfl, rfl, rfl⟩, by simp [Detect.callDeferred]⟩
  · exact ⟨⟨rfl, rfl, rfl, rfl, rfl⟩, by simp [Detect.callDeferred]⟩
  · exact ⟨⟨rfl, rfl, rfl, rfl, rfl⟩, by simp [Detect.callDeferred]⟩

/-! ## The invariant -/

/-- The detector's counters are those of the sequence. -/
structure Running (t : Timing) (d : Detect κ) (q : Sequence κ) : Prop where
  callback : d.ppDetectCallback = some q.callback
  count : d.ppPressCount = q.presses.length
  needed : d.ppPressCountNeeded = q.needed
  lastPress : d.ppLastPress = q.presses.headD q.startTime
  enough : q.presses.length ≤ q.needed
  wellTimed : WellTimed t q.startTime q.presses
  notAborted : q.aborted = false
  notEnded : q.ended = false

/-- No callback has been called for the last sequence. -/
def System.Uncalled (s : System ι κ) : Prop := ∀ c ∈ s.calls, c.number < s.sequences.length

structure Inv (t : Timing) (s : System ι κ) : Prop where
  earned : ∀ c ∈ s.calls, c.Earned t
  once : (s.calls.map Call.number).Nodup
  known : ∀ c ∈ s.calls, c.number ≤ s.sequences.length
  inDone : s.hook.inDone = true ↔ s.detect.ppDetectState = .finishing
  inProgress : s.detect.ppDetectState.inProgress = true →
    ∃ q qs, s.sequences = q :: qs ∧ Running t s.detect q ∧ s.Uncalled
  aborting : s.detect.ppDetectState = .abort → ∃ q qs, s.sequences = q :: qs ∧ q.ended = false
  keeps : s.hook = .finished ∨ s.hook = .calling →
    ∀ callback, s.detect.ppDetectCallback = some callback →
      ∃ q qs, s.sequences = q :: qs ∧ callback = q.callback ∧ q.Full t ∧ s.Uncalled

theorem inv_init : Inv t (System.init ι κ) where
  earned := by simp [System.init]
  once := by simp [System.init]
  known := by simp [System.init]
  inDone := by simp [System.init, Detect.init, HookTask.inDone]
  inProgress := by simp [System.init, Detect.init, PpDetectState.inProgress]
  aborting := by simp [System.init, Detect.init]
  keeps := by simp [System.init, Detect.init]

theorem Running.same {d' : Detect κ} (h : Running t d q) (hsame : SameProgress d d') :
    Running t d' q where
  callback := hsame.callback.trans h.callback
  count := hsame.count.trans h.count
  needed := hsame.needed.trans h.needed
  lastPress := hsame.lastPress.trans h.lastPress
  enough := h.enough
  wellTimed := h.wellTimed
  notAborted := h.notAborted
  notEnded := h.notEnded

/-- Steps that only move a deadline, or a task outside the two ends of `physical_detect_done`. -/
theorem Inv.same (h : Inv t s) (hsame : SameProgress s.detect s'.detect)
    (hsequences : s'.sequences = s.sequences) (hcalls : s'.calls = s.calls)
    (hhook : s'.hook = s.hook ∨ (s.hook.inDone = false ∧ s'.hook.inDone = false)) : Inv t s' where
  earned := hcalls ▸ h.earned
  once := hcalls ▸ h.once
  known := by
    rw [hcalls, hsequences]
    exact h.known
  inDone := by
    rw [hsame.state, ← h.inDone]
    rcases hhook with heq | ⟨hbefore, hafter⟩
    · rw [heq]
    · rw [hbefore, hafter]
  inProgress := by
    rw [hsame.state, hsequences]
    intro hprogress
    obtain ⟨q, qs, hq, hrunning, huncalled⟩ := h.inProgress hprogress
    refine ⟨q, qs, hq, hrunning.same hsame, ?_⟩
    unfold System.Uncalled
    rwa [hcalls, hsequences]
  aborting := by
    rw [hsame.state, hsequences]
    exact h.aborting
  keeps := by
    rw [hsame.callback, hsequences]
    rcases hhook with heq | ⟨-, hafter⟩
    · rw [heq]
      unfold System.Uncalled
      rw [hcalls, hsequences]
      exact h.keeps
    · intro hin
      rcases hin with hin | hin <;> rw [hin] at hafter <;> cases hafter

/-! ## The hook task -/

theorem PpDetectState.not_inProgress_of {x : PpDetectState} (h : x.inProgress = true) :
    x ≠ .finishing ∧ x ≠ .abort ∧ x ≠ .idle := by
  cases x <;> simp [PpDetectState.inProgress] at h ⊢

/-- The first part of `physical_detect_done`. -/
theorem Inv.finish (h : Inv t s) :
    Inv t { s with detect := s.detect.finish, hook := .finished } where
  earned := h.earned
  once := h.once
  known := h.known
  inDone := by simp [HookTask.inDone, Detect.finish]
  inProgress := by simp [Detect.finish, PpDetectState.inProgress]
  aborting := by simp [Detect.finish]
  keeps := by
    intro _ callback hcallback
    change (if _ then none else _) = some callback at hcallback
    rw [ite_eq_iff] at hcallback
    obtain ⟨-, hnone⟩ | ⟨hfull, hcallback⟩ := hcallback
    · cases hnone
    simp only [not_or, Bool.not_eq_false, not_lt] at hfull
    obtain ⟨q, qs, hq, hrunning, huncalled⟩ := h.inProgress hfull.1
    have hcount : q.presses.length = q.needed := by
      have h₁ := hrunning.enough
      have h₂ := hfull.2
      rw [hrunning.count, hrunning.needed] at h₂
      omega
    exact ⟨q, qs, hq, Option.some.inj (hcallback.symm.trans hrunning.callback),
      ⟨hcount, hrunning.wellTimed, hrunning.notAborted⟩, huncalled⟩

/-- The call of the callback. -/
theorem Inv.call {callback : κ} (h : Inv t s) (hhook : s.hook = .calling)
    (hcallback : s.detect.ppDetectCallback = some callback) :
    Inv t { s with
      calls := ⟨callback, s.sequences.length, s.sequences.head?⟩ :: s.calls
      hook := .called } := by
  obtain ⟨q, qs, hq, rfl, hfull, huncalled⟩ := h.keeps (.inr hhook) callback hcallback
  have hfinishing : s.detect.ppDetectState = .finishing := h.inDone.mp (by rw [hhook]; rfl)
  exact {
    earned := by
      intro c hc
      rcases List.mem_cons.mp hc with rfl | hc
      · exact ⟨q, by simp [hq], rfl, hfull⟩
      · exact h.earned c hc
    once := by
      simp only [List.map_cons, List.nodup_cons]
      refine ⟨?_, h.once⟩
      intro hmem
      obtain ⟨c, hc, hnumber⟩ := List.mem_map.mp hmem
      have := huncalled c hc
      omega
    known := by
      intro c hc
      rcases List.mem_cons.mp hc with rfl | hc
      · exact le_rfl
      · exact h.known c hc
    inDone := by simp [HookTask.inDone, hfinishing]
    inProgress := by
      change s.detect.ppDetectState.inProgress = true → _
      simp [hfinishing, PpDetectState.inProgress]
    aborting := by
      change s.detect.ppDetectState = .abort → _
      simp [hfinishing]
    keeps := by simp }

/-- The end of `physical_detect_done`. -/
theorem Inv.goIdle (h : Inv t s) :
    Inv t (System.note (fun q => { q with ended := true })
      { s with detect := s.detect.goIdle, hook := .idle }) where
  earned := h.earned
  once := h.once
  known := by
    intro c hc
    simpa [System.note] using h.known c hc
  inDone := by simp [System.note, HookTask.inDone, Detect.goIdle]
  inProgress := by simp [System.note, Detect.goIdle, PpDetectState.inProgress]
  aborting := by simp [System.note, Detect.goIdle]
  keeps := by simp [System.note]

/-- A press is counted. -/
theorem Inv.count {now : Nat} {dt : Int} (h : Inv t s) (hcounts : s.detect.counts t dt = true)
    (hdt : dt = (now : Int) - s.detect.ppLastPress) :
    Inv t (System.note (fun q => { q with presses := now :: q.presses })
      { s with detect := s.detect.checkPress t now dt s.clock, hook := .idle }) := by
  obtain ⟨hprogress, hless, hmin, hmax⟩ := counts_iff.mp hcounts
  obtain ⟨hsame, -⟩ := checkPress_of_counts now s.clock hcounts
  obtain ⟨q, qs, hq, hrunning, huncalled⟩ := h.inProgress hprogress
  have hnow : q.presses.headD q.startTime + t.minInterval q.presses.length ≤ now ∧
      now ≤ q.presses.headD q.startTime + t.maxInterval q.presses.length := by
    rw [hrunning.count] at hmin hmax
    rw [hrunning.lastPress] at hdt
    omega
  have hstate : (s.detect.checkPress t now dt s.clock).ppDetectState = .betweenPresses := hsame.state
  exact {
    earned := h.earned
    once := h.once
    known := by
      intro c hc
      simpa [System.note] using h.known c hc
    inDone := by simp [System.note, HookTask.inDone, hstate]
    inProgress := by
      intro _
      refine ⟨{ q with presses := now :: q.presses }, qs, by simp [System.note, hq], ?_, ?_⟩
      · exact {
          callback := hsame.callback.trans hrunning.callback
          count := by
            rw [List.length_cons, ← hrunning.count]
            exact hsame.count
          needed := hsame.needed.trans hrunning.needed
          lastPress := hsame.lastPress
          enough := by
            have h₁ := hrunning.count
            have h₂ := hrunning.needed
            simp only [List.length_cons]
            omega
          wellTimed := ⟨hrunning.wellTimed, hnow⟩
          notAborted := hrunning.notAborted
          notEnded := hrunning.notEnded }
      · intro c hc
        simpa [System.note] using huncalled c hc
    aborting := by simp [System.note, hstate]
    keeps := by simp [System.note] }

theorem Inv.hookStep (h : Inv t s) (hallowed : s.undisturbed t Event.hook = true)
    (hstep : s.hookStep t = some s') : Inv t s' := by
  unfold System.hookStep at hstep
  unfold System.undisturbed at hallowed
  cases hhook : s.hook with
  | idle =>
      rw [hhook] at hstep
      cases hstep
  | done =>
      rw [hhook] at hstep
      obtain rfl := Option.some.inj hstep
      exact h.finish
  | finished =>
      rw [hhook] at hstep
      obtain rfl := Option.some.inj hstep
      have hfinishing : s.detect.ppDetectState = .finishing := h.inDone.mp (by rw [hhook]; rfl)
      exact {
        earned := h.earned
        once := h.once
        known := h.known
        inDone := by
          change HookTask.inDone (if _ then _ else _) = true ↔ _
          split_ifs <;> simp [HookTask.inDone, hfinishing]
        inProgress := h.inProgress
        aborting := h.aborting
        keeps := fun _ => h.keeps (.inl hhook) }
  | calling =>
      rw [hhook] at hstep
      obtain ⟨callback, hcallback, rfl⟩ := Option.map_eq_some_iff.mp hstep
      exact h.call hhook hcallback
  | called =>
      rw [hhook] at hstep
      obtain rfl := Option.some.inj hstep
      have hfinishing : s.detect.ppDetectState = .finishing := h.inDone.mp (by rw [hhook]; rfl)
      exact {
        earned := h.earned
        once := h.once
        known := h.known
        inDone := by simp [HookTask.inDone, Detect.clearCallback, hfinishing]
        inProgress := by
          simp [Detect.clearCallback, hfinishing, PpDetectState.inProgress]
        aborting := h.aborting
        keeps := by simp }
  | goingIdle =>
      rw [hhook] at hstep
      obtain rfl := Option.some.inj hstep
      exact h.goIdle
  | prompt =>
      rw [hhook] at hstep hallowed
      obtain rfl := Option.some.inj hstep
      obtain ⟨q, qs, hq, hrunning, huncalled⟩ := h.inProgress hallowed
      exact {
        earned := h.earned
        once := h.once
        known := h.known
        inDone := by simp [HookTask.inDone, Detect.prompt]
        inProgress := fun _ => ⟨q, qs, hq, ⟨hrunning.callback, hrunning.count, hrunning.needed,
          hrunning.lastPress, hrunning.enough, hrunning.wellTimed, hrunning.notAborted,
          hrunning.notEnded⟩, huncalled⟩
        aborting := by simp [Detect.prompt]
        keeps := by simp }
  | checkPress =>
      rw [hhook] at hstep
      obtain rfl := Option.some.inj hstep
      exact h.same (.refl _) rfl rfl (.inr ⟨by rw [hhook]; rfl, rfl⟩)
  | pressed now =>
      rw [hhook] at hstep
      obtain rfl := Option.some.inj hstep
      exact h.same (.refl _) rfl rfl (.inr ⟨by rw [hhook]; rfl, rfl⟩)
  | timed now dt =>
      rw [hhook] at hstep hallowed
      obtain rfl := Option.some.inj hstep
      by_cases hcounts : s.detect.counts t dt = true
      · rw [if_pos hcounts]
        simp only [hcounts, Bool.not_true, Bool.false_or, decide_eq_true_eq] at hallowed
        exact h.count hcounts hallowed
      · rw [if_neg hcounts]
        refine h.same ?_ rfl rfl (.inr ⟨by rw [hhook]; rfl, rfl⟩)
        dsimp only
        rw [checkPress_of_not_counts (Bool.eq_false_iff.mpr hcounts)]
        exact .refl _

/-! ## The other tasks -/

/-- `physical_detect_abort` -/
theorem Inv.abort (h : Inv t s) : Inv t s.abortStep := by
  unfold System.abortStep Detect.abort
  by_cases hprogress : s.detect.ppDetectState.inProgress = true
  · rw [if_pos hprogress, if_pos hprogress]
    obtain ⟨q, qs, hq, hrunning, huncalled⟩ := h.inProgress hprogress
    have hnotDone : s.hook.inDone = false := by
      rw [← Bool.not_eq_true, h.inDone]
      exact (PpDetectState.not_inProgress_of hprogress).1
    exact {
      earned := h.earned
      once := h.once
      known := by
        intro c hc
        simpa [System.note] using h.known c hc
      inDone := by
        change s.hook.inDone = true ↔ PpDetectState.abort = .finishing
        simp [hnotDone]
      inProgress := by
        intro habort
        cases habort
      aborting := fun _ => ⟨{ q with aborted := true }, qs, by simp [System.note, hq],
        hrunning.notEnded⟩
      keeps := by
        intro hhook
        change s.hook = .finished ∨ s.hook = .calling at hhook
        rcases hhook with hhook | hhook <;> rw [hhook] at hnotDone <;> cases hnotDone }
  · rw [if_neg hprogress, if_neg hprogress]
    exact h

/-- The detector is idle where the last sequence has ended. -/
theorem Inv.idle (h : Inv t s) (hended : ∀ q ∈ s.sequences.head?, q.ended = true)
    (hdone : s.hook.inDone = false) : s.detect.ppDetectState = .idle := by
  have hnot : ∀ q qs, s.sequences = q :: qs → q.ended = true := by
    intro q qs hq
    exact hended q (by simp [hq])
  cases hstate : s.detect.ppDetectState with
  | idle => rfl
  | awaitingPress | betweenPresses =>
      obtain ⟨q, qs, hq, hrunning, -⟩ := h.inProgress (by rw [hstate]; rfl)
      have := hrunning.notEnded
      rw [hnot q qs hq] at this
      cases this
  | finishing =>
      rw [h.inDone.mpr hstate] at hdone
      cases hdone
  | abort =>
      obtain ⟨q, qs, hq, hnotEnded⟩ := h.aborting hstate
      rw [hnot q qs hq] at hnotEnded
      cases hnotEnded

theorem System.Scheduled.same (h : s.Scheduled)
    (hdone : (s.detect.deferredUntil .done).isSome = true →
      (s'.detect.deferredUntil .done).isSome = true)
    (htasks : ∀ i, (s.tasks i).inStart = true → (s'.tasks i).inStart = true) : s'.Scheduled := by
  rcases h with hdue | ⟨i, hstart⟩
  · exact .inl (hdone hdue)
  · exact .inr ⟨i, htasks i hstart⟩

variable [DecidableEq ι]

/-- The part of `physical_detect_start` with the mutex. -/
theorem Inv.start {i : ι} {isLong : Bool} {callback : κ} (h : Inv t s) :
    Inv t (s.startStep t i isLong callback) := by
  unfold System.startStep
  cases hbegin : s.detect.begin t isLong callback s.clock with
  | none => exact h
  | some d =>
      unfold Detect.begin at hbegin
      by_cases hbusy : s.detect.busy = true
      · rw [if_pos hbusy] at hbegin
        cases hbegin
      rw [if_neg hbusy] at hbegin
      obtain rfl := Option.some.inj hbegin
      have hidle : s.detect.ppDetectState = .idle := by simpa [Detect.busy] using hbusy
      have hnotDone : s.hook.inDone = false := by
        rw [← Bool.not_eq_true, h.inDone, hidle]
        simp
      have huncalled : ∀ c ∈ s.calls, c.number < s.sequences.length + 1 := fun c hc =>
        Nat.lt_succ_of_le (h.known c hc)
      exact {
        earned := h.earned
        once := h.once
        known := fun c hc => (huncalled c hc).le
        inDone := by
          change s.hook.inDone = true ↔ PpDetectState.betweenPresses = .finishing
          simp [hnotDone]
        inProgress := fun _ => ⟨_, s.sequences, rfl,
          ⟨rfl, rfl, rfl, rfl, Nat.zero_le _, trivial, rfl, rfl⟩, huncalled⟩
        aborting := fun habort => by cases habort
        keeps := by
          intro hhook
          change s.hook = .finished ∨ s.hook = .calling at hhook
          rcases hhook with hhook | hhook <;> rw [hhook] at hnotDone <;> cases hnotDone }

theorem Inv.resume {i : ι} (h : Inv t s) (hstep : s.resumeStep t i = some s') : Inv t s' := by
  unfold System.resumeStep at hstep
  cases htask : s.tasks i with
  | idle =>
      rw [htask] at hstep
      cases hstep
  | cancelCheckPress | callPrompt | callDone | callCheckPress =>
      rw [htask] at hstep
      obtain rfl := Option.some.inj hstep
      exact h.same ⟨rfl, rfl, rfl, rfl, rfl⟩ rfl rfl (.inl rfl)

/-- **Step lemma.** -/
theorem inv_step (h : Inv t s) (hallowed : s.undisturbed t e = true)
    (hstep : s.step t e = some s') : Inv t s' := by
  cases e with
  | elapse us =>
      obtain rfl := Option.some.inj hstep
      exact h.same (.refl _) rfl rfl (.inl rfl)
  | dispatch f =>
      simp only [System.step, Option.ite_none_right_eq_some, Option.some.injEq] at hstep
      obtain ⟨⟨hidle, -⟩, rfl⟩ := hstep
      exact h.same (sameProgress_cancelDeferred f _) rfl rfl
        (.inr ⟨by rw [hidle]; rfl, by cases f <;> rfl⟩)
  | hook => exact h.hookStep hallowed hstep
  | start i isLong callback =>
      simp only [System.step, Option.ite_none_right_eq_some, Option.some.injEq] at hstep
      obtain ⟨-, rfl⟩ := hstep
      exact h.start
  | abort i =>
      simp only [System.step, Option.ite_none_right_eq_some, Option.some.injEq] at hstep
      obtain ⟨-, rfl⟩ := hstep
      exact h.abort
  | press i =>
      simp only [System.step, Option.ite_none_right_eq_some, Option.some.injEq] at hstep
      obtain ⟨-, rfl⟩ := hstep
      unfold System.pressStep
      split_ifs
      · exact h.same (.refl _) rfl rfl (.inl rfl)
      · exact h
  | resume i => exact h.resume hstep

/-! ## The end of a sequence -/

/-- Nobody else's start is touched by a task outside of a start. -/
theorem inStart_setTask {i j : ι} {p : OtherTask} (hi : (s.tasks i).inStart = false)
    (hj : (s.tasks j).inStart = true) : ((s.setTask i p).tasks j).inStart = true := by
  have hne : j ≠ i := by
    intro heq
    rw [heq, hi] at hj
    cases hj
  change (Function.update s.tasks i p j).inStart = true
  rwa [Function.update_of_ne hne]

omit [DecidableEq ι] in
/-- What is not done now is scheduled. -/
theorem Ending.scheduled {x : HookTask} (h : s.Ending) (hhook : s.hook = x) (hdone : x ≠ .done)
    (hin : x.inDone = false) : s.Scheduled := by
  rcases h with hnow | hnow | hscheduled
  · exact absurd (hhook.symm.trans hnow) hdone
  · rw [hhook, hin] at hnow
    cases hnow
  · exact hscheduled

omit [DecidableEq ι] in
theorem ending_hookStep (h : s.detect.busy = true → s.Ending)
    (hallowed : s.undisturbed t Event.hook = true) (hstep : s.hookStep t = some s')
    (hbusy : s'.detect.busy = true) : s'.Ending := by
  unfold System.hookStep at hstep
  unfold System.undisturbed at hallowed
  cases hhook : s.hook with
  | idle =>
      rw [hhook] at hstep
      cases hstep
  | done =>
      rw [hhook] at hstep
      obtain rfl := Option.some.inj hstep
      exact .inr (.inl rfl)
  | finished =>
      rw [hhook] at hstep
      obtain rfl := Option.some.inj hstep
      refine .inr (.inl ?_)
      dsimp only
      split_ifs <;> rfl
  | calling =>
      rw [hhook] at hstep
      obtain ⟨callback, -, rfl⟩ := Option.map_eq_some_iff.mp hstep
      exact .inr (.inl rfl)
  | called =>
      rw [hhook] at hstep
      obtain rfl := Option.some.inj hstep
      exact .inr (.inl rfl)
  | goingIdle =>
      rw [hhook] at hstep
      obtain rfl := Option.some.inj hstep
      simp [System.note, Detect.goIdle, Detect.busy] at hbusy
  | prompt =>
      rw [hhook] at hstep hallowed
      obtain rfl := Option.some.inj hstep
      have hbefore : s.detect.busy = true := by
        simp [Detect.busy, (PpDetectState.not_inProgress_of hallowed).2.2]
      have hscheduled := Ending.scheduled (h hbefore) hhook (by simp) rfl
      exact .inr (.inr (hscheduled.same id fun _ => id))
  | checkPress | pressed now =>
      rw [hhook] at hstep
      obtain rfl := Option.some.inj hstep
      have hscheduled := Ending.scheduled (h hbusy) hhook (by simp) rfl
      exact .inr (.inr (hscheduled.same id fun _ => id))
  | timed now dt =>
      rw [hhook] at hstep
      obtain rfl := Option.some.inj hstep
      by_cases hcounts : s.detect.counts t dt = true
      · rw [if_pos hcounts]
        exact .inr (.inr (.inl (checkPress_of_counts _ _ hcounts).2))
      · rw [if_neg hcounts] at hbusy ⊢
        have hsame : s.detect.checkPress t now dt s.clock = s.detect :=
          checkPress_of_not_counts (Bool.eq_false_iff.mpr hcounts)
        rw [hsame] at hbusy ⊢
        have hscheduled := Ending.scheduled (h hbusy) hhook (by simp) rfl
        exact .inr (.inr (hscheduled.same id fun _ => id))

/-- **Step lemma.** -/
theorem ending_step (h : s.detect.busy = true → s.Ending) (hallowed : s.undisturbed t e = true)
    (hstep : s.step t e = some s') (hbusy : s'.detect.busy = true) : s'.Ending := by
  cases e with
  | elapse us =>
      obtain rfl := Option.some.inj hstep
      exact h hbusy
  | dispatch f =>
      simp only [System.step, Option.ite_none_right_eq_some, Option.some.injEq] at hstep
      obtain ⟨⟨hidle, -⟩, rfl⟩ := hstep
      cases f with
      | done => exact .inl rfl
      | prompt | checkPress =>
          have hscheduled := Ending.scheduled (h hbusy) hidle (by simp) rfl
          exact .inr (.inr (hscheduled.same id fun _ => id))
  | hook => exact ending_hookStep h hallowed hstep hbusy
  | start i isLong callback =>
      simp only [System.step, Option.ite_none_right_eq_some, Option.some.injEq] at hstep
      obtain ⟨-, rfl⟩ := hstep
      unfold System.startStep at hbusy ⊢
      cases hbegin : s.detect.begin t isLong callback s.clock with
      | none =>
          rw [hbegin] at hbusy
          exact h hbusy
      | some d => exact .inr (.inr (.inr ⟨i, by simp [System.setTask, OtherTask.inStart]⟩))
  | abort i =>
      simp only [System.step, Option.ite_none_right_eq_some, Option.some.injEq] at hstep
      obtain ⟨-, rfl⟩ := hstep
      unfold System.abortStep Detect.abort at hbusy ⊢
      by_cases hprogress : s.detect.ppDetectState.inProgress = true
      · rw [if_pos hprogress, if_pos hprogress]
        exact .inr (.inr (.inl (by simp [System.note, Detect.callDeferred])))
      · rw [if_neg hprogress, if_neg hprogress] at hbusy ⊢
        exact h hbusy
  | press i =>
      simp only [System.step, Option.ite_none_right_eq_some, Option.some.injEq] at hstep
      obtain ⟨htask, rfl⟩ := hstep
      unfold System.pressStep at hbusy ⊢
      by_cases hbefore : s.detect.busy = true
      · rw [if_pos hbefore] at hbusy ⊢
        obtain hdone | hdone | hscheduled := h hbusy
        · exact .inl hdone
        · exact .inr (.inl hdone)
        · exact .inr (.inr (hscheduled.same id fun j => inStart_setTask (by rw [htask]; rfl)))
      · rw [if_neg hbefore] at hbusy
        exact absurd hbusy hbefore
  | resume i =>
      change s.resumeStep t i = some s' at hstep
      unfold System.resumeStep at hstep
      cases htask : s.tasks i with
      | idle =>
          rw [htask] at hstep
          cases hstep
      | cancelCheckPress | callPrompt =>
          rw [htask] at hstep
          obtain rfl := Option.some.inj hstep
          exact .inr (.inr (.inr ⟨i, by simp [System.setTask, OtherTask.inStart]⟩))
      | callDone =>
          rw [htask] at hstep
          obtain rfl := Option.some.inj hstep
          exact .inr (.inr (.inl (by simp [Detect.callDeferred])))
      | callCheckPress =>
          rw [htask] at hstep
          obtain rfl := Option.some.inj hstep
          obtain hdone | hdone | hscheduled := h hbusy
          · exact .inl hdone
          · exact .inr (.inl hdone)
          · refine .inr (.inr (hscheduled.same ?_ ?_))
            · simp [Detect.callDeferred]
            · exact fun j => inStart_setTask (by rw [htask]; rfl)

/-! ## Runs -/

theorem inv_of_reachable (h : Reachable (System.step t) (System.undisturbed t)
    (System.init ι κ) s) : Inv t s :=
  h.invariant (Inv t) inv_init fun _ _ _ hinv hallowed hstep => inv_step hinv hallowed hstep

theorem ending_of_reachable (h : Reachable (System.step t) (System.undisturbed t)
    (System.init ι κ) s) : s.detect.busy = true → s.Ending :=
  h.invariant (fun s => s.detect.busy = true → s.Ending) (by simp [System.init, Detect.init,
    Detect.busy]) fun _ _ _ hending hallowed hstep => ending_step hending hallowed hstep

/-- **Physical presence takes the full sequence**, in every interleaving in which
`physical_detect_prompt` writes while a sequence is in progress, and a press is counted with the
time since the last press or the start. -/
theorem physical_presence_full_sequence (h : Reachable (System.step t) (System.undisturbed t)
    (System.init ι κ) s) : s.Kept t where
  earned := (inv_of_reachable h).earned
  once := (inv_of_reachable h).once
  restart := by
    intro hended hdone isLong callback
    have hidle := (inv_of_reachable h).idle hended hdone
    simp [Detect.begin, Detect.busy, hidle]
  ending := ending_of_reachable h

/-! ## Concrete interleavings, with two other tasks -/

/-- A press that the hook task checks at once. -/
def pressEvents (us : Nat) : List (Event Bool Unit) :=
  [.elapse us, .press true, .resume true, .elapse 1, .dispatch .checkPress, .hook, .hook, .hook]

/-- `physical_detect_done`, with a callback to call. -/
def doneEvents : List (Event Bool Unit) :=
  [.elapse 1, .dispatch .done, .hook, .hook, .hook, .hook, .hook]

/-- The rest of a start, and the first prompt. -/
def startEvents : List (Event Bool Unit) :=
  [.resume false, .resume false, .resume false, .elapse 100001, .dispatch .prompt, .hook]

theorem physical_presence_full_sequence_run :
    ∃ s : System Bool Unit, s.calls.length = 1 ∧ s.Kept .strict := by
  obtain ⟨s, hrun, hcalls⟩ : ∃ s, Reachable (System.step .strict) (System.undisturbed .strict)
      (System.init Bool Unit) s ∧ s.calls.length = 1 :=
    Reachable.exists_of_runEvents
      (.start false false () :: (startEvents ++ (List.replicate 5 (pressEvents 200000)).flatten ++
        doneEvents))
      (by decide +kernel)
  exact ⟨s, hcalls, physical_presence_full_sequence hrun⟩

/-- **An abort without effect.** The abort comes before the start has set the deadlines, the
prompt overwrites its state, and five presses later the callback is called. -/
theorem physical_detect_abort_overwritten :
    ∃ s, Reachable (System.step .strict) anyEvent (System.init Bool Unit) s ∧ ¬ s.Kept .strict := by
  obtain ⟨s, hrun, haborted⟩ : ∃ s, Reachable (System.step .strict) anyEvent
      (System.init Bool Unit) s ∧ ∃ c ∈ s.calls, ∃ q ∈ c.sequence, q.aborted = true :=
    Reachable.exists_of_runEvents
      (.start false false () :: .abort true :: (startEvents ++
        (List.replicate 5 (pressEvents 200000)).flatten ++ doneEvents))
      (by decide +kernel)
  refine ⟨s, hrun, ?_⟩
  intro hkept
  obtain ⟨c, hc, q, hq, habort⟩ := haborted
  obtain ⟨q', hq', -, -, -, hnot⟩ := hkept.earned c hc
  obtain rfl := Option.some.inj (hq'.symm.trans hq)
  rw [habort] at hnot
  cases hnot

/-- **A press from before the start.** It came while a sequence was being aborted, and is checked
after that.  Another start gets between the time that `physical_detect_check_press` computes and
its mutex, and needs one press less. -/
theorem physical_detect_early_press_counted :
    ∃ s, Reachable (System.step .strict) anyEvent (System.init Bool Unit) s ∧ ¬ s.Kept .strict := by
  obtain ⟨s, hrun, hearly⟩ : ∃ s, Reachable (System.step .strict) anyEvent
      (System.init Bool Unit) s ∧
        ∃ c ∈ s.calls, ∃ q ∈ c.sequence, ¬ WellTimed .strict q.startTime q.presses :=
    Reachable.exists_of_runEvents
      ([.start false false (), .resume false, .resume false, .resume false, .elapse 200000,
        .abort true, .press true, .resume true, .elapse 1, .dispatch .done, .hook, .hook, .hook,
        .dispatch .checkPress, .hook, .hook, .start false false (), .hook] ++ startEvents ++
        (List.replicate 4 (pressEvents 200000)).flatten ++ doneEvents)
      (by decide +kernel)
  refine ⟨s, hrun, ?_⟩
  intro hkept
  obtain ⟨c, hc, q, hq, hnot⟩ := hearly
  obtain ⟨q', hq', -, -, htimed, -⟩ := hkept.earned c hc
  obtain rfl := Option.some.inj (hq'.symm.trans hq)
  exact hnot htimed

end PhysicalPresence
end CrosEc
