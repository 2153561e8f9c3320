import CrosEc.Task.Model

/-!
# No wake-up is lost

A task with a pending event is in `tasks_ready`, or who set the event has yet to put it
there.  The one who fails to do so is `task_set_event` with `wait`: it leaves the ready bit of
the receiver to the first `__schedule` of `__wait_evt`, which is not called if an event of the
calling task is pending.
-/

namespace CrosEc
namespace Task

variable {n : Nat}

/-- `task_set_event` has called `__wait_evt`, which has not called `__schedule` yet. -/
def Caller.owesWakeUp : Caller → Bool
  | .setEvent scheduled => !scheduled
  | _ => false

/-- The task has set an event of the task `t` and is going to set the ready bit of `t`. -/
def Thread.wakes (t : Fin (n + 1)) : Thread n → Bool
  | .schedule tskid => tskid = t
  | .readClear caller _ resched | .sleep caller _ resched => caller.owesWakeUp && resched = t
  | _ => false

namespace State

/-- A `task_set_event` for the task `t` is between the event and the ready bit. -/
def WakeInProgress (s : State n) (t : Fin (n + 1)) : Prop :=
  (∃ u, (s.threads u).wakes t = true) ∨ .setReady t ∈ s.irqs

/-- Every task with an event is ready or about to be. -/
def NoWakeUpLost (s : State n) : Prop :=
  ∀ t, s.events t ≠ 0 → s.tasksReady t = true ∨ s.WakeInProgress t

/-- The running task is the highest-numbered task that is ready and enabled. -/
def HighestRuns (s : State n) : Prop :=
  s.tasksReady s.currentTask = true ∧ s.tasksEnabled s.currentTask = true ∧
    ∀ t, s.currentTask < t → s.tasksReady t = true → s.tasksEnabled t = false

/-- After `task_wait_event_mask`: the result has only requested events and the timer event,
and every other event that was collected is pending again. -/
def MaskRespected (s : State n) : Prop :=
  ∀ t requested events ret,
    s.threads t = .user (some (.waitEventMask requested events ret)) →
      ret ||| (requested ||| taskEventTimer) = requested ||| taskEventTimer ∧
      (events &&& ~~~(requested ||| taskEventTimer)) ||| s.events t = s.events t

end State

/-- The step is not the one that forgets the receiver: where `task_set_event` with `wait`
reads the events of the calling task for the first time, there are none, or the receiver is
ready already. -/
def wakesReceiver (s : State n) : Event n → Bool
  | .run _ =>
      match s.threads s.currentTask with
      | .readClear caller _ resched =>
          !caller.owesWakeUp || s.events s.currentTask = 0 || s.tasksReady resched
      | _ => true
  | _ => true

namespace State

/-! ## The scheduler -/

variable {s s' : State n} {desched : Bool} {resched : Fin (n + 1)}

/-- What `svc_handler` does. -/
structure Scheduled (s : State n) (desched : Bool) (resched : Fin (n + 1)) (s' : State n) :
    Prop where
  frame : s' = { s with
    tasksReady := s'.tasksReady, currentTask := s'.currentTask, needResched := false }
  highestRuns : s'.HighestRuns
  resched_ready : s'.tasksReady resched = true
  stays_ready : ∀ t, s.events t ≠ 0 → s.tasksReady t = true → s'.tasksReady t = true

/-- **Frame.** -/
theorem removeCurrent_frame (desched : Bool) (s : State n) :
    s.removeCurrent desched = { s with tasksReady := (s.removeCurrent desched).tasksReady } := by
  unfold removeCurrent
  split <;> rfl

/-- Only a task without events loses its ready bit. -/
theorem removeCurrent_ready {t : Fin (n + 1)} (hevents : s.events t ≠ 0)
    (ht : s.tasksReady t = true) : (s.removeCurrent desched).tasksReady t = true := by
  unfold removeCurrent
  split
  · rename_i hnone
    have hne : t ≠ s.currentTask := by
      rintro rfl
      exact hevents hnone.2
    show Function.update s.tasksReady s.currentTask false t = true
    rw [Function.update_of_ne hne]
    exact ht
  · exact ht

/-- **Spec of `svc_handler`.** -/
theorem scheduled_svcHandler (h : s.svcHandler desched resched = some s') :
    Scheduled s desched resched s' := by
  simp only [svcHandler, Option.map_eq_some_iff, Fin.findRev?_eq_some_iff, Bool.and_eq_true,
    Bool.and_eq_false_iff] at h
  obtain ⟨next, ⟨hnext, hhighest⟩, rfl⟩ := h
  have hframe := removeCurrent_frame desched s
  refine ⟨?_, ⟨hnext.1, hnext.2, ?_⟩, Function.update_self .., ?_⟩
  · rw [hframe]
    rfl
  · intro t hlt hready
    rcases hhighest t hlt with hfalse | hfalse
    · exact absurd hready (by simp [hfalse])
    · exact hfalse
  · intro t hevents ht
    rcases eq_or_ne t resched with rfl | hne
    · exact Function.update_self ..
    · show Function.update (s.removeCurrent desched).tasksReady resched true t = true
      rw [Function.update_of_ne hne]
      exact removeCurrent_ready hevents ht

/-- `svc_handler` finds a task to run: its assertion holds. -/
theorem exists_svcHandler (hall : ∀ t, s.tasksEnabled t = true) :
    ∃ s', s.svcHandler desched resched = some s' := by
  have hresched : ((s.removeCurrent desched).setReady resched).tasksReady resched = true :=
    Function.update_self ..
  have henabled : ((s.removeCurrent desched).setReady resched).tasksEnabled resched = true := by
    rw [removeCurrent_frame]
    exact hall resched
  rw [← Option.isSome_iff_exists, svcHandler, Option.isSome_map, Fin.isSome_findRev?_iff]
  exact ⟨resched, Bool.and_eq_true_iff.mpr ⟨hresched, henabled⟩⟩

/-! ## What a step has to keep -/

/-- A step keeps every wake-up if a task that gets an event is ready or being woken, if no
ready bit of a task with an event is lost, and if nobody who was waking a task gives up before
the task is ready. -/
theorem NoWakeUpLost.move {u : Fin (n + 1)} {thread : Thread n} (h : s.NoWakeUpLost)
    (hthreads : s'.threads = Function.update s.threads u thread)
    (hevents : ∀ t, s'.events t ≠ 0 →
      s.events t ≠ 0 ∨ s'.tasksReady t = true ∨ s'.WakeInProgress t)
    (hready : ∀ t, s.events t ≠ 0 → s.tasksReady t = true → s'.tasksReady t = true)
    (hu : ∀ t, (s.threads u).wakes t = true → thread.wakes t = true ∨ s'.tasksReady t = true)
    (hirqs : ∀ t, .setReady t ∈ s.irqs → .setReady t ∈ s'.irqs ∨ s'.tasksReady t = true) :
    s'.NoWakeUpLost := by
  intro t ht
  rcases hevents t ht with hold | hnew
  · rcases h t hold with hrdy | ⟨v, hv⟩ | hirq
    · exact .inl (hready t hold hrdy)
    · rcases eq_or_ne v u with rfl | hne
      · rcases hu t hv with hwakes | hrdy
        · exact .inr (.inl ⟨v, by rw [hthreads, Function.update_self]; exact hwakes⟩)
        · exact .inl hrdy
      · exact .inr (.inl ⟨v, by rw [hthreads, Function.update_of_ne hne]; exact hv⟩)
    · exact (hirqs t hirq).symm.imp_right .inr
  · exact hnew

/-- A task that does not move and loses no event. -/
theorem MaskRespected.keep {t : Fin (n + 1)} {requested events ret : UInt32}
    (h : s.MaskRespected) (hgrow : s.events t ||| s'.events t = s'.events t)
    (ht : s.threads t = .user (some (.waitEventMask requested events ret))) :
    ret ||| (requested ||| taskEventTimer) = requested ||| taskEventTimer ∧
      (events &&& ~~~(requested ||| taskEventTimer)) ||| s'.events t = s'.events t := by
  obtain ⟨hret, hpending⟩ := h t requested events ret ht
  refine ⟨hret, ?_⟩
  rw [← hgrow, ← UInt32.or_assoc, hpending]

/-- A step keeps what is known after `task_wait_event_mask` if only the task that moves loses
events. -/
theorem MaskRespected.move {u : Fin (n + 1)} {thread : Thread n} (h : s.MaskRespected)
    (hthreads : s'.threads = Function.update s.threads u thread)
    (hevents : ∀ t, t ≠ u → s.events t ||| s'.events t = s'.events t)
    (hu : ∀ requested events ret,
      thread = .user (some (.waitEventMask requested events ret)) →
        ret ||| (requested ||| taskEventTimer) = requested ||| taskEventTimer ∧
        (events &&& ~~~(requested ||| taskEventTimer)) ||| s'.events u = s'.events u) :
    s'.MaskRespected := by
  intro t requested events ret ht
  rw [hthreads] at ht
  rcases eq_or_ne t u with rfl | hne
  · rw [Function.update_self] at ht
    exact hu requested events ret ht
  · rw [Function.update_of_ne hne] at ht
    exact h.keep (hevents t hne) ht

/-- What holds whether or not wake-ups are lost. -/
structure Inv (s : State n) : Prop where
  current_ready : s.tasksReady s.currentTask = true
  enabled : ∀ t, s.tasksEnabled t = true
  maskRespected : s.MaskRespected

theorem orEvents_ne_zero {t v : Fin (n + 1)} {bits : UInt32}
    (h : (s.orEvents v bits).events t ≠ 0) : s.events t ≠ 0 ∨ t = v := by
  rcases eq_or_ne t v with rfl | hne
  · exact .inr rfl
  · left
    simpa only [orEvents, Function.update_of_ne hne] using h

theorem setReady_ready {t v : Fin (n + 1)} (h : s.tasksReady t = true) :
    (s.setReady v).tasksReady t = true := by
  rcases eq_or_ne t v with rfl | hne
  · exact Function.update_self ..
  · show Function.update s.tasksReady v true t = true
    rw [Function.update_of_ne hne]
    exact h

theorem or_orEvents (s : State n) (t v : Fin (n + 1)) (bits : UInt32) :
    s.events t ||| (s.orEvents v bits).events t = (s.orEvents v bits).events t := by
  rcases eq_or_ne t v with rfl | hne
  · simp only [orEvents, Function.update_self]
    rw [← UInt32.or_assoc, UInt32.or_self]
  · simp only [orEvents, Function.update_of_ne hne, UInt32.or_self]

@[simp] theorem goto_self (s : State n) (u : Fin (n + 1)) : s.goto u (s.threads u) = s := by
  simp [goto]

/-- The scheduler, after a task has moved on. -/
theorem NoWakeUpLost.scheduled {u : Fin (n + 1)} {thread : Thread n} (h : s.NoWakeUpLost)
    (hs : Scheduled (s.goto u thread) desched resched s')
    (hu : ∀ t, (s.threads u).wakes t = true → thread.wakes t = true ∨ t = resched) :
    s'.NoWakeUpLost := by
  have hevents : s'.events = s.events := by rw [hs.frame]; rfl
  have hirqs : s'.irqs = s.irqs := by rw [hs.frame]; rfl
  refine h.move (by rw [hs.frame]; rfl) ?_ hs.stays_ready ?_ ?_
  · intro t ht
    rw [hevents] at ht
    exact .inl ht
  · intro t ht
    refine (hu t ht).imp_right ?_
    rintro rfl
    exact hs.resched_ready
  · intro t ht
    rw [hirqs]
    exact .inl ht

/-- The scheduler keeps the invariant. -/
theorem Inv.scheduled (h : s.Inv) (hs : Scheduled s desched resched s') : s'.Inv := by
  refine ⟨hs.highestRuns.1, ?_, ?_⟩
  · rw [hs.frame]
    exact h.enabled
  · rw [hs.frame]
    exact h.maskRespected

/-- A step of a task that leaves the scheduler alone. -/
theorem Inv.moved {u : Fin (n + 1)} {thread : Thread n} (h : s.Inv)
    (hframe : s' = { s with events := s'.events, threads := s'.threads })
    (hthreads : s'.threads = Function.update s.threads u thread)
    (hevents : ∀ t, t ≠ u → s.events t ||| s'.events t = s'.events t)
    (hu : ∀ requested events ret,
      thread = .user (some (.waitEventMask requested events ret)) →
        ret ||| (requested ||| taskEventTimer) = requested ||| taskEventTimer ∧
        (events &&& ~~~(requested ||| taskEventTimer)) ||| s'.events u = s'.events u) :
    s'.Inv := by
  refine ⟨?_, ?_, h.maskRespected.move hthreads hevents hu⟩
  · rw [hframe]
    exact h.current_ready
  · rw [hframe]
    exact h.enabled

/-- `__wait_evt` goes back to a `task_wait_event_mask` that is not over. -/
theorem resume_ne_waitEventMask (caller : Caller) (evt : UInt32) (now : UInt64)
    (requested events ret : UInt32) :
    (resume caller evt now : Thread n) ≠
      .user (some (.waitEventMask requested events ret)) := by
  cases caller <;> simp only [resume] <;> (try split_ifs) <;> simp

/-- Bits of a word and the word. -/
theorem and_or_self (a b : UInt32) : (a &&& b) ||| b = b := by
  apply UInt32.toBitVec_inj.mp
  ext i
  simp only [UInt32.toBitVec_or, UInt32.toBitVec_and, BitVec.getElem_or, BitVec.getElem_and]
  cases a.toBitVec[i] <;> cases b.toBitVec[i] <;> rfl

/-- **Step lemma.** A step of the running task keeps the invariant. -/
theorem Inv.runThread {now : UInt64} (h : s.Inv) (hs : s.runThread now = some s') : s'.Inv := by
  simp only [State.runThread] at hs
  split at hs
  case h_1 => cases hs
  case h_2 | h_3 =>
    cases hs
    refine h.moved rfl rfl (fun t _ => or_orEvents ..) ?_
    rintro _ _ _ ⟨⟩
  case h_4 | h_6 =>
    refine Inv.scheduled (h.moved rfl rfl ?_ ?_) (scheduled_svcHandler hs)
    · exact fun t _ => UInt32.or_self
    · rintro _ _ _ ⟨⟩
  case h_5 caller timeoutUs resched _ =>
    have hother : ∀ t, t ≠ s.currentTask →
        s.events t ||| Function.update s.events s.currentTask 0 t =
          Function.update s.events s.currentTask 0 t := by
      intro t hne
      rw [Function.update_of_ne hne, UInt32.or_self]
    split at hs <;> cases hs
    all_goals
      refine h.moved rfl rfl hother ?_
      rintro _ _ _ ⟨⟩
  case h_7 caller timeoutUs evt _ =>
    have hresume : ∀ requested events ret,
        (resume caller evt now : Thread n) ≠
          .user (some (.waitEventMask requested events ret)) :=
      resume_ne_waitEventMask caller evt now
    split at hs <;> cases hs
    · refine h.moved rfl rfl ?_ fun _ _ _ heq => (hresume _ _ _ heq).elim
      intro t hne
      simp only [State.goto, clearEvents, Function.update_of_ne hne, UInt32.or_self]
    · refine h.moved rfl rfl ?_ fun _ _ _ heq => (hresume _ _ _ heq).elim
      exact fun t _ => UInt32.or_self
  case h_8 requested events _ =>
    cases hs
    refine h.moved rfl rfl (fun t _ => or_orEvents ..) ?_
    rintro _ _ _ ⟨⟩
    refine ⟨and_or_self .., ?_⟩
    simp only [State.goto, orEvents, Function.update_self]
    rw [UInt32.or_comm (s.events _), ← UInt32.or_assoc, UInt32.or_self]

/-- **Step lemma.** A step of the running task loses no wake-up, unless it is the one that
forgets the receiver. -/
theorem NoWakeUpLost.runThread {now : UInt64} (hinv : s.Inv) (h : s.NoWakeUpLost)
    (hallowed : wakesReceiver s (.run now) = true) (hs : s.runThread now = some s') :
    s'.NoWakeUpLost := by
  have hirqs : ∀ t, .setReady t ∈ s.irqs → .setReady t ∈ s.irqs ∨ s.tasksReady t = true :=
    fun t ht => .inl ht
  simp only [wakesReceiver] at hallowed
  simp only [State.runThread] at hs
  split at hs
  case h_1 => cases hs
  case h_2 tskid event hme | h_3 tskid event hme =>
    -- The event is set, and the ready bit is going to be.
    cases hs
    refine h.move rfl ?_ (fun t _ => id) ?_ hirqs
    · intro t ht
      refine (orEvents_ne_zero ht).imp_right ?_
      rintro rfl
      refine .inr (.inl ⟨s.currentTask, ?_⟩)
      simp [State.goto, Thread.wakes, Caller.owesWakeUp]
    · intro t ht
      rw [hme] at ht
      cases ht
  case h_4 tskid hme =>
    refine h.scheduled (scheduled_svcHandler hs) ?_
    intro t ht
    rw [hme] at ht
    exact .inr (of_decide_eq_true ht).symm
  case h_5 caller timeoutUs resched hme =>
    have hevents : ∀ t, Function.update s.events s.currentTask 0 t ≠ 0 → s.events t ≠ 0 := by
      intro t ht
      rcases eq_or_ne t s.currentTask with rfl | hne
      · exact absurd (Function.update_self ..) ht
      · rwa [Function.update_of_ne hne] at ht
    split at hs <;> cases hs
    · refine h.move rfl (fun t ht => .inl (hevents t ht)) (fun t _ => id) ?_ hirqs
      intro t ht
      left
      rw [hme] at ht
      exact ht
    · rename_i hsome
      -- The caller does not sleep: if it was to wake a task, that one is ready.
      refine h.move rfl (fun t ht => .inl (hevents t ht)) (fun t _ => id) ?_ hirqs
      intro t ht
      right
      rw [hme] at ht hallowed
      simp only [Thread.wakes, Bool.and_eq_true, decide_eq_true_eq] at ht
      obtain ⟨howes, rfl⟩ := ht
      show s.tasksReady resched = true
      simpa [howes, hsome] using hallowed
  case h_6 caller timeoutUs resched hme =>
    refine h.scheduled (scheduled_svcHandler hs) ?_
    intro t ht
    rw [hme] at ht
    simp only [Thread.wakes, Bool.and_eq_true, decide_eq_true_eq] at ht
    exact .inr ht.2.symm
  case h_7 caller timeoutUs evt hme =>
    have hnever : ∀ t, (s.threads s.currentTask).wakes t = true →
        (resume caller evt now : Thread n).wakes t = true ∨ s.tasksReady t = true := by
      intro t ht
      rw [hme] at ht
      cases ht
    split at hs <;> cases hs
    · refine h.move rfl ?_ (fun t _ => id) hnever hirqs
      intro t ht
      left
      rintro hzero
      refine ht ?_
      rcases eq_or_ne t s.currentTask with rfl | hne
      · simp [State.goto, clearEvents, hzero]
      · simp [State.goto, clearEvents, Function.update_of_ne hne, hzero]
    · exact h.move rfl (fun t ht => .inl ht) (fun t _ => id) hnever hirqs
  case h_8 requested events hme =>
    -- The task puts back events of its own, and it is running.
    cases hs
    refine h.move rfl ?_ (fun t _ => id) ?_ hirqs
    · intro t ht
      refine (orEvents_ne_zero ht).imp_right ?_
      rintro rfl
      exact .inl hinv.current_ready
    · intro t ht
      rw [hme] at ht
      cases ht

end State

open State

/-! ## Interrupts -/

variable {s s' : State n} {e : Event n}

/-- **Step lemma.** The invariant. -/
theorem step_inv (h : s.Inv) (hs : step s e = some s') : s'.Inv := by
  cases e with
  | call call now =>
      simp only [step, startCall] at hs
      split_ifs at hs
      split at hs <;> cases hs
      refine h.moved rfl rfl (fun t _ => UInt32.or_self) ?_
      intro requested events ret heq
      cases call <;> cases heq
  | run now =>
      simp only [step] at hs
      split_ifs at hs
      exact h.runThread hs
  | irqEnter =>
      cases hs
      exact ⟨h.current_ready, h.enabled, h.maskRespected⟩
  | irqSetEvent tskid event =>
      simp only [step] at hs
      split at hs <;> cases hs
      refine ⟨h.current_ready, h.enabled, ?_⟩
      intro t requested events ret ht
      exact h.maskRespected.keep (or_orEvents ..) ht
  | irqRun =>
      simp only [step, runIrq] at hs
      split at hs <;> cases hs
      · refine ⟨?_, h.enabled, h.maskRespected⟩
        exact setReady_ready h.current_ready
      · exact ⟨h.current_ready, h.enabled, h.maskRespected⟩
  | irqReturn =>
      simp only [step, irqReturn] at hs
      have hpop : ∀ irqs, State.Inv { s with irqs := irqs } :=
        fun _ => ⟨h.current_ready, h.enabled, h.maskRespected⟩
      split at hs
      · split_ifs at hs
        · exact (hpop []).scheduled (scheduled_svcHandler hs)
        · cases hs
          exact hpop []
      · cases hs
        exact hpop _
      · cases hs

/-- **Step lemma.** Wake-ups. -/
theorem step_noWakeUpLost (hinv : s.Inv) (h : s.NoWakeUpLost)
    (hallowed : wakesReceiver s e = true) (hs : step s e = some s') : s'.NoWakeUpLost := by
  -- An interrupt moves no task.
  have hself : s.threads = Function.update s.threads s.currentTask (s.threads s.currentTask) :=
    (Function.update_eq_self ..).symm
  cases e with
  | call call now =>
      simp only [step, startCall] at hs
      split_ifs at hs
      split at hs
      case h_2 => cases hs
      case h_1 last hme =>
        cases hs
        refine h.move rfl (fun t ht => .inl ht) (fun t _ => id) ?_ (fun t ht => .inl ht)
        intro t ht
        rw [hme] at ht
        cases ht
  | run now =>
      simp only [step] at hs
      split_ifs at hs
      exact h.runThread hinv hallowed hs
  | irqEnter =>
      cases hs
      exact h.move hself (fun t ht => .inl ht) (fun t _ => id) (fun t => .inl)
        fun t ht => .inl (List.mem_cons_of_mem _ ht)
  | irqSetEvent tskid event =>
      simp only [step] at hs
      split at hs
      case h_2 => cases hs
      case h_1 outer hirqs =>
        cases hs
        refine h.move hself ?_ (fun t _ => id) (fun t => .inl) ?_
        · intro t ht
          refine (orEvents_ne_zero ht).imp_right ?_
          rintro rfl
          exact .inr (.inr List.mem_cons_self)
        · intro t ht
          rw [hirqs] at ht
          exact .inl (List.mem_cons_of_mem _ (List.mem_of_ne_of_mem (by simp) ht))
  | irqRun =>
      simp only [step, runIrq] at hs
      split at hs
      case h_1 tskid outer hirqs =>
        cases hs
        refine h.move hself (fun t ht => .inl ht) (fun t _ => setReady_ready)
          (fun t => .inl) ?_
        intro t ht
        rw [hirqs] at ht
        rcases List.mem_cons.mp ht with heq | ht
        · cases heq
          exact .inr (Function.update_self ..)
        · exact .inl (List.mem_cons_of_mem _ ht)
      case h_2 outer hirqs =>
        cases hs
        refine h.move hself (fun t ht => .inl ht) (fun t _ => id) (fun t => .inl) ?_
        intro t ht
        rw [hirqs] at ht
        exact .inl (List.mem_cons_of_mem _ (List.mem_of_ne_of_mem (by simp) ht))
      case h_3 => cases hs
  | irqReturn =>
      simp only [step, irqReturn] at hs
      -- The interrupt that returns is not setting a ready bit.
      have hpop : ∀ outer, s.irqs = .handler :: outer →
          State.NoWakeUpLost { s with irqs := outer } := by
        intro outer hirqs
        refine h.move hself (fun t ht => .inl ht) (fun t _ => id) (fun t => .inl) ?_
        intro t ht
        rw [hirqs] at ht
        exact .inl (List.mem_of_ne_of_mem (by simp) ht)
      split at hs
      case h_1 hirqs =>
        split_ifs at hs
        · rw [← goto_self { s with irqs := [] } s.currentTask] at hs
          exact (hpop [] hirqs).scheduled (scheduled_svcHandler hs) fun t ht => .inl ht
        · cases hs
          exact hpop [] hirqs
      case h_2 outer _ hirqs =>
        cases hs
        exact hpop outer hirqs
      case h_3 => cases hs

/-! ## Whole runs -/

/-- The step calls `svc_handler`. -/
def schedules (s : State n) : Event n → Bool
  | .run _ =>
      s.irqs.isEmpty &&
        match s.threads s.currentTask with
        | .schedule _ | .sleep .. => true
        | _ => false
  | .irqReturn =>
      s.needResched &&
        match s.irqs with
        | [.handler] => true
        | _ => false
  | _ => false

/-- **Step lemma.** A step that calls `svc_handler` is possible and leaves the right task
running. -/
theorem exists_step_of_schedules (h : s.Inv) (hsched : schedules s e = true) :
    ∃ s', step s e = some s' ∧ s'.HighestRuns := by
  have hsvc : ∀ (s : State n) desched resched, (∀ t, s.tasksEnabled t = true) →
      ∃ s', s.svcHandler desched resched = some s' ∧ s'.HighestRuns := by
    intro s desched resched hall
    obtain ⟨s', hs'⟩ := exists_svcHandler hall
    exact ⟨s', hs', (scheduled_svcHandler hs').highestRuns⟩
  cases e with
  | run now =>
      simp only [schedules, Bool.and_eq_true] at hsched
      obtain ⟨hirqs, hthread⟩ := hsched
      simp only [step, hirqs, if_true, runThread]
      split at hthread
      case h_1 tskid hme =>
        rw [hme]
        exact hsvc _ _ _ h.enabled
      case h_2 caller timeoutUs resched hme =>
        rw [hme]
        exact hsvc _ _ _ h.enabled
      case h_3 => cases hthread
  | irqReturn =>
      simp only [schedules, Bool.and_eq_true] at hsched
      obtain ⟨hneed, hirqs⟩ := hsched
      split at hirqs
      case h_1 hme =>
        simp only [step, irqReturn, hme, hneed, if_true]
        exact hsvc _ _ _ h.enabled
      case h_2 => cases hirqs
  | _ => cases hsched

/-- **Run lemma.** The invariant holds in every reachable state. -/
theorem reachable_inv {allowed : State n → Event n → Bool} {hooks : Fin (n + 1)}
    {events : Fin (n + 1) → UInt32}
    (h : Lib.Reachable step allowed (allEnabled hooks events) s) : s.Inv := by
  refine h.invariant State.Inv ⟨rfl, fun _ => rfl, ?_⟩ fun _ _ _ hinv _ hs => step_inv hinv hs
  rintro t requested events ret ⟨⟩

/-- **No wake-up is lost.**  After `task_enable_all_tasks`, in every run in which no step
forgets the receiver of a `task_set_event` with `wait`, a task with a pending event is ready
or about to be.  In every run `svc_handler` leaves the highest-numbered task running that is
ready and enabled, and `task_wait_event_mask` returns only requested events and the timer
event, with all other events it has collected pending again. -/
theorem scheduler_noWakeUpLost {hooks : Fin (n + 1)} {events : Fin (n + 1) → UInt32}
    (h : Lib.Reachable step Lib.anyEvent (allEnabled hooks events) s) :
    (Lib.Reachable step wakesReceiver (allEnabled hooks events) s → s.NoWakeUpLost) ∧
    (∀ e, schedules s e = true → ∃ s', step s e = some s' ∧ s'.HighestRuns) ∧
    s.MaskRespected := by
  refine ⟨?_, fun e => exists_step_of_schedules (reachable_inv h),
    (reachable_inv h).maskRespected⟩
  intro hwakes
  have hstart : Lib.Reachable step Lib.anyEvent (allEnabled hooks events)
      (allEnabled hooks events) := .start
  refine (hwakes.invariant (fun s => s.Inv ∧ s.NoWakeUpLost) ?_ ?_).2
  · exact ⟨reachable_inv hstart, fun t _ => .inl rfl⟩
  · rintro s e s' ⟨hinv, hwoken⟩ hallowed hs
    exact ⟨step_inv hinv hs, step_noWakeUpLost hinv hwoken hallowed hs⟩

/-- Task 2 waits for the event 1, and an interrupt sends it the events 1 and 2. -/
def maskedWaitRun : List (Event 2) :=
  [.call (.waitEventMask 1 0) 0, .run 0, .run 0, .irqEnter, .irqSetEvent 2 3, .irqRun, .irqRun,
    .irqReturn, .run 0, .run 0, .run 0]

theorem scheduler_noWakeUpLost_maskedWait :
    ∃ s, Lib.Reachable step wakesReceiver (allEnabled 1 fun _ => 0) s ∧
      s.currentTask = (2 : Fin 3) ∧ s.events 2 = 2 ∧ s.NoWakeUpLost ∧ s.MaskRespected := by
  obtain ⟨s, hreach, hcurrent, hevents⟩ :
      ∃ s, Lib.Reachable step wakesReceiver (allEnabled (1 : Fin 3) fun _ => 0) s ∧
        s.currentTask = 2 ∧ s.events 2 = 2 :=
    Lib.Reachable.exists_of_runEvents maskedWaitRun (by decide +kernel)
  have hall := scheduler_noWakeUpLost (hreach.mono fun _ _ _ => rfl)
  exact ⟨s, hreach, hcurrent, hevents, hall.1 hreach, hall.2.2⟩

/-- Task 2 waits; an interrupt sends an event to task 1; task 1 sends an event to task 2 and
wants to wait for the answer, but `__wait_evt` returns the event of task 1 at once. -/
def forgottenRun : List (Event 2) :=
  [.call (.waitEvent (-1)) 0, .run 0, .run 0, .irqEnter, .irqSetEvent 1 1, .irqRun, .irqRun,
    .irqReturn, .call (.setEvent 2 1 true) 0, .run 0, .run 0, .run 0]

instance (s : State n) : Decidable s.NoWakeUpLost :=
  inferInstanceAs (Decidable (∀ _, _ → _ ∨ _ ∨ _))

theorem not_scheduler_noWakeUpLost :
    ∃ s, Lib.Reachable step Lib.anyEvent (allEnabled (1 : Fin 3) fun _ => 0) s ∧
      s.events 2 = 1 ∧ s.tasksReady 2 = false ∧ ¬ s.NoWakeUpLost :=
  Lib.Reachable.exists_of_runEvents forgottenRun (by decide +kernel)

end Task
end CrosEc
