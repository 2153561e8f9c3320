import CrosEc.Mutex.Model
import CrosEc.Task.WakeUp

/-!
# Mutexes exclude, and wake who waits

`Moves` lists what a step of a task can do, and three invariants are read off from it: at most
one task owns a mutex (`Exclusion`); who tries to take a mutex or waits for it is in its bitmap
(`Registered`); and who waits for a mutex that is free has the event or is going to get it
(`WakeKept`).  The last one rests on the second: the snapshot that is taken with the release
of the lock has everybody who waits.
-/

namespace CrosEc
namespace Mutex

open CrosEc.Task

variable {μ : Type} {n : Nat}

/-! ## Inside of the functions of the scheduler -/

/-- After the events so far and `evt`, `task_wait_event_mask` goes on waiting for the
mutex. -/
def callerBlocked (evt : UInt32) : Caller → Bool
  | .waitEventMask _ _ _ events =>
      (events ||| evt) &&& (taskEventMutex ||| taskEventTimer) = 0
  | _ => false

/-- `task_wait_event_mask` has not got the event of the mutexes or of the timer. -/
def innerBlocked : Task.Thread n → Bool
  | .readClear caller _ _ | .sleep caller _ _ => callerBlocked 0 caller
  | .clearTimer caller _ evt => callerBlocked evt caller
  | _ => false

/-- The step is one of `task_wait_event_mask`. -/
def innerWaits : Task.Thread n → Bool
  | .readClear (.waitEventMask ..) _ _ | .sleep (.waitEventMask ..) _ _
  | .clearTimer (.waitEventMask ..) _ _ | .repost .. => true
  | _ => false

variable {me t : Fin (n + 1)} {now : UInt64} {events events' : Fin (n + 1) → UInt32}
  {inner inner' : Task.Thread n}

/-- Only the event of the timer is taken away when it is no longer needed. -/
theorem and_not_timer_and_mutex (e : UInt32) :
    e &&& ~~~taskEventTimer &&& taskEventMutex = e &&& taskEventMutex := by
  rw [UInt32.and_assoc]
  rfl

theorem or_and_eq_zero_iff {a b m : UInt32} :
    (a ||| b) &&& m = 0 ↔ a &&& m = 0 ∧ b &&& m = 0 := by
  have hdistrib : (a ||| b) &&& m = a &&& m ||| b &&& m :=
    UInt32.toBitVec_inj.mp BitVec.and_or_distrib_right
  rw [hdistrib, UInt32.or_eq_zero_iff]

theorem or_mutex_and_mutex_ne_zero (e : UInt32) :
    (e ||| taskEventMutex) &&& taskEventMutex ≠ 0 := by
  rw [Ne, or_and_eq_zero_iff]
  exact fun hzero => absurd hzero.2 (by decide)

/-- Events that are sent take none away. -/
theorem State.setEvents_or_and_mutex {s : State μ n} {bits : UInt32} (v u : Fin (n + 1))
    (h : s.events u &&& taskEventMutex ≠ 0) :
    (s.setEvents v (s.events v ||| bits)).events u &&& taskEventMutex ≠ 0 := by
  rcases eq_or_ne u v with rfl | hne
  · simp only [State.setEvents, Function.update_self, Ne, or_and_eq_zero_iff]
    exact fun hzero => h hzero.1
  · simpa only [State.setEvents, Function.update_of_ne hne] using h

/-- A wait that goes on has not read the event. -/
theorem and_mutex_of_callerBlocked {caller : Caller} {evt : UInt32}
    (h : callerBlocked evt caller = true) : evt &&& taskEventMutex = 0 := by
  cases caller with
  | waitEventMask requested timeoutUs deadline events =>
      simp only [callerBlocked, decide_eq_true_eq, or_and_eq_zero_iff] at h
      have hevt := h.2
      rw [UInt32.and_comm, or_and_eq_zero_iff] at hevt
      rw [UInt32.and_comm]
      exact hevt.1
  | setEvent scheduled => cases h
  | waitEvent => cases h

/-- The scheduler changes neither the events nor where the tasks are. -/
theorem svcHandler_frame {s s' : Task.State n} {desched : Bool} {resched : Fin (n + 1)}
    (h : s.svcHandler desched resched = some s') :
    s'.events = s.events ∧ s'.threads = s.threads := by
  rw [(Task.State.scheduled_svcHandler h).frame]
  exact ⟨rfl, rfl⟩

/-- What a step of `task_wait_event_mask` does: it concerns the events of the task only, and
while it has not got the event it does not take it away. -/
structure WaitStep (me : Fin (n + 1)) (events : Fin (n + 1) → UInt32) (inner : Task.Thread n)
    (events' : Fin (n + 1) → UInt32) (inner' : Task.Thread n) : Prop where
  others : ∀ t, t ≠ me → events' t = events t
  goesOn : (∃ last, inner' = .user last) ∨ innerWaits inner' = true
  keeps : innerBlocked inner' = true → innerBlocked inner = true ∧
    events' me &&& taskEventMutex = events me &&& taskEventMutex

section WaitStep

variable {requested collected : UInt32} {timeoutUs remainingUs : Int32} {deadline : UInt64}
  {resched : Fin (n + 1)} {evt : UInt32}

/-- What was read stays with the task. -/
theorem waitStep_readClear
    (h : innerStep me now events
      (.readClear (.waitEventMask requested timeoutUs deadline collected) remainingUs resched) =
        some (events', inner')) :
    WaitStep me events
      (.readClear (.waitEventMask requested timeoutUs deadline collected) remainingUs resched)
      events' inner' := by
  simp only [innerStep, Option.map_eq_some_iff, Task.State.runThread] at h
  obtain ⟨s', hrun, heq⟩ := h
  cases heq
  have hother : ∀ t, t ≠ me → Function.update events me 0 t = events t :=
    fun t hne => Function.update_of_ne hne ..
  split at hrun <;> cases hrun
  · rename_i hzero
    refine ⟨hother, .inr ?_, ?_⟩
    · simp [Task.State.goto, innerWaits]
    · simp [Task.State.goto, innerBlocked, hzero]
  · refine ⟨hother, .inr ?_, ?_⟩
    · simp [Task.State.goto, innerWaits]
    · simp only [Task.State.goto, Function.update_self, innerBlocked]
      intro hblocked
      -- It goes on waiting, so the event was not among those that it has read.
      have hnone := and_mutex_of_callerBlocked hblocked
      refine ⟨?_, by rw [hnone, UInt32.zero_and]⟩
      simp only [callerBlocked, decide_eq_true_eq] at hblocked ⊢
      rw [UInt32.or_zero]
      exact (or_and_eq_zero_iff.mp hblocked).1

theorem waitStep_sleep
    (h : innerStep me now events
      (.sleep (.waitEventMask requested timeoutUs deadline collected) remainingUs resched) =
        some (events', inner')) :
    WaitStep me events
      (.sleep (.waitEventMask requested timeoutUs deadline collected) remainingUs resched)
      events' inner' := by
  simp only [innerStep, Option.map_eq_some_iff, Task.State.runThread] at h
  obtain ⟨s', hrun, heq⟩ := h
  cases heq
  obtain ⟨hevents, hthreads⟩ := svcHandler_frame hrun
  rw [hevents, hthreads]
  refine ⟨fun t _ => rfl, .inr ?_, ?_⟩
  · simp [Task.State.goto, innerWaits, Caller.afterSchedule]
  · simp [Task.State.goto, innerBlocked, Caller.afterSchedule]

/-- The loop of `task_wait_event_mask` goes round again only without the event. -/
theorem resume_waitEventMask :
    innerWaits (Task.State.resume (n := n)
      (.waitEventMask requested timeoutUs deadline collected) evt now) = true ∧
    (innerBlocked (Task.State.resume (n := n)
      (.waitEventMask requested timeoutUs deadline collected) evt now) = true →
      callerBlocked evt (.waitEventMask requested timeoutUs deadline collected) = true) := by
  simp only [Task.State.resume]
  split_ifs <;> simp [innerWaits, innerBlocked, callerBlocked]

theorem waitStep_clearTimer
    (h : innerStep me now events
      (.clearTimer (.waitEventMask requested timeoutUs deadline collected) remainingUs evt) =
        some (events', inner')) :
    WaitStep me events
      (.clearTimer (.waitEventMask requested timeoutUs deadline collected) remainingUs evt)
      events' inner' := by
  simp only [innerStep, Option.map_eq_some_iff, Task.State.runThread] at h
  obtain ⟨s', hrun, heq⟩ := h
  cases heq
  split at hrun <;> cases hrun
  · refine ⟨fun t hne => Function.update_of_ne hne .., .inr ?_, ?_⟩
    · simp only [Task.State.goto, Function.update_self]
      exact resume_waitEventMask.1
    · simp only [Task.State.goto, Task.State.clearEvents, Function.update_self]
      exact fun hblocked => ⟨resume_waitEventMask.2 hblocked, and_not_timer_and_mutex _⟩
  · refine ⟨fun t _ => rfl, .inr ?_, ?_⟩
    · simp only [Task.State.goto, Function.update_self]
      exact resume_waitEventMask.1
    · simp only [Task.State.goto, Function.update_self]
      exact fun hblocked => ⟨resume_waitEventMask.2 hblocked, trivial⟩

theorem waitStep_repost
    (h : innerStep me now events (.repost requested collected) = some (events', inner')) :
    WaitStep me events (.repost requested collected) events' inner' := by
  simp only [innerStep, Option.map_eq_some_iff, Task.State.runThread] at h
  obtain ⟨s', hrun, heq⟩ := h
  cases heq
  cases hrun
  refine ⟨fun t hne => Function.update_of_ne hne .., .inl ⟨_, Function.update_self ..⟩, ?_⟩
  simp [Task.State.goto, innerBlocked]

end WaitStep

/-- **Spec of a step of `task_wait_event_mask`.** -/
theorem waitStep_of_innerStep (hwaits : innerWaits inner = true)
    (h : innerStep me now events inner = some (events', inner')) :
    WaitStep me events inner events' inner' := by
  cases inner with
  | readClear caller remainingUs resched =>
      cases caller with
      | waitEventMask requested timeoutUs deadline collected => exact waitStep_readClear h
      | _ => cases hwaits
  | sleep caller remainingUs resched =>
      cases caller with
      | waitEventMask requested timeoutUs deadline collected => exact waitStep_sleep h
      | _ => cases hwaits
  | clearTimer caller remainingUs evt =>
      cases caller with
      | waitEventMask requested timeoutUs deadline collected => exact waitStep_clearTimer h
      | _ => cases hwaits
  | repost requested collected => exact waitStep_repost h
  | _ => cases hwaits

theorem innerStep_setEvent (id : Fin (n + 1)) (bits : UInt32) :
    innerStep me now events (.setEvent id bits false) =
      some (Function.update events id (events id ||| bits), .schedule id) := by
  simp [innerStep, Task.State.runThread, Task.State.goto, Task.State.orEvents]

theorem innerStep_schedule (h : innerStep me now events (.schedule t) = some (events', inner')) :
    events' = events := by
  simp only [innerStep, Option.map_eq_some_iff] at h
  obtain ⟨s', hrun, heq⟩ := h
  cases heq
  simp only [Task.State.runThread] at hrun
  exact (svcHandler_frame hrun).1

/-! ## What a task can do -/

variable [DecidableEq μ]

/-- The steps of a task in a function of the mutexes. -/
inductive Moves (s : State μ n) (t : Fin (n + 1)) : State μ n → Prop
  | register {mtx : μ} (h : s.threads t = .register mtx) :
      Moves s t ((s.setWaiter mtx t true).goto t (.attempt mtx))
  | acquire {mtx : μ} (h : s.threads t = .attempt mtx) (hfree : s.lock mtx = 0) :
      Moves s t ((s.setLock mtx 2).goto t (.unregister mtx))
  | retry {mtx : μ} (h : s.threads t = .attempt mtx) : Moves s t (s.goto t (.attempt mtx))
  | contend {mtx : μ} (now : UInt64) (h : s.threads t = .attempt mtx)
      (howned : s.lock mtx ≠ 0) :
      Moves s t (s.goto t (.wait mtx ((Call.waitEventMask taskEventMutex 0).start now)))
  | wait {mtx : μ} {now : UInt64} {inner inner' : Task.Thread n}
      {events : Fin (n + 1) → UInt32} (h : s.threads t = .wait mtx inner)
      (hinner : innerStep t now s.events inner = some (events, inner'))
      (hgoesOn : ∀ last, inner' ≠ .user last) :
      Moves s t ({ s with events := events }.goto t (.wait mtx inner'))
  | wake {mtx : μ} {now : UInt64} {inner inner' : Task.Thread n}
      {events : Fin (n + 1) → UInt32} (h : s.threads t = .wait mtx inner)
      (hinner : innerStep t now s.events inner = some (events, inner')) :
      Moves s t ({ s with events := events }.goto t (.attempt mtx))
  | unregister {mtx : μ} (h : s.threads t = .unregister mtx) :
      Moves s t (((s.setWaiter mtx t false).setHeld t mtx true).goto t .user)
  | release {mtx : μ} (h : s.threads t = .release mtx) : Moves s t (s.release t mtx)
  | notify {mtx : μ} {waiters : Fin (n + 1) → Bool} {id : Fin (n + 1)}
      (h : s.threads t = .notify mtx waiters) :
      Moves s t ((s.setEvents id (s.events id ||| taskEventMutex)).goto t
        (.schedule mtx (Function.update waiters id false) id))
  | finish {mtx : μ} {waiters : Fin (n + 1) → Bool} (h : s.threads t = .notify mtx waiters)
      (hnone : ∀ id, waiters id = false) :
      Moves s t ((s.setEvents t (s.events t &&& ~~~taskEventMutex)).goto t .user)
  | schedule {mtx : μ} {waiters : Fin (n + 1) → Bool} {id : Fin (n + 1)}
      (h : s.threads t = .schedule mtx waiters id) : Moves s t (s.goto t (.notify mtx waiters))

/-- One round of the loop of `mutex_lock`: the lock is taken, found taken, or the store has
failed. -/
theorem moves_of_attempt {s : State μ n} {mtx : μ} (ht : s.threads t = .attempt mtx)
    (exclusive : Bool) : Moves s t (s.attempt t mtx now exclusive) := by
  by_cases hfree : s.lock mtx = 0
  · cases exclusive with
    | true =>
        simp only [State.attempt, hfree, if_true]
        exact .acquire ht hfree
    | false =>
        -- `strex` leaves 1, which is neither 0 nor the 2 of a lock that is taken.
        have hone : (1 : UInt32) ≠ 0 ∧ (1 : UInt32) ≠ 2 := by decide
        simp only [State.attempt, hfree, if_true, Bool.false_eq_true, if_false, hone.1, hone.2]
        exact .retry ht
  · simp only [State.attempt, hfree, if_false]
    split
    · exact .contend now ht hfree
    · exact .retry ht

/-- **Inversion.** -/
theorem moves_of_runThread {s s' : State μ n} {exclusive : Bool}
    (h : s.runThread t now exclusive = some s') : Moves s t s' := by
  simp only [State.runThread] at h
  split at h
  case h_1 => cases h
  case h_2 mtx ht =>
    cases h
    exact .register ht
  case h_3 mtx ht =>
    cases h
    exact moves_of_attempt ht exclusive
  case h_4 mtx inner ht =>
    simp only [Option.bind_eq_bind, Option.bind_eq_some_iff] at h
    obtain ⟨⟨events, inner'⟩, hinner, h⟩ := h
    split at h
    · cases h
      exact .wake ht hinner
    · rename_i hgoesOn
      cases h
      exact .wait ht hinner hgoesOn
  case h_5 mtx ht =>
    cases h
    exact .unregister ht
  case h_6 mtx ht =>
    cases h
    exact .release ht
  case h_7 mtx waiters ht =>
    split at h
    · simp only [innerStep_setEvent, Option.bind_eq_bind, Option.bind_some] at h
      cases h
      exact .notify ht
    · rename_i hnone
      cases h
      exact .finish ht (Fin.findRev?_eq_none_iff.mp hnone)
  case h_8 mtx waiters id ht =>
    simp only [Option.bind_eq_bind, Option.bind_eq_some_iff] at h
    obtain ⟨⟨events, inner'⟩, hinner, h⟩ := h
    obtain rfl := innerStep_schedule hinner
    cases h
    exact .schedule ht

/-! ## Exclusion -/

/-- The task has taken the mutex and has not freed it. -/
def Thread.owns (mtx : μ) : Thread μ n → Bool
  | .unregister m | .release m => m = mtx
  | _ => false

/-- The task owns the mutex: from the store that takes the lock to the one that frees it. -/
def State.Owns (s : State μ n) (t : Fin (n + 1)) (mtx : μ) : Prop :=
  s.held t mtx = true ∨ (s.threads t).owns mtx = true

/-- A mutex has one owner at most, and none while its lock is free. -/
structure State.Exclusion (s : State μ n) : Prop where
  owned : ∀ {t mtx}, s.Owns t mtx → s.lock mtx ≠ 0
  unique : ∀ {t u mtx}, s.Owns t mtx → s.Owns u mtx → t = u
  once : ∀ {t mtx}, (s.threads t).owns mtx = true → s.held t mtx = false

variable {s s' : State μ n}

/-- A step that makes nobody an owner. -/
theorem State.Exclusion.of_owns (h : s.Exclusion)
    (howns : ∀ u m, s'.Owns u m → s.Owns u m ∧ s'.lock m = s.lock m)
    (honce : ∀ u m, (s'.threads u).owns m = true → s'.held u m = false) : s'.Exclusion where
  owned := by
    intro u m hu
    rw [(howns u m hu).2]
    exact h.owned (howns u m hu).1
  unique hu hv := h.unique (howns _ _ hu).1 (howns _ _ hv).1
  once := honce _ _

/-- A step of a task that concerns no ownership. -/
theorem State.Exclusion.move {thread : Thread μ n} (h : s.Exclusion)
    (hthreads : s'.threads = Function.update s.threads t thread)
    (hlock : s'.lock = s.lock) (hheld : s'.held = s.held)
    (hthread : ∀ mtx, thread.owns mtx = true → (s.threads t).owns mtx = true) :
    s'.Exclusion := by
  have howns : ∀ u m, (s'.threads u).owns m = true → (s.threads u).owns m = true := by
    intro u m hu
    rw [hthreads] at hu
    rcases eq_or_ne u t with rfl | hne
    · rw [Function.update_self] at hu
      exact hthread m hu
    · rwa [Function.update_of_ne hne] at hu
  refine h.of_owns ?_ ?_
  · intro u m hu
    rw [State.Owns, hheld] at hu
    exact ⟨hu.imp_right (howns u m), by rw [hlock]⟩
  · intro u m hu
    rw [hheld]
    exact h.once (howns u m hu)

/-- A task takes a lock that is free. -/
theorem State.Exclusion.acquire {mtx : μ} (h : s.Exclusion) (ht : s.threads t = .attempt mtx)
    (hfree : s.lock mtx = 0) : State.Exclusion ((s.setLock mtx 2).goto t (.unregister mtx)) := by
  have howns : ∀ u m, State.Owns ((s.setLock mtx 2).goto t (.unregister mtx)) u m →
      u = t ∧ m = mtx ∨ s.Owns u m ∧ m ≠ mtx := by
    intro u m hu
    have hold : s.Owns u m → m ≠ mtx := by
      rintro hown rfl
      exact h.owned hown hfree
    rcases hu with hheld | hthread
    · exact .inr ⟨.inl hheld, hold (.inl hheld)⟩
    · rcases eq_or_ne u t with rfl | hne
      · refine .inl ⟨rfl, ?_⟩
        simpa [State.goto, Thread.owns, eq_comm] using hthread
      · simp only [State.goto, Function.update_of_ne hne] at hthread
        exact .inr ⟨.inr hthread, hold (.inr hthread)⟩
  refine ⟨?_, ?_, ?_⟩
  · intro u m hu
    rcases howns u m hu with ⟨rfl, rfl⟩ | ⟨hu, hne⟩
    · simp [State.goto, State.setLock]
    · simp only [State.goto, State.setLock, Function.update_of_ne hne]
      exact h.owned hu
  · intro u v m hu hv
    rcases howns u m hu with ⟨rfl, rfl⟩ | ⟨hu, hne⟩ <;>
      rcases howns v m hv with ⟨rfl, hm⟩ | ⟨hv, hne'⟩
    · rfl
    · exact absurd rfl hne'
    · exact absurd hm hne
    · exact h.unique hu hv
  · intro u m hu
    rcases howns u m (.inr hu) with ⟨rfl, rfl⟩ | ⟨hu', -⟩
    · show s.held u m = false
      by_contra hheld
      exact h.owned (.inl (by simpa using hheld)) hfree
    · rcases eq_or_ne u t with rfl | hne
      · have hm : mtx = m := by simpa [State.goto, Thread.owns] using hu
        exact absurd hfree (h.owned (hm ▸ hu'))
      · simp only [State.goto, Function.update_of_ne hne] at hu
        exact h.once hu

/-- `mutex_lock` returns, or `mutex_unlock` begins: the ownership passes from the code of the
mutexes to the caller or back. -/
theorem State.Exclusion.pass {mtx : μ} {bit : Bool} {thread : Thread μ n} (h : s.Exclusion)
    (hthreads : s'.threads = Function.update s.threads t thread) (hlock : s'.lock = s.lock)
    (hheld : s'.held = Function.update s.held t (Function.update (s.held t) mtx bit))
    (howns : s.Owns t mtx) (hthread : ∀ m, thread.owns m = true → m = mtx ∧ bit = false) :
    s'.Exclusion := by
  have hold : ∀ {u m}, s'.held u m = true → s.Owns u m := by
    intro u m hu
    rw [hheld] at hu
    rcases eq_or_ne u t with rfl | hne
    · rw [Function.update_self] at hu
      rcases eq_or_ne m mtx with rfl | hne
      · exact howns
      · rw [Function.update_of_ne hne] at hu
        exact .inl hu
    · rw [Function.update_of_ne hne] at hu
      exact .inl hu
  refine h.of_owns ?_ ?_
  · intro u m hu
    refine ⟨?_, by rw [hlock]⟩
    rcases hu with hu | hu
    · exact hold hu
    · rw [hthreads] at hu
      rcases eq_or_ne u t with rfl | hne
      · rw [Function.update_self] at hu
        obtain ⟨rfl, -⟩ := hthread m hu
        exact howns
      · rw [Function.update_of_ne hne] at hu
        exact .inr hu
  · intro u m hu
    rw [hthreads] at hu
    rw [hheld]
    rcases eq_or_ne u t with rfl | hne
    · rw [Function.update_self] at hu
      obtain ⟨rfl, rfl⟩ := hthread m hu
      rw [Function.update_self, Function.update_self]
    · rw [Function.update_of_ne hne] at hu ⊢
      exact h.once hu

/-- The owner frees the lock. -/
theorem State.Exclusion.release {mtx : μ} (h : s.Exclusion)
    (ht : s.threads t = .release mtx) : State.Exclusion (s.release t mtx) := by
  have htowns : (s.threads t).owns mtx = true := by simp [ht, Thread.owns]
  -- Nobody else can own the mutex, and the owner gives it up.
  have hold : ∀ {u m}, State.Owns (s.release t mtx) u m →
      s.Owns u m ∧ (s.release t mtx).lock m = s.lock m := by
    intro u m hu
    have hboth : s.Owns u m ∧ ¬ (u = t ∧ m = mtx) := by
      rcases hu with hu | hu
      · refine ⟨.inl hu, ?_⟩
        rintro ⟨rfl, rfl⟩
        have hheld : s.held u m = false := h.once htowns
        exact Bool.false_ne_true (hheld.symm.trans hu)
      · rcases eq_or_ne u t with rfl | hne
        · simp [State.release, State.goto, Thread.owns] at hu
        · simp only [State.release, State.goto, Function.update_of_ne hne] at hu
          exact ⟨.inr hu, fun heq => hne heq.1⟩
    have hm : m ≠ mtx := by
      rintro rfl
      exact hboth.2 ⟨h.unique hboth.1 (.inr htowns), rfl⟩
    exact ⟨hboth.1, Function.update_of_ne hm ..⟩
  refine h.of_owns (fun u m => hold) ?_
  intro u m hu
  rcases eq_or_ne u t with rfl | hne
  · simp [State.release, State.goto, Thread.owns] at hu
  · simp only [State.release, State.goto, Function.update_of_ne hne] at hu
    exact h.once hu

/-- **Step lemma.** -/
theorem State.Exclusion.moves (h : s.Exclusion) (hs : Moves s t s') : s'.Exclusion := by
  have hnobody : ∀ {thread : Thread μ n}, (∀ m, thread.owns m = false) →
      ∀ m, thread.owns m = true → (s.threads t).owns m = true := by
    intro thread hfalse m hm
    rw [hfalse m] at hm
    cases hm
  cases hs with
  | register ht => exact h.move rfl rfl rfl (hnobody fun _ => rfl)
  | acquire ht hfree => exact h.acquire ht hfree
  | retry ht => exact h.move rfl rfl rfl (hnobody fun _ => rfl)
  | contend now ht howned => exact h.move rfl rfl rfl (hnobody fun _ => rfl)
  | wait ht hinner hgoesOn => exact h.move rfl rfl rfl (hnobody fun _ => rfl)
  | wake ht hinner => exact h.move rfl rfl rfl (hnobody fun _ => rfl)
  | unregister ht =>
      refine h.pass rfl rfl rfl (.inr ?_) ?_
      · rw [ht]
        simp [Thread.owns]
      · rintro m ⟨⟩
  | release ht => exact h.release ht
  | notify ht => exact h.move rfl rfl rfl (hnobody fun _ => rfl)
  | finish ht hnone => exact h.move rfl rfl rfl (hnobody fun _ => rfl)
  | schedule ht => exact h.move rfl rfl rfl (hnobody fun _ => rfl)

/-! ## Waiting -/

/-- The task tries to take the mutex or waits for it. -/
def Thread.tries (mtx : μ) : Thread μ n → Bool
  | .attempt m | .wait m _ => m = mtx
  | _ => false

/-- The task is blocked in `mutex_lock`: it waits and has not got the event. -/
def Thread.blocked (mtx : μ) : Thread μ n → Bool
  | .wait m inner => m = mtx && innerBlocked inner
  | _ => false

/-- The task is unlocking the mutex and still has `t` in its snapshot. -/
def Thread.willNotify (mtx : μ) (t : Fin (n + 1)) : Thread μ n → Bool
  | .notify m waiters | .schedule m waiters _ => m = mtx && waiters t
  | _ => false

namespace State

/-- Who is blocked on a free mutex has the event, or the last unlocker will send it. -/
def WakeKept (s : State μ n) : Prop :=
  ∀ mtx t, s.lock mtx = 0 → (s.threads t).blocked mtx = true →
    s.events t &&& taskEventMutex ≠ 0 ∨
      ∃ u, s.lastUnlocker mtx = some u ∧ (s.threads u).willNotify mtx t = true

/-- The tasks that are waiting. -/
structure Waiting (s : State μ n) : Prop where
  registered : ∀ {t mtx}, (s.threads t).tries mtx = true → s.waiters mtx t = true
  innerWaits : ∀ {t mtx inner}, s.threads t = .wait mtx inner → innerWaits inner = true
  wakeKept : s.WakeKept

/-- A step of the task `t` that frees no lock.  It must leave the event to the others, keep
it while `t` is blocked, and not forget whom to notify. -/
theorem WakeKept.move {thread : Thread μ n} (h : s.WakeKept)
    (hthreads : s'.threads = Function.update s.threads t thread)
    (hlock : ∀ m, s'.lock m = 0 → s.lock m = 0) (hlast : s'.lastUnlocker = s.lastUnlocker)
    (hevents : ∀ u, u ≠ t → s.events u &&& taskEventMutex ≠ 0 →
      s'.events u &&& taskEventMutex ≠ 0)
    (hself : ∀ m, s'.lock m = 0 → thread.blocked m = true →
      (s.threads t).blocked m = true ∧
        (s.events t &&& taskEventMutex ≠ 0 → s'.events t &&& taskEventMutex ≠ 0))
    (hnotify : ∀ m u, (s.threads t).willNotify m u = true →
      thread.willNotify m u = true ∨ s'.events u &&& taskEventMutex ≠ 0) : s'.WakeKept := by
  intro m u hfree hblocked
  have hold : (s.threads u).blocked m = true ∧
      (s.events u &&& taskEventMutex ≠ 0 → s'.events u &&& taskEventMutex ≠ 0) := by
    rw [hthreads] at hblocked
    rcases eq_or_ne u t with rfl | hne
    · rw [Function.update_self] at hblocked
      exact hself m hfree hblocked
    · rw [Function.update_of_ne hne] at hblocked
      exact ⟨hblocked, hevents u hne⟩
  rcases h m u (hlock m hfree) hold.1 with hevent | ⟨v, hv, hwill⟩
  · exact .inl (hold.2 hevent)
  · rcases eq_or_ne v t with rfl | hne
    · refine (hnotify m u hwill).symm.imp_right fun hstill => ⟨v, hlast ▸ hv, ?_⟩
      rw [hthreads, Function.update_self]
      exact hstill
    · refine .inr ⟨v, hlast ▸ hv, ?_⟩
      rw [hthreads, Function.update_of_ne hne]
      exact hwill

/-- The lock is freed with the snapshot of all that wait for it. -/
theorem WakeKept.release {mtx : μ} (h : s.Waiting) (ht : s.threads t = .release mtx) :
    (s.release t mtx).WakeKept := by
  intro m u hfree hblocked
  have hblocked : (s.threads u).blocked m = true := by
    rcases eq_or_ne u t with rfl | hne
    · simp [State.release, State.goto, Thread.blocked] at hblocked
    · simpa only [State.release, State.goto, State.setLock, Function.update_of_ne hne]
        using hblocked
  rcases eq_or_ne m mtx with rfl | hne
  · refine .inr ⟨t, Function.update_self .., ?_⟩
    have htries : (s.threads u).tries m = true := by
      cases hu : s.threads u <;> simp_all [Thread.blocked, Thread.tries]
    simpa [State.release, State.goto, Thread.willNotify] using h.registered htries
  · -- The task was not notifying for another mutex.
    have hfree : s.lock m = 0 := by
      simpa only [State.release, State.goto, State.setLock, Function.update_of_ne hne] using hfree
    refine (h.wakeKept m u hfree hblocked).imp_right ?_
    rintro ⟨v, hv, hwill⟩
    have hvt : v ≠ t := by
      rintro rfl
      rw [ht] at hwill
      cases hwill
    refine ⟨v, ?_, ?_⟩
    · simpa only [State.release, State.goto, Function.update_of_ne hne] using hv
    · simpa only [State.release, State.goto, State.setLock, Function.update_of_ne hvt]
        using hwill

/-- A step of the task `t`, which stays in the bitmap while it needs to. -/
theorem Waiting.move {thread : Thread μ n} (h : s.Waiting)
    (hthreads : s'.threads = Function.update s.threads t thread)
    (hwaiters : ∀ u m, u ≠ t → s.waiters m u = true → s'.waiters m u = true)
    (htries : ∀ m, thread.tries m = true → s'.waiters m t = true)
    (hinner : ∀ m inner, thread = .wait m inner → Mutex.innerWaits inner = true)
    (hwake : s'.WakeKept) : s'.Waiting := by
  refine ⟨?_, ?_, hwake⟩
  · intro u m hu
    rw [hthreads] at hu
    rcases eq_or_ne u t with rfl | hne
    · rw [Function.update_self] at hu
      exact htries m hu
    · rw [Function.update_of_ne hne] at hu
      exact hwaiters u m hne (h.registered hu)
  · intro u m inner hu
    rw [hthreads] at hu
    rcases eq_or_ne u t with rfl | hne
    · rw [Function.update_self] at hu
      exact hinner m inner hu
    · rw [Function.update_of_ne hne] at hu
      exact h.innerWaits hu

theorem setWaiter_of_ne {mtx m : μ} {u : Fin (n + 1)} {bit : Bool} (hne : u ≠ t) :
    (s.setWaiter mtx t bit).waiters m u = s.waiters m u := by
  rcases eq_or_ne m mtx with rfl | hm
  · simp [setWaiter, hne]
  · simp [setWaiter, hm]

/-- A step of a task that is not in the loop of `mutex_unlock` and is not blocked after it. -/
theorem Waiting.quiet {thread : Thread μ n} (h : s.Waiting)
    (hthreads : s'.threads = Function.update s.threads t thread)
    (hlast : s'.lastUnlocker = s.lastUnlocker) (hlock : ∀ m, s'.lock m = 0 → s.lock m = 0)
    (hevents : ∀ u, u ≠ t → s'.events u = s.events u)
    (hwaiters : ∀ u m, u ≠ t → s'.waiters m u = s.waiters m u)
    (htries : ∀ m, thread.tries m = true → s'.waiters m t = true)
    (hawake : ∀ m inner, thread ≠ .wait m inner)
    (hnobody : ∀ m u, (s.threads t).willNotify m u = false) : s'.Waiting := by
  refine h.move hthreads ?_ htries ?_ ?_
  · intro u m hne hu
    rw [hwaiters u m hne]
    exact hu
  · exact fun m inner heq => absurd heq (hawake m inner)
  · refine h.wakeKept.move hthreads hlock hlast ?_ ?_ ?_
    · intro u hne hu
      rw [hevents u hne]
      exact hu
    · intro m _ hblocked
      cases thread with
      | wait m' inner => exact absurd rfl (hawake m' inner)
      | _ => cases hblocked
    · intro m u hwill
      rw [hnobody m u] at hwill
      cases hwill

/-- **Step lemma.** -/
theorem Waiting.moves (h : s.Waiting) (hs : Moves s t s') : s'.Waiting := by
  cases hs with
  | @register mtx ht =>
      refine h.quiet rfl rfl (fun _ => id) (fun _ _ => rfl) (fun _ _ => setWaiter_of_ne) ?_ ?_ ?_
      · intro m hm
        have hm : mtx = m := by simpa [Thread.tries] using hm
        simp [State.goto, State.setWaiter, hm]
      · rintro m inner ⟨⟩
      · simp [ht, Thread.willNotify]
  | @acquire mtx ht hfree =>
      refine h.quiet rfl rfl ?_ (fun _ _ => rfl) (fun _ _ _ => rfl) ?_ ?_ ?_
      · intro m hm
        rcases eq_or_ne m mtx with rfl | hne
        · exact hfree
        · simpa only [State.goto, State.setLock, Function.update_of_ne hne] using hm
      · rintro m ⟨⟩
      · rintro m inner ⟨⟩
      · simp [ht, Thread.willNotify]
  | retry ht =>
      refine h.quiet rfl rfl (fun _ => id) (fun _ _ => rfl) (fun _ _ _ => rfl) ?_ ?_ ?_
      · exact fun m hm => h.registered (ht ▸ hm)
      · rintro m inner ⟨⟩
      · simp [ht, Thread.willNotify]
  | @contend mtx now ht howned =>
      refine h.move rfl (fun _ _ _ => id) ?_ ?_ ?_
      · exact fun m hm => h.registered (ht ▸ hm)
      · rintro m inner ⟨⟩
        rfl
      · refine h.wakeKept.move rfl (fun _ => id) rfl (fun _ _ => id) ?_ ?_
        · -- The mutex has an owner.
          intro m hm hblocked
          simp only [Thread.blocked, Bool.and_eq_true, decide_eq_true_eq] at hblocked
          exact absurd (hblocked.1 ▸ hm) howned
        · simp [ht, Thread.willNotify]
  | @wait mtx now inner inner' events ht hinner hgoesOn =>
      have hstep := waitStep_of_innerStep (h.innerWaits ht) hinner
      refine h.move rfl (fun _ _ _ => id) ?_ ?_ ?_
      · exact fun m hm => h.registered (ht ▸ hm)
      · rintro m _ ⟨⟩
        exact hstep.goesOn.resolve_left fun ⟨last, hlast⟩ => hgoesOn last hlast
      · refine h.wakeKept.move rfl (fun _ => id) rfl ?_ ?_ ?_
        · intro u hne
          show _ → events u &&& taskEventMutex ≠ 0
          rw [hstep.others u hne]
          exact id
        · intro m _ hm
          simp only [Thread.blocked, Bool.and_eq_true] at hm
          rw [ht]
          simp only [Thread.blocked, Bool.and_eq_true]
          obtain ⟨hblocked, hevents⟩ := hstep.keeps hm.2
          refine ⟨⟨hm.1, hblocked⟩, ?_⟩
          show _ → events t &&& taskEventMutex ≠ 0
          rw [hevents]
          exact id
        · simp [ht, Thread.willNotify]
  | @wake mtx now inner inner' events ht hinner =>
      have hstep := waitStep_of_innerStep (h.innerWaits ht) hinner
      refine h.quiet rfl rfl (fun _ => id) hstep.others (fun _ _ _ => rfl) ?_ ?_ ?_
      · exact fun m hm => h.registered (ht ▸ hm)
      · rintro m inner ⟨⟩
      · simp [ht, Thread.willNotify]
  | unregister ht =>
      refine h.quiet rfl rfl (fun _ => id) (fun _ _ => rfl) (fun _ _ => setWaiter_of_ne) ?_ ?_ ?_
      · rintro m ⟨⟩
      · rintro m inner ⟨⟩
      · simp [ht, Thread.willNotify]
  | release ht =>
      refine h.move rfl (fun _ _ _ => id) ?_ ?_ (WakeKept.release h ht)
      · rintro m ⟨⟩
      · rintro m inner ⟨⟩
  | @notify mtx waiters receiver ht =>
      -- The event of the receiver is set, and the others stay in the snapshot.
      refine h.move rfl (fun _ _ _ => id) ?_ ?_ ?_
      · rintro m ⟨⟩
      · rintro m inner ⟨⟩
      · refine h.wakeKept.move rfl (fun _ => id) rfl ?_ ?_ ?_
        · exact fun u _ => setEvents_or_and_mutex receiver u
        · rintro m - ⟨⟩
        · intro m u hwill
          rw [ht] at hwill
          rcases eq_or_ne u receiver with rfl | hne
          · right
            show Function.update s.events u _ u &&& taskEventMutex ≠ 0
            rw [Function.update_self]
            exact or_mutex_and_mutex_ne_zero _
          · left
            simpa only [Thread.willNotify, Function.update_of_ne hne] using hwill
  | finish ht hnone =>
      refine h.move rfl (fun _ _ _ => id) ?_ ?_ ?_
      · rintro m ⟨⟩
      · rintro m inner ⟨⟩
      · refine h.wakeKept.move rfl (fun _ => id) rfl ?_ ?_ ?_
        · intro u hne
          show _ → Function.update s.events t _ u &&& taskEventMutex ≠ 0
          rw [Function.update_of_ne hne]
          exact id
        · rintro m - ⟨⟩
        · intro m u hwill
          rw [ht] at hwill
          simp [Thread.willNotify, hnone u] at hwill
  | schedule ht =>
      refine h.move rfl (fun _ _ _ => id) ?_ ?_ ?_
      · rintro m ⟨⟩
      · rintro m inner ⟨⟩
      · refine h.wakeKept.move rfl (fun _ => id) rfl (fun _ _ => id) ?_ ?_
        · rintro m - ⟨⟩
        · intro m u hwill
          rw [ht] at hwill
          exact .inl hwill

end State

/-! ## Whole runs -/

/-- **Step lemma.** -/
theorem step_exclusion {e : Event μ n} (h : s.Exclusion) (hs : step s e = some s') :
    s'.Exclusion := by
  cases e with
  | lock t mtx =>
      simp only [step] at hs
      split_ifs at hs
      cases hs
      exact h.move rfl rfl rfl fun m hm => by cases hm
  | unlock t mtx =>
      simp only [step] at hs
      split_ifs at hs with hguard
      cases hs
      refine h.pass rfl rfl rfl (.inl hguard.2) fun m hm => ⟨?_, rfl⟩
      simpa [Thread.owns, eq_comm] using hm
  | run t now exclusive => exact h.moves (moves_of_runThread hs)
  | send t bits =>
      cases hs
      exact ⟨h.owned, h.unique, h.once⟩
  | read t bits =>
      simp only [step] at hs
      split_ifs at hs
      cases hs
      exact ⟨h.owned, h.unique, h.once⟩

/-- **Step lemma.** -/
theorem step_waiting {e : Event μ n} (h : s.Waiting) (hs : step s e = some s') :
    s'.Waiting := by
  cases e with
  | lock t mtx =>
      simp only [step] at hs
      split_ifs at hs with hguard
      cases hs
      refine h.quiet rfl rfl (fun _ => id) (fun _ _ => rfl) (fun _ _ _ => rfl) ?_ ?_ ?_
      · rintro m ⟨⟩
      · rintro m inner ⟨⟩
      · simp [Thread.eq_user hguard, Thread.willNotify]
  | unlock t mtx =>
      simp only [step] at hs
      split_ifs at hs with hguard
      cases hs
      refine h.quiet rfl rfl (fun _ => id) (fun _ _ => rfl) (fun _ _ _ => rfl) ?_ ?_ ?_
      · rintro m ⟨⟩
      · rintro m inner ⟨⟩
      · simp [Thread.eq_user hguard.1, Thread.willNotify]
  | run t now exclusive => exact h.moves (moves_of_runThread hs)
  | send t bits =>
      cases hs
      refine ⟨h.registered, h.innerWaits, ?_⟩
      refine h.wakeKept.move (Function.update_eq_self t _).symm (fun _ => id) rfl ?_ ?_ ?_
      · exact fun u _ => State.setEvents_or_and_mutex t u
      · exact fun m _ hblocked => ⟨hblocked, State.setEvents_or_and_mutex t t⟩
      · exact fun m u hwill => .inl hwill
  | read t bits =>
      simp only [step] at hs
      split_ifs at hs with hguard
      cases hs
      have huser := Thread.eq_user hguard
      have hself : s.threads = Function.update s.threads t .user := by
        rw [← huser, Function.update_eq_self]
      refine h.quiet hself rfl (fun _ => id) ?_ (fun _ _ _ => rfl) ?_ ?_ ?_
      · exact fun u hne => Function.update_of_ne hne ..
      · rintro m ⟨⟩
      · rintro m inner ⟨⟩
      · simp [huser, Thread.willNotify]

/-- **Mutexes exclude and wake.**  In every state of every interleaving: a mutex has one owner
at most, from taking the lock to freeing it; and a task that is blocked in `mutex_lock` on a
free mutex has `TASK_EVENT_MUTEX` pending, or the last unlocker has it in its snapshot. -/
theorem mutex_excludes_and_wakes {events : Fin (n + 1) → UInt32}
    (h : Lib.Reachable step Lib.anyEvent (init μ events) s) :
    (∀ t u mtx, s.Owns t mtx → s.Owns u mtx → t = u) ∧ s.WakeKept := by
  have hinv := h.invariant (fun s => s.Exclusion ∧ s.Waiting) ?_ ?_
  · exact ⟨fun t u mtx => hinv.1.unique, hinv.2.wakeKept⟩
  · refine ⟨⟨?_, ?_, ?_⟩, ⟨?_, ?_, ?_⟩⟩
    · rintro t mtx (⟨⟨⟩⟩ | ⟨⟨⟩⟩)
    · rintro t u mtx (⟨⟨⟩⟩ | ⟨⟨⟩⟩)
    · rintro t mtx ⟨⟩
    · rintro t mtx ⟨⟩
    · rintro t mtx inner ⟨⟩
    · rintro mtx t - ⟨⟩
  · rintro s e s' ⟨hexclusion, hwaiting⟩ - hs
    exact ⟨step_exclusion hexclusion hs, step_waiting hwaiting hs⟩

/-- Task 0 takes the mutex, task 1 goes to sleep on it, and task 0 frees it: task 1 is blocked
on a free mutex without an event. -/
def handOverRun : List (Event Unit 1) :=
  [.lock 0 (), .run 0 0 true, .run 0 0 true, .run 0 0 true, .lock 1 (), .run 1 0 true,
    .run 1 0 true, .run 1 0 true, .run 1 0 true, .unlock 0 (), .run 0 0 true]

theorem mutex_excludes_and_wakes_handOver :
    ∃ s, Lib.Reachable step Lib.anyEvent (init Unit fun _ : Fin 2 => 0) s ∧
      s.lock () = 0 ∧ (s.threads 1).blocked () = true ∧ s.events 1 = 0 ∧
      (∃ u, s.lastUnlocker () = some u ∧ (s.threads u).willNotify () 1 = true) ∧
      ∀ t u, s.Owns t () → s.Owns u () → t = u := by
  obtain ⟨s, hreach, hfree, hblocked, hevents⟩ :
      ∃ s, Lib.Reachable step Lib.anyEvent (init Unit fun _ : Fin 2 => 0) s ∧
        s.lock () = 0 ∧ (s.threads 1).blocked () = true ∧ s.events 1 = 0 :=
    Lib.Reachable.exists_of_runEvents handOverRun (by decide +kernel)
  have hall := mutex_excludes_and_wakes hreach
  refine ⟨s, hreach, hfree, hblocked, hevents, ?_, fun t u => hall.1 t u ()⟩
  refine (hall.2 () 1 hfree hblocked).resolve_left fun hne => hne ?_
  rw [hevents]
  rfl

end Mutex
end CrosEc
