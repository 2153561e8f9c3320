import CrosEc.Timer.Model

/-!
# What `process_timers` leaves behind

The scan stops every timer that is due at the time it has read and finds the earliest
deadline of the others in the current epoch (`scanned_foldl`).  A call of `process_timers`
repeats scans while the clock moves on, and returns with the hardware event at or before
every deadline of the epoch (`processed_processLoop`).
-/

namespace CrosEc
namespace Timer

variable {n : Nat}

namespace Timestamp

/-- A later time stamp has no smaller high word. -/
theorem hi_le_of_val_lt {a b : Timestamp} (h : a.val < b.val) : a.hi ≤ b.hi := by
  have hlo := b.lo.toNat_lt
  rw [UInt32.le_iff_toNat_le]
  simp only [val] at h
  omega

end Timestamp

namespace State

/-- The time that the firmware reads is never ahead of the true time. -/
theorem getTime_val_le {s : State n} (h : s.clksrcHigh.toNat ≤ s.time / 2 ^ 32) :
    s.getTime.val ≤ s.time := by
  simp only [Timestamp.val, getTime, hwClockSourceRead, UInt32.toNat_ofNat']
  omega

/-- **Step lemma.** What the clock does when it advances. -/
theorem tick_eq_some {dt : Nat} {s s' : State n} (h : s.tick dt = some s') :
    s' = { s with time := s.time + dt } ∧
      (s.time + dt) / 2 ^ 32 ≤ s.clksrcHigh.toNat + 1 ∧ s.time + dt < 2 ^ 64 := by
  simp only [tick, Option.ite_none_right_eq_some, Option.some.injEq] at h
  exact ⟨h.2.symm, h.1⟩

/-! ## The scan -/

/-- What a scan at the time `now` over the timers of `l` makes of a state and of `next`. -/
structure Scanned (now : Timestamp) (l : List (Fin n)) (s : State n) (next : Timestamp)
    (s' : State n) (next' : Timestamp) : Prop where
  frame : s' = { s with timerRunning := s'.timerRunning, expiries := s'.expiries }
  running : ∀ t, s'.timerRunning t = true →
    s.timerRunning t = true ∧ (t ∈ l → now.val < (s.timerDeadline t).val)
  next_hi : next' = next ∨ next'.hi = now.hi
  next_lo_le : next'.lo ≤ next.lo
  next_le : ∀ t ∈ l, now.val < (s.timerDeadline t).val → (s.timerDeadline t).hi = now.hi →
    next'.lo ≤ (s.timerDeadline t).lo
  expiries : ∀ x ∈ s'.expiries,
    x ∈ s.expiries ∨ x.deadline.val ≤ now.val ∧ x.time = s.time

variable {now next next₁ next' : Timestamp} {l l' : List (Fin n)} {s s₁ s' : State n}

/-- **Step lemma.** One timer of the scan. -/
theorem scanned_scanTimer (now : Timestamp) (s : State n) (next : Timestamp) (t : Fin n) :
    Scanned now [t] s next (scanTimer now (s, next) t).1 (scanTimer now (s, next) t).2 := by
  simp only [scanTimer]
  split_ifs with hdue hnext
  · -- The timer is due: it is stopped, and `next` stays.
    refine ⟨rfl, ?_, .inl rfl, UInt32.le_refl _, ?_, ?_⟩
    · intro u hu
      rcases eq_or_ne u t with rfl | hne
      · simp [expireTimer] at hu
      · simp only [expireTimer, Function.update_of_ne hne] at hu
        exact ⟨hu, fun hmem => absurd (List.mem_singleton.mp hmem) hne⟩
    · intro u hu hlt
      rw [List.mem_singleton.mp hu] at hlt
      exact absurd hdue (not_le.mpr hlt)
    · intro x hx
      rcases List.mem_cons.mp hx with rfl | hx
      · exact .inr ⟨hdue, rfl⟩
      · exact .inl hx
  · -- It is the earliest so far.
    refine ⟨rfl, ?_, .inr hnext.1, UInt32.le_of_lt hnext.2, ?_, fun x hx => .inl hx⟩
    · intro u hu
      exact ⟨hu, fun hmem => List.mem_singleton.mp hmem ▸ not_le.mp hdue⟩
    · intro u hu _ _
      rw [List.mem_singleton.mp hu]
      exact UInt32.le_refl _
  · refine ⟨rfl, ?_, .inl rfl, UInt32.le_refl _, ?_, fun x hx => .inl hx⟩
    · intro u hu
      exact ⟨hu, fun hmem => List.mem_singleton.mp hmem ▸ not_le.mp hdue⟩
    · intro u hu _ hhi
      rw [List.mem_singleton.mp hu] at hhi ⊢
      exact UInt32.not_lt.mp fun hlt => hnext ⟨hhi, hlt⟩

/-- A scan over two parts of a list. -/
theorem Scanned.append (h : Scanned now l s next s₁ next₁)
    (h' : Scanned now l' s₁ next₁ s' next') : Scanned now (l ++ l') s next s' next' := by
  have hdeadline : s₁.timerDeadline = s.timerDeadline := by rw [h.frame]
  have htime : s₁.time = s.time := by rw [h.frame]
  refine ⟨?_, ?_, ?_, UInt32.le_trans h'.next_lo_le h.next_lo_le, ?_, ?_⟩
  · rw [h'.frame, h.frame]
  · intro t ht
    obtain ⟨ht₁, hl'⟩ := h'.running t ht
    obtain ⟨ht₀, hl⟩ := h.running t ht₁
    rw [hdeadline] at hl'
    exact ⟨ht₀, fun hmem => (List.mem_append.mp hmem).elim hl hl'⟩
  · rcases h'.next_hi with heq | hhi
    · rw [heq]
      exact h.next_hi
    · exact .inr hhi
  · intro t ht hlt hhi
    rcases List.mem_append.mp ht with ht | ht
    · exact UInt32.le_trans h'.next_lo_le (h.next_le t ht hlt hhi)
    · rw [← hdeadline] at hlt hhi ⊢
      exact h'.next_le t ht hlt hhi
  · intro x hx
    rcases h'.expiries x hx with hx | hx
    · exact h.expiries x hx
    · rw [htime] at hx
      exact .inr hx

/-- **Run lemma.** The scan over a list of timers. -/
theorem scanned_foldl (now : Timestamp) (l : List (Fin n)) (acc : State n × Timestamp) :
    Scanned now l acc.1 acc.2 (l.foldl (scanTimer now) acc).1
      (l.foldl (scanTimer now) acc).2 := by
  induction l generalizing acc with
  | nil =>
      exact ⟨rfl, fun t ht => ⟨ht, fun hmem => absurd hmem List.not_mem_nil⟩, .inl rfl,
        UInt32.le_refl _, fun t ht => absurd ht List.not_mem_nil, fun x hx => .inl hx⟩
  | cons t l ih =>
      exact (scanned_scanTimer now acc.1 acc.2 t).append (ih (scanTimer now acc t))

/-- The whole scan of `process_timers`. -/
theorem scanned_scanTimers (now : Timestamp) (s : State n) :
    Scanned now s.runningTimers s ⟨0xffffffff, 0xffffffff⟩ (s.scanTimers now).1
      (s.scanTimers now).2 :=
  scanned_foldl now s.runningTimers (s, ⟨0xffffffff, 0xffffffff⟩)

theorem mem_runningTimers {t : Fin n} :
    t ∈ s.runningTimers ↔ s.timerRunning t = true := by
  simp [runningTimers]

/-! ## The loop -/

/-- Every running timer is for a later epoch, or the event is at or before its deadline. -/
def Served (s : State n) (t : Fin n) : Prop :=
  s.clksrcHigh < (s.timerDeadline t).hi ∨
    (s.timerDeadline t).hi = s.clksrcHigh ∧ s.nextDeadline ≤ (s.timerDeadline t).lo

/-- `next_deadline` repeats what the hardware has been given. -/
def EventKnown (s : State n) : Prop :=
  s.hwEvent = some s.nextDeadline ∨ s.hwEvent = none ∧ s.nextDeadline = 0xffffffff

/-- Part of a call of `process_timers`: it lets time pass, stops timers that are due, and
sets the event. -/
structure Progress (s s' : State n) : Prop where
  frame : s' = { s with
    timerRunning := s'.timerRunning, expiries := s'.expiries, time := s'.time,
    hwEvent := s'.hwEvent, nextDeadline := s'.nextDeadline }
  running : ∀ t, s'.timerRunning t = true → s.timerRunning t = true
  time_le : s.time ≤ s'.time
  expiries : s.clksrcHigh.toNat ≤ s.time / 2 ^ 32 → ∀ x ∈ s'.expiries,
    x ∈ s.expiries ∨ x.deadline.val ≤ x.time

theorem Progress.trans (h : Progress s s₁) (h' : Progress s₁ s') : Progress s s' where
  frame := by rw [h'.frame, h.frame]
  running t ht := h.running t (h'.running t ht)
  time_le := h.time_le.trans h'.time_le
  expiries := by
    intro hclock x hx
    have hclock₁ : s₁.clksrcHigh.toNat ≤ s₁.time / 2 ^ 32 := by
      have hhigh : s₁.clksrcHigh = s.clksrcHigh := by rw [h.frame]
      rw [hhigh]
      exact hclock.trans (Nat.div_le_div_right h.time_le)
    rcases h'.expiries hclock₁ x hx with hx | hdue
    · exact h.expiries hclock x hx
    · exact .inr hdue

theorem progress_tick {dt : Nat} (h : s.tick dt = some s') : Progress s s' := by
  obtain ⟨rfl, -⟩ := tick_eq_some h
  exact ⟨rfl, fun _ ht => ht, Nat.le_add_right _ _, fun _ _ hx => .inl hx⟩

theorem progress_scanTimers (s : State n) : Progress s (s.scanTimers s.getTime).1 := by
  have hscan := scanned_scanTimers s.getTime s
  have htime : (s.scanTimers s.getTime).1.time = s.time := by rw [hscan.frame]
  refine ⟨?_, fun t ht => (hscan.running t ht).1, htime.ge, ?_⟩
  · rw [hscan.frame]
  · intro hclock x hx
    -- The scan compares with the time that was read, which is not ahead of the true time.
    refine (hscan.expiries x hx).imp_right fun hdue => ?_
    rw [hdue.2]
    exact hdue.1.trans (getTime_val_le hclock)

theorem progress_setEvent (lo : UInt32) (s : State n) : Progress s (s.setEvent lo) :=
  ⟨rfl, fun _ ht => ht, le_refl _, fun _ _ hx => .inl hx⟩

theorem progress_clearEvent (s : State n) : Progress s s.clearEvent :=
  ⟨rfl, fun _ ht => ht, le_refl _, fun _ _ hx => .inl hx⟩

/-- What `process_timers` makes of a state, once `clksrc_high` is up to date. -/
structure Processed (s s' : State n) : Prop extends Progress s s' where
  epoch_le : s'.time / 2 ^ 32 ≤ s.clksrcHigh.toNat + 1
  time_lt : s'.time < 2 ^ 64
  eventKnown : s'.EventKnown
  served : s.clksrcHigh ≠ 0xffffffff → ∀ t, s'.timerRunning t = true → s'.Served t

/-- What is left of a call, after some progress. -/
theorem Progress.processed (h : Progress s s₁) (h' : Processed s₁ s') : Processed s s' := by
  have hhigh : s₁.clksrcHigh = s.clksrcHigh := by rw [h.frame]
  refine ⟨h.trans h'.toProgress, ?_, h'.time_lt, h'.eventKnown, ?_⟩
  · rw [← hhigh]
    exact h'.epoch_le
  · rw [← hhigh]
    exact h'.served

/-- A timer that is left running by the scan is for a later epoch, or `next` is at or before
its deadline. -/
theorem scanTimers_next_le {t : Fin n}
    (h : (s.scanTimers s.getTime).1.timerRunning t = true) :
    s.clksrcHigh < (s.timerDeadline t).hi ∨
      (s.timerDeadline t).hi = s.clksrcHigh ∧
        (s.scanTimers s.getTime).2.lo ≤ (s.timerDeadline t).lo := by
  have hscan := scanned_scanTimers s.getTime s
  obtain ⟨hrun, hlater⟩ := hscan.running t h
  have hmem : t ∈ s.runningTimers := mem_runningTimers.mpr hrun
  have hhi : s.clksrcHigh ≤ (s.timerDeadline t).hi :=
    Timestamp.hi_le_of_val_lt (hlater hmem)
  rcases UInt32.lt_or_eq_of_le hhi with hlt | heq
  · exact .inl hlt
  · exact .inr ⟨heq.symm, hscan.next_le t hmem (hlater hmem) heq.symm⟩

/-- Without a deadline in the epoch, no timer of the epoch is due before its end. -/
theorem scanTimers_next_hi (hepoch : s.clksrcHigh ≠ 0xffffffff)
    (h : (s.scanTimers s.getTime).2.hi = 0xffffffff) :
    (s.scanTimers s.getTime).2.lo = 0xffffffff := by
  have hscan := scanned_scanTimers s.getTime s
  rcases hscan.next_hi with heq | hhi
  · exact congrArg Timestamp.lo heq
  · exact absurd (hhi.symm.trans h) hepoch

/-- The last round of a call without a deadline to set. -/
theorem processed_clearEvent (hepoch : s.time / 2 ^ 32 ≤ s.clksrcHigh.toNat + 1)
    (htime : s.time < 2 ^ 64) (hnone : (s.scanTimers s.getTime).2.hi = 0xffffffff) :
    Processed s (s.scanTimers s.getTime).1.clearEvent := by
  have hframe := (scanned_scanTimers s.getTime s).frame
  refine ⟨(progress_scanTimers s).trans (progress_clearEvent _), ?_, ?_, .inr ⟨rfl, rfl⟩, ?_⟩
  · rw [hframe]
    exact hepoch
  · rw [hframe]
    exact htime
  · intro hhigh t ht
    have hnext := scanTimers_next_le ht
    rw [scanTimers_next_hi hhigh hnone] at hnext
    rw [hframe]
    exact hnext

/-- The last round of a call that leaves a deadline. -/
theorem processed_setEvent {dt : Nat}
    (htick : ((s.scanTimers s.getTime).1.setEvent (s.scanTimers s.getTime).2.lo).tick dt =
      some s') : Processed s s' := by
  have hframe := (scanned_scanTimers s.getTime s).frame
  have hprogress := ((progress_scanTimers s).trans (progress_setEvent _ _)).trans
    (progress_tick htick)
  obtain ⟨rfl, hepoch, htime⟩ := tick_eq_some htick
  refine ⟨hprogress, ?_, htime, .inl rfl, ?_⟩
  · rw [hframe] at hepoch ⊢
    exact hepoch
  · intro _ t ht
    have hnext := scanTimers_next_le ht
    rw [hframe]
    exact hnext

/-- **Run lemma.** A call of `process_timers` that returns. -/
theorem processed_processLoop {rounds : List (Nat × Nat)}
    (h : processLoop rounds s = some s') : Processed s s' := by
  induction rounds generalizing s with
  | nil => simp [processLoop] at h
  | cons round rounds ih =>
      simp only [processLoop, Option.bind_eq_bind, Option.bind_eq_some_iff] at h
      obtain ⟨s₁, htick, h⟩ := h
      have hclock : s₁.time / 2 ^ 32 ≤ s₁.clksrcHigh.toNat + 1 ∧ s₁.time < 2 ^ 64 := by
        obtain ⟨rfl, hle, hlt⟩ := tick_eq_some htick
        exact ⟨hle, hlt⟩
      refine (progress_tick htick).processed ?_
      split_ifs at h with hnone
      · cases h
        exact processed_clearEvent hclock.1 hclock.2 hnone
      · obtain ⟨s₂, htick', h⟩ := Option.bind_eq_some_iff.mp h
        split_ifs at h with hagain
        · exact (processed_setEvent htick').toProgress.processed (ih h)
        · cases h
          exact processed_setEvent htick'

end State
end Timer
end CrosEc
