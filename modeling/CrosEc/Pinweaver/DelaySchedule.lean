import CrosEc.Pinweaver.Leaf

/-!
# The delay schedule

`validate_delay_schedule` compares neighbours, from the last entry down; `test_rate_limit` goes up
and stops at the first `attempt_count` that is zero.  An `attempt_count` of zero is accepted in the
first entry, and between entries, since any entry is larger than one of zeros; then the entries
from there on are never looked at (`delaySchedule_ignored`).  For the other schedules the delay is
the one of the last threshold that was reached (`delaySchedule_enforced_iff`).
-/

namespace CrosEc
namespace Pinweaver

open Lib

variable {schedule : Arr DelayScheduleEntry 16} {a : UInt32}

/-- An entry, and zeros behind the end. -/
def entryAt (schedule : Arr DelayScheduleEntry 16) (i : Nat) : DelayScheduleEntry :=
  schedule.val.getD i ⟨0, 0⟩

/-- What `test_rate_limit` answers for a delay. -/
def waitFor (delay : UInt32) (now : UInt64) (restartCount : UInt32) (timestamp : Timestamp) :
    Code × Option UInt32 :=
  if delay = 0 then (ecSuccess, none)
  else if delay = pwBlockAttempts then (pwErrRateLimitReached, some pwBlockAttempts)
  else
    let current := updateTimestamp now restartCount
    let readyTime :=
      if timestamp.bootCount = current.bootCount then delay.toUInt64 + timestamp.timerValue
      else delay.toUInt64
    if current.timerValue ≥ readyTime then (ecSuccess, none)
    else (pwErrRateLimitReached, some (readyTime - current.timerValue).toUInt32)

/-- The delay is that of the entry with the largest threshold that the attempts have reached, or
none is reached. -/
def InForce (schedule : Arr DelayScheduleEntry 16) (a delay : UInt32) : Prop :=
  (∃ i, entryAt schedule i ≠ ⟨0, 0⟩ ∧ (entryAt schedule i).attemptCount ≤ a ∧
    (∀ j, entryAt schedule j ≠ ⟨0, 0⟩ → (entryAt schedule j).attemptCount ≤ a →
      (entryAt schedule j).attemptCount ≤ (entryAt schedule i).attemptCount) ∧
    delay = (entryAt schedule i).timeDiff ∧ delay ≠ 0) ∨
  ((∀ i, entryAt schedule i ≠ ⟨0, 0⟩ → a < (entryAt schedule i).attemptCount) ∧ delay = 0)

/-- The schedule of a leaf is enforced in full for its count of attempts. -/
structure Enforced (pub : LeafPublicData) : Prop where
  delay : ∃ delay, InForce pub.delaySchedule pub.attemptCount delay ∧
    ∀ now restartCount, testRateLimit now restartCount pub =
      waitFor delay now restartCount pub.timestamp
  /-- the loop goes past every entry whose threshold is reached -/
  regarded : ∀ i, entryAt pub.delaySchedule i ≠ ⟨0, 0⟩ →
    (entryAt pub.delaySchedule i).attemptCount ≤ pub.attemptCount →
      i < reachedEntries pub.attemptCount pub.delaySchedule.val

/-- No `attempt_count` of zero is at or before an entry whose threshold is reached. -/
def NoneCutOff (schedule : Arr DelayScheduleEntry 16) (a : UInt32) : Prop :=
  ∀ i, entryAt schedule i ≠ ⟨0, 0⟩ → (entryAt schedule i).attemptCount ≤ a →
    ∀ j ≤ i, (entryAt schedule j).attemptCount ≠ 0

/-! ## What is accepted -/

theorem validateDelayScheduleFrom_eq_success {entries : List DelayScheduleEntry} {n : Nat}
    (h : validateDelayScheduleFrom entries n = ecSuccess) {x : Nat} (hx : x < n)
    (hcount : (entries.getD (x + 1) ⟨0, 0⟩).attemptCount ≠ 0) :
    (entries.getD x ⟨0, 0⟩).attemptCount < (entries.getD (x + 1) ⟨0, 0⟩).attemptCount ∧
      (entries.getD x ⟨0, 0⟩).timeDiff < (entries.getD (x + 1) ⟨0, 0⟩).timeDiff := by
  induction n with
  | zero => exact absurd hx (Nat.not_lt_zero _)
  | succ n ih =>
      unfold validateDelayScheduleFrom at h
      dsimp only at h
      split_ifs at h with hzero htime horder
      · exact absurd h (by decide)
      · rcases Nat.lt_succ_iff_lt_or_eq.mp hx with hlt | rfl
        · exact ih h hlt
        · exact absurd hzero hcount
      · exact absurd h (by decide)
      · rcases Nat.lt_succ_iff_lt_or_eq.mp hx with hlt | rfl
        · exact ih h hlt
        · simpa [not_or, UInt32.not_le] using horder

/-- Neighbours are in order, unless the later one has no threshold. -/
theorem entry_lt_succ (h : validateDelaySchedule schedule = ecSuccess) {x : Nat}
    (hcount : (entryAt schedule (x + 1)).attemptCount ≠ 0) :
    (entryAt schedule x).attemptCount < (entryAt schedule (x + 1)).attemptCount ∧
      (entryAt schedule x).timeDiff < (entryAt schedule (x + 1)).timeDiff := by
  unfold validateDelaySchedule at h
  split_ifs at h with hfirst
  · exact absurd h (by decide)
  · have hx : x < pwSchedCount - 1 := by
      by_contra hge
      apply hcount
      have hlen := schedule.property
      simp only [pwSchedCount] at hge
      rw [entryAt, List.getD_eq_default _ _ (by omega)]
    exact validateDelayScheduleFrom_eq_success h hx hcount

/-- Entries with thresholds that follow each other are in order. -/
theorem entry_le (h : validateDelaySchedule schedule = ecSuccess) {i j : Nat} (hij : i ≤ j)
    (hcounts : ∀ k, i < k → k ≤ j → (entryAt schedule k).attemptCount ≠ 0) :
    (entryAt schedule i).attemptCount ≤ (entryAt schedule j).attemptCount := by
  induction j, hij using Nat.le_induction with
  | base => exact UInt32.le_refl _
  | succ j hij ih =>
      have hbefore := ih fun k hk hkj => hcounts k hk (by omega)
      have hstep := (entry_lt_succ h (hcounts (j + 1) (by omega) le_rfl)).1
      exact UInt32.le_trans hbefore (UInt32.le_of_lt hstep)

/-- An entry with a threshold has a delay. -/
theorem timeDiff_ne_zero (h : validateDelaySchedule schedule = ecSuccess) {i : Nat}
    (hcount : (entryAt schedule i).attemptCount ≠ 0) : (entryAt schedule i).timeDiff ≠ 0 := by
  cases i with
  | zero =>
      unfold validateDelaySchedule at h
      split_ifs at h with hfirst
      · exact absurd h (by decide)
      · exact hfirst
  | succ i =>
      have hlt := (entry_lt_succ h hcount).2
      intro hzero
      rw [hzero] at hlt
      exact absurd hlt (by simp)

/-! ## What is looked at -/

/-- The loop goes past entries with thresholds that are reached. -/
theorem entry_of_lt_reachedEntries {entries : List DelayScheduleEntry} {j : Nat}
    (h : j < reachedEntries a entries) :
    (entries.getD j ⟨0, 0⟩).attemptCount ≠ 0 ∧ (entries.getD j ⟨0, 0⟩).attemptCount ≤ a := by
  induction entries generalizing j with
  | nil => exact absurd h (Nat.not_lt_zero _)
  | cons entry rest ih =>
      unfold reachedEntries at h
      split_ifs at h with hzero hlt
      · exact absurd h (Nat.not_lt_zero _)
      · exact absurd h (Nat.not_lt_zero _)
      · cases j with
        | zero => exact ⟨hzero, UInt32.not_lt.mp hlt⟩
        | succ j => exact ih (Nat.lt_of_succ_lt_succ h)

/-- It stops at one without a threshold, or whose threshold is not reached. -/
theorem entry_reachedEntries (a : UInt32) (entries : List DelayScheduleEntry) :
    (entries.getD (reachedEntries a entries) ⟨0, 0⟩).attemptCount = 0 ∨
      a < (entries.getD (reachedEntries a entries) ⟨0, 0⟩).attemptCount := by
  induction entries with
  | nil => exact .inl rfl
  | cons entry rest ih =>
      unfold reachedEntries
      split_ifs with hzero hlt
      · exact .inl hzero
      · exact .inr hlt
      · exact ih

theorem ne_filler {e : DelayScheduleEntry} (h : e.attemptCount ≠ 0) : e ≠ ⟨0, 0⟩ := by
  intro heq
  rw [heq] at h
  exact h rfl

/-- **No entry is cut off exactly if the loop regards all that are reached.** -/
theorem regarded_iff (h : validateDelaySchedule schedule = ecSuccess) (a : UInt32) :
    (∀ i, entryAt schedule i ≠ ⟨0, 0⟩ → (entryAt schedule i).attemptCount ≤ a →
      i < reachedEntries a schedule.val) ↔ NoneCutOff schedule a := by
  constructor
  · intro hall i hfiller hcount j hj
    exact (entry_of_lt_reachedEntries (hj.trans_lt (hall i hfiller hcount))).1
  · intro hnone i hfiller hcount
    by_contra hge
    have hle : reachedEntries a schedule.val ≤ i := not_lt.mp hge
    rcases entry_reachedEntries a schedule.val with hzero | hlt
    · exact hnone i hfiller hcount _ hle hzero
    · -- The thresholds grow from there on.
      have horder := entry_le h hle fun k _ hk => hnone i hfiller hcount k hk
      exact absurd (UInt32.lt_of_lt_of_le hlt (UInt32.le_trans horder hcount)) (UInt32.lt_irrefl a)

/-- **The delay.** -/
theorem inForce_of_noneCutOff (h : validateDelaySchedule schedule = ecSuccess)
    (hnone : NoneCutOff schedule a) :
    InForce schedule a (if 0 < reachedEntries a schedule.val then
      (entryAt schedule (reachedEntries a schedule.val - 1)).timeDiff else 0) := by
  have hregarded := (regarded_iff h a).mpr hnone
  by_cases hpos : 0 < reachedEntries a schedule.val
  · rw [if_pos hpos]
    have hlast : reachedEntries a schedule.val - 1 < reachedEntries a schedule.val := by omega
    obtain ⟨hcount, hle⟩ := entry_of_lt_reachedEntries hlast
    refine .inl ⟨_, ne_filler hcount, hle, ?_, rfl, timeDiff_ne_zero h hcount⟩
    intro j hfiller hj
    have hlt := hregarded j hfiller hj
    apply entry_le h (by omega)
    intro k _ hk
    exact (entry_of_lt_reachedEntries (hk.trans_lt hlast)).1
  · rw [if_neg hpos]
    refine .inr ⟨?_, rfl⟩
    intro i hfiller
    by_contra hge
    exact hpos (Nat.zero_lt_of_lt (hregarded i hfiller (UInt32.not_lt.mp hge)))

/-! ## The result -/

/-- **When an accepted schedule is enforced in full.** -/
theorem delaySchedule_enforced_iff (pub : LeafPublicData)
    (h : validateDelaySchedule pub.delaySchedule = ecSuccess) :
    Enforced pub ↔ NoneCutOff pub.delaySchedule pub.attemptCount := by
  constructor
  · intro henforced
    exact (regarded_iff h _).mp henforced.regarded
  · intro hnone
    exact {
      delay := ⟨_, inForce_of_noneCutOff h hnone, fun _ _ => rfl⟩
      regarded := (regarded_iff h _).mpr hnone }

/-- A leaf with no other content than its schedule and its attempts. -/
def scheduleLeaf (schedule : Arr DelayScheduleEntry 16) (attemptCount : UInt32) : LeafPublicData where
  label := 0
  delaySchedule := schedule
  timestamp := ⟨0, 0⟩
  attemptCount := attemptCount
  validPcrCriteria := Arr.replicate 2 ⟨Arr.replicate 2 0, Arr.replicate 32 0⟩

/-- Five seconds from three attempts on, a minute from ten on. -/
theorem delaySchedule_enforced_iff_two :
    Enforced (scheduleLeaf ⟨⟨3, 5⟩ :: ⟨10, 60⟩ :: List.replicate 14 ⟨0, 0⟩, rfl⟩ 4) ↔
      NoneCutOff ⟨⟨3, 5⟩ :: ⟨10, 60⟩ :: List.replicate 14 ⟨0, 0⟩, rfl⟩ 4 :=
  delaySchedule_enforced_iff (scheduleLeaf ⟨⟨3, 5⟩ :: ⟨10, 60⟩ :: List.replicate 14 ⟨0, 0⟩, rfl⟩ 4)
    (by decide)

/-- Five seconds from the first attempt on are accepted, and never waited for. -/
theorem delaySchedule_ignored :
    ¬ ∀ pub : LeafPublicData, validateDelaySchedule pub.delaySchedule = ecSuccess →
      Enforced pub := by
  intro hall
  have henforced := hall (scheduleLeaf ⟨⟨0, 5⟩ :: List.replicate 15 ⟨0, 0⟩, rfl⟩ 3) (by decide)
  have hlt := henforced.regarded 0 (by decide) (by decide)
  exact absurd hlt (by decide)

end Pinweaver
end CrosEc
