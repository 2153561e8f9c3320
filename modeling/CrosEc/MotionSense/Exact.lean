import CrosEc.MotionSense.Accounts

/-!
# The condition for the FIFO is exact

A step that does not keep the room that was made leaves a state that does not account for every
unit (`accounts_step_iff`).  For a unit that was lost for nothing this needs that no call has its
number, neither one that returned nor one in flight (`Numbered`).
-/

namespace CrosEc
namespace MotionSense

open Lib Queue

variable {b : Board} {s s' : State b} {t : Nat}

/-! ## The numbers of discarded units -/

/-- The numbers of discarded units are those of units that left the queue. -/
structure Numbered (s : State b) : Prop where
  calls : ∀ c ∈ s.ledger.calls, ∀ k, c.evicted = some k → k < s.ledger.gone.length
  tasks : ∀ t data k rest, s.tasks t = .adding data (some k) rest → k < s.ledger.gone.length

theorem numbered_init (b : Board) (sensors : Fin b.motionSensorCount → Sensor) :
    Numbered (State.init b sensors) where
  calls := by simp [State.init]
  tasks := by
    intro t data k rest htask
    cases htask

/-- A task that goes on has its number from the units that left the queue. -/
theorem Numbered.goOn {task : Task b} {added : List Outcome} (h : Numbered s)
    (hgone : s.ledger.gone.length ≤ s'.ledger.gone.length)
    (hcalls : s'.ledger.calls = s.ledger.calls ++ added)
    (htasks : s'.tasks = Function.update s.tasks t task)
    (hadded : ∀ c ∈ added, ∀ k, c.evicted = some k → k < s'.ledger.gone.length)
    (htask : ∀ data k rest, task = .adding data (some k) rest → k < s'.ledger.gone.length) :
    Numbered s' where
  calls := by
    intro c hc k hk
    rw [hcalls] at hc
    rcases List.mem_append.mp hc with hc | hc
    · exact (h.calls c hc k hk).trans_le hgone
    · exact hadded c hc k hk
  tasks := by
    intro t' data k rest ht'
    rw [htasks] at ht'
    by_cases heq : t' = t
    · rw [heq, Function.update_self] at ht'
      exact htask data k rest ht'
    · rw [Function.update_of_ne heq] at ht'
      exact (h.tasks t' data k rest ht').trans_le hgone

theorem next_ne_adding {data : SensorData} {evicted : Option Nat}
    (calls rest : List (AddUnit b)) : Task.next calls ≠ .adding data evicted rest := by
  intro hnext
  cases calls with
  | nil => cases hnext
  | cons c calls => cases hnext

/-- What making room does to the ledger. -/
theorem makeRoom_ledger (s : State b) :
    s.ledger.gone.length ≤ s.makeRoom.2.ledger.gone.length ∧
      s.makeRoom.2.ledger.calls = s.ledger.calls ∧ s.makeRoom.2.tasks = s.tasks ∧
      ∀ k, s.makeRoom.1 = some k → k < s.makeRoom.2.ledger.gone.length := by
  unfold State.makeRoom
  split
  · split
    · exact ⟨le_rfl, rfl, rfl, by intro k hk; cases hk⟩
    · refine ⟨by simp, rfl, rfl, ?_⟩
      intro k hk
      cases hk
      simp
  · exact ⟨le_rfl, rfl, rfl, by intro k hk; cases hk⟩

theorem Numbered.firstSection {c : AddUnit b} {rest : List (AddUnit b)} (h : Numbered s) :
    Numbered (s.firstSection t c rest) := by
  obtain ⟨hgone, hcalls, htasks, hnum⟩ := makeRoom_ledger s
  unfold State.firstSection
  rcases hmade : s.makeRoom with ⟨evicted, s₁⟩
  rw [hmade] at hgone hcalls htasks hnum
  dsimp only at hgone hcalls htasks hnum ⊢
  obtain ⟨sensors, htake⟩ := takeSample_eq s₁ c
  rw [htake]
  split
  · refine h.goOn ?_ (hcalls.trans (List.append_nil _).symm)
      (congrArg (Function.update · t _) htasks) (by simp) ?_
    · exact hgone
    · intro data k rest htask
      cases htask
      exact hnum k rfl
  · refine h.goOn ?_ (congrArg (· ++ _) hcalls) (congrArg (Function.update · t _) htasks) ?_ ?_
    · exact hgone
    · intro o ho k hk
      rw [List.mem_singleton.mp ho] at hk
      exact hnum k hk
    · intro data k rest' htask
      exact absurd htask (next_ne_adding _ _)

theorem Numbered.secondSection {data : SensorData} {evicted : Option Nat}
    {rest : List (AddUnit b)} {tabletMode : Bool} (h : Numbered s)
    (ht : s.tasks t = .adding data evicted rest) :
    Numbered (s.secondSection t data evicted rest tabletMode) := by
  unfold State.secondSection
  dsimp only
  split
  · exact ⟨h.calls, h.tasks⟩
  · refine h.goOn ?_ rfl rfl ?_ ?_
    · exact le_rfl
    · intro o ho k hk
      rw [List.mem_singleton.mp ho] at hk
      exact h.tasks t data k rest (by rw [ht, ← hk])
    · intro data' k rest' htask
      exact absurd htask (next_ne_adding _ _)

theorem Numbered.step {e : Event b} (h : Numbered s) (hstep : step s e = some s') :
    Numbered s' := by
  have hcall : ∀ t calls, s.call t calls = some s' → Numbered s' := by
    intro t calls hcall
    unfold State.call at hcall
    split at hcall
    · obtain rfl := Option.some.inj hcall
      refine h.goOn ?_ (List.append_nil _).symm rfl (by simp) ?_
      · exact le_rfl
      · intro data k rest htask
        exact absurd htask (next_ne_adding _ _)
    all_goals cases hcall
  cases e with
  | addData t call time reserved => exact hcall t _ hstep
  | asyncEvent t sensor evt time reserved => exact hcall t _ hstep
  | timestamp t time reserved => exact hcall t _ hstep
  | task t tabletMode =>
      simp only [MotionSense.step] at hstep
      cases ht : s.tasks t with
      | idle =>
          rw [ht] at hstep
          cases hstep
      | entry call rest =>
          rw [ht] at hstep
          obtain rfl := Option.some.inj hstep
          exact h.firstSection
      | adding data evicted rest =>
          rw [ht] at hstep
          obtain rfl := Option.some.inj hstep
          exact h.secondSection ht
  | fifoRead maxDataVector data =>
      obtain rfl := Option.some.inj hstep
      unfold State.fifoRead
      dsimp only
      split
      · exact ⟨h.calls, h.tasks⟩
      · exact {
          calls := fun c hc k hk => (h.calls c hc k hk).trans_le (by simp)
          tasks := fun t data k rest ht => (h.tasks t data k rest ht).trans_le (by simp) }
  | fifoInfo =>
      obtain rfl := Option.some.inj hstep
      exact ⟨h.calls, h.tasks⟩
  | setDataRate i ratio =>
      obtain rfl := Option.some.inj hstep
      exact ⟨h.calls, h.tasks⟩

/-! ## Room that is not kept -/

/-- Room that is made for nothing, or from a unit that is not one of a sensor. -/
theorem not_accounts_firstSection {c : AddUnit b} {rest : List (AddUnit b)} (h : Accounts s)
    (hnumbered : Numbered s) (hfull : queueSpace b.fifo s.fifo = 0)
    (hbad : s.wants c = true → b.motionSensorCount ≤ headSensorNum s) :
    ¬ Accounts (s.firstSection t c rest) := by
  obtain ⟨items, hholds, -⟩ := h.queue
  intro hafter
  rcases makeRoom_cases hholds with ⟨hroom, -⟩ | ⟨u, rest', fifo, rfl, -, -, hmade⟩
  · have hlen := (space_eq_zero_iff hholds).mp hfull
    omega
  · unfold State.firstSection at hafter
    rw [hmade] at hafter
    dsimp only at hafter
    rw [wants_addLost] at hafter
    obtain ⟨sensors, htake⟩ := takeSample_eq { s with
      fifo := fifo
      fifoLost := s.fifoLost + 1
      motionSensors := addLost s.motionSensors (sensorNumOf u)
      ledger := { s.ledger with
        gone := s.ledger.gone ++ [(u, .lost)]
        indexed := s.ledger.indexed ++ [sensorNumOf u] } } c
    rw [htake] at hafter
    by_cases hwanted : s.wants c = true
    · rw [if_pos hwanted] at hafter
      have hnum := hafter.indexed (sensorNumOf u) (by simp)
      have hge := hbad hwanted
      rw [headSensorNum_cons hholds] at hge
      omega
    · rw [if_neg hwanted] at hafter
      -- Neither another call nor a task in flight has the number of this unit.
      rcases hafter.replaced s.ledger.gone.length u (by simp) with
        ⟨o, ho, hevicted, hadded⟩ | ⟨t', data, rest'', ht'⟩
      · rcases List.mem_append.mp ho with ho | ho
        · exact absurd (hnumbered.calls o ho _ hevicted) (lt_irrefl _)
        · rw [List.mem_singleton.mp ho] at hadded
          cases hadded
      · by_cases heq : t' = t
        · dsimp only at ht'
          rw [heq, Function.update_self] at ht'
          exact next_ne_adding _ _ ht'
        · dsimp only at ht'
          rw [Function.update_of_ne heq] at ht'
          exact absurd (hnumbered.tasks t' data _ rest'' ht') (lt_irrefl _)

/-- A unit for which there is no room. -/
theorem not_accounts_secondSection {data : SensorData} {evicted : Option Nat}
    {rest : List (AddUnit b)} {tabletMode : Bool} (hfull : queueSpace b.fifo s.fifo = 0) :
    ¬ Accounts (s.secondSection t data evicted rest tabletMode) := by
  intro hafter
  have hadd : queueAddUnit b.fifo (data.addFlags b tabletMode).toBytes s.fifo =
      some (0, s.fifo) := if_pos hfull
  unfold State.secondSection at hafter
  dsimp only at hafter
  rw [hadd] at hafter
  have hadded := hafter.queued ⟨evicted, true, false⟩ (by simp) rfl
  cases hadded

/-- **The condition is exact.** A step keeps the account exactly if it keeps the room. -/
theorem accounts_step_iff {sensors : Fin b.motionSensorCount → Sensor} {e : Event b}
    (h : Reachable step roomIsKept (State.init b sensors) s) (hstep : step s e = some s') :
    Accounts s' ↔ roomIsKept s e = true := by
  obtain ⟨haccounts, hnumbered⟩ : Accounts s ∧ Numbered s :=
    h.invariant (fun s => Accounts s ∧ Numbered s)
      ⟨accounts_init b sensors, numbered_init b sensors⟩
      fun _ _ _ hs hroom hstep => ⟨hs.1.step hroom hstep, hs.2.step hstep⟩
  constructor
  · intro hafter
    by_contra hroom
    cases e with
    | task t tabletMode =>
        simp only [MotionSense.step] at hstep
        simp only [roomIsKept] at hroom
        cases ht : s.tasks t with
        | idle =>
            rw [ht] at hroom
            exact hroom rfl
        | entry call rest =>
            rw [ht] at hstep hroom
            obtain rfl := Option.some.inj hstep
            simp only [ne_eq, decide_not, Bool.or_eq_true, Bool.not_eq_true',
              decide_eq_false_iff_not, Bool.and_eq_true, decide_eq_true_eq, not_or, not_not,
              not_and, not_lt] at hroom
            exact not_accounts_firstSection haccounts hnumbered hroom.1 hroom.2 hafter
        | adding data evicted rest =>
            rw [ht] at hstep hroom
            obtain rfl := Option.some.inj hstep
            exact not_accounts_secondSection (by simpa using hroom) hafter
    | addData | asyncEvent | timestamp | fifoRead | fifoInfo | setDataRate => exact hroom rfl
  · intro hroom
    exact haccounts.step hroom hstep

end MotionSense
end CrosEc
