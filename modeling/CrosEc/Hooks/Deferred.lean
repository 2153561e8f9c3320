import CrosEc.Hooks.Model

/-!
# Deferred calls

What is recorded in `__deferred_until` is the latest request, and the routine that is about to be
started is due for it.  When the task goes to sleep, every recorded deadline is covered by the
sleeping time, as it was computed; or else somebody has recorded a deadline since, and has woken
the task or is going to.

Some things go another way than this (`deferred_calls_disturbed`): the task waits from the time
when it goes to sleep and not from the time that it has computed with; a request whose deadline
has passed can be replaced before the task has seen it; a routine that is requested again between
the test of its deadline and the clearing of it loses the request and is started early; a routine
that is cancelled between the two tests of its deadline is started at once; and one that is
cancelled between the last two reads of its deadline leaves a sleeping time that means nothing.
-/

namespace CrosEc
namespace Hooks

open Lib

variable {ι : Type} {s s' : State ι} {n : Nat} {hookTickInterval : UInt64}

/-! ## Numbers -/

theorem cInt_lt (x : UInt64) : cInt x < 2 ^ 31 := Int32.toInt_lt _

/-- A difference that is less than an `int` fits in one. -/
theorem cInt_of_lt {x : UInt64} {next : Int} (hnext : next < 2 ^ 31) (h : (x.toNat : Int) < next) :
    cInt x = x.toNat := by
  have hlt : x.toNat < 2 ^ 31 := by omega
  have h32 : x.toUInt32.toNat = x.toNat := by
    rw [UInt64.toNat_toUInt32]
    omega
  rw [cInt, Int32.toInt]
  show (x.toUInt32.toBitVec).toInt = _
  rw [BitVec.toInt_eq_toNat_of_lt (by rw [UInt32.toNat_toBitVec]; omega), UInt32.toNat_toBitVec, h32]

theorem lt_cUInt64_iff {x : UInt64} {next : Int} (hpos : 0 < next) (hnext : next < 2 ^ 31) :
    x < cUInt64 next ↔ (x.toNat : Int) < next := by
  have hval : (cUInt64 next).toNat = next.toNat := by
    rw [cUInt64, UInt64.ofInt, UInt64.toNat_ofNat']
    lia
  rw [UInt64.lt_iff_toNat_lt, hval]
  lia

/-! ## The invariant -/

namespace State

/-- Somebody has recorded a deadline and not set `defer_new_call` yet. -/
def Writing (s : State ι) : Prop := ∃ caller, s.callers caller = .wrote

/-- A deadline may have been recorded since the task has begun to compute its sleeping time. -/
def Alarm (s : State ι) : Prop := s.deferNewCall = true ∨ s.Writing

/-- The task has been woken, or somebody who has recorded a deadline is going to wake it. -/
def WakeComing (s : State ι) : Prop :=
  s.wakePending = true ∨ ∃ caller, s.callers caller = .wrote ∨ s.callers caller = .flagged

/-- The deadline of routine `j`, if there is one, is not before the end of the sleeping time. -/
def Covered (s : State ι) (j : Nat) : Prop :=
  s.deferredUntil j ≠ 0 → (s.t.toNat + s.next : Int) ≤ (s.deferredUntil j).toNat

def CoveredBelow (s : State ι) (i : Nat) : Prop := ∀ j < i, s.Covered j

/-- What holds at the place where `hook_task` is. -/
def AtPc (n : Nat) (s : State ι) : Prop :=
  match s.pc with
  | .testDue i => s.deferredUntil i ≠ 0
  | .clear i => s.deferredUntil i ≠ 0 ∧ s.deferredUntil i < s.t
  | .start i => s.deferredUntil i = 0 ∧ ∃ d, s.latest i = some ⟨d, false⟩ ∧ d < s.t
  | .calcSet i => 0 < s.next → s.Alarm ∨ s.CoveredBelow i
  | .calcPast i => 0 < s.next ∧ (s.Alarm ∨ s.CoveredBelow i)
  | .calcLess i =>
      0 < s.next ∧ (s.Alarm ∨ s.CoveredBelow i ∧ (s.deferredUntil i ≠ 0 → s.t ≤ s.deferredUntil i))
  | .calcAssign i =>
      s.Alarm ∨ s.CoveredBelow i ∧ (s.deferredUntil i ≠ 0 → s.t ≤ s.deferredUntil i) ∧
        ((s.deferredUntil i - s.t).toNat : Int) < s.next
  | .checkFlag => 0 < s.next → s.Alarm ∨ s.CoveredBelow n
  | .goSleep | .sleeping _ => s.WakeComing ∨ s.CoveredBelow n
  | _ => True

end State

/-- The invariant. -/
structure Inv (n : Nat) (s : State ι) : Prop where
  started : s.pc ≠ .notStarted → s.hookTaskStarted = true
  clock : s.t ≤ s.now
  next_lt : s.next < 2 ^ 31
  recorded : ∀ i, s.deferredUntil i ≠ 0 → s.latest i = some ⟨s.deferredUntil i, false⟩
  kept : ∀ i d, s.latest i = some ⟨d, false⟩ → s.deferredUntil i = d ∨ s.pc = .start i
  timed : ∀ caller i d, s.callers caller = .timed i d → d ≠ 0
  at_pc : s.AtPc n

theorem init_inv (now : UInt64) : Inv n (State.init ι hookTickInterval now) where
  started := fun h => absurd rfl h
  clock := UInt64.zero_le
  next_lt := by show (0 : Int) < 2 ^ 31; decide
  recorded := fun _ h => absurd rfl h
  kept := by rintro _ _ ⟨⟩
  timed := by rintro _ _ _ ⟨⟩
  at_pc := trivial

/-! ## The callers -/

/-- The callers go on and the clock advances, where the deadlines are the same. -/
theorem State.AtPc.of_callers (h : s.AtPc n) {now : UInt64} {callers : ι → Caller}
    {flag wake : Bool}
    (halarm : s.Alarm →
      State.Alarm { s with now := now, callers := callers, deferNewCall := flag, wakePending := wake })
    (hwake : s.pc ≠ .notStarted → s.WakeComing →
      State.WakeComing
        { s with now := now, callers := callers, deferNewCall := flag, wakePending := wake }) :
    State.AtPc n
      { s with now := now, callers := callers, deferNewCall := flag, wakePending := wake } := by
  cases hpc : s.pc with
  | calcSet i | checkFlag =>
      simp only [State.AtPc, hpc] at h ⊢
      exact fun hpos => (h hpos).imp halarm id
  | calcPast i | calcLess i =>
      simp only [State.AtPc, hpc] at h ⊢
      exact ⟨h.1, h.2.imp halarm id⟩
  | calcAssign i =>
      simp only [State.AtPc, hpc] at h ⊢
      exact h.imp halarm id
  | goSleep | sleeping since =>
      simp only [State.AtPc, hpc] at h ⊢
      exact h.imp (hwake (by simp [hpc])) id
  | testDue i | clear i | start i =>
      simp only [State.AtPc, hpc] at h ⊢
      exact h
  | _ => simp only [State.AtPc]

theorem Inv.tick (h : Inv n s) {now : UInt64} (hnow : s.now ≤ now) : Inv n { s with now := now } where
  started := h.started
  clock := UInt64.le_trans h.clock hnow
  next_lt := h.next_lt
  recorded := h.recorded
  kept := h.kept
  timed := h.timed
  at_pc := h.at_pc.of_callers id fun _ => id

/-- Whoever else is in the middle of a call still is. -/
theorem update_callers [DecidableEq ι] {caller : ι} {c c' : Caller} (hcaller : s.callers caller = c)
    {other : ι} (hne : s.callers other ≠ c) :
    Function.update s.callers caller c' other = s.callers other := by
  apply Function.update_of_ne
  rintro rfl
  exact hne hcaller

theorem Inv.timedCaller [DecidableEq ι] (h : Inv n s) {caller : ι} (hidle : s.callers caller = .idle)
    {i : Nat} {deadline : UInt64} (hdeadline : deadline ≠ 0) :
    Inv n { s with callers := Function.update s.callers caller (.timed i deadline) } := by
  have hkeep : ∀ c, s.callers c ≠ .idle →
      Function.update s.callers caller (.timed i deadline) c = s.callers c :=
    fun c hc => update_callers hidle hc
  refine ⟨h.started, h.clock, h.next_lt, h.recorded, h.kept, ?_, h.at_pc.of_callers ?_ ?_⟩
  · intro c j d (hc : Function.update s.callers caller (.timed i deadline) c = .timed j d)
    by_cases heq : c = caller
    · subst heq
      rw [Function.update_self] at hc
      cases hc
      exact hdeadline
    · rw [Function.update_of_ne heq] at hc
      exact h.timed c j d hc
  · rintro (hflag | ⟨c, hc⟩)
    · exact Or.inl hflag
    · exact Or.inr ⟨c, (hkeep c (by simp [hc])).trans hc⟩
  · rintro _ (hwake | ⟨c, hc⟩)
    · exact Or.inl hwake
    · refine Or.inr ⟨c, ?_⟩
      show Function.update s.callers caller (.timed i deadline) c = .wrote ∨
        Function.update s.callers caller (.timed i deadline) c = .flagged
      rw [hkeep c (by rcases hc with hc | hc <;> rw [hc] <;> rintro ⟨⟩)]
      exact hc

/-- The other callers have not changed, and this one is not about to write a deadline. -/
theorem timed_of_update [DecidableEq ι] (h : Inv n s) {caller : ι} {c : Caller}
    (hc : ∀ i d, c ≠ .timed i d) {other : ι} {i : Nat} {d : UInt64}
    (hother : Function.update s.callers caller c other = .timed i d) : d ≠ 0 := by
  by_cases heq : other = caller
  · subst heq
    rw [Function.update_self] at hother
    exact absurd hother (hc i d)
  · rw [Function.update_of_ne heq] at hother
    exact h.timed other i d hother

theorem Inv.flag [DecidableEq ι] (h : Inv n s) (caller : ι) :
    Inv n { s with
      deferNewCall := true
      callers := Function.update s.callers caller .flagged } := by
  refine ⟨h.started, h.clock, h.next_lt, h.recorded, h.kept, ?_,
    h.at_pc.of_callers (fun _ => Or.inl rfl) ?_⟩
  · intro c i d hc
    exact timed_of_update h (by simp) hc
  · intro _ _
    exact Or.inr ⟨caller, Or.inr (Function.update_self _ _ _)⟩

theorem Inv.wake [DecidableEq ι] (h : Inv n s) {caller : ι} (hflagged : s.callers caller = .flagged) :
    Inv n { s with
      wakePending := s.wakePending || s.hookTaskStarted
      callers := Function.update s.callers caller .idle } := by
  refine ⟨h.started, h.clock, h.next_lt, h.recorded, h.kept, ?_, h.at_pc.of_callers ?_ ?_⟩
  · intro c i d hc
    exact timed_of_update h (by simp) hc
  · rintro (hflag | ⟨c, hc⟩)
    · exact Or.inl hflag
    · exact Or.inr ⟨c, (update_callers hflagged (by simp [hc])).trans hc⟩
  · intro hpc _
    left
    show (s.wakePending || s.hookTaskStarted) = true
    rw [h.started hpc, Bool.or_true]

/-- A deadline is recorded, unless the routine has been found due and is about to be started. -/
theorem Inv.write [DecidableEq ι] (h : Inv n s) {caller : ι} {i : Nat} {deadline : UInt64}
    (hcaller : s.callers caller = .timed i deadline) (hclear : s.pc ≠ .clear i)
    (hstart : s.pc ≠ .start i) :
    Inv n { s with
      deferredUntil := Function.update s.deferredUntil i deadline
      latest := Function.update s.latest i (some ⟨deadline, false⟩)
      callers := Function.update s.callers caller .wrote } := by
  have hwriting : ∃ c, Function.update s.callers caller .wrote c = .wrote :=
    ⟨caller, Function.update_self _ _ _⟩
  refine ⟨h.started, h.clock, h.next_lt, ?_, ?_, ?_, ?_⟩
  · intro j (hj : Function.update s.deferredUntil i deadline j ≠ 0)
    show Function.update s.latest i _ j = some ⟨Function.update s.deferredUntil i deadline j, false⟩
    by_cases heq : j = i
    · subst heq
      rw [Function.update_self, Function.update_self]
    · rw [Function.update_of_ne heq] at hj ⊢
      rw [Function.update_of_ne heq]
      exact h.recorded j hj
  · intro j d (hj : Function.update s.latest i _ j = some ⟨d, false⟩)
    show Function.update s.deferredUntil i deadline j = d ∨ s.pc = .start j
    by_cases heq : j = i
    · subst heq
      rw [Function.update_self] at hj ⊢
      cases hj
      exact Or.inl rfl
    · rw [Function.update_of_ne heq] at hj ⊢
      exact h.kept j d hj
  · intro c j d hc
    exact timed_of_update h (by simp) hc
  · have hat := h.at_pc
    cases hpc : s.pc with
    | testDue j =>
        simp only [State.AtPc, hpc] at hat ⊢
        by_cases heq : j = i
        · subst heq
          rw [Function.update_self]
          exact h.timed caller j deadline hcaller
        · rwa [Function.update_of_ne heq]
    | clear j | start j =>
        have heq : j ≠ i := by
          rintro rfl
          first | exact hclear hpc | exact hstart hpc
        simp only [State.AtPc, hpc, Function.update_of_ne heq] at hat ⊢
        exact hat
    | calcSet j | checkFlag =>
        simp only [State.AtPc]
        exact fun _ => Or.inl (Or.inr hwriting)
    | calcPast j | calcLess j =>
        simp only [State.AtPc, hpc] at hat ⊢
        exact ⟨hat.1, Or.inl (Or.inr hwriting)⟩
    | calcAssign j =>
        simp only [State.AtPc]
        exact Or.inl (Or.inr hwriting)
    | goSleep | sleeping since =>
        simp only [State.AtPc]
        exact Or.inl (Or.inr ⟨caller, Or.inl (Function.update_self _ _ _)⟩)
    | _ => simp only [State.AtPc]

/-- The request for a routine is cancelled, unless the routine has been found due, or its
deadline is about to be read for the last time. -/
theorem Inv.cancel (h : Inv n s) {i : Nat} (hdue : s.pc ≠ .testDue i) (hclear : s.pc ≠ .clear i)
    (hstart : s.pc ≠ .start i) (hassign : s.pc ≠ .calcAssign i) :
    Inv n { s with
      deferredUntil := Function.update s.deferredUntil i 0
      latest := Function.update s.latest i none } := by
  -- What is still recorded was recorded before.
  have hold : ∀ j, Function.update s.deferredUntil i 0 j ≠ 0 →
      Function.update s.deferredUntil i 0 j = s.deferredUntil j ∧ s.deferredUntil j ≠ 0 ∧ j ≠ i := by
    intro j hj
    have heq : j ≠ i := by
      rintro rfl
      exact hj (Function.update_self _ _ _)
    rw [Function.update_of_ne heq] at hj ⊢
    exact ⟨rfl, hj, heq⟩
  have hcovered : ∀ j, s.Covered j →
      State.Covered { s with
        deferredUntil := Function.update s.deferredUntil i 0
        latest := Function.update s.latest i none } j := by
    intro j hj hset
    obtain ⟨hval, hne, -⟩ := hold j hset
    show _ ≤ ((Function.update s.deferredUntil i 0 j).toNat : Int)
    rw [hval]
    exact hj hne
  have hlate : ∀ j, (s.deferredUntil j ≠ 0 → s.t ≤ s.deferredUntil j) →
      Function.update s.deferredUntil i 0 j ≠ 0 → s.t ≤ Function.update s.deferredUntil i 0 j := by
    intro j hj hset
    obtain ⟨hval, hne, -⟩ := hold j hset
    rw [hval]
    exact hj hne
  refine ⟨h.started, h.clock, h.next_lt, ?_, ?_, h.timed, ?_⟩
  · intro j hj
    obtain ⟨hval, hne, heq⟩ := hold j hj
    show Function.update s.latest i none j = some ⟨Function.update s.deferredUntil i 0 j, false⟩
    rw [hval, Function.update_of_ne heq]
    exact h.recorded j hne
  · intro j d (hj : Function.update s.latest i none j = some ⟨d, false⟩)
    have heq : j ≠ i := by
      rintro rfl
      rw [Function.update_self] at hj
      cases hj
    rw [Function.update_of_ne heq] at hj
    show Function.update s.deferredUntil i 0 j = d ∨ s.pc = .start j
    rw [Function.update_of_ne heq]
    exact h.kept j d hj
  · have hat := h.at_pc
    cases hpc : s.pc with
    | testDue j | clear j | start j =>
        have heq : j ≠ i := by
          rintro rfl
          first | exact hdue hpc | exact hclear hpc | exact hstart hpc
        simp only [State.AtPc, hpc, Function.update_of_ne heq] at hat ⊢
        exact hat
    | calcSet j | checkFlag =>
        simp only [State.AtPc, hpc] at hat ⊢
        exact fun hpos => (hat hpos).imp id fun hall k hk => hcovered k (hall k hk)
    | calcPast j =>
        simp only [State.AtPc, hpc] at hat ⊢
        exact ⟨hat.1, hat.2.imp id fun hall k hk => hcovered k (hall k hk)⟩
    | calcLess j =>
        simp only [State.AtPc, hpc] at hat ⊢
        exact ⟨hat.1, hat.2.imp id fun hall =>
          ⟨fun k hk => hcovered k (hall.1 k hk), hlate j hall.2⟩⟩
    | calcAssign j =>
        have heq : j ≠ i := by
          rintro rfl
          exact hassign hpc
        simp only [State.AtPc, hpc] at hat ⊢
        refine hat.imp id fun hall =>
          ⟨fun k hk => hcovered k (hall.1 k hk), hlate j hall.2.1, ?_⟩
        rw [Function.update_of_ne heq]
        exact hall.2.2
    | goSleep | sleeping since =>
        simp only [State.AtPc, hpc] at hat ⊢
        exact hat.imp id fun hall k hk => hcovered k (hall k hk)
    | _ => simp only [State.AtPc]

/-! ## The task -/

/-- The task has started, and is not about to call a routine. -/
def Pc.computes : Pc → Bool
  | .notStarted | .start _ => false
  | _ => true

/-- The task goes on, where the deadlines and the callers are the same. -/
theorem Inv.compute (h : Inv n s) {pc : Pc} {t lastTick : UInt64} {next : Int} {flag wake : Bool}
    (hcomputes : s.pc.computes = true) (ht : t ≤ s.now) (hnext : next < 2 ^ 31)
    (hat : State.AtPc n { s with
      pc := pc, t := t, lastTick := lastTick, next := next, deferNewCall := flag,
      wakePending := wake }) :
    Inv n { s with
      pc := pc, t := t, lastTick := lastTick, next := next, deferNewCall := flag,
      wakePending := wake } where
  started := by
    intro _
    apply h.started
    intro hpc
    simp [hpc, Pc.computes] at hcomputes
  clock := ht
  next_lt := hnext
  recorded := h.recorded
  kept := by
    intro i d hd
    refine Or.inl ((h.kept i d hd).resolve_right ?_)
    intro hpc
    simp [hpc, Pc.computes] at hcomputes
  timed := h.timed
  at_pc := hat

theorem Inv.goto (h : Inv n s) {pc : Pc} (hcomputes : s.pc.computes = true)
    (hat : (s.goto pc).AtPc n) : Inv n (s.goto pc) :=
  h.compute hcomputes h.clock h.next_lt hat

theorem Inv.clear (h : Inv n s) {i : Nat} (hpc : s.pc = .clear i) :
    Inv n { s with deferredUntil := Function.update s.deferredUntil i 0, pc := .start i } := by
  have hat : s.deferredUntil i ≠ 0 ∧ s.deferredUntil i < s.t := by
    simpa only [State.AtPc, hpc] using h.at_pc
  refine ⟨fun _ => h.started (by simp [hpc]), h.clock, h.next_lt, ?_, ?_, h.timed, ?_⟩
  · intro j (hj : Function.update s.deferredUntil i 0 j ≠ 0)
    have heq : j ≠ i := by
      rintro rfl
      exact hj (Function.update_self _ _ _)
    show s.latest j = some ⟨Function.update s.deferredUntil i 0 j, false⟩
    rw [Function.update_of_ne heq] at hj ⊢
    exact h.recorded j hj
  · intro j d hj
    show Function.update s.deferredUntil i 0 j = d ∨ Pc.start i = .start j
    by_cases heq : j = i
    · exact Or.inr (by rw [heq])
    · rw [Function.update_of_ne heq]
      refine Or.inl ((h.kept j d hj).resolve_right ?_)
      rw [hpc]
      rintro ⟨⟩
  · simp only [State.AtPc]
    exact ⟨Function.update_self _ _ _, s.deferredUntil i, h.recorded i hat.1, hat.2⟩

/-- The routine is started for the latest request, and nothing is recorded any more. -/
theorem Inv.start (h : Inv n s) {i : Nat} (hpc : s.pc = .start i) :
    Inv n ((s.serve i).goto (.running i)) := by
  have hat : s.deferredUntil i = 0 ∧ ∃ d, s.latest i = some ⟨d, false⟩ ∧ d < s.t := by
    simpa only [State.AtPc, hpc] using h.at_pc
  obtain ⟨hzero, d, hlatest, hd⟩ := hat
  have hnow : d < s.now := UInt64.lt_of_lt_of_le hd h.clock
  have hserve : s.serve i =
      { s with latest := Function.update s.latest i (some ⟨d, true⟩) } := by
    simp only [State.serve, hlatest, if_pos hnow]
  rw [hserve]
  refine ⟨fun _ => h.started (by simp [hpc]), h.clock, h.next_lt, ?_, ?_, h.timed, ?_⟩
  · intro j (hj : s.deferredUntil j ≠ 0)
    have heq : j ≠ i := by
      rintro rfl
      exact hj hzero
    show Function.update s.latest i _ j = _
    rw [Function.update_of_ne heq]
    exact h.recorded j hj
  · intro j e (hj : Function.update s.latest i (some ⟨d, true⟩) j = some ⟨e, false⟩)
    have heq : j ≠ i := by
      rintro rfl
      rw [Function.update_self] at hj
      cases hj
    rw [Function.update_of_ne heq] at hj
    refine Or.inl ((h.kept j e hj).resolve_right ?_)
    rw [hpc]
    rintro ⟨⟩
    exact heq rfl
  · simp only [State.AtPc, State.goto]

theorem coveredBelow_succ {i : Nat} (hbelow : s.CoveredBelow i) (hi : s.Covered i) :
    s.CoveredBelow (i + 1) := by
  intro j hj
  rcases Nat.lt_succ_iff_lt_or_eq.mp hj with hlt | rfl
  · exact hbelow j hlt
  · exact hi

/-- One deadline is looked at. -/
theorem Inv.calcSet (h : Inv n s) {i : Nat} (hpc : s.pc = .calcSet i)
    (hstep : s.hookStep n hookTickInterval = some s') : Inv n s' := by
  have hat : 0 < s.next → s.Alarm ∨ s.CoveredBelow i := by
    simpa only [State.AtPc, hpc] using h.at_pc
  have hgoto : ∀ pc, (s.goto pc).AtPc n → Inv n (s.goto pc) := fun pc =>
    h.goto (by rw [hpc]; rfl)
  simp only [State.hookStep, hpc] at hstep
  split_ifs at hstep with hloop hset
  · cases hstep
    refine hgoto _ ?_
    simp only [State.AtPc, State.goto]
    exact fun hpos => (hat hpos).imp id fun hall =>
      coveredBelow_succ hall fun hne => absurd hset hne
  · cases hstep
    refine hgoto _ ?_
    simp only [State.AtPc, State.goto]
    exact ⟨hloop.2, hat hloop.2⟩
  · cases hstep
    refine hgoto _ ?_
    simp only [State.AtPc, State.goto]
    -- The loop has seen all routines.
    intro hpos
    have hn : n ≤ i := not_lt.mp fun hlt => hloop ⟨hlt, hpos⟩
    exact (hat hpos).imp id fun hall j hj => hall j (hj.trans_le hn)

theorem Inv.calcPast (h : Inv n s) {i : Nat} (hpc : s.pc = .calcPast i)
    (hstep : s.hookStep n hookTickInterval = some s') : Inv n s' := by
  have hat : 0 < s.next ∧ (s.Alarm ∨ s.CoveredBelow i) := by
    simpa only [State.AtPc, hpc] using h.at_pc
  have hcomputes : s.pc.computes = true := by
    rw [hpc]
    rfl
  simp only [State.hookStep, hpc] at hstep
  split_ifs at hstep with hpast
  · cases hstep
    refine h.compute hcomputes h.clock (by decide) ?_
    simp only [State.AtPc]
    exact fun hpos => absurd hpos (lt_irrefl 0)
  · cases hstep
    refine h.goto hcomputes ?_
    simp only [State.AtPc, State.goto]
    exact ⟨hat.1, hat.2.imp id fun hall => ⟨hall, fun _ => UInt64.not_lt.mp hpast⟩⟩

theorem Inv.calcLess (h : Inv n s) {i : Nat} (hpc : s.pc = .calcLess i)
    (hstep : s.hookStep n hookTickInterval = some s') : Inv n s' := by
  have hat : 0 < s.next ∧ (s.Alarm ∨ s.CoveredBelow i ∧
      (s.deferredUntil i ≠ 0 → s.t ≤ s.deferredUntil i)) := by
    simpa only [State.AtPc, hpc] using h.at_pc
  have hgoto : ∀ pc, (s.goto pc).AtPc n → Inv n (s.goto pc) := fun pc =>
    h.goto (by rw [hpc]; rfl)
  have hiff := lt_cUInt64_iff (x := s.deferredUntil i - s.t) hat.1 h.next_lt
  simp only [State.hookStep, hpc] at hstep
  split_ifs at hstep with hless
  · cases hstep
    refine hgoto _ ?_
    simp only [State.AtPc, State.goto]
    exact hat.2.imp id fun hall => ⟨hall.1, hall.2, hiff.mp hless⟩
  · cases hstep
    refine hgoto _ ?_
    simp only [State.AtPc, State.goto]
    refine fun _ => hat.2.imp id fun hall => coveredBelow_succ hall.1 fun hne => ?_
    have hle := hall.2 hne
    have hsub := UInt64.toNat_sub_of_le _ _ hle
    rw [UInt64.le_iff_toNat_le] at hle
    rw [hiff, hsub] at hless
    show (s.t.toNat + s.next : Int) ≤ (s.deferredUntil i).toNat
    omega

/-- The sleeping time ends with this deadline, before all the others. -/
theorem Inv.calcAssign (h : Inv n s) {i : Nat} (hpc : s.pc = .calcAssign i) :
    Inv n { s with next := cInt (s.deferredUntil i - s.t), pc := .calcSet (i + 1) } := by
  have hat : s.Alarm ∨ s.CoveredBelow i ∧ (s.deferredUntil i ≠ 0 → s.t ≤ s.deferredUntil i) ∧
      ((s.deferredUntil i - s.t).toNat : Int) < s.next := by
    simpa only [State.AtPc, hpc] using h.at_pc
  refine h.compute (by rw [hpc]; rfl) h.clock (cInt_lt _) ?_
  simp only [State.AtPc]
  refine fun _ => hat.imp id ?_
  rintro ⟨hbelow, hlate, hless⟩
  have hnext := cInt_of_lt h.next_lt hless
  refine coveredBelow_succ ?_ ?_
  · intro j hj hne
    have hj := hbelow j hj hne
    show (s.t.toNat + cInt (s.deferredUntil i - s.t) : Int) ≤ (s.deferredUntil j).toNat
    omega
  · intro hne
    have hle := hlate hne
    have hsub := UInt64.toNat_sub_of_le _ _ hle
    rw [UInt64.le_iff_toNat_le] at hle
    show (s.t.toNat + cInt (s.deferredUntil i - s.t) : Int) ≤ (s.deferredUntil i).toNat
    omega

theorem Inv.hookStep (h : Inv n s) (hstep : s.hookStep n hookTickInterval = some s') : Inv n s' := by
  have hat := h.at_pc
  cases hpc : s.pc with
  | notStarted =>
      simp only [State.hookStep, hpc, Option.some.injEq] at hstep
      subst hstep
      refine ⟨fun _ => rfl, h.clock, h.next_lt, h.recorded, ?_, h.timed, trivial⟩
      intro i d hd
      refine Or.inl ((h.kept i d hd).resolve_right ?_)
      rw [hpc]
      rintro ⟨⟩
  | clear i =>
      simp only [State.hookStep, hpc, Option.some.injEq] at hstep
      exact hstep ▸ h.clear hpc
  | start i =>
      simp only [State.hookStep, hpc, Option.some.injEq] at hstep
      exact hstep ▸ h.start hpc
  | calcSet i => exact h.calcSet hpc hstep
  | calcPast i => exact h.calcPast hpc hstep
  | calcLess i => exact h.calcLess hpc hstep
  | calcAssign i =>
      simp only [State.hookStep, hpc, Option.some.injEq] at hstep
      exact hstep ▸ h.calcAssign hpc
  | initHooks | running i =>
      simp only [State.hookStep, hpc, Option.some.injEq] at hstep
      exact hstep ▸ h.goto (by rw [hpc]; rfl) trivial
  | loop =>
      simp only [State.hookStep, hpc, Option.some.injEq] at hstep
      exact hstep ▸ h.compute (by rw [hpc]; rfl) UInt64.le_rfl
        (by decide) trivial
  | testSet i =>
      simp only [State.hookStep, hpc] at hstep
      split_ifs at hstep with hi hset
      · exact Option.some.inj hstep ▸
          h.goto (by rw [hpc]; rfl) hset
      · exact Option.some.inj hstep ▸
          h.goto (by rw [hpc]; rfl) trivial
      · exact Option.some.inj hstep ▸
          h.goto (by rw [hpc]; rfl) trivial
  | testDue i =>
      simp only [State.AtPc, hpc] at hat
      simp only [State.hookStep, hpc] at hstep
      split_ifs at hstep with hdue
      · exact Option.some.inj hstep ▸
          h.goto (by rw [hpc]; rfl) ⟨hat, hdue⟩
      · exact Option.some.inj hstep ▸
          h.goto (by rw [hpc]; rfl) trivial
  | ticks =>
      simp only [State.hookStep, hpc, Option.some.injEq] at hstep
      exact hstep ▸ h.compute (by rw [hpc]; rfl) h.clock h.next_lt
        trivial
  | calcTime =>
      simp only [State.hookStep, hpc, Option.some.injEq] at hstep
      refine hstep ▸ h.compute (by rw [hpc]; rfl) UInt64.le_rfl ?_
        trivial
      split
      · exact cInt_lt _
      · exact h.next_lt
  | resetFlag =>
      simp only [State.hookStep, hpc, Option.some.injEq] at hstep
      refine hstep ▸ h.compute (by rw [hpc]; rfl) h.clock h.next_lt ?_
      simp only [State.AtPc]
      exact fun _ => Or.inr fun j hj => absurd hj (Nat.not_lt_zero j)
  | checkFlag =>
      simp only [State.AtPc, hpc] at hat
      simp only [State.hookStep, hpc] at hstep
      split_ifs at hstep with hsleep
      · refine Option.some.inj hstep ▸
          h.goto (by rw [hpc]; rfl) ?_
        simp only [State.AtPc, State.goto]
        rcases hat hsleep.1 with (hflag | ⟨caller, hwrote⟩) | hall
        · rw [hsleep.2] at hflag
          cases hflag
        · exact Or.inl (Or.inr ⟨caller, Or.inl hwrote⟩)
        · exact Or.inr hall
      · exact Option.some.inj hstep ▸
          h.goto (by rw [hpc]; rfl) trivial
  | goSleep =>
      simp only [State.AtPc, hpc] at hat
      simp only [State.hookStep, hpc, Option.some.injEq] at hstep
      exact hstep ▸ h.goto (by rw [hpc]; rfl) hat
  | sleeping since =>
      simp only [State.hookStep, hpc] at hstep
      split_ifs at hstep with hwake
      exact Option.some.inj hstep ▸
        h.compute (by rw [hpc]; rfl) h.clock h.next_lt trivial

/-- A routine or a hook takes the events of the task. -/
theorem Inv.takeEvents (h : Inv n s) (hroutine : s.inRoutine = true) :
    Inv n { s with wakePending := false } := by
  refine ⟨h.started, h.clock, h.next_lt, h.recorded, h.kept, h.timed, ?_⟩
  unfold State.inRoutine at hroutine
  cases hpc : s.pc with
  | initHooks | running i | ticks => simp only [State.AtPc]
  | _ =>
      rw [hpc] at hroutine
      cases hroutine

/-! ## Every interleaving -/

/-- What one step preserves. -/
theorem step_inv [DecidableEq ι] (h : Inv n s) {e : Event ι} (hallowed : undisturbed s e = true)
    (hstep : step n hookTickInterval s e = some s') : Inv n s' := by
  cases e with
  | tick now =>
      simp only [step] at hstep
      split_ifs at hstep with hnow
      exact Option.some.inj hstep ▸ h.tick hnow
  | call caller i us =>
      cases hcaller : s.callers caller with
      | idle =>
          simp only [step, hcaller, Option.some.injEq] at hstep
          subst hstep
          simp only [undisturbed] at hallowed
          simp only [hookCallDeferred]
          split_ifs with hn hus
          · exact h
          · simp only [if_pos hus, decide_eq_true_eq] at hallowed
            exact h.cancel hallowed.1 hallowed.2.1 hallowed.2.2.1 hallowed.2.2.2
          · simp only [if_neg hus, decide_eq_true_eq] at hallowed
            exact h.timedCaller hcaller hallowed
      | _ => simp [step, hcaller] at hstep
  | write caller =>
      cases hcaller : s.callers caller with
      | timed i deadline =>
          simp only [step, hcaller, Option.some.injEq] at hstep
          simp only [undisturbed, hcaller, decide_eq_true_eq] at hallowed
          exact hstep ▸ h.write hcaller hallowed.1 hallowed.2
      | _ => simp [step, hcaller] at hstep
  | flag caller =>
      cases hcaller : s.callers caller with
      | wrote =>
          simp only [step, hcaller, Option.some.injEq] at hstep
          exact hstep ▸ h.flag caller
      | _ => simp [step, hcaller] at hstep
  | wake caller =>
      cases hcaller : s.callers caller with
      | flagged =>
          simp only [step, hcaller, Option.some.injEq] at hstep
          exact hstep ▸ h.wake hcaller
      | _ => simp [step, hcaller] at hstep
  | hook => exact h.hookStep hstep
  | takeEvents =>
      simp only [step] at hstep
      split_ifs at hstep with hroutine
      exact Option.some.inj hstep ▸ h.takeEvents hroutine

theorem inv_of_reachable [DecidableEq ι] {now : UInt64}
    (h : Reachable (step n hookTickInterval) undisturbed (State.init ι hookTickInterval now) s) :
    Inv n s := by
  refine h.invariant (Inv n) (init_inv now) ?_
  intro s e s' hinv hallowed hstep
  exact step_inv hinv hallowed hstep

/-- **Deferred calls are neither lost nor early**, in every interleaving in which no routine is
requested or cancelled while the task is between the test of its deadline and its start: the
routine that is about to be started is due for its latest request, which has not been served yet;
every latest request that has not been served is recorded, or its routine is about to be started;
and while the task waits, no recorded deadline is before the end of the sleeping time, as it was
computed, unless the task has been woken or a caller is going to wake it. -/
theorem deferred_calls_kept [DecidableEq ι] {now : UInt64}
    (h : Reachable (step n hookTickInterval) undisturbed (State.init ι hookTickInterval now) s) :
    (∀ i, s.pc = .start i → ∃ d, s.latest i = some ⟨d, false⟩ ∧ d < s.now) ∧
      (∀ i d, s.latest i = some ⟨d, false⟩ → s.deferredUntil i = d ∨ s.pc = .start i) ∧
      ∀ since, s.pc = .sleeping since → ∀ i < n, s.deferredUntil i ≠ 0 →
        (s.t.toNat + s.next : Int) ≤ (s.deferredUntil i).toNat ∨ s.WakeComing := by
  have hinv := inv_of_reachable h
  refine ⟨?_, hinv.kept, ?_⟩
  · intro i hpc
    have hat : s.deferredUntil i = 0 ∧ ∃ d, s.latest i = some ⟨d, false⟩ ∧ d < s.t := by
      simpa only [State.AtPc, hpc] using hinv.at_pc
    obtain ⟨-, d, hlatest, hd⟩ := hat
    exact ⟨d, hlatest, UInt64.lt_of_lt_of_le hd hinv.clock⟩
  · intro since hpc i hi hset
    have hat : s.WakeComing ∨ s.CoveredBelow n := by
      simpa only [State.AtPc, hpc] using hinv.at_pc
    rcases hat with hwake | hall
    · exact Or.inr hwake
    · exact Or.inl (hall i hi hset)

/-- A routine is requested while the task starts, and the task is about to start the routine
after its deadline. -/
theorem deferred_calls_kept_run :
    ∃ s : State Unit,
      Reachable (step 1 1000) undisturbed (State.init Unit 1000 5) s ∧ s.pc = .start 0 ∧
        ∃ d, s.latest 0 = some ⟨d, false⟩ ∧ d < s.now := by
  obtain ⟨s, hs, hP⟩ : ∃ s : State Unit,
      Reachable (step 1 1000) undisturbed (State.init Unit 1000 5) s ∧ s.pc = .start 0 :=
    Reachable.exists_of_runEvents
      (([.call () 0 10, .write (), .hook, .flag (), .wake (), .tick 20] : List (Event Unit)) ++
        List.replicate 5 .hook)
      (by decide +kernel)
  exact ⟨s, hs, hP, (deferred_calls_kept hs).1 0 hP⟩

/-- **Deferred calls can be late, replaced, lost, and started for nothing.** -/
theorem deferred_calls_disturbed :
    (∃ s : State Unit, Reachable (step 1 1000) undisturbed (State.init Unit 1000 5) s ∧
      s.pc = .sleeping 7 ∧ s.deferredUntil 0 ≠ 0 ∧
      ((s.deferredUntil 0).toNat : Int) < 7 + s.next ∧ s.wakePending = false ∧
      s.callers () = .idle) ∧
    (∃ s : State Unit, Reachable (step 1 1000) undisturbed (State.init Unit 1000 5) s ∧
      s.latest 0 = some ⟨15, false⟩ ∧ 15 < s.now ∧
      (step 1 1000 s (.call () 0 (-1))).any fun s' =>
        s'.deferredUntil 0 = 0 ∧ s'.pc ≠ .start 0) ∧
    (∃ s : State Unit, Reachable (step 1 1000) anyEvent (State.init Unit 1000 5) s ∧
      s.pc = .start 0 ∧ s.latest 0 = some ⟨120, false⟩ ∧ s.now < 120 ∧ s.deferredUntil 0 = 0) ∧
    (∃ s : State Unit, Reachable (step 1 1000) anyEvent (State.init Unit 1000 5) s ∧
      s.pc = .start 0 ∧ s.latest 0 = none ∧ s.now < 105) ∧
    ∃ s : State Unit, Reachable (step 2 1000) anyEvent (State.init Unit 1000 4294967196) s ∧
      s.pc = .sleeping 4294967196 ∧ s.deferredUntil 0 ≠ 0 ∧
      ((s.deferredUntil 0).toNat : Int) < 4294967196 + s.next ∧ s.wakePending = false ∧
      s.callers () = .idle := by
  refine ⟨?_, ?_, ?_, ?_, ?_⟩
  -- The clock advances after the task has computed how long to wait, and before it waits.
  · refine Reachable.exists_of_runEvents
      (([.call () 0 10, .write (), .flag (), .wake ()] : List (Event Unit)) ++
        List.replicate 15 .hook ++ ([.tick 7, .hook] : List (Event Unit))) ?_
    decide +kernel
  -- A request is cancelled after its deadline, and before the task has seen that it is due.
  · refine Reachable.exists_of_runEvents
      [.call () 0 10, .write (), .flag (), .wake (), .tick 20] ?_
    decide +kernel
  -- A routine is requested again after the task has found it due.
  · refine Reachable.exists_of_runEvents
      (([.call () 0 10, .write (), .flag (), .wake (), .tick 20] : List (Event Unit)) ++
        List.replicate 5 .hook ++ ([.call () 0 100, .write (), .hook] : List (Event Unit))) ?_
    decide +kernel
  -- A routine is cancelled between the two tests of its deadline, which is not due: zero is.
  · refine Reachable.exists_of_runEvents
      (([.call () 0 100, .write (), .flag (), .wake ()] : List (Event Unit)) ++
        List.replicate 4 .hook ++ ([.call () 0 (-1), .hook, .hook] : List (Event Unit))) ?_
    decide +kernel
  -- The second of two routines is cancelled between the last two reads of its deadline, and the
  -- task waits past the deadline of the first one.
  · refine Reachable.exists_of_runEvents
      (([.call () 0 50, .write (), .flag (), .wake (), .call () 1 20, .write (), .flag (),
        .wake ()] : List (Event Unit)) ++ List.replicate 18 .hook ++ [.call () 1 (-1)] ++
          List.replicate 4 .hook) ?_
    decide +kernel

end Hooks
end CrosEc
