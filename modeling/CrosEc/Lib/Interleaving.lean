import Mathlib.Tactic

/-!
# Interleavings of atomic steps

A concurrent system is a state and a step function: an event names who moves and what the
outside world does, and the step function answers the next state, or `none` where the move
is not possible.  Every order of events that the step function accepts is an interleaving.

`Reachable` collects the states of all the interleavings in which every event is allowed in
the state where it happens.  `Reachable.invariant` is the one induction over interleavings;
`Reachable.of_runEvents` puts the end of a concrete interleaving among them.
-/

namespace CrosEc
namespace Lib

section Interleaving

variable {σ ε : Type*} (step : σ → ε → Option σ) (allowed : σ → ε → Bool)

/-- The state after a list of events, each of which has to be allowed and possible. -/
def runEvents : σ → List ε → Option σ
  | s, [] => some s
  | s, e :: es => if allowed s e then (step s e).bind fun s' => runEvents s' es else none

/-- The states that some interleaving reaches from `init`. -/
inductive Reachable (init : σ) : σ → Prop
  | start : Reachable init init
  | next {s s' : σ} (e : ε) : Reachable init s → allowed s e = true → step s e = some s' →
      Reachable init s'

/-- Every event is allowed. -/
def anyEvent : σ → ε → Bool := fun _ _ => true

end Interleaving

variable {σ ε : Type*} {step : σ → ε → Option σ} {allowed : σ → ε → Bool} {init s s' : σ}

/-- **Invariant rule.** What holds at the start and is kept by every allowed step holds of
every reachable state. -/
theorem Reachable.invariant (Inv : σ → Prop) (hinit : Inv init)
    (hstep : ∀ s e s', Inv s → allowed s e = true → step s e = some s' → Inv s')
    (h : Reachable step allowed init s) : Inv s := by
  induction h with
  | start => exact hinit
  | next e _ hallowed hs ih => exact hstep _ e _ ih hallowed hs

/-- **Run lemma.** A list of events that can be executed ends in a reachable state. -/
theorem Reachable.of_runEvents {es : List ε} (h : Reachable step allowed init s)
    (hrun : runEvents step allowed s es = some s') : Reachable step allowed init s' := by
  induction es generalizing s with
  | nil =>
      simp only [runEvents, Option.some.injEq] at hrun
      exact hrun ▸ h
  | cons e es ih =>
      simp only [runEvents, Option.ite_none_right_eq_some, Option.bind_eq_some_iff] at hrun
      obtain ⟨hallowed, s₁, hs₁, hrest⟩ := hrun
      exact ih (h.next e hallowed hs₁) hrest

/-- What the end of a concrete interleaving is like. -/
theorem Reachable.exists_of_runEvents {P : σ → Prop} [DecidablePred P] (es : List ε)
    (h : (runEvents step allowed init es).any (fun s => decide (P s)) = true) :
    ∃ s, Reachable step allowed init s ∧ P s := by
  obtain ⟨s, hrun, hP⟩ := (Option.any_eq_true _ _).mp h
  exact ⟨s, Reachable.start.of_runEvents hrun, of_decide_eq_true hP⟩

/-- Fewer restrictions reach no fewer states. -/
theorem Reachable.mono {allowed' : σ → ε → Bool} (h : Reachable step allowed init s)
    (himp : ∀ s e, allowed s e = true → allowed' s e = true) :
    Reachable step allowed' init s := by
  induction h with
  | start => exact .start
  | next e _ hallowed hs ih => exact ih.next e (himp _ e hallowed) hs

end Lib

/-!
## Recorded runs

A run together with its steps: every event with the state where it happened, the last step first.
It says more than reachability where a property is about what happened earlier in the run:
`Trace.last_entry` finds the step that made something true which is true now.
-/

namespace Lib

/-- The runs from `init` in which every event is allowed. -/
inductive Trace {σ ε : Type*} (step : σ → ε → Option σ) (allowed : σ → ε → Bool) (init : σ) :
    List (σ × ε) → σ → Prop
  | start : Trace step allowed init [] init
  | next {steps : List (σ × ε)} {s s' : σ} (e : ε) : Trace step allowed init steps s →
      allowed s e = true → step s e = some s' → Trace step allowed init ((s, e) :: steps) s'

variable {σ ε : Type*} {step : σ → ε → Option σ} {allowed : σ → ε → Bool} {init s s' : σ}
  {steps : List (σ × ε)}

/-- The run that led to a step of the run. -/
theorem Trace.before {later earlier : List (σ × ε)} {e : ε}
    (h : Trace step allowed init (later ++ (s, e) :: earlier) s') :
    Trace step allowed init earlier s ∧ allowed s e = true := by
  induction later generalizing s' with
  | nil =>
      cases h with
      | next e h hallowed _ => exact ⟨h, hallowed⟩
  | cons x later ih =>
      cases h with
      | next e h _ _ => exact ih h

/-- What a property needs that was false at the start: a last step that made it true, after which
it stayed true. -/
theorem Trace.last_entry {P : σ → Prop} (h : Trace step allowed init steps s) (hs : P s)
    (hinit : ¬ P init) :
    ∃ later s₁ e earlier s₂, steps = later ++ (s₁, e) :: earlier ∧ ¬ P s₁ ∧
      step s₁ e = some s₂ ∧ P s₂ ∧ ∀ x ∈ later, P x.1 := by
  induction h with
  | start => exact absurd hs hinit
  | @next steps s s' e _ _ hstep ih =>
      by_cases hbefore : P s
      · obtain ⟨later, s₁, e₁, earlier, s₂, rfl, hnot, hstep₁, hP, hlater⟩ := ih hbefore
        refine ⟨(s, e) :: later, s₁, e₁, earlier, s₂, rfl, hnot, hstep₁, hP, ?_⟩
        intro x hx
        rcases List.mem_cons.mp hx with rfl | hx
        · exact hbefore
        · exact hlater x hx
      · exact ⟨[], s, e, steps, s', rfl, hbefore, hstep, hs, by simp⟩

/-- The steps of a list of events that can be executed. -/
def recordEvents (step : σ → ε → Option σ) (allowed : σ → ε → Bool) :
    σ → List ε → List (σ × ε) → Option (List (σ × ε) × σ)
  | s, [], steps => some (steps, s)
  | s, e :: es, steps =>
      if allowed s e then
        (step s e).bind fun s' => recordEvents step allowed s' es ((s, e) :: steps)
      else none

/-- **Run lemma.** A list of events that can be executed is a run. -/
theorem Trace.of_recordEvents {es : List ε} {steps' : List (σ × ε)}
    (h : Trace step allowed init steps s)
    (hrun : recordEvents step allowed s es steps = some (steps', s')) :
    Trace step allowed init steps' s' := by
  induction es generalizing s steps with
  | nil =>
      simp only [recordEvents, Option.some.injEq, Prod.mk.injEq] at hrun
      obtain ⟨rfl, rfl⟩ := hrun
      exact h
  | cons e es ih =>
      simp only [recordEvents, Option.ite_none_right_eq_some, Option.bind_eq_some_iff] at hrun
      obtain ⟨hallowed, s₁, hs₁, hrest⟩ := hrun
      exact ih (h.next e hallowed hs₁) hrest

/-- What the end of a concrete run is like. -/
theorem Trace.exists_of_recordEvents {P : σ → Prop} [DecidablePred P] (es : List ε)
    (h : (recordEvents step allowed init es []).any (fun r => decide (P r.2)) = true) :
    ∃ steps s, Trace step allowed init steps s ∧ P s := by
  obtain ⟨⟨steps, s⟩, hrun, hP⟩ := (Option.any_eq_true _ _).mp h
  exact ⟨steps, s, Trace.start.of_recordEvents hrun, of_decide_eq_true hP⟩

end Lib
end CrosEc
