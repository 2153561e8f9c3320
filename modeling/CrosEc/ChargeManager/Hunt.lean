import CrosEc.ChargeManager.Stability

/-!
# The hunt for a port

A refresh asks the board for one port after the other.  A rejected port has its charges
zeroed, so no later round selects it (`Hunts.not_eligible_of_rejected`), and there are no more
rounds than ports with something to offer, and one (`Hunts.length_le`).  What a refresh leaves
behind is `Selected`, with one exception: in safe mode it does not select `CHARGE_PORT_NONE`,
but returns from inside the loop.  An override port that offers nothing then stays set.
-/

namespace CrosEc
namespace ChargeManager

open Lib

variable {cfg : ChargeManager}

/-- A call of `board_set_active_charge_port`. -/
def Event.isBoardCall : Event cfg → Bool
  | .setActiveChargePort .. => true
  | _ => false

/-- The port that the board rejects in a call. -/
def Event.rejected : Event cfg → Option cfg.Port
  | .setActiveChargePort port false => port
  | _ => none

/-- The ports that the board has rejected. -/
def rejectedPorts (events : List (Event cfg)) : List cfg.Port :=
  events.filterMap Event.rejected

/-- What a refresh that has selected a port, or `CHARGE_PORT_NONE`, leaves behind: the port is
not one that was rejected, an override port is the selected one, and outside safe mode the
current is below the ceilings of the port. -/
structure Selected (s : State cfg) (events : List (Event cfg)) : Prop where
  notRejected : ∀ p, s.chargePort = some p → p ∉ rejectedPorts events
  override : ∀ p, s.overridePort = .port p → s.chargePort = some p
  ceiling : s.leftSafeMode → ∀ p, s.chargePort = some p →
    ∀ r, s.chargeCeil p r ≠ ceilNone → s.chargeCurrent ≤ s.chargeCeil p r

/-! ## The rounds -/

section Rounds

variable {sys : System} {board : Nat → Option cfg.Port → Bool} {n : Nat} {s s' : State cfg}
  {calls : List (Event cfg)} {exit : HuntExit cfg}

/-- The rounds change only the table of charges. -/
theorem Hunts.frame (h : Hunts sys board n s s' calls exit) :
    s' = { s with availableCharge := s'.availableCharge } := by
  induction h with
  | stay => rfl
  | keep => rfl
  | accept => rfl
  | reject n s s' r events exit hbest hboard hrest ih => exact ih

/-- A round makes one call of the board function, and takes a port out of the selection. -/
theorem Hunts.length_le (h : Hunts sys board n s s' calls exit) :
    calls.length ≤ (eligiblePorts sys s).card + 1 := by
  induction h with
  | stay => exact Nat.zero_le _
  | keep => exact Nat.zero_le _
  | accept => exact Nat.le_add_left _ _
  | reject n s s' r events exit hbest hboard hrest ih =>
      have hless := eligiblePorts_zeroPort (mem_contenders.mp (mem_contenders_of_best hbest)).1
      rw [List.length_cons]
      omega

/-- No round makes a pair eligible. -/
theorem Hunts.eligible (h : Hunts sys board n s s' calls exit) {x : Pair cfg}
    (hx : Eligible sys s' x) : Eligible sys s x := by
  induction h with
  | stay => exact hx
  | keep => exact hx
  | accept => exact hx
  | reject n s s' r events exit hbest hboard hrest ih => exact (eligible_zeroPort_iff.mp (ih hx)).1

/-- **Progress.**  A rejected port cannot be selected in a later round. -/
theorem Hunts.not_eligible_of_rejected (h : Hunts sys board n s s' calls exit) {x : Pair cfg}
    (hx : x.2 ∈ rejectedPorts calls) : ¬Eligible sys s' x := by
  induction h with
  | stay => exact absurd hx List.not_mem_nil
  | keep => exact absurd hx List.not_mem_nil
  | accept => exact absurd hx List.not_mem_nil
  | reject n s s' r events exit hbest hboard hrest ih =>
      intro hel
      rcases List.mem_cons.mp hx with hnow | hlater
      · exact (eligible_zeroPort_iff.mp (hrest.eligible hel)).2 hnow
      · exact ih hlater hel

/-- Nothing happens to the charges on the other ports. -/
theorem Hunts.charge_eq (h : Hunts sys board n s s' calls exit) {x : Pair cfg}
    (hx : x.2 ∉ rejectedPorts calls) : s'.charge x = s.charge x := by
  induction h with
  | stay => rfl
  | keep => rfl
  | accept => rfl
  | reject n s s' r events exit hbest hboard hrest ih =>
      obtain ⟨hnow, hlater⟩ := not_or.mp (hx ∘ List.mem_cons.mpr)
      rw [ih hlater, charge_zeroPort, if_neg fun h => hnow h.2]

end Rounds

/-! ## The ceilings -/

/-- What `charge_manager_get_ceil` returns is below every ceiling that is set. -/
theorem getCeil_le {s : State cfg} {p : cfg.Port} {r : CeilRequestor}
    (hset : s.chargeCeil p r ≠ ceilNone) :
    getCeil s p ≠ ceilNone ∧ getCeil s p ≤ s.chargeCeil p r := by
  simp only [getCeil, CeilRequestor.all, List.foldl_cons, List.foldl_nil]
  cases r <;> grind

theorem newChargeCurrent_le (sys : System) {s : State cfg} (hleft : s.leftSafeMode) (x : Pair cfg)
    {r : CeilRequestor} (hset : s.chargeCeil x.2 r ≠ ceilNone) :
    newChargeCurrent sys s (some x) ≤ s.chargeCeil x.2 r := by
  obtain ⟨hceil, hle⟩ := getCeil_le hset
  unfold newChargeCurrent
  dsimp only
  rw [if_pos ⟨hleft, hceil⟩]
  exact (min_le_left _ _).trans hle

/-! ## The end of a refresh -/

section End

variable {env : Env cfg} {best : Option (Pair cfg)} {s : State cfg}

theorem isBoardCall_newPowerRequest {updated : Option cfg.Port} {e : Event cfg}
    (he : e ∈ newPowerRequest updated) : e.isBoardCall = false := by
  unfold newPowerRequest at he
  split at he
  · split at he
    · rw [List.mem_singleton.mp he]
      rfl
    · cases he
  · cases he

theorem isBoardCall_changeLimit {e : Event cfg} (he : e ∈ changeLimit env s best) :
    e.isBoardCall = false := by
  unfold changeLimit at he
  dsimp only at he
  split at he
  all_goals
    simp only [List.mem_cons, List.not_mem_nil, or_false] at he
    rcases he with rfl | rfl <;> rfl

theorem isBoardCall_switchToSource {p : cfg.Port} {e : Event cfg}
    (he : e ∈ switchToSource env s p) : e.isBoardCall = false := by
  unfold switchToSource at he
  split at he
  · rw [List.mem_singleton.mp he]
    rfl
  · cases he

/-- Behind the hunt the board is not asked for a port. -/
theorem isBoardCall_applySelection {e : Event cfg} (he : e ∈ (applySelection env best s).2) :
    e.isBoardCall = false := by
  unfold applySelection at he
  simp only [List.mem_append] at he
  rcases he with (((hlimit | hswap) | hnew) | hold) | hhost
  · split at hlimit
    · exact isBoardCall_changeLimit hlimit
    · cases hlimit
  · split at hswap
    · exact isBoardCall_switchToSource hswap
    · cases hswap
  · exact isBoardCall_newPowerRequest hnew
  · exact isBoardCall_newPowerRequest hold
  · split at hhost
    · rw [List.mem_singleton.mp hhost]
      rfl
    · cases hhost

theorem rejected_of_isBoardCall {e : Event cfg} (he : e.isBoardCall = false) :
    e.rejected = none := by
  cases e with
  | setActiveChargePort port accepted => cases he
  | _ => rfl

theorem rejectedPorts_applySelection (calls : List (Event cfg)) :
    rejectedPorts (calls ++ (applySelection env best s).2) = rejectedPorts calls := by
  have hnone : rejectedPorts (applySelection env best s).2 = [] :=
    List.filterMap_eq_nil_iff.mpr fun e he =>
      rejected_of_isBoardCall (isBoardCall_applySelection he)
  rw [rejectedPorts, List.filterMap_append]
  exact (congrArg _ hnone).trans (List.append_nil _)

theorem countP_applySelection (calls : List (Event cfg)) :
    (calls ++ (applySelection env best s).2).countP Event.isBoardCall =
      calls.countP Event.isBoardCall := by
  have hnone : (applySelection env best s).2.countP Event.isBoardCall = 0 :=
    List.countP_eq_zero.mpr fun e he => by simp [isBoardCall_applySelection he]
  rw [List.countP_append, hnone, Nat.add_zero]

/-- With a port selected, there is still one to select. -/
theorem getBest_applySelection_ne_none (hbest : getBestChargePort env.system s = best)
    (hsome : best ≠ none) :
    getBestChargePort env.system (applySelection env best s).1 ≠ none := by
  rw [(clearsIdle_of_best hbest).getBest_eq]
  rw [← hbest, getBestChargePort_eq] at hsome
  by_cases hdont : s.overridePort = .dontCharge
  · rw [if_pos hdont] at hsome
    exact absurd rfl hsome
  · rw [if_neg hdont, ne_eq, pick_eq_none_iff] at hsome ⊢
    exact hsome

/-- What follows the hunt for a port that is still eligible. -/
theorem selected_applySelection {events : List (Event cfg)}
    (hbest : getBestChargePort env.system s = best)
    (hrejected : ∀ x : Pair cfg, x.2 ∈ rejectedPorts events → ¬Eligible env.system s x) :
    Selected (applySelection env best s).1 events where
  notRejected := by
    intro p hp hmem
    obtain ⟨x, rfl, rfl⟩ : ∃ x, best = some x ∧ x.2 = p := Option.map_eq_some_iff.mp hp
    exact hrejected x hmem (mem_contenders.mp (mem_contenders_of_best hbest)).1
  override := fun p hp => (clearedOverride_eq_port_iff.mp hp).2
  ceiling := by
    intro hleft p hp r hset
    obtain ⟨x, rfl, rfl⟩ : ∃ x, best = some x ∧ x.2 = p := Option.map_eq_some_iff.mp hp
    exact newChargeCurrent_le env.system hleft x hset

end End

/-- **The hunt of a refresh.**  With a board that accepts `CHARGE_PORT_NONE`, a refresh returns
after at most one call of the board function for each port, and one.  In safe mode, if nothing
is left to charge from, it selects nothing and only the charges on the rejected ports are
different; else it leaves behind what `Selected` says. -/
theorem refresh_hunts (env : Env cfg) (board : Nat → Option cfg.Port → Bool)
    (hnone : ∀ n, board n none) (s : State cfg) :
    ∃ s' events, refresh env board s = some (s', events) ∧
      events.countP Event.isBoardCall ≤ cfg.chargePortCount + 1 ∧
      if s.leftSafeMode = false ∧ getBestChargePort env.system s' = none then
        s' = { s with availableCharge := s'.availableCharge } ∧
          ∀ x : Pair cfg, x.2 ∉ rejectedPorts events → s'.charge x = s.charge x
      else Selected s' events := by
  obtain ⟨s₁, calls, exit, hrun⟩ := hunt_charges env.system hnone s
  have hreturns : refresh env board s ≠ none := by
    unfold refresh
    rw [hrun]
    cases exit <;> exact Option.some_ne_none _
  obtain ⟨⟨s', events⟩, hrefresh⟩ := Option.ne_none_iff_exists'.mp hreturns
  refine ⟨s', events, hrefresh, ?_⟩
  obtain ⟨s₁, calls, exit, hhunts, hexit⟩ := refresh_cases hrefresh
  have hcount : calls.countP Event.isBoardCall ≤ cfg.chargePortCount + 1 := by
    have hports : (eligiblePorts env.system s).card ≤ cfg.chargePortCount := by
      simpa using Finset.card_le_univ (eligiblePorts env.system s)
    have hcalls := List.countP_le_length (p := Event.isBoardCall) (l := calls)
    have hlength := hhunts.length_le
    omega
  rcases hexit with ⟨rfl, rfl, rfl⟩ | ⟨best, rfl, rfl, rfl⟩
  · obtain ⟨hsafe, hbest⟩ := hhunts.stay_spec
    have hframe := hhunts.frame
    have hstart : s.leftSafeMode = false := by rw [← hsafe, hframe]
    rw [if_pos ⟨hstart, hbest⟩]
    exact ⟨hcount, hframe, fun x hx => hhunts.charge_eq hx⟩
  · obtain ⟨hbest, hleft⟩ := hhunts.select_spec
    have hselected : Selected (applySelection env best s₁).1
        (calls ++ (applySelection env best s₁).2) := by
      apply selected_applySelection hbest
      intro x hx
      rw [rejectedPorts_applySelection] at hx
      exact hhunts.not_eligible_of_rejected hx
    have hgoes : ¬(s.leftSafeMode = false ∧
        getBestChargePort env.system (applySelection env best s₁).1 = none) := by
      rintro ⟨hsafe, hend⟩
      have hstart : s₁.leftSafeMode = false := by rw [hhunts.frame, hsafe]
      rw [hstart] at hleft
      exact getBest_applySelection_ne_none hbest (hleft.resolve_left Bool.false_ne_true) hend
    rw [if_neg hgoes, countP_applySelection]
    exact ⟨hcount, hselected⟩

/-- The board takes nothing, so the port is rejected before `CHARGE_PORT_NONE` is selected. -/
theorem refresh_hunts_attach :
    ∃ s' events,
      refresh onePortEnv (fun _ port => port = none) (attach (some ⟨3000, 5000⟩) none) =
        some (s', events) ∧
      events.countP Event.isBoardCall ≤ 2 ∧ Selected s' events := by
  obtain ⟨s', events, hrefresh, hcount, hend⟩ := refresh_hunts onePortEnv
    (fun _ port => port = none) (by simp) (attach (some ⟨3000, 5000⟩) none)
  rw [if_neg (by rintro ⟨hsafe, -⟩; cases hsafe)] at hend
  exact ⟨s', events, hrefresh, hcount, hend⟩

/-- The board with one port, in safe mode until the first charge. -/
def safeBoard : ChargeManager := { onePortBoard with safeMode := true }

/-- Its port. -/
def safePort : safeBoard.Port := (0 : Fin 1)

def safeEnv : Env safeBoard := ⟨⟨false, true, false⟩, fun _ => true, 0⟩

/-- All the suppliers have reported that there is no charge, and the port is our override. -/
def overrideWithoutCharge : State safeBoard :=
  let s₁ := (updateCharge safeEnv .pd safePort none (State.init safeBoard)).1
  let s₂ := (updateCharge safeEnv .typec safePort none s₁).1
  let s₃ := (updateCharge safeEnv .typecDts safePort none s₂).1
  (setOverride safeEnv (.port safePort) s₃).1

theorem reachable_overrideWithoutCharge (accepts : Option safeBoard.Port → Bool) :
    Reachable accepts overrideWithoutCharge := by
  have h₁ : Reachable accepts
      (updateCharge safeEnv .pd safePort none (State.init safeBoard)).1 :=
    .single (.updateCharge safeEnv .pd safePort none _ (by decide))
  have h₂ := h₁.tail (.updateCharge safeEnv .typec safePort none _ (by decide))
  have h₃ := h₂.tail (.updateCharge safeEnv .typecDts safePort none _ (by decide))
  exact h₃.tail (.setOverride safeEnv (.port safePort) _)

/-- In safe mode the override stays on a port that is not selected. -/
theorem refresh_keeps_override :
    Reachable (fun _ => true) overrideWithoutCharge ∧
    overrideWithoutCharge.deferred .refresh = true ∧
    ∃ s' events, refresh safeEnv (fun _ _ => true) overrideWithoutCharge = some (s', events) ∧
      s'.overridePort = .port safePort ∧ s'.chargePort = none :=
  ⟨reachable_overrideWithoutCharge _, by rfl, _, _, rfl, by rfl, by rfl⟩

end ChargeManager
end CrosEc
