import CrosEc.ChargeManager.Refresh

/-!
# What a second refresh does

The active port is favoured in a selection.  A second refresh therefore selects the *last*
one of the best pairs on the port that the first refresh has selected, where the first one
may have selected the *first* one of the best pairs.  Two suppliers of the same priority and
power on one port are enough for a second refresh to change the supplier
(`second_refresh_changes_supplier`); `refresh_stable_iff` says when it does not.
-/

namespace CrosEc
namespace ChargeManager

open Lib

variable {cfg : ChargeManager}

/-! ## Two refreshes -/

section Twice

variable {accepts : Option cfg.Port → Bool} {env env' : Env cfg} {s : State cfg}

/-- What a refresh that returns has done. -/
theorem refresh_cases {board : Nat → Option cfg.Port → Bool} {s₂ : State cfg}
    {events : List (Event cfg)} (h : refresh env board s = some (s₂, events)) :
    ∃ s₁ calls exit, Hunts env.system board 0 s s₁ calls exit ∧
      ((exit = .stay ∧ s₂ = s₁ ∧ events = calls) ∨
        ∃ best, exit = .select best ∧ s₂ = (applySelection env best s₁).1 ∧
          events = calls ++ (applySelection env best s₁).2) := by
  unfold refresh at h
  split at h
  · cases h
  · rename_i s₁ calls hrun
    obtain ⟨rfl, rfl⟩ := Prod.mk.inj (Option.some.inj h)
    exact ⟨s₁, calls, _, hunts_of_hunt hrun, Or.inl ⟨rfl, rfl, rfl⟩⟩
  · rename_i s₁ calls best hrun
    obtain ⟨rfl, rfl⟩ := Prod.mk.inj (Option.some.inj h)
    exact ⟨s₁, calls, _, hunts_of_hunt hrun, Or.inr ⟨best, rfl, rfl, rfl⟩⟩

/-- A charge limit, to the board or to the ramp task, or a power request. -/
def Event.isLimitOrRequest : Event cfg → Bool
  | .setChargeLimit .. => true
  | .chgRampChargeSupplierChange .. => true
  | .setNewPowerRequest _ => true
  | _ => false

/-- Two refreshes in a row return, and the second one changes neither the selection nor the
override, and issues no charge limit and no power request. -/
def Stable (accepts : Option cfg.Port → Bool) (env env' : Env cfg) (s : State cfg) : Prop :=
  ∃ s₁ events₁ s₂ events₂,
    refresh env (fun _ => accepts) s = some (s₁, events₁) ∧
    refresh env' (fun _ => accepts) s₁ = some (s₂, events₂) ∧
    s₂.chargePort = s₁.chargePort ∧ s₂.chargeSupplier = s₁.chargeSupplier ∧
    s₂.chargeCurrent = s₁.chargeCurrent ∧ s₂.chargeVoltage = s₁.chargeVoltage ∧
    s₂.overridePort = s₁.overridePort ∧ ∀ e ∈ events₂, e.isLimitOrRequest = false

/-- Where a port other than the active one is due to be selected, the first one of the best
pairs is the only one of them on its port. -/
def Settled (accepts : Option cfg.Port → Bool) (sys : System) (s : State cfg) : Prop :=
  s.overridePort = .dontCharge ∨
    (∃ x ∈ usableContenders accepts sys s, s.chargePort = some x.2) ∨
    ∀ r ∈ (usableContenders accepts sys s).head?, ∀ x ∈ usableContenders accepts sys s,
      x.2 = r.2 → x = r

instance (accepts : Option cfg.Port → Bool) (sys : System) (s : State cfg) :
    Decidable (Settled accepts sys s) := inferInstanceAs (Decidable (_ ∨ _ ∨ _))

/-- A hunt that finds the selection as it is ends at once. -/
theorem hunt_keep {sys : System} {board : Nat → Option cfg.Port → Bool} {fuel n : Nat}
    {best : Option (Pair cfg)} (hbest : getBestChargePort sys s = best)
    (hleft : s.leftSafeMode ∨ best ≠ none) (hinit : s.activeChargePortInitialized)
    (hport : best.map Prod.snd = s.chargePort) (hsupplier : best.map Prod.fst = s.chargeSupplier) :
    hunt sys board (fuel + 1) n s = some (s, [], .select best) := by
  have hstay : ¬(s.leftSafeMode = false ∧ best.map Prod.snd = none) := by
    rintro ⟨hsafe, hnone⟩
    rw [hsafe] at hleft
    exact hleft.elim (fun h => by cases h) (fun h => h (Option.map_eq_none_iff.mp hnone))
  unfold hunt
  dsimp only
  rw [hbest, if_neg hstay, if_pos ⟨hinit, hport, hsupplier⟩]

theorem hunt_stay {sys : System} {board : Nat → Option cfg.Port → Bool} {fuel n : Nat}
    (hsafe : s.leftSafeMode = false) (hbest : getBestChargePort sys s = none) :
    hunt sys board (fuel + 1) n s = some (s, [], .stay) := by
  unfold hunt
  dsimp only
  rw [hbest, if_pos ⟨hsafe, rfl⟩]

/-- A refresh that finds the selection as it is does nothing. -/
theorem refresh_again {best : Option (Pair cfg)} (hsys : env'.system = env.system)
    (hleft : s.leftSafeMode ∨ best ≠ none)
    (hbest : getBestChargePort env.system (applySelection env best s).1 = best) :
    refresh env' (fun _ => accepts) (applySelection env best s).1 =
      some ((applySelection env best s).1, []) := by
  have hkeep : hunt env'.system (fun _ => accepts) (cfg.chargePortCount + 1) 0
      (applySelection env best s).1 = some ((applySelection env best s).1, [], .select best) :=
    hunt_keep (hsys.symm ▸ hbest) hleft rfl rfl rfl
  unfold refresh
  rw [hkeep]
  show some ((applySelection env' best _).1, [] ++ (applySelection env' best _).2) = _
  rw [applySelection_again hsys]
  rfl

theorem stable_of_fixed {s₁ : State cfg} {events₁ : List (Event cfg)}
    (h₁ : refresh env (fun _ => accepts) s = some (s₁, events₁))
    (h₂ : refresh env' (fun _ => accepts) s₁ = some (s₁, [])) : Stable accepts env env' s :=
  ⟨s₁, events₁, s₁, [], h₁, h₂, rfl, rfl, rfl, rfl, rfl, by simp⟩

theorem nodup_suppliers (cfg : ChargeManager) : cfg.suppliers.Nodup := by
  unfold suppliers
  split <;> split <;> decide

theorem nodup_usableContenders (sys : System) : (usableContenders accepts sys s).Nodup := by
  have hpairs : (pairs cfg).Nodup := (nodup_suppliers cfg).product (List.nodup_finRange _)
  exact ((hpairs.filter _).filter _).filter _

/-- Without a best pair there is no usable one. -/
theorem settled_of_none {sys : System} {s' : State cfg} (hsame : SameUsable accepts s s')
    (hbest : getBestChargePort sys s' = none) : Settled accepts sys s := by
  rw [getBestChargePort_eq, ite_eq_left_iff, pick_eq_none_iff] at hbest
  by_cases hdont : s'.overridePort = .dontCharge
  · rw [hsame.frame] at hdont
    exact Or.inl hdont
  · have hnil : usableContenders accepts sys s = [] := by
      have hcandidates : candidates sys s' = [] := minima_eq_nil_iff.mp (hbest hdont)
      rw [← hsame.usableContenders_eq, usableContenders, hcandidates]
      rfl
    refine Or.inr (Or.inr ?_)
    rw [hnil]
    simp

/-- Where there is a selection, the condition is that the next one is the same. -/
theorem settled_iff {sys : System} {r : Pair cfg} (hdont : s.overridePort ≠ .dontCharge)
    (hpick : pick (onActivePort s) (usableContenders accepts sys s) = some r) :
    Settled accepts sys s ↔
      pick (fun x => some r.2 = some x.2) (usableContenders accepts sys s) = some r := by
  rw [pick_group_iff Prod.snd (nodup_usableContenders sys) hpick, Settled]
  simp only [hdont, false_or]
  apply or_congr_right'
  intro hnone
  have hhead : (usableContenders accepts sys s).head? = some r := by
    rw [← hpick]
    apply (pick_of_none_favoured _).symm
    intro x hx
    exact decide_eq_false fun hactive => hnone ⟨x, hx, hactive⟩
  rw [hhead]
  simp

/-- The next selection after one of `r`: the last one of the best pairs on its port. -/
theorem getBest_after_select {sys : System} {s' : State cfg} {r : Pair cfg} (env : Env cfg)
    (hsame : SameUsable accepts s s') (hbest : getBestChargePort sys s' = some r)
    (hacc : accepts (some r.2)) :
    ∃ r', getBestChargePort sys (applySelection env (some r) s').1 = some r' ∧ r'.2 = r.2 ∧
      pick (fun x => some r.2 = some x.2) (usableContenders accepts sys s) = some r' := by
  have hnext := (clearsIdle_of_best hbest).getBest_eq env
  have htop := mem_contenders_of_best hbest
  rw [getBestChargePort_eq, Option.ite_none_left_eq_some] at hbest
  rw [if_neg hbest.1, Option.map_some] at hnext
  rw [hnext, ← hsame.usableContenders_eq, usableContenders_of_accepted htop hacc]
  cases hpick : pick (fun x => some r.2 = some x.2) (contenders sys s') with
  | none =>
      rw [pick_eq_none_iff.mp hpick] at htop
      exact absurd htop List.not_mem_nil
  | some r' =>
      have hfav := favoured_of_pick hpick htop (decide_eq_true rfl)
      have hport : r.2 = r'.2 := Option.some.inj (of_decide_eq_true hfav)
      refine ⟨r', rfl, hport.symm, pick_filter _ hpick (hport ▸ hacc) ?_⟩
      intro _ x _ hx
      rw [← of_decide_eq_true hx]
      exact hacc

/-- A best pair that the board accepts is selected. -/
theorem refresh_select {s₂ : State cfg} {events : List (Event cfg)} {r : Pair cfg}
    (hbest : getBestChargePort env.system s = some r) (hacc : accepts (some r.2))
    (h : refresh env (fun _ => accepts) s = some (s₂, events)) :
    s₂.chargeSupplier = some r.1 := by
  obtain ⟨s₁, calls, exit, hhunts, hexit⟩ := refresh_cases h
  have hselect : exit = .select (some r) := by
    cases hhunts with
    | stay _ _ hsafe hnone =>
        rw [hbest] at hnone
        cases hnone
    | keep _ _ best hbest' => rw [← hbest', hbest]
    | accept _ _ best hbest' => rw [← hbest', hbest]
    | reject _ _ _ r' _ _ hbest' hboard =>
        obtain rfl := Option.some.inj (hbest.symm.trans hbest')
        rw [hacc] at hboard
        cases hboard
  obtain ⟨rfl, -⟩ | ⟨best, rfl, rfl, -⟩ := hexit
  · cases hselect
  · obtain rfl := HuntExit.select.inj hselect
    rfl

/-- What two refreshes do, from a state whose active port is one that the board accepts. -/
theorem stable_iff_settled (hnone : accepts none) (hs : Powered accepts s)
    (hsys : env'.system = env.system) :
    Stable accepts env env' s ↔ Settled accepts env.system s := by
  obtain ⟨s', calls, exit, hrun⟩ := hunt_charges env.system (fun _ => hnone) s
  have hhunts := hunts_of_hunt hrun
  have hsame := hhunts.sameUsable
  cases exit with
  | stay =>
      obtain ⟨hsafe, hbest⟩ := hhunts.stay_spec
      have hfirst : refresh env (fun _ => accepts) s = some (s', calls) := by
        unfold refresh
        rw [hrun]
      have hsecond : refresh env' (fun _ => accepts) s' = some (s', []) := by
        unfold refresh
        rw [hunt_stay hsafe (hsys.symm ▸ hbest)]
      exact iff_of_true (stable_of_fixed hfirst hsecond) (settled_of_none hsame hbest)
  | select best =>
      obtain ⟨hbest, hleft⟩ := hhunts.select_spec
      have hfirst : refresh env (fun _ => accepts) s =
          some ((applySelection env best s').1, calls ++ (applySelection env best s').2) := by
        unfold refresh
        rw [hrun]
      cases best with
      | none =>
          have hnext : getBestChargePort env.system (applySelection env none s').1 = none := by
            rw [(clearsIdle_of_best hbest).getBest_eq]
            rw [getBestChargePort_eq, ite_eq_left_iff, pick_eq_none_iff] at hbest
            rw [ite_eq_left_iff, pick_eq_none_iff]
            exact hbest
          exact iff_of_true (stable_of_fixed hfirst (refresh_again hsys hleft hnext))
            (settled_of_none hsame hbest)
      | some r =>
          have hacc : accepts (some r.2) := hhunts.accepted hs
          have hactive : onActivePort s' = onActivePort s := by
            rw [hsame.frame]
            rfl
          have hpick := pick_usable hbest hacc
          rw [hactive, hsame.usableContenders_eq] at hpick
          obtain ⟨r', hnext, hport, hpick'⟩ := getBest_after_select env hsame hbest hacc
          have hdont : s.overridePort ≠ .dontCharge := by
            rw [getBestChargePort_eq, Option.ite_none_left_eq_some, hsame.frame] at hbest
            exact hbest.1
          rw [settled_iff hdont hpick, hpick', Option.some.injEq]
          constructor
          · rintro ⟨s₁, events₁, s₂, events₂, h₁, h₂, -, hsupplier, -⟩
            rw [hfirst, Option.some.injEq, Prod.mk.injEq] at h₁
            obtain ⟨rfl, -⟩ := h₁
            -- the board accepts the port once more, so the new supplier is that of `r'`
            rw [← hsys] at hnext
            rw [refresh_select hnext (hport ▸ hacc) h₂] at hsupplier
            exact Prod.ext (Option.some.inj hsupplier) hport
          · rintro rfl
            exact stable_of_fixed hfirst (refresh_again hsys hleft hnext)

end Twice

/-! ## Runs -/

section Runs

variable {accepts : Option cfg.Port → Bool}

@[simp] theorem setDeferred_chargePort (s : State cfg) (routine : Deferred) (due : Bool) :
    (s.setDeferred routine due).chargePort = s.chargePort := rfl

@[simp] theorem refreshIfSeeded_chargePort (s : State cfg) :
    (refreshIfSeeded s).chargePort = s.chargePort := by
  unfold refreshIfSeeded
  split <;> rfl

@[simp] theorem setOverride_chargePort (env : Env cfg) (port : Override cfg) (s : State cfg) :
    (setOverride env port s).1.chargePort = s.chargePort := by
  have hselect : (if s.overridePort ≠ port then
      refreshIfSeeded { s with overridePort := port } else s).chargePort = s.chargePort := by
    split <;> simp
  unfold setOverride
  dsimp only
  split
  · rfl
  · cases port with
    | off => exact hselect
    | dontCharge => exact hselect
    | port p =>
        dsimp only
        split
        · exact hselect
        · split <;> rfl

@[simp] theorem removeOverride_chargePort (s : State cfg) (port : cfg.Port) (clear : Bool) :
    (removeOverride s port clear).chargePort = s.chargePort := by
  unfold removeOverride
  split
  · dsimp only
    split <;> rfl
  · rfl

@[simp] theorem storeCharge_chargePort (env : Env cfg) (s : State cfg)
    (supplier : ChargeSupplier) (port : cfg.Port) (charge : ChargePortInfo) :
    (storeCharge env s supplier port charge).chargePort = s.chargePort := by
  unfold storeCharge
  dsimp only
  split <;> rfl

@[simp] theorem makeChange_chargePort (env : Env cfg) (change : Change) (port : cfg.Port)
    (s : State cfg) : (makeChange env change port s).1.chargePort = s.chargePort := by
  unfold makeChange
  split
  · rfl
  · cases change with
    | dualrole => simp
    | charge supplier charge =>
        dsimp only
        split <;> simp

@[simp] theorem setCeil_chargePort (port : cfg.Port) (requestor : CeilRequestor) (ceil : Int)
    (s : State cfg) : (setCeil port requestor ceil s).chargePort = s.chargePort := by
  unfold setCeil
  split
  · dsimp only
    split <;> simp
  · rfl

theorem updateDualrole_chargePort (env : Env cfg) (port : cfg.Port) (cap : DualroleCapability)
    (s : State cfg) : (updateDualrole env port cap s).1.chargePort = s.chargePort := by
  unfold updateDualrole
  split <;> simp

theorem leaveSafeMode_chargePort (s : State cfg) :
    (leaveSafeMode s).chargePort = s.chargePort := by
  unfold leaveSafeMode
  split <;> simp

theorem Powered.congr {s s' : State cfg} (hs : Powered accepts s)
    (hport : s'.chargePort = s.chargePort) : Powered accepts s' := by
  intro p hp
  exact hs p (hport ▸ hp)

/-- **Step lemma.**  A port becomes active only if the board accepts it. -/
theorem Step.powered {s s' : State cfg} (hstep : Step accepts s s') (hs : Powered accepts s) :
    Powered accepts s' := by
  cases hstep with
  | updateCharge => exact hs.congr (makeChange_chargePort ..)
  | updateDualrole => exact hs.congr (updateDualrole_chargePort ..)
  | leaveSafeMode => exact hs.congr (leaveSafeMode_chargePort _)
  | setCeil => exact hs.congr (setCeil_chargePort ..)
  | forceCeil => exact hs.congr (setCeil_chargePort ..)
  | setOverride => exact hs.congr (setOverride_chargePort ..)
  | overrideTimeout => exact hs
  | chargerDetectDebounced => exact hs
  | refresh env _ _ events h hrun =>
      obtain ⟨s₁, calls, exit, hhunts, hexit⟩ := refresh_cases hrun
      obtain ⟨rfl, rfl, -⟩ | ⟨best, rfl, rfl, -⟩ := hexit
      · rw [Powered, hhunts.sameUsable.frame]
        exact hs
      · intro p hp
        obtain ⟨r, rfl, rfl⟩ : ∃ r, best = some r ∧ r.2 = p := Option.map_eq_some_iff.mp hp
        exact hhunts.accepted hs

/-- **Run lemma.** -/
theorem Reachable.powered {s : State cfg} (h : Reachable accepts s) : Powered accepts s := by
  induction h with
  | refl =>
      intro p hp
      cases hp
  | tail _ hstep ih => exact hstep.powered ih

/-- **When a refresh is stable.**  In every state that the charge manager can be in, with
every board that takes a port always or never, a second refresh changes nothing exactly if
the state before the first one is settled. -/
theorem refresh_stable_iff (accepts : Option cfg.Port → Bool) (hnone : accepts none)
    (s : State cfg) (hs : Reachable accepts s) (env env' : Env cfg)
    (hsys : env'.system = env.system) :
    Stable accepts env env' s ↔ Settled accepts env.system s :=
  stable_iff_settled hnone hs.powered hsys

/-- A board with one USB PD port. -/
def onePortBoard : ChargeManager := { twoPortBoard with usbPdPortCount := 1 }

/-- Its port. -/
def onlyPort : onePortBoard.Port := (0 : Fin 1)

/-- An unlocked system in RW, with the port as a sink. -/
def onePortEnv : Env onePortBoard := ⟨⟨false, true, false⟩, fun _ => true, 0⟩

/-- A dedicated charger is attached, without USB PD. -/
def attach (typec typecDts : Option ChargePortInfo) : State onePortBoard :=
  let s₁ := (updateDualrole onePortEnv onlyPort .dedicated (State.init onePortBoard)).1
  let s₂ := (updateCharge onePortEnv .pd onlyPort none s₁).1
  let s₃ := (updateCharge onePortEnv .typec onlyPort typec s₂).1
  (updateCharge onePortEnv .typecDts onlyPort typecDts s₃).1

theorem reachable_attach (accepts : Option onePortBoard.Port → Bool)
    (typec typecDts : Option ChargePortInfo) : Reachable accepts (attach typec typecDts) := by
  have h₁ : Reachable accepts
      (updateDualrole onePortEnv onlyPort .dedicated (State.init onePortBoard)).1 :=
    .single (.updateDualrole onePortEnv onlyPort .dedicated _)
  have h₂ := h₁.tail (.updateCharge onePortEnv .pd onlyPort none _ (by decide))
  have h₃ := h₂.tail (.updateCharge onePortEnv .typec onlyPort typec _ (by decide))
  exact h₃.tail (.updateCharge onePortEnv .typecDts onlyPort typecDts _ (by decide))

theorem refresh_stable_iff_attach :
    Reachable (fun _ => true) (attach (some ⟨3000, 5000⟩) none) ∧
    Stable (fun _ => true) onePortEnv onePortEnv (attach (some ⟨3000, 5000⟩) none) :=
  ⟨reachable_attach _ _ _,
    (refresh_stable_iff _ rfl _ (reachable_attach _ _ _) onePortEnv onePortEnv rfl).mpr
      (by decide)⟩

/-- The same charge from two suppliers of one priority: the first refresh selects the first
one, the second refresh the other one. -/
theorem second_refresh_changes_supplier :
    Reachable (fun _ => true) (attach (some ⟨500, 5000⟩) (some ⟨500, 5000⟩)) ∧
    ¬Stable (fun _ => true) onePortEnv onePortEnv
      (attach (some ⟨500, 5000⟩) (some ⟨500, 5000⟩)) := by
  refine ⟨reachable_attach _ _ _, ?_⟩
  rintro ⟨s₁, events₁, s₂, events₂, h₁, h₂, -, hsupplier, -⟩
  have honce : (refresh onePortEnv (fun _ _ => true)
      (attach (some ⟨500, 5000⟩) (some ⟨500, 5000⟩))).map (fun out => out.1.chargeSupplier) =
      some (some .typec) := by rfl
  have htwice : ((refresh onePortEnv (fun _ _ => true)
      (attach (some ⟨500, 5000⟩) (some ⟨500, 5000⟩))).bind fun out =>
        (refresh onePortEnv (fun _ _ => true) out.1).map fun out' => out'.1.chargeSupplier) =
      some (some .typecDts) := by rfl
  rw [h₁] at honce htwice
  rw [Option.bind_some, h₂, Option.map_some, Option.some.injEq, hsupplier] at htwice
  rw [Option.map_some, Option.some.injEq, htwice] at honce
  cases honce

end Runs

end ChargeManager
end CrosEc
