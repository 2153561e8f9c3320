import CrosEc.ChargeManager.Selection

/-!
# The refresh

A refresh hunts for a port that the board accepts: it takes the best one, and if the board
rejects it, zeroes its charges and looks again.  `Hunts` says what one round can do, and
`hunt_returns` that the rounds come to an end, whatever the board answers.

With a board that takes a port always or never, the hunt ends with the best pair among those
on ports that the board takes, `usableContenders`.  What follows the hunt makes the port of
that pair the active one, and clears an override that was not selected; the first changes
what the next selection favours (`ClearsIdle.getBest_eq`), the second has no influence on it.
-/

namespace CrosEc
namespace ChargeManager

open Lib

variable {cfg : ChargeManager}

/-! ## The hunt -/

section Hunt

variable {sys : System} {board : Nat → Option cfg.Port → Bool}

/-- The runs of the hunt from a state, one constructor for each way through a round. -/
inductive Hunts (sys : System) (board : Nat → Option cfg.Port → Bool) :
    Nat → State cfg → State cfg → List (Event cfg) → HuntExit cfg → Prop
  | stay (n : Nat) (s : State cfg) (hsafe : s.leftSafeMode = false)
      (hbest : getBestChargePort sys s = none) : Hunts sys board n s s [] .stay
  | keep (n : Nat) (s : State cfg) (best : Option (Pair cfg))
      (hbest : getBestChargePort sys s = best) (hleft : s.leftSafeMode ∨ best ≠ none)
      (hinit : s.activeChargePortInitialized) (hport : best.map Prod.snd = s.chargePort)
      (hsupplier : best.map Prod.fst = s.chargeSupplier) :
      Hunts sys board n s s [] (.select best)
  | accept (n : Nat) (s : State cfg) (best : Option (Pair cfg))
      (hbest : getBestChargePort sys s = best) (hleft : s.leftSafeMode ∨ best ≠ none)
      (hboard : board n (best.map Prod.snd)) :
      Hunts sys board n s s [.setActiveChargePort (best.map Prod.snd) true] (.select best)
  | reject (n : Nat) (s s' : State cfg) (r : Pair cfg) (events : List (Event cfg))
      (exit : HuntExit cfg) (hbest : getBestChargePort sys s = some r)
      (hboard : board n (some r.2) = false)
      (hrest : Hunts sys board (n + 1) (s.zeroPort r.2) s' events exit) :
      Hunts sys board n s s' (.setActiveChargePort (some r.2) false :: events) exit

/-- **Step lemma.**  What a hunt that returns has done. -/
theorem hunts_of_hunt {fuel n : Nat} {s s' : State cfg} {events : List (Event cfg)}
    {exit : HuntExit cfg} (h : hunt sys board fuel n s = some (s', events, exit)) :
    Hunts sys board n s s' events exit := by
  induction fuel generalizing n s events with
  | zero => simp [hunt] at h
  | succ fuel ih =>
      unfold hunt at h
      dsimp only at h
      split at h
      · rename_i hstay
        obtain ⟨rfl, rfl, rfl⟩ : s = s' ∧ [] = events ∧ HuntExit.stay = exit := by
          simpa using h
        exact .stay n s hstay.1 (by simpa using hstay.2)
      · rename_i hstay
        have hleft : s.leftSafeMode ∨ getBestChargePort sys s ≠ none := by
          by_contra hnot
          simp only [not_or, Bool.not_eq_true, ne_eq, not_not] at hnot
          exact hstay ⟨hnot.1, by rw [hnot.2]; rfl⟩
        split at h
        · rename_i hkeep
          obtain ⟨rfl, rfl, rfl⟩ : s = s' ∧ [] = events ∧
              HuntExit.select (getBestChargePort sys s) = exit := by simpa using h
          exact .keep n s _ rfl hleft hkeep.1 hkeep.2.1 hkeep.2.2
        · split at h
          · rename_i hboard
            obtain ⟨rfl, rfl, rfl⟩ : s = s' ∧ _ = events ∧
                HuntExit.select (getBestChargePort sys s) = exit := by simpa using h
            exact .accept n s _ rfl hleft hboard
          · rename_i hboard
            cases hbest : getBestChargePort sys s with
            | none => simp [hbest] at h
            | some r =>
                simp only [hbest, Option.map_some] at h hboard
                split at h
                · cases h
                · rename_i hrest
                  simp only [Option.some.injEq, Prod.mk.injEq] at h
                  obtain ⟨rfl, rfl, rfl⟩ := h
                  exact .reject n s _ r _ _ hbest (by simpa using hboard) (ih hrest)

/-- A round that does not return has had its port rejected, and neither do the next ones. -/
theorem hunt_eq_none (hnone : ∀ n, board n none) {fuel n : Nat} {s : State cfg}
    (h : hunt sys board (fuel + 1) n s = none) :
    ∃ r, getBestChargePort sys s = some r ∧
      hunt sys board fuel (n + 1) (s.zeroPort r.2) = none := by
  unfold hunt at h
  dsimp only at h
  split at h
  · cases h
  · split at h
    · cases h
    · split at h
      · cases h
      · rename_i hboard
        cases hbest : getBestChargePort sys s with
        | none =>
            rw [hbest] at hboard
            exact absurd (hnone n) hboard
        | some r =>
            simp only [hbest, Option.map_some] at h
            refine ⟨r, rfl, ?_⟩
            split at h
            · assumption
            · cases h

theorem mem_contenders_of_best {s : State cfg} {r : Pair cfg}
    (h : getBestChargePort sys s = some r) : r ∈ contenders sys s := by
  rw [getBestChargePort_eq, Option.ite_none_left_eq_some] at h
  exact mem_of_pick h.2

theorem charge_zeroPort (s : State cfg) (p : cfg.Port) (x : Pair cfg) :
    (s.zeroPort p).charge x =
      if x.1 ∈ cfg.suppliers ∧ x.2 = p then ⟨0, 0⟩ else s.charge x := rfl

/-- Zeroing a port takes its pairs out of the selection, and only these. -/
theorem eligible_zeroPort_iff {s : State cfg} {p : cfg.Port} {x : Pair cfg} :
    Eligible sys (s.zeroPort p) x ↔ Eligible sys s x ∧ x.2 ≠ p := by
  unfold Eligible
  rw [charge_zeroPort]
  by_cases hp : x.2 = p
  · constructor
    · rintro ⟨hmem, hcurrent, -⟩
      rw [if_pos ⟨hmem, hp⟩] at hcurrent
      exact absurd rfl hcurrent
    · rintro ⟨-, hne⟩
      exact absurd hp hne
  · rw [if_neg fun h => hp h.2]
    exact ⟨fun h => ⟨h, hp⟩, fun h => h.1⟩

/-- The ports with an eligible pair. -/
def eligiblePorts (sys : System) (s : State cfg) : Finset cfg.Port :=
  Finset.univ.filter fun p => ∃ x ∈ candidates sys s, x.2 = p

theorem eligiblePorts_zeroPort {s : State cfg} {r : Pair cfg} (hr : Eligible sys s r) :
    (eligiblePorts sys (s.zeroPort r.2)).card < (eligiblePorts sys s).card := by
  apply Finset.card_lt_card
  rw [Finset.ssubset_iff_of_subset]
  · refine ⟨r.2, ?_, ?_⟩
    · simp only [eligiblePorts, Finset.mem_filter, Finset.mem_univ, true_and]
      exact ⟨r, mem_candidates.mpr hr, rfl⟩
    · simp only [eligiblePorts, Finset.mem_filter, Finset.mem_univ, true_and]
      rintro ⟨x, hx, hxr⟩
      exact (eligible_zeroPort_iff.mp (mem_candidates.mp hx)).2 hxr
  · intro p hp
    simp only [eligiblePorts, Finset.mem_filter, Finset.mem_univ, true_and] at hp ⊢
    obtain ⟨x, hx, hxp⟩ := hp
    exact ⟨x, mem_candidates.mpr (eligible_zeroPort_iff.mp (mem_candidates.mp hx)).1, hxp⟩

/-- **The hunt ends.**  Every rejection takes a port out of the selection, so there are no
more rounds than ports with an eligible pair, and one. -/
theorem hunt_returns (hnone : ∀ n, board n none) {fuel n : Nat} {s : State cfg}
    (hfuel : (eligiblePorts sys s).card < fuel) : hunt sys board fuel n s ≠ none := by
  induction fuel generalizing n s with
  | zero => exact absurd hfuel (Nat.not_lt_zero _)
  | succ fuel ih =>
      intro hlost
      obtain ⟨r, hbest, hrest⟩ := hunt_eq_none hnone hlost
      have hr := (mem_contenders.mp (mem_contenders_of_best hbest)).1
      have hless := eligiblePorts_zeroPort hr
      exact ih (by omega) hrest

/-- A refresh returns if the board accepts `CHARGE_PORT_NONE`. -/
theorem hunt_charges (sys : System) (hnone : ∀ n, board n none) (s : State cfg) :
    ∃ s' events exit, hunt sys board (cfg.chargePortCount + 1) 0 s = some (s', events, exit) := by
  have hcard : (eligiblePorts sys s).card ≤ cfg.chargePortCount := by
    simpa using Finset.card_le_univ (eligiblePorts sys s)
  have hsome := hunt_returns hnone (n := 0) (Nat.lt_succ_of_le hcard)
  obtain ⟨⟨s', events, exit⟩, hrun⟩ := Option.ne_none_iff_exists'.mp hsome
  exact ⟨s', events, exit, hrun⟩

end Hunt

/-! ## What the board accepts -/

section Usable

variable {sys : System} {accepts : Option cfg.Port → Bool}

/-- The states differ only in the charges on ports that the board rejects. -/
structure SameUsable (accepts : Option cfg.Port → Bool) (s s' : State cfg) : Prop where
  frame : s' = { s with availableCharge := s'.availableCharge }
  charge_eq : ∀ x : Pair cfg, accepts (some x.2) → s'.charge x = s.charge x

theorem SameUsable.refl (s : State cfg) : SameUsable accepts s s := ⟨rfl, fun _ _ => rfl⟩

theorem SameUsable.zeroPort {s s' : State cfg} {p : cfg.Port} (hp : accepts (some p) = false)
    (h : SameUsable accepts (s.zeroPort p) s') : SameUsable accepts s s' := by
  constructor
  · exact h.frame
  · intro x hx
    rw [h.charge_eq x hx, charge_zeroPort, if_neg]
    rintro ⟨-, rfl⟩
    rw [hp] at hx
    cases hx

/-- The best ones of the eligible pairs on ports that the board accepts. -/
def usableContenders (accepts : Option cfg.Port → Bool) (sys : System) (s : State cfg) :
    List (Pair cfg) :=
  minima (rank s) ((candidates sys s).filter fun x => accepts (some x.2))

theorem SameUsable.eligible_iff {s s' : State cfg} (h : SameUsable accepts s s') {x : Pair cfg}
    (hx : accepts (some x.2)) : Eligible sys s' x ↔ Eligible sys s x := by
  unfold Eligible
  rw [h.charge_eq x hx, h.frame]
  exact Iff.rfl

theorem SameUsable.rank_eq {s s' : State cfg} (h : SameUsable accepts s s') {x : Pair cfg}
    (hx : accepts (some x.2)) : rank s' x = rank s x := by
  unfold rank
  rw [h.charge_eq x hx, h.frame]
  rfl

/-- They do not depend on the ports that the board rejects. -/
theorem SameUsable.usableContenders_eq {s s' : State cfg} (h : SameUsable accepts s s') :
    usableContenders accepts sys s' = usableContenders accepts sys s := by
  have hlist : (candidates sys s').filter (fun x => accepts (some x.2)) =
      (candidates sys s).filter fun x => accepts (some x.2) := by
    rw [candidates, candidates, List.filter_filter, List.filter_filter]
    apply List.filter_congr
    intro x _
    cases hx : accepts (some x.2) with
    | false => rfl
    | true =>
        rw [Bool.true_and, Bool.true_and, decide_eq_decide]
        exact h.eligible_iff hx
  rw [usableContenders, hlist]
  apply minima_congr
  intro x hx
  exact h.rank_eq (List.mem_filter.mp hx).2

theorem usableContenders_of_accepted {s : State cfg} {r : Pair cfg}
    (htop : r ∈ contenders sys s) (hr : accepts (some r.2)) :
    usableContenders accepts sys s =
      (contenders sys s).filter fun x => accepts (some x.2) := minima_filter _ htop hr

/-- The best pair of all is the best usable one, if it is usable. -/
theorem pick_usable {s : State cfg} {r : Pair cfg} (hbest : getBestChargePort sys s = some r)
    (hr : accepts (some r.2)) :
    pick (onActivePort s) (usableContenders accepts sys s) = some r := by
  have htop := mem_contenders_of_best hbest
  rw [getBestChargePort_eq, Option.ite_none_left_eq_some] at hbest
  rw [usableContenders_of_accepted htop hr]
  apply pick_filter _ hbest.2 hr
  intro hactive x _ hx
  have hport : some x.2 = some r.2 :=
    (of_decide_eq_true hx).symm.trans (of_decide_eq_true hactive)
  rw [hport]
  exact hr

/-- The active port is one that the board has accepted. -/
def Powered (accepts : Option cfg.Port → Bool) (s : State cfg) : Prop :=
  ∀ p, s.chargePort = some p → accepts (some p)

/-! The rounds of a hunt, with a board that takes a port always or never. -/

theorem Hunts.sameUsable {n : Nat} {s s' : State cfg} {events : List (Event cfg)}
    {exit : HuntExit cfg} (h : Hunts sys (fun _ => accepts) n s s' events exit) :
    SameUsable accepts s s' := by
  induction h with
  | stay => exact .refl _
  | keep => exact .refl _
  | accept => exact .refl _
  | reject n s s' r events exit hbest hboard hrest ih => exact .zeroPort hboard ih

theorem Hunts.stay_spec {n : Nat} {s s' : State cfg} {events : List (Event cfg)}
    {board : Nat → Option cfg.Port → Bool} (h : Hunts sys board n s s' events .stay) :
    s'.leftSafeMode = false ∧ getBestChargePort sys s' = none := by
  generalize hexit : HuntExit.stay = exit at h
  induction h with
  | stay n s hsafe hbest => exact ⟨hsafe, hbest⟩
  | keep => cases hexit
  | accept => cases hexit
  | reject n s s' r events exit hbest hboard hrest ih => exact ih hexit

theorem Hunts.select_spec {n : Nat} {s s' : State cfg} {events : List (Event cfg)}
    {board : Nat → Option cfg.Port → Bool} {best : Option (Pair cfg)}
    (h : Hunts sys board n s s' events (.select best)) :
    getBestChargePort sys s' = best ∧ (s'.leftSafeMode ∨ best ≠ none) := by
  generalize hexit : HuntExit.select best = exit at h
  induction h with
  | stay => cases hexit
  | keep n s best' hbest hleft =>
      obtain rfl := HuntExit.select.inj hexit
      exact ⟨hbest, hleft⟩
  | accept n s best' hbest hleft =>
      obtain rfl := HuntExit.select.inj hexit
      exact ⟨hbest, hleft⟩
  | reject n s s' r events exit hbest hboard hrest ih => exact ih hexit

/-- The selected port is one that the board accepts. -/
theorem Hunts.accepted {n : Nat} {s s' : State cfg} {events : List (Event cfg)} {r : Pair cfg}
    (h : Hunts sys (fun _ => accepts) n s s' events (.select (some r)))
    (hs : Powered accepts s) : accepts (some r.2) := by
  generalize hexit : HuntExit.select (some r) = exit at h
  induction h with
  | stay => cases hexit
  | keep n s best hbest hleft hinit hport =>
      obtain rfl := HuntExit.select.inj hexit
      exact hs r.2 hport.symm
  | accept n s best hbest hleft hboard =>
      obtain rfl := HuntExit.select.inj hexit
      exact hboard
  | reject n s s' r events exit hbest hboard hrest ih => exact ih hs hexit

end Usable

/-! ## After the selection -/

section AfterSelection

variable {sys : System} {env : Env cfg} {best : Option (Pair cfg)} {s : State cfg}

theorem clearedOverride_eq_port_iff {newPort : Option cfg.Port} {p : cfg.Port} :
    clearedOverride s newPort = .port p ↔ s.overridePort = .port p ∧ newPort = some p := by
  unfold clearedOverride
  cases s.overridePort with
  | off => simp
  | dontCharge => simp
  | port q =>
      by_cases hq : newPort = some q
      · simp only [hq, if_true]
        constructor
        · rintro h
          exact ⟨h, by rw [Override.port.inj h]⟩
        · exact fun h => h.1
      · simp only [if_neg hq]
        constructor
        · intro h
          cases h
        · rintro ⟨h, hp⟩
          exact absurd (Override.port.inj h ▸ hp) hq

theorem clearedOverride_eq_dontCharge_iff {newPort : Option cfg.Port} :
    clearedOverride s newPort = .dontCharge ↔ s.overridePort = .dontCharge := by
  unfold clearedOverride
  cases s.overridePort with
  | off => simp
  | dontCharge => simp
  | port q => by_cases hq : newPort = some q <;> simp [hq]

/-- The override is cleared only if its port has no eligible pair. -/
def ClearsIdle (sys : System) (s : State cfg) (best : Option (Pair cfg)) : Prop :=
  ∀ x, Eligible sys s x → s.overridePort = .port x.2 → best.map Prod.snd = some x.2

theorem ClearsIdle.override_iff (h : ClearsIdle sys s best) {x : Pair cfg}
    (hx : Eligible sys s x) :
    (applySelection env best s).1.overridePort = .port x.2 ↔ s.overridePort = .port x.2 := by
  show clearedOverride s (best.map Prod.snd) = .port x.2 ↔ _
  rw [clearedOverride_eq_port_iff]
  exact ⟨fun hover => hover.1, fun hover => ⟨hover, h x hx hover⟩⟩

/-- Clearing the override takes nothing away that can be selected. -/
theorem ClearsIdle.eligible_iff (h : ClearsIdle sys s best) {x : Pair cfg} :
    Eligible sys (applySelection env best s).1 x ↔ Eligible sys s x := by
  constructor
  · rintro ⟨hmem, hcurrent, hvoltage, hrole⟩
    refine ⟨hmem, hcurrent, hvoltage, ?_⟩
    obtain hdrp | hcap | hover | hspoof := hrole
    · exact Or.inl hdrp
    · exact Or.inr (Or.inl hcap)
    · exact Or.inr (Or.inr (Or.inl (clearedOverride_eq_port_iff.mp hover).1))
    · exact Or.inr (Or.inr (Or.inr hspoof))
  · intro hx
    obtain ⟨hmem, hcurrent, hvoltage, hrole⟩ := id hx
    refine ⟨hmem, hcurrent, hvoltage, ?_⟩
    obtain hdrp | hcap | hover | hspoof := hrole
    · exact Or.inl hdrp
    · exact Or.inr (Or.inl hcap)
    · exact Or.inr (Or.inr (Or.inl ((h.override_iff hx).mpr hover)))
    · exact Or.inr (Or.inr (Or.inr hspoof))

theorem ClearsIdle.contenders_eq (h : ClearsIdle sys s best) :
    contenders sys (applySelection env best s).1 = contenders sys s := by
  have hcandidates : candidates sys (applySelection env best s).1 = candidates sys s := by
    apply List.filter_congr
    intro x _
    rw [decide_eq_decide]
    exact h.eligible_iff
  rw [contenders, contenders, hcandidates]
  apply minima_congr
  intro x hx
  have hover : overrideRank (applySelection env best s).1 x.2 = overrideRank s x.2 :=
    if_congr (h.override_iff (mem_candidates.mp hx)) rfl rfl
  unfold rank
  rw [hover]
  rfl

/-- The next selection favours the selected port. -/
theorem ClearsIdle.getBest_eq (h : ClearsIdle sys s best) (env : Env cfg) :
    getBestChargePort sys (applySelection env best s).1 =
      if s.overridePort = .dontCharge then none
      else pick (fun x => best.map Prod.snd = some x.2) (contenders sys s) := by
  have hdont : (applySelection env best s).1.overridePort = .dontCharge ↔
      s.overridePort = .dontCharge := clearedOverride_eq_dontCharge_iff
  rw [getBestChargePort_eq, h.contenders_eq]
  exact if_congr hdont rfl rfl

/-- What was selected is the best there is. -/
theorem clearsIdle_of_best (hbest : getBestChargePort sys s = best) : ClearsIdle sys s best := by
  intro x hx hover
  cases best with
  | none =>
      rw [getBestChargePort_eq, ite_eq_left_iff, pick_eq_none_iff, contenders_eq_nil_iff] at hbest
      exact absurd hx (hbest (by rw [hover]; simp) x)
  | some r =>
      rw [Option.map_some, contender_on_override (mem_contenders_of_best hbest) hover hx rfl]

/-- Selecting the same pair once more changes nothing. -/
theorem applySelection_again {env' : Env cfg} (hsys : env'.system = env.system) :
    applySelection env' best (applySelection env best s).1 =
      ((applySelection env best s).1, []) := by
  have huncapped : newChargeCurrentUncapped env'.system (applySelection env best s).1 best =
      newChargeCurrentUncapped env.system s best := by
    rw [hsys]
    cases best <;> rfl
  have hcurrent : newChargeCurrent env'.system (applySelection env best s).1 best =
      newChargeCurrent env.system s best := by
    rw [hsys]
    cases best <;> rfl
  have hvoltage : newChargeVoltage (applySelection env best s).1 best = newChargeVoltage s best := by
    cases best <;> rfl
  have hoverride : clearedOverride (applySelection env best s).1 (best.map Prod.snd) =
      clearedOverride s (best.map Prod.snd) := by
    have hport : (applySelection env best s).1.overridePort =
        clearedOverride s (best.map Prod.snd) := rfl
    rw [clearedOverride, hport]
    cases hcleared : clearedOverride s (best.map Prod.snd) with
    | off => rfl
    | dontCharge => rfl
    | port p => exact if_pos (clearedOverride_eq_port_iff.mp hcleared).2
  rw [applySelection, huncapped, hcurrent, hvoltage, hoverride]
  simp [applySelection, newPowerRequest]

end AfterSelection

end ChargeManager
end CrosEc
