import CrosEc.ChargeManager.Model
import CrosEc.Lib.Scan

/-!
# The best charge port

`charge_manager_get_best_charge_port` walks once over the table of charges, suppliers in the
outer loop and ports in the inner one, and decides each time between two pairs only.  Its
compound condition is the comparison of one key, `rank`: the override port first, then the
priority of the supplier, then the power.  The walk is therefore a scan in the sense of
`Lib.Scan`, and what it returns is known for every table (`getBestChargePort_eq`).
-/

namespace CrosEc
namespace ChargeManager

open Lib

variable {cfg : ChargeManager}

/-- A supplier on a port. -/
abbrev Pair (cfg : ChargeManager) := ChargeSupplier × cfg.Port

/-- What a pair offers. -/
abbrev State.charge (s : State cfg) (x : Pair cfg) : ChargePortInfo := s.availableCharge x.1 x.2

/-- A pair that can be charged from: it has a charge, and the port is that of a dedicated
charger, or counts as one, or is our override port. -/
def Eligible (sys : System) (s : State cfg) (x : Pair cfg) : Prop :=
  x.1 ∈ cfg.suppliers ∧ (s.charge x).current ≠ 0 ∧ (s.charge x).voltage ≠ 0 ∧
    (cfg.drpCharging ∨ s.dualroleCapability x.2 = .dedicated ∨ s.overridePort = .port x.2 ∨
      spoofDualroleCapability sys s)

instance (sys : System) (s : State cfg) (x : Pair cfg) : Decidable (Eligible sys s x) :=
  inferInstanceAs (Decidable (_ ∧ _))

/-- The pairs in the order of the two loops. -/
def pairs (cfg : ChargeManager) : List (Pair cfg) := cfg.suppliers.product cfg.ports

/-- The eligible pairs in the order of the two loops. -/
def candidates (sys : System) (s : State cfg) : List (Pair cfg) :=
  (pairs cfg).filter (Eligible sys s)

/-- The override port comes before the others. -/
def overrideRank (s : State cfg) (p : cfg.Port) : ℕ := if s.overridePort = .port p then 0 else 1

/-- The key of the comparison; a lower one is better. -/
def rank (s : State cfg) (x : Pair cfg) : ℕ ×ₗ ℤ ×ₗ ℤ :=
  toLex (overrideRank s x.2, toLex (cfg.priority x.1, -(s.charge x).power))

/-- The pair is on the active charge port. -/
def onActivePort (s : State cfg) (x : Pair cfg) : Bool := s.chargePort = some x.2

/-- The eligible pairs that no other one beats. -/
def contenders (sys : System) (s : State cfg) : List (Pair cfg) :=
  minima (rank s) (candidates sys s)

variable {sys : System} {s : State cfg}

theorem mem_pairs {x : Pair cfg} : x ∈ pairs cfg ↔ x.1 ∈ cfg.suppliers := by
  obtain ⟨i, j⟩ := x
  simp [pairs, ports, List.pair_mem_product]

theorem mem_candidates {x : Pair cfg} :
    x ∈ candidates sys s ↔ Eligible sys s x := by
  rw [candidates, List.mem_filter, mem_pairs, decide_eq_true_eq]
  exact ⟨fun h => h.2, fun h => ⟨h.1, h⟩⟩

/-! ## The comparison is one of ranks -/

theorem overrideRank_lt_iff {p q : cfg.Port} :
    overrideRank s p < overrideRank s q ↔
      s.overridePort = .port p ∧ s.overridePort ≠ .port q := by
  unfold overrideRank
  split <;> split <;> simp_all

theorem overrideRank_eq_iff {p q : cfg.Port} :
    overrideRank s p = overrideRank s q ↔
      (s.overridePort = .port p ↔ s.overridePort = .port q) := by
  unfold overrideRank
  split <;> split <;> simp_all

theorem rank_lt_iff {x b : Pair cfg} :
    rank s x < rank s b ↔
      (s.overridePort = .port x.2 ∧ s.overridePort ≠ .port b.2) ∨
      ((s.overridePort = .port x.2 ↔ s.overridePort = .port b.2) ∧
        (cfg.priority x.1 < cfg.priority b.1 ∨
          cfg.priority x.1 = cfg.priority b.1 ∧ (s.charge b).power < (s.charge x).power)) := by
  simp only [rank, Prod.Lex.toLex_lt_toLex, neg_lt_neg_iff, overrideRank_lt_iff,
    overrideRank_eq_iff]

theorem rank_eq_iff {x b : Pair cfg} :
    rank s x = rank s b ↔
      (s.overridePort = .port x.2 ↔ s.overridePort = .port b.2) ∧
        cfg.priority x.1 = cfg.priority b.1 ∧ (s.charge x).power = (s.charge b).power := by
  simp only [rank, toLex_inj, Prod.mk.injEq, neg_inj, overrideRank_eq_iff]

/-- The condition of the loop, with the skip of a port that is not the override port. -/
theorem beats_iff {x b : Pair cfg} :
    rank s x < rank s b ∨ rank s x = rank s b ∧ onActivePort s x ↔
      ¬(s.overridePort = .port b.2 ∧ s.overridePort ≠ .port x.2) ∧
        (cfg.priority x.1 < cfg.priority b.1 ∨
          (s.overridePort = .port x.2 ∧ s.overridePort ≠ .port b.2) ∨
          (cfg.priority x.1 = cfg.priority b.1 ∧
            ((s.charge b).power < (s.charge x).power ∨
              (s.charge x).power = (s.charge b).power ∧ s.chargePort = some x.2))) := by
  rw [rank_lt_iff, rank_eq_iff, onActivePort, decide_eq_true_eq]
  tauto

/-- What the loop remembers of a pair. -/
def toBest (s : State cfg) (x : Pair cfg) : Best cfg := ⟨x.1, x.2, (s.charge x).power⟩

/-- A pair that is not eligible is skipped. -/
theorem considerCharge_skip {i : ChargeSupplier} {j : cfg.Port}
    (hi : i ∈ cfg.suppliers) (hskip : ¬Eligible sys s (i, j)) (best : Option (Best cfg)) :
    considerCharge sys s best i j = best := by
  unfold considerCharge
  dsimp only
  split
  · rfl
  · rename_i hcharge
    obtain ⟨hcurrent, hvoltage⟩ := not_or.mp hcharge
    split
    · rfl
    · -- there is a charge, so it is the dual-role filter that skips the pair
      have hrole : ¬(cfg.drpCharging ∨ s.dualroleCapability j = .dedicated ∨
          s.overridePort = .port j ∨ spoofDualroleCapability sys s) :=
        fun hrole => hskip ⟨hi, hcurrent, hvoltage, hrole⟩
      simp only [not_or, Bool.not_eq_true] at hrole
      exact if_pos hrole

/-- **Step lemma.**  The body of the loop keeps the better one by rank. -/
theorem considerCharge_eligible {i : ChargeSupplier}
    {j : cfg.Port} (hel : Eligible sys s (i, j)) (best : Option (Pair cfg)) :
    considerCharge sys s (best.map (toBest s)) i j =
      (keepBetter (rank s) (onActivePort s) best (i, j)).map (toBest s) := by
  obtain ⟨-, hcurrent, hvoltage, hrole⟩ := hel
  have hcharge : ¬((s.availableCharge i j).current = 0 ∨ (s.availableCharge i j).voltage = 0) :=
    not_or.mpr ⟨hcurrent, hvoltage⟩
  have hfilter : ¬(cfg.drpCharging = false ∧ s.dualroleCapability j ≠ .dedicated ∧
      s.overridePort ≠ .port j ∧ spoofDualroleCapability sys s = false) := by
    rintro ⟨hdrp, hcap, hover, hspoof⟩
    simp [hdrp, hcap, hover, hspoof] at hrole
  unfold considerCharge
  dsimp only
  rw [if_neg hcharge]
  cases best with
  | none =>
      rw [if_neg (by simp), if_neg hfilter]
      rfl
  | some b =>
      rw [Option.map_some, if_neg hfilter]
      show _ = Option.map (toBest s) (if rank s (i, j) < rank s b ∨ rank s (i, j) = rank s b ∧
        onActivePort s (i, j) then some (i, j) else some b)
      by_cases hskip : s.overridePort = .port b.2 ∧ s.overridePort ≠ .port j
      · -- a charge on the override port is kept
        have hguard : s.overridePort ≠ .off ∧
            (∃ b' ∈ some (toBest s b), s.overridePort = .port b'.port) ∧
            s.overridePort ≠ .port j :=
          ⟨by simp [hskip.1], ⟨toBest s b, rfl, hskip.1⟩, hskip.2⟩
        rw [if_pos hguard, if_neg fun h => (beats_iff.mp h).1 hskip]
        rfl
      · have hguard : ¬(s.overridePort ≠ .off ∧
            (∃ b' ∈ some (toBest s b), s.overridePort = .port b'.port) ∧
            s.overridePort ≠ .port j) := by
          rintro ⟨-, ⟨b', hb', hover⟩, hj⟩
          obtain rfl := Option.mem_some_iff.mp hb'
          exact hskip ⟨hover, hj⟩
        rw [if_neg hguard]
        by_cases hcond : cfg.priority i < cfg.priority b.1 ∨
            (s.overridePort = .port j ∧ s.overridePort ≠ .port b.2) ∨
            (cfg.priority i = cfg.priority b.1 ∧
              ((s.charge b).power < (s.charge (i, j)).power ∨
                (s.charge (i, j)).power = (s.charge b).power ∧ s.chargePort = some j))
        · rw [if_pos (beats_iff.mpr ⟨hskip, hcond⟩)]
          exact if_pos hcond
        · rw [if_neg fun h => hcond (beats_iff.mp h).2]
          exact if_neg hcond

/-- **Run lemma.**  The two loops together. -/
theorem foldl_considerCharge (sys : System) (s : State cfg) (l : List (Pair cfg))
    (hl : ∀ x ∈ l, x.1 ∈ cfg.suppliers) (best : Option (Pair cfg)) :
    l.foldl (fun b x => considerCharge sys s b x.1 x.2) (best.map (toBest s)) =
      ((l.filter (Eligible sys s)).foldl (keepBetter (rank s) (onActivePort s)) best).map
        (toBest s) := by
  induction l generalizing best with
  | nil => rfl
  | cons x l ih =>
      have htail : ∀ y ∈ l, y.1 ∈ cfg.suppliers := fun y hy => hl y (List.mem_cons_of_mem _ hy)
      rw [List.foldl_cons]
      by_cases hel : Eligible sys s x
      · rw [considerCharge_eligible hel, ih htail, List.filter_cons_of_pos (by simpa using hel),
          List.foldl_cons]
      · rw [considerCharge_skip (hl x List.mem_cons_self) hel, ih htail,
          List.filter_cons_of_neg (by simpa using hel)]

/-- **The selection.**  Of the eligible pairs that no other one beats, the last one on the
active port, or else the first one. -/
theorem getBestChargePort_eq (sys : System) (s : State cfg) :
    getBestChargePort sys s =
      if s.overridePort = .dontCharge then none
      else pick (onActivePort s) (contenders sys s) := by
  have hloops : cfg.suppliers.foldl
      (fun best i => cfg.ports.foldl (fun best j => considerCharge sys s best i j) best) none =
      (pairs cfg).foldl (fun b x => considerCharge sys s b x.1 x.2) none := by
    simp only [pairs, List.product, List.foldl_flatMap, List.foldl_map]
  have hscan := foldl_considerCharge sys s (pairs cfg) (fun x hx => mem_pairs.mp hx) none
  rw [Option.map_none] at hscan
  unfold getBestChargePort
  dsimp only
  rw [hloops, hscan, Option.map_map]
  show (if _ then none else Option.map _ (scan (rank s) (onActivePort s) (candidates sys s))) = _
  rw [scan_eq_pick]
  have hid : (fun b : Best cfg => (b.supplier, b.port)) ∘ toBest s = id := rfl
  rw [hid, Option.map_id, id, contenders]

/-! ## The optimum -/

theorem contenders_eq_nil_iff :
    contenders sys s = [] ↔ ∀ x, ¬Eligible sys s x := by
  rw [contenders, minima_eq_nil_iff, candidates, List.filter_eq_nil_iff]
  constructor
  · intro h x hel
    exact h x (mem_pairs.mpr hel.1) (decide_eq_true hel)
  · intro h x _ hel
    exact h x (of_decide_eq_true hel)

theorem mem_contenders {r : Pair cfg} :
    r ∈ contenders sys s ↔ Eligible sys s r ∧ ∀ x, Eligible sys s x → rank s r ≤ rank s x := by
  simp only [contenders, mem_minima, mem_candidates]

/-- A contender is on the override port if that has an eligible pair. -/
theorem contender_on_override {r x : Pair cfg} {q : cfg.Port}
    (hr : r ∈ contenders sys s) (hq : s.overridePort = .port q) (hx : Eligible sys s x)
    (hxq : x.2 = q) : r.2 = q := by
  by_contra hne
  have hlt : rank s x < rank s r := by
    rw [rank_lt_iff, hxq, hq]
    exact Or.inl ⟨rfl, fun h => hne (Override.port.inj h).symm⟩
  exact absurd ((mem_contenders.mp hr).2 x hx) (not_le.mpr hlt)

/-- The pairs that are still eligible when the override port, if it has an eligible pair,
has excluded the other ports. -/
def Remaining (sys : System) (s : State cfg) (x : Pair cfg) : Prop :=
  Eligible sys s x ∧
    ∀ q, s.overridePort = .port q → (∃ y, Eligible sys s y ∧ y.2 = q) → x.2 = q

/-- A remaining pair is on the override port exactly if the contenders are. -/
theorem Remaining.override_iff {r x : Pair cfg}
    (hx : Remaining sys s x) (hr : r ∈ contenders sys s) :
    s.overridePort = .port x.2 ↔ s.overridePort = .port r.2 := by
  constructor
  · intro hq
    rw [contender_on_override hr hq hx.1 rfl]
    exact hq
  · intro hq
    rw [hx.2 r.2 hq ⟨r, (mem_contenders.mp hr).1, rfl⟩]
    exact hq

/-- Among the remaining pairs, the ranks compare the priorities and the powers. -/
theorem contender_le {r x : Pair cfg}
    (hr : r ∈ contenders sys s) (hx : Remaining sys s x) :
    cfg.priority r.1 ≤ cfg.priority x.1 ∧
      (cfg.priority x.1 = cfg.priority r.1 → (s.charge x).power ≤ (s.charge r).power) := by
  have hle : ¬rank s x < rank s r := not_lt.mpr ((mem_contenders.mp hr).2 x hx.1)
  constructor
  · by_contra hlt
    exact hle (rank_lt_iff.mpr (Or.inr ⟨hx.override_iff hr, Or.inl (not_le.mp hlt)⟩))
  · intro htie
    by_contra hlt
    exact hle (rank_lt_iff.mpr (Or.inr ⟨hx.override_iff hr, Or.inr ⟨htie, not_le.mp hlt⟩⟩))

/-- A remaining pair with the same priority and power as a contender is one too. -/
theorem contender_of_tie {r x : Pair cfg}
    (hr : r ∈ contenders sys s) (hx : Remaining sys s x)
    (hpriority : cfg.priority x.1 = cfg.priority r.1)
    (hpower : (s.charge x).power = (s.charge r).power) : x ∈ contenders sys s := by
  have hrank : rank s x = rank s r := rank_eq_iff.mpr ⟨hx.override_iff hr, hpriority, hpower⟩
  rw [mem_contenders, hrank]
  exact ⟨hx.1, (mem_contenders.mp hr).2⟩

/-- The table has charges that are not negative, with products that fit an `int`. -/
def Fits (s : State cfg) : Prop :=
  ∀ x, x.1 ∈ cfg.suppliers → 0 ≤ (s.charge x).current ∧ 0 ≤ (s.charge x).voltage ∧
    (s.charge x).current * (s.charge x).voltage < 2 ^ 31

theorem Fits.power_eq (h : Fits s) {x : Pair cfg} (hx : x.1 ∈ cfg.suppliers) :
    (s.charge x).power = (s.charge x).current * (s.charge x).voltage := by
  obtain ⟨hcurrent, hvoltage, hlt⟩ := h x hx
  have hnonneg := mul_nonneg hcurrent hvoltage
  apply Int.bmod_eq_of_le <;> omega

/-- **Selection is the documented optimum.**  For every table: nothing is selected exactly if
the override says so or no pair is eligible.  Otherwise the selected pair is eligible, is on
the override port if that has an eligible pair, and has among the pairs that remain the best
priority, among those the most power, and is on the active port if a pair there is as good. -/
theorem getBestChargePort_optimal (sys : System) (s : State cfg) (hfits : Fits s) :
    (getBestChargePort sys s = none ↔
      s.overridePort = .dontCharge ∨ ∀ x, ¬Eligible sys s x) ∧
    ∀ r, getBestChargePort sys s = some r →
      Eligible sys s r ∧
      (∀ q, s.overridePort = .port q → (∃ x, Eligible sys s x ∧ x.2 = q) → r.2 = q) ∧
      ∀ x, Remaining sys s x →
        cfg.priority r.1 ≤ cfg.priority x.1 ∧
        (cfg.priority x.1 = cfg.priority r.1 →
          (s.charge x).current * (s.charge x).voltage ≤
              (s.charge r).current * (s.charge r).voltage ∧
          ((s.charge x).current * (s.charge x).voltage =
              (s.charge r).current * (s.charge r).voltage →
            s.chargePort = some x.2 → s.chargePort = some r.2)) := by
  rw [getBestChargePort_eq]
  constructor
  · rw [ite_eq_left_iff, pick_eq_none_iff, contenders_eq_nil_iff]
    tauto
  · intro r hbest
    rw [Option.ite_none_left_eq_some] at hbest
    have hr : r ∈ contenders sys s := mem_of_pick hbest.2
    have hel := (mem_contenders.mp hr).1
    refine ⟨hel, ?_, ?_⟩
    · rintro q hq ⟨x, hx, hxq⟩
      exact contender_on_override hr hq hx hxq
    · intro x hx
      obtain ⟨hpriority, hpower⟩ := contender_le hr hx
      rw [← hfits.power_eq hx.1.1, ← hfits.power_eq hel.1]
      refine ⟨hpriority, fun htie => ⟨hpower htie, fun heq hactive => ?_⟩⟩
      have hx_top := contender_of_tie hr hx htie heq
      have hfav : onActivePort s r := favoured_of_pick hbest.2 hx_top (decide_eq_true hactive)
      exact of_decide_eq_true hfav

/-- A board with two USB PD ports and the suppliers that every board has. -/
def twoPortBoard : ChargeManager where
  usbPdPortCount := 2
  dedicatedChargePortCount := 0
  bc12 := false
  drpCharging := false
  safeMode := false
  ramp := .none
  priority := supplierPriority
  usbChargerRampAllowed := fun _ => false
  usbChargerRampMax := fun _ supCurr => supCurr

/-- The same Type-C charge on both ports of the board, with the second one active. -/
def sameOnBothPorts : State twoPortBoard :=
  { State.init twoPortBoard with
    availableCharge := fun i _ => if i = .typec then ⟨3000, 5000⟩ else ⟨0, 0⟩
    dualroleCapability := fun _ => .dedicated
    chargePort := some (1 : Fin 2) }

theorem getBestChargePort_optimal_sameOnBothPorts :
    Fits sameOnBothPorts ∧
    getBestChargePort ⟨false, true, true⟩ sameOnBothPorts = some (.typec, (1 : Fin 2)) ∧
    ∀ x, Remaining ⟨false, true, true⟩ sameOnBothPorts x →
      supplierPriority .typec ≤ supplierPriority x.1 := by
  have hfits : Fits sameOnBothPorts := by
    intro x _
    unfold State.charge sameOnBothPorts
    dsimp only
    split <;> decide
  have hbest : getBestChargePort ⟨false, true, true⟩ sameOnBothPorts =
      some (.typec, (1 : Fin 2)) := by rfl
  refine ⟨hfits, hbest, fun x hx => ?_⟩
  exact (((getBestChargePort_optimal _ _ hfits).2 _ hbest).2.2 x hx).1

end ChargeManager
end CrosEc
