import CrosEc.PdPolicy.BestOffer

/-!
# When the request is the best one

The sink asks for the best offer within its limits, for no more than is offered, and in a way that
the source accepts, exactly when no battery comes first in the order of the loop, but for the
corner where the board's limits leave less than one unit of power.
-/

namespace CrosEc
namespace PdPolicy

open Lib

variable {b : Board} {maxRequestMv : BitVec 32} {srcCaps : List (BitVec 32)} {pdo : BitVec 32}
  {c : Choice} {r : Request}

/-- The operating field of an RDO, bits 19 to 10. -/
def rdoOp (rdo : BitVec 32) : Nat := ((rdo >>> 10) &&& 0x3FF#32).toNat

/-- The maximum field of an RDO, bits 9 to 0. -/
def rdoMax (rdo : BitVec 32) : Nat := (rdo &&& 0x3FF#32).toNat

/-- What is requested, in the units of the PDO. -/
def requestedUnits (pdo : BitVec 32) (r : Request) : Nat :=
  if IsBattery pdo then r.ma * r.mv / 1000 / 250 else r.ma / 10

/-- The request `r` is for `pdo`, which is the best offer, and it is one that the source of the
offers accepts. -/
structure IsBestRequest (b : Board) (maxRequestMv : BitVec 32) (srcCaps : List (BitVec 32))
    (r : Request) (pdo : BitVec 32) : Prop where
  pos : rdoPos r.rdo ≠ 0
  named : srcCaps[rdoPos r.rdo - 1]? = some pdo
  candidate : Candidate b maxRequestMv pdo
  best : ∀ other ∈ srcCaps, Candidate b maxRequestMv other → cappedUw b other ≤ cappedUw b pdo
  mv_eq : r.mv = pdoMv pdo
  ma_le : r.ma ≤ b.maxCurrentMa
  power_le : r.ma * r.mv ≤ min (1000 * b.maxPowerMw) (offeredUw pdo)
  op_eq : rdoOp r.rdo = requestedUnits pdo r
  max_eq : rdoMax r.rdo = requestedUnits pdo r
  accepted : pdCheckRequestedVoltage r.rdo srcCaps = ecSuccess

/-- `pd_build_request(PD_REQUEST_MAX)` does not overflow, and its request is the best one if there
is anything to ask for. -/
def AsksForTheBest (b : Board) (maxRequestMv : BitVec 32) (srcCaps : List (BitVec 32)) : Prop :=
  ∃ r, pdBuildRequest b srcCaps maxRequestMv .max = some r ∧
    ((∃ pdo ∈ srcCaps, Candidate b maxRequestMv pdo) →
      ∃ pdo, IsBestRequest b maxRequestMv srcCaps r pdo)

/-- A battery that comes first offers no more than 2 W, or has no voltage at all; and if it offers
anything, then the limits of the board leave less than 250 mW of it, and nothing else offers more
within these limits. -/
def BatteriesHarmless (b : Board) (maxRequestMv : BitVec 32) (srcCaps : List (BitVec 32)) : Prop :=
  ∀ c pdo, ComesFirst b maxRequestMv srcCaps c → srcCaps[c.ret]? = some pdo →
    IsBattery pdo → pdoMv pdo ≠ 0 →
      pdoUnits pdo ≤ 8 ∧
        (0 < c.curUw → boardMa b pdo * pdoMv pdo < 250000 ∧
          ∀ other ∈ srcCaps, Candidate b maxRequestMv other → cappedUw b other ≤ cappedUw b pdo)

/-! ## The source -/

/-- The source accepts what names one of its PDOs and asks for no more units than that one has. -/
theorem pdCheckRequestedVoltage_accepts {i : Nat} {rdo : BitVec 32} (hget : srcCaps[i]? = some pdo)
    (hpos : rdoPos rdo = i + 1) (hop : rdoOp rdo ≤ pdoUnits pdo) (hmax : rdoMax rdo ≤ pdoUnits pdo) :
    pdCheckRequestedVoltage rdo srcCaps = ecSuccess := by
  obtain ⟨hi, -⟩ := List.getElem?_eq_some_iff.mp hget
  have hboard : pdBoardCheckRequest rdo srcCaps.length = ecSuccess := by
    rw [pdBoardCheckRequest, if_neg (by omega)]
  have hpdo : srcCaps.getD (rdoPos rdo - 1) 0 = pdo := by
    rw [hpos, Nat.add_sub_cancel, List.getD_eq_getElem?_getD, hget]
    rfl
  rw [rdoOp] at hop
  rw [rdoMax] at hmax
  rw [pdCheckRequestedVoltage, hpdo, hboard, if_neg (by simp)]
  rw [if_neg (not_lt.mpr hop), if_neg (fun h => absurd h.1 (not_lt.mpr hmax))]

/-! ## The request for a fixed or variable supply -/

theorem fixedMa_le_units (b : Board) (pdo : BitVec 32) : fixedMa b pdo ≤ 10 * pdoUnits pdo := by
  rw [fixedMa]
  omega

theorem requestFor_fixed {i : Nat} (hbatt : ¬ IsBattery pdo)
    (hoperating : 1000 * b.operatingPowerMw < 2 ^ 31) :
    requestFor b i pdo = some ⟨rdoFixed (i + 1) (fixedMa b pdo) (fixedMa b pdo)
      (mismatchFlags b (fixedMa b pdo * pdoMv pdo)), fixedMa b pdo, pdoMv pdo⟩ := by
  have hfits : fixedMa b pdo * pdoMv pdo < 2 ^ 31 :=
    (fixedMa_mul_le b pdo).trans_lt b.maxPowerUw_fits
  rw [requestFor_of_extract (pdExtractPdoPower_fixed hbatt) hfits, if_pos hoperating,
    if_neg hbatt]

theorem fixed_isBestRequest (hbatt : ¬ IsBattery pdo) {i : Nat} (hget : srcCaps[i]? = some pdo)
    (hi : i < 7) (hcand : Candidate b maxRequestMv pdo)
    (hbest : ∀ other ∈ srcCaps, Candidate b maxRequestMv other →
      comparedUw b other ≤ comparedUw b pdo) {flags : BitVec 32}
    (hflags : flags = rdoCapMismatch ∨ flags = 0#32) :
    IsBestRequest b maxRequestMv srcCaps
      ⟨rdoFixed (i + 1) (fixedMa b pdo) (fixedMa b pdo) flags, fixedMa b pdo, pdoMv pdo⟩ pdo := by
  have hunits := pdoUnits_lt pdo
  have hma := fixedMa_le_units b pdo
  have hpos : rdoPos (rdoFixed (i + 1) (fixedMa b pdo) (fixedMa b pdo) flags) = i + 1 := by
    rw [rdoFixed_eq]
    exact rdoFields_pos (by lia) hflags
  have hop : rdoOp (rdoFixed (i + 1) (fixedMa b pdo) (fixedMa b pdo) flags) =
      fixedMa b pdo / 10 := by
    rw [rdoOp, rdoFixed_eq, rdoFields_op hflags]
    exact mask10 _ (by lia)
  have hmax : rdoMax (rdoFixed (i + 1) (fixedMa b pdo) (fixedMa b pdo) flags) =
      fixedMa b pdo / 10 := by
    rw [rdoMax, rdoFixed_eq, rdoFields_max hflags]
    exact mask10 _ (by lia)
  constructor
  case pos => rw [hpos]; lia
  case named => rw [hpos]; exact hget
  case candidate => exact hcand
  case best =>
    intro other hother hcand'
    rw [cappedUw_of_not_battery hbatt]
    exact (cappedUw_le_comparedUw b other).trans (hbest other hother hcand')
  case mv_eq => rfl
  case ma_le => exact Nat.min_le_right _ _
  case power_le =>
    rw [offeredUw, if_neg hbatt, Nat.mul_comm 1000]
    exact le_min (fixedMa_mul_le b pdo) (Nat.mul_le_mul_right _ hma)
  case op_eq => rw [hop, requestedUnits, if_neg hbatt]
  case max_eq => rw [hmax, requestedUnits, if_neg hbatt]
  case accepted =>
    apply pdCheckRequestedVoltage_accepts hget hpos
    · rw [hop]; lia
    · rw [hmax]; lia

/-! ## The request for a battery -/

/-- The power in the request for a battery, in mW. -/
def batteryMw (b : Board) (pdo : BitVec 32) : Nat := boardMa b pdo * pdoMv pdo / 1000

theorem requestFor_battery {i : Nat} (hbatt : IsBattery pdo) (hmv : pdoMv pdo ≠ 0)
    (hpower : pdoUnits pdo ≠ 0) (hsmall : pdoUnits pdo ≤ 8)
    (hoperating : 1000 * b.operatingPowerMw < 2 ^ 31) :
    requestFor b i pdo = some ⟨rdoBatt (i + 1) (batteryMw b pdo) (batteryMw b pdo)
      (mismatchFlags b (boardMa b pdo * pdoMv pdo)), boardMa b pdo, pdoMv pdo⟩ := by
  have hextract : pdExtractPdoPower b pdo = some (boardMa b pdo, pdoMv pdo) := by
    rw [pdExtractPdoPower_battery hbatt hmv, if_pos hsmall, if_neg hpower]
  have hfits : boardMa b pdo * pdoMv pdo < 2 ^ 31 :=
    (boardMa_mul_le b pdo).trans_lt b.maxPowerUw_fits
  rw [requestFor_of_extract hextract hfits, if_pos hoperating, if_pos hbatt]
  rfl

/-- The maximum field of a request for a battery is empty. -/
theorem rdoMax_rdoBatt {n mw : Nat} {flags : BitVec 32}
    (hflags : flags = rdoCapMismatch ∨ flags = 0#32) : rdoMax (rdoBatt n mw mw flags) = 0 := by
  rw [rdoMax, rdoBatt_eq, rdoFields_max hflags]
  rfl

theorem battery_isBestRequest (hbatt : IsBattery pdo) {i : Nat} (hget : srcCaps[i]? = some pdo)
    (hi : i < 7) (hcand : Candidate b maxRequestMv pdo)
    (hlittle : boardMa b pdo * pdoMv pdo < 250000)
    (hbest : ∀ other ∈ srcCaps, Candidate b maxRequestMv other →
      cappedUw b other ≤ cappedUw b pdo) {flags : BitVec 32}
    (hflags : flags = rdoCapMismatch ∨ flags = 0#32) :
    IsBestRequest b maxRequestMv srcCaps
      ⟨rdoBatt (i + 1) (batteryMw b pdo) (batteryMw b pdo) flags, boardMa b pdo, pdoMv pdo⟩
      pdo := by
  have hoffered : offeredUw pdo = 250000 * pdoUnits pdo := if_pos hbatt
  have hpower := hcand.power_ne_zero
  have hpos : rdoPos (rdoBatt (i + 1) (batteryMw b pdo) (batteryMw b pdo) flags) = i + 1 := by
    rw [rdoBatt_eq]
    exact rdoFields_pos (by lia) hflags
  have hmw : batteryMw b pdo / 250 = 0 := by
    rw [batteryMw]
    lia
  have hop : rdoOp (rdoBatt (i + 1) (batteryMw b pdo) (batteryMw b pdo) flags) = 0 := by
    rw [rdoOp, rdoBatt_eq, rdoFields_op hflags, hmw]
    rfl
  constructor
  case pos => rw [hpos]; lia
  case named => rw [hpos]; exact hget
  case candidate => exact hcand
  case best => exact hbest
  case mv_eq => rfl
  case ma_le => exact Nat.min_le_right _ _
  case power_le =>
    have hlimit := boardMa_mul_le b pdo
    dsimp only
    lia
  case op_eq =>
    rw [hop, requestedUnits, if_pos hbatt]
    exact hmw.symm
  case max_eq =>
    rw [rdoMax_rdoBatt hflags, requestedUnits, if_pos hbatt]
    exact hmw.symm
  case accepted =>
    apply pdCheckRequestedVoltage_accepts hget hpos
    · rw [hop]; lia
    · rw [rdoMax_rdoBatt hflags]; lia

/-! ## The request -/

theorem pdExtractPdoPower_fits {ma mv : Nat} (h : pdExtractPdoPower b pdo = some (ma, mv)) :
    ma * mv < 2 ^ 31 := by
  have hlimit := b.maxPowerUw_fits
  by_cases hbatt : IsBattery pdo
  · by_cases hmv : pdoMv pdo = 0
    · rw [pdExtractPdoPower, if_pos hmv] at h
      obtain ⟨rfl, rfl⟩ := Prod.mk.inj (Option.some.inj h)
      decide
    · rw [pdExtractPdoPower_battery hbatt hmv] at h
      by_cases hsmall : pdoUnits pdo ≤ 8
      · rw [if_pos hsmall] at h
        obtain ⟨rfl, rfl⟩ := Prod.mk.inj (Option.some.inj h)
        have hmul := boardMa_mul_le b pdo
        split
        · omega
        · omega
      · rw [if_neg hsmall] at h
        cases h
  · rw [pdExtractPdoPower_fixed hbatt] at h
    obtain ⟨rfl, rfl⟩ := Prod.mk.inj (Option.some.inj h)
    exact (fixedMa_mul_le b pdo).trans_lt hlimit

/-- What a request without an overflow says about the PDO. -/
theorem requestFor_some {i : Nat} (h : requestFor b i pdo = some r) :
    1000 * b.operatingPowerMw < 2 ^ 31 ∧
      (IsBattery pdo → pdoMv pdo ≠ 0 → pdoUnits pdo ≤ 8) := by
  cases hextract : pdExtractPdoPower b pdo with
  | none =>
      rw [requestFor, hextract] at h
      cases h
  | some power =>
      obtain ⟨ma, mv⟩ := power
      rw [requestFor_of_extract hextract (pdExtractPdoPower_fits hextract)] at h
      constructor
      · by_contra hop
        rw [if_neg hop] at h
        cases h
      · intro hbatt hmv
        by_contra hlarge
        rw [pdExtractPdoPower_battery hbatt hmv, if_neg hlarge] at hextract
        cases hextract

theorem ComesFirst.getElem (h : ComesFirst b maxRequestMv srcCaps c) (hne : srcCaps ≠ []) :
    ∃ pdo, srcCaps[c.ret]? = some pdo := by
  rcases List.mem_cons.mp h.mem with rfl | hmem
  · exact ⟨_, List.getElem?_eq_getElem (List.length_pos_of_ne_nil hne)⟩
  · obtain ⟨j, pdo, hget, -, rfl⟩ := mem_offers.mp hmem
    exact ⟨pdo, by simpa using hget⟩

/-- The conclusion from the condition. -/
theorem asksForTheBest_of_harmless (hne : srcCaps ≠ []) (hlen : srcCaps.length ≤ 7)
    (hcap : maxRequestMv.toNat < 2 ^ 31) (hoperating : 1000 * b.operatingPowerMw < 2 ^ 31)
    (hharmless : BatteriesHarmless b maxRequestMv srcCaps) :
    AsksForTheBest b maxRequestMv srcCaps := by
  obtain ⟨c, hfirst, hbuild⟩ := pdBuildRequest_spec b srcCaps maxRequestMv
  obtain ⟨pdo, hget⟩ := hfirst.getElem hne
  have hget' : srcCaps.getD c.ret 0 = pdo := by
    rw [List.getD_eq_getElem?_getD, hget]
    rfl
  obtain ⟨hi, -⟩ := List.getElem?_eq_some_iff.mp hget
  rw [hget'] at hbuild
  -- a candidate in the list makes what comes first one, with all that follows
  have hspec : (∃ other ∈ srcCaps, Candidate b maxRequestMv other) →
      0 < c.curUw ∧ Candidate b maxRequestMv pdo ∧
        ∀ other ∈ srcCaps, Candidate b maxRequestMv other →
          comparedUw b other ≤ comparedUw b pdo := by
    rintro ⟨other, hmem, hcand⟩
    have hpos := hfirst.pos hcap hmem hcand
    obtain ⟨pdo', hget'', hcand', hbest⟩ := hfirst.spec hcap hpos
    obtain rfl : pdo = pdo' := Option.some.inj (hget.symm.trans hget'')
    exact ⟨hpos, hcand', hbest⟩
  by_cases hbatt : IsBattery pdo
  · by_cases hmv : pdoMv pdo = 0
    · have hextract : pdExtractPdoPower b pdo = some (0, 0) := by
        rw [pdExtractPdoPower, if_pos hmv]
      rw [requestFor_of_extract hextract (by decide), if_pos hoperating] at hbuild
      refine ⟨_, hbuild, fun hex => ?_⟩
      exact absurd hmv (hspec hex).2.1.mv_ne_zero
    · obtain ⟨hsmall, hlittle⟩ := hharmless c pdo hfirst hget hbatt hmv
      by_cases hpower : pdoUnits pdo = 0
      · have hextract : pdExtractPdoPower b pdo = some (0, pdoMv pdo) := by
          rw [pdExtractPdoPower_battery hbatt hmv, if_pos hsmall, if_pos hpower]
        rw [requestFor_of_extract hextract (by omega), if_pos hoperating] at hbuild
        refine ⟨_, hbuild, fun hex => ?_⟩
        have hoffered : offeredUw pdo = 250000 * pdoUnits pdo := if_pos hbatt
        exact absurd (by omega) (hspec hex).2.1.power_ne_zero
      · rw [requestFor_battery hbatt hmv hpower hsmall hoperating] at hbuild
        refine ⟨_, hbuild, fun hex => ⟨pdo, ?_⟩⟩
        obtain ⟨hpos, hcand, -⟩ := hspec hex
        exact battery_isBestRequest hbatt hget (by omega) hcand (hlittle hpos).1 (hlittle hpos).2
          (mismatchFlags_eq b _)
  · rw [requestFor_fixed hbatt hoperating] at hbuild
    refine ⟨_, hbuild, fun hex => ⟨pdo, ?_⟩⟩
    obtain ⟨-, hcand, hbest⟩ := hspec hex
    exact fixed_isBestRequest hbatt hget (by omega) hcand hbest (mismatchFlags_eq b _)

/-- The condition from the conclusion: the fields of the request give a battery away. -/
theorem harmless_of_asksForTheBest (hlen : srcCaps.length ≤ 7)
    (hcap : maxRequestMv.toNat < 2 ^ 31) (h : AsksForTheBest b maxRequestMv srcCaps) :
    BatteriesHarmless b maxRequestMv srcCaps := by
  intro c pdo hfirst hget hbatt hmv
  obtain ⟨r, hr, hbest⟩ := h
  obtain ⟨c', hfirst', hbuild⟩ := pdBuildRequest_spec b srcCaps maxRequestMv
  obtain rfl : c = c' := hfirst.unique hfirst'
  have hget' : srcCaps.getD c.ret 0 = pdo := by
    rw [List.getD_eq_getElem?_getD, hget]
    rfl
  obtain ⟨hi, -⟩ := List.getElem?_eq_some_iff.mp hget
  rw [hr, hget'] at hbuild
  obtain ⟨hoperating, hunits⟩ := requestFor_some hbuild.symm
  have hsmall := hunits hbatt hmv
  refine ⟨hsmall, fun hpos => ?_⟩
  obtain ⟨pdo', hget'', hcand, -⟩ := hfirst.spec hcap hpos
  obtain rfl : pdo = pdo' := Option.some.inj (hget.symm.trans hget'')
  have hpower : pdoUnits pdo ≠ 0 := by
    have hoffered : offeredUw pdo = 250000 * pdoUnits pdo := if_pos hbatt
    have := hcand.power_ne_zero
    lia
  rw [requestFor_battery hbatt hmv hpower hsmall hoperating] at hbuild
  obtain rfl := Option.some.inj hbuild
  obtain ⟨pdo', hreq⟩ := hbest ⟨pdo, List.mem_of_getElem? hget, hcand⟩
  have hflags := mismatchFlags_eq b (boardMa b pdo * pdoMv pdo)
  -- the request is for this battery
  have hnamed := hreq.named
  have hposition : rdoPos (rdoBatt (c.ret + 1) (batteryMw b pdo) (batteryMw b pdo)
      (mismatchFlags b (boardMa b pdo * pdoMv pdo))) = c.ret + 1 := by
    rw [rdoBatt_eq]
    exact rdoFields_pos (by lia) hflags
  rw [hposition, Nat.add_sub_cancel] at hnamed
  obtain rfl : pdo = pdo' := Option.some.inj (hget.symm.trans hnamed)
  refine ⟨?_, hreq.best⟩
  have hmax := hreq.max_eq
  rw [rdoMax_rdoBatt hflags, requestedUnits, if_pos hbatt] at hmax
  dsimp only at hmax
  lia

/-- **The best request.**  For every list of offers the sink asks for the best of them, exactly if
the operating power of the board fits its unit and no battery does harm. -/
theorem pdBuildRequest_best_iff (b : Board) (maxRequestMv : BitVec 32)
    (srcCaps : List (BitVec 32)) (hlen : 1 ≤ srcCaps.length ∧ srcCaps.length ≤ 7)
    (hcap : maxRequestMv.toNat < 2 ^ 31) :
    AsksForTheBest b maxRequestMv srcCaps ↔
      1000 * b.operatingPowerMw < 2 ^ 31 ∧ BatteriesHarmless b maxRequestMv srcCaps := by
  constructor
  · intro h
    refine ⟨?_, harmless_of_asksForTheBest hlen.2 hcap h⟩
    obtain ⟨r, hr, -⟩ := h
    obtain ⟨c, -, hbuild⟩ := pdBuildRequest_spec b srcCaps maxRequestMv
    exact (requestFor_some (hbuild.symm.trans hr)).1
  · rintro ⟨hoperating, hharmless⟩
    have hne : srcCaps ≠ [] := List.ne_nil_of_length_pos hlen.1
    exact asksForTheBest_of_harmless hne hlen.2 hcap hoperating hharmless

/-- A board of 60 W, at most 3 A and 20 V. -/
def board60w : Board where
  maxPowerMw := 60000
  maxCurrentMa := 3000
  maxVoltageMv := 20000
  operatingPowerMw := 15000
  prefer := none
  isValidInputVoltage := fun _ => true
  maxPowerMw_pos := by decide
  maxCurrentMa_pos := by decide
  maxVoltageMv_pos := by decide
  maxPowerUw_fits := by decide

/-- Two fixed supplies, of 5 V with 0.9 A and of 9 V with 2 A. -/
theorem pdBuildRequest_best_iff_fixed :
    AsksForTheBest board60w 20000#32 [0x1905A#32, 0x2D0C8#32] := by
  refine (pdBuildRequest_best_iff board60w 20000#32 _ (by decide) (by decide)).mpr
    ⟨by decide, fun c pdo _ hget hbatt => ?_⟩
  have hmem := List.mem_of_getElem? hget
  simp only [List.mem_cons, List.not_mem_nil, or_false] at hmem
  rcases hmem with rfl | rfl
  · exact absurd hbatt (by decide)
  · exact absurd hbatt (by decide)

/-- A supply of 5 V with 0.9 A and a battery of 12 V with 5 W. -/
theorem pdBuildRequest_battery_overflows :
    ¬ AsksForTheBest board60w 20000#32 [0x1905A#32, 0x4F03C014#32] := by
  rintro ⟨r, hr, -⟩
  have hnone : pdBuildRequest board60w [0x1905A#32, 0x4F03C014#32] 20000#32 .max = none := by
    decide
  rw [hnone] at hr
  cases hr

end PdPolicy
end CrosEc
