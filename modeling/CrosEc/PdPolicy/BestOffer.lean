import CrosEc.Common
import CrosEc.Lib.Scan

/-!
# `common/usb_pd_policy.c`: what a sink requests

A source offers up to seven power data objects (PDO), and the sink answers with a request data
object (RDO) for one of them.  `pd_build_request` chooses the PDO and writes the RDO;
`pd_check_requested_voltage` is what a source does with it.  The build is the one without
`CONFIG_USB_PD_GIVE_BACK`.

The computations on the side of the sink are those of a C `int`: `none` is an overflow.  The
numbers are never negative but for the cap on the voltage, an `unsigned` that is passed on as an
`int`.
-/

namespace CrosEc
namespace PdPolicy

/-- `PD_PREFER_LOW_VOLTAGE` and `PD_PREFER_HIGH_VOLTAGE` -/
inductive PreferVoltage where
  | low
  | high
  deriving DecidableEq

/-- The constants of a board and its `pd_is_valid_input_voltage`. -/
structure Board where
  maxPowerMw : Nat
  maxCurrentMa : Nat
  maxVoltageMv : Nat
  operatingPowerMw : Nat
  prefer : Option PreferVoltage
  isValidInputVoltage : Nat → Bool
  maxPowerMw_pos : 0 < maxPowerMw
  maxCurrentMa_pos : 0 < maxCurrentMa
  maxVoltageMv_pos : 0 < maxVoltageMv
  maxPowerUw_fits : maxPowerMw * 1000 < 2 ^ 31

/-- The value of an `int`, unless it overflows. -/
def int32 (x : Nat) : Option Nat := if x < 2 ^ 31 then some x else none

/-! ## Power data objects -/

/-- `PDO_TYPE_MASK` -/
def pdoTypeMask : BitVec 32 := 3#32 <<< 30
/-- `PDO_TYPE_BATTERY` -/
def pdoTypeBattery : BitVec 32 := 1#32 <<< 30
/-- `PDO_TYPE_AUGMENTED` -/
def pdoTypeAugmented : BitVec 32 := 3#32 <<< 30

/-- The test for `PDO_TYPE_BATTERY`. -/
abbrev IsBattery (pdo : BitVec 32) : Prop := pdo &&& pdoTypeMask = pdoTypeBattery

/-- The test for `PDO_TYPE_AUGMENTED`. -/
abbrev IsAugmented (pdo : BitVec 32) : Prop := pdo &&& pdoTypeMask = pdoTypeAugmented

/-- `pdo & 0x3FF`: the current in 10 mA units, or the power in 250 mW units. -/
def pdoUnits (pdo : BitVec 32) : Nat := (pdo &&& 0x3FF#32).toNat

/-- `((pdo >> 10) & 0x3FF) * 50`: the voltage in mV. -/
def pdoMv (pdo : BitVec 32) : Nat := ((pdo >>> 10) &&& 0x3FF#32).toNat * 50

/-! ## Request data objects -/

/-- `RDO_OBJ_POS` -/
def rdoObjPos (n : Nat) : BitVec 32 := (BitVec.ofNat 32 n &&& 0x7#32) <<< 28
/-- `RDO_POS` -/
def rdoPos (rdo : BitVec 32) : Nat := ((rdo >>> 28) &&& 0x7#32).toNat
/-- `RDO_CAP_MISMATCH` -/
def rdoCapMismatch : BitVec 32 := 1#32 <<< 26

/-- `RDO_FIXED_VAR_OP_CURR` -/
def rdoFixedVarOpCurr (ma : Nat) : BitVec 32 := (BitVec.ofNat 32 (ma / 10) &&& 0x3FF#32) <<< 10
/-- `RDO_FIXED_VAR_MAX_CURR` -/
def rdoFixedVarMaxCurr (ma : Nat) : BitVec 32 := (BitVec.ofNat 32 (ma / 10) &&& 0x3FF#32) <<< 0

/-- `RDO_BATT_OP_POWER` -/
def rdoBattOpPower (mw : Nat) : BitVec 32 := (BitVec.ofNat 32 (mw / 250) &&& 0x3FF#32) <<< 10
/-- `RDO_BATT_MAX_POWER` -/
def rdoBattMaxPower (mw : Nat) : BitVec 32 := (BitVec.ofNat 32 (mw / 250) &&& 0x3FF#32) <<< 10

/-- `RDO_FIXED` -/
def rdoFixed (n opMa maxMa : Nat) (flags : BitVec 32) : BitVec 32 :=
  rdoObjPos n ||| flags ||| rdoFixedVarOpCurr opMa ||| rdoFixedVarMaxCurr maxMa

/-- `RDO_BATT` -/
def rdoBatt (n opMw maxMw : Nat) (flags : BitVec 32) : BitVec 32 :=
  rdoObjPos n ||| flags ||| rdoBattOpPower opMw ||| rdoBattMaxPower maxMw

/-! ## The sink -/

/-- `ret`, `cur_uw` and `cur_mv` of `pd_find_pdo_index` -/
structure Choice where
  ret : Nat
  curUw : Nat
  curMv : Nat
  deriving DecidableEq

/-- The condition under which a PDO at `mv` with `uw` takes the place of the current one. -/
def TakesOver (b : Board) (uw mv : Nat) (cur : Choice) : Prop :=
  cur.curUw < uw ∨
    match b.prefer with
    | none => False
    | some .low => uw = cur.curUw ∧ mv < cur.curMv
    | some .high => uw = cur.curUw ∧ cur.curMv < mv

instance (b : Board) (uw mv : Nat) (cur : Choice) : Decidable (TakesOver b uw mv cur) := by
  unfold TakesOver
  cases b.prefer with
  | none => exact instDecidableOr
  | some p => cases p <;> exact instDecidableOr

/-- `uw` of a PDO in the loop of `pd_find_pdo_index` -/
def pdoUw (b : Board) (pdo : BitVec 32) : Option Nat :=
  if IsBattery pdo then int32 (250000 * pdoUnits pdo)
  else do
    let ma ← int32 (pdoUnits pdo * 10)
    int32 (min ma b.maxCurrentMa * pdoMv pdo)

/-- The body of the loop of `pd_find_pdo_index`. -/
def findPdoStep (b : Board) (maxMv : Int) (i : Nat) (pdo : BitVec 32) (cur : Choice) :
    Option Choice :=
  if IsAugmented pdo then some cur
  else if pdoMv pdo = 0 then some cur
  else if ¬ b.isValidInputVoltage (pdoMv pdo) then some cur
  else do
    let uw ← pdoUw b pdo
    if maxMv < pdoMv pdo then return cur
    let uw := min uw (b.maxPowerMw * 1000)
    if TakesOver b uw (pdoMv pdo) cur then return ⟨i, uw, pdoMv pdo⟩ else return cur

/-- The loop of `pd_find_pdo_index`, from its index `i` on. -/
def findPdoFrom (b : Board) (maxMv : Int) : Nat → List (BitVec 32) → Choice → Option Choice
  | _, [], cur => some cur
  | i, pdo :: srcCaps, cur => do
      let cur ← findPdoStep b maxMv i pdo cur
      findPdoFrom b maxMv (i + 1) srcCaps cur

/-- `pd_find_pdo_index`: the index and the PDO at it. -/
def pdFindPdoIndex (b : Board) (srcCaps : List (BitVec 32)) (maxMv : Int) :
    Option (Nat × BitVec 32) := do
  let cur ← findPdoFrom b (min maxMv b.maxVoltageMv) 0 srcCaps ⟨0, 0, 0⟩
  return (cur.ret, srcCaps.getD cur.ret 0)

/-- `pd_extract_pdo_power`: `ma` and `mv`. -/
def pdExtractPdoPower (b : Board) (pdo : BitVec 32) : Option (Nat × Nat) :=
  if pdoMv pdo = 0 then some (0, 0)
  else if IsBattery pdo then do
    let uw ← int32 (250000 * pdoUnits pdo)
    let mw ← int32 (1000 * uw)
    let maxMa ← int32 (1000 * min mw b.maxPowerMw)
    return (min (maxMa / pdoMv pdo) b.maxCurrentMa, pdoMv pdo)
  else do
    let maxMa ← int32 (10 * pdoUnits pdo)
    return (min (min maxMa (b.maxPowerMw * 1000 / pdoMv pdo)) b.maxCurrentMa, pdoMv pdo)

/-- `enum pd_request_type` -/
inductive PdRequestType where
  | vsafe5v
  | max
  deriving DecidableEq

/-- What `pd_build_request` returns. -/
structure Request where
  rdo : BitVec 32
  ma : Nat
  mv : Nat
  deriving DecidableEq

/-- `pd_build_request`, with `max_request_mv` as `pd_set_max_voltage` has set it.  The product
of `ma` and `mv` is an unsigned one, and is assigned to an `int`. -/
def pdBuildRequest (b : Board) (srcCaps : List (BitVec 32)) (maxRequestMv : BitVec 32)
    (reqType : PdRequestType) : Option Request := do
  let (pdoIndex, pdo) ←
    if reqType = .vsafe5v then some (0, srcCaps.getD 0 0)
    else pdFindPdoIndex b srcCaps maxRequestMv.toInt
  let (ma, mv) ← pdExtractPdoPower b pdo
  let uw ← int32 (ma * mv % 2 ^ 32)
  let operatingUw ← int32 (1000 * b.operatingPowerMw)
  let flags := if uw < operatingUw then rdoCapMismatch else 0#32
  if IsBattery pdo then
    return ⟨rdoBatt (pdoIndex + 1) (uw / 1000) (uw / 1000) flags, ma, mv⟩
  else
    return ⟨rdoFixed (pdoIndex + 1) ma ma flags, ma, mv⟩

/-! ## The source -/

/-- `pd_board_check_request`, the default one. -/
def pdBoardCheckRequest (rdo : BitVec 32) (pdoCnt : Nat) : Code :=
  if rdoPos rdo = 0 ∨ pdoCnt < rdoPos rdo then ecErrorInval else ecSuccess

/-- `pd_check_requested_voltage` of a source that offers `srcPdo`. -/
def pdCheckRequestedVoltage (rdo : BitVec 32) (srcPdo : List (BitVec 32)) : Code :=
  let maxMa := (rdo &&& 0x3FF#32).toNat
  let opMa := ((rdo >>> 10) &&& 0x3FF#32).toNat
  let pdoMa := pdoUnits (srcPdo.getD (rdoPos rdo - 1) 0)
  if pdBoardCheckRequest rdo srcPdo.length ≠ ecSuccess then ecErrorInval
  else if pdoMa < opMa then ecErrorInval
  else if pdoMa < maxMa ∧ rdo &&& rdoCapMismatch = 0#32 then ecErrorInval
  else ecSuccess

end PdPolicy

/-!
## The sink asks for the best offer

`pd_find_pdo_index` compares the offers in one unit, and for fixed and variable supplies the
request is one for the best of them.  For a battery `pd_extract_pdo_power` multiplies where it
has to divide, and `RDO_BATT_MAX_POWER` puts the maximum into the operating field; the result is
therefore about lists in which no battery comes first.
-/

namespace PdPolicy

open Lib

variable {b : Board} {maxMv : Int} {srcCaps : List (BitVec 32)} {pdo : BitVec 32}

/-! ### The fields of an RDO -/

/-- The fields that `RDO_FIXED` and `RDO_BATT` put together. -/
def rdoFields (n : Nat) (flags op max : BitVec 32) : BitVec 32 :=
  rdoObjPos n ||| flags ||| ((op &&& 0x3FF#32) <<< 10) ||| ((max &&& 0x3FF#32) <<< 0)

theorem rdoFixed_eq (n opMa maxMa : Nat) (flags : BitVec 32) :
    rdoFixed n opMa maxMa flags =
      rdoFields n flags (BitVec.ofNat 32 (opMa / 10)) (BitVec.ofNat 32 (maxMa / 10)) := rfl

/-- `RDO_BATT_MAX_POWER` is in the place of `RDO_BATT_OP_POWER`. -/
theorem rdoBatt_eq (n mw : Nat) (flags : BitVec 32) :
    rdoBatt n mw mw flags = rdoFields n flags (BitVec.ofNat 32 (mw / 250)) 0#32 := by
  have hzero : (0#32 &&& 0x3FF#32) <<< 0 = 0#32 := by decide
  rw [rdoFields, hzero, BitVec.or_zero, rdoBatt, rdoBattMaxPower, rdoBattOpPower,
    BitVec.or_assoc, BitVec.or_self]

section Fields

variable {n : Nat} {flags op max : BitVec 32}

theorem rdoFields_pos (hn : n ≤ 7) (hflags : flags = rdoCapMismatch ∨ flags = 0#32) :
    rdoPos (rdoFields n flags op max) = n := by
  have hpos : (rdoFields n flags op max >>> 28) &&& 0x7#32 = BitVec.ofNat 32 n &&& 0x7#32 := by
    apply BitVec.eq_of_getLsbD_eq
    intro i hi
    unfold rdoFields rdoObjPos rdoCapMismatch at *
    rcases hflags with rfl | rfl
    · interval_cases i <;> simp
    · interval_cases i <;> simp
  rw [rdoPos, hpos]
  interval_cases n <;> rfl

theorem rdoFields_op (hflags : flags = rdoCapMismatch ∨ flags = 0#32) :
    (rdoFields n flags op max >>> 10) &&& 0x3FF#32 = op &&& 0x3FF#32 := by
  apply BitVec.eq_of_getLsbD_eq
  intro i hi
  unfold rdoFields rdoObjPos rdoCapMismatch at *
  rcases hflags with rfl | rfl
  · interval_cases i <;> simp
  · interval_cases i <;> simp

theorem rdoFields_max (hflags : flags = rdoCapMismatch ∨ flags = 0#32) :
    rdoFields n flags op max &&& 0x3FF#32 = max &&& 0x3FF#32 := by
  apply BitVec.eq_of_getLsbD_eq
  intro i hi
  unfold rdoFields rdoObjPos rdoCapMismatch at *
  rcases hflags with rfl | rfl
  · interval_cases i <;> simp
  · interval_cases i <;> simp

end Fields

theorem mask10 (x : Nat) (hx : x < 1024) : (BitVec.ofNat 32 x &&& 0x3FF#32).toNat = x := by
  rw [BitVec.toNat_and, BitVec.toNat_ofNat, BitVec.toNat_ofNat]
  have : 1023 % 2 ^ 32 = 2 ^ 10 - 1 := by decide
  rw [this, Nat.and_two_pow_sub_one_eq_mod]
  omega

/-! ### The offers -/

theorem pdoUnits_lt (pdo : BitVec 32) : pdoUnits pdo < 1024 := by
  rw [pdoUnits, BitVec.toNat_and]
  exact Nat.lt_succ_of_le Nat.and_le_right

theorem pdoMv_lt (pdo : BitVec 32) : pdoMv pdo < 51200 := by
  have hle : ((pdo >>> 10) &&& 0x3FF#32).toNat ≤ 1023 := by
    rw [BitVec.toNat_and]
    exact Nat.and_le_right
  rw [pdoMv]
  omega

/-- What a PDO offers, in microwatt. -/
def offeredUw (pdo : BitVec 32) : Nat :=
  if IsBattery pdo then 250000 * pdoUnits pdo else 10 * pdoUnits pdo * pdoMv pdo

/-- What the limits of the board on current and power leave of that. -/
def cappedUw (b : Board) (pdo : BitVec 32) : Nat :=
  min (offeredUw pdo) (min (b.maxPowerMw * 1000) (b.maxCurrentMa * pdoMv pdo))

/-- What a PDO is compared by.  The limit on the current is not applied to a battery. -/
def comparedUw (b : Board) (pdo : BitVec 32) : Nat :=
  min (if IsBattery pdo then 250000 * pdoUnits pdo
    else min (pdoUnits pdo * 10) b.maxCurrentMa * pdoMv pdo) (b.maxPowerMw * 1000)

/-- The PDOs that the loop does not skip. -/
def Eligible (b : Board) (maxMv : Int) (pdo : BitVec 32) : Prop :=
  ¬ IsAugmented pdo ∧ pdoMv pdo ≠ 0 ∧ b.isValidInputVoltage (pdoMv pdo) ∧ (pdoMv pdo : Int) ≤ maxMv

instance : Decidable (Eligible b maxMv pdo) := by
  unfold Eligible
  infer_instance

/-- The order of the loop: more power, and among equals the voltage that the board prefers. -/
def Beats (b : Board) (x cur : Choice) : Prop := TakesOver b x.curUw x.curMv cur

instance : DecidableRel (Beats b) := fun x cur =>
  inferInstanceAs (Decidable (TakesOver b x.curUw x.curMv cur))

/-- The offers as the loop sees them, the first one at index `i`. -/
def offers (b : Board) (maxMv : Int) : Nat → List (BitVec 32) → List Choice
  | _, [] => []
  | i, pdo :: srcCaps =>
      if Eligible b maxMv pdo then
        ⟨i, comparedUw b pdo, pdoMv pdo⟩ :: offers b maxMv (i + 1) srcCaps
      else offers b maxMv (i + 1) srcCaps

theorem mem_offers {i : Nat} {c : Choice} :
    c ∈ offers b maxMv i srcCaps ↔
      ∃ j pdo, srcCaps[j]? = some pdo ∧ Eligible b maxMv pdo ∧
        c = ⟨i + j, comparedUw b pdo, pdoMv pdo⟩ := by
  induction srcCaps generalizing i with
  | nil => simp [offers]
  | cons pdo srcCaps ih =>
      have hrest : c ∈ offers b maxMv (i + 1) srcCaps ↔
          ∃ j pdo', (pdo :: srcCaps)[j + 1]? = some pdo' ∧ Eligible b maxMv pdo' ∧
            c = ⟨i + (j + 1), comparedUw b pdo', pdoMv pdo'⟩ := by
        rw [ih]
        simp only [List.getElem?_cons_succ, Nat.add_assoc, Nat.add_comm 1]
      have hsplit : (∃ j pdo', (pdo :: srcCaps)[j]? = some pdo' ∧ Eligible b maxMv pdo' ∧
            c = ⟨i + j, comparedUw b pdo', pdoMv pdo'⟩) ↔
          (Eligible b maxMv pdo ∧ c = ⟨i, comparedUw b pdo, pdoMv pdo⟩) ∨
            c ∈ offers b maxMv (i + 1) srcCaps := by
        rw [hrest]
        constructor
        · rintro ⟨j, pdo', hget, helig, rfl⟩
          cases j with
          | zero =>
              obtain rfl : pdo = pdo' := by simpa using hget
              exact Or.inl ⟨helig, rfl⟩
          | succ j => exact Or.inr ⟨j, pdo', hget, helig, rfl⟩
        · rintro (⟨helig, rfl⟩ | ⟨j, pdo', hget, helig, rfl⟩)
          · exact ⟨0, pdo, rfl, helig, rfl⟩
          · exact ⟨j + 1, pdo', hget, helig, rfl⟩
      rw [hsplit, offers]
      by_cases helig : Eligible b maxMv pdo
      · rw [if_pos helig, List.mem_cons]
        simp [helig]
      · rw [if_neg helig]
        simp [helig]

/-! ### The loop -/

theorem beats_iff (x cur : Choice) :
    Beats b x cur ↔ cur.curUw < x.curUw ∨
      b.prefer = some .low ∧ x.curUw = cur.curUw ∧ x.curMv < cur.curMv ∨
      b.prefer = some .high ∧ x.curUw = cur.curUw ∧ cur.curMv < x.curMv := by
  unfold Beats TakesOver
  cases b.prefer with
  | none => simp
  | some p => cases p <;> simp

theorem Beats.asymm (x y : Choice) (h : Beats b x y) : ¬ Beats b y x := by
  rw [beats_iff] at *
  cases hp : b.prefer with
  | none => simp [hp] at *; omega
  | some p => cases p <;> simp [hp] at * <;> omega

theorem Beats.between (x y z : Choice) (h : Beats b x z) : Beats b x y ∨ Beats b y z := by
  rw [beats_iff] at *
  rw [beats_iff]
  cases hp : b.prefer with
  | none => simp [hp] at *; lia
  | some p => cases p <;> simp [hp] at * <;> lia

/-- Nothing in the loop overflows. -/
theorem pdoUw_eq (b : Board) (pdo : BitVec 32) :
    pdoUw b pdo = some (if IsBattery pdo then 250000 * pdoUnits pdo
      else min (pdoUnits pdo * 10) b.maxCurrentMa * pdoMv pdo) := by
  have hunits := pdoUnits_lt pdo
  have hmv := pdoMv_lt pdo
  unfold pdoUw
  by_cases hbatt : IsBattery pdo
  · rw [if_pos hbatt, if_pos hbatt, int32, if_pos (by lia)]
  · have hprod : min (pdoUnits pdo * 10) b.maxCurrentMa * pdoMv pdo ≤ 10230 * 51199 :=
      Nat.mul_le_mul (by lia) (by lia)
    rw [if_neg hbatt, if_neg hbatt, int32, if_pos (by lia)]
    simp only [Option.bind_eq_bind, Option.bind_some]
    rw [int32, if_pos (by lia)]

theorem findPdoStep_eq (i : Nat) (cur : Choice) :
    findPdoStep b maxMv i pdo cur =
      some (if Eligible b maxMv pdo then
          if Beats b ⟨i, comparedUw b pdo, pdoMv pdo⟩ cur then ⟨i, comparedUw b pdo, pdoMv pdo⟩
          else cur
        else cur) := by
  unfold findPdoStep
  by_cases haug : IsAugmented pdo
  · rw [if_pos haug, if_neg (fun h => h.1 haug)]
  rw [if_neg haug]
  by_cases hmv : pdoMv pdo = 0
  · rw [if_pos hmv, if_neg (fun h => h.2.1 hmv)]
  rw [if_neg hmv]
  by_cases hvalid : b.isValidInputVoltage (pdoMv pdo) = true
  · rw [if_neg (not_not.mpr hvalid), pdoUw_eq]
    simp only [Option.bind_eq_bind, Option.bind_some]
    by_cases hcap : maxMv < pdoMv pdo
    · rw [if_pos hcap, if_neg (fun h => absurd h.2.2.2 (not_le.mpr hcap))]
      rfl
    · have helig : Eligible b maxMv pdo := ⟨haug, hmv, hvalid, not_lt.mp hcap⟩
      rw [if_neg hcap, if_pos helig]
      by_cases htakes : Beats b ⟨i, comparedUw b pdo, pdoMv pdo⟩ cur
      · rw [if_pos htakes]
        exact if_pos htakes
      · rw [if_neg htakes]
        exact if_neg htakes
  · rw [if_pos hvalid, if_neg (fun h => hvalid h.2.2.1)]

/-- The loop is a scan of the offers. -/
theorem findPdoFrom_eq (i : Nat) (cur : Choice) :
    findPdoFrom b maxMv i srcCaps cur =
      some (bestFrom (Beats b) cur (offers b maxMv i srcCaps)) := by
  induction srcCaps generalizing i cur with
  | nil => rfl
  | cons pdo srcCaps ih =>
      rw [findPdoFrom, findPdoStep_eq, offers]
      simp only [Option.bind_eq_bind, Option.bind_some]
      rw [ih]
      by_cases helig : Eligible b maxMv pdo
      · simp only [if_pos helig]
        rfl
      · simp only [if_neg helig]

/-- `c` comes first in the order of the loop.  The loop starts with index 0 and no power. -/
def ComesFirst (b : Board) (maxRequestMv : BitVec 32) (srcCaps : List (BitVec 32))
    (c : Choice) : Prop :=
  FirstBest (Beats b)
    (⟨0, 0, 0⟩ :: offers b (min maxRequestMv.toInt b.maxVoltageMv) 0 srcCaps) c

theorem pdFindPdoIndex_spec (b : Board) (srcCaps : List (BitVec 32)) (maxRequestMv : BitVec 32) :
    ∃ c, ComesFirst b maxRequestMv srcCaps c ∧
      pdFindPdoIndex b srcCaps maxRequestMv.toInt = some (c.ret, srcCaps.getD c.ret 0) := by
  refine ⟨_, bestFrom_spec Beats.asymm Beats.between _ _, ?_⟩
  rw [pdFindPdoIndex, findPdoFrom_eq]
  rfl

/-! ### What comes first -/

/-- A PDO that the board may ask for. -/
structure Candidate (b : Board) (maxRequestMv : BitVec 32) (pdo : BitVec 32) : Prop where
  not_augmented : ¬ IsAugmented pdo
  mv_ne_zero : pdoMv pdo ≠ 0
  valid : b.isValidInputVoltage (pdoMv pdo)
  le_request : pdoMv pdo ≤ maxRequestMv.toNat
  le_board : pdoMv pdo ≤ b.maxVoltageMv
  power_ne_zero : offeredUw pdo ≠ 0

section First

variable {maxRequestMv : BitVec 32} {c : Choice}

theorem eligible_iff (hcap : maxRequestMv.toNat < 2 ^ 31) :
    Eligible b (min maxRequestMv.toInt b.maxVoltageMv) pdo ∧ offeredUw pdo ≠ 0 ↔
      Candidate b maxRequestMv pdo := by
  have hint : maxRequestMv.toInt = maxRequestMv.toNat := BitVec.toInt_eq_toNat_of_lt (by lia)
  rw [hint]
  constructor
  · rintro ⟨⟨haug, hmv, hvalid, hle⟩, hpower⟩
    exact ⟨haug, hmv, hvalid, by lia, by lia, hpower⟩
  · rintro ⟨haug, hmv, hvalid, hrequest, hboard, hpower⟩
    exact ⟨⟨haug, hmv, hvalid, by lia⟩, hpower⟩

theorem comparedUw_pos (hmv : pdoMv pdo ≠ 0) : 0 < comparedUw b pdo ↔ offeredUw pdo ≠ 0 := by
  have hp := b.maxPowerMw_pos
  have hi := b.maxCurrentMa_pos
  rw [comparedUw, offeredUw, lt_min_iff]
  by_cases hbatt : IsBattery pdo
  · rw [if_pos hbatt, if_pos hbatt]
    lia
  · rw [if_neg hbatt, if_neg hbatt, Nat.mul_pos_iff_of_pos_right (Nat.pos_of_ne_zero hmv),
      Nat.mul_ne_zero_iff]
    lia

theorem cappedUw_le_comparedUw (b : Board) (pdo : BitVec 32) :
    cappedUw b pdo ≤ comparedUw b pdo := by
  rw [cappedUw, comparedUw, offeredUw]
  by_cases hbatt : IsBattery pdo
  · rw [if_pos hbatt, if_pos hbatt]
    lia
  · rw [if_neg hbatt, if_neg hbatt, Nat.mul_comm 10, ← Nat.mul_min_mul_right]
    lia

/-- Without a battery the loop compares what the board can use. -/
theorem cappedUw_of_not_battery (hbatt : ¬ IsBattery pdo) : cappedUw b pdo = comparedUw b pdo := by
  rw [cappedUw, comparedUw, offeredUw, if_neg hbatt, if_neg hbatt, Nat.mul_comm 10,
    ← Nat.mul_min_mul_right]
  lia

/-- What comes first is a candidate if it has any power, and no candidate has more. -/
theorem ComesFirst.spec (h : ComesFirst b maxRequestMv srcCaps c)
    (hcap : maxRequestMv.toNat < 2 ^ 31) (hpos : 0 < c.curUw) :
    ∃ pdo, srcCaps[c.ret]? = some pdo ∧ Candidate b maxRequestMv pdo ∧
      ∀ other ∈ srcCaps, Candidate b maxRequestMv other →
        comparedUw b other ≤ comparedUw b pdo := by
  rcases List.mem_cons.mp h.mem with rfl | hmem
  · exact absurd hpos (lt_irrefl 0)
  obtain ⟨j, pdo, hget, helig, rfl⟩ := mem_offers.mp hmem
  refine ⟨pdo, by simpa using hget, ?_, fun other hother hcand => ?_⟩
  · exact (eligible_iff hcap).mp ⟨helig, (comparedUw_pos helig.2.1).mp hpos⟩
  · obtain ⟨k, hk⟩ := List.getElem?_of_mem hother
    have hoffer : ⟨0 + k, comparedUw b other, pdoMv other⟩ ∈
        offers b (min maxRequestMv.toInt b.maxVoltageMv) 0 srcCaps :=
      mem_offers.mpr ⟨k, other, hk, ((eligible_iff hcap).mpr hcand).1, rfl⟩
    have hnot := h.not_beaten Beats.asymm (List.mem_cons_of_mem _ hoffer)
    rw [beats_iff] at hnot
    exact not_lt.mp fun hlt => hnot (Or.inl hlt)

theorem ComesFirst.pos (h : ComesFirst b maxRequestMv srcCaps c)
    (hcap : maxRequestMv.toNat < 2 ^ 31) (hmem : pdo ∈ srcCaps)
    (hcand : Candidate b maxRequestMv pdo) : 0 < c.curUw := by
  obtain ⟨k, hk⟩ := List.getElem?_of_mem hmem
  have hoffer : ⟨0 + k, comparedUw b pdo, pdoMv pdo⟩ ∈
      offers b (min maxRequestMv.toInt b.maxVoltageMv) 0 srcCaps :=
    mem_offers.mpr ⟨k, pdo, hk, ((eligible_iff hcap).mpr hcand).1, rfl⟩
  have hpower : 0 < comparedUw b pdo := (comparedUw_pos hcand.mv_ne_zero).mpr hcand.power_ne_zero
  have hnot := h.not_beaten Beats.asymm (List.mem_cons_of_mem _ hoffer)
  rw [beats_iff] at hnot
  exact hpower.trans_le (not_lt.mp fun hlt => hnot (Or.inl hlt))

end First

/-! ### The power that is requested -/

/-- The current that `pd_extract_pdo_power` finds for a fixed or variable supply. -/
def fixedMa (b : Board) (pdo : BitVec 32) : Nat :=
  min (min (10 * pdoUnits pdo) (b.maxPowerMw * 1000 / pdoMv pdo)) b.maxCurrentMa

/-- The current that it finds for a battery that offers anything: the limits of the board. -/
def boardMa (b : Board) (pdo : BitVec 32) : Nat :=
  min (b.maxPowerMw * 1000 / pdoMv pdo) b.maxCurrentMa

theorem pdExtractPdoPower_fixed (hbatt : ¬ IsBattery pdo) :
    pdExtractPdoPower b pdo = some (fixedMa b pdo, pdoMv pdo) := by
  have hunits := pdoUnits_lt pdo
  rw [pdExtractPdoPower, fixedMa]
  by_cases hmv : pdoMv pdo = 0
  · simp [hmv]
  · rw [if_neg hmv, if_neg hbatt, int32, if_pos (by omega)]
    rfl

/-- The product with 1000 fits for up to eight units, and is then above any limit. -/
theorem pdExtractPdoPower_battery (hbatt : IsBattery pdo) (hmv : pdoMv pdo ≠ 0) :
    pdExtractPdoPower b pdo =
      if pdoUnits pdo ≤ 8 then
        some (if pdoUnits pdo = 0 then 0 else boardMa b pdo, pdoMv pdo)
      else none := by
  have hfits := b.maxPowerUw_fits
  have hunits := pdoUnits_lt pdo
  rw [pdExtractPdoPower, if_neg hmv, if_pos hbatt, int32, if_pos (by lia)]
  simp only [Option.bind_eq_bind, Option.bind_some]
  by_cases hsmall : pdoUnits pdo ≤ 8
  · rw [if_pos hsmall, int32, if_pos (by lia)]
    simp only [Option.bind_some]
    rw [int32, if_pos (by lia)]
    simp only [Option.bind_some]
    by_cases hzero : pdoUnits pdo = 0
    · simp [hzero]
    · have hmin : min (1000 * (250000 * pdoUnits pdo)) b.maxPowerMw = b.maxPowerMw := by lia
      rw [if_neg hzero, hmin, Nat.mul_comm 1000, boardMa]
      rfl
  · rw [if_neg hsmall, int32, if_neg (by lia)]
    rfl

theorem boardMa_mul_le (b : Board) (pdo : BitVec 32) :
    boardMa b pdo * pdoMv pdo ≤ b.maxPowerMw * 1000 :=
  (Nat.mul_le_mul_right _ (Nat.min_le_left _ _)).trans (Nat.div_mul_le_self _ _)

theorem fixedMa_mul_le (b : Board) (pdo : BitVec 32) :
    fixedMa b pdo * pdoMv pdo ≤ b.maxPowerMw * 1000 := by
  have hle : fixedMa b pdo ≤ b.maxPowerMw * 1000 / pdoMv pdo := by
    rw [fixedMa]
    omega
  exact (Nat.mul_le_mul_right _ hle).trans (Nat.div_mul_le_self _ _)

/-- The mismatch flag of a request of `uw`. -/
def mismatchFlags (b : Board) (uw : Nat) : BitVec 32 :=
  if uw < 1000 * b.operatingPowerMw then rdoCapMismatch else 0#32

theorem mismatchFlags_eq (b : Board) (uw : Nat) :
    mismatchFlags b uw = rdoCapMismatch ∨ mismatchFlags b uw = 0#32 := by
  rw [mismatchFlags]
  split
  · exact Or.inl rfl
  · exact Or.inr rfl

/-- `pd_build_request` from the chosen PDO on. -/
def requestFor (b : Board) (i : Nat) (pdo : BitVec 32) : Option Request := do
  let (ma, mv) ← pdExtractPdoPower b pdo
  let uw ← int32 (ma * mv % 2 ^ 32)
  let operatingUw ← int32 (1000 * b.operatingPowerMw)
  let flags := if uw < operatingUw then rdoCapMismatch else 0#32
  if IsBattery pdo then
    return ⟨rdoBatt (i + 1) (uw / 1000) (uw / 1000) flags, ma, mv⟩
  else
    return ⟨rdoFixed (i + 1) ma ma flags, ma, mv⟩

theorem pdBuildRequest_spec (b : Board) (srcCaps : List (BitVec 32)) (maxRequestMv : BitVec 32) :
    ∃ c, ComesFirst b maxRequestMv srcCaps c ∧
      pdBuildRequest b srcCaps maxRequestMv .max =
        requestFor b c.ret (srcCaps.getD c.ret 0) := by
  obtain ⟨c, hfirst, hfind⟩ := pdFindPdoIndex_spec b srcCaps maxRequestMv
  refine ⟨c, hfirst, ?_⟩
  rw [pdBuildRequest, if_neg (by decide), hfind]
  rfl

/-- The rest of the request, from the current on. -/
theorem requestFor_of_extract {i ma mv : Nat}
    (hextract : pdExtractPdoPower b pdo = some (ma, mv)) (hfits : ma * mv < 2 ^ 31) :
    requestFor b i pdo =
      if 1000 * b.operatingPowerMw < 2 ^ 31 then
        some ⟨if IsBattery pdo then
            rdoBatt (i + 1) (ma * mv / 1000) (ma * mv / 1000) (mismatchFlags b (ma * mv))
          else rdoFixed (i + 1) ma ma (mismatchFlags b (ma * mv)), ma, mv⟩
      else none := by
  rw [requestFor, hextract]
  simp only [Option.bind_eq_bind, Option.bind_some]
  rw [Nat.mod_eq_of_lt (by omega), int32, if_pos hfits]
  simp only [Option.bind_some]
  by_cases hop : 1000 * b.operatingPowerMw < 2 ^ 31
  · rw [if_pos hop, int32, if_pos hop]
    by_cases hbatt : IsBattery pdo
    · rw [if_pos hbatt]
      exact if_pos hbatt
    · rw [if_neg hbatt]
      exact if_neg hbatt
  · rw [if_neg hop, int32, if_neg hop]
    rfl

end PdPolicy
end CrosEc
