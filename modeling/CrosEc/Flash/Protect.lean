import Mathlib.Tactic
import CrosEc.Lib.Bits

/-!
# `common/flash.c`: the protection that flash reports

`flash_get_protect` looks at each bank once.  What it has seen of a region is kept in two places: a
flag word, which also holds what the GPIO and the persistent state say, and `not_protected[]`.  A
flag that the persistent state puts into the word is taken for a protected bank.
-/

namespace CrosEc
namespace Flash

open Lib

/-! ## Flags -/

/-- `EC_FLASH_PROTECT_RO_AT_BOOT` -/
def protectRoAtBoot : BitVec 32 := 1#32 <<< 0

/-- `EC_FLASH_PROTECT_RO_NOW` -/
def protectRoNow : BitVec 32 := 1#32 <<< 1

/-- `EC_FLASH_PROTECT_ALL_NOW` -/
def protectAllNow : BitVec 32 := 1#32 <<< 2

/-- `EC_FLASH_PROTECT_GPIO_ASSERTED` -/
def protectGpioAsserted : BitVec 32 := 1#32 <<< 3

/-- `EC_FLASH_PROTECT_ERROR_INCONSISTENT` -/
def protectErrorInconsistent : BitVec 32 := 1#32 <<< 5

/-- `EC_FLASH_PROTECT_RW_NOW` -/
def protectRwNow : BitVec 32 := 1#32 <<< 8

/-- `EC_FLASH_PROTECT_ROLLBACK_NOW` -/
def protectRollbackNow : BitVec 32 := 1#32 <<< 10

/-! ## The persistent state -/

/-- `PERSIST_FLAG_PROTECT_RO` -/
def persistFlagProtectRo : BitVec 8 := 0x02

/-- `PSTATE_VALID_FLAGS` -/
def pstateValidFlags : BitVec 8 := 1#8 <<< 0

/-- The fields of `struct persist_state` that are read here. -/
structure PersistState where
  version : BitVec 8
  flags : BitVec 8
  validFields : BitVec 8

/-- The lock flag is known to be set. -/
def PersistState.Locked (pstate : PersistState) : Prop :=
  pstate.version = 3 ∧ pstate.validFields &&& pstateValidFlags ≠ 0#8 ∧
    pstate.flags &&& persistFlagProtectRo ≠ 0#8

instance (pstate : PersistState) : Decidable pstate.Locked :=
  inferInstanceAs (Decidable (_ ∧ _ ∧ _))

/-- `PSTATE_MAGIC_UNLOCKED` -/
def pstateMagicUnlocked : BitVec 32 := 0x4f4e5057

/-- The persistent state: none, a bank of its own (`CONFIG_FLASH_PSTATE_BANK`) or a word in RO -/
inductive Pstate
  | none
  | bank (state : PersistState)
  | word (magic : BitVec 32)

/-- The persistent state says that RO is protected at boot. -/
def Pstate.Locked : Pstate → Prop
  | .none => False
  | .bank state => state.Locked
  | .word magic => magic ≠ pstateMagicUnlocked

/-- `flash_read_pstate` -/
def flashReadPstate (wpAlways : Bool) : Pstate → BitVec 32
  | .none => 0
  | .bank state =>
      if state.Locked then protectRoAtBoot
      else if wpAlways then persistFlagProtectRo.setWidth 32
      else 0
  | .word magic => if magic = pstateMagicUnlocked then 0 else protectRoAtBoot

/-! ## The scan -/

inductive FlashRegion
  | rw
  | ro
  | rollback
deriving DecidableEq

/-- The flag of a region that has a protected bank -/
def FlashRegion.bankFlag : FlashRegion → BitVec 32
  | .rw => protectRwNow
  | .ro => protectRoNow
  | .rollback => protectRollbackNow

/-- The write protect signal -/
inductive WriteProtect
  | always
  | activeHigh (level : Bool)
  | activeLow (level : Bool)

def WriteProtect.asserted : WriteProtect → Bool
  | .always => true
  | .activeHigh level => level
  | .activeLow level => !level

/-- What the build and the board give to `flash_get_protect`. -/
structure ProtectConfig where
  writeProtect : WriteProtect
  pstate : Pstate
  /-- `CONFIG_FLASH_PROTECT_RW` -/
  protectRw : Bool
  physicalBanks : Nat
  wpBankOffset : Int
  wpBankCount : Int
  /-- `ROLLBACK_BANK_OFFSET` and `ROLLBACK_BANK_COUNT`, with `CONFIG_ROLLBACK` -/
  rollback : Option (Int × Int)

namespace ProtectConfig

/-- `CONFIG_WP_ALWAYS` -/
def wpAlways (config : ProtectConfig) : Bool :=
  match config.writeProtect with
  | .always => true
  | _ => false

/-- The region of a bank -/
def region (config : ProtectConfig) (i : Nat) : FlashRegion :=
  let isRo := config.wpBankOffset ≤ i ∧ i < config.wpBankOffset + config.wpBankCount
  let region := if isRo then .ro else .rw
  match config.rollback with
  | some (offset, count) => if offset ≤ i ∧ i < offset + count then .rollback else region
  | none => region

/-- The regions that flash has. -/
def regions (config : ProtectConfig) : List FlashRegion :=
  match config.rollback with
  | some _ => [.ro, .rw, .rollback]
  | none => [.ro, .rw]

/-- The flags that must be set to set the `ALL_NOW` flag. -/
def allFlags (config : ProtectConfig) : BitVec 32 :=
  match config.rollback with
  | some _ => protectRoNow ||| protectRwNow ||| protectRollbackNow
  | none => protectRoNow ||| protectRwNow

end ProtectConfig

/-- `flags` and `not_protected[]` -/
structure ProtectScan where
  flags : BitVec 32
  notProtected : FlashRegion → Bool

/-- One turn of the scan, for a bank of `region` -/
def scanBank (scan : ProtectScan) (region : FlashRegion) (protects : Bool) : ProtectScan :=
  if protects then
    let flags := scan.flags ||| region.bankFlag
    { scan with
      flags := if scan.notProtected region then flags ||| protectErrorInconsistent else flags }
  else
    { flags :=
        if scan.flags &&& region.bankFlag ≠ 0#32 then scan.flags ||| protectErrorInconsistent
        else scan.flags
      notProtected := Function.update scan.notProtected region true }

/-- The scan of the first `n` banks, where `protects` is `flash_physical_get_protect`. -/
def scanBanks (config : ProtectConfig) (protects : Nat → Bool) (flags : BitVec 32) (n : Nat) :
    ProtectScan :=
  (List.range n).foldl (fun scan i => scanBank scan (config.region i) (protects i))
    { flags := flags, notProtected := fun _ => false }

/-- What the GPIO and the persistent state put into the word. -/
def protectSources (config : ProtectConfig) : BitVec 32 :=
  let flags := if config.writeProtect.asserted then protectGpioAsserted else 0
  flags ||| flashReadPstate config.wpAlways config.pstate

/-- What is concluded once the banks are scanned. -/
def protectConclude (config : ProtectConfig) (flags : BitVec 32) : BitVec 32 :=
  let flags :=
    if flags &&& config.allFlags = config.allFlags then flags ||| protectAllNow else flags
  let flags :=
    if flags &&& config.allFlags ≠ 0#32 ∧ flags &&& protectRoNow = 0#32 then
      flags ||| protectErrorInconsistent
    else flags
  if config.protectRw then flags else flags &&& ~~~protectRwNow

/-- `flash_get_protect`, where `physicalFlags` is `flash_physical_get_protect_flags`. -/
def flashGetProtect (config : ProtectConfig) (protects : Nat → Bool) (physicalFlags : BitVec 32) :
    BitVec 32 :=
  let flags := protectSources config
  let flags := (scanBanks config protects flags config.physicalBanks).flags
  protectConclude config flags ||| physicalFlags

/-! ## The protection there is -/

section Scan

variable (config : ProtectConfig) (protects : Nat → Bool) (flags : BitVec 32)

/-- One of the first `n` banks of the region is protected, or is not. -/
def Seen (protection : Bool) (n : Nat) (region : FlashRegion) : Prop :=
  ∃ i < n, config.region i = region ∧ protects i = protection

theorem not_seen_zero (protection : Bool) (region : FlashRegion) :
    ¬Seen config protects protection 0 region :=
  fun ⟨_, hi, _⟩ => absurd hi (Nat.not_lt_zero _)

theorem seen_succ (protection : Bool) (n : Nat) (region : FlashRegion) :
    Seen config protects protection (n + 1) region ↔
      Seen config protects protection n region ∨
        (config.region n = region ∧ protects n = protection) := by
  constructor
  · rintro ⟨i, hi, h⟩
    obtain hlt | rfl := Nat.lt_succ_iff_lt_or_eq.mp hi
    · exact Or.inl ⟨i, hlt, h⟩
    · exact Or.inr h
  · rintro (⟨i, hi, h⟩ | h)
    · exact ⟨i, by omega, h⟩
    · exact ⟨n, by omega, h⟩

/-- The bit of a region's flag -/
def FlashRegion.bit : FlashRegion → Nat
  | .rw => 8
  | .ro => 1
  | .rollback => 10

theorem FlashRegion.bankFlag_eq (region : FlashRegion) : region.bankFlag = 1#32 <<< region.bit := by
  cases region <;> rfl

theorem FlashRegion.bit_inj {region other : FlashRegion} :
    region.bit = other.bit ↔ region = other := by
  cases region <;> cases other <;> decide

theorem FlashRegion.bit_lt (region : FlashRegion) : region.bit < 32 := by
  cases region <;> decide

theorem and_bankFlag_ne_zero_iff (x : BitVec 32) (region : FlashRegion) :
    x &&& region.bankFlag ≠ 0#32 ↔ x.getLsbD region.bit := by
  rw [region.bankFlag_eq, and_bit_ne_zero_iff x region.bit_lt]

theorem getLsbD_or_bankFlag (x : BitVec 32) (region : FlashRegion) (j : Nat) :
    (x ||| region.bankFlag).getLsbD j = (x.getLsbD j || decide (region.bit = j)) := by
  rw [region.bankFlag_eq, getLsbD_or_bit x region.bit_lt]

theorem getLsbD_or_inconsistent (x : BitVec 32) (j : Nat) :
    (x ||| protectErrorInconsistent).getLsbD j = (x.getLsbD j || decide (5 = j)) :=
  getLsbD_or_bit x (by decide) j

variable (scan : ProtectScan) (region other : FlashRegion) (protection : Bool)

theorem scanBank_bankFlag :
    (scanBank scan region protection).flags.getLsbD other.bit =
      (scan.flags.getLsbD other.bit || (protection && decide (region = other))) := by
  have hother : 5 ≠ other.bit := by cases other <;> decide
  rw [scanBank]
  cases protection with
  | true =>
      by_cases h : scan.notProtected region <;>
        simp only [if_true, h, Bool.false_eq_true, if_false, getLsbD_or_inconsistent,
          getLsbD_or_bankFlag, hother, decide_false, Bool.or_false, Bool.true_and,
          FlashRegion.bit_inj]
  | false =>
      simp only [Bool.false_eq_true, if_false, and_bankFlag_ne_zero_iff]
      cases h : scan.flags.getLsbD region.bit <;>
        simp only [Bool.false_eq_true, if_false, if_true, getLsbD_or_inconsistent, hother,
          decide_false, Bool.or_false, Bool.false_and]

theorem scanBank_notProtected :
    (scanBank scan region protection).notProtected other =
      (scan.notProtected other || (!protection && decide (region = other))) := by
  rw [scanBank]
  cases protection with
  | true => simp
  | false =>
      by_cases h : other = region
      · subst h
        simp
      · simp [Function.update_of_ne h, Ne.symm h]

/-- A turn finds a region inconsistent when what it sees is not what was seen before. -/
theorem scanBank_inconsistent :
    (scanBank scan region protection).flags.getLsbD 5 =
      (scan.flags.getLsbD 5 ||
        if protection then scan.notProtected region else scan.flags.getLsbD region.bit) := by
  have hregion : region.bit ≠ 5 := by cases region <;> decide
  rw [scanBank]
  cases protection with
  | true =>
      cases h : scan.notProtected region <;>
        simp only [if_true, Bool.false_eq_true, if_false, getLsbD_or_inconsistent,
          getLsbD_or_bankFlag, hregion, decide_false, decide_true, Bool.or_false, Bool.or_true]
  | false =>
      simp only [Bool.false_eq_true, if_false, and_bankFlag_ne_zero_iff]
      cases h : scan.flags.getLsbD region.bit <;>
        simp only [if_true, Bool.false_eq_true, if_false, getLsbD_or_inconsistent, decide_true,
          Bool.or_false, Bool.or_true]

theorem scanBank_frame {j : Nat} (hj : j ≠ 5) (hregion : region.bit ≠ j) :
    (scanBank scan region protection).flags.getLsbD j = scan.flags.getLsbD j := by
  rw [scanBank]
  cases protection <;> simp only [Bool.false_eq_true, if_false, if_true] <;> split_ifs <;>
    simp only [getLsbD_or_inconsistent, getLsbD_or_bankFlag, hregion, hj.symm, decide_false,
      Bool.or_false]

/-- What the word and `not_protected[]` hold once `n` banks are scanned. -/
structure Scanned (n : Nat) (scan : ProtectScan) : Prop where
  bankFlag : ∀ region, scan.flags.getLsbD region.bit = true ↔
    flags.getLsbD region.bit = true ∨ Seen config protects true n region
  notProtected : ∀ region, scan.notProtected region = true ↔ Seen config protects false n region
  inconsistent : scan.flags.getLsbD 5 = true ↔ flags.getLsbD 5 = true ∨
    ∃ region, (flags.getLsbD region.bit = true ∨ Seen config protects true n region) ∧
      Seen config protects false n region
  frame : ∀ j, j ≠ 5 → (∀ region : FlashRegion, region.bit ≠ j) →
    scan.flags.getLsbD j = flags.getLsbD j

/-- The turn of bank `n` -/
theorem Scanned.step {n : Nat} {scan : ProtectScan} (h : Scanned config protects flags n scan) :
    Scanned config protects flags (n + 1)
      (scanBank scan (config.region n) (protects n)) := by
  refine ⟨fun region => ?_, fun region => ?_, ?_, fun j hj hregion => ?_⟩
  · rw [scanBank_bankFlag, Bool.or_eq_true, h.bankFlag, seen_succ, or_assoc]
    simp only [Bool.and_eq_true, decide_eq_true_eq, and_comm]
  · rw [scanBank_notProtected, Bool.or_eq_true, h.notProtected, seen_succ]
    simp only [Bool.and_eq_true, Bool.not_eq_true', decide_eq_true_eq, and_comm]
  · have hflag := h.bankFlag (config.region n)
    have hnot := h.notProtected (config.region n)
    rw [scanBank_inconsistent, Bool.or_eq_true, h.inconsistent]
    simp only [seen_succ]
    cases hprotects : protects n with
    | true => grind
    | false => grind
  · rw [scanBank_frame _ _ _ hj (hregion _), h.frame j hj hregion]

theorem scanned_scanBanks (n : Nat) :
    Scanned config protects flags n (scanBanks config protects flags n) := by
  induction n with
  | zero =>
      refine ⟨fun region => ?_, fun region => ?_, ?_, fun _ _ _ => rfl⟩
      · simp only [not_seen_zero, or_false]
        rfl
      · simp only [not_seen_zero, iff_false]
        exact Bool.false_ne_true
      · simp only [not_seen_zero, and_false, exists_false, or_false]
        rfl
  | succ n ih =>
      rw [scanBanks, List.range_succ, List.foldl_append]
      exact ih.step

end Scan

/-! ## What is reported -/

section Report

variable (config : ProtectConfig) (protects : Nat → Bool)

theorem region_mem_regions (i : Nat) : config.region i ∈ config.regions := by
  rw [ProtectConfig.region, ProtectConfig.regions]
  cases config.rollback with
  | none =>
      dsimp only
      split_ifs <;> decide
  | some banks =>
      dsimp only
      split_ifs <;> decide

theorem getLsbD_allFlags (j : Nat) :
    config.allFlags.getLsbD j = true ↔ ∃ region ∈ config.regions, region.bit = j := by
  rw [ProtectConfig.allFlags, ProtectConfig.regions]
  cases config.rollback with
  | none =>
      simp only [protectRoNow, protectRwNow, BitVec.getLsbD_or, Bool.or_eq_true,
        getLsbD_bit (w := 32) (i := 1) (by decide), getLsbD_bit (w := 32) (i := 8) (by decide),
        decide_eq_true_eq, List.mem_cons, List.not_mem_nil, or_false, exists_eq_or_imp,
        exists_eq_left, FlashRegion.bit]
  | some banks =>
      simp only [protectRoNow, protectRwNow, protectRollbackNow, BitVec.getLsbD_or, Bool.or_eq_true,
        getLsbD_bit (w := 32) (i := 1) (by decide), getLsbD_bit (w := 32) (i := 8) (by decide),
        getLsbD_bit (w := 32) (i := 10) (by decide), or_assoc,
        decide_eq_true_eq, List.mem_cons, List.not_mem_nil, or_false, exists_eq_or_imp,
        exists_eq_left, FlashRegion.bit]

theorem and_allFlags_eq_iff (flags : BitVec 32) :
    flags &&& config.allFlags = config.allFlags ↔
      ∀ region ∈ config.regions, flags.getLsbD region.bit = true := by
  simp only [and_eq_mask_iff, getLsbD_allFlags, forall_exists_index, and_imp,
    forall_apply_eq_imp_iff₂]

theorem and_allFlags_ne_zero_iff (flags : BitVec 32) :
    flags &&& config.allFlags ≠ 0#32 ↔
      ∃ region ∈ config.regions, flags.getLsbD region.bit = true := by
  simp only [and_mask_ne_zero_iff, getLsbD_allFlags]
  constructor
  · rintro ⟨_, ⟨region, hmem, rfl⟩, h⟩
    exact ⟨region, hmem, h⟩
  · rintro ⟨region, hmem, h⟩
    exact ⟨region.bit, ⟨region, hmem, rfl⟩, h⟩

/-- The flag of RO is put into the word though no bank is protected. -/
def Mistaken : Prop :=
  config.writeProtect = .always ∧ ∃ state, config.pstate = .bank state ∧ ¬state.Locked

/-- The persistent state puts in one flag at most. -/
theorem flashReadPstate_eq :
    flashReadPstate config.wpAlways config.pstate = protectRoAtBoot ∧ config.pstate.Locked ∧
        ¬Mistaken config ∨
      flashReadPstate config.wpAlways config.pstate = protectRoNow ∧ ¬config.pstate.Locked ∧
        Mistaken config ∨
      flashReadPstate config.wpAlways config.pstate = 0 ∧ ¬config.pstate.Locked ∧
        ¬Mistaken config := by
  rw [Mistaken, flashReadPstate.eq_def, ProtectConfig.wpAlways]
  cases config.pstate with
  | none => exact Or.inr (Or.inr ⟨rfl, id, by simp⟩)
  | bank state =>
      by_cases h : state.Locked
      · exact Or.inl ⟨if_pos h, h, by simp [h]⟩
      · cases config.writeProtect with
        | always => exact Or.inr (Or.inl ⟨by simp [h]; rfl, h, rfl, state, rfl, h⟩)
        | activeHigh level => exact Or.inr (Or.inr ⟨by simp [h], h, by simp⟩)
        | activeLow level => exact Or.inr (Or.inr ⟨by simp [h], h, by simp⟩)
  | word magic =>
      by_cases h : magic = pstateMagicUnlocked
      · exact Or.inr (Or.inr ⟨if_pos h, not_not.mpr h, by simp⟩)
      · exact Or.inl ⟨if_neg h, h, by simp⟩

theorem getLsbD_protectSources {j : Nat} (hj : j ≠ 3) :
    (protectSources config).getLsbD j = true ↔
      j = 0 ∧ config.pstate.Locked ∨ j = 1 ∧ Mistaken config := by
  have hgpio : (if config.writeProtect.asserted then protectGpioAsserted else 0).getLsbD j =
      false := by
    split
    · rw [protectGpioAsserted, getLsbD_bit (by decide), decide_eq_false (Ne.symm hj)]
    · exact BitVec.getLsbD_zero
  rw [protectSources, BitVec.getLsbD_or, hgpio, Bool.false_or]
  obtain ⟨heq, hlocked, hmistaken⟩ | ⟨heq, hlocked, hmistaken⟩ | ⟨heq, hlocked, hmistaken⟩ :=
    flashReadPstate_eq config
  · rw [heq, protectRoAtBoot, getLsbD_bit (by decide), decide_eq_true_eq]
    simp [hlocked, hmistaken, eq_comm]
  · rw [heq, protectRoNow, getLsbD_bit (by decide), decide_eq_true_eq]
    simp [hlocked, hmistaken, eq_comm]
  · rw [heq]
    simp [hlocked, hmistaken]

variable {config} (flags : BitVec 32)

/-- A flag that is concluded -/
theorem getLsbD_ite_or (p : Prop) [Decidable p] {i : Nat} (hi : i < 32) (j : Nat) :
    (if p then flags ||| 1#32 <<< i else flags).getLsbD j =
      (flags.getLsbD j || (decide p && decide (i = j))) := by
  by_cases h : p
  · rw [if_pos h, getLsbD_or_bit flags hi, decide_eq_true h, Bool.true_and]
  · rw [if_neg h, decide_eq_false h, Bool.false_and, Bool.or_false]

theorem getLsbD_ite_and_not (p : Prop) [Decidable p] {i j : Nat} (hj : j < 32) (hne : i ≠ j) :
    (if p then flags else flags &&& ~~~(1#32 <<< i)).getLsbD j = flags.getLsbD j := by
  split
  · rfl
  · rw [getLsbD_and_not_bit flags hj, decide_eq_false hne, Bool.not_false, Bool.and_true]

theorem getLsbD_protectConclude {j : Nat} (hj : j < 32) (hrw : 8 ≠ j) :
    (protectConclude config flags).getLsbD j = true ↔
      flags.getLsbD j = true ∨
        2 = j ∧ (∀ region ∈ config.regions, flags.getLsbD region.bit = true) ∨
        5 = j ∧ (∃ region ∈ config.regions, flags.getLsbD region.bit = true) ∧
          flags.getLsbD 1 = false := by
  have hall (region : FlashRegion) :
      (if flags &&& config.allFlags = config.allFlags then flags ||| protectAllNow
        else flags).getLsbD region.bit = flags.getLsbD region.bit := by
    have hne : (2 : Nat) ≠ region.bit := by cases region <;> decide
    rw [protectAllNow, getLsbD_ite_or flags _ (by decide), decide_eq_false hne, Bool.and_false,
      Bool.or_false]
  have hro : (if flags &&& config.allFlags = config.allFlags then flags ||| protectAllNow
      else flags) &&& protectRoNow = 0#32 ↔ flags.getLsbD 1 = false := by
    rw [← not_iff_not, ← ne_eq, protectRoNow, and_bit_ne_zero_iff _ (by decide),
      ← Bool.not_eq_false]
    exact not_congr (iff_of_eq (congrArg (· = false) (hall .ro)))
  rw [protectConclude, protectRwNow, getLsbD_ite_and_not _ _ hj hrw, protectErrorInconsistent,
    getLsbD_ite_or _ _ (by decide)]
  simp only [and_allFlags_ne_zero_iff, hall, hro]
  rw [protectAllNow, getLsbD_ite_or flags _ (by decide)]
  simp only [and_allFlags_eq_iff, Bool.or_eq_true, Bool.and_eq_true, decide_eq_true_eq]
  tauto

variable (config)

/-- What `flash_get_protect` is to say. -/
def ReportsProtection : Prop :=
  let flags := flashGetProtect config protects 0
  let someProtected := Seen config protects true config.physicalBanks
  let someUnprotected := Seen config protects false config.physicalBanks
  (flags &&& protectRoNow ≠ 0#32 ↔ someProtected .ro) ∧
  (flags &&& protectAllNow ≠ 0#32 ↔ ∀ region ∈ config.regions, someProtected region) ∧
  (flags &&& protectErrorInconsistent ≠ 0#32 ↔
    (∃ region, someProtected region ∧ someUnprotected region) ∨
      (∃ region, region ≠ .ro ∧ someProtected region) ∧ ¬someProtected .ro) ∧
  (flags &&& protectRoAtBoot ≠ 0#32 ↔ config.pstate.Locked)

/-- A region counts as protected when one of its banks is, and RO also when its flag is mistaken. -/
def Counted (region : FlashRegion) : Prop :=
  region = .ro ∧ Mistaken config ∨ Seen config protects true config.physicalBanks region

theorem counted_iff (h : Mistaken config → Seen config protects true config.physicalBanks .ro)
    (region : FlashRegion) :
    Counted config protects region ↔ Seen config protects true config.physicalBanks region := by
  constructor
  · rintro (⟨rfl, hmistaken⟩ | hseen)
    · exact h hmistaken
    · exact hseen
  · exact Or.inr

/-- What counts is what the scan starts from and what it sees. -/
theorem protectSources_or_seen_iff (region : FlashRegion) :
    (protectSources config).getLsbD region.bit = true ∨
      Seen config protects true config.physicalBanks region ↔ Counted config protects region := by
  rw [Counted, getLsbD_protectSources config (by cases region <;> decide)]
  cases region <;> simp [FlashRegion.bit]

/-- The bits of the result -/
theorem getLsbD_flashGetProtect :
    let flags := flashGetProtect config protects 0
    (flags.getLsbD 0 = true ↔ config.pstate.Locked) ∧
    (flags.getLsbD 1 = true ↔ Counted config protects .ro) ∧
    (flags.getLsbD 2 = true ↔ ∀ region ∈ config.regions, Counted config protects region) ∧
    (flags.getLsbD 5 = true ↔
      (∃ region, Counted config protects region ∧
        Seen config protects false config.physicalBanks region) ∨
      (∃ region ∈ config.regions, Counted config protects region) ∧
        ¬Counted config protects .ro) := by
  intro flags
  have hscan := scanned_scanBanks config protects (protectSources config) config.physicalBanks
  have hcounted (region : FlashRegion) :
      (scanBanks config protects (protectSources config) config.physicalBanks).flags.getLsbD
        region.bit = true ↔ Counted config protects region :=
    (hscan.bankFlag region).trans (protectSources_or_seen_iff config protects region)
  have hro : (scanBanks config protects (protectSources config) config.physicalBanks).flags.getLsbD
      1 = true ↔ Counted config protects .ro := hcounted .ro
  have hflags : flags = protectConclude config
      (scanBanks config protects (protectSources config) config.physicalBanks).flags :=
    BitVec.or_zero
  rw [hflags]
  refine ⟨?_, ?_, ?_, ?_⟩
  · rw [getLsbD_protectConclude _ (by decide) (by decide),
      hscan.frame 0 (by decide) (by intro region; cases region <;> decide),
      getLsbD_protectSources config (by decide)]
    simp
  · rw [getLsbD_protectConclude _ (by decide) (by decide)]
    simpa using hro
  · rw [getLsbD_protectConclude _ (by decide) (by decide),
      hscan.frame 2 (by decide) (by intro region; cases region <;> decide),
      getLsbD_protectSources config (by decide)]
    simp [hcounted]
  · rw [getLsbD_protectConclude _ (by decide) (by decide), hscan.inconsistent,
      getLsbD_protectSources config (by decide)]
    simp only [hcounted, protectSources_or_seen_iff, ← Bool.not_eq_true, hro]
    simp

/-- Flash reports the protection there is exactly when the flag of RO is not mistaken, or is right
all the same. -/
theorem reportsProtection_iff :
    ReportsProtection config protects ↔
      (Mistaken config → Seen config protects true config.physicalBanks .ro) := by
  obtain ⟨hboot, hro, hall, hinconsistent⟩ := getLsbD_flashGetProtect config protects
  rw [ReportsProtection, protectRoNow, protectAllNow, protectErrorInconsistent, protectRoAtBoot,
    and_bit_ne_zero_iff _ (by decide), and_bit_ne_zero_iff _ (by decide),
    and_bit_ne_zero_iff _ (by decide), and_bit_ne_zero_iff _ (by decide), hboot, hro, hall,
    hinconsistent]
  constructor
  · rintro ⟨h, _⟩ hmistaken
    exact h.mp (Or.inl ⟨rfl, hmistaken⟩)
  · intro h
    simp only [counted_iff config protects h]
    refine ⟨trivial, trivial, or_congr Iff.rfl (and_congr_left fun hnone => ?_), trivial⟩
    constructor
    · rintro ⟨region, _, hseen⟩
      exact ⟨region, fun heq => hnone (heq ▸ hseen), hseen⟩
    · rintro ⟨region, _, i, hi, rfl, hseen⟩
      exact ⟨config.region i, region_mem_regions config i, i, hi, rfl, hseen⟩

end Report

/-- Four banks that nothing protects, two of them RO, with an erased persistent state -/
def erasedBoard : ProtectConfig where
  writeProtect := .always
  pstate := .bank { version := 0xff, flags := 0xff, validFields := 0xff }
  protectRw := false
  physicalBanks := 4
  wpBankOffset := 0
  wpBankCount := 2
  rollback := none

/-- RO is reported as protected, and as inconsistent. -/
theorem not_reportsProtection_erasedBoard :
    ¬ReportsProtection erasedBoard fun _ => false := by
  rintro ⟨hro, _⟩
  have hflag : flashGetProtect erasedBoard (fun _ => false) 0 &&& protectRoNow ≠ 0#32 := by decide
  obtain ⟨_, _, _, hprotects⟩ := hro.mp hflag
  exact Bool.false_ne_true hprotects

end Flash
end CrosEc
