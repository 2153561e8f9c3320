import CrosEc.Common

/-!
# `common/ccd_config.c`: the configuration

The configuration of case-closed debugging: flags, the state of every capability in two bits, and
the salt and the digest of the password.  The names and the default states of the capabilities
depend on the build (`CONFIG_CCD_OPEN_PREPVT`).
-/

namespace CrosEc
namespace Ccd

open Lib

/-! ## Strings -/

/-- `strcasecmp(a, b) == 0` -/
def strcasecmp (a b : List Char) : Bool := a.map Char.toLower = b.map Char.toLower

/-- `strncasecmp(s, start, strlen(start)) == 0` -/
def strncasecmp (s start : List Char) : Bool := strcasecmp (s.take start.length) start

/-- `parse_bool` of `common/util.c`; `none` is a return of 0. -/
def parseBool (s : List Char) : Option Bool :=
  let first := (s.map Char.toLower).head?
  if strcasecmp s "off".toList || strncasecmp s "dis".toList || first = some 'f' ||
      first = some 'n' then some false
  else if strcasecmp s "on".toList || strncasecmp s "ena".toList || first = some 't' ||
      first = some 'y' then some true
  else none

/-! ## Enumerations -/

/-- `enum ccd_state` -/
inductive CcdState where
  | locked
  | unlocked
  | opened
  deriving DecidableEq

/-- `enum ccd_capability_state` -/
inductive CapState where
  | default
  | always
  | unlessLocked
  | ifOpened
  deriving DecidableEq

def CapState.toBits : CapState → BitVec 2
  | .default => 0
  | .always => 1
  | .unlessLocked => 2
  | .ifOpened => 3

def CapState.ofBits (b : BitVec 2) : CapState :=
  if b = 0 then .default else if b = 1 then .always else if b = 2 then .unlessLocked else .ifOpened

@[simp] theorem CapState.ofBits_toBits (state : CapState) : ofBits state.toBits = state := by
  cases state <;> rfl

/-- `CCD_CAP_STATE_NAMES` -/
def CapState.name : CapState → List Char
  | .default => "Default".toList
  | .always => "Always".toList
  | .unlessLocked => "UnlessLocked".toList
  | .ifOpened => "IfOpened".toList

/-- The loop of `command_ccd_set` over the names of the states. -/
def CapState.ofName (name : List Char) : Option CapState :=
  [default, always, unlessLocked, ifOpened].find? fun state => strcasecmp name state.name

/-- `enum ccd_capability` -/
inductive Capability where
  | gscRxApTx
  | gscTxApRx
  | gscRxEcTx
  | gscTxEcRx
  | apFlash
  | ecFlash
  | overrideWp
  | rebootEcAp
  | gscRestrictedConsole
  | unlockWithoutApReboot
  | unlockWithoutShortPp
  | openWithoutTpmWipe
  | openWithoutLongPp
  | removeBatteryBypassesPp
  | gscFwUpdateWithoutTpmWipe
  | i2c
  | flashRead
  | openWithoutDevMode
  | openFromUsb
  deriving DecidableEq

namespace Capability

/-- Every capability, in the order of `enum ccd_capability`. -/
def all : List Capability :=
  [gscRxApTx, gscTxApRx, gscRxEcTx, gscTxEcRx, apFlash, ecFlash, overrideWp, rebootEcAp,
   gscRestrictedConsole, unlockWithoutApReboot, unlockWithoutShortPp, openWithoutTpmWipe,
   openWithoutLongPp, removeBatteryBypassesPp, gscFwUpdateWithoutTpmWipe, i2c, flashRead,
   openWithoutDevMode, openFromUsb]

theorem mem_all (cap : Capability) : cap ∈ all := by
  cases cap <;> decide

/-- The number of a capability. -/
def number (cap : Capability) : Nat := all.idxOf cap

theorem getElem?_number (cap : Capability) : all[cap.number]? = some cap := by
  cases cap <;> rfl

theorem number_injective : Function.Injective number := by
  intro cap cap' h
  have hsame := getElem?_number cap
  rw [h, getElem?_number cap'] at hsame
  exact (Option.some.inj hsame).symm

theorem number_lt (cap : Capability) : cap.number < 32 := by
  cases cap <;> decide

/-- `CAP_INFO_DATA`: the name of the capability and its default state.  A pre-PVT image allows to
open from the console without dev mode. -/
def info (openPrepvt : Bool) : Capability → List Char × CapState
  | gscRxApTx => ("UartGscRxAPTx".toList, .always)
  | gscTxApRx => ("UartGscTxAPRx".toList, .always)
  | gscRxEcTx => ("UartGscRxECTx".toList, .always)
  | gscTxEcRx => ("UartGscTxECRx".toList, .ifOpened)
  | apFlash => ("FlashAP".toList, .ifOpened)
  | ecFlash => ("FlashEC".toList, .ifOpened)
  | overrideWp => ("OverrideWP".toList, .ifOpened)
  | rebootEcAp => ("RebootECAP".toList, .ifOpened)
  | gscRestrictedConsole => ("GscFullConsole".toList, .ifOpened)
  | unlockWithoutApReboot => ("UnlockNoReboot".toList, .always)
  | unlockWithoutShortPp => ("UnlockNoShortPP".toList, .always)
  | openWithoutTpmWipe => ("OpenNoTPMWipe".toList, .ifOpened)
  | openWithoutLongPp => ("OpenNoLongPP".toList, .ifOpened)
  | removeBatteryBypassesPp => ("BatteryBypassPP".toList, .always)
  | gscFwUpdateWithoutTpmWipe => ("UpdateNoTPMWipe".toList, .always)
  | i2c => ("I2C".toList, .ifOpened)
  | flashRead => ("FlashRead".toList, .always)
  | openWithoutDevMode => ("OpenNoDevMode".toList, if openPrepvt then .always else .ifOpened)
  | openFromUsb => ("OpenFromUSB".toList, if openPrepvt then .always else .ifOpened)

/-- `ccd_cap_from_name`; `none` is `CCD_CAP_COUNT`. -/
def ofName (openPrepvt : Bool) (name : List Char) : Option Capability :=
  all.find? fun cap => strcasecmp name (cap.info openPrepvt).1

end Capability

/-! ## Flags -/

/-- `enum ccd_flag` -/
def flagTestLab : BitVec 24 := 1#24 <<< 0
def flagPasswordSetWhenUnlocked : BitVec 24 := 1#24 <<< 1
def flagFactoryModeEnabled : BitVec 24 := 1#24 <<< 2
def flagOverrideWpAtBoot : BitVec 24 := 1#24 <<< 22
def flagOverrideWpStateEnabled : BitVec 24 := 1#24 <<< 23

/-- Flags which can be set via `ccd_set_flag`. -/
def publicFlags : BitVec 24 := flagOverrideWpAtBoot ||| flagOverrideWpStateEnabled

/-! ## The structure and its raw accessors -/

def ccdConfigVersion : UInt8 := 0x10

/-- `struct ccd_config`; the three bytes of the flags are one number. -/
structure Config where
  version : UInt8
  flags : BitVec 24
  capabilities : Fin 8 → BitVec 8
  passwordSalt : BitVec 32
  passwordDigest : BitVec 128
  deriving DecidableEq

namespace Config

/-- `memset(&config, 0, sizeof(config))` -/
def zero : Config := ⟨0, 0, fun _ => 0, 0, 0⟩

/-- `raw_set_flag` -/
def rawSetFlag (flag : BitVec 24) (value : Bool) (c : Config) : Config :=
  { c with flags := if value then c.flags ||| flag else c.flags &&& ~~~flag }

/-- The byte of a capability, and where it is in there. -/
def capIndex (cap : Capability) : Fin 8 := Fin.ofNat 8 (cap.number / 4)
def capShift (cap : Capability) : Nat := cap.number % 4 * 2

/-- `raw_get_cap(cap, 0)` -/
def rawGetCap (c : Config) (cap : Capability) : CapState :=
  .ofBits ((c.capabilities (capIndex cap) >>> capShift cap).setWidth 2)

/-- `raw_get_cap(cap, 1)` -/
def effectiveCap (openPrepvt : Bool) (c : Config) (cap : Capability) : CapState :=
  if c.rawGetCap cap = .default then (cap.info openPrepvt).2 else c.rawGetCap cap

/-- `raw_set_cap` -/
def rawSetCap (cap : Capability) (state : CapState) (c : Config) : Config :=
  { c with
    capabilities := Function.update c.capabilities (capIndex cap)
      ((c.capabilities (capIndex cap) &&& ~~~((3 : BitVec 8) <<< capShift cap)) |||
        (state.toBits.setWidth 8 <<< capShift cap)) }

/-- `raw_check_all_caps_default` -/
def rawCheckAllCapsDefault (c : Config) : Bool :=
  Capability.all.all fun cap => c.rawGetCap cap = .default

/-- `raw_has_password`: a password is set unless salt and digest are all zero. -/
def rawHasPassword (c : Config) : Bool := c.passwordSalt ≠ 0 || c.passwordDigest ≠ 0

/-- `raw_reset_password` -/
def rawResetPassword (c : Config) : Config :=
  { c with passwordSalt := 0, passwordDigest := 0 }.rawSetFlag flagPasswordSetWhenUnlocked false

/-- `raw_set_password`, with a new salt and the digest that belongs to it -/
def rawSetPassword (digest : BitVec 32 → List Char → BitVec 128) (salt : BitVec 32)
    (password : List Char) (whenUnlocked : Bool) (c : Config) : Config :=
  { c with passwordSalt := salt, passwordDigest := digest salt password }.rawSetFlag
    flagPasswordSetWhenUnlocked whenUnlocked

/-! ## What the accessors keep -/

@[simp] theorem rawSetFlag_capabilities (c : Config) (flag : BitVec 24) (value : Bool) :
    (c.rawSetFlag flag value).capabilities = c.capabilities := rfl

@[simp] theorem rawGetCap_rawSetFlag (c : Config) (flag : BitVec 24) (value : Bool)
    (cap : Capability) : (c.rawSetFlag flag value).rawGetCap cap = c.rawGetCap cap := rfl

@[simp] theorem rawSetFlag_passwordSalt (c : Config) (flag : BitVec 24) (value : Bool) :
    (c.rawSetFlag flag value).passwordSalt = c.passwordSalt := rfl

@[simp] theorem rawSetFlag_passwordDigest (c : Config) (flag : BitVec 24) (value : Bool) :
    (c.rawSetFlag flag value).passwordDigest = c.passwordDigest := rfl

@[simp] theorem rawSetCap_flags (c : Config) (cap : Capability) (state : CapState) :
    (c.rawSetCap cap state).flags = c.flags := rfl

@[simp] theorem rawSetCap_passwordSalt (c : Config) (cap : Capability) (state : CapState) :
    (c.rawSetCap cap state).passwordSalt = c.passwordSalt := rfl

@[simp] theorem rawSetCap_passwordDigest (c : Config) (cap : Capability) (state : CapState) :
    (c.rawSetCap cap state).passwordDigest = c.passwordDigest := rfl

/-- Two bits of a byte are replaced. -/
theorem getField_setField (b : BitVec 8) (v : BitVec 2) {k l : Nat} (hl : l < 4) :
    (((b &&& ~~~((3 : BitVec 8) <<< (k * 2))) |||
        (v.setWidth 8 <<< (k * 2))) >>> (l * 2)).setWidth 2 =
      if k = l then v else (b >>> (l * 2)).setWidth 2 := by
  have hthree : ∀ i, (3 : BitVec 8).getLsbD i = decide (i < 2) := by
    intro i
    by_cases hi : i < 8
    · interval_cases i <;> rfl
    · rw [BitVec.getLsbD_of_ge _ _ (by lia)]
      simp
      lia
  apply BitVec.eq_of_getLsbD_eq
  intro i hi
  have hin : l * 2 + i < 8 := by lia
  simp only [BitVec.getLsbD_setWidth, BitVec.getLsbD_ushiftRight, BitVec.getLsbD_or,
    BitVec.getLsbD_and, BitVec.getLsbD_not, BitVec.getLsbD_shiftLeft, hthree]
  by_cases hkl : k = l
  · subst hkl
    have hat : k * 2 + i - k * 2 = i := by lia
    simp [hin, hat, hi]
    lia
  · -- The bit lies below the two bits that are replaced, or above them.
    rcases (by lia : l * 2 + i < k * 2 ∨ 2 ≤ l * 2 + i - k * 2) with hbelow | habove
    · simp [hbelow, hkl, hi, hin]
    · have hv : v.getLsbD (l * 2 + i - k * 2) = false := BitVec.getLsbD_of_ge _ _ habove
      simp [hkl, hi, hin, hv]
      lia

theorem rawGetCap_rawSetCap (c : Config) (cap cap' : Capability) (state : CapState) :
    (c.rawSetCap cap state).rawGetCap cap' = if cap = cap' then state else c.rawGetCap cap' := by
  have hfield := getField_setField (c.capabilities (capIndex cap)) state.toBits
    (k := cap.number % 4) (Nat.mod_lt cap'.number (by decide))
  by_cases hindex : capIndex cap = capIndex cap'
  · have hsame : cap.number % 4 = cap'.number % 4 ↔ cap = cap' := by
      have hquot : cap.number / 4 = cap'.number / 4 := by
        have hlt := cap.number_lt
        have hlt' := cap'.number_lt
        have hval := congrArg Fin.val hindex
        simp only [capIndex, Fin.val_ofNat] at hval
        lia
      rw [← Capability.number_injective.eq_iff]
      lia
    simp only [hsame] at hfield
    simp only [rawGetCap, rawSetCap, capShift, ← hindex, Function.update_self, hfield]
    split <;> simp
  · have hne : cap ≠ cap' := fun heq => hindex (congrArg capIndex heq)
    simp [rawGetCap, rawSetCap, Function.update_of_ne (Ne.symm hindex), hne]

end Config

end Ccd
end CrosEc
