import CrosEc.Ccd.Config
import CrosEc.Lib.Interleaving
import CrosEc.PhysicalPresence.Model

/-!
# `common/ccd_config.c`: the commands

The vendor commands, the console commands, `ccd_disable` and the callbacks of a physical presence
check, on one state.  Every command and every deferred function is one step; what it finds outside
of this file, the storage included, is part of the step.

The handlers of `HOOK_CCD_CHANGE` and `board_reboot_ap` change nothing here.  The console command
`oops` is not part of the build (`CONFIG_CASE_CLOSED_DEBUG_V1_UNSAFE`).
-/

namespace CrosEc
namespace Ccd

open Lib PhysicalPresence

def ecErrorAccessDenied : Code := 7
def ecErrorParam1 : Code := 11
def ecErrorParam2 : Code := 12
def ecErrorParamCount : Code := 20

/-- `PASSWORD_RATE_LIMIT_US` -/
def passwordRateLimitUs : UInt32 := 3000000

/-- `CCD_MAX_PASSWORD_SIZE` -/
def ccdMaxPasswordSize : Nat := 40

/-- `sizeof(struct ccd_info_response)` -/
def ccdInfoResponseSize : Nat := 23

/-- What the build decides.  `digest` is the digest of the salt, the unique device ID and the
password. -/
structure Build where
  /-- `CONFIG_CCD_OPEN_PREPVT` -/
  openPrepvt : Bool
  /-- `CONFIG_CMD_CCD_DISABLE` -/
  cmdCcdDisable : Bool
  timing : Timing
  digest : BitVec 32 → List Char → BitVec 128

/-- What a command finds outside. -/
structure Env where
  /-- `get_time()` -/
  now : Nat
  randBytes : BitVec 32
  fwmpAllowsUnlock : Bool
  vbootDevModeEnabled : Bool
  batteryIsPresent : Bool
  /-- `tpm_sync_reset(1)` or `board_wipe_tpm()` -/
  wipeTpm : Code
  setvar : Code
  writevars : Code
  deriving DecidableEq

/-- The callbacks for `physical_detect_start`. -/
inductive Callback where
  | openDone
  | unlockDone
  | testlabToggle
  deriving DecidableEq

structure State where
  ccdState : CcdState
  config : Config
  ccdConfigLoaded : Bool
  forceDisabled : Bool
  lastPasswordTime : UInt32
  detect : Detect Callback
  /-- the variable of the configuration, in the copy in RAM and in flash -/
  vars : Option Config
  flash : Option Config

/-- The state after `ccd_config_init(CCD_STATE_LOCKED)`, whatever configuration is loaded. -/
def State.boot (config : Config) (vars flash : Option Config) : State where
  ccdState := .locked
  config := config
  ccdConfigLoaded := true
  forceDisabled := false
  lastPasswordTime := 0
  detect := .init Callback
  vars := vars
  flash := flash

/-- `enum vendor_cmd_rc` -/
inductive VendorRc where
  | success
  | responseTooBig
  | internalError
  | notAllowed
  | noSuchSubcommand
  | inProgress
  | passwordRequired
  deriving DecidableEq

/-- `enum ccd_pp_state` -/
inductive PpState where
  | closed
  | awaitingPress
  | betweenPresses
  | done
  deriving DecidableEq

/-- `struct ccd_info_response` -/
structure InfoResponse where
  ccdCapsCurrent : Capability → CapState
  ccdCapsDefaults : Capability → CapState
  ccdFlags : BitVec 24
  ccdState : CcdState
  ccdForceDisabled : Bool
  hasPassword : Bool
  allCapsDefault : Bool

/-- What lies in the response buffer. -/
inductive Response where
  | empty
  | code (rv : Code)
  | pp (state : PpState)
  | info (info : InfoResponse)

/-- Flags for `ccd_reset_config` -/
structure ResetFlags where
  testLab : Bool
  unlockedOnly : Bool
  factory : Bool
  deriving DecidableEq

variable (b : Build)

namespace State

/-! ## Accessors -/

/-- `ccd_get_flag` -/
def getFlag (s : State) (flag : BitVec 24) : Bool :=
  s.ccdConfigLoaded && !s.forceDisabled && s.config.flags &&& flag ≠ 0

/-- `ccd_is_cap_enabled` -/
def isCapEnabled (s : State) (cap : Capability) : Bool :=
  if s.ccdConfigLoaded = false ∨ s.forceDisabled then false
  else
    match s.config.effectiveCap b.openPrepvt cap with
    | .always => true
    | .unlessLocked => s.ccdState ≠ .locked
    | _ => s.ccdState = .opened

/-- `ccd_set_state` -/
def setState (state : CcdState) (s : State) : State := { s with ccdState := state }

/-! ## Internal methods -/

/-- `ccd_save_config` -/
def saveConfig (env : Env) (s : State) : Code × State :=
  if env.setvar ≠ ecSuccess then (env.setvar, s)
  else
    let s := { s with vars := some s.config }
    (env.writevars, if env.writevars = ecSuccess then { s with flash := s.vars } else s)

/-- `ccd_set_cap` -/
def setCap (env : Env) (cap : Capability) (state : CapState) (s : State) : Code × State :=
  if s.ccdConfigLoaded = false then (ecErrorBusy, s)
  -- Capability not changed
  else if s.config.rawGetCap cap = state then (ecSuccess, s)
  else { s with config := s.config.rawSetCap cap state }.saveConfig env

/-- Reset all capabilities that aren't IfOpened. -/
def resetUnlockedCaps (c : Config) : Config :=
  Capability.all.foldl
    (fun c cap =>
      if c.effectiveCap b.openPrepvt cap = .ifOpened then c else c.rawSetCap cap .default) c

/-- Factory mode settings: all capabilities all the time, and write protect disabled at boot. -/
def factoryConfig (c : Config) : Config :=
  (((Capability.all.foldl (fun c cap => c.rawSetCap cap .always) c).rawSetFlag
    flagFactoryModeEnabled true).rawSetFlag flagOverrideWpAtBoot true).rawSetFlag
      flagOverrideWpStateEnabled false

/-- `ccd_reset_config` -/
def resetConfig (env : Env) (flags : ResetFlags) (s : State) : Code × State :=
  let oldLab := s.getFlag flagTestLab
  let c :=
    if flags.unlockedOnly then
      -- Reset the password if it was set when unlocked.
      resetUnlockedCaps b
        (if s.getFlag flagPasswordSetWhenUnlocked then s.config.rawResetPassword else s.config)
    else { Config.zero with version := ccdConfigVersion }
  let c := if flags.factory then factoryConfig c else c
  -- Restore the test lab flag unless explicitly resetting it.
  let c := if flags.testLab then c else c.rawSetFlag flagTestLab oldLab
  { s with config := c }.saveConfig env

/-- `raw_check_password` -/
def checkPassword (env : Env) (password : List Char) (s : State) : Code × State :=
  -- If no password is set, match only an empty password.
  if s.config.rawHasPassword = false then
    (if password = [] then ecSuccess else ecErrorAccessDenied, s)
  else
    let t := UInt32.ofNat env.now
    if t - s.lastPasswordTime < passwordRateLimitUs then (ecErrorBusy, s)
    else
      (if b.digest s.config.passwordSalt password = s.config.passwordDigest then ecSuccess
        else ecErrorAccessDenied,
       { s with lastPasswordTime := t })

/-! ## State changes that need physical presence -/

/-- `ccd_open_done` -/
def openDone (env : Env) (s : State) : State :=
  -- Can't open unless the wipe succeeds.
  if s.isCapEnabled b .openWithoutTpmWipe = false ∧ env.wipeTpm ≠ ecSuccess then s
  else s.setState .opened

/-- `ccd_unlock_done` -/
def unlockDone (s : State) : State := s.setState .unlocked

/-- `ccd_testlab_toggle` -/
def testlabToggle (env : Env) (s : State) : State :=
  let v := !s.getFlag flagTestLab
  ({ s with config := s.config.rawSetFlag flagTestLab v }.saveConfig env).2

/-- The callback of a check is called. -/
def callback (env : Env) (s : State) : Callback → State
  | .openDone => s.openDone b env
  | .unlockDone => s.unlockDone
  | .testlabToggle => s.testlabToggle env

/-- `physical_detect_done` -/
def physicalDetectDone (env : Env) (s : State) : State :=
  let s := { s with detect := s.detect.finish }
  let s :=
    match s.detect.ppDetectCallback with
    | some f => let s := s.callback b env f; { s with detect := s.detect.clearCallback }
    | none => s
  { s with detect := s.detect.goIdle }

/-! ## External interface -/

/-- `ccd_set_flag` -/
def setFlag (env : Env) (flag : BitVec 24) (value : Bool) (s : State) : Code × State :=
  if s.forceDisabled then (ecErrorAccessDenied, s)
  -- Fail if trying to set a private flag.
  else if flag &&& ~~~publicFlags ≠ 0 then (ecErrorAccessDenied, s)
  else if s.ccdConfigLoaded = false then (ecErrorBusy, s)
  else if s.getFlag flag = value then (ecSuccess, s)
  else { s with config := s.config.rawSetFlag flag value }.saveConfig env

/-- `ccd_disable` -/
def disable (s : State) : State := { s with forceDisabled := true }.setState .locked

/-! ## Vendor commands -/

/-- The string that starts at a pointer. -/
def cString (buffer : List Char) : List Char := buffer.takeWhile fun c => c ≠ '\x00'

/-- A physical presence check is already running: it is aborted, and the command fails. -/
def abortDetect (env : Env) (s : State) : VendorRc × Response × State :=
  (.internalError, .code ecErrorBusy, { s with detect := s.detect.abort env.now })

/-- The end of `ccd_open` and `ccd_unlock` where a check is needed. -/
def startDetect (env : Env) (isLong : Bool) (f : Callback) (s : State) :
    VendorRc × Response × State :=
  match s.detect.start b.timing isLong f env.now with
  | some detect => (.inProgress, .empty, { s with detect := detect })
  | none => (.internalError, .code ecErrorBusy, s)

/-- With no password, an open is allowed if the battery is removed, or if dev mode is enabled and
the command came from the AP.  Capabilities can be used to bypass these checks. -/
def openAllowed (env : Env) (fromUsb : Bool) (s : State) : Bool :=
  !env.batteryIsPresent ||
    ((s.isCapEnabled b .openWithoutDevMode || env.vbootDevModeEnabled) &&
      (s.isCapEnabled b .openFromUsb || !fromUsb))

/-- Physical presence for an open is reduced if enabled via config. -/
def openIsLong (s : State) : Bool := !s.isCapEnabled b .openWithoutLongPp

/-- The battery is removed, and that bypasses the physical presence check. -/
def batteryBypass (env : Env) (s : State) : Bool :=
  s.isCapEnabled b .removeBatteryBypassesPp && !env.batteryIsPresent

/-- An open needs physical presence. -/
def openNeedsPp (env : Env) (s : State) : Bool :=
  !(!s.openIsLong b && s.isCapEnabled b .unlockWithoutShortPp) && !s.batteryBypass b env

/-- An unlock needs physical presence. -/
def unlockNeedsPp (env : Env) (s : State) : Bool :=
  !s.isCapEnabled b .unlockWithoutShortPp && !s.batteryBypass b env

/-- `ccd_open` after the checks. -/
def openChecked (env : Env) (s : State) : VendorRc × Response × State :=
  if s.detect.busy then s.abortDetect env
  else if s.openNeedsPp b env then s.startDetect b env (s.openIsLong b) .openDone
  -- No physical presence required; go straight to done.
  else (.success, .empty, s.openDone b env)

/-- `ccd_open` -/
def ccdOpen (env : Env) (fromUsb : Bool) (buffer : List Char) (s : State) :
    VendorRc × Response × State :=
  if s.forceDisabled then (.notAllowed, .code ecErrorAccessDenied, s)
  else if s.ccdState = .opened then (.success, .empty, s)
  -- FWMP blocks open even if a password is set.
  else if env.fwmpAllowsUnlock = false then (.notAllowed, .code ecErrorAccessDenied, s)
  else if s.config.rawHasPassword then
    if buffer = [] then (.passwordRequired, .code ecErrorParamCount, s)
    else
      let (rv, s) := s.checkPassword b env (cString buffer)
      if rv ≠ ecSuccess then (.internalError, .code rv, s) else s.openChecked b env
  else if s.openAllowed b env fromUsb then s.openChecked b env
  else (.notAllowed, .code ecErrorAccessDenied, s)

/-- `ccd_unlock` -/
def ccdUnlock (env : Env) (buffer : List Char) (s : State) : VendorRc × Response × State :=
  if s.forceDisabled then (.notAllowed, .code ecErrorAccessDenied, s)
  else if s.ccdState = .unlocked then (.success, .empty, s)
  -- Can go from opened to unlocked with no delay or password.
  else if s.ccdState = .opened then (.success, .empty, s.unlockDone)
  -- Only allowed if password is already set, and not blocked by FWMP.
  else if s.config.rawHasPassword = false ∨ env.fwmpAllowsUnlock = false then
    (.notAllowed, .code ecErrorAccessDenied, s)
  else if buffer = [] then (.passwordRequired, .code ecErrorParamCount, s)
  else
    let (rv, s) := s.checkPassword b env (cString buffer)
    if rv ≠ ecSuccess then (.internalError, .code rv, s)
    else if s.detect.busy then s.abortDetect env
    else if s.unlockNeedsPp b env then s.startDetect b env false .unlockDone
    else (.success, .empty, s.unlockDone)

/-- `ccd_lock`: lock always works. -/
def ccdLock (s : State) : VendorRc × Response × State := (.success, .empty, s.setState .locked)

/-- `do_ccd_password` -/
def doCcdPassword (env : Env) (password : List Char) (s : State) : Code × State :=
  if s.ccdState = .locked then (ecErrorAccessDenied, s)
  else if s.config.rawHasPassword then
    -- The only allowed action is to clear the password, with 'clear:<passwd>'.
    if strncasecmp password "clear:".toList = false then (ecErrorAccessDenied, s)
    else
      let (rv, s) := s.checkPassword b env (password.drop "clear:".toList.length)
      if rv ≠ ecSuccess then (ecErrorAccessDenied, s)
      else { s with config := s.config.rawResetPassword }.saveConfig env
  else
    { s with
      config := s.config.rawSetPassword b.digest env.randBytes password
        (s.ccdState = CcdState.unlocked) }.saveConfig env

/-- `ccd_password`: only from the AP, not USB. -/
def ccdPassword (env : Env) (fromUsb : Bool) (buffer : List Char) (s : State) :
    VendorRc × Response × State :=
  if fromUsb then (.notAllowed, .code ecErrorAccessDenied, s)
  else
    let (rv, s) :=
      if buffer = [] ∨ ccdMaxPasswordSize < buffer.length then (ecErrorParam1, s)
      else s.doCcdPassword b env (cString buffer)
    if rv ≠ ecSuccess then (.internalError, .code rv, s) else (.success, .empty, s)

/-- `ccd_pp_poll` -/
def ccdPpPoll (s : State) : VendorRc × Response × State :=
  (.success,
   .pp (if s.ccdState = .opened ∨ s.ccdState = .unlocked then .done
    else
      match s.detect.ppDetectState with
      | .awaitingPress => .awaitingPress
      | .betweenPresses => .betweenPresses
      | _ => .closed),
   s)

/-- `ccd_pp_poll_unlock` -/
def ccdPpPollUnlock (s : State) : VendorRc × Response × State :=
  if s.ccdState ≠ .opened ∧ s.ccdState ≠ .unlocked then s.ccdPpPoll else (.success, .pp .done, s)

/-- `ccd_pp_poll_open` -/
def ccdPpPollOpen (s : State) : VendorRc × Response × State :=
  if s.ccdState ≠ .opened then s.ccdPpPoll else (.success, .pp .done, s)

/-- `ccd_get_info` -/
def ccdGetInfo (s : State) : VendorRc × Response × State :=
  (.success,
   .info {
      ccdCapsCurrent := s.config.effectiveCap b.openPrepvt
      ccdCapsDefaults := fun cap => (cap.info b.openPrepvt).2
      ccdFlags := s.config.flags
      ccdState := s.ccdState
      ccdForceDisabled := s.forceDisabled
      hasPassword := s.config.rawHasPassword
      allCapsDefault := s.config.rawCheckAllCapsDefault },
   s)

/-- `ccd_vendor`: `VENDOR_CC_CCD` with a subcommand and the bytes behind it -/
def ccdVendor (env : Env) (fromUsb : Bool) (outSize : Nat) (subcommand : UInt8)
    (buffer : List Char) (s : State) : VendorRc × Response × State :=
  if outSize < ccdInfoResponseSize + 1 then (.responseTooBig, .empty, s)
  else if subcommand = 0 then s.ccdPassword b env fromUsb buffer
  else if subcommand = 1 then s.ccdOpen b env fromUsb buffer
  else if subcommand = 2 then s.ccdUnlock b env buffer
  else if subcommand = 3 then s.ccdLock
  else if subcommand = 4 then s.ccdPpPollUnlock
  else if subcommand = 5 then s.ccdPpPollOpen
  else if subcommand = 6 then s.ccdGetInfo b
  else (.noSuchSubcommand, .empty, s)

/-! ## Console commands -/

/-- `command_ccd_reset`, with the arguments behind `reset` -/
def commandCcdReset (env : Env) (args : List (List Char)) (s : State) : Code × State :=
  let flags : Option ResetFlags :=
    match args with
    | [] => some ⟨false, false, false⟩
    | arg :: _ => if strcasecmp arg "factory".toList then some ⟨false, false, true⟩ else none
  match flags with
  | none => (ecErrorParam1, s)
  | some flags =>
      match s.ccdState with
      -- Note that this does not reset the testlab flag.
      | .opened => s.resetConfig b env flags
      | .unlocked => s.resetConfig b env ⟨false, true, false⟩
      | .locked => (ecErrorAccessDenied, s)

/-- `command_ccd_set`, with the arguments behind `set` -/
def commandCcdSet (env : Env) (args : List (List Char)) (s : State) : Code × State :=
  -- Only works if unlocked or opened.
  if s.ccdState = .locked then (ecErrorAccessDenied, s)
  else
    match args with
    | arg1 :: arg2 :: _ =>
        match Capability.ofName b.openPrepvt arg1 with
        | none => (ecErrorParam1, s)
        | some cap =>
            match CapState.ofName arg2 with
            | none => (ecErrorParam2, s)
            | some new =>
                let old := s.config.effectiveCap b.openPrepvt cap
                -- If we're only unlocked, can't change to/from IfOpened.
                if s.ccdState = .unlocked ∧ (new = .ifOpened ∨ old = .ifOpened) then
                  (ecErrorAccessDenied, s)
                else s.setCap env cap new
    | _ => (ecErrorParamCount, s)

/-- `command_ccd_testlab`, with the arguments behind `testlab` -/
def commandCcdTestlab (env : Env) (args : List (List Char)) (s : State) : Code × State :=
  if s.forceDisabled then (ecErrorAccessDenied, s)
  else
    match args with
    | [] => (ecSuccess, s)
    | arg :: _ =>
        if strcasecmp arg "open".toList then
          if s.getFlag flagTestLab = false then (ecErrorAccessDenied, s)
          -- Go directly to open state without wiping TPM or rebooting.
          else (ecSuccess, s.setState .opened)
        else if s.ccdState ≠ .opened then (ecErrorAccessDenied, s)
        else
          match parseBool arg with
          | none => (ecErrorParam1, s)
          | some newflag =>
              if newflag = s.getFlag flagTestLab then (ecSuccess, s)
              else
                match s.detect.start b.timing false .testlabToggle env.now with
                | some detect => (ecSuccess, { s with detect := detect })
                | none => (ecErrorBusy, s)

/-- `ccd_command_wrapper`: the command goes through the TPM task, and counts as one from USB. -/
def ccdCommandWrapper (env : Env) (password : Option (List Char)) (subcommand : UInt8)
    (s : State) : Code × State :=
  let buffer := password.getD []
  if ccdMaxPasswordSize < buffer.length then (ecErrorParam1, s)
  else
    -- The response lies in the message, behind the header.
    match s.ccdVendor b env true (ccdMaxPasswordSize + 1) subcommand buffer with
    | (rc, response, s) =>
        (if rc = .success ∨ rc = .inProgress then ecSuccess
          else match response with
            | .code rv => rv
            | _ => subcommand.toUInt32,
         s)

/-- `command_ccd`, with the arguments behind `ccd` -/
def commandCcd (env : Env) (args : List (List Char)) (s : State) : Code × State :=
  match args with
  | [] => (ecSuccess, s)
  | cmd :: args =>
      if strcasecmp cmd "get".toList then (ecSuccess, s)
      else if strcasecmp cmd "testlab".toList then s.commandCcdTestlab b env args
      else if strcasecmp cmd "lock".toList then s.ccdCommandWrapper b env none 3
      else if strcasecmp cmd "unlock".toList then
        if s.config.rawHasPassword = false then (ecErrorAccessDenied, s)
        else s.ccdCommandWrapper b env args.head? 2
      else if strcasecmp cmd "open".toList then s.ccdCommandWrapper b env args.head? 1
      else if strcasecmp cmd "set".toList then s.commandCcdSet b env args
      else if strcasecmp cmd "password".toList then
        match args with
        | [password] => s.ccdCommandWrapper b env (some password) 0
        | _ => (ecErrorParamCount, s)
      else if strcasecmp cmd "reset".toList then s.commandCcdReset b env args
      else if b.cmdCcdDisable ∧ strcasecmp cmd "disable".toList then (ecSuccess, s.disable)
      -- Anything else (including "help") prints help.
      else (ecSuccess, s)

/-! ## Leaving factory mode -/

/-- The checks of `ccd_disable_factory_mode`: no password, and nothing that opening would still
need. -/
def factoryModeChecked (env : Env) (s : State) : Bool :=
  !s.config.rawHasPassword &&
    (s.batteryBypass b env ||
      (s.isCapEnabled b .openWithoutTpmWipe && s.isCapEnabled b .unlockWithoutApReboot &&
        s.isCapEnabled b .openWithoutLongPp && s.isCapEnabled b .unlockWithoutShortPp))

/-- `ccd_disable_factory_mode`: `VENDOR_CC_DISABLE_FACTORY` -/
def ccdDisableFactoryMode (env : Env) (s : State) : VendorRc × Response × State :=
  if s.factoryModeChecked b env = false then (.internalError, .code ecErrorAccessDenied, s)
  else
    match (s.setState .opened).commandCcdReset b env [] with
    | (rv, s) =>
        if rv ≠ ecSuccess then (.internalError, .code rv, s)
        else
          match s.ccdLock with
          | (_, _, s) =>
              (.success, .empty,
               { s with config := s.config.rawSetFlag flagFactoryModeEnabled false })

end State

/-! ## Steps -/

inductive Event where
  /-- `VENDOR_CC_CCD` -/
  | vendor (fromUsb : Bool) (outSize : Nat) (subcommand : UInt8) (buffer : List Char) (env : Env)
  /-- `VENDOR_CC_DISABLE_FACTORY` -/
  | disableFactory (env : Env)
  /-- the console command `ccd` -/
  | console (args : List (List Char)) (env : Env)
  /-- somebody calls `ccd_set_flag` -/
  | setFlag (flag : BitVec 24) (value : Bool) (env : Env)
  /-- somebody calls `ccd_disable` -/
  | disable
  /-- `physical_detect_press` -/
  | press (now : Nat)
  /-- `hook_task` calls the deferred functions -/
  | done (env : Env)
  | prompt (now : Nat)
  | checkPress (now : Nat)
  deriving DecidableEq

/-- One step; a deferred function is only called when it is due. -/
def step (s : State) : Event → Option State
  | .vendor fromUsb outSize subcommand buffer env =>
      some (s.ccdVendor b env fromUsb outSize subcommand buffer).2.2
  | .disableFactory env => some (s.ccdDisableFactoryMode b env).2.2
  | .console args env => some (s.commandCcd b env args).2
  | .setFlag flag value env => some (s.setFlag env flag value).2
  | .disable => some s.disable
  | .press now => some { s with detect := s.detect.press now }
  | .done env =>
      if s.detect.due .done env.now then
        some ({ s with detect := s.detect.cancelDeferred .done }.physicalDetectDone b env)
      else none
  | .prompt now =>
      if s.detect.due .prompt now then
        some { s with detect := (s.detect.cancelDeferred .prompt).prompt }
      else none
  | .checkPress now =>
      if s.detect.due .checkPress now then
        let d := s.detect.cancelDeferred .checkPress
        some { s with detect := d.checkPress b.timing now (now - d.ppLastPress : Int) now }
      else none

end Ccd
end CrosEc
