import CrosEc.Ccd.Model

/-!
# What a step of the commands can do

Every command checks, and then does one of a few things.  `Effect` lists them with the checks
that came before; `step_effect` says that there are no others.
-/

namespace CrosEc
namespace Ccd

open Lib PhysicalPresence

variable {b : Build} {s s' : State} {env : Env}

/-- The time of the last password attempt is another one. -/
def State.timed (t : UInt32) (s : State) : State := { s with lastPasswordTime := t }

/-- The configuration is changed and saved. -/
def State.stored (env : Env) (c : Config) (s : State) : State :=
  ({ s with config := c }.saveConfig env).2

/-! ## Saving -/

@[simp] theorem stored_ccdState (c : Config) : (s.stored env c).ccdState = s.ccdState := by
  simp only [State.stored, State.saveConfig]
  split_ifs <;> rfl

@[simp] theorem stored_config (c : Config) : (s.stored env c).config = c := by
  simp only [State.stored, State.saveConfig]
  split_ifs <;> rfl

@[simp] theorem stored_ccdConfigLoaded (c : Config) :
    (s.stored env c).ccdConfigLoaded = s.ccdConfigLoaded := by
  simp only [State.stored, State.saveConfig]
  split_ifs <;> rfl

@[simp] theorem stored_forceDisabled (c : Config) :
    (s.stored env c).forceDisabled = s.forceDisabled := by
  simp only [State.stored, State.saveConfig]
  split_ifs <;> rfl

@[simp] theorem stored_detect (c : Config) : (s.stored env c).detect = s.detect := by
  simp only [State.stored, State.saveConfig]
  split_ifs <;> rfl

/-- `ccd_save_config` succeeds. -/
def Env.saves (env : Env) : Bool := env.setvar = ecSuccess && env.writevars = ecSuccess

theorem saveConfig_code : (s.saveConfig env).1 = ecSuccess ↔ env.saves = true := by
  by_cases hset : env.setvar = ecSuccess <;> simp [State.saveConfig, Env.saves, hset]

/-! ## Requests -/

/-- The event is a request to open CCD, from USB or not, with what follows the subcommand. -/
inductive OpensBy : Event → Bool → List Char → Env → Prop
  | vendor (fromUsb : Bool) (outSize : Nat) (buffer : List Char) (env : Env) :
      OpensBy (.vendor fromUsb outSize 1 buffer env) fromUsb buffer env
  | console (cmd : List Char) (args : List (List Char)) (env : Env)
      (hcmd : strcasecmp cmd "open".toList = true) :
      OpensBy (.console (cmd :: args) env) true (args.head?.getD []) env

/-- The event is `ccd testlab open`. -/
def IsTestlabOpen (e : Event) : Prop :=
  ∃ cmd arg args env, e = .console (cmd :: arg :: args) env ∧
    strcasecmp cmd "testlab".toList = true ∧ strcasecmp arg "open".toList = true

/-- The event is 'clear:' with a password, from the AP. -/
def ClearsBy (e : Event) (password : List Char) : Prop :=
  ∃ outSize buffer env, e = .vendor false outSize 0 buffer env ∧
    strncasecmp (State.cString buffer) "clear:".toList = true ∧
    password = (State.cString buffer).drop "clear:".toList.length

/-- The event is `ccd set` of a capability to a state. -/
inductive SetsBy (b : Build) : Event → Capability → CapState → Prop
  | console (cmd arg1 arg2 : List Char) (args : List (List Char)) (env : Env) {cap : Capability}
      {new : CapState} (hcmd : strcasecmp cmd "set".toList = true)
      (hcap : Capability.ofName b.openPrepvt arg1 = some cap)
      (hnew : CapState.ofName arg2 = some new) :
      SetsBy b (.console (cmd :: arg1 :: arg2 :: args) env) cap new

/-- The event is `ccd reset`. -/
def IsReset (e : Event) : Prop :=
  ∃ cmd args env, e = .console (cmd :: args) env ∧ strcasecmp cmd "reset".toList = true

/-- The password is that of the configuration. -/
def RightPassword (b : Build) (s : State) (password : List Char) : Prop :=
  b.digest s.config.passwordSalt password = s.config.passwordDigest

/-- **What a request to open has to pass**: the firmware management parameters, and the password;
or, if none is set, the removal of the battery, or developer mode and the AP, each of which a
capability can stand for. -/
def OpenRequest (b : Build) (s : State) (fromUsb : Bool) (buffer : List Char) (env : Env) : Prop :=
  env.fwmpAllowsUnlock = true ∧
    ((s.config.rawHasPassword = true ∧ RightPassword b s (State.cString buffer)) ∨
      (s.config.rawHasPassword = false ∧
        (env.batteryIsPresent = false ∨
          ((s.isCapEnabled b .openWithoutDevMode = true ∨ env.vbootDevModeEnabled = true) ∧
            (s.isCapEnabled b .openFromUsb = true ∨ fromUsb = false)))))

/-- The physical presence check for an open is waived by enabled capabilities. -/
def PresenceWaived (b : Build) (s : State) (env : Env) : Prop :=
  (s.isCapEnabled b .openWithoutLongPp = true ∧ s.isCapEnabled b .unlockWithoutShortPp = true) ∨
    (s.isCapEnabled b .removeBatteryBypassesPp = true ∧ env.batteryIsPresent = false)

/-- The TPM has been wiped, or that is waived by a capability. -/
def Wiped (b : Build) (s : State) (env : Env) : Prop :=
  s.isCapEnabled b .openWithoutTpmWipe = true ∨ env.wipeTpm = ecSuccess

theorem openAllowed_iff {fromUsb : Bool} :
    s.openAllowed b env fromUsb = true ↔ env.batteryIsPresent = false ∨
      ((s.isCapEnabled b .openWithoutDevMode = true ∨ env.vbootDevModeEnabled = true) ∧
        (s.isCapEnabled b .openFromUsb = true ∨ fromUsb = false)) := by
  simp [State.openAllowed]

theorem openNeedsPp_iff : s.openNeedsPp b env = false ↔ PresenceWaived b s env := by
  simp only [State.openNeedsPp, State.openIsLong, State.batteryBypass, PresenceWaived]
  cases s.isCapEnabled b .openWithoutLongPp <;> cases s.isCapEnabled b .unlockWithoutShortPp <;>
    simp

/-! ## Effects -/

/-- The configuration after `ccd_reset_config(0)`, and after `CCD_RESET_FACTORY`. -/
def resetAll (s : State) (factory : Bool) : Config :=
  let c := { Config.zero with version := ccdConfigVersion }
  (if factory then State.factoryConfig c else c).rawSetFlag flagTestLab (s.getFlag flagTestLab)

/-- The configuration after `ccd_reset_config(CCD_RESET_UNLOCKED_ONLY)`. -/
def resetUnlocked (b : Build) (s : State) : Config :=
  (State.resetUnlockedCaps b
    (if s.getFlag flagPasswordSetWhenUnlocked then s.config.rawResetPassword
      else s.config)).rawSetFlag flagTestLab (s.getFlag flagTestLab)

/-- The end of `ccd_disable_factory_mode`. -/
def leftFactory (s : State) : State :=
  { s.setState .locked with config := s.config.rawSetFlag flagFactoryModeEnabled false }

@[simp] theorem leftFactory_detect : (leftFactory s).detect = s.detect := rfl

/-- What the commands do. -/
inductive Effect (b : Build) (s : State) (e : Event) : State → Prop
  /-- nothing but to note the time of a password attempt -/
  | nothing (t : UInt32) : Effect b s e (s.timed t)
  | abortDetect (t : UInt32) (now : Nat) :
      Effect b s e { s.timed t with detect := s.detect.abort now }
  | startOpen (t : UInt32) (fromUsb : Bool) (buffer : List Char) (env : Env)
      (detect : Detect Callback) (hopens : OpensBy e fromUsb buffer env)
      (henabled : s.forceDisabled = false) (hrequest : OpenRequest b s fromUsb buffer env)
      (hstart : s.detect.start b.timing (s.openIsLong b) .openDone env.now = some detect) :
      Effect b s e { s.timed t with detect := detect }
  | startOther (t : UInt32) (isLong : Bool) (f : Callback) (now : Nat) (detect : Detect Callback)
      (hf : f ≠ .openDone) (henabled : s.forceDisabled = false)
      (hstart : s.detect.start b.timing isLong f now = some detect) :
      Effect b s e { s.timed t with detect := detect }
  | openNow (t : UInt32) (fromUsb : Bool) (buffer : List Char) (env : Env)
      (hopens : OpensBy e fromUsb buffer env) (henabled : s.forceDisabled = false)
      (hrequest : OpenRequest b s fromUsb buffer env) (hwaived : PresenceWaived b s env)
      (hwiped : Wiped b s env) : Effect b s e ((s.timed t).setState .opened)
  | testlabOpen (henabled : s.forceDisabled = false) (hevent : IsTestlabOpen e)
      (hlab : s.getFlag flagTestLab = true) : Effect b s e (s.setState .opened)
  | unlock (t : UInt32) (henabled : s.forceDisabled = false) :
      Effect b s e ((s.timed t).setState .unlocked)
  | lock : Effect b s e (s.setState .locked)
  | disable : Effect b s e s.disable
  | setCap (env : Env) (cap : Capability) (new : CapState) (hevent : SetsBy b e cap new)
      (hstate : s.ccdState ≠ .locked)
      (hrule : s.ccdState = .unlocked →
        new ≠ .ifOpened ∧ s.config.effectiveCap b.openPrepvt cap ≠ .ifOpened) :
      Effect b s e (s.stored env (s.config.rawSetCap cap new))
  | reset (env : Env) (factory : Bool) (hstate : s.ccdState = .opened) :
      Effect b s e (s.stored env (resetAll s factory))
  | resetUnlocked (env : Env) (hevent : IsReset e) (hstate : s.ccdState = .unlocked) :
      Effect b s e (s.stored env (resetUnlocked b s))
  | clearPassword (t : UInt32) (env : Env) (password : List Char) (hstate : s.ccdState ≠ .locked)
      (hclears : ClearsBy e password) (hright : RightPassword b s password) :
      Effect b s e ((s.timed t).stored env s.config.rawResetPassword)
  | setPassword (env : Env) (password : List Char) (hstate : s.ccdState ≠ .locked)
      (hnone : s.config.rawHasPassword = false) :
      Effect b s e (s.stored env (s.config.rawSetPassword b.digest env.randBytes password
        (s.ccdState = CcdState.unlocked)))
  | setFlag (env : Env) (flag : BitVec 24) (value : Bool) (hevent : e = .setFlag flag value env)
      (henabled : s.forceDisabled = false) :
      Effect b s e (s.stored env (s.config.rawSetFlag flag value))
  | leaveFactory (env : Env) (henabled : s.forceDisabled = false) :
      Effect b s e (leftFactory ((s.setState .opened).stored env (resetAll s false)))
  | leaveFactoryFails (env : Env) (hevent : e = .disableFactory env)
      (henabled : s.forceDisabled = false) (hchecked : s.factoryModeChecked b env = true)
      (hsaves : env.saves = false) :
      Effect b s e ((s.setState .opened).stored env (resetAll s false))
  /-- `physical_detect_done`: the callback is called after the full sequence -/
  | called (env : Env) (f : Callback) (detect : Detect Callback) (hevent : e = .done env)
      (hprogress : s.detect.ppDetectState.inProgress = true)
      (hcount : s.detect.ppPressCountNeeded ≤ s.detect.ppPressCount)
      (hcallback : s.detect.ppDetectCallback = some f)
      (hnone : detect.ppDetectCallback = none) :
      Effect b s e { s.callback b env f with detect := detect }
  /-- the other steps of the physical presence check -/
  | detect (detect : Detect Callback)
      (hcallback : detect.ppDetectCallback = none ∨
        detect.ppDetectCallback = s.detect.ppDetectCallback ∧
          detect.ppPressCountNeeded = s.detect.ppPressCountNeeded) :
      Effect b s e { s with detect := detect }

variable {e : Event}

theorem Effect.same : Effect b s e s := .nothing s.lastPasswordTime

/-- `raw_check_password` -/
theorem checkPassword_cases (env : Env) (password : List Char) (hset : s.config.rawHasPassword = true) :
    ∃ t, (s.checkPassword b env password).2 = s.timed t ∧
      ((s.checkPassword b env password).1 = ecSuccess → RightPassword b s password) := by
  unfold State.checkPassword
  rw [if_neg (by simp [hset])]
  simp only
  split_ifs with hrate hdigest
  · exact ⟨s.lastPasswordTime, rfl, by intro h; cases h⟩
  · exact ⟨_, rfl, fun _ => hdigest⟩
  · exact ⟨_, rfl, by intro h; cases h⟩

/-- `ccd_open` after the checks, in the state after a password attempt. -/
theorem openChecked_effect {t : UInt32} {fromUsb : Bool} {buffer : List Char}
    (hopens : OpensBy e fromUsb buffer env) (henabled : s.forceDisabled = false)
    (hrequest : OpenRequest b s fromUsb buffer env) :
    Effect b s e ((s.timed t).openChecked b env).2.2 := by
  unfold State.openChecked
  split_ifs with hbusy hneeds
  · exact .abortDetect t env.now
  · unfold State.startDetect
    cases hstart : (s.timed t).detect.start b.timing ((s.timed t).openIsLong b) .openDone env.now with
    | none => exact .nothing t
    | some detect => exact .startOpen t fromUsb buffer env detect hopens henabled hrequest hstart
  · unfold State.openDone
    have hwaived : PresenceWaived b s env := openNeedsPp_iff.mp (Bool.eq_false_iff.mpr hneeds)
    split_ifs with hwipe
    · exact .nothing t
    · have hwiped : Wiped b s env := by
        by_contra hnot
        simp only [Wiped, not_or] at hnot
        exact hwipe ⟨Bool.eq_false_iff.mpr hnot.1, hnot.2⟩
      exact .openNow t fromUsb buffer env hopens henabled hrequest hwaived hwiped

theorem ccdOpen_effect {fromUsb : Bool} {buffer : List Char}
    (hopens : OpensBy e fromUsb buffer env) :
    Effect b s e (s.ccdOpen b env fromUsb buffer).2.2 := by
  unfold State.ccdOpen
  split_ifs with hdisabled hopened hfwmp hset hbuffer hallowed
  · exact .same
  · exact .same
  · exact .same
  · exact .same
  · obtain ⟨t, hstate, hright⟩ := checkPassword_cases (b := b) env
      (State.cString buffer) hset
    simp only
    split_ifs with hcode
    · rw [hstate]
      exact .nothing t
    · rw [hstate]
      refine openChecked_effect hopens (Bool.eq_false_iff.mpr hdisabled)
        ⟨Bool.eq_true_of_not_eq_false hfwmp, Or.inl ⟨hset, hright (not_not.mp hcode)⟩⟩
  · exact openChecked_effect (t := s.lastPasswordTime) hopens (Bool.eq_false_iff.mpr hdisabled)
      ⟨Bool.eq_true_of_not_eq_false hfwmp,
        Or.inr ⟨Bool.eq_false_iff.mpr hset, openAllowed_iff.mp hallowed⟩⟩
  · exact .same

theorem ccdUnlock_effect {buffer : List Char} : Effect b s e (s.ccdUnlock b env buffer).2.2 := by
  unfold State.ccdUnlock
  split_ifs with hdisabled hunlocked hopened hallowed hbuffer
  · exact .same
  · exact .same
  · exact .unlock s.lastPasswordTime (Bool.eq_false_iff.mpr hdisabled)
  · exact .same
  · exact .same
  · obtain ⟨hset, -⟩ := not_or.mp hallowed
    obtain ⟨t, hstate, -⟩ := checkPassword_cases (b := b) env (State.cString buffer)
      (Bool.eq_true_of_not_eq_false hset)
    have henabled := Bool.eq_false_iff.mpr hdisabled
    simp only
    split_ifs with hcode hbusy hneeds
    · rw [hstate]
      exact .nothing t
    · rw [hstate]
      exact .abortDetect t env.now
    · rw [hstate]
      unfold State.startDetect
      cases hstart : (s.timed t).detect.start b.timing false .unlockDone env.now with
      | none => exact .nothing t
      | some detect =>
          exact .startOther t false .unlockDone env.now detect (by simp) henabled hstart
    · rw [hstate]
      exact .unlock t henabled

theorem doCcdPassword_effect {password : List Char}
    (hclears : strncasecmp password "clear:".toList = true →
      ClearsBy e (password.drop "clear:".toList.length)) :
    Effect b s e (s.doCcdPassword b env password).2 := by
  unfold State.doCcdPassword
  split_ifs with hlocked hset hprefix
  · exact .same
  · exact .same
  · obtain ⟨t, hstate, hright⟩ := checkPassword_cases (b := b) env
      (password.drop "clear:".toList.length) hset
    simp only
    split
    · rw [hstate]
      exact .nothing t
    · rename_i hcode
      rw [hstate]
      exact .clearPassword t env _ hlocked (hclears (Bool.eq_true_of_not_eq_false hprefix))
        (hright (not_not.mp hcode))
  · exact .setPassword env _ hlocked (Bool.eq_false_iff.mpr hset)

theorem ccdPassword_effect {fromUsb : Bool} {outSize : Nat} {buffer : List Char}
    (hevent : fromUsb = false → e = .vendor false outSize 0 buffer env) :
    Effect b s e (s.ccdPassword b env fromUsb buffer).2.2 := by
  by_cases husb : fromUsb = true
  · rw [State.ccdPassword, if_pos husb]
    exact .same
  · have hstate : (s.ccdPassword b env fromUsb buffer).2.2 =
        (if buffer = [] ∨ ccdMaxPasswordSize < buffer.length then (ecErrorParam1, s)
          else s.doCcdPassword b env (State.cString buffer)).2 := by
      rw [State.ccdPassword, if_neg husb]
      simp only
      split
      · rfl
      · split <;> rfl
    rw [hstate]
    split
    · exact .same
    · exact doCcdPassword_effect fun hprefix =>
        ⟨outSize, buffer, env, hevent (Bool.eq_false_iff.mpr husb), hprefix, rfl⟩

theorem ccdVendor_effect {fromUsb : Bool} {outSize n : Nat} {subcommand : UInt8}
    {buffer : List Char} (hopens : subcommand = 1 → OpensBy e fromUsb buffer env)
    (hevent : fromUsb = false → e = .vendor false n subcommand buffer env) :
    Effect b s e (s.ccdVendor b env fromUsb outSize subcommand buffer).2.2 := by
  unfold State.ccdVendor
  split_ifs with hsize hpassword hopen hunlock hlock
  · exact .same
  · subst hpassword
    exact ccdPassword_effect hevent
  · exact ccdOpen_effect (hopens hopen)
  · exact ccdUnlock_effect
  · exact .lock
  · unfold State.ccdPpPollUnlock
    split_ifs <;> exact .same
  · unfold State.ccdPpPollOpen
    split_ifs <;> exact .same
  · exact .same
  · exact .same

theorem commandCcdReset_effect {args : List (List Char)} (hevent : IsReset e) :
    Effect b s e (s.commandCcdReset b env args).2 := by
  unfold State.commandCcdReset
  simp only
  split
  · exact .same
  · rename_i flags hflags
    cases hstate : s.ccdState with
    | locked => exact .same
    | unlocked => exact .resetUnlocked env hevent hstate
    | opened =>
        have hzero : flags = ⟨false, false, flags.factory⟩ := by
          cases args with
          | nil => rw [← Option.some.inj hflags]
          | cons arg args =>
              simp only at hflags
              split_ifs at hflags
              rw [← Option.some.inj hflags]
        rw [hzero]
        exact .reset env flags.factory hstate

theorem commandCcdSet_effect {cmd : List Char} {args : List (List Char)}
    (hcmd : strcasecmp cmd "set".toList = true) (hevent : e = .console (cmd :: args) env) :
    Effect b s e (s.commandCcdSet b env args).2 := by
  unfold State.commandCcdSet
  split_ifs with hlocked
  · exact .same
  · split
    · rename_i arg1 arg2 args
      split
      · exact .same
      · rename_i cap hcap
        split
        · exact .same
        · rename_i new hnew
          simp only
          split_ifs with hrule
          · exact .same
          · unfold State.setCap
            split_ifs
            · exact .same
            · exact .same
            · refine .setCap env cap new ?_ hlocked ?_
              · rw [hevent]
                exact .console cmd arg1 arg2 args env hcmd hcap hnew
              · intro hunlocked
                exact not_or.mp fun h => hrule ⟨hunlocked, h⟩
    · exact .same

theorem commandCcdTestlab_effect {cmd : List Char} {args : List (List Char)}
    (hcmd : strcasecmp cmd "testlab".toList = true)
    (hevent : e = .console (cmd :: args) env) :
    Effect b s e (s.commandCcdTestlab b env args).2 := by
  by_cases hdisabled : s.forceDisabled = true
  · unfold State.commandCcdTestlab
    rw [if_pos hdisabled]
    exact .same
  · unfold State.commandCcdTestlab
    rw [if_neg hdisabled]
    have henabled := Bool.eq_false_iff.mpr hdisabled
    cases args with
    | nil => exact .same
    | cons arg args =>
        simp only
        by_cases hopen : strcasecmp arg "open".toList = true
        · rw [if_pos hopen]
          split_ifs with hlab
          · exact .same
          · exact .testlabOpen henabled ⟨cmd, arg, args, env, hevent, hcmd, hopen⟩
              (Bool.eq_true_of_not_eq_false hlab)
        · rw [if_neg hopen]
          split
          · exact .same
          · split
            · exact .same
            · split
              · exact .same
              · cases hstart : s.detect.start b.timing false .testlabToggle env.now with
                | none => exact .same
                | some detect =>
                    exact .startOther s.lastPasswordTime false .testlabToggle env.now detect
                      (by simp) henabled hstart

theorem ccdCommandWrapper_effect {password : Option (List Char)} {subcommand : UInt8}
    (hopens : subcommand = 1 → OpensBy e true (password.getD []) env) :
    Effect b s e (s.ccdCommandWrapper b env password subcommand).2 := by
  unfold State.ccdCommandWrapper
  simp only
  split
  · exact .same
  · exact ccdVendor_effect (n := 0) hopens (by intro h; cases h)

theorem commandCcd_effect {args : List (List Char)} (hevent : e = .console args env) :
    Effect b s e (s.commandCcd b env args).2 := by
  unfold State.commandCcd
  cases args with
  | nil => exact .same
  | cons cmd args =>
      simp only
      by_cases hget : strcasecmp cmd "get".toList = true
      · rw [if_pos hget]
        exact .same
      rw [if_neg hget]
      by_cases htestlab : strcasecmp cmd "testlab".toList = true
      · rw [if_pos htestlab]
        exact commandCcdTestlab_effect htestlab hevent
      rw [if_neg htestlab]
      by_cases hlock : strcasecmp cmd "lock".toList = true
      · rw [if_pos hlock]
        exact ccdCommandWrapper_effect (by intro h; cases h)
      rw [if_neg hlock]
      by_cases hunlock : strcasecmp cmd "unlock".toList = true
      · rw [if_pos hunlock]
        split
        · exact .same
        · exact ccdCommandWrapper_effect (by intro h; cases h)
      rw [if_neg hunlock]
      by_cases hopen : strcasecmp cmd "open".toList = true
      · rw [if_pos hopen, hevent]
        exact ccdCommandWrapper_effect fun _ => .console cmd args env hopen
      rw [if_neg hopen]
      split
      · rename_i hset
        exact commandCcdSet_effect hset hevent
      · split
        · split
          · exact ccdCommandWrapper_effect (by intro h; cases h)
          · exact .same
        · split
          · rename_i hreset
            exact commandCcdReset_effect ⟨cmd, args, env, hevent, hreset⟩
          · split
            · exact .disable
            · exact .same

theorem setFlag_effect {flag : BitVec 24} {value : Bool} (hevent : e = .setFlag flag value env) :
    Effect b s e (s.setFlag env flag value).2 := by
  unfold State.setFlag
  split_ifs with hdisabled
  · exact .same
  · exact .same
  · exact .same
  · exact .same
  · exact .setFlag env flag value hevent (Bool.eq_false_iff.mpr hdisabled)

/-- The checks of `ccd_disable_factory_mode` fail where CCD is disabled. -/
theorem enabled_of_factoryModeChecked (h : s.factoryModeChecked b env = true) :
    s.forceDisabled = false := by
  by_contra hdisabled
  simp [State.factoryModeChecked, State.batteryBypass, State.isCapEnabled,
    Bool.eq_true_of_not_eq_false hdisabled] at h

theorem ccdDisableFactoryMode_effect (hevent : e = .disableFactory env) :
    Effect b s e (s.ccdDisableFactoryMode b env).2.2 := by
  unfold State.ccdDisableFactoryMode
  split_ifs with hchecked
  · exact .same
  · have hchecked := Bool.eq_true_of_not_eq_false hchecked
    have henabled := enabled_of_factoryModeChecked hchecked
    have hreset : (s.setState .opened).commandCcdReset b env [] =
        { s.setState .opened with config := resetAll s false }.saveConfig env := rfl
    rw [hreset]
    simp only
    split_ifs with hcode
    · refine .leaveFactoryFails env hevent henabled hchecked ?_
      rw [ne_eq, saveConfig_code] at hcode
      exact Bool.eq_false_iff.mpr hcode
    · exact .leaveFactory env henabled

/-- What a callback does does not depend on the check. -/
theorem callback_detect (d d' : Detect Callback) (f : Callback) :
    { ({ s with detect := d }.callback b env f) with detect := d' } =
      { s.callback b env f with detect := d' } := by
  cases f with
  | openDone =>
      change { (if s.isCapEnabled b .openWithoutTpmWipe = false ∧ env.wipeTpm ≠ ecSuccess then
        { s with detect := d } else { s with detect := d }.setState .opened) with detect := d' } =
        { (if s.isCapEnabled b .openWithoutTpmWipe = false ∧ env.wipeTpm ≠ ecSuccess then s
          else s.setState .opened) with detect := d' }
      split_ifs <;> rfl
  | unlockDone => rfl
  | testlabToggle =>
      simp only [State.callback, State.testlabToggle, State.saveConfig]
      split_ifs <;> rfl

theorem detectDone_effect (hevent : e = .done env) :
    Effect b s e
      ({ s with detect := s.detect.cancelDeferred .done }.physicalDetectDone b env) := by
  unfold State.physicalDetectDone
  simp only
  cases hcallback : (s.detect.cancelDeferred .done).finish.ppDetectCallback with
  | none => exact .detect _ (Or.inl hcallback)
  | some f =>
      simp only
      obtain ⟨hfull, hf⟩ : ¬ (s.detect.ppDetectState.inProgress = false ∨
          s.detect.ppPressCount < s.detect.ppPressCountNeeded) ∧
            s.detect.ppDetectCallback = some f := by
        change (if s.detect.ppDetectState.inProgress = false ∨
          s.detect.ppPressCount < s.detect.ppPressCountNeeded then none
            else s.detect.ppDetectCallback) = some f at hcallback
        split_ifs at hcallback with hfull
        exact ⟨hfull, hcallback⟩
      obtain ⟨hprogress, hcount⟩ := not_or.mp hfull
      rw [callback_detect]
      exact .called env f _ hevent (Bool.eq_true_of_not_eq_false hprogress)
        (Nat.not_lt.mp hcount) hf rfl

/-- A press is counted, or ignored. -/
theorem checkPress_callback (t : Timing) (now : Nat) (dt : Int) (clock : Nat)
    (d : Detect Callback) :
    (d.checkPress t now dt clock).ppDetectCallback = d.ppDetectCallback ∧
      (d.checkPress t now dt clock).ppPressCountNeeded = d.ppPressCountNeeded := by
  unfold Detect.checkPress
  simp only
  split_ifs <;> exact ⟨rfl, rfl⟩

/-- **Inversion.** Every step is one of the effects. -/
theorem step_effect (h : step b s e = some s') : Effect b s e s' := by
  cases e with
  | vendor fromUsb outSize subcommand buffer env =>
      obtain rfl := Option.some.inj h
      refine ccdVendor_effect (n := outSize) ?_ ?_
      · intro hsub
        subst hsub
        exact .vendor fromUsb outSize buffer env
      · intro husb
        rw [husb]
  | disableFactory env =>
      obtain rfl := Option.some.inj h
      exact ccdDisableFactoryMode_effect rfl
  | console args env =>
      obtain rfl := Option.some.inj h
      exact commandCcd_effect rfl
  | setFlag flag value env =>
      obtain rfl := Option.some.inj h
      exact setFlag_effect rfl
  | disable =>
      obtain rfl := Option.some.inj h
      exact .disable
  | press now =>
      obtain rfl := Option.some.inj h
      refine .detect _ (Or.inr ?_)
      unfold Detect.press
      split_ifs <;> exact ⟨rfl, rfl⟩
  | done env =>
      simp only [step, Option.ite_none_right_eq_some] at h
      rw [← Option.some.inj h.2]
      exact detectDone_effect rfl
  | prompt now =>
      simp only [step, Option.ite_none_right_eq_some] at h
      rw [← Option.some.inj h.2]
      exact .detect _ (Or.inr ⟨rfl, rfl⟩)
  | checkPress now =>
      simp only [step, Option.ite_none_right_eq_some] at h
      rw [← Option.some.inj h.2]
      exact .detect _ (Or.inr (checkPress_callback _ _ _ _ _))

end Ccd
end CrosEc
