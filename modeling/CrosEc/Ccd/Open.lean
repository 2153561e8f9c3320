import CrosEc.Ccd.Effect
import CrosEc.Lib.Interleaving

/-!
# How case-closed debugging is opened

CCD is opened by `ccd testlab open`, or by a request that has passed the checks of `ccd_open`, has
had its physical presence check, and has wiped the TPM (`ccd_opened_authorised`).

`ccd_disable_factory_mode` opens CCD as well, to be allowed to reset the configuration, and locks
it again only if the reset succeeds.  Where the configuration cannot be saved, CCD stays open
(`ccd_opened_by_failed_reset`).
-/

namespace CrosEc
namespace Ccd

open Lib PhysicalPresence

variable {b : Build} {s s' : State} {e : Event}

/-- **What may open CCD**: `ccd testlab open` in test lab mode; or a request to open, either at
once or, after the presses that it needs, from the check that it has started and that has been
under way since. -/
inductive Authorised (b : Build) (earlier : List (State × Event)) (s : State) (e : Event) : Prop
  | testlab (hevent : IsTestlabOpen e) (hlab : s.getFlag flagTestLab = true)
  | atOnce (fromUsb : Bool) (buffer : List Char) (env : Env) (hopens : OpensBy e fromUsb buffer env)
      (hrequest : OpenRequest b s fromUsb buffer env) (hwaived : PresenceWaived b s env)
      (hwiped : Wiped b s env)
  | afterPresence (env : Env) (hevent : e = .done env)
      (hprogress : s.detect.ppDetectState.inProgress = true)
      (hcount : s.detect.ppPressCountNeeded ≤ s.detect.ppPressCount) (hwiped : Wiped b s env)
      (later before : List (State × Event)) (s₀ : State) (e₀ : Event) (fromUsb : Bool)
      (buffer : List Char) (env₀ : Env) (hearlier : earlier = later ++ (s₀, e₀) :: before)
      (hopens : OpensBy e₀ fromUsb buffer env₀) (hrequest : OpenRequest b s₀ fromUsb buffer env₀)
      (hneeded : s.detect.ppPressCountNeeded =
        if s₀.openIsLong b then b.timing.longPressCount else b.timing.shortPressCount)
      (hsince : ∀ x ∈ later, x.1.detect.ppDetectCallback = some .openDone)

/-- `ccd_disable_factory_mode` saves the configuration where it has to open CCD first. -/
def factoryResetSaved (b : Build) (s : State) : Event → Bool
  | .disableFactory env => s.ccdState = .opened || !s.factoryModeChecked b env || env.saves
  | _ => true

/-! ## The check that a request has started -/

/-- A check for an open is under way, and needs so many presses. -/
def OpenPending (needed : Nat) (s : State) : Prop :=
  s.detect.ppDetectCallback = some .openDone ∧ s.detect.ppPressCountNeeded = needed

theorem start_eq {t : Timing} {isLong : Bool} {f : Callback} {now : Nat} {d d' : Detect Callback}
    (h : d.start t isLong f now = some d') :
    d'.ppDetectCallback = some f ∧
      d'.ppPressCountNeeded = if isLong then t.longPressCount else t.shortPressCount := by
  unfold Detect.start Detect.begin at h
  by_cases hbusy : d.busy = true
  · rw [if_pos hbusy] at h
    cases h
  · rw [if_neg hbusy] at h
    obtain rfl := Option.some.inj h
    exact ⟨rfl, rfl⟩

theorem abort_callback (now : Nat) (d : Detect Callback) :
    (d.abort now).ppDetectCallback = d.ppDetectCallback ∧
      (d.abort now).ppPressCountNeeded = d.ppPressCountNeeded := by
  unfold Detect.abort
  split_ifs <;> exact ⟨rfl, rfl⟩

/-- Only a request to open starts such a check. -/
theorem opened_request_of_pending {needed : Nat} (hstep : step b s e = some s')
    (hnot : ¬ OpenPending needed s) (hpending : OpenPending needed s') :
    ∃ fromUsb buffer env, OpensBy e fromUsb buffer env ∧ OpenRequest b s fromUsb buffer env ∧
      needed = if s.openIsLong b then b.timing.longPressCount else b.timing.shortPressCount := by
  cases step_effect hstep with
  | startOpen t fromUsb buffer env detect hopens henabled hrequest hstart =>
      exact ⟨fromUsb, buffer, env, hopens, hrequest, hpending.2.symm.trans (start_eq hstart).2⟩
  | startOther t isLong f now detect hf henabled hstart =>
      have hsame : some f = some Callback.openDone := (start_eq hstart).1.symm.trans hpending.1
      exact absurd (Option.some.inj hsame) hf
  | abortDetect t now =>
      obtain ⟨hcallback, hneeded⟩ := abort_callback now s.detect
      exact absurd ⟨hcallback.symm.trans hpending.1, hneeded.symm.trans hpending.2⟩ hnot
  | called env f detect hevent hprogress hcount _ hnone =>
      have hsome : detect.ppDetectCallback = some .openDone := hpending.1
      rw [hnone] at hsome
      cases hsome
  | detect detect hdetect =>
      have hsome : detect.ppDetectCallback = some .openDone := hpending.1
      rcases hdetect with hnone | ⟨hcallback, hneeded⟩
      · rw [hnone] at hsome
        cases hsome
      · exact absurd ⟨hcallback.symm.trans hsome, hneeded.symm.trans hpending.2⟩ hnot
  | leaveFactory env henabled =>
      unfold OpenPending at hpending
      rw [leftFactory_detect, stored_detect] at hpending
      exact absurd hpending hnot
  | setCap _ _ _ _ _ _ | reset _ _ _ | resetUnlocked _ _ _ | clearPassword _ _ _ _ _ _
  | setPassword _ _ _ _ | setFlag _ _ _ _ _ | leaveFactoryFails _ _ _ _ _ =>
      unfold OpenPending at hpending
      rw [stored_detect] at hpending
      exact absurd hpending hnot
  | nothing _ | openNow _ _ _ _ _ _ _ _ _ | testlabOpen _ _ _ | unlock _ _ | lock | disable =>
      exact absurd hpending hnot

/-! ## The step into the opened state -/

/-- What opens CCD. -/
theorem authorised_of_opened {allowed : State → Event → Bool} {config : Config}
    {vars flash : Option Config} {earlier : List (State × Event)}
    (h : Trace (step b) allowed (State.boot config vars flash) earlier s)
    (hsaved : factoryResetSaved b s e = true) (hstep : step b s e = some s')
    (hnot : s.ccdState ≠ .opened) (hopened : s'.ccdState = .opened) :
    Authorised b earlier s e := by
  cases step_effect hstep with
  | testlabOpen henabled hevent hlab => exact .testlab hevent hlab
  | openNow t fromUsb buffer env hopens henabled hrequest hwaived hwiped =>
      exact .atOnce fromUsb buffer env hopens hrequest hwaived hwiped
  | called env f detect hevent hprogress hcount hcallback hnone =>
      cases f with
      | openDone =>
          have hwiped : Wiped b s env := by
            change (s.openDone b env).ccdState = .opened at hopened
            unfold State.openDone at hopened
            split_ifs at hopened with hwipe
            · exact absurd hopened hnot
            · by_contra hno
              simp only [Wiped, not_or] at hno
              exact hwipe ⟨Bool.eq_false_iff.mpr hno.1, hno.2⟩
          obtain ⟨later, s₀, e₀, before, s₁, rfl, hnot₀, hstep₀, hpending, hlater⟩ :=
            h.last_entry (P := OpenPending s.detect.ppPressCountNeeded) ⟨hcallback, rfl⟩ (by
              intro hboot
              cases hboot.1)
          obtain ⟨fromUsb, buffer, env₀, hopens, hrequest, hneeded⟩ :=
            opened_request_of_pending hstep₀ hnot₀ hpending
          exact .afterPresence env hevent hprogress hcount hwiped later before s₀ e₀ fromUsb buffer
            env₀ rfl hopens hrequest hneeded fun x hx => (hlater x hx).1
      | unlockDone => cases hopened
      | testlabToggle =>
          change (s.stored env _).ccdState = .opened at hopened
          rw [stored_ccdState] at hopened
          exact absurd hopened hnot
  | leaveFactoryFails env hevent henabled hchecked hsaves =>
      subst hevent
      simp [factoryResetSaved, hnot, hchecked, hsaves] at hsaved
  | setCap _ _ _ _ _ _ | reset _ _ _ | resetUnlocked _ _ _ | clearPassword _ _ _ _ _ _
  | setPassword _ _ _ _ | setFlag _ _ _ _ _ =>
      rw [stored_ccdState] at hopened
      exact absurd hopened hnot
  | nothing _ | abortDetect _ _ | startOpen _ _ _ _ _ _ _ _ _ | startOther _ _ _ _ _ _ _ _
  | detect _ _ =>
      exact absurd hopened hnot
  | unlock _ _ | lock | disable | leaveFactory _ _ => cases hopened

/-- **CCD is opened only on an authorised path**, in every run in which
`ccd_disable_factory_mode` saves the configuration where it has to open CCD first: where CCD is
open, the last step into this state was authorised, and CCD has been open since. -/
theorem ccd_opened_authorised {config : Config} {vars flash : Option Config}
    {steps : List (State × Event)}
    (h : Trace (step b) (factoryResetSaved b) (State.boot config vars flash) steps s)
    (hopened : s.ccdState = .opened) :
    ∃ later s₁ e earlier, steps = later ++ (s₁, e) :: earlier ∧ s₁.ccdState ≠ .opened ∧
      (∀ x ∈ later, x.1.ccdState = .opened) ∧ Authorised b earlier s₁ e := by
  obtain ⟨later, s₁, e, earlier, s₂, rfl, hnot, hstep, hopened₂, hlater⟩ :=
    h.last_entry (P := fun s => s.ccdState = .opened) hopened (by
      intro hboot
      cases hboot)
  obtain ⟨hbefore, hsaved⟩ := h.before
  exact ⟨later, s₁, e, earlier, rfl, hnot, hlater,
    authorised_of_opened hbefore hsaved hstep hnot hopened₂⟩

/-! ## Concrete runs -/

/-- A build with the strict timing; the digest is no hash, only a function of salt and password. -/
def testBuild : Build where
  openPrepvt := false
  cmdCcdDisable := true
  timing := .strict
  digest := fun salt password =>
    BitVec.ofNat 128 (password.foldl (fun acc c => 257 * acc + c.toNat) (salt.toNat + 1))

/-- What the commands find at a time: no battery, no developer mode, and storage that works. -/
def testEnv (now : Nat) : Env where
  now := now
  randBytes := 0x51a7
  fwmpAllowsUnlock := true
  vbootDevModeEnabled := false
  batteryIsPresent := true
  wipeTpm := ecSuccess
  setvar := ecSuccess
  writevars := ecSuccess

/-- A configuration in which an open takes the short sequence of presses. -/
def shortPpConfig : Config :=
  (Config.zero.rawSetCap .openWithoutLongPp .always).rawSetCap .unlockWithoutShortPp .ifOpened

/-- The presses of a short sequence, a second apart. -/
def shortSequence (start : Nat) : List Event :=
  (List.range 5).flatMap fun i =>
    [.press (start + 1000000 * (i + 1)), .checkPress (start + 1000000 * (i + 1) + 1)]

/-- Developer mode, a request from the AP, and five presses. -/
theorem ccd_opened_authorised_run :
    ∃ steps s, Trace (step testBuild) (factoryResetSaved testBuild)
        (State.boot shortPpConfig none none) steps s ∧
      ∃ later s₁ e earlier, steps = later ++ (s₁, e) :: earlier ∧ s₁.ccdState ≠ .opened ∧
        (∀ x ∈ later, x.1.ccdState = .opened) ∧ Authorised testBuild earlier s₁ e := by
  obtain ⟨steps, s, hrun, hopened⟩ : ∃ steps s, Trace (step testBuild) (factoryResetSaved testBuild)
      (State.boot shortPpConfig none none) steps s ∧ s.ccdState = .opened :=
    Trace.exists_of_recordEvents
      (.vendor false 24 1 [] { testEnv 1000000 with vbootDevModeEnabled := true } ::
        (shortSequence 1000000 ++ [.done (testEnv 7000000)]))
      (by decide +kernel)
  exact ⟨steps, s, hrun, ccd_opened_authorised hrun hopened⟩

/-- **CCD stays open.** The battery is removed, and the firmware management parameters block an
open; the configuration cannot be saved, so `ccd_disable_factory_mode` fails and leaves CCD open.
Nothing has authorised that. -/
theorem ccd_opened_by_failed_reset :
    ∃ steps s, Trace (step testBuild) anyEvent (State.boot Config.zero none none) steps s ∧
      s.ccdState = .opened ∧
      ¬ ∃ later s₁ e earlier, steps = later ++ (s₁, e) :: earlier ∧ s₁.ccdState ≠ .opened ∧
        (∀ x ∈ later, x.1.ccdState = .opened) ∧ Authorised testBuild earlier s₁ e := by
  let env : Env := { testEnv 1000000 with
    fwmpAllowsUnlock := false
    batteryIsPresent := false
    setvar := ecErrorOverflow }
  let s := State.boot Config.zero none none
  have hstep : step testBuild s (.disableFactory env) =
      some (s.ccdDisableFactoryMode testBuild env).2.2 := rfl
  refine ⟨[(s, .disableFactory env)], _, Trace.start.next _ rfl hstep, by decide +kernel, ?_⟩
  intro hexists
  obtain ⟨later, s₁, e, earlier, hsteps, -, -, hauthorised⟩ := hexists
  obtain ⟨rfl, hlast⟩ := List.append_eq_singleton_iff.mp hsteps.symm |>.resolve_right (by simp)
  obtain ⟨⟨rfl, rfl⟩, rfl⟩ : (s₁ = s ∧ e = .disableFactory env) ∧ earlier = [] := by
    simpa using hlast
  cases hauthorised with
  | testlab hevent hlab =>
      obtain ⟨_, _, _, _, hevent, -⟩ := hevent
      cases hevent
  | atOnce _ _ _ hopens => cases hopens
  | afterPresence _ hevent => cases hevent

end Ccd

/-!
## `ccd_disable` is final

After `ccd_disable` CCD stays locked, no capability is enabled, and the configuration does not
change any more (`ccd_disable_final`), as long as no physical presence check comes to its end: the
callback of a check that has been started before does not look whether CCD has been disabled since
(`ccd_opened_after_disable`).
-/

namespace Ccd

open Lib PhysicalPresence

variable {b : Build} {s s' : State} {e : Event}

/-- `physical_detect_done` finds the full sequence, and calls the callback. -/
def completes (s : State) : Event → Bool
  | .done _ => s.detect.ppDetectState.inProgress && s.detect.ppDetectCallback.isSome &&
      s.detect.ppPressCountNeeded ≤ s.detect.ppPressCount
  | _ => false

/-- No physical presence check is completed while CCD is disabled. -/
def noCompletion (s : State) (e : Event) : Bool := !(s.forceDisabled && completes s e)

/-- CCD is disabled and locked, and the configuration is that of another state. -/
structure Disabled (s₀ s : State) : Prop where
  forceDisabled : s.forceDisabled = true
  ccdState : s.ccdState = .locked
  config : s.config = s₀.config
  vars : s.vars = s₀.vars
  flash : s.flash = s₀.flash

theorem disabled_disable (s : State) : Disabled s s.disable := ⟨rfl, rfl, rfl, rfl, rfl⟩

theorem Disabled.isCapEnabled {s₀ : State} (h : Disabled s₀ s) (cap : Capability) :
    s.isCapEnabled b cap = false := by
  simp [State.isCapEnabled, h.forceDisabled]

/-- **Step lemma.** -/
theorem Disabled.step {s₀ : State} (h : Disabled s₀ s) (hallowed : noCompletion s e = true)
    (hstep : step b s e = some s') : Disabled s₀ s' := by
  have hdisabled : s.forceDisabled ≠ false := by simp [h.forceDisabled]
  cases step_effect hstep with
  | nothing t => exact ⟨h.forceDisabled, h.ccdState, h.config, h.vars, h.flash⟩
  | abortDetect t now => exact ⟨h.forceDisabled, h.ccdState, h.config, h.vars, h.flash⟩
  | detect detect hdetect => exact ⟨h.forceDisabled, h.ccdState, h.config, h.vars, h.flash⟩
  | lock => exact ⟨h.forceDisabled, rfl, h.config, h.vars, h.flash⟩
  | disable => exact ⟨rfl, rfl, h.config, h.vars, h.flash⟩
  | called env f detect hevent hprogress hcount hcallback hnone =>
      subst hevent
      simp [noCompletion, completes, h.forceDisabled, hprogress, hcount, hcallback] at hallowed
  | startOpen _ _ _ _ _ _ henabled _ _ => exact absurd henabled hdisabled
  | startOther _ _ _ _ _ _ henabled _ => exact absurd henabled hdisabled
  | openNow _ _ _ _ _ henabled _ _ _ => exact absurd henabled hdisabled
  | testlabOpen henabled _ _ => exact absurd henabled hdisabled
  | unlock _ henabled => exact absurd henabled hdisabled
  | setFlag _ _ _ _ henabled => exact absurd henabled hdisabled
  | leaveFactory _ henabled => exact absurd henabled hdisabled
  | leaveFactoryFails _ _ henabled _ _ => exact absurd henabled hdisabled
  | setCap _ _ _ _ hstate _ => exact absurd h.ccdState hstate
  | clearPassword _ _ _ hstate _ _ => exact absurd h.ccdState hstate
  | setPassword _ _ hstate _ => exact absurd h.ccdState hstate
  | reset _ _ hstate =>
      rw [h.ccdState] at hstate
      cases hstate
  | resetUnlocked _ _ hstate =>
      rw [h.ccdState] at hstate
      cases hstate

/-- **`ccd_disable` is final**, from any state and in every run in which no physical presence
check is completed: CCD stays locked, no capability is reported enabled, and the configuration, in
use and stored, does not change. -/
theorem ccd_disable_final (h : Reachable (step b) noCompletion s.disable s') :
    s'.ccdState = .locked ∧ (∀ cap, s'.isCapEnabled b cap = false) ∧
      s'.config = s.config ∧ s'.vars = s.vars ∧ s'.flash = s.flash := by
  have hfinal : Disabled s s' :=
    h.invariant (Disabled s) (disabled_disable s) fun _ _ _ hs hallowed hstep =>
      hs.step hallowed hstep
  exact ⟨hfinal.ccdState, hfinal.isCapEnabled, hfinal.config, hfinal.vars, hfinal.flash⟩

/-- A check for an open is under way when CCD is disabled; it is not completed in time, and
nothing is left of it. -/
theorem ccd_disable_final_run :
    ∃ s s', Reachable (step testBuild) anyEvent (State.boot shortPpConfig none none) s ∧
      s.detect.busy = true ∧ Reachable (step testBuild) noCompletion s.disable s' ∧
        s'.ccdState = .locked ∧ s'.config = s.config := by
  obtain ⟨s, hs, hbusy, hrun⟩ : ∃ s,
      Reachable (step testBuild) anyEvent (State.boot shortPpConfig none none) s ∧
        s.detect.busy = true ∧
          ((runEvents (step testBuild) noCompletion s.disable
            [.press 2000000, .checkPress 2000001, .console ["unlock".toList] (testEnv 2500000),
              .done (testEnv 7000002)]).isSome) = true :=
    Reachable.exists_of_runEvents
      [.vendor false 24 1 [] { testEnv 1000000 with vbootDevModeEnabled := true }]
      (by decide +kernel)
  obtain ⟨s', hs'⟩ := Option.isSome_iff_exists.mp hrun
  have hfinal := ccd_disable_final (Reachable.start.of_runEvents hs')
  exact ⟨s, s', hs, hbusy, Reachable.start.of_runEvents hs', hfinal.1, hfinal.2.2.1⟩

/-- **CCD is opened after it has been disabled.** A request to open has started its physical
presence check; after `ccd_disable` the presses are made, and the callback opens CCD. -/
theorem ccd_opened_after_disable :
    ∃ s s', Reachable (step testBuild) anyEvent (State.boot shortPpConfig none none) s ∧
      Reachable (step testBuild) anyEvent s.disable s' ∧ s'.ccdState = .opened := by
  obtain ⟨s, hs, hrun⟩ : ∃ s,
      Reachable (step testBuild) anyEvent (State.boot shortPpConfig none none) s ∧
        (runEvents (step testBuild) anyEvent s.disable
          (shortSequence 1000000 ++ [.done (testEnv 7000000)])).any
            (fun s' => decide (s'.ccdState = .opened)) = true :=
    Reachable.exists_of_runEvents
      [.vendor false 24 1 [] { testEnv 1000000 with vbootDevModeEnabled := true }]
      (by decide +kernel)
  obtain ⟨s', hs', hopened⟩ := Reachable.exists_of_runEvents _ hrun
  exact ⟨s, s', hs, hs', hopened⟩

end Ccd
end CrosEc
