import CrosEc.Ccd.Open
import CrosEc.Lib.Bits

/-!
# What an unlocked session can change

In the unlocked state a capability that is in effect IfOpened keeps its state, the flags that are
not about the password stay as they are, and a password that was set while CCD was open can only
be cleared with the password (`ccd_unlocked_kept`).

A capability can become IfOpened, and `ccd reset` does this by design: it takes every other
capability back to its default.  `ccd set` refuses the word IfOpened, but not a Default that means
the same (`SetsToDefault`), since it translates only the old state.  And `ccd reset` clears the
test lab flag where CCD is disabled, because it asks `ccd_get_flag` what to restore
(`ccd_unlocked_restricts`).
-/

namespace CrosEc
namespace Ccd

open Lib PhysicalPresence

variable {b : Build} {s s' s'' s₀ : State} {e : Event}

/-- A console command or a vendor command, executed in the unlocked state, with storage that
works. -/
def whileUnlocked (s : State) : Event → Bool
  | .vendor _ _ _ _ env => s.ccdState = .unlocked && env.saves
  | .disableFactory env => s.ccdState = .unlocked && env.saves
  | .console _ env => s.ccdState = .unlocked && env.saves
  | _ => false

/-- `ccd set` of a capability that is not IfOpened to Default, which means IfOpened. -/
def SetsToDefault (b : Build) (s : State) (e : Event) : Prop :=
  ∃ cap, SetsBy b e cap .default ∧ (cap.info b.openPrepvt).2 = .ifOpened ∧
    s.config.effectiveCap b.openPrepvt cap ≠ .ifOpened

/-! ## Flags -/

theorem getLsbD_rawSetFlag {c : Config} {i j : Nat} {value : Bool} (hi : i < 24) (hj : j < 24)
    (hne : i ≠ j) : (c.rawSetFlag (1#24 <<< i) value).flags.getLsbD j = c.flags.getLsbD j := by
  cases value with
  | true =>
      change (c.flags ||| 1#24 <<< i).getLsbD j = _
      rw [getLsbD_or_bit _ hi]
      simp [hne]
  | false =>
      change (c.flags &&& ~~~(1#24 <<< i)).getLsbD j = _
      rw [getLsbD_and_not_bit _ hj]
      simp [hne]

theorem getLsbD_rawSetFlag_self {c : Config} {i : Nat} {value : Bool} (hi : i < 24) :
    (c.rawSetFlag (1#24 <<< i) value).flags.getLsbD i = value := by
  cases value with
  | true =>
      change (c.flags ||| 1#24 <<< i).getLsbD i = _
      rw [getLsbD_or_bit _ hi]
      simp
  | false =>
      change (c.flags &&& ~~~(1#24 <<< i)).getLsbD i = _
      rw [getLsbD_and_not_bit _ hi]
      simp

theorem getFlag_eq {i : Nat} (hi : i < 24) :
    s.getFlag (1#24 <<< i) =
      (s.ccdConfigLoaded && !s.forceDisabled && s.config.flags.getLsbD i) := by
  have htest := and_bit_ne_zero_iff s.config.flags hi
  unfold State.getFlag
  congr 1
  cases h : s.config.flags.getLsbD i with
  | true => simpa [h] using htest
  | false => simpa [h] using htest

/-! ## The reset of the unlocked settings -/

theorem resetUnlockedCaps_eq (c : Config) :
    ∃ caps, State.resetUnlockedCaps b c = { c with capabilities := caps } := by
  unfold State.resetUnlockedCaps
  generalize Capability.all = caps
  induction caps generalizing c with
  | nil => exact ⟨c.capabilities, rfl⟩
  | cons cap caps ih =>
      rw [List.foldl_cons]
      split
      · exact ih c
      · exact ih (c.rawSetCap cap .default)

/-- A capability is in effect IfOpened only if it is so before the reset, or by its default. -/
theorem rawGetCap_resetUnlockedCaps (c : Config) (cap : Capability) :
    (State.resetUnlockedCaps b c).rawGetCap cap =
      if c.effectiveCap b.openPrepvt cap = .ifOpened then c.rawGetCap cap else .default := by
  have hmem := Capability.mem_all cap
  suffices h : ∀ caps : List Capability,
      (caps.foldl (fun c cap =>
        if c.effectiveCap b.openPrepvt cap = .ifOpened then c else c.rawSetCap cap .default)
          c).rawGetCap cap =
        if c.effectiveCap b.openPrepvt cap = .ifOpened ∨ cap ∉ caps then c.rawGetCap cap
          else .default by
    have hall := h Capability.all
    simp only [hmem, not_true_eq_false, or_false] at hall
    exact hall
  intro caps
  induction caps generalizing c with
  | nil => simp
  | cons head caps ih =>
      rw [List.foldl_cons]
      by_cases hopened : c.effectiveCap b.openPrepvt head = .ifOpened
      · rw [if_pos hopened, ih c]
        by_cases hhead : cap = head
        · subst hhead
          simp [hopened]
        · simp [hhead]
      · rw [if_neg hopened, ih (c.rawSetCap head .default)]
        by_cases hhead : head = cap
        · subst hhead
          simp [Config.rawGetCap_rawSetCap, hopened]
        · simp [Config.effectiveCap, Config.rawGetCap_rawSetCap, hhead, Ne.symm hhead]

/-! ## What is kept -/

/-- What the commands of an unlocked session keep. -/
structure Kept (b : Build) (s s' : State) : Prop where
  loaded : s'.ccdConfigLoaded = s.ccdConfigLoaded
  disabled : s'.forceDisabled = s.forceDisabled
  ifOpened : ∀ cap, s.config.effectiveCap b.openPrepvt cap = .ifOpened →
    s'.config.rawGetCap cap = s.config.rawGetCap cap
  flags : ∀ i < 24, i ≠ 0 → i ≠ 1 → s'.config.flags.getLsbD i = s.config.flags.getLsbD i
  testLab : s.ccdConfigLoaded = true → s.forceDisabled = false →
    s'.config.flags.getLsbD 0 = s.config.flags.getLsbD 0

theorem Kept.refl (s : State) : Kept b s s where
  loaded := rfl
  disabled := rfl
  ifOpened := fun _ _ => rfl
  flags := fun _ _ _ _ => rfl
  testLab := fun _ _ => rfl

theorem effectiveCap_congr {c c' : Config} {cap : Capability}
    (h : c'.rawGetCap cap = c.rawGetCap cap) :
    c'.effectiveCap b.openPrepvt cap = c.effectiveCap b.openPrepvt cap := by
  rw [Config.effectiveCap, Config.effectiveCap, h]

theorem Kept.trans (h : Kept b s s') (h' : Kept b s' s'') : Kept b s s'' where
  loaded := h'.loaded.trans h.loaded
  disabled := h'.disabled.trans h.disabled
  ifOpened := by
    intro cap hcap
    have hfirst := h.ifOpened cap hcap
    exact (h'.ifOpened cap ((effectiveCap_congr hfirst).trans hcap)).trans hfirst
  flags := fun i hi h0 h1 => (h'.flags i hi h0 h1).trans (h.flags i hi h0 h1)
  testLab := by
    intro hloaded henabled
    exact (h'.testLab (h.loaded.trans hloaded) (h.disabled.trans henabled)).trans
      (h.testLab hloaded henabled)

/-- The same configuration. -/
theorem Kept.of_config (hloaded : s'.ccdConfigLoaded = s.ccdConfigLoaded)
    (hdisabled : s'.forceDisabled = s.forceDisabled) (hconfig : s'.config = s.config) :
    Kept b s s' where
  loaded := hloaded
  disabled := hdisabled
  ifOpened := fun _ _ => by rw [hconfig]
  flags := fun _ _ _ _ => by rw [hconfig]
  testLab := fun _ _ => by rw [hconfig]

/-- A new configuration with the same capabilities, and with a new flag for the password. -/
theorem Kept.of_password {env : Env} {c : Config} {value : Bool} {t : UInt32}
    (hcaps : c.capabilities = s.config.capabilities) (hflags : c.flags = s.config.flags) :
    Kept b s ((s.timed t).stored env (c.rawSetFlag flagPasswordSetWhenUnlocked value)) := by
  have hraw : ∀ cap, c.rawGetCap cap = s.config.rawGetCap cap := by
    intro cap
    rw [Config.rawGetCap, Config.rawGetCap, hcaps]
  have hbit : ∀ i < 24, i ≠ 1 →
      (c.rawSetFlag flagPasswordSetWhenUnlocked value).flags.getLsbD i =
        s.config.flags.getLsbD i := by
    intro i hi h1
    rw [← hflags]
    exact getLsbD_rawSetFlag (by decide) hi (Ne.symm h1)
  refine ⟨by simp [State.timed], by simp [State.timed], ?_, ?_, ?_⟩
  · intro cap _
    rw [stored_config, Config.rawGetCap_rawSetFlag, hraw]
  · intro i hi h0 h1
    rw [stored_config, hbit i hi h1]
  · intro _ _
    rw [stored_config, hbit 0 (by decide) (by decide)]

theorem Kept.setCap {env : Env} {cap : Capability} {new : CapState}
    (hold : s.config.effectiveCap b.openPrepvt cap ≠ .ifOpened) :
    Kept b s (s.stored env (s.config.rawSetCap cap new)) := by
  refine ⟨by simp, by simp, ?_, by simp, by simp⟩
  intro cap' hcap'
  have hne : cap ≠ cap' := by
    rintro rfl
    exact hold hcap'
  rw [stored_config, Config.rawGetCap_rawSetCap, if_neg hne]

theorem rawGetCap_resetUnlocked (s : State) (cap : Capability) :
    (resetUnlocked b s).rawGetCap cap =
      if s.config.effectiveCap b.openPrepvt cap = .ifOpened then s.config.rawGetCap cap
        else .default := by
  have hcaps : ∀ c : Config, c.capabilities = s.config.capabilities →
      c.rawGetCap cap = s.config.rawGetCap cap := by
    intro c hc
    rw [Config.rawGetCap, Config.rawGetCap, hc]
  rw [resetUnlocked, Config.rawGetCap_rawSetFlag, rawGetCap_resetUnlockedCaps]
  split
  · rw [effectiveCap_congr (hcaps s.config.rawResetPassword rfl), hcaps s.config.rawResetPassword rfl]
  · rfl

theorem Kept.resetUnlocked {env : Env} : Kept b s (s.stored env (resetUnlocked b s)) := by
  let c := if s.getFlag flagPasswordSetWhenUnlocked then s.config.rawResetPassword else s.config
  have hbit : ∀ i < 24, i ≠ 1 → c.flags.getLsbD i = s.config.flags.getLsbD i := by
    intro i hi h1
    unfold c
    split
    · exact getLsbD_rawSetFlag (c := { s.config with passwordSalt := 0, passwordDigest := 0 })
        (by decide) hi (Ne.symm h1)
    · rfl
  obtain ⟨caps, heq⟩ := resetUnlockedCaps_eq (b := b) c
  refine ⟨by simp, by simp, ?_, ?_, ?_⟩
  · intro cap hcap
    rw [stored_config, rawGetCap_resetUnlocked, if_pos hcap]
  · intro i hi h0 h1
    rw [stored_config, Ccd.resetUnlocked, heq]
    exact (getLsbD_rawSetFlag (c := { c with capabilities := caps }) (by decide) hi
      (Ne.symm h0)).trans (hbit i hi h1)
  · intro hloaded henabled
    rw [stored_config, Ccd.resetUnlocked, heq]
    have hlab : s.getFlag flagTestLab = s.config.flags.getLsbD 0 := by
      rw [flagTestLab, getFlag_eq (by decide), hloaded, henabled]
      simp
    rw [← hlab]
    exact getLsbD_rawSetFlag_self (c := { c with capabilities := caps }) (by decide)

theorem unlocked_of_whileUnlocked (h : whileUnlocked s e = true) : s.ccdState = .unlocked := by
  cases e <;> simp_all [whileUnlocked]

/-- **Step lemma**, for a step that stays in the unlocked state. -/
theorem step_kept (hallowed : whileUnlocked s e = true) (hstep : step b s e = some s')
    (hunlocked : s'.ccdState = .unlocked) : Kept b s s' := by
  have hbefore := unlocked_of_whileUnlocked hallowed
  cases step_effect hstep with
  | nothing _ | abortDetect _ _ | startOpen _ _ _ _ _ _ _ _ _ | startOther _ _ _ _ _ _ _ _
  | unlock _ _ | detect _ _ =>
      exact .of_config rfl rfl rfl
  | setCap env cap new _ _ hrule => exact .setCap (hrule hbefore).2
  | resetUnlocked env _ _ => exact .resetUnlocked
  | clearPassword t env password _ _ _ => exact .of_password rfl rfl
  | setPassword env password _ _ => exact .of_password (t := s.lastPasswordTime) rfl rfl
  | reset _ _ hstate =>
      rw [hbefore] at hstate
      cases hstate
  | leaveFactoryFails _ _ _ _ _ =>
      rw [stored_ccdState] at hunlocked
      cases hunlocked
  | setFlag _ _ _ hevent _ =>
      subst hevent
      cases hallowed
  | called _ _ _ hevent _ _ _ _ =>
      subst hevent
      cases hallowed
  | openNow _ _ _ _ _ _ _ _ _ | testlabOpen _ _ _ | lock | disable | leaveFactory _ _ =>
      cases hunlocked

/-! ## Capabilities that become IfOpened -/

/-- `ccd set` refuses the word IfOpened, so what becomes IfOpened has been set to Default. -/
theorem ifOpened_of_rawSetCap {c : Config} {cap cap' : Capability} {new : CapState}
    (hnew : new ≠ .ifOpened)
    (hcap : (c.rawSetCap cap new).effectiveCap b.openPrepvt cap' = .ifOpened)
    (hnot : c.effectiveCap b.openPrepvt cap' ≠ .ifOpened) :
    cap' = cap ∧ new = .default ∧ (cap.info b.openPrepvt).2 = .ifOpened := by
  by_cases hsame : cap = cap'
  · subst hsame
    rw [Config.effectiveCap, Config.rawGetCap_rawSetCap, if_pos rfl] at hcap
    split at hcap
    · exact ⟨rfl, ‹_›, hcap⟩
    · exact absurd hcap hnew
  · have hraw : (c.rawSetCap cap new).rawGetCap cap' = c.rawGetCap cap' := by
      rw [Config.rawGetCap_rawSetCap, if_neg hsame]
    exact absurd ((effectiveCap_congr hraw).symm.trans hcap) hnot

/-- **Step lemma.** But for the Default of `ccd set`, only `ccd reset` takes a capability into
the IfOpened ones, and it takes it to Default. -/
theorem step_restricted (hallowed : whileUnlocked s e = true) (hstep : step b s e = some s')
    (hunlocked : s'.ccdState = .unlocked) (hset : ¬ SetsToDefault b s e) {cap : Capability}
    (hcap : s'.config.effectiveCap b.openPrepvt cap = .ifOpened)
    (hnot : s.config.effectiveCap b.openPrepvt cap ≠ .ifOpened) :
    IsReset e ∧ s'.config.rawGetCap cap = .default := by
  have hbefore := unlocked_of_whileUnlocked hallowed
  cases step_effect hstep with
  | nothing _ | abortDetect _ _ | startOpen _ _ _ _ _ _ _ _ _ | startOther _ _ _ _ _ _ _ _
  | unlock _ _ | detect _ _ =>
      exact absurd hcap hnot
  | setCap env cap' new hevent _ hrule =>
      rw [stored_config] at hcap
      obtain ⟨rfl, rfl, hdefault⟩ := ifOpened_of_rawSetCap (hrule hbefore).1 hcap hnot
      exact absurd ⟨cap, hevent, hdefault, hnot⟩ hset
  | resetUnlocked env hevent _ =>
      refine ⟨hevent, ?_⟩
      rw [stored_config, rawGetCap_resetUnlocked, if_neg hnot]
  | clearPassword t env password _ _ _ =>
      rw [stored_config] at hcap
      exact absurd hcap hnot
  | setPassword env password _ _ =>
      rw [stored_config] at hcap
      exact absurd hcap hnot
  | reset _ _ hstate =>
      rw [hbefore] at hstate
      cases hstate
  | leaveFactoryFails _ _ _ _ _ =>
      rw [stored_ccdState] at hunlocked
      cases hunlocked
  | setFlag _ _ _ hevent _ =>
      subst hevent
      cases hallowed
  | called _ _ _ hevent _ _ _ _ =>
      subst hevent
      cases hallowed
  | openNow _ _ _ _ _ _ _ _ _ | testlabOpen _ _ _ | lock | disable | leaveFactory _ _ =>
      cases hunlocked

/-! ## The password -/

/-- A password is set, and it was set while CCD was open. -/
def SetWhileOpened (s : State) : Prop :=
  s.config.rawHasPassword = true ∧ s.config.flags.getLsbD 1 = false

/-- The password, and when it was set, are those of another state. -/
structure SamePassword (s s' : State) : Prop where
  salt : s'.config.passwordSalt = s.config.passwordSalt
  digest : s'.config.passwordDigest = s.config.passwordDigest
  whenUnlocked : s'.config.flags.getLsbD 1 = s.config.flags.getLsbD 1

theorem SamePassword.setWhileOpened (h : SamePassword s s') (hset : SetWhileOpened s) :
    SetWhileOpened s' := by
  obtain ⟨hpassword, hflag⟩ := hset
  exact ⟨by rw [Config.rawHasPassword, h.salt, h.digest]; exact hpassword,
    h.whenUnlocked.trans hflag⟩

theorem SamePassword.resetUnlocked {env : Env} (hset : SetWhileOpened s) :
    SamePassword s (s.stored env (resetUnlocked b s)) := by
  have hflag : s.getFlag flagPasswordSetWhenUnlocked = false := by
    rw [flagPasswordSetWhenUnlocked, getFlag_eq (by decide), hset.2, Bool.and_false]
  obtain ⟨caps, heq⟩ := resetUnlockedCaps_eq (b := b) s.config
  have hconfig : Ccd.resetUnlocked b s =
      { s.config with capabilities := caps }.rawSetFlag flagTestLab (s.getFlag flagTestLab) := by
    rw [Ccd.resetUnlocked, hflag, ← heq]
    rfl
  refine ⟨?_, ?_, ?_⟩
  · rw [stored_config, hconfig]
    rfl
  · rw [stored_config, hconfig]
    rfl
  · rw [stored_config, hconfig]
    exact getLsbD_rawSetFlag (by decide) (by decide) (by decide)

/-- **Step lemma.** A password that was set while CCD was open stays, or is cleared with the
password. -/
theorem step_password (hallowed : whileUnlocked s e = true) (hstep : step b s e = some s')
    (hunlocked : s'.ccdState = .unlocked) (hset : SetWhileOpened s) :
    SamePassword s s' ∨ ∃ password, ClearsBy e password ∧ RightPassword b s password := by
  have hbefore := unlocked_of_whileUnlocked hallowed
  cases step_effect hstep with
  | nothing _ | abortDetect _ _ | startOpen _ _ _ _ _ _ _ _ _ | startOther _ _ _ _ _ _ _ _
  | unlock _ _ | detect _ _ =>
      exact Or.inl ⟨rfl, rfl, rfl⟩
  | setCap env cap new _ _ _ => exact Or.inl ⟨by simp, by simp, by simp⟩
  | resetUnlocked env _ _ => exact Or.inl (.resetUnlocked hset)
  | clearPassword t env password _ hclears hright => exact Or.inr ⟨password, hclears, hright⟩
  | setPassword env password _ hnone =>
      rw [hset.1] at hnone
      cases hnone
  | reset _ _ hstate =>
      rw [hbefore] at hstate
      cases hstate
  | leaveFactoryFails _ _ _ _ _ =>
      rw [stored_ccdState] at hunlocked
      cases hunlocked
  | setFlag _ _ _ hevent _ =>
      subst hevent
      cases hallowed
  | called _ _ _ hevent _ _ _ _ =>
      subst hevent
      cases hallowed
  | openNow _ _ _ _ _ _ _ _ _ | testlabOpen _ _ _ | lock | disable | leaveFactory _ _ =>
      cases hunlocked

/-! ## Runs -/

theorem run_kept {steps : List (State × Event)}
    (h : Trace (step b) whileUnlocked s₀ steps s) (hunlocked : s.ccdState = .unlocked) :
    Kept b s₀ s := by
  induction h with
  | start => exact .refl s₀
  | next e _ hallowed hstep ih =>
      exact (ih (unlocked_of_whileUnlocked hallowed)).trans (step_kept hallowed hstep hunlocked)

theorem run_password {steps : List (State × Event)}
    (h : Trace (step b) whileUnlocked s₀ steps s) (hunlocked : s.ccdState = .unlocked)
    (hset : SetWhileOpened s₀) :
    SamePassword s₀ s ∨
      ∃ x ∈ steps, ∃ password, ClearsBy x.2 password ∧ RightPassword b x.1 password := by
  induction h with
  | start => exact Or.inl ⟨rfl, rfl, rfl⟩
  | @next steps s s' e _ hallowed hstep ih =>
      rcases ih (unlocked_of_whileUnlocked hallowed) with hsame | ⟨x, hx, hclears⟩
      · rcases step_password hallowed hstep hunlocked (hsame.setWhileOpened hset) with
          hsame' | hclears
        · exact Or.inl ⟨hsame'.salt.trans hsame.salt, hsame'.digest.trans hsame.digest,
            hsame'.whenUnlocked.trans hsame.whenUnlocked⟩
        · exact Or.inr ⟨(s, e), List.mem_cons_self, hclears⟩
      · exact Or.inr ⟨x, List.mem_cons_of_mem _ hx, hclears⟩

theorem run_restricted {steps : List (State × Event)}
    (h : Trace (step b) whileUnlocked s₀ steps s) (hunlocked : s.ccdState = .unlocked)
    (hset : ∀ x ∈ steps, ¬ SetsToDefault b x.1 x.2) {cap : Capability}
    (hcap : s.config.effectiveCap b.openPrepvt cap = .ifOpened)
    (hnot : s₀.config.effectiveCap b.openPrepvt cap ≠ .ifOpened) :
    (∃ x ∈ steps, IsReset x.2) ∧ s.config.rawGetCap cap = .default := by
  induction h with
  | start => exact absurd hcap hnot
  | @next steps s s' e _ hallowed hstep ih =>
      by_cases hbefore : s.config.effectiveCap b.openPrepvt cap = .ifOpened
      · obtain ⟨⟨x, hx, hreset⟩, hdefault⟩ := ih (unlocked_of_whileUnlocked hallowed)
          (fun x hx => hset x (List.mem_cons_of_mem _ hx)) hbefore
        exact ⟨⟨x, List.mem_cons_of_mem _ hx, hreset⟩,
          ((step_kept hallowed hstep hunlocked).ifOpened cap hbefore).trans hdefault⟩
      · obtain ⟨hreset, hdefault⟩ := step_restricted hallowed hstep hunlocked
          (hset (s, e) List.mem_cons_self) hcap hbefore
        exact ⟨⟨(s, e), List.mem_cons_self, hreset⟩, hdefault⟩

/-- **What an unlocked session keeps**, for every configuration and every sequence of commands
with storage that works: a capability that is in effect IfOpened keeps its state; where no
`ccd set` takes one to a Default that means IfOpened, another one becomes IfOpened only by
`ccd reset`, as its default; the flags stay as they are, but for that of the password, and for
test lab mode where CCD is disabled or not loaded; and a password that was set while CCD was open
stays, unless it is cleared with the password. -/
theorem ccd_unlocked_kept {steps : List (State × Event)}
    (h : Trace (step b) whileUnlocked s₀ steps s) (hunlocked : s.ccdState = .unlocked) :
    (∀ cap, s₀.config.effectiveCap b.openPrepvt cap = .ifOpened →
      s.config.rawGetCap cap = s₀.config.rawGetCap cap) ∧
    ((∀ x ∈ steps, ¬ SetsToDefault b x.1 x.2) → ∀ cap,
      s.config.effectiveCap b.openPrepvt cap = .ifOpened →
        s₀.config.effectiveCap b.openPrepvt cap ≠ .ifOpened →
          (∃ x ∈ steps, IsReset x.2) ∧ s.config.rawGetCap cap = .default) ∧
    (∀ i < 24, i ≠ 0 → i ≠ 1 → s.config.flags.getLsbD i = s₀.config.flags.getLsbD i) ∧
    (s₀.ccdConfigLoaded = true → s₀.forceDisabled = false →
      s.config.flags.getLsbD 0 = s₀.config.flags.getLsbD 0) ∧
    (s₀.config.rawHasPassword = true → s₀.config.flags.getLsbD 1 = false →
      (s.config.passwordSalt = s₀.config.passwordSalt ∧
        s.config.passwordDigest = s₀.config.passwordDigest) ∨
      ∃ x ∈ steps, ∃ password, ClearsBy x.2 password ∧ RightPassword b x.1 password) := by
  have hkept := run_kept h hunlocked
  refine ⟨hkept.ifOpened, fun hset cap hcap hnot => run_restricted h hunlocked hset hcap hnot,
    hkept.flags, hkept.testLab, ?_⟩
  intro hpassword hflag
  rcases run_password h hunlocked ⟨hpassword, hflag⟩ with hsame | hclears
  · exact Or.inl ⟨hsame.salt, hsame.digest⟩
  · exact Or.inr hclears

/-! ## Concrete runs -/

/-- An unlocked session with the AP flash open to everybody. -/
def unlockedState : State :=
  { State.boot (Config.zero.rawSetCap .apFlash .always) none none with ccdState := .unlocked }

/-- A capability is set, and the settings are reset. -/
theorem ccd_unlocked_kept_run :
    ∃ steps s, Trace (step testBuild) whileUnlocked unlockedState steps s ∧
      s.config.rawGetCap .ecFlash = unlockedState.config.rawGetCap .ecFlash := by
  obtain ⟨steps, s, hrun, hunlocked⟩ : ∃ steps s,
      Trace (step testBuild) whileUnlocked unlockedState steps s ∧ s.ccdState = .unlocked :=
    Trace.exists_of_recordEvents
      [.console ["set".toList, "FlashRead".toList, "UnlessLocked".toList] (testEnv 0),
        .console ["set".toList, "FlashEC".toList, "Always".toList] (testEnv 0),
        .console ["reset".toList] (testEnv 0)]
      (by decide +kernel)
  exact ⟨steps, s, hrun, (ccd_unlocked_kept hrun hunlocked).1 .ecFlash (by decide +kernel)⟩

/-- A password, test lab mode, and an unlock that takes presses. -/
def labConfig : Config :=
  ((Config.zero.rawSetPassword testBuild.digest 1 "word".toList false).rawSetFlag flagTestLab
    true).rawSetCap .unlockWithoutShortPp .ifOpened

/-- `ccd reset` -/
def resetEvent : Event := .console ["reset".toList] (testEnv 11000000)

/-- **What changes in an unlocked session.** A capability becomes IfOpened by `ccd set` with the
word Default, and by `ccd reset`.  CCD is disabled while a check for an unlock is under way, and
unlocked by the last press; then `ccd reset` clears the test lab flag. -/
theorem ccd_unlocked_restricts :
    (∃ steps s, Trace (step testBuild) whileUnlocked unlockedState steps s ∧
      s.ccdState = .unlocked ∧
      unlockedState.config.effectiveCap testBuild.openPrepvt .apFlash = .always ∧
        s.config.effectiveCap testBuild.openPrepvt .apFlash = .ifOpened ∧
        steps.map Prod.snd =
          [.console ["set".toList, "FlashAP".toList, "Default".toList] (testEnv 0)]) ∧
    (∃ steps s, Trace (step testBuild) whileUnlocked unlockedState steps s ∧
      s.ccdState = .unlocked ∧
      unlockedState.config.effectiveCap testBuild.openPrepvt .apFlash = .always ∧
        s.config.effectiveCap testBuild.openPrepvt .apFlash = .ifOpened ∧
        steps.map Prod.snd = [resetEvent]) ∧
    ∃ s s', Reachable (step testBuild) anyEvent (State.boot labConfig none none) s ∧
      whileUnlocked s resetEvent = true ∧ step testBuild s resetEvent = some s' ∧
      s'.ccdState = .unlocked ∧
      s.config.flags.getLsbD 0 = true ∧ s'.config.flags.getLsbD 0 = false := by
  refine ⟨?_, ?_, ?_⟩
  · exact ⟨_, _, Trace.start.next _ (by decide +kernel) rfl, by decide +kernel, by decide +kernel,
      by decide +kernel, rfl⟩
  · exact ⟨_, _, Trace.start.next _ (by decide +kernel) rfl, by decide +kernel, by decide +kernel,
      by decide +kernel, rfl⟩
  · obtain ⟨s, hs, hallowed, hflag, hreset⟩ : ∃ s,
        Reachable (step testBuild) anyEvent (State.boot labConfig none none) s ∧
          whileUnlocked s resetEvent = true ∧ s.config.flags.getLsbD 0 = true ∧
            (step testBuild s resetEvent).any (fun s' =>
              decide (s'.ccdState = .unlocked ∧ s'.config.flags.getLsbD 0 = false)) = true :=
      Reachable.exists_of_runEvents
        (.vendor false 24 2 "word".toList (testEnv 4000000) :: .disable ::
          (shortSequence 4000000 ++ [.done (testEnv 10000000)]))
        (by decide +kernel)
    obtain ⟨s', hstep, hs'⟩ := (Option.any_eq_true _ _).mp hreset
    obtain ⟨hunlocked, hcleared⟩ := of_decide_eq_true hs'
    exact ⟨s, s', hs, hallowed, hstep, hunlocked, hflag, hcleared⟩

end Ccd
end CrosEc
