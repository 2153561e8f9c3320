import CrosEc.Ccd.Model

/-!
# `common/ccd_config.c`: loading the configuration

The configuration is a variable in the NVMEM.  `ccd_load_config` copies its bytes to the structure,
and resets that if its version or its size is wrong.  The test lab flag is to survive such a reset:
it is in the same place in all versions.  But `ccd_reset_config` asks `ccd_get_flag` for the old
flag, and that is false as long as the configuration is not loaded.
-/

namespace CrosEc
namespace Ccd

open Lib

/-! ## The bytes of the structure -/

/-- A bit vector of `w` bytes, with its low byte first. -/
def bitsCodec (w : Nat) : Codec (BitVec (8 * w)) :=
  .ofNat w BitVec.toNat (BitVec.ofNat (8 * w))
    (fun a => by
      have hlt := a.isLt
      rwa [Nat.pow_mul] at hlt)
    (fun a => by simp)
    (fun n h => by
      rw [BitVec.toNat_ofNat, Nat.pow_mul, Nat.mod_eq_of_lt h])

/-- `capabilities`, byte by byte -/
def capabilitiesCodec : Codec (Fin 8 → BitVec 8) :=
  (Codec.blob 8).ofEquiv {
    toFun := fun caps => ⟨List.ofFn fun i => ⟨caps i⟩, List.length_ofFn⟩
    invFun := fun bytes i => (bytes.1.get (i.cast bytes.2.symm)).toBitVec
    left_inv := fun caps => by
      funext i
      simp only [List.get_eq_getElem, List.getElem_ofFn]
      rfl
    right_inv := fun bytes => by
      apply Subtype.ext
      apply List.ext_getElem
      · rw [List.length_ofFn, bytes.2]
      · intro i _ _
        simp only [List.get_eq_getElem, List.getElem_ofFn]
        rfl }

/-- The layout of `struct ccd_config` -/
def Config.codec : Codec Config :=
  (Codec.uint8.prod ((bitsCodec 3).prod (capabilitiesCodec.prod
    ((bitsCodec 4).prod (bitsCodec 16))))).ofEquiv {
      toFun := fun c =>
        (c.version, c.flags, c.capabilities, c.passwordSalt, c.passwordDigest)
      invFun := fun p => ⟨p.1, p.2.1, p.2.2.1, p.2.2.2.1, p.2.2.2.2⟩
      left_inv := fun _ => rfl
      right_inv := fun _ => rfl }

/-! ## Loading -/

variable (b : Build)

namespace State

/-- The static variables when the EC starts, with the state for `ccd_config_init`.  Nothing has
been saved since then. -/
def start (state : CcdState) : State where
  ccdState := state
  config := Config.zero
  ccdConfigLoaded := false
  forceDisabled := false
  lastPasswordTime := 0
  detect := .init Callback
  vars := none
  flash := none

/-- `ccd_load_config`; `stored` is the value of the variable, if there is one, and `factoryBoot` is
`board_is_first_factory_boot()`. -/
def loadConfig (env : Env) (factoryBoot : Bool) (stored : Option Bytes) (s : State) : State :=
  -- Don't reload if we're already loaded.
  if s.ccdConfigLoaded then s
  else
    match stored with
    -- Use defaults if config data is not present.
    | none =>
        let flags := if factoryBoot then ⟨false, false, true⟩ else ⟨true, false, false⟩
        { (s.resetConfig b env flags).2 with ccdConfigLoaded := true }
    | some val =>
        let s := { s with config :=
          Config.codec.decode (writeAt (Config.codec.encode s.config) 0 val) }
        -- If version or size is wrong, reset to defaults.
        let s :=
          if s.config.version ≠ ccdConfigVersion ∨ val.length ≠ Config.codec.size then
            (s.resetConfig b env ⟨val.length < 2, false, false⟩).2
          else s
        { s with ccdConfigLoaded := true }

/-- The stored value after all of this: the old one, unless another has been saved. -/
def storedNext (stored : Bytes) (s : State) : Bytes :=
  s.flash.elim stored Config.codec.encode

end State

/-! ## What it is for -/

/-- The version and the size of a stored value are right. -/
def RightFormat (stored : Bytes) : Prop :=
  stored[0]? = some ccdConfigVersion ∧ stored.length = Config.codec.size

instance (stored : Bytes) : Decidable (RightFormat stored) := inferInstanceAs (Decidable (_ ∧ _))

/-- The test lab flag of a stored value, if it is big enough to hold it: the least significant bit
of the second byte. -/
def storedTestLab (stored : Bytes) : Bool :=
  stored[1]?.any fun flags => flags.toBitVec.getLsbD 0

/-- All defaults, but for the test lab flag. -/
def Config.defaults (testLab : Bool) : Config :=
  { Config.zero with
    version := ccdConfigVersion
    flags := if testLab then flagTestLab else 0 }

/-- What loading keeps of a stored value, and that the next load finds the same. -/
structure KeepsConfig (state : CcdState) (env : Env) (factoryBoot : Bool) (stored : Bytes) :
    Prop where
  unchanged : RightFormat stored →
    Config.codec.encode ((State.start state).loadConfig b env factoryBoot (some stored)).config =
      stored
  defaults : ¬ RightFormat stored →
    ((State.start state).loadConfig b env factoryBoot (some stored)).config =
      Config.defaults (storedTestLab stored)
  again : ∀ state' env' factoryBoot',
    ((State.start state').loadConfig b env' factoryBoot' (some (State.storedNext stored
        ((State.start state).loadConfig b env factoryBoot (some stored))))).config =
      ((State.start state).loadConfig b env factoryBoot (some stored)).config

variable {b : Build} {env : Env} {s : State} {state : CcdState} {factoryBoot : Bool}
  {stored : Bytes}

theorem saveConfig_config (env : Env) (s : State) : (s.saveConfig env).2.config = s.config := by
  unfold State.saveConfig
  split_ifs <;> rfl

theorem saveConfig_flash (env : Env) (s : State) :
    (s.saveConfig env).2.flash = some s.config ∨ (s.saveConfig env).2.flash = s.flash := by
  unfold State.saveConfig
  split_ifs
  · exact Or.inr rfl
  · exact Or.inl rfl
  · exact Or.inr rfl

/-- Until the configuration is loaded there is no old test lab flag to restore. -/
theorem resetConfig_unloaded (h : s.ccdConfigLoaded = false) (testLab : Bool) :
    s.resetConfig b env ⟨testLab, false, false⟩ =
      { s with config := Config.defaults false }.saveConfig env := by
  have hlab : s.getFlag flagTestLab = false := by
    rw [State.getFlag, h, Bool.false_and, Bool.false_and]
  have hset : ({ Config.zero with version := ccdConfigVersion } : Config).rawSetFlag flagTestLab
      false = Config.defaults false := by
    decide
  cases testLab with
  | true => rfl
  | false =>
      rw [← hset, State.resetConfig, hlab]
      rfl

/-- A value of the right size is all that there is after it is copied. -/
theorem writeAt_zero {buf data : Bytes} (h : data.length = buf.length) :
    writeAt buf 0 data = data := by
  simp [writeAt, ← h]

theorem version_decode (bs : Bytes) : (Config.codec.decode bs).version = bs.headD 0 := by
  show UInt8.ofNat (decodeLE 1 bs) = _
  simp [decodeLE]

/-- The test for a reset. -/
theorem format_iff (c : Config) (stored : Bytes) :
    ((Config.codec.decode (writeAt (Config.codec.encode c) 0 stored)).version ≠ ccdConfigVersion ∨
        stored.length ≠ Config.codec.size) ↔ ¬ RightFormat stored := by
  by_cases hlen : stored.length = Config.codec.size
  · have hcopy : writeAt (Config.codec.encode c) 0 stored = stored :=
      writeAt_zero (by rw [hlen, Codec.length_encode])
    rw [hcopy, version_decode, RightFormat]
    cases stored with
    | nil => cases hlen
    | cons v rest =>
        rw [List.headD_cons, List.getElem?_cons_zero, Option.some_inj]
        simp only [hlen, ne_eq, not_true_eq_false, or_false, and_true]
  · simp [RightFormat, hlen]

/-- The state with the bytes of the variable copied to the structure. -/
def State.copied (state : CcdState) (stored : Bytes) : State :=
  { State.start state with
    config := Config.codec.decode (writeAt (Config.codec.encode Config.zero) 0 stored) }

theorem loadConfig_some (b : Build) (env : Env) (state : CcdState) (factoryBoot : Bool)
    (stored : Bytes) :
    (State.start state).loadConfig b env factoryBoot (some stored) =
      { (if RightFormat stored then State.copied state stored
          else ((State.copied state stored).resetConfig b env ⟨stored.length < 2, false, false⟩).2)
        with ccdConfigLoaded := true } := by
  simp only [State.loadConfig, State.start, format_iff, Bool.false_eq_true, if_false, ite_not]
  rfl

/-- A value of the right format is loaded. -/
theorem loadConfig_right (h : RightFormat stored) :
    (State.start state).loadConfig b env factoryBoot (some stored) =
      { State.start state with config := Config.codec.decode stored, ccdConfigLoaded := true } := by
  rw [loadConfig_some, if_pos h, State.copied, writeAt_zero (by rw [h.2, Codec.length_encode])]

/-- Any other value is replaced by the defaults. -/
theorem loadConfig_wrong (h : ¬ RightFormat stored) :
    (State.start state).loadConfig b env factoryBoot (some stored) =
      { ({ State.start state with config := Config.defaults false }.saveConfig env).2 with
        ccdConfigLoaded := true } := by
  rw [loadConfig_some, if_neg h, resetConfig_unloaded rfl]
  rfl

theorem config_wrong (h : ¬ RightFormat stored) :
    ((State.start state).loadConfig b env factoryBoot (some stored)).config =
      Config.defaults false := by
  rw [loadConfig_wrong h]
  exact saveConfig_config env _

/-- What is stored then are the defaults, or the old value again. -/
theorem storedNext_wrong (b : Build) (env : Env) (state : CcdState) (factoryBoot : Bool)
    (h : ¬ RightFormat stored) :
    State.storedNext stored ((State.start state).loadConfig b env factoryBoot (some stored)) =
        Config.codec.encode (Config.defaults false) ∨
      State.storedNext stored ((State.start state).loadConfig b env factoryBoot (some stored)) =
        stored := by
  rw [loadConfig_wrong h, State.storedNext]
  rcases saveConfig_flash env { State.start state with config := Config.defaults false } with
    hsaved | hold
  · exact Or.inl (by rw [hsaved, Option.elim_some])
  · exact Or.inr (by rw [hold]; rfl)

theorem rightFormat_defaults (testLab : Bool) :
    RightFormat (Config.codec.encode (Config.defaults testLab)) := by
  cases testLab <;> decide

/-- **What loading keeps.**  `ccd_load_config` keeps what it promises to, except for a test lab flag
that is set in a value of another format. -/
theorem keepsConfig_iff (b : Build) (state : CcdState) (env : Env) (factoryBoot : Bool)
    (stored : Bytes) :
    KeepsConfig b state env factoryBoot stored ↔
      RightFormat stored ∨ storedTestLab stored = false := by
  by_cases h : RightFormat stored
  · refine iff_of_true
      ⟨fun _ => ?_, fun hwrong => absurd h hwrong, fun state' env' factoryBoot' => ?_⟩ (Or.inl h)
    · rw [loadConfig_right h, Codec.encode_decode, ← h.2, readBytes_eq_take (le_refl _),
        List.take_length]
    · have hkept : State.storedNext stored
          ((State.start state).loadConfig b env factoryBoot (some stored)) = stored := by
        rw [loadConfig_right h]
        rfl
      rw [hkept, loadConfig_right h, loadConfig_right h]
  · constructor
    · intro hkeeps
      right
      have hsame := hkeeps.defaults h
      rw [config_wrong h] at hsame
      revert hsame
      cases storedTestLab stored <;> decide
    · rintro (hright | hlab)
      · exact absurd hright h
      · refine ⟨fun hright => absurd hright h, fun _ => ?_, fun state' env' factoryBoot' => ?_⟩
        · rw [hlab, config_wrong h]
        · rw [config_wrong h]
          rcases storedNext_wrong b env state factoryBoot h with hsaved | hold
          · rw [hsaved, loadConfig_right (rightFormat_defaults false)]
            exact Config.codec.decode_encode_self _
          · rw [hold, config_wrong h]

/-- A value of an older version with the test lab flag set: the flag is lost. -/
theorem not_keepsConfig_oldVersion :
    ¬ KeepsConfig ⟨false, false, .strict, fun _ _ => 0⟩ .locked
        ⟨0, 0, true, false, true, ecSuccess, ecSuccess, ecSuccess⟩ false
        [0x0f, 0x01, 0, 0, 0, 0, 0, 0] := by
  intro hkeeps
  have hsame := hkeeps.defaults (by decide)
  revert hsame
  rw [config_wrong (by decide)]
  decide

end Ccd
end CrosEc
