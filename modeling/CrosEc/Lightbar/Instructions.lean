import CrosEc.Lightbar.Access

/-!
# The instructions

What every opcode of the dispatch table comes to: the accesses that it makes, and when it returns
a value to `sequence_PROGRAM`.
-/

namespace CrosEc
namespace Lightbar

open Machine

/-- The outcome of an instruction that starts in `m`.  Its accesses are inside if and only if
`fits`; it returns an error if it is `malformed`, and `PROGRAM_FINISHED` if it `halts`. -/
def Machine.Exec.Spec (m : Machine) (fits malformed halts : Prop) : Exec → Prop
  | .success m' => Logs fits m m' ∧ ¬ malformed ∧ ¬ halts
  | .code rc m' => Logs fits m m' ∧
      (malformed ∧ ¬ halts ∧ rc = ecResInvalidParam ∨ halts ∧ ¬ malformed ∧ rc = programFinished)
  | .enters mode m' => Logs fits m m' ∧ ¬ malformed ∧ ¬ halts ∧
      ∀ rc msg, mode ≠ .returned rc msg

namespace Machine

variable {m m' : Machine}

/-- The packed location that comes next. -/
def nextByte (m : Machine) : BitVec 8 := m.curProg.data m.pc.toNat

/-- The colour of `SET_COLOR_SINGLE` is one, for an LED that is selected. -/
def ColorFits (m : Machine) : Prop :=
  ¬ m.OperandsMissing 2 → packedControl m.nextByte < lbContMax →
    ∀ i < numLeds, (packedLed m.nextByte).getLsbD i = true → packedColor m.nextByte < lbColAll

/-- The accesses of an instruction are inside, after its opcode has been fetched. -/
def OpFits (m : Machine) : Nat → Prop
  | 2 => m.OperandsFit 1
  | 3 => m.OperandsFit 2
  | 4 => m.OperandsFit 1
  | 5 => m.WordFits
  | 6 => m.WordFits
  | 8 => m.OperandsFit 1
  | 9 => m.OperandsFit 2 ∧ m.ColorFits
  | 10 => m.OperandsFit 4
  | _ => True

/-- An instruction that ends the program with an error: the program ends before its operands do,
there is no such control, or it would cycle without a delay. -/
def Malformed (m : Machine) : Nat → Prop
  | 2 => m.OperandsMissing 1
  | 3 => m.OperandsMissing 2
  | 4 => m.OperandsMissing 1
  | 5 => m.OperandsMissing 4
  | 6 => m.OperandsMissing 4
  | 8 => m.OperandsMissing 1
  | 9 => m.OperandsMissing 2 ∨ lbContMax ≤ packedControl m.nextByte
  | 10 => m.OperandsMissing 4 ∨ lbContMax ≤ packedControl m.nextByte
  | 15 => m.lbRampDelay = 0
  | _ => False

/-! ## Instructions with operands -/

theorem Exec.spec_success {fits malformed : Prop} (h : Logs fits m m') (hok : ¬ malformed) :
    Exec.Spec m fits malformed False (.success m') := ⟨h, hok, not_false⟩

theorem Exec.spec_malformed {fits malformed : Prop} (h : Logs fits m m') (hbad : malformed) :
    Exec.Spec m fits malformed False (.code ecResInvalidParam m') :=
  ⟨h, Or.inl ⟨hbad, not_false, rfl⟩⟩

/-- An instruction with one operand that only stores it somewhere. -/
theorem spec_of_decode8 (m : Machine) {set : BitVec 8 → Machine → Machine}
    (hset : ∀ byte m', Logs True m' (set byte m')) :
    Exec.Spec m (m.OperandsFit 1) (m.OperandsMissing 1) False
      (match m.decode8 with
      | (some byte, m) => .success (set byte m)
      | (none, m) => .code ecResInvalidParam m) := by
  obtain ⟨r, m', hr, hlogs, hnone, -⟩ := m.decode8_spec
  rw [hr]
  cases r with
  | none => exact Exec.spec_malformed hlogs (hnone.mp rfl)
  | some byte =>
      have hthere : ¬ m.OperandsMissing 1 := fun h => by cases hnone.mpr h
      exact Exec.spec_success (hlogs.then_quiet (hset byte m')) hthere

/-- The same for a word. -/
theorem spec_of_decode32 (m : Machine) {set : BitVec 32 → Machine → Machine}
    (hset : ∀ word m', Logs True m' (set word m')) :
    Exec.Spec m m.WordFits (m.OperandsMissing 4) False
      (match m.decode32 with
      | (some word, m) => .success (set word m)
      | (none, m) => .code ecResInvalidParam m) := by
  obtain ⟨r, m', hr, hlogs, hnone⟩ := m.decode32_spec
  rw [hr]
  cases r with
  | none => exact Exec.spec_malformed hlogs (hnone.mp rfl)
  | some word =>
      have hthere : ¬ m.OperandsMissing 4 := fun h => by cases hnone.mpr h
      exact Exec.spec_success (hlogs.then_quiet (hset word m')) hthere

theorem lightbyteJump_spec (m : Machine) :
    Exec.Spec m (m.OperandsFit 1) (m.OperandsMissing 1) False m.lightbyteJump :=
  m.spec_of_decode8 fun _ _ => Logs.of_eq rfl rfl rfl

theorem lightbyteJumpIfCharging_spec (m : Machine) :
    Exec.Spec m (m.OperandsFit 1) (m.OperandsMissing 1) False m.lightbyteJumpIfCharging := by
  apply m.spec_of_decode8
  intro chargePc m'
  split
  · exact Logs.of_eq rfl rfl rfl
  · exact Logs.refl m'

theorem lightbyteSetBrightness_spec (m : Machine) :
    Exec.Spec m (m.OperandsFit 1) (m.OperandsMissing 1) False m.lightbyteSetBrightness :=
  m.spec_of_decode8 fun _ _ => Logs.of_eq rfl rfl rfl

theorem lightbyteSetWaitDelay_spec (m : Machine) :
    Exec.Spec m m.WordFits (m.OperandsMissing 4) False m.lightbyteSetWaitDelay :=
  m.spec_of_decode32 fun _ _ => Logs.of_eq rfl rfl rfl

theorem lightbyteSetRampDelay_spec (m : Machine) :
    Exec.Spec m m.WordFits (m.OperandsMissing 4) False m.lightbyteSetRampDelay :=
  m.spec_of_decode32 fun _ _ => Logs.of_eq rfl rfl rfl

theorem getBatteryLevel_quiet (m : Machine) (battery : Option Battery) :
    Logs True m (m.getBatteryLevel battery) := by
  cases battery with
  | none => exact Logs.refl m
  | some battery =>
      obtain ⟨level, isCharging, brightness⟩ := battery
      cases brightness with
      | none => exact Logs.of_eq rfl rfl rfl
      | some brightness => exact Logs.of_eq rfl rfl rfl

theorem lightbyteJumpBattery_spec (m : Machine) (battery : Option Battery) :
    Exec.Spec m (m.OperandsFit 2) (m.OperandsMissing 2) False (m.lightbyteJumpBattery battery) := by
  obtain ⟨r, m', hr, hlogs, hnone, hbytes⟩ := decodeBytes_spec 2 m
  rw [lightbyteJumpBattery, hr]
  cases r with
  | none => exact Exec.spec_malformed hlogs (hnone.mp rfl).2
  | some bytes =>
      have hthere : ¬ m.OperandsMissing 2 := fun h => by cases hnone.mpr ⟨by decide, h⟩
      rw [hbytes bytes rfl]
      refine Exec.spec_success ((hlogs.then_quiet (m'.getBatteryLevel_quiet battery)).then_quiet ?_)
        hthere
      split
      · exact Logs.of_eq rfl rfl rfl
      · split
        · exact Logs.of_eq rfl rfl rfl
        · exact Logs.refl _

theorem lightbyteSetColorSingle_spec (m : Machine) :
    Exec.Spec m (m.OperandsFit 2 ∧ m.ColorFits)
      (m.OperandsMissing 2 ∨ lbContMax ≤ packedControl m.nextByte) False
      m.lightbyteSetColorSingle := by
  obtain ⟨r, m', hr, hlogs, hnone, hbytes⟩ := decodeBytes_spec 2 m
  rw [lightbyteSetColorSingle, hr]
  cases r with
  | none =>
      have hmissing := (hnone.mp rfl).2
      refine Exec.spec_malformed (hlogs.congr ?_) (Or.inl hmissing)
      exact (and_iff_left fun h => absurd hmissing h).symm
  | some bytes =>
      have hthere : ¬ m.OperandsMissing 2 := fun h => by cases hnone.mpr ⟨by decide, h⟩
      rw [hbytes bytes rfl]
      change Exec.Spec m _ _ False (if lbContMax ≤ packedControl m.nextByte then _ else _)
      by_cases hcontrol : lbContMax ≤ packedControl m.nextByte
      · rw [if_pos hcontrol]
        refine Exec.spec_malformed (hlogs.congr ?_) (Or.inr hcontrol)
        exact (and_iff_left fun _ h => absurd hcontrol (not_le.mpr h)).symm
      · rw [if_neg hcontrol]
        have hloop : ∀ value, Logs (∀ i < numLeds, (packedLed m.nextByte).getLsbD i = true →
            packedColor m.nextByte < lbColAll) m' (m'.forLeds fun i m₁ =>
              if (packedLed m.nextByte).getLsbD i then
                m₁.setDesc i (packedControl m.nextByte) (packedColor m.nextByte) value
              else m₁) := by
          intro value
          apply forLeds_logs
          intro i m₁ hi
          split
          · rename_i hbit
            apply (setDesc_logs _ _ _ _ _).congr
            constructor
            · exact fun h _ => h.2.2
            · exact fun h => ⟨hi, not_le.mp hcontrol, h hbit⟩
          · rename_i hbit
            exact (Logs.refl m₁).congr (iff_of_true trivial fun h => absurd h hbit)
        refine Exec.spec_success ((hlogs.trans (hloop _)).congr ?_) (not_or.mpr ⟨hthere, hcontrol⟩)
        apply and_congr_right'
        exact ⟨fun h _ _ => h, fun h => h hthere (not_le.mp hcontrol)⟩

theorem lightbyteSetColorRgb_spec (m : Machine) :
    Exec.Spec m (m.OperandsFit 4)
      (m.OperandsMissing 4 ∨ lbContMax ≤ packedControl m.nextByte) False
      m.lightbyteSetColorRgb := by
  obtain ⟨r, m', hr, hlogs, hnone, hbytes⟩ := decodeBytes_spec 4 m
  rw [lightbyteSetColorRgb, hr]
  cases r with
  | none => exact Exec.spec_malformed hlogs (Or.inl (hnone.mp rfl).2)
  | some bytes =>
      have hthere : ¬ m.OperandsMissing 4 := fun h => by cases hnone.mpr ⟨by decide, h⟩
      rw [hbytes bytes rfl]
      change Exec.Spec m _ _ False (if lbContMax ≤ packedControl m.nextByte then _ else _)
      by_cases hcontrol : lbContMax ≤ packedControl m.nextByte
      · rw [if_pos hcontrol]
        exact Exec.spec_malformed hlogs (Or.inr hcontrol)
      · rw [if_neg hcontrol]
        refine Exec.spec_success (hlogs.then_quiet (forLeds_quiet ?_ m'))
          (not_or.mpr ⟨hthere, hcontrol⟩)
        intro i m₁ hi
        split
        · exact setDescs_quiet hi (not_le.mp hcontrol) _ _ _
        · exact Logs.refl m₁

/-! ## The dispatch table -/

theorem lightbyteGetColors_spec (m : Machine) :
    Exec.Spec m True False False m.lightbyteGetColors :=
  Exec.spec_success (forLeds_quiet (fun _ _ hi => setDescs_quiet hi (by decide) _ _ _) m) not_false

theorem lightbyteSwapColors_spec (m : Machine) :
    Exec.Spec m True False False m.lightbyteSwapColors :=
  Exec.spec_success (forLeds_quiet (fun _ _ hi => ((swapColor_quiet hi (by decide)).then_quiet
    (swapColor_quiet hi (by decide))).then_quiet (swapColor_quiet hi (by decide))) m) not_false

theorem lightbyteWait_spec (m : Machine) : Exec.Spec m True False False m.lightbyteWait := by
  unfold lightbyteWait
  split
  · exact ⟨Logs.refl m, not_false, not_false, by simp⟩
  · exact Exec.spec_success (Logs.refl m) not_false

theorem lightbyteRampOnce_spec (m : Machine) :
    Exec.Spec m True False False m.lightbyteRampOnce := by
  unfold lightbyteRampOnce
  split
  · exact Exec.spec_success (setAllLeds_quiet (by decide)) not_false
  · exact ⟨Logs.refl m, not_false, not_false, by simp⟩

theorem lightbyteCycleOnce_spec (m : Machine) :
    Exec.Spec m True False False m.lightbyteCycleOnce := by
  unfold lightbyteCycleOnce
  split
  · exact Exec.spec_success (setAllLeds_quiet (by decide)) not_false
  · exact ⟨Logs.refl m, not_false, not_false, by simp⟩

theorem lightbyteCycle_spec (m : Machine) :
    Exec.Spec m True (m.lbRampDelay = 0) False m.lightbyteCycle := by
  unfold lightbyteCycle
  split
  · exact Exec.spec_malformed (Logs.refl m) ‹_›
  · exact ⟨Logs.refl m, ‹_›, not_false, by simp⟩

/-- Every instruction of the table. -/
theorem dispatch_spec (m : Machine) {opcode : Nat} (hopcode : opcode < maxOpcode)
    (battery : Option Battery) :
    (m.dispatch opcode battery).Spec m (m.OpFits opcode) (m.Malformed opcode) (opcode = 16) := by
  have hquiet : ∀ leds : Leds, Logs True m { m with leds := leds } :=
    fun _ => Logs.of_eq rfl rfl rfl
  rw [maxOpcode] at hopcode
  by_cases hhalt : opcode = 16
  · subst hhalt
    exact ⟨Logs.refl m, Or.inr ⟨rfl, not_false, rfl⟩⟩
  rw [eq_false hhalt]
  interval_cases opcode
  case «0» => exact Exec.spec_success (hquiet _) not_false
  case «1» => exact Exec.spec_success (hquiet _) not_false
  case «2» => exact m.lightbyteJump_spec
  case «3» => exact m.lightbyteJumpBattery_spec battery
  case «4» => exact m.lightbyteJumpIfCharging_spec
  case «5» => exact m.lightbyteSetWaitDelay_spec
  case «6» => exact m.lightbyteSetRampDelay_spec
  case «7» => exact m.lightbyteWait_spec
  case «8» => exact m.lightbyteSetBrightness_spec
  case «9» => exact m.lightbyteSetColorSingle_spec
  case «10» => exact m.lightbyteSetColorRgb_spec
  case «11» => exact m.lightbyteGetColors_spec
  case «12» => exact m.lightbyteSwapColors_spec
  case «13» => exact m.lightbyteRampOnce_spec
  case «14» => exact m.lightbyteCycleOnce_spec
  case «15» => exact m.lightbyteCycle_spec
  case «16» => exact absurd rfl hhalt

end Machine

end Lightbar
end CrosEc
