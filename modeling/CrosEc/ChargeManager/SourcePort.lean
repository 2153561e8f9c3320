import CrosEc.Common
import CrosEc.Lib.Bits

/-!
# `common/charge_manager.c`: the source ports

With `CONFIG_USB_PD_MAX_SINGLE_SOURCE_CURRENT` a board can source more current on one of its
ports than on the others.  `charge_manager_source_port` records which ports are sources and
then walks over all ports to hand out the pull-up values.  The test for a port reads the
values of the other ports, which the walk has updated in part only.

What carries the walk is `Sharing`: at most one source holds the maximum, and as soon as the
walk has passed a source, one does.
-/

namespace CrosEc
namespace ChargeManager

/-- The configuration of the source ports.  A `BUILD_ASSERT` gives each port its bit in the
bitmap. -/
structure SourcePorts (w : Nat) where
  usbPdPortCount : Nat
  bitmap_fits : usbPdPortCount ≤ w
  /-- `CONFIG_USB_PD_MAX_SINGLE_SOURCE_CURRENT` -/
  maxSingleSourceCurrent : UInt8
  /-- `CONFIG_USB_PD_PULLUP` -/
  pullup : UInt8
  /-- `CONFIG_USB_PD_MAX_TOTAL_SOURCE_CURRENT` is defined. -/
  hasMaxTotalSourceCurrent : Bool

namespace SourcePorts

variable {w : Nat}

abbrev Port (cfg : SourcePorts w) := Fin cfg.usbPdPortCount

/-- `source_port_bitmap` and `source_port_rp`. -/
structure State (cfg : SourcePorts w) where
  sourcePortBitmap : BitVec w
  sourcePortRp : cfg.Port → UInt8

/-- The two tables of power data objects. -/
inductive SrcPdo where
  | pdSrcPdoMax
  | pdSrcPdo
  deriving DecidableEq

variable {cfg : SourcePorts w}

/-- `has_other_active_source` -/
def hasOtherActiveSource (s : State cfg) (port : cfg.Port) : Bool :=
  s.sourcePortBitmap &&& ~~~(1#w <<< port.val) ≠ 0

/-- `is_active_source` -/
def isActiveSource (s : State cfg) (port : cfg.Port) : Bool :=
  s.sourcePortBitmap &&& (1#w <<< port.val) ≠ 0

/-- `can_supply_max_current` -/
def canSupplyMaxCurrent (s : State cfg) (port : cfg.Port) : Bool :=
  if cfg.hasMaxTotalSourceCurrent then
    -- another port will get the maximum
    if !isActiveSource s port && hasOtherActiveSource s port then false
    else
      (List.finRange cfg.usbPdPortCount).all fun p =>
        p = port || !(isActiveSource s p && s.sourcePortRp p = cfg.maxSingleSourceCurrent)
  else !hasOtherActiveSource s port

/-- One round of the loop in `charge_manager_source_port`.  The value also goes to the type-C
controller of the port and to its power contract, which are not part of the state. -/
def setPortLimit (s : State cfg) (p : cfg.Port) : State cfg :=
  let rp := if canSupplyMaxCurrent s p then cfg.maxSingleSourceCurrent else cfg.pullup
  { s with sourcePortRp := Function.update s.sourcePortRp p rp }

/-- The bitmap `charge_manager_source_port` computes. -/
def newBitmap (s : State cfg) (port : cfg.Port) (enable : Bool) : BitVec w :=
  if enable then s.sourcePortBitmap ||| (1#w <<< port.val)
  else s.sourcePortBitmap &&& ~~~(1#w <<< port.val)

/-- `charge_manager_source_port` -/
def sourcePort (s : State cfg) (port : cfg.Port) (enable : Bool) : State cfg :=
  -- no change, exit early
  if s.sourcePortBitmap = newBitmap s port enable then s
  else
    (List.finRange cfg.usbPdPortCount).foldl setPortLimit
      { s with sourcePortBitmap := newBitmap s port enable }

/-- `charge_manager_get_source_pdo` -/
def getSourcePdo (s : State cfg) (port : cfg.Port) : SrcPdo :=
  if canSupplyMaxCurrent s port then .pdSrcPdoMax else .pdSrcPdo

/-- A sequence of calls of `charge_manager_source_port`. -/
def run (s : State cfg) (calls : List (cfg.Port × Bool)) : State cfg :=
  calls.foldl (fun s c => sourcePort s c.1 c.2) s

/-! ## The bitmap -/

theorem isActiveSource_iff {s : State cfg} {p : cfg.Port} :
    isActiveSource s p ↔ s.sourcePortBitmap.getLsbD p := by
  have hp : p.val < w := lt_of_lt_of_le p.isLt cfg.bitmap_fits
  rw [isActiveSource, decide_eq_true_eq]
  exact Lib.and_bit_ne_zero_iff _ hp

/-- A source other than `port` shows in the bitmap. -/
theorem hasOtherActiveSource_of_active {s : State cfg} {p q : cfg.Port} (hne : q ≠ p)
    (hq : isActiveSource s q) : hasOtherActiveSource s p := by
  have hqw : q.val < w := lt_of_lt_of_le q.isLt cfg.bitmap_fits
  have hpq : p.val ≠ q.val := fun h => hne (Fin.ext h.symm)
  rw [hasOtherActiveSource, decide_eq_true_eq]
  intro hzero
  -- the bit of `q` survives the mask
  have hbit := congrArg (·.getLsbD q.val) hzero
  rw [← BitVec.twoPow_eq] at hbit
  simp [isActiveSource_iff.1 hq, hqw] at hbit
  exact hpq hbit.symm

theorem no_source_of_bitmap_zero {s : State cfg} (h : s.sourcePortBitmap = 0) (p : cfg.Port) :
    ¬ isActiveSource s p := by
  simp [isActiveSource_iff, h]

/-! ## The test -/

/-- The port is a source and holds the maximum. -/
def HoldsMax (s : State cfg) (p : cfg.Port) : Prop :=
  isActiveSource s p ∧ s.sourcePortRp p = cfg.maxSingleSourceCurrent

/-- With a source somewhere, a port can supply the maximum exactly when it is a source itself
and no other source holds the maximum. -/
theorem canSupplyMaxCurrent_iff (hcfg : cfg.hasMaxTotalSourceCurrent = true) {s : State cfg}
    (hsome : ∃ q, isActiveSource s q) (p : cfg.Port) :
    canSupplyMaxCurrent s p ↔ isActiveSource s p ∧ ∀ q, q ≠ p → ¬ HoldsMax s q := by
  obtain ⟨q, hq⟩ := hsome
  by_cases hp : isActiveSource s p
  · simp only [canSupplyMaxCurrent, hcfg, hp, if_true, Bool.not_true, Bool.false_and,
      Bool.false_eq_true, if_false, List.all_eq_true, List.mem_finRange, true_implies, true_and]
    refine forall_congr' fun r => ?_
    simp only [HoldsMax, Bool.or_eq_true, decide_eq_true_eq, Bool.not_eq_true',
      Bool.and_eq_false_iff, decide_eq_false_iff_not, ne_eq]
    by_cases hr : r = p <;> simp [hr, imp_iff_not_or]
  · -- the first test turns the port away
    have hother : hasOtherActiveSource s p :=
      hasOtherActiveSource_of_active (fun h => hp (h ▸ hq)) hq
    simp [canSupplyMaxCurrent, hcfg, hp, hother]

/-! ## The walk -/

@[simp]
theorem isActiveSource_setPortLimit (s : State cfg) (p q : cfg.Port) :
    isActiveSource (setPortLimit s p) q = isActiveSource s q := rfl

/-- The walk leaves the bitmap alone. -/
theorem isActiveSource_foldl (ports : List cfg.Port) (s : State cfg) (q : cfg.Port) :
    isActiveSource (ports.foldl setPortLimit s) q = isActiveSource s q := by
  induction ports generalizing s with
  | nil => rfl
  | cons r ports ih => exact ih (setPortLimit s r)

theorem setPortLimit_rp_self (s : State cfg) (p : cfg.Port) :
    (setPortLimit s p).sourcePortRp p =
      if canSupplyMaxCurrent s p then cfg.maxSingleSourceCurrent else cfg.pullup := by
  simp [setPortLimit]

theorem setPortLimit_rp_of_ne (s : State cfg) {p q : cfg.Port} (h : q ≠ p) :
    (setPortLimit s p).sourcePortRp q = s.sourcePortRp q := by
  simp [setPortLimit, h]

theorem holdsMax_setPortLimit_of_ne (s : State cfg) {p q : cfg.Port} (h : q ≠ p) :
    HoldsMax (setPortLimit s p) q ↔ HoldsMax s q := by
  simp [HoldsMax, setPortLimit_rp_of_ne s h]

/-- At most one source holds the maximum. -/
def OneHolder (s : State cfg) : Prop :=
  ∀ p q, HoldsMax s p → HoldsMax s q → p = q

/-- **The invariant of the walk**, when it has passed the ports `done`. -/
structure Sharing (done : List cfg.Port) (s : State cfg) : Prop where
  some_source : ∃ q, isActiveSource s q
  one_holder : OneHolder s
  passed_inactive : ∀ p ∈ done, ¬ isActiveSource s p → s.sourcePortRp p = cfg.pullup
  passed_either : ∀ p ∈ done,
    s.sourcePortRp p = cfg.maxSingleSourceCurrent ∨ s.sourcePortRp p = cfg.pullup
  holder_exists : (∃ p ∈ done, isActiveSource s p) → ∃ q, HoldsMax s q

section Walk

variable (hcfg : cfg.hasMaxTotalSourceCurrent = true)
variable (hne : cfg.maxSingleSourceCurrent ≠ cfg.pullup)

include hcfg hne

/-- A source that is passed gets the maximum exactly when no other source has it. -/
theorem holdsMax_setPortLimit_self {s : State cfg} (hsome : ∃ q, isActiveSource s q)
    (p : cfg.Port) :
    HoldsMax (setPortLimit s p) p ↔ isActiveSource s p ∧ ∀ q, q ≠ p → ¬ HoldsMax s q := by
  rw [HoldsMax, isActiveSource_setPortLimit, setPortLimit_rp_self]
  have hcan := canSupplyMaxCurrent_iff hcfg hsome p
  by_cases h : canSupplyMaxCurrent s p
  · rw [if_pos h]
    exact ⟨fun _ => hcan.1 h, fun hall => ⟨hall.1, rfl⟩⟩
  · simp only [h, Bool.false_eq_true, if_false, hne.symm, and_false, false_iff]
    exact fun hall => h (hcan.2 hall)

/-- **Step lemma.** One round of the walk passes one more port. -/
theorem Sharing.setPortLimit {done : List cfg.Port} {s : State cfg} (h : Sharing done s)
    (p : cfg.Port) : Sharing (done ++ [p]) (setPortLimit s p) := by
  have hself := holdsMax_setPortLimit_self hcfg hne h.some_source p
  refine ⟨h.some_source, ?_, ?_, ?_, ?_⟩
  · intro a b ha hb
    by_cases hap : a = p <;> by_cases hbp : b = p
    · exact hap.trans hbp.symm
    · -- `p` holds the maximum, so no other source held it before
      subst hap
      exact absurd ((holdsMax_setPortLimit_of_ne s hbp).1 hb) ((hself.1 ha).2 b hbp)
    · subst hbp
      exact absurd ((holdsMax_setPortLimit_of_ne s hap).1 ha) ((hself.1 hb).2 a hap)
    · exact h.one_holder a b ((holdsMax_setPortLimit_of_ne s hap).1 ha)
        ((holdsMax_setPortLimit_of_ne s hbp).1 hb)
  · intro a ha hact
    by_cases hap : a = p
    · subst hap
      have hno : ¬ canSupplyMaxCurrent s a := fun hc =>
        hact ((canSupplyMaxCurrent_iff hcfg h.some_source a).1 hc).1
      simp [setPortLimit_rp_self, hno]
    · rw [setPortLimit_rp_of_ne s hap]
      exact h.passed_inactive a (by simpa [hap] using ha) hact
  · intro a ha
    by_cases hap : a = p
    · subst hap
      rw [setPortLimit_rp_self]
      split <;> simp
    · rw [setPortLimit_rp_of_ne s hap]
      exact h.passed_either a (by simpa [hap] using ha)
  · rintro ⟨a, ha, hact⟩
    -- a holder other than `p` stays; without one `p` itself takes the maximum
    by_cases hother : ∃ q, q ≠ p ∧ HoldsMax s q
    · obtain ⟨q, hq, hmax⟩ := hother
      exact ⟨q, (holdsMax_setPortLimit_of_ne s hq).2 hmax⟩
    · have hfree : ∀ q, q ≠ p → ¬ HoldsMax s q := fun q hq hm => hother ⟨q, hq, hm⟩
      by_cases hp : isActiveSource s p
      · exact ⟨p, hself.2 ⟨hp, hfree⟩⟩
      · have hap : a ≠ p := fun e => hp (e ▸ hact)
        obtain ⟨q, hq⟩ := h.holder_exists ⟨a, by simpa [hap] using ha, hact⟩
        exact absurd hq.1 (by
          have : q = p := by_contra fun hqp => hfree q hqp hq
          exact this ▸ hp)

/-- **Step lemma.** A source that holds the maximum keeps it. -/
theorem holdsMax_setPortLimit {s : State cfg} (hone : OneHolder s) {p : cfg.Port}
    (h : HoldsMax s p) (r : cfg.Port) : HoldsMax (setPortLimit s r) p := by
  by_cases hpr : p = r
  · subst hpr
    refine (holdsMax_setPortLimit_self hcfg hne ⟨p, h.1⟩ p).2 ⟨h.1, ?_⟩
    exact fun q hq hmax => hq (hone q p hmax h)
  · exact (holdsMax_setPortLimit_of_ne s hpr).2 h

/-- **Run lemma.** The walk over a list of ports. -/
theorem Sharing.foldl {s : State cfg} (ports : List cfg.Port) :
    ∀ {done : List cfg.Port}, Sharing done s →
      Sharing (done ++ ports) (ports.foldl SourcePorts.setPortLimit s) ∧
      ∀ p, HoldsMax s p → HoldsMax (ports.foldl SourcePorts.setPortLimit s) p := by
  induction ports generalizing s with
  | nil =>
      intro done h
      simpa using h
  | cons r ports ih =>
      intro done h
      obtain ⟨hshare, hkeep⟩ := ih (h.setPortLimit hcfg hne r)
      refine ⟨by simpa using hshare, fun p hp => ?_⟩
      exact hkeep p (holdsMax_setPortLimit hcfg hne h.one_holder hp r)

end Walk

/-! ## A call -/

theorem isActiveSource_newBitmap (s : State cfg) (port : cfg.Port) (enable : Bool) (q : cfg.Port) :
    isActiveSource { s with sourcePortBitmap := newBitmap s port enable } q =
      if q = port then enable else isActiveSource s q := by
  have hq : q.val < w := lt_of_lt_of_le q.isLt cfg.bitmap_fits
  rw [Bool.eq_iff_iff, isActiveSource_iff]
  show (newBitmap s port enable).getLsbD q = true ↔ _
  rw [newBitmap, ← BitVec.twoPow_eq]
  by_cases hqp : q = port
  · subst hqp
    cases enable <;> simp [hq]
  · have hval : port.val ≠ q.val := fun h => hqp (Fin.ext h.symm)
    cases enable <;> simp [hqp, hq, Ne.symm hval, isActiveSource_iff]

/-- What holds after every call: once there is a source, one source has the maximum and every
other port the default. -/
def Granted (s : State cfg) : Prop :=
  (∃ q, isActiveSource s q) →
    ∃ p, HoldsMax s p ∧ ∀ q, q ≠ p → s.sourcePortRp q = cfg.pullup

section Calls

variable (hcfg : cfg.hasMaxTotalSourceCurrent = true)
variable (hne : cfg.maxSingleSourceCurrent ≠ cfg.pullup)

include hne in
/-- Changing one bit does not make two holders: an inactive port has the maximum only when no
port is a source. -/
theorem Granted.oneHolder_newBitmap {s : State cfg} (h : Granted s) (port : cfg.Port)
    (enable : Bool) : OneHolder { s with sourcePortBitmap := newBitmap s port enable } := by
  intro a b ha hb
  by_cases hsome : ∃ q, isActiveSource s q
  · obtain ⟨p, -, hrest⟩ := h hsome
    have hunique : ∀ c, s.sourcePortRp c = cfg.maxSingleSourceCurrent → c = p := fun c hc =>
      by_contra fun hcp => hne (hc.symm.trans (hrest c hcp))
    exact (hunique a ha.2).trans (hunique b hb.2).symm
  · have honly : ∀ c, HoldsMax { s with sourcePortBitmap := newBitmap s port enable } c →
        c = port := by
      intro c hc
      by_contra hcp
      have hact := hc.1
      rw [isActiveSource_newBitmap, if_neg hcp] at hact
      exact hsome ⟨c, hact⟩
    exact (honly a ha).trans (honly b hb).symm

include hcfg hne

/-- **Step lemma.** A call of `charge_manager_source_port` leaves the maximum granted to one
source. -/
theorem Granted.sourcePort {s : State cfg} (h : Granted s) (port : cfg.Port) (enable : Bool) :
    Granted (sourcePort s port enable) := by
  rw [SourcePorts.sourcePort]
  split
  · exact h
  · intro hsome
    set s1 : State cfg := { s with sourcePortBitmap := newBitmap s port enable } with hs1
    obtain ⟨q, hq⟩ := hsome
    have hq1 : isActiveSource s1 q := (isActiveSource_foldl _ s1 q).symm.trans hq
    have hstart : Sharing [] s1 :=
      ⟨⟨q, hq1⟩, h.oneHolder_newBitmap hne port enable, by simp, by simp, by simp⟩
    obtain ⟨hend, -⟩ := Sharing.foldl hcfg hne (List.finRange cfg.usbPdPortCount) hstart
    obtain ⟨p, hp⟩ := hend.holder_exists ⟨q, by simp, hq⟩
    refine ⟨p, hp, fun r hr => ?_⟩
    -- a source other than `p` cannot hold the maximum, an inactive port was passed
    by_cases hra : isActiveSource
        ((List.finRange cfg.usbPdPortCount).foldl SourcePorts.setPortLimit s1) r
    · rcases hend.passed_either r (by simp) with hmax | hdef
      · exact absurd (hend.one_holder r p ⟨hra, hmax⟩ hp) hr
      · exact hdef
    · exact hend.passed_inactive r (by simp) hra

/-- **Step lemma.** A source keeps the maximum in every call that does not disable it. -/
theorem Granted.holdsMax_sourcePort {s : State cfg} (h : Granted s) {p : cfg.Port}
    (hp : HoldsMax s p) {port : cfg.Port} {enable : Bool} (hcall : (port, enable) ≠ (p, false)) :
    HoldsMax (SourcePorts.sourcePort s port enable) p := by
  rw [SourcePorts.sourcePort]
  split
  · exact hp
  · set s1 : State cfg := { s with sourcePortBitmap := newBitmap s port enable } with hs1
    have hact : isActiveSource s1 p := by
      rw [hs1, isActiveSource_newBitmap]
      split
      next heq =>
        subst heq
        cases enable
        · exact absurd rfl hcall
        · rfl
      next => exact hp.1
    have hstart : Sharing [] s1 :=
      ⟨⟨p, hact⟩, h.oneHolder_newBitmap hne port enable, by simp, by simp, by simp⟩
    exact (Sharing.foldl hcfg hne (List.finRange cfg.usbPdPortCount) hstart).2 p ⟨hact, hp.2⟩

/-- **Run lemma.** -/
theorem Granted.afterRun {s : State cfg} (h : Granted s) (calls : List (cfg.Port × Bool)) :
    Granted (run s calls) := by
  induction calls generalizing s with
  | nil => exact h
  | cons c calls ih => exact ih (h.sourcePort hcfg hne c.1 c.2)

/-- **Run lemma.** -/
theorem Granted.holdsMax_run {s : State cfg} (h : Granted s) {p : cfg.Port} (hp : HoldsMax s p)
    {calls : List (cfg.Port × Bool)} (hcalls : (p, false) ∉ calls) :
    HoldsMax (SourcePorts.run s calls) p := by
  induction calls generalizing s with
  | nil => exact hp
  | cons c calls ih =>
      rw [List.mem_cons, not_or] at hcalls
      exact ih (h.sourcePort hcfg hne c.1 c.2)
        (h.holdsMax_sourcePort hcfg hne hp (Ne.symm hcalls.1)) hcalls.2

/-- The list of power data objects follows the pull-up value. -/
theorem Granted.getSourcePdo_iff {s : State cfg} (h : Granted s) {p : cfg.Port}
    (hp : isActiveSource s p) :
    getSourcePdo s p = .pdSrcPdoMax ↔ s.sourcePortRp p = cfg.maxSingleSourceCurrent := by
  have hpdo : getSourcePdo s p = .pdSrcPdoMax ↔ canSupplyMaxCurrent s p := by
    rw [getSourcePdo]
    split <;> simp_all
  obtain ⟨r, hr, hrest⟩ := h ⟨p, hp⟩
  rw [hpdo, canSupplyMaxCurrent_iff hcfg ⟨p, hp⟩ p]
  constructor
  · rintro ⟨-, hfree⟩
    have hrp : r = p := by_contra fun hrp => hfree r hrp hr
    exact hrp ▸ hr.2
  · intro hmax
    have hpr : p = r := by_contra fun hpr => hne (hmax.symm.trans (hrest p hpr))
    refine ⟨hp, fun q hq hqmax => hne ?_⟩
    exact hqmax.2.symm.trans (hrest q (hpr ▸ hq))

end Calls

/-- **One source is granted the maximum.**  From a state with no source and any stale pull-up
values, after every sequence of calls: as soon as there is a source, one source has the maximum
and every other port the default; it keeps the maximum until a call disables it; and the power
data objects of a source are those of the maximum exactly when its pull-up is. -/
theorem sourcePort_grants_one (hcfg : cfg.hasMaxTotalSourceCurrent = true)
    (hne : cfg.maxSingleSourceCurrent ≠ cfg.pullup) (start : State cfg)
    (hstart : start.sourcePortBitmap = 0) (calls : List (cfg.Port × Bool)) :
    let s := run start calls
    ((∃ q, isActiveSource s q) →
      ∃ p, isActiveSource s p ∧ s.sourcePortRp p = cfg.maxSingleSourceCurrent ∧
        ∀ q, q ≠ p → s.sourcePortRp q = cfg.pullup) ∧
    (∀ p, isActiveSource s p → s.sourcePortRp p = cfg.maxSingleSourceCurrent →
      ∀ more : List (cfg.Port × Bool), (p, false) ∉ more →
        isActiveSource (run s more) p ∧
          (run s more).sourcePortRp p = cfg.maxSingleSourceCurrent) ∧
    (∀ p, isActiveSource s p →
      (getSourcePdo s p = .pdSrcPdoMax ↔ s.sourcePortRp p = cfg.maxSingleSourceCurrent)) := by
  intro s
  have hinit : Granted start := fun ⟨q, hq⟩ => absurd hq (no_source_of_bitmap_zero hstart q)
  have hs : Granted s := hinit.afterRun hcfg hne calls
  refine ⟨fun hsome => ?_, fun p hp hmax more hmore => ?_, fun p hp => ?_⟩
  · obtain ⟨p, hp, hrest⟩ := hs hsome
    exact ⟨p, hp.1, hp.2, hrest⟩
  · exact hs.holdsMax_run hcfg hne ⟨hp, hmax⟩ hmore
  · exact hs.getSourcePdo_iff hcfg hne hp

/-- Two ports: the maximum is 3 A, the default 1.5 A. -/
def twoSourcePorts : SourcePorts 32 where
  usbPdPortCount := 2
  bitmap_fits := by decide
  maxSingleSourceCurrent := 2
  pullup := 1
  hasMaxTotalSourceCurrent := true

/-- Both ports become sources and port 0 is disabled again: port 1 takes over the maximum. -/
theorem sourcePort_grants_one_two_ports :
    let start : State twoSourcePorts := ⟨0, fun _ => 2⟩
    let s := run start [((0 : Fin 2), true), ((1 : Fin 2), true), ((0 : Fin 2), false)]
    isActiveSource s (1 : Fin 2) = true ∧
      ∃ p, isActiveSource s p ∧ s.sourcePortRp p = twoSourcePorts.maxSingleSourceCurrent ∧
        ∀ q, q ≠ p → s.sourcePortRp q = twoSourcePorts.pullup := by
  intro start s
  have hact : isActiveSource s (1 : Fin 2) = true := by decide
  exact ⟨hact, (sourcePort_grants_one rfl (by decide) start rfl
    [((0 : Fin 2), true), ((1 : Fin 2), true), ((0 : Fin 2), false)]).1 ⟨_, hact⟩⟩

end SourcePorts
end ChargeManager
end CrosEc
