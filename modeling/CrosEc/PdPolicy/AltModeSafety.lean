import CrosEc.PdPolicy.AltMode
import CrosEc.Lib.Interleaving

/-!
# What the partner can do to the alternate modes

`get_mode_idx` reads every slot of `amodes`, also those that hold nothing.  Apart from that the
policy stays inside its arrays as long as the calls fit: an answer with SVIDs must not run over
the end from an odd count, an answer with modes must not come after the last SVID, and the default
mode must not be entered twice.
-/

namespace CrosEc
namespace PdPolicy

open Lib

variable {ω : Type} {env : AltModes ω} {p p' : Policy ω}

/-! ## What holds between the calls -/

/-- The counters are in their range; the slots below `amode_idx` hold modes of different SVIDs,
each with a discovered SVID of its own. -/
structure Contained (env : AltModes ω) (p : Policy ω) : Prop where
  svidCnt_le : p.svidCnt ≤ svidDiscoveryMax
  amodeIdx_le : p.amodeIdx ≤ pdAmodeCount
  entered : ∀ i < p.amodeIdx, ∃ fx j, (p.amodes i).fx = some fx ∧ (p.amodes i).data = some j ∧
    fx ∈ env.supportedModes ∧ j < p.svidCnt ∧ (p.svids j).svid = fx.svid
  empty : ∀ i, p.amodeIdx ≤ i → (p.amodes i).fx = none ∧ (p.amodes i).opos = 0
  distinct : ∀ i j fx gx, i < j → j < p.amodeIdx → (p.amodes i).fx = some fx →
    (p.amodes j).fx = some gx → fx.svid ≠ gx.svid
  opos_le : ∀ i, (p.amodes i).opos ≤ pdoModes
  modeCnt_le : ∀ j, (p.svids j).modeCnt ≤ pdoModes

/-- The only stray accesses between two policies are through null pointers to a mode, and there
are none if `quiet`. -/
def Grows (quiet : Prop) (p p' : Policy ω) : Prop :=
  ∃ l, p'.strays = l ++ p.strays ∧ (∀ f ∈ l, f = Stray.nullFx) ∧ (quiet → l = [])

/-- Nothing but the record of the stray accesses changes. -/
def Reads (quiet : Prop) (p p' : Policy ω) : Prop :=
  ∃ l, p' = { p with strays := l ++ p.strays } ∧ (∀ f ∈ l, f = Stray.nullFx) ∧ (quiet → l = [])

/-- A call that does no harm. -/
structure Keeps (env : AltModes ω) (quiet : Prop) (p p' : Policy ω) : Prop where
  contained : Contained env p'
  grows : Grows quiet p p'

namespace Grows

variable {quiet quiet' : Prop} {p₁ p₂ p₃ : Policy ω}

theorem of_eq (h : p₂.strays = p₁.strays) : Grows quiet p₁ p₂ :=
  ⟨[], h, by simp, fun _ => rfl⟩

theorem trans (h : Grows quiet p₁ p₂) (h' : Grows quiet p₂ p₃) : Grows quiet p₁ p₃ := by
  obtain ⟨l, hl, hnull, hquiet⟩ := h
  obtain ⟨l', hl', hnull', hquiet'⟩ := h'
  refine ⟨l' ++ l, by rw [hl', hl, List.append_assoc], fun f hf => ?_, fun hq => ?_⟩
  · rcases List.mem_append.mp hf with hf | hf
    · exact hnull' f hf
    · exact hnull f hf
  · rw [hquiet hq, hquiet' hq]
    rfl

theorem mono (h : Grows quiet p₁ p₂) (himp : quiet' → quiet) : Grows quiet' p₁ p₂ := by
  obtain ⟨l, hl, hnull, hquiet⟩ := h
  exact ⟨l, hl, hnull, fun hq => hquiet (himp hq)⟩

end Grows

namespace Reads

variable {quiet quiet' : Prop} {p₁ p₂ p₃ : Policy ω}

theorem refl (quiet : Prop) (p : Policy ω) : Reads quiet p p :=
  ⟨[], rfl, by simp, fun _ => rfl⟩

theorem grows (h : Reads quiet p₁ p₂) : Grows quiet p₁ p₂ := by
  obtain ⟨l, rfl, hnull, hquiet⟩ := h
  exact ⟨l, rfl, hnull, hquiet⟩

theorem mono (h : Reads quiet p₁ p₂) (himp : quiet' → quiet) : Reads quiet' p₁ p₂ := by
  obtain ⟨l, hl, hnull, hquiet⟩ := h
  exact ⟨l, hl, hnull, fun hq => hquiet (himp hq)⟩

theorem trans (h : Reads quiet p₁ p₂) (h' : Reads quiet p₂ p₃) : Reads quiet p₁ p₃ := by
  obtain ⟨l, rfl, hnull, hquiet⟩ := h
  obtain ⟨l', rfl, hnull', hquiet'⟩ := h'
  refine ⟨l' ++ l, by simp, fun f hf => ?_, fun hq => ?_⟩
  · rcases List.mem_append.mp hf with hf | hf
    · exact hnull' f hf
    · exact hnull f hf
  · rw [hquiet hq, hquiet' hq]
    rfl

theorem contained (h : Reads quiet p₁ p₂) (hp : Contained env p₁) : Contained env p₂ := by
  obtain ⟨l, rfl, -, -⟩ := h
  exact ⟨hp.svidCnt_le, hp.amodeIdx_le, hp.entered, hp.empty, hp.distinct, hp.opos_le,
    hp.modeCnt_le⟩

theorem keeps (h : Reads quiet p₁ p₂) (hp : Contained env p₁) : Keeps env quiet p₁ p₂ :=
  ⟨h.contained hp, h.grows⟩

theorem amodes (h : Reads quiet p₁ p₂) : p₂.amodes = p₁.amodes := by
  obtain ⟨l, rfl, -, -⟩ := h
  rfl

end Reads

/-! ## Looking for a mode -/

namespace Policy

/-- The SVID that `get_mode_idx` sees in a slot. -/
def slotSvid (p : Policy ω) (env : AltModes ω) (i : Nat) : BitVec 16 :=
  match (p.amodes i).fx with
  | some fx => fx.svid
  | none => env.fxAtZero.svid

/-- A slot that holds a mode. -/
def filled (p : Policy ω) (i : Nat) : Bool := (p.amodes i).fx.isSome

/-- The slot that `get_mode_idx` finds. -/
def modeIdx (p : Policy ω) (env : AltModes ω) (svid : BitVec 16) : Option Nat :=
  if p.slotSvid env 0 = svid then some 0
  else if p.slotSvid env 1 = svid then some 1
  else none

/-- The slots that `get_mode_idx` reads all hold a mode. -/
def lookupFilled (p : Policy ω) (env : AltModes ω) (svid : BitVec 16) : Bool :=
  p.filled 0 && (p.slotSvid env 0 = svid || p.filled 1)

theorem derefFx_reads (p : Policy ω) (env : AltModes ω) {i : Nat} (hi : i < pdAmodeCount) :
    ∃ fx q, p.derefFx env i = (fx, q) ∧ fx.svid = p.slotSvid env i ∧ Reads (p.filled i) p q := by
  unfold derefFx touchAmodes slotSvid filled
  rw [if_pos hi]
  dsimp only
  cases h : (p.amodes i).fx with
  | some fx => exact ⟨fx, p, rfl, rfl, Reads.refl _ p⟩
  | none => exact ⟨env.fxAtZero, p.stray .nullFx, rfl, rfl, [.nullFx], rfl, by simp, by simp⟩

/-- What a lookup finds, and what it reads. -/
theorem getModeIdx_spec (p : Policy ω) (env : AltModes ω) (svid : BitVec 16) :
    ∃ q, p.getModeIdx env svid = (p.modeIdx env svid, q) ∧
      Reads (p.lookupFilled env svid) p q := by
  obtain ⟨fx, q, hderef, hsvid, hread⟩ := p.derefFx_reads env (i := 0) (by decide)
  have hread : Reads (p.lookupFilled env svid) p q :=
    hread.mono fun hfilled => (Bool.and_eq_true_iff.mp hfilled).1
  rw [getModeIdx, pdAmodeCount, getModeIdxFrom, hderef, modeIdx]
  dsimp only
  rw [hsvid]
  by_cases h0 : p.slotSvid env 0 = svid
  · rw [if_pos h0, if_pos h0]
    exact ⟨q, rfl, hread⟩
  · obtain ⟨fx', q', hderef', hsvid', hread'⟩ := q.derefFx_reads env (i := 1) (by decide)
    have hslot : q.slotSvid env 1 = p.slotSvid env 1 := by
      rw [slotSvid, slotSvid, hread.amodes]
    have hread' : Reads (p.lookupFilled env svid) q q' := by
      apply hread'.mono
      intro hfilled
      have hor := (Bool.and_eq_true_iff.mp hfilled).2
      rw [decide_eq_false h0, Bool.false_or] at hor
      rw [filled, hread.amodes]
      exact hor
    rw [if_neg h0, if_neg h0, getModeIdxFrom, hderef']
    dsimp only
    rw [hsvid', hslot]
    by_cases h1 : p.slotSvid env 1 = svid
    · rw [if_pos h1, if_pos h1]
      exact ⟨q', rfl, hread.trans hread'⟩
    · rw [if_neg h1, if_neg h1]
      exact ⟨q', rfl, hread.trans hread'⟩

theorem modeIdx_lt {svid : BitVec 16} {i : Nat} (h : p.modeIdx env svid = some i) :
    i < pdAmodeCount ∧ p.slotSvid env i = svid := by
  unfold modeIdx at h
  split at h
  · obtain rfl := Option.some.inj h
    exact ⟨by decide, ‹_›⟩
  · split at h
    · obtain rfl := Option.some.inj h
      exact ⟨by decide, ‹_›⟩
    · cases h

/-- No slot that holds a mode has an SVID that is not found. -/
theorem svid_ne_of_modeIdx_none {svid : BitVec 16} (h : p.modeIdx env svid = none) {i : Nat}
    (hi : i < pdAmodeCount) {fx : SvdmAmodeFx ω} (hfx : (p.amodes i).fx = some fx) :
    fx.svid ≠ svid := by
  have hslot : p.slotSvid env i = fx.svid := by
    rw [slotSvid, hfx]
  intro heq
  rw [modeIdx] at h
  rw [pdAmodeCount] at hi
  interval_cases i
  · rw [if_pos (hslot.trans heq)] at h
    cases h
  · split at h
    · cases h
    · rw [if_pos (hslot.trans heq)] at h
      cases h

/-- `amodes[i].fx` of a slot that holds a mode. -/
theorem derefFx_filled {i : Nat} (hi : i < pdAmodeCount) {fx : SvdmAmodeFx ω}
    (hfx : (p.amodes i).fx = some fx) : p.derefFx env i = (fx, p) := by
  simp [derefFx, touchAmodes, hi, hfx]

theorem touchAmodes_of_lt {i : Nat} (hi : i < pdAmodeCount) : p.touchAmodes i = p := if_pos hi

theorem touchSvids_of_lt {i : Nat} (hi : i < svidDiscoveryMax) : p.touchSvids i = p := if_pos hi

/-! ## Attention -/

theorem validateModeRequest_fx {i opos : Nat} {svid : BitVec 16}
    (h : p.validateModeRequest i svid opos = true) : ∃ fx, (p.amodes i).fx = some fx := by
  unfold validateModeRequest at h
  cases hfx : (p.amodes i).fx with
  | none => simp [hfx] at h
  | some fx => exact ⟨fx, rfl⟩

theorem dfpConsumeAttention_reads (p : Policy ω) (env : AltModes ω) (w : ω) (payload : Payload) :
    Reads (p.lookupFilled env (pdVdoVid (payload 0))) p
      (p.dfpConsumeAttention env w payload).2 := by
  obtain ⟨q, hget, hread⟩ := p.getModeIdx_spec env (pdVdoVid (payload 0))
  unfold dfpConsumeAttention
  dsimp only
  rw [hget]
  cases hfound : p.modeIdx env (pdVdoVid (payload 0)) with
  | none => exact hread
  | some i =>
      have hi := (modeIdx_lt hfound).1
      dsimp only
      rw [touchAmodes_of_lt hi]
      split
      · rename_i hvalid
        obtain ⟨fx, hfx⟩ := validateModeRequest_fx hvalid
        rw [derefFx_filled hi hfx]
        dsimp only
        split
        · exact hread
        · exact hread
      · exact hread

/-! ## Entering a mode -/

/-- The search inside the array leaves no trace. -/
theorem findSvidFrom_spec (p : Policy ω) (fx : SvdmAmodeFx ω) (svid : BitVec 16) {n j : Nat}
    (hin : j + n ≤ svidDiscoveryMax) :
    ∃ r, findSvidFrom fx svid n j p = (r, p) ∧ ∀ k, r = some k →
      k < j + n ∧ (p.svids k).svid = fx.svid ∧ (svid = 0 ∨ fx.svid = svid) := by
  induction n generalizing j with
  | zero => exact ⟨none, rfl, by simp⟩
  | succ n ih =>
      rw [findSvidFrom, touchSvids_of_lt (by omega)]
      split
      · obtain ⟨r, hr, hspec⟩ := ih (j := j + 1) (by omega)
        refine ⟨r, hr, fun k hk => ?_⟩
        obtain ⟨hlt, heq⟩ := hspec k hk
        exact ⟨by omega, heq⟩
      · rename_i hmatch
        obtain ⟨hsvid, hasked⟩ := not_or.mp hmatch
        refine ⟨some j, rfl, fun k hk => ?_⟩
        obtain rfl := Option.some.inj hk
        refine ⟨by omega, not_not.mp hsvid, ?_⟩
        by_cases hzero : svid = 0
        · exact Or.inl hzero
        · rw [← not_not.mp hsvid]
          exact Or.inr (not_not.mp fun hne => hasked ⟨hzero, hne⟩)

theorem findModeFrom_spec (p : Policy ω) (svid : BitVec 16) (modes : List (SvdmAmodeFx ω))
    (hcnt : p.svidCnt ≤ svidDiscoveryMax) :
    ∃ r, findModeFrom svid modes p = (r, p) ∧ ∀ fx j, r = some (fx, j) →
      fx ∈ modes ∧ j < p.svidCnt ∧ (p.svids j).svid = fx.svid ∧ (svid = 0 ∨ fx.svid = svid) := by
  induction modes with
  | nil => exact ⟨none, rfl, by simp⟩
  | cons fx modes ih =>
      obtain ⟨r, hr, hspec⟩ := findSvidFrom_spec p fx svid (n := p.svidCnt)
        (j := 0) (by omega)
      rw [findModeFrom, hr]
      cases r with
      | none =>
          obtain ⟨r', hr', hspec'⟩ := ih
          refine ⟨r', hr', fun gx j hj => ?_⟩
          obtain ⟨hmem, hrest⟩ := hspec' gx j hj
          exact ⟨List.mem_cons_of_mem _ hmem, hrest⟩
      | some k =>
          refine ⟨some (fx, k), rfl, fun gx j hj => ?_⟩
          obtain ⟨rfl, rfl⟩ := Prod.mk.inj (Option.some.inj hj)
          obtain ⟨hlt, hrest⟩ := hspec k rfl
          exact ⟨List.mem_cons_self, by omega, hrest⟩

theorem findSvidFrom_congr {q : Policy ω} {fx : SvdmAmodeFx ω} {svid : BitVec 16} {n j : Nat}
    (hsvids : ∀ k, (q.svids k).svid = (p.svids k).svid) (hin : j + n ≤ svidDiscoveryMax) :
    (findSvidFrom fx svid n j q).1 = (findSvidFrom fx svid n j p).1 := by
  induction n generalizing j with
  | zero => rfl
  | succ n ih =>
      rw [findSvidFrom, findSvidFrom, touchSvids_of_lt (by omega), touchSvids_of_lt (by omega)]
      rw [hsvids j]
      split
      · exact ih (by omega)
      · rfl

/-- The search sees only the SVIDs. -/
theorem findModeFrom_congr {q : Policy ω} (svid : BitVec 16) (modes : List (SvdmAmodeFx ω))
    (hsvids : ∀ k, (q.svids k).svid = (p.svids k).svid) (hcnt : q.svidCnt = p.svidCnt)
    (hmax : p.svidCnt ≤ svidDiscoveryMax) :
    (findModeFrom svid modes q).1 = (findModeFrom svid modes p).1 := by
  induction modes with
  | nil => rfl
  | cons fx modes ih =>
      have hfirst : (findSvidFrom fx svid q.svidCnt 0 q).1 =
          (findSvidFrom fx svid p.svidCnt 0 p).1 := by
        rw [hcnt]
        exact findSvidFrom_congr hsvids (by omega)
      obtain ⟨r, hr, -⟩ := findSvidFrom_spec p fx svid (n := p.svidCnt)
        (j := 0) (by omega)
      obtain ⟨r', hr', -⟩ := findSvidFrom_spec q fx svid (n := q.svidCnt)
        (j := 0) (by omega)
      rw [hr, hr'] at hfirst
      obtain rfl : r' = r := hfirst
      rw [findModeFrom, findModeFrom, hr, hr']
      cases r' with
      | none => exact ih
      | some k => rfl

/-- The mode that is entered by default is not entered yet. -/
def defaultIsNew (p : Policy ω) (env : AltModes ω) : Bool :=
  p.amodeIdx = pdAmodeCount ||
    match (findModeFrom 0 env.supportedModes p).1 with
    | none => true
    | some (fx, _) => (List.range p.amodeIdx).all fun i => p.slotSvid env i ≠ fx.svid

/-- A mode can be entered: no empty slot is taken for the mode with the SVID, and the default mode
is a new one. -/
def enterFits (p : Policy ω) (env : AltModes ω) (svid : BitVec 16) : Bool :=
  match p.modeIdx env svid with
  | some i => p.filled i
  | none => svid ≠ 0 || p.defaultIsNew env

theorem lt_of_filled (h : Contained env p) {i : Nat} (hfilled : p.filled i = true) :
    i < p.amodeIdx := by
  by_contra hge
  rw [filled, (h.empty i (not_lt.mp hge)).1] at hfilled
  cases hfilled

/-- What is new in the next slot makes no two modes of one SVID. -/
theorem contained_allocate (h : Contained env p) (hroom : p.amodeIdx ≠ pdAmodeCount)
    {fx : SvdmAmodeFx ω} {j : Nat} (hmem : fx ∈ env.supportedModes) (hj : j < p.svidCnt)
    (hsvid : (p.svids j).svid = fx.svid)
    (hnew : ∀ i < p.amodeIdx, ∀ gx, (p.amodes i).fx = some gx → gx.svid ≠ fx.svid) :
    Contained env { p with
      amodes := Function.update p.amodes p.amodeIdx
        { p.amodes p.amodeIdx with fx := some fx, data := some j }
      amodeIdx := p.amodeIdx + 1 } := by
  have hle := h.amodeIdx_le
  constructor
  case svidCnt_le => exact h.svidCnt_le
  case amodeIdx_le => dsimp only; lia
  case entered =>
    intro i hi
    dsimp only at hi ⊢
    by_cases heq : i = p.amodeIdx
    · subst heq
      refine ⟨fx, j, ?_, ?_, hmem, hj, hsvid⟩
      · rw [Function.update_self]
      · rw [Function.update_self]
    · rw [Function.update_of_ne heq]
      exact h.entered i (by lia)
  case empty =>
    intro i hi
    dsimp only at hi ⊢
    rw [Function.update_of_ne (by lia)]
    exact h.empty i (by lia)
  case distinct =>
    intro i k gx gx' hik hk hgx hgx'
    dsimp only at hk hgx hgx'
    rw [Function.update_of_ne (by lia)] at hgx
    by_cases heq : k = p.amodeIdx
    · subst heq
      rw [Function.update_self] at hgx'
      obtain rfl := Option.some.inj hgx'
      exact hnew i hik gx hgx
    · rw [Function.update_of_ne heq] at hgx'
      exact h.distinct i k gx gx' hik (by lia) hgx hgx'
  case opos_le =>
    intro i
    dsimp only
    by_cases heq : i = p.amodeIdx
    · subst heq
      rw [Function.update_self]
      exact h.opos_le _
    · rw [Function.update_of_ne heq]
      exact h.opos_le i
  case modeCnt_le => exact h.modeCnt_le

theorem allocateMode_spec (h : Contained env p) {svid : BitVec 16}
    (hfits : p.enterFits env svid = true) :
    ∃ r q, p.allocateMode env svid = (r, q) ∧ Keeps env (p.lookupFilled env svid) p q ∧
      p.amodeIdx ≤ q.amodeIdx ∧ ∀ i, r = some i → i < q.amodeIdx := by
  obtain ⟨q, hget, hread⟩ := p.getModeIdx_spec env svid
  have hq := hread.contained h
  have hgrows := hread.grows
  obtain ⟨l, rfl, -, -⟩ := hread
  rw [allocateMode, hget]
  rw [enterFits] at hfits
  cases hfound : p.modeIdx env svid with
  | some i =>
      rw [hfound] at hfits
      refine ⟨some i, _, rfl, ⟨hq, hgrows⟩, le_refl _, fun k hk => ?_⟩
      obtain rfl := Option.some.inj hk
      exact lt_of_filled h hfits
  | none =>
      rw [hfound] at hfits
      dsimp only
      split
      · exact ⟨none, _, rfl, ⟨hq, hgrows⟩, le_refl _, by simp⟩
      · rename_i hroom
        obtain ⟨r, hr, hspec⟩ := findModeFrom_spec { p with strays := l ++ p.strays } svid
          env.supportedModes h.svidCnt_le
        have hsame := findModeFrom_congr (q := { p with strays := l ++ p.strays }) (p := p)
          svid env.supportedModes (fun _ => rfl) rfl h.svidCnt_le
        rw [hr] at hsame ⊢
        cases r with
        | none => exact ⟨none, _, rfl, ⟨hq, hgrows⟩, le_refl _, by simp⟩
        | some found =>
            obtain ⟨fx, j⟩ := found
            obtain ⟨hmem, hj, hsvid, hasked⟩ := hspec fx j rfl
            have hlt : p.amodeIdx < pdAmodeCount := by
              have := h.amodeIdx_le
              omega
            have hnew : ∀ i < p.amodeIdx, ∀ gx, (p.amodes i).fx = some gx →
                gx.svid ≠ fx.svid := by
              intro i hi gx hgx
              rcases hasked with rfl | rfl
              · rw [defaultIsNew, ← hsame] at hfits
                have hall : (List.range p.amodeIdx).all
                    (fun i => p.slotSvid env i ≠ fx.svid) = true := by
                  simpa [hroom] using hfits
                have hne := List.all_eq_true.mp hall i (List.mem_range.mpr hi)
                simpa [slotSvid, hgx] using hne
              · exact svid_ne_of_modeIdx_none hfound (by omega) hgx
            dsimp only
            rw [touchAmodes_of_lt hlt]
            refine ⟨some p.amodeIdx, _, rfl, ⟨contained_allocate hq hroom hmem hj hsvid hnew, ?_⟩,
              Nat.le_succ _, fun k hk => ?_⟩
            · exact hgrows.trans (Grows.of_eq rfl)
            · obtain rfl := Option.some.inj hk
              exact Nat.lt_succ_self _

theorem contained_setOpos (h : Contained env p) {i opos : Nat} (hi : i < p.amodeIdx)
    (hopos : opos ≤ pdoModes) : Contained env (p.setOpos i opos) := by
  have hfx : ∀ k, ((p.setOpos i opos).amodes k).fx = (p.amodes k).fx ∧
      ((p.setOpos i opos).amodes k).data = (p.amodes k).data ∧
      ((p.setOpos i opos).amodes k).opos ≤ pdoModes := by
    intro k
    unfold setOpos
    dsimp only
    by_cases heq : k = i
    · subst heq
      rw [Function.update_self]
      exact ⟨rfl, rfl, hopos⟩
    · rw [Function.update_of_ne heq]
      exact ⟨rfl, rfl, h.opos_le k⟩
  constructor
  case svidCnt_le => exact h.svidCnt_le
  case amodeIdx_le => exact h.amodeIdx_le
  case entered =>
    intro k hk
    rw [(hfx k).1, (hfx k).2.1]
    exact h.entered k hk
  case empty =>
    intro k hk
    have hk : p.amodeIdx ≤ k := hk
    rw [setOpos]
    dsimp only
    rw [Function.update_of_ne (by omega)]
    exact h.empty k hk
  case distinct =>
    intro k m fx gx hkm hm hk hg
    rw [(hfx k).1] at hk
    rw [(hfx m).1] at hg
    exact h.distinct k m fx gx hkm hm hk hg
  case opos_le => exact fun k => (hfx k).2.2
  case modeCnt_le => exact h.modeCnt_le

/-- The data of a slot that holds a mode. -/
theorem derefData_entered (h : Contained env p) {i : Nat} (hi : i < p.amodeIdx) :
    ∃ j, p.derefData env i = (p.svids j, p) := by
  obtain ⟨fx, j, -, hdata, -, hj, -⟩ := h.entered i hi
  have hle := h.amodeIdx_le
  have hcnt := h.svidCnt_le
  refine ⟨j, ?_⟩
  rw [derefData, touchAmodes_of_lt (by omega), hdata]
  dsimp only
  rw [touchSvids_of_lt (by omega)]

/-- With an object position, the mode of a slot is in the array. -/
theorem touchModeVdo_opos (h : Contained env p) {i : Nat} (hopos : (p.amodes i).opos ≠ 0) :
    p.touchModeVdo (((p.amodes i).opos : Int) - 1) = p := by
  have hle := h.opos_le i
  exact if_pos ⟨by omega, by omega⟩

theorem enterAt_spec (h : Contained env p) (w : ω) {i : Nat} (hi : i < p.amodeIdx)
    (hopos : (p.amodes i).opos ≠ 0) : (p.enterAt env w i).2 = p := by
  obtain ⟨j, hdata⟩ := derefData_entered h hi
  obtain ⟨fx, -, hfx, -⟩ := h.entered i hi
  have hle := h.amodeIdx_le
  rw [enterAt, hdata]
  dsimp only
  rw [touchModeVdo_opos h hopos, derefFx_filled (by omega) hfx]
  dsimp only
  split
  · rfl
  · rfl

theorem pdDfpEnterMode_keeps (h : Contained env p) (w : ω) {svid : BitVec 16} (opos : Nat)
    (hfits : p.enterFits env svid = true) :
    Keeps env (p.lookupFilled env svid) p (p.pdDfpEnterMode env w svid opos).2 ∧
      p.amodeIdx ≤ (p.pdDfpEnterMode env w svid opos).2.amodeIdx := by
  obtain ⟨r, q, halloc, hkeeps, hmono, hlt⟩ := allocateMode_spec h hfits
  rw [pdDfpEnterMode, halloc]
  cases r with
  | none => exact ⟨hkeeps, hmono⟩
  | some i =>
      have hi := hlt i rfl
      have hq := hkeeps.contained
      have hle := hq.amodeIdx_le
      obtain ⟨j, hdata⟩ := derefData_entered hq hi
      -- an object position that is set keeps the policy as it was
      have hset : ∀ n, n ≠ 0 → n ≤ pdoModes →
          Keeps env (p.lookupFilled env svid) p ((q.setOpos i n).enterAt env w i).2 ∧
            p.amodeIdx ≤ ((q.setOpos i n).enterAt env w i).2.amodeIdx := by
        intro n hn hnle
        have hcontained := contained_setOpos hq hi hnle
        have hopos : ((q.setOpos i n).amodes i).opos ≠ 0 := by
          rw [setOpos]
          dsimp only
          rw [Function.update_self]
          exact hn
        rw [enterAt_spec hcontained w hi hopos]
        exact ⟨⟨hcontained, hkeeps.grows.trans (Grows.of_eq rfl)⟩, hmono⟩
      dsimp only
      rw [touchAmodes_of_lt (by omega), hdata]
      split
      · exact hset 1 (by decide) (by decide)
      · rename_i hopos
        dsimp only
        split
        · rename_i hcnt
          have hmax := hq.modeCnt_le j
          exact hset opos hopos (by omega)
        · exact ⟨hkeeps, hmono⟩

/-! ## Discovery -/

theorem contained_pdDfpPeInit (env : AltModes ω) (p : Policy ω) : Contained env p.pdDfpPeInit := by
  constructor
  case svidCnt_le => exact Nat.zero_le _
  case amodeIdx_le => exact Nat.zero_le _
  case entered => exact fun i hi => absurd hi (Nat.not_lt_zero i)
  case empty => exact fun i _ => ⟨rfl, rfl⟩
  case distinct => exact fun i j _ _ _ hj => absurd hj (Nat.not_lt_zero j)
  case opos_le => exact fun i => Nat.zero_le _
  case modeCnt_le => exact fun j => Int.natCast_nonneg _

theorem dfpConsumeIdentity_keeps (quiet : Prop) (p : Policy ω) (cnt : Nat) (payload : Payload) :
    Keeps env quiet p (p.dfpConsumeIdentity cnt payload) := by
  have h := contained_pdDfpPeInit env p
  exact ⟨⟨h.svidCnt_le, h.amodeIdx_le, h.entered, h.empty, h.distinct, h.opos_le, h.modeCnt_le⟩,
    Grows.of_eq rfl⟩

/-- A new SVID goes behind the ones that are there. -/
theorem contained_addSvid (h : Contained env p) (hroom : p.svidCnt < svidDiscoveryMax)
    (svid : BitVec 16) :
    Contained env (p.addSvid p.svidCnt svid) ∧ (p.addSvid p.svidCnt svid).strays = p.strays := by
  rw [addSvid, touchSvids_of_lt hroom]
  refine ⟨?_, rfl⟩
  constructor
  case svidCnt_le => dsimp only; omega
  case amodeIdx_le => exact h.amodeIdx_le
  case entered =>
    intro i hi
    obtain ⟨fx, j, hfx, hdata, hmem, hj, hsvid⟩ := h.entered i hi
    refine ⟨fx, j, hfx, hdata, hmem, Nat.lt_succ_of_lt hj, ?_⟩
    dsimp only
    rw [Function.update_of_ne (by omega)]
    exact hsvid
  case empty => exact h.empty
  case distinct => exact h.distinct
  case opos_le => exact h.opos_le
  case modeCnt_le =>
    intro j
    dsimp only
    by_cases heq : j = p.svidCnt
    · subst heq
      rw [Function.update_self]
      exact h.modeCnt_le _
    · rw [Function.update_of_ne heq]
      exact h.modeCnt_le j

/-- The number of SVIDs in the words of an answer, up to the first zero. -/
def announcedFrom (payload : Payload) : Nat → Nat → Nat
  | 0, _ => 0
  | n + 1, vdo =>
      if pdVdoSvid0 (payload vdo) = 0 then 0
      else if pdVdoSvid1 (payload vdo) = 0 then 1
      else announcedFrom payload n (vdo + 1) + 2

/-- The SVIDs of an answer do not run over the end: the count is even, or there is room for all of
them. -/
def svidsFit (p : Policy ω) (cnt : Nat) (payload : Payload) : Bool :=
  p.svidCnt % 2 = 0 || p.svidCnt + announcedFrom payload (cnt - 1) 1 ≤ svidDiscoveryMax

theorem consumeSvidsFrom_keeps (h : Contained env p) {cnt fuel i vdo : Nat} {payload : Payload}
    (hi : i = p.svidCnt)
    (hfits : p.svidCnt % 2 = 0 ∨
      p.svidCnt + announcedFrom payload (cnt - vdo) vdo ≤ svidDiscoveryMax) :
    Contained env (consumeSvidsFrom cnt payload fuel i vdo p) ∧
      (consumeSvidsFrom cnt payload fuel i vdo p).strays = p.strays ∧
      (consumeSvidsFrom cnt payload fuel i vdo p).svidIdx = p.svidIdx := by
  induction fuel generalizing p i vdo with
  | zero => exact ⟨h, rfl, rfl⟩
  | succ fuel ih =>
      subst hi
      have hcnt := h.svidCnt_le
      have hmax : svidDiscoveryMax = 16 := rfl
      rw [consumeSvidsFrom]
      by_cases hstop : p.svidCnt + 12 ≤ p.svidCnt
      · lia
      rw [if_neg hstop]
      by_cases hfull : p.svidCnt = svidDiscoveryMax
      · rw [if_pos hfull]
        exact ⟨h, rfl, rfl⟩
      rw [if_neg hfull]
      by_cases hend : cnt ≤ vdo
      · rw [if_pos hend]
        exact ⟨h, rfl, rfl⟩
      rw [if_neg hend]
      by_cases hzero : pdVdoSvid0 (payload vdo) = 0
      · rw [if_pos hzero]
        exact ⟨h, rfl, rfl⟩
      rw [if_neg hzero]
      obtain ⟨h₁, hs₁⟩ := contained_addSvid h (by lia) (pdVdoSvid0 (payload vdo))
      have hcnt₁ : (p.addSvid p.svidCnt (pdVdoSvid0 (payload vdo))).svidCnt = p.svidCnt + 1 := by
        rw [addSvid, touchSvids_of_lt (by lia)]
      have hx₁ : (p.addSvid p.svidCnt (pdVdoSvid0 (payload vdo))).svidIdx = p.svidIdx := by
        rw [addSvid, touchSvids_of_lt (by lia)]
      generalize p.addSvid p.svidCnt (pdVdoSvid0 (payload vdo)) = p₁ at h₁ hs₁ hcnt₁ hx₁ ⊢
      dsimp only
      by_cases hzero' : pdVdoSvid1 (payload vdo) = 0
      · rw [if_pos hzero']
        exact ⟨h₁, hs₁, hx₁⟩
      rw [if_neg hzero', ← hcnt₁]
      -- the second SVID of the word: an even count is not the last one
      have hword : announcedFrom payload (cnt - vdo) vdo =
          announcedFrom payload (cnt - (vdo + 1)) (vdo + 1) + 2 := by
        obtain ⟨n, hn⟩ : ∃ n, cnt - vdo = n + 1 := ⟨cnt - vdo - 1, by lia⟩
        rw [hn, announcedFrom, if_neg hzero, if_neg hzero']
        congr 2
        lia
      have hroom : p₁.svidCnt < svidDiscoveryMax := by lia
      obtain ⟨h₂, hs₂⟩ := contained_addSvid h₁ hroom (pdVdoSvid1 (payload vdo))
      have hcnt₂ : (p₁.addSvid p₁.svidCnt (pdVdoSvid1 (payload vdo))).svidCnt =
          p₁.svidCnt + 1 := by
        rw [addSvid, touchSvids_of_lt hroom]
      have hx₂ : (p₁.addSvid p₁.svidCnt (pdVdoSvid1 (payload vdo))).svidIdx = p₁.svidIdx := by
        rw [addSvid, touchSvids_of_lt hroom]
      have hnext : p.svidCnt + 2 =
          (p₁.addSvid p₁.svidCnt (pdVdoSvid1 (payload vdo))).svidCnt := by lia
      have hfits' : (p₁.addSvid p₁.svidCnt (pdVdoSvid1 (payload vdo))).svidCnt % 2 = 0 ∨
          (p₁.addSvid p₁.svidCnt (pdVdoSvid1 (payload vdo))).svidCnt +
            announcedFrom payload (cnt - (vdo + 1)) (vdo + 1) ≤ svidDiscoveryMax := by
        lia
      obtain ⟨h₃, hs₃, hx₃⟩ := ih h₂ hnext hfits'
      exact ⟨h₃, hs₃.trans (hs₂.trans hs₁), hx₃.trans (hx₂.trans hx₁)⟩

theorem dfpDiscoverModes_policy (payload : Payload) (hidx : p.svidIdx < svidDiscoveryMax) :
    (p.dfpDiscoverModes payload).2 = p := by
  rw [dfpDiscoverModes, touchSvids_of_lt hidx]
  split
  · rfl
  · rfl

/-- An answer with modes changes the modes of one SVID. -/
theorem dfpConsumeModes_spec (h : Contained env p) {cnt : Nat} (payload : Payload)
    (hcnt : 1 ≤ cnt ∧ cnt ≤ 7) (hidx : p.svidIdx < svidDiscoveryMax) :
    Contained env (p.dfpConsumeModes cnt payload) ∧
      (p.dfpConsumeModes cnt payload).strays = p.strays ∧
      (p.dfpConsumeModes cnt payload).svidIdx = p.svidIdx + 1 ∧
      (p.dfpConsumeModes cnt payload).svidCnt = p.svidCnt ∧
      (p.dfpConsumeModes cnt payload).amodes = p.amodes ∧
      (p.dfpConsumeModes cnt payload).amodeIdx = p.amodeIdx ∧
      ∀ k, ((p.dfpConsumeModes cnt payload).svids k).svid = (p.svids k).svid := by
  have htouch : (if cnt - 1 = 0 then p else p.touchModeVdo ((cnt : Int) - 2)) = p := by
    split
    · rfl
    · exact if_pos ⟨by omega, by rw [pdoModes]; omega⟩
  have hsvid : ∀ k, ((p.dfpConsumeModes cnt payload).svids k).svid = (p.svids k).svid := by
    intro k
    rw [dfpConsumeModes, touchSvids_of_lt hidx]
    dsimp only
    rw [htouch]
    by_cases heq : k = p.svidIdx
    · subst heq
      rw [Function.update_self]
    · rw [Function.update_of_ne heq]
  have hpolicy : ∃ svids, p.dfpConsumeModes cnt payload =
      { p with svids := svids, svidIdx := p.svidIdx + 1 } ∧
        ∀ k, (svids k).modeCnt ≤ pdoModes := by
    rw [dfpConsumeModes, touchSvids_of_lt hidx]
    dsimp only
    rw [htouch]
    refine ⟨_, rfl, fun k => ?_⟩
    by_cases heq : k = p.svidIdx
    · subst heq
      rw [Function.update_self, pdoModes]
      dsimp only
      omega
    · rw [Function.update_of_ne heq]
      exact h.modeCnt_le k
  obtain ⟨svids, hp, hmode⟩ := hpolicy
  rw [hp] at hsvid ⊢
  refine ⟨?_, rfl, rfl, rfl, rfl, rfl, hsvid⟩
  constructor
  case svidCnt_le => exact h.svidCnt_le
  case amodeIdx_le => exact h.amodeIdx_le
  case entered =>
    intro i hi
    obtain ⟨fx, j, hfx, hdata, hmem, hj, heq⟩ := h.entered i hi
    exact ⟨fx, j, hfx, hdata, hmem, hj, (hsvid j).trans heq⟩
  case empty => exact h.empty
  case distinct => exact h.distinct
  case opos_le => exact h.opos_le
  case modeCnt_le => exact hmode

/-! ## Structured messages -/

theorem enterFits_congr {q : Policy ω} {svid : BitVec 16} (hp : Contained env p)
    (hsvids : ∀ k, (q.svids k).svid = (p.svids k).svid) (hcnt : q.svidCnt = p.svidCnt)
    (hamodes : q.amodes = p.amodes) (hidx : q.amodeIdx = p.amodeIdx) :
    q.enterFits env svid = p.enterFits env svid := by
  have hslot : q.slotSvid env = p.slotSvid env := by
    funext i
    rw [slotSvid, slotSvid, hamodes]
  have hfilled : q.filled = p.filled := by
    funext i
    rw [filled, filled, hamodes]
  have hfound : q.modeIdx env svid = p.modeIdx env svid := by
    rw [modeIdx, modeIdx, hslot]
  have hnew : q.defaultIsNew env = p.defaultIsNew env := by
    rw [defaultIsNew, defaultIsNew, hidx, hslot, findModeFrom_congr _ _ hsvids hcnt hp.svidCnt_le]
  rw [enterFits, enterFits, hfound, hfilled, hnew]

theorem lookupFilled_congr {q : Policy ω} {svid : BitVec 16} (hamodes : q.amodes = p.amodes) :
    q.lookupFilled env svid = p.lookupFilled env svid := by
  rw [lookupFilled, lookupFilled, filled, filled, filled, filled, slotSvid, slotSvid, hamodes]

/-- What an answer of the partner must not do, by its command; `modep` is the slot of its SVID. -/
def ackFits (p : Policy ω) (env : AltModes ω) (cmd cnt : Nat) (payload : Payload)
    (modep : Option Nat) : Bool :=
  if cmd = cmdDiscoverSvid then p.svidsFit cnt payload && p.svidIdx < svidDiscoveryMax
  else if cmd = cmdDiscoverModes then
    p.svidIdx + 1 < svidDiscoveryMax && (p.svidIdx + 1 < p.svidCnt || p.enterFits env 0)
  else if cmd = cmdEnterMode then
    match modep with
    | none => true
    | some i => (p.amodes i).opos ≠ 0 || p.enterFits env 0
  else true

/-- The SVIDs that an answer looks for, after the one in its header. -/
def ackLookups (p : Policy ω) (cmd : Nat) (payload : Payload) (modep : Option Nat) :
    List (BitVec 16) :=
  if cmd = cmdDiscoverModes then if p.svidIdx + 1 < p.svidCnt then [] else [0]
  else if cmd = cmdEnterMode then
    match modep with
    | none => []
    | some i => if (p.amodes i).opos = 0 then [0] else []
  else if cmd = cmdDpStatus then [pdVdoVid (payload 0)]
  else []

/-- An object position is only in a slot that holds a mode. -/
theorem derefFx_of_opos (h : Contained env p) {i : Nat} (hopos : (p.amodes i).opos ≠ 0) :
    ∃ fx, p.derefFx env i = (fx, p) := by
  have hi : i < p.amodeIdx := by
    by_contra hge
    exact hopos (h.empty i (not_lt.mp hge)).2
  obtain ⟨fx, -, hfx, -⟩ := h.entered i hi
  have hle := h.amodeIdx_le
  exact ⟨fx, derefFx_filled (by omega) hfx⟩

theorem ackDiscoverModes_keeps (h : Contained env p) (w : ω) {cnt : Nat} (payload : Payload)
    (hcnt : 1 ≤ cnt ∧ cnt ≤ 7) (hidx : p.svidIdx + 1 < svidDiscoveryMax)
    (hfits : p.svidIdx + 1 < p.svidCnt ∨ p.enterFits env 0 = true) :
    Keeps env (¬ p.svidIdx + 1 < p.svidCnt → p.lookupFilled env 0 = true) p
      (p.ackDiscoverModes env w cnt payload).2 := by
  obtain ⟨hq, hstrays, hsvidIdx, hsvidCnt, hamodes, hamodeIdx, hsvids⟩ :=
    dfpConsumeModes_spec h payload hcnt (by lia)
  have hgrows : ∀ quiet, Grows quiet p (p.dfpConsumeModes cnt payload) :=
    fun _ => Grows.of_eq hstrays
  have hidx' : (p.dfpConsumeModes cnt payload).svidIdx < svidDiscoveryMax := by lia
  rw [ackDiscoverModes, dfpDiscoverModes, touchSvids_of_lt hidx']
  by_cases hlast : p.svidCnt ≤ p.svidIdx + 1
  · rw [if_pos (by lia)]
    have henter : (p.dfpConsumeModes cnt payload).enterFits env 0 = true := by
      rw [enterFits_congr h hsvids hsvidCnt hamodes hamodeIdx]
      exact hfits.resolve_left (by lia)
    have hkeeps := (pdDfpEnterMode_keeps hq w 0 henter).1
    rw [lookupFilled_congr hamodes] at hkeeps
    exact ⟨hkeeps.contained,
      (hgrows _).trans (hkeeps.grows.mono fun hquiet => hquiet (by lia))⟩
  · rw [if_neg (by lia)]
    exact ⟨hq, hgrows _⟩

theorem ackEnterMode_keeps (h : Contained env p) (w : ω) (payload : Payload) {i : Nat}
    (hi : i < pdAmodeCount) (hfits : (p.amodes i).opos ≠ 0 ∨ p.enterFits env 0 = true) :
    Keeps env ((p.amodes i).opos = 0 → p.lookupFilled env 0 = true) p
      (p.ackEnterMode env w payload i).2 := by
  rw [ackEnterMode, touchAmodes_of_lt hi]
  dsimp only
  -- the default mode, if the slot is not in use
  have hentered : Keeps env ((p.amodes i).opos = 0 → p.lookupFilled env 0 = true) p
      (if (p.amodes i).opos = 0 then (p.pdDfpEnterMode env w 0 0).2 else p) := by
    by_cases hopos : (p.amodes i).opos = 0
    · rw [if_pos hopos]
      have hkeeps := (pdDfpEnterMode_keeps h w 0 (hfits.resolve_left (not_not.mpr hopos))).1
      exact ⟨hkeeps.contained, hkeeps.grows.mono fun hquiet => hquiet hopos⟩
    · rw [if_neg hopos]
      exact ⟨h, Grows.of_eq rfl⟩
  generalize (if (p.amodes i).opos = 0 then (p.pdDfpEnterMode env w 0 0).2 else p) = q
    at hentered ⊢
  by_cases hopos : (q.amodes i).opos = 0
  · rw [if_pos hopos]
    exact hentered
  · obtain ⟨fx, hfx⟩ := derefFx_of_opos hentered.contained hopos
    rw [if_neg hopos, hfx]
    exact hentered

theorem ackDpStatus_keeps (h : Contained env p) (w : ω) (payload : Payload) {modep : Option Nat}
    (hmodep : ∀ i, modep = some i → i < pdAmodeCount) :
    Keeps env (p.lookupFilled env (pdVdoVid (payload 0)) = true) p
      (p.ackDpStatus env w payload modep).2 := by
  have hread := p.dfpConsumeAttention_reads env w payload
  rw [ackDpStatus]
  generalize p.dfpConsumeAttention env w payload = r at hread ⊢
  obtain ⟨payload', q⟩ := r
  have hq := hread.keeps h
  cases modep with
  | none => exact hq
  | some i =>
      dsimp only
      rw [touchAmodes_of_lt (hmodep i rfl)]
      by_cases hopos : (q.amodes i).opos = 0
      · rw [if_pos hopos]
        exact hq
      · obtain ⟨fx, hfx⟩ := derefFx_of_opos hq.contained hopos
        rw [if_neg hopos, hfx]
        exact hq

theorem ackDpConfig_policy (h : Contained env p) (payload : Payload) {i : Nat}
    (hi : i < pdAmodeCount) : (p.ackDpConfig env payload i).2 = p := by
  rw [ackDpConfig, touchAmodes_of_lt hi]
  by_cases hopos : (p.amodes i).opos = 0
  · rw [if_pos hopos]
  · obtain ⟨fx, hfx⟩ := derefFx_of_opos h hopos
    rw [if_neg hopos, hfx]

theorem svdmAckCmd_keeps (h : Contained env p) (w : ω) {cmd cnt : Nat} {payload : Payload}
    {modep : Option Nat} (hcnt : 1 ≤ cnt ∧ cnt ≤ 7) (hmodep : ∀ i, modep = some i → i < pdAmodeCount)
    (hfits : p.ackFits env cmd cnt payload modep = true) :
    Keeps env (∀ svid ∈ p.ackLookups cmd payload modep, p.lookupFilled env svid = true) p
      (p.svdmAckCmd env w cmd cnt payload modep).2 := by
  have hsame : ∀ quiet : Prop, Keeps env quiet p p := fun _ => ⟨h, Grows.of_eq rfl⟩
  unfold svdmAckCmd
  unfold ackFits at hfits
  unfold ackLookups
  by_cases hident : cmd = cmdDiscoverIdent
  · rw [if_pos hident]
    exact dfpConsumeIdentity_keeps _ p cnt payload
  rw [if_neg hident]
  by_cases hsvid : cmd = cmdDiscoverSvid
  · rw [if_pos hsvid] at hfits ⊢
    simp only [svidsFit, Bool.and_eq_true, Bool.or_eq_true, decide_eq_true_eq] at hfits
    have hconsumed : Contained env (p.dfpConsumeSvids cnt payload) ∧
        (p.dfpConsumeSvids cnt payload).strays = p.strays ∧
        (p.dfpConsumeSvids cnt payload).svidIdx = p.svidIdx :=
      consumeSvidsFrom_keeps h rfl hfits.1
    obtain ⟨hcontained, hstrays, hidx⟩ := hconsumed
    rw [dfpDiscoverModes_policy payload (by omega)]
    exact ⟨hcontained, Grows.of_eq hstrays⟩
  rw [if_neg hsvid] at hfits ⊢
  by_cases hmodes : cmd = cmdDiscoverModes
  · rw [if_pos hmodes] at hfits
    rw [if_pos hmodes, if_pos hmodes]
    simp only [Bool.and_eq_true, Bool.or_eq_true, decide_eq_true_eq] at hfits
    have hkeeps := ackDiscoverModes_keeps h w payload hcnt hfits.1 hfits.2
    refine ⟨hkeeps.contained, hkeeps.grows.mono fun hquiet hlast => hquiet 0 ?_⟩
    rw [if_neg hlast]
    exact List.mem_singleton_self 0
  rw [if_neg hmodes] at hfits
  rw [if_neg hmodes, if_neg hmodes]
  by_cases henter : cmd = cmdEnterMode
  · rw [if_pos henter] at hfits
    rw [if_pos henter, if_pos henter]
    cases modep with
    | none => exact hsame _
    | some i =>
        simp only [Bool.or_eq_true, decide_eq_true_eq] at hfits
        have hkeeps := ackEnterMode_keeps h w payload (hmodep i rfl) hfits
        refine ⟨hkeeps.contained, hkeeps.grows.mono fun hquiet hopos => hquiet 0 ?_⟩
        simp [hopos]
  rw [if_neg henter, if_neg henter]
  by_cases hstatus : cmd = cmdDpStatus
  · rw [if_pos hstatus, if_pos hstatus]
    have hkeeps := ackDpStatus_keeps h w payload hmodep
    exact ⟨hkeeps.contained, hkeeps.grows.mono fun hquiet => hquiet _ (by simp)⟩
  rw [if_neg hstatus, if_neg hstatus]
  by_cases hconfig : cmd = cmdDpConfig
  · rw [if_pos hconfig]
    cases modep with
    | none => exact hsame _
    | some i =>
        dsimp only
        rw [ackDpConfig_policy h payload (hmodep i rfl)]
        exact hsame _
  · rw [if_neg hconfig]
    exact hsame _

end Policy

end PdPolicy
end CrosEc
