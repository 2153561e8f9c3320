import CrosEc.PdPolicy.AltModeSafety

/-!
# Runs of the alternate-mode policy

Every call keeps what `Contained` says, if it fits.  What remains is that a lookup may read an
empty slot through a null pointer: the first lookup after `pd_dfp_pe_init` always does, so the runs
that read no empty slot are those without lookups (`quiet_run_lookups`).
-/

namespace CrosEc
namespace PdPolicy

open Lib

variable {ω : Type} {env : AltModes ω} {p : Policy ω}

namespace Policy

/-! ## Messages -/

theorem svdmInit_reads (p : Policy ω) (env : AltModes ω) (w : ω) (cmd : Nat)
    (payload : Payload) :
    Reads (cmd = cmdAttention → p.lookupFilled env (pdVdoVid (payload 0)) = true) p
      (p.svdmInit env w cmd payload).2 := by
  unfold svdmInit
  by_cases hattention : cmd = cmdAttention
  · rw [if_pos hattention]
    exact (p.dfpConsumeAttention_reads env w payload).mono fun hquiet => hquiet hattention
  · rw [if_neg hattention]
    exact Reads.refl _ p

theorem ackFits_strays (h : Contained env p) (l : List Stray) (cmd cnt : Nat) (payload : Payload)
    (modep : Option Nat) :
    ackFits { p with strays := l } env cmd cnt payload modep =
      p.ackFits env cmd cnt payload modep := by
  have henter : enterFits { p with strays := l } env 0 = p.enterFits env 0 :=
    enterFits_congr h (fun _ => rfl) rfl rfl rfl
  unfold ackFits
  rw [henter]
  rfl

theorem svdmAck_keeps (h : Contained env p) (w : ω) {cmd cnt : Nat} {payload : Payload}
    (hcnt : 1 ≤ cnt ∧ cnt ≤ 7)
    (hfits : p.ackFits env cmd cnt payload (p.modeIdx env (pdVdoVid (payload 0))) = true) :
    Keeps env (∀ svid ∈ pdVdoVid (payload 0) ::
        p.ackLookups cmd payload (p.modeIdx env (pdVdoVid (payload 0))),
        p.lookupFilled env svid = true) p (p.svdmAck env w cmd cnt payload).2 := by
  obtain ⟨q, hget, hread⟩ := p.getModeIdx_spec env (pdVdoVid (payload 0))
  have hgrows := hread.grows
  have hq := hread.contained h
  obtain ⟨l, rfl, -, -⟩ := hread
  rw [svdmAck, hget]
  rw [← ackFits_strays h (l ++ p.strays)] at hfits
  have hkeeps := svdmAckCmd_keeps hq w hcnt (fun i hi => (modeIdx_lt hi).1) hfits
  refine ⟨hkeeps.contained, (hgrows.mono ?_).trans (hkeeps.grows.mono ?_)⟩
  · exact fun hquiet => hquiet _ List.mem_cons_self
  · exact fun hquiet svid hsvid => hquiet svid (List.mem_cons_of_mem _ hsvid)

/-! ## The other calls -/

theorem pdAltMode_reads (p : Policy ω) (env : AltModes ω) (svid : BitVec 16) :
    Reads (p.lookupFilled env svid) p (p.pdAltMode env svid).2 := by
  obtain ⟨q, hget, hread⟩ := p.getModeIdx_spec env svid
  rw [pdAltMode, hget]
  cases hfound : p.modeIdx env svid with
  | none => exact hread
  | some i =>
      dsimp only
      rw [touchAmodes_of_lt (modeIdx_lt hfound).1]
      exact hread

theorem pdDfpDpGetPinMode_reads (h : Contained env p) (status : BitVec 32)
    (hfits : ∀ i, p.modeIdx env usbSidDisplayport = some i → (p.amodes i).opos ≠ 0) :
    Reads (p.lookupFilled env usbSidDisplayport) p (p.pdDfpDpGetPinMode env status).2 := by
  obtain ⟨q, hget, hread⟩ := p.getModeIdx_spec env usbSidDisplayport
  rw [pdDfpDpGetPinMode, hget]
  cases hfound : p.modeIdx env usbSidDisplayport with
  | none => exact hread
  | some i =>
      have hopos : (q.amodes i).opos ≠ 0 := by
        rw [hread.amodes]
        exact hfits i hfound
      have hq := hread.contained h
      have hi : i < q.amodeIdx := by
        by_contra hge
        exact hopos (hq.empty i (not_lt.mp hge)).2
      obtain ⟨j, hdata⟩ := derefData_entered hq hi
      dsimp only
      rw [hdata]
      dsimp only
      rw [touchModeVdo_opos hq hopos]
      exact hread

theorem pdDfpExitMode_keeps (h : Contained env p) (svid : BitVec 16) (opos : Nat) :
    Keeps env (svid ≠ 0 → p.lookupFilled env svid = true) p (p.pdDfpExitMode env svid opos).2 := by
  rw [pdDfpExitMode]
  by_cases hzero : svid = 0
  · rw [if_pos hzero]
    exact ⟨contained_pdDfpPeInit env _, Grows.of_eq rfl⟩
  rw [if_neg hzero]
  obtain ⟨q, hget, hread⟩ := p.getModeIdx_spec env svid
  have hq := hread.contained h
  have hgrows : Grows (svid ≠ 0 → p.lookupFilled env svid = true) p q :=
    hread.grows.mono fun hquiet => hquiet hzero
  rw [hget]
  cases hfound : p.modeIdx env svid with
  | none => exact ⟨hq, hgrows⟩
  | some i =>
      have hi := (modeIdx_lt hfound).1
      dsimp only
      rw [touchAmodes_of_lt hi]
      split
      · rename_i hvalid
        obtain ⟨fx, hfx⟩ := validateModeRequest_fx hvalid
        rw [derefFx_filled hi hfx]
        have hentered : i < q.amodeIdx := lt_of_filled hq (by rw [filled, hfx]; rfl)
        exact ⟨contained_setOpos hq hentered (Nat.zero_le _), hgrows.trans (Grows.of_eq rfl)⟩
      · exact ⟨hq, hgrows⟩

end Policy

/-! ## Runs -/

/-- What a call must not do: an answer with SVIDs that runs over the end from an odd count,
answers with modes past the end of the SVIDs, the default mode for a second time, and the pin mode
of a slot without an object position. -/
def Call.fits (env : AltModes ω) (p : Policy ω) : Call ω → Bool
  | .svdm _ cnt payload =>
      pdVdoCmdt (payload 0) ≠ 1 ||
        p.ackFits env (pdVdoCmd (payload 0)) cnt (Policy.clearCmdt payload)
          (p.modeIdx env (pdVdoVid (Policy.clearCmdt payload 0)))
  | .enterMode _ svid _ => p.enterFits env svid
  | .exitMode _ _ => true
  | .altMode _ => true
  | .getPinMode _ =>
      match p.modeIdx env usbSidDisplayport with
      | none => true
      | some i => (p.amodes i).opos ≠ 0

/-- The SVIDs that a call looks for. -/
def Call.lookups (env : AltModes ω) (p : Policy ω) : Call ω → List (BitVec 16)
  | .svdm _ _ payload =>
      let cmd := pdVdoCmd (payload 0)
      let svid := pdVdoVid (Policy.clearCmdt payload 0)
      if pdVdoCmdt (payload 0) = 0 then if cmd = cmdAttention then [svid] else []
      else if pdVdoCmdt (payload 0) = 1 then
        svid :: p.ackLookups cmd (Policy.clearCmdt payload) (p.modeIdx env svid)
      else []
  | .enterMode _ svid _ => [svid]
  | .exitMode svid _ => if svid = 0 then [] else [svid]
  | .altMode svid => [svid]
  | .getPinMode _ => [usbSidDisplayport]

/-- Every lookup of the call ends before an empty slot. -/
def Call.quiet (env : AltModes ω) (p : Policy ω) (call : Call ω) : Bool :=
  (call.lookups env p).all fun svid => p.lookupFilled env svid

theorem pdSvdm_keeps (h : Contained env p) (w : ω) {cnt : Nat} {payload : Payload}
    (hcnt : 1 ≤ cnt ∧ cnt ≤ 7) (hfits : (Call.svdm w cnt payload).fits env p = true) :
    Keeps env ((Call.svdm w cnt payload).quiet env p = true) p
      (p.pdSvdm env w cnt payload).2 := by
  unfold Policy.pdSvdm
  simp only [Call.quiet, Call.lookups, List.all_eq_true]
  by_cases hinit : pdVdoCmdt (payload 0) = 0
  · rw [if_pos hinit, if_pos hinit]
    apply Reads.keeps _ h
    apply (p.svdmInit_reads env w _ _).mono
    intro hquiet hattention
    rw [if_pos hattention] at hquiet
    exact hquiet _ (List.mem_singleton_self _)
  rw [if_neg hinit, if_neg hinit]
  by_cases hack : pdVdoCmdt (payload 0) = 1
  · rw [if_pos hack, if_pos hack]
    rw [Call.fits, hack] at hfits
    exact Policy.svdmAck_keeps h w hcnt (by simpa using hfits)
  rw [if_neg hack, if_neg hack]
  split
  · exact ⟨h, Grows.of_eq rfl⟩
  · exact ⟨h, Grows.of_eq rfl⟩

/-- **Step lemma.** -/
theorem Call.run_keeps (h : Contained env p) {call : Call ω} (hwf : call.wellFormed = true)
    (hfits : call.fits env p = true) :
    Keeps env (call.quiet env p = true) p (call.run env p) := by
  cases call with
  | svdm w cnt payload =>
      rw [Call.wellFormed, decide_eq_true_iff] at hwf
      exact pdSvdm_keeps h w hwf hfits
  | enterMode w svid opos =>
      have hkeeps := (Policy.pdDfpEnterMode_keeps h w opos hfits).1
      refine ⟨hkeeps.contained, hkeeps.grows.mono fun hquiet => ?_⟩
      simpa [Call.quiet, Call.lookups] using hquiet
  | exitMode svid opos =>
      have hkeeps := Policy.pdDfpExitMode_keeps h svid opos
      refine ⟨hkeeps.contained, hkeeps.grows.mono fun hquiet hne => ?_⟩
      rw [Call.quiet, Call.lookups, if_neg hne] at hquiet
      exact List.all_eq_true.mp hquiet svid (List.mem_singleton_self svid)
  | altMode svid =>
      apply Reads.keeps _ h
      apply (p.pdAltMode_reads env svid).mono
      intro hquiet
      simpa [Call.quiet, Call.lookups] using hquiet
  | getPinMode status =>
      have hopos : ∀ i, p.modeIdx env usbSidDisplayport = some i → (p.amodes i).opos ≠ 0 := by
        intro i hi
        rw [Call.fits, hi] at hfits
        simpa using hfits
      apply Reads.keeps _ h
      apply (Policy.pdDfpDpGetPinMode_reads h status hopos).mono
      intro hquiet
      simpa [Call.quiet, Call.lookups] using hquiet

/-- The policy after a call, as a step. -/
def altModeStep (env : AltModes ω) (p : Policy ω) (call : Call ω) : Option (Policy ω) :=
  some (call.run env p)

/-- **Alternate modes.**  In every run from `pd_dfp_pe_init` whose calls fit, the counters stay
in their range, the modes that are entered have different SVIDs and point to discovered ones, and
the only stray accesses are those of lookups that come to an empty slot; without such a lookup
there are none, which takes a run without lookups. -/
theorem altModes_contained (env : AltModes ω) {steps : List (Policy ω × Call ω)}
    (h : Trace (altModeStep env) (fun p call => call.wellFormed && call.fits env p) Policy.init
      steps p) :
    Contained env p ∧ (∀ f ∈ p.strays, f = Stray.nullFx) ∧
      ((∀ x ∈ steps, x.2.quiet env x.1 = true) → p.strays = []) := by
  induction h with
  | start => exact ⟨Policy.contained_pdDfpPeInit env Policy.init, by simp [Policy.init], fun _ => rfl⟩
  | next call _ hallowed hstep ih =>
      obtain ⟨hcontained, hnull, hquiet⟩ := ih
      obtain ⟨hwf, hfits⟩ := Bool.and_eq_true_iff.mp hallowed
      obtain rfl := Option.some.inj hstep
      obtain ⟨hnext, l, hstrays, hl, hnone⟩ := Call.run_keeps hcontained hwf hfits
      refine ⟨hnext, fun f hf => ?_, fun hall => ?_⟩
      · rw [hstrays] at hf
        rcases List.mem_append.mp hf with hf | hf
        · exact hl f hf
        · exact hnull f hf
      · rw [hstrays, hnone (hall _ List.mem_cons_self),
          hquiet fun x hx => hall x (List.mem_cons_of_mem _ hx)]
        rfl

/-- A lookup reads the first slot first. -/
theorem lookupFilled_of_empty (env : AltModes ω) (hempty : p.filled 0 = false)
    (svid : BitVec 16) : p.lookupFilled env svid = false := by
  rw [Policy.lookupFilled, hempty, Bool.false_and]

/-- Where the first slot is empty, only a call that looks for nothing is quiet. -/
theorem Call.quiet_of_empty (env : AltModes ω) (hempty : p.filled 0 = false) (call : Call ω) :
    call.quiet env p = true ↔ call.lookups env p = [] := by
  rw [Call.quiet, List.all_eq_true]
  constructor
  · intro hquiet
    refine List.eq_nil_iff_forall_not_mem.mpr fun svid hsvid => ?_
    have hfilled := hquiet svid hsvid
    rw [lookupFilled_of_empty env hempty] at hfilled
    cases hfilled
  · intro hnone svid hsvid
    rw [hnone] at hsvid
    cases hsvid

/-- Such a call enters no mode. -/
theorem Call.run_empty (hempty : p.filled 0 = false) {call : Call ω}
    (hnone : call.lookups env p = []) : (call.run env p).filled 0 = false := by
  cases call with
  | svdm w cnt payload =>
      dsimp only [Call.run, Policy.pdSvdm]
      rw [Call.lookups] at hnone
      split
      · rename_i hinit
        rw [if_pos hinit] at hnone
        by_cases hattention : pdVdoCmd (payload 0) = cmdAttention
        · rw [if_pos hattention] at hnone
          cases hnone
        · rw [Policy.svdmInit, if_neg hattention]
          exact hempty
      · rename_i hinit
        rw [if_neg hinit] at hnone
        split
        · rename_i hack
          rw [if_pos hack] at hnone
          cases hnone
        · split <;> exact hempty
  | exitMode svid opos =>
      rw [Call.lookups] at hnone
      split at hnone
      · rename_i hzero
        rw [Call.run, Policy.pdDfpExitMode, if_pos hzero]
        rfl
      · cases hnone
  | enterMode | altMode | getPinMode => cases hnone

/-- **Quiet runs.**  The first lookup after `pd_dfp_pe_init` reads through a null pointer: where
all lookups end before an empty slot there are none, and no mode is ever entered. -/
theorem quiet_run_lookups (env : AltModes ω) {steps : List (Policy ω × Call ω)}
    (h : Trace (altModeStep env) (fun p call => call.quiet env p) Policy.init steps p) :
    (∀ x ∈ steps, x.2.lookups env x.1 = []) ∧ p.filled 0 = false := by
  induction h with
  | start => exact ⟨by simp, rfl⟩
  | @next steps p p' call _ hallowed hstep ih =>
      obtain ⟨hnone, hempty⟩ := ih
      obtain rfl := Option.some.inj hstep
      have hcall := (Call.quiet_of_empty env hempty call).mp hallowed
      exact ⟨List.forall_mem_cons.mpr ⟨hcall, hnone⟩, Call.run_empty hempty hcall⟩

/-- A board with DisplayPort. -/
def displayportBoard : AltModes Unit where
  supportedModes := [⟨usbSidDisplayport, fun _ _ => 0, fun _ payload => (1, payload),
    fun _ payload => (2, payload), none⟩]
  svdmRsp := ⟨none, none, none, none, none, none, none⟩
  vdoVer := fun _ => 0
  fxAtZero := ⟨0x2000#16, fun _ _ => 0, fun _ payload => (1, payload),
    fun _ payload => (2, payload), none⟩
  svidDataAtZero := ⟨0, 0, fun _ => 0⟩

/-- A message with these words. -/
def Call.message (words : List (BitVec 32)) : Call Unit :=
  .svdm () words.length fun i => words.getD i 0

/-- An answer with an SVID and one with its modes, after which the mode is entered; and a run
without lookups, of a request for the identity and `pd_dfp_exit_mode` of all modes. -/
theorem altModes_contained_displayport :
    (∃ p : Policy Unit, p.amodeIdx = 1 ∧ Contained displayportBoard p ∧
      ∀ f ∈ p.strays, f = Stray.nullFx) ∧
    ∃ steps p, Trace (altModeStep displayportBoard)
        (fun p call => call.wellFormed && call.fits displayportBoard p) Policy.init steps p ∧
      steps.length = 2 ∧ p.strays = [] := by
  constructor
  · obtain ⟨steps, p, hrun, hidx⟩ : ∃ steps p, Trace (altModeStep displayportBoard)
        (fun p call => call.wellFormed && call.fits displayportBoard p) Policy.init steps p ∧
        p.amodeIdx = 1 :=
      Trace.exists_of_recordEvents
        [Call.message [0xff008042#32, 0xff010000#32], Call.message [0xff018043#32, 0x00000405#32]]
        (by decide)
    exact ⟨p, hidx, (altModes_contained displayportBoard hrun).1,
      (altModes_contained displayportBoard hrun).2.1⟩
  · have hrun : Trace (altModeStep displayportBoard)
        (fun p call => call.wellFormed && call.fits displayportBoard p) Policy.init _ _ :=
      (Trace.start.next (Call.message [0xff008001#32]) (by decide) rfl).next (.exitMode 0 0)
        (by decide) rfl
    refine ⟨_, _, hrun, rfl, (altModes_contained displayportBoard hrun).2.2 ?_⟩
    refine List.forall_mem_cons.mpr ⟨by decide, List.forall_mem_cons.mpr ⟨by decide, by simp⟩⟩

/-- A count of one SVID, and two answers with twelve of them: the count runs past the end of the
array, and so do the writes.  The lookups have read through null pointers from the start. -/
theorem altModes_overrun :
    ∃ steps p, Trace (altModeStep displayportBoard) (fun _ call => call.wellFormed) Policy.init
      steps p ∧ svidDiscoveryMax < p.svidCnt ∧ Stray.svids ∈ p.strays ∧
      Stray.nullFx ∈ p.strays :=
  Trace.exists_of_recordEvents
    [Call.message [0xff008042#32, 0x10010000#32],
      Call.message (0xff008042#32 :: List.replicate 6 0x10021003#32),
      Call.message (0xff008042#32 :: List.replicate 6 0x10021003#32)] (by decide)

end PdPolicy
end CrosEc
