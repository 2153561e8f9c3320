import CrosEc.Tpm.Model

/-!
# What one step does

Every result about the runs needs to know what one transfer of the host can do to the state
machine and to the FIFO.  This is said once: `registerPut_effect` for a write of any register,
`registerGet_effect` for a read.

`Bounds` is what holds in every interleaving: the received bytes fit in the FIFO, and a handler is
given no more room for its answer than there is behind the header.  So a response is always
announced to the host where the FIFO has been written (`respond_unannounced`).
-/

namespace CrosEc
namespace Tpm

open Lib

variable {r r' : Device} {regaddr : BitVec 32} {data : List UInt8}

/-- The bit that says that more data is needed. -/
theorem expect_clear_iff (sts : BitVec 32) : sts &&& expect = 0#32 ↔ sts.getLsbD 3 = false := by
  have htwo : expect = BitVec.twoPow 32 3 := by decide
  rw [htwo, BitVec.and_twoPow]
  cases sts.getLsbD 3 <;> decide

namespace Device

/-- The header has been received, and as many bytes as it says. -/
def Complete (r : Device) : Prop := 6 ≤ r.fifoWriteIndex ∧ r.packetSize ≤ r.fifoWriteIndex

/-- What the write of a register can do. -/
inductive PutEffect (regaddr : BitVec 32) (data : List UInt8) (r : Device) : Device → Prop
  /-- the state machine and the FIFO stay as they are -/
  | other (access : UInt8) (sts : BitVec 32) (fwVerIndex : Nat)
      (hsts : r.state = .receivingCmd → sts = r.sts)
      (hretry : r.state = .completingCmd → retries regaddr data = false)
      (habort : aborts regaddr data = true → r.state = .ready) :
      PutEffect regaddr data r { r with access := access, sts := sts, fwVerIndex := fwVerIndex }
  | ready (sts : BitVec 32) (hstate : r.state = .idle) :
      PutEffect regaddr data r { r with state := .ready, sts := sts }
  | abort (access : UInt8) (sts : BitVec 32) (habort : aborts regaddr data = true) :
      PutEffect regaddr data r { r with
        state := .idle, fifoReadIndex := 0, fifoWriteIndex := 0, access := access, sts := sts }
  | go (hstate : r.state = .receivingCmd) (hreg : regaddr = tpmSts) (hvalue : stsValue data = tpmGo) :
      PutEffect regaddr data r { r with state := .executingCmd, wakeEvent := true }
  | retry (hstate : r.state = .completingCmd) (hretry : retries regaddr data = true) :
      PutEffect regaddr data r { r with fifoReadIndex := 0 }
  | overflow (hstate : r.state = .receivingCmd) (hreg : regaddr = tpmDataFifo)
      (hover : 2048 < r.fifoWriteIndex.toNat + data.length) :
      PutEffect regaddr data r { r with state := .ready, fifoWriteIndex := 0 }
  | receive (sts : BitVec 32) (writeIndex : BitVec 32)
      (hstate : r.state = .receivingCmd ∨ r.state = .ready ∧ r.fifoWriteIndex = 0#32)
      (hfits : r.fifoWriteIndex.toNat + data.length ≤ 2048)
      (hindex : writeIndex.toNat = r.fifoWriteIndex.toNat + data.length)
      (hexpect : sts.getLsbD 3 = false →
        Complete { r with
          dataFifo := store r.dataFifo r.fifoWriteIndex.toNat data
          fifoWriteIndex := writeIndex }) :
      PutEffect regaddr data r { r with
        state := .receivingCmd
        dataFifo := store r.dataFifo r.fifoWriteIndex.toNat data
        fifoWriteIndex := writeIndex
        sts := sts }

/-- Nothing happens. -/
theorem PutEffect.nothing (hretry : r.state = .completingCmd → retries regaddr data = false)
    (habort : aborts regaddr data = true → r.state = .ready) : PutEffect regaddr data r r :=
  .other r.access r.sts r.fwVerIndex (fun _ => rfl) hretry habort

theorem accessRegWrite_effect (hreg : regaddr = tpmAccess) :
    PutEffect regaddr data r (r.accessRegWrite (data.headD 0)) := by
  subst hreg
  have hretry : retries tpmAccess data = false := by
    simp [retries, tpmAccess, tpmSts]
  have habort : data.headD 0 ≠ activeLocality → aborts tpmAccess data = true → r.state = .ready := by
    intro hne h
    simp [aborts, tpmAccess, tpmSts] at h
    exact absurd (by simpa using h) hne
  unfold accessRegWrite
  split_ifs with hbit huse hlocality
  · refine .nothing (fun _ => hretry) (habort ?_)
    intro heq
    rw [heq] at hbit
    exact absurd hbit (by decide)
  · refine .other _ _ _ (fun _ => rfl) (fun _ => hretry) (habort ?_)
    rw [huse]
    decide
  · refine .abort _ _ ?_
    simpa [aborts, tpmAccess, tpmSts] using hlocality
  · exact .nothing (fun _ => hretry) (habort hlocality)

theorem stsRegWrite_effect (hreg : regaddr = tpmSts) :
    PutEffect regaddr data r (r.stsRegWrite data) := by
  subst hreg
  have hretries : retries tpmSts data = true ↔ stsValue data = responseRetry := by
    simp [retries]
  have haborts : aborts tpmSts data = true ↔ stsValue data = commandReady := by
    simp [aborts, tpmAccess, tpmSts]
  -- A value with another meaning, or none.
  have hnothing : stsValue data ≠ commandReady → (r.state = .completingCmd →
      stsValue data ≠ responseRetry) → PutEffect tpmSts data r r := by
    intro hready hretry
    refine .nothing ?_ ?_
    · intro hstate
      rw [Bool.eq_false_iff, Ne, hretries]
      exact hretry hstate
    · intro h
      exact absurd (haborts.mp h) hready
  simp only [stsRegWrite]
  split_ifs with hbit hready hgo hretry
  · refine hnothing ?_ fun _ => ?_
    all_goals
      intro heq
      rw [heq] at hbit
      exact absurd hbit (by decide)
  · cases hstate : r.state with
    | idle =>
        rw [stsRegWriteCr, hstate]
        exact .ready _ hstate
    | ready =>
        have heq : r.stsRegWriteCr = { r with sts := r.sts ||| commandReady } := by
          simp only [stsRegWriteCr, hstate]
        rw [heq]
        refine .other _ _ _ ?_ ?_ fun _ => hstate
        all_goals
          rw [hstate]
          rintro ⟨⟩
    | receivingCmd | executingCmd | completingCmd =>
        rw [stsRegWriteCr, hstate]
        exact .abort _ _ (haborts.mpr hready)
  · have hneReady : stsValue data ≠ commandReady := hready
    have hneRetry : stsValue data ≠ responseRetry := by
      rw [hgo]
      decide
    cases hstate : r.state with
    | receivingCmd =>
        rw [stsRegWriteTg, hstate]
        simp only [show TpmState.receivingCmd.code &&& expect = 0#32 by decide, if_true]
        exact .go hstate rfl hgo
    | idle | ready | executingCmd | completingCmd =>
        rw [stsRegWriteTg, hstate]
        exact hnothing hneReady fun _ => hneRetry
  · cases hstate : r.state with
    | completingCmd =>
        have heq : r.stsRegWriteRr = { r with fifoReadIndex := 0 } := by
          simp only [stsRegWriteRr, hstate]
        rw [heq]
        exact .retry hstate (hretries.mpr hretry)
    | idle | ready | receivingCmd | executingCmd =>
        rw [stsRegWriteRr, hstate]
        refine hnothing hready ?_
        rw [hstate]
        rintro ⟨⟩
  · exact hnothing hready fun _ => hretry

/-- The data are dropped, or appended to what has been received. -/
theorem fifoRegWrite_effect (hreg : regaddr = tpmDataFifo) (hindex : r.fifoWriteIndex.toNat ≤ 2048)
    (hsize : data.length ≤ 64) : PutEffect regaddr data r (r.fifoRegWrite data) := by
  subst hreg
  have hnothing : PutEffect tpmDataFifo data r r :=
    .nothing (fun _ => by simp [retries, tpmDataFifo, tpmSts])
      (fun h => by simp [aborts, tpmDataFifo, tpmSts, tpmAccess] at h)
  have hsum : (r.fifoWriteIndex + BitVec.ofNat 32 data.length).toNat =
      r.fifoWriteIndex.toNat + data.length := by
    rw [BitVec.toNat_add, BitVec.toNat_ofNat]
    omega
  have hover : (r.fifoWriteIndex + BitVec.ofNat 32 data.length > sizeofDataFifo) ↔
      2048 < r.fifoWriteIndex.toNat + data.length := by
    rw [gt_iff_lt, BitVec.lt_def, hsum]
    rfl
  by_cases hreceiving : r.state = .receivingCmd ∨ r.state = .ready ∧ r.fifoWriteIndex = 0#32
  · -- The state is now `tpm_state_receiving_cmd`, and nothing else has changed.
    have hset : (if r.state = .ready ∧ r.fifoWriteIndex = 0#32 then r.setTpmState .receivingCmd else r) =
        { r with state := .receivingCmd } := by
      rcases hreceiving with hstate | hready
      · rw [if_neg (by rw [hstate]; rintro ⟨⟨⟩, -⟩), ← hstate]
      · rw [if_pos hready]
        rfl
    simp only [fifoRegWrite, hset, ne_eq, not_true_eq_false, if_false]
    by_cases hfull : 2048 < r.fifoWriteIndex.toNat + data.length
    · rw [if_pos (hover.mpr hfull)]
      refine .overflow (hreceiving.resolve_right ?_) rfl hfull
      rintro ⟨-, hzero⟩
      rw [hzero] at hfull
      simp only [BitVec.toNat_ofNat] at hfull
      omega
    · rw [if_neg (hover.not.mpr hfull)]
      split_ifs with hheader hpacket
      · refine .receive _ _ hreceiving (not_lt.mp hfull) hsum ?_
        intro hclear
        simp [expect] at hclear
      · refine .receive _ _ hreceiving (not_lt.mp hfull) hsum ?_
        intro hclear
        simp [expect] at hclear
      · exact .receive _ _ hreceiving (not_lt.mp hfull) hsum
          fun _ => ⟨BitVec.not_lt.mp hheader, BitVec.not_lt.mp hpacket⟩
  · have hready : ¬ (r.state = .ready ∧ r.fifoWriteIndex = 0#32) := fun h => hreceiving (Or.inr h)
    have hstate : r.state ≠ .receivingCmd := fun h => hreceiving (Or.inl h)
    simp only [fifoRegWrite, if_neg hready, if_pos hstate]
    exact hnothing

theorem registerPut_effect (regaddr : BitVec 32) (hreset : r.resetInProgress = false)
    (hindex : r.fifoWriteIndex.toNat ≤ 2048) (hsize : data.length ≤ 64) :
    PutEffect regaddr data r (r.registerPut regaddr data) := by
  have hcond : ¬ (r.resetInProgress = true) := by
    rw [hreset]
    exact Bool.false_ne_true
  rw [registerPut, if_neg hcond]
  split_ifs with haccess hsts hfifo hver
  · exact accessRegWrite_effect haccess
  · exact stsRegWrite_effect hsts
  · exact fifoRegWrite_effect hfifo hindex hsize
  · refine .other _ _ _ (fun _ => rfl) (fun _ => ?_) ?_
    · simp [retries, hsts]
    · intro h
      simp [aborts, hsts, haccess] at h
  · refine .nothing (fun _ => ?_) ?_
    · simp [retries, hsts]
    · intro h
      simp [aborts, hsts, haccess] at h

theorem registerPut_resetInProgress (hreset : r.resetInProgress = true) :
    r.registerPut regaddr data = r := by
  rw [registerPut, if_pos hreset]

/-- What the read of a register can do: only the FIFO is moved, by what is read from it. -/
inductive GetEffect (regaddr dataSize : BitVec 32) (r : Device) : Device × List UInt8 → Prop
  | other (fwVerIndex : Nat) (dest : List UInt8) (hreg : regaddr ≠ tpmDataFifo) :
      GetEffect regaddr dataSize r ({ r with fwVerIndex := fwVerIndex }, dest)
  | fifo (sts : BitVec 32) (hreg : regaddr = tpmDataFifo) (hsts : sts.getLsbD 3 = r.sts.getLsbD 3) :
      GetEffect regaddr dataSize r
        ({ r with
          fifoReadIndex := r.fifoReadIndex + cMin dataSize (r.fifoWriteIndex - r.fifoReadIndex)
          sts := sts },
        load r.dataFifo r.fifoReadIndex.toNat
          (cMin dataSize (r.fifoWriteIndex - r.fifoReadIndex)).toNat)

theorem registerGet_effect (fwVer : List UInt8) (regaddr dataSize : BitVec 32) (r : Device) :
    GetEffect regaddr dataSize r (r.registerGet fwVer regaddr dataSize) := by
  unfold registerGet
  split_ifs with h₁ h₂ h₃ h₄ h₅ h₆ h₇
  · exact .other r.fwVerIndex _ (by rw [h₁]; decide)
  · exact .other r.fwVerIndex _ (by rw [h₂]; decide)
  · exact .other r.fwVerIndex _ (by rw [h₃]; decide)
  · exact .other r.fwVerIndex _ (by rw [h₄]; decide)
  · exact .other r.fwVerIndex _ (by rw [h₅]; decide)
  · refine .fifo _ h₆ ?_
    split <;> simp [burstCountMask, burstCountShift, dataAvail, commandReady]
  · exact .other _ _ h₆
  · exact .other r.fwVerIndex _ h₆

@[simp] theorem resetNow_state (rollingReboot : Bool) : (r.resetNow rollingReboot).state = .idle := by
  cases rollingReboot <;> rfl

@[simp] theorem resetNow_fifoReadIndex (rollingReboot : Bool) :
    (r.resetNow rollingReboot).fifoReadIndex = 0 := by
  cases rollingReboot <;> rfl

@[simp] theorem resetNow_fifoWriteIndex (rollingReboot : Bool) :
    (r.resetNow rollingReboot).fifoWriteIndex = 0 := by
  cases rollingReboot <;> rfl

@[simp] theorem resetNow_wakeEvent (rollingReboot : Bool) :
    (r.resetNow rollingReboot).wakeEvent = r.wakeEvent := by
  cases rollingReboot <;> rfl

end Device

/-! ## The steps -/

variable {s s' : State}

theorem aborts_of_retries (h : retries regaddr data = true) : aborts regaddr data = false := by
  simp only [retries, Bool.decide_and, Bool.and_eq_true, decide_eq_true_eq] at h
  obtain ⟨rfl, hvalue⟩ := h
  simp [aborts, hvalue, tpmSts, tpmAccess, responseRetry, commandReady]

/-- What holds in every interleaving. -/
structure Bounds (s : State) : Prop where
  index_le : s.tpm.fifoWriteIndex.toNat ≤ 2048
  room : ∀ p taken, s.task = .running (.vendor p) taken → p.outSize.toNat + 12 ≤ 2048

theorem init_bounds (fwVer : List UInt8) (mem : Nat → UInt8) (rollingReboot : Bool) :
    Bounds (State.init fwVer mem rollingReboot) where
  index_le := by
    show (Device.resetNow rollingReboot _).fifoWriteIndex.toNat ≤ 2048
    rw [Device.resetNow_fifoWriteIndex]
    decide
  room := by
    rintro p taken ⟨⟩

/-- What the write of a register does: nothing while a reset is in progress; else `tpm_go` is
accepted, or it is any other write. -/
theorem put_cases (hb : Bounds s) (regaddr : BitVec 32) (hsize : data.length ≤ 64) :
    s.put regaddr data = s ∨ s.tpm.resetInProgress = false ∧
      ((s.tpm.state = .receivingCmd ∧ regaddr = tpmSts ∧ Device.stsValue data = tpmGo ∧
          s.put regaddr data = { s with
            tpm := { s.tpm with state := .executingCmd, wakeEvent := true }
            goCount := s.goCount + 1
            current := some ⟨s.goCount + 1, s.tpm.received⟩ }) ∨
        ∃ tpm, Device.PutEffect regaddr data s.tpm tpm ∧
          (tpm.state = .executingCmd → s.tpm.state = .executingCmd) ∧
          s.put regaddr data = { s with
            tpm := tpm
            current := if aborts regaddr data then none else s.current
            readBack := if retries regaddr data then [] else s.readBack }) := by
  cases hreset : s.tpm.resetInProgress with
  | true =>
      have hcond : ¬ (s.tpm.state ≠ .executingCmd ∧ s.tpm.state = .executingCmd) := fun h => h.1 h.2
      left
      simp [State.put, Device.registerPut_resetInProgress hreset, hcond, hreset]
  | false =>
      right
      refine ⟨rfl, ?_⟩
      have heffect := Device.registerPut_effect regaddr hreset hb.index_le hsize
      by_cases hgo : s.tpm.state ≠ .executingCmd ∧
          (s.tpm.registerPut regaddr data).state = .executingCmd
      · have hput : s.put regaddr data = { s with
            tpm := s.tpm.registerPut regaddr data
            goCount := s.goCount + 1
            current := some ⟨s.goCount + 1, (s.tpm.registerPut regaddr data).received⟩ } := by
          rw [State.put, if_pos hgo]
        left
        rw [hput]
        generalize s.tpm.registerPut regaddr data = tpm at heffect hgo
        cases heffect with
        | go hstate hreg hvalue => exact ⟨hstate, hreg, hvalue, rfl⟩
        | other _ _ _ _ _ _ | retry _ _ => exact absurd hgo.2 hgo.1
        | ready _ _ | abort _ _ _ | overflow _ _ _ | receive _ _ _ _ _ _ => cases hgo.2
      · refine Or.inr ⟨_, heffect, ?_, ?_⟩
        · intro hafter
          by_contra hbefore
          exact hgo ⟨hbefore, hafter⟩
        · simp only [State.put, if_neg hgo, hreset, and_true]

/-- The task has taken a vendor command. -/
theorem takeCommand_vendor {mismatched : Bool} {mem : Nat → UInt8} {p : VendorCmdParams}
    (h : takeCommand mismatched mem = .vendor p) :
    p.outSize = 2036 ∧ p.inSize.toNat + 12 = (Device.be32 mem 2).toNat := by
  unfold takeCommand at h
  split at h
  · unfold callExtensionCommand at h
    dsimp only at h
    split at h
    case isTrue hsize =>
      cases h
      refine ⟨rfl, ?_⟩
      have hle : sizeofCmdHeader.toNat ≤ (Device.be32 mem 2).toNat := hsize
      show (Device.be32 mem 2 - sizeofCmdHeader).toNat + 12 = _
      rw [BitVec.toNat_sub_of_le hsize]
      have hheader : sizeofCmdHeader.toNat = 12 := rfl
      omega
    case isFalse => cases h
  · split at h <;> cases h

/-- The answer of a handler that stays inside its buffer is as long as it says, with the header. -/
theorem respond_vendor {mem mem' : Nat → UInt8} {p : VendorCmdParams} {rc : BitVec 32}
    {buffer : List UInt8} {outSize size : Nat}
    (h : respond mem (.vendor p) (.handled rc buffer outSize) = some (mem', size)) :
    outSize ≤ p.outSize.toNat ∧ size = outSize + 12 := by
  have heq : respond mem (.vendor p) (.handled rc buffer outSize) =
      if buffer.length ≤ p.outSize.toNat ∧ outSize ≤ p.outSize.toNat then
        some (store (store (store mem sizeofCmdHeader.toNat buffer) 2
            (Device.be32Bytes (BitVec.ofNat 32 (outSize + sizeofCmdHeader.toNat)))) 6
            (Device.be32Bytes (if rc ≠ 0 then rc ||| vendorRcErr else rc)),
          outSize + sizeofCmdHeader.toNat)
      else none := rfl
  rw [heq, Option.ite_none_right_eq_some] at h
  obtain ⟨hfits, h⟩ := h
  exact ⟨hfits.2, (Prod.mk.inj (Option.some.inj h)).2.symm⟩

/-- Where nothing is announced, the FIFO has not been written. -/
theorem respond_unannounced {mem mem' : Nat → UInt8} {command : Command} {outcome : Outcome}
    {size : Nat} (hroom : ∀ p, command = .vendor p → p.outSize.toNat + 12 ≤ 2048)
    (h : respond mem command outcome = some (mem', size))
    (hsize : ¬ (size ≠ 0 ∧ size ≤ sizeofDataFifo.toNat)) : mem' = mem := by
  have hfifo : sizeofDataFifo.toNat = 2048 := rfl
  cases command with
  | vendor p =>
      cases outcome with
      | handled rc buffer outSize =>
          obtain ⟨hfits, rfl⟩ := respond_vendor h
          have hp := hroom p rfl
          exact absurd ⟨by omega, by omega⟩ hsize
      | executed response => cases h
  | short commandSize =>
      cases h
      rfl
  | mismatched =>
      cases h
      exact absurd (by decide) hsize
  | library =>
      cases outcome with
      | handled rc buffer outSize => cases h
      | executed response =>
          cases h
          split
          case isTrue hle =>
            have hnil : response = [] := by
              by_contra hne
              exact hsize ⟨fun hzero => hne (List.length_eq_zero_iff.mp hzero), hle⟩
            subst hnil
            funext i
            exact store_of_ge (Nat.zero_le i)
          case isFalse => rfl

/-- What the task stores. -/
theorem store_cases {outcome : Outcome} (hstep : s.store outcome = some s') :
    ∃ command taken mem size, s.task = .running command taken ∧
      respond s.tpm.dataFifo command outcome = some (mem, size) ∧
      ((size ≠ 0 ∧ size ≤ 2048 ∧
          s' = { s with
            tpm := s.tpm.complete mem size
            task := .waiting
            answered := some taken
            response := load mem 0 size
            readBack := [] }) ∨
        (¬ (size ≠ 0 ∧ size ≤ sizeofDataFifo.toNat) ∧
          s' = { s with tpm := { s.tpm with dataFifo := mem }, task := .waiting })) := by
  unfold State.store at hstep
  cases htask : s.task with
  | waiting =>
      rw [htask] at hstep
      cases hstep
  | running command taken =>
      rw [htask] at hstep
      simp only [Option.map_eq_some_iff, Prod.exists] at hstep
      obtain ⟨mem, size, hrespond, hs'⟩ := hstep
      refine ⟨command, taken, mem, size, rfl, hrespond, ?_⟩
      by_cases hsize : size ≠ 0 ∧ size ≤ sizeofDataFifo.toNat
      · rw [if_pos hsize] at hs'
        exact Or.inl ⟨hsize.1, hsize.2, hs'.symm⟩
      · rw [if_neg hsize, Device.complete, if_neg hsize] at hs'
        exact Or.inr ⟨hsize, hs'.symm⟩

/-- What the task takes: a reset, or a command. -/
theorem take_cases {mismatched rollingReboot : Bool}
    (hstep : s.take mismatched rollingReboot = some s') :
    s.task = .waiting ∧
      (s' = { s with
          tpm := Device.resetNow rollingReboot { s.tpm with wakeEvent := false, resetEvent := false }
          current := none } ∨
        s.tpm.wakeEvent = true ∧
          s' = { s with
            tpm := { s.tpm with wakeEvent := false }
            task := .running (takeCommand mismatched s.tpm.dataFifo)
              ⟨s.goCount, s.tpm.received⟩ }) := by
  unfold State.take at hstep
  cases htask : s.task with
  | waiting =>
      rw [htask] at hstep
      simp only at hstep
      split_ifs at hstep with hreset hwake
      · exact ⟨rfl, Or.inl (Option.some.inj hstep).symm⟩
      · exact ⟨rfl, Or.inr ⟨hwake, (Option.some.inj hstep).symm⟩⟩
  | running command taken =>
      rw [htask] at hstep
      cases hstep

theorem complete_eq (r : Device) (mem : Nat → UInt8) {size : Nat} (hpos : size ≠ 0) (hsize : size ≤ 2048) :
    ∃ sts, r.complete mem size = { r with
      state := .completingCmd
      fifoReadIndex := 0
      fifoWriteIndex := BitVec.ofNat 32 size
      sts := sts
      dataFifo := mem } := by
  rw [Device.complete, if_pos ⟨hpos, hsize⟩]
  exact ⟨_, rfl⟩

/-- Whatever the write of a register does, the received bytes fit. -/
theorem PutEffect.index_le {r' : Device} (h : Device.PutEffect regaddr data r r')
    (hindex : r.fifoWriteIndex.toNat ≤ 2048) : r'.fifoWriteIndex.toNat ≤ 2048 := by
  cases h with
  | abort access sts _ | overflow _ _ _ => exact Nat.zero_le _
  | receive sts writeIndex _ hfits hwrite _ => exact hwrite ▸ hfits
  | _ => exact hindex

theorem step_bounds (h : Bounds s) {e : Event} (hstep : step s e = some s') : Bounds s' := by
  cases e with
  | put regaddr data =>
      simp only [step] at hstep
      split_ifs at hstep with hsize
      cases hstep
      rcases put_cases h regaddr hsize.2 with hsame | ⟨-, ⟨-, -, -, hput⟩ | ⟨tpm, heffect, -, hput⟩⟩
      · rw [hsame]
        exact h
      · rw [hput]
        exact ⟨h.index_le, h.room⟩
      · rw [hput]
        exact ⟨PutEffect.index_le heffect h.index_le, h.room⟩
  | get regaddr dataSize =>
      simp only [step] at hstep
      split_ifs at hstep
      cases hstep
      refine ⟨?_, h.room⟩
      have hget := Device.registerGet_effect s.fwVer regaddr dataSize s.tpm
      show (s.tpm.registerGet s.fwVer regaddr dataSize).1.fifoWriteIndex.toNat ≤ 2048
      generalize s.tpm.registerGet s.fwVer regaddr dataSize = result at hget
      cases hget with
      | other _ _ _ => exact h.index_le
      | fifo _ _ _ => exact h.index_le
  | resetRequest =>
      simp only [step] at hstep
      split_ifs at hstep
      · exact Option.some.inj hstep ▸ h
      · exact Option.some.inj hstep ▸ ⟨h.index_le, h.room⟩
  | take mismatched rollingReboot =>
      obtain ⟨htask, rfl | ⟨-, rfl⟩⟩ := take_cases hstep
      · refine ⟨?_, h.room⟩
        show (Device.resetNow rollingReboot _).fifoWriteIndex.toNat ≤ 2048
        rw [Device.resetNow_fifoWriteIndex]
        decide
      · refine ⟨h.index_le, ?_⟩
        rintro p taken hp
        simp only [Task.running.injEq] at hp
        rw [(takeCommand_vendor hp.1).1]
        decide
  | store outcome =>
      obtain ⟨command, taken, mem, size, -, -, ⟨hpos, hsize, rfl⟩ | ⟨-, rfl⟩⟩ := store_cases hstep
      · refine ⟨?_, by rintro p taken ⟨⟩⟩
        obtain ⟨sts, heq⟩ := complete_eq s.tpm mem hpos hsize
        show (s.tpm.complete mem size).fifoWriteIndex.toNat ≤ 2048
        rw [heq, BitVec.toNat_ofNat]
        omega
      · exact ⟨h.index_le, by rintro p taken ⟨⟩⟩

end Tpm
end CrosEc
