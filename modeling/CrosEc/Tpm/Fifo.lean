import CrosEc.Tpm.Registers

/-!
# Reading the FIFO

The host reads what lies between the two indices.  A FIFO that overflows sets the index for writes
back and leaves the one for reads where it is: a host that has read some of its own command before
can read what lies behind the FIFO (`tpm_fifo_read_leaves_response`).  Otherwise it reads received
bytes, and after a completion the response (`tpm_fifo_reads_response`).
-/

namespace CrosEc
namespace Tpm

open Lib

variable {s s' : State} {regaddr : BitVec 32} {data : List UInt8}

/-- The FIFO overflows only while nothing has been read from it. -/
def overflowsUnread (s : State) : Event → Bool
  | .put regaddr data =>
      if s.tpm.resetInProgress = false ∧ regaddr = tpmDataFifo ∧ s.tpm.state = .receivingCmd ∧
          2048 < s.tpm.fifoWriteIndex.toNat + data.length then
        s.tpm.fifoReadIndex = 0#32
      else true
  | _ => true

/-- The indices are in order, and what the host has read since the response has been stored is the
first part of it. -/
structure FifoInv (s : State) : Prop where
  index_le : s.tpm.fifoReadIndex.toNat ≤ s.tpm.fifoWriteIndex.toNat
  response : s.tpm.state = .completingCmd → s.response = s.tpm.received
  readBack : s.tpm.state = .completingCmd →
    s.readBack = s.response.take s.tpm.fifoReadIndex.toNat

theorem init_fifoInv (fwVer : List UInt8) (mem : Nat → UInt8) (rollingReboot : Bool) :
    FifoInv (State.init fwVer mem rollingReboot) := by
  refine ⟨?_, ?_, ?_⟩
  · show (Device.resetNow rollingReboot _).fifoReadIndex.toNat ≤ _
    rw [Device.resetNow_fifoReadIndex]
    exact Nat.zero_le _
  all_goals
    intro (h : (Device.resetNow rollingReboot _).state = .completingCmd)
    rw [Device.resetNow_state] at h
    cases h

/-- Outside of `tpm_state_completing_cmd` only the indices matter. -/
theorem FifoInv.of_state
    (hindex : s.tpm.fifoReadIndex.toNat ≤ s.tpm.fifoWriteIndex.toNat)
    (hstate : s.tpm.state ≠ .completingCmd) : FifoInv s :=
  ⟨hindex, fun h => absurd h hstate, fun h => absurd h hstate⟩

/-- The host writes a register. -/
theorem FifoInv.put (h : FifoInv s) (hb : Bounds s) (hsize : data.length ≤ 64)
    (hallowed : overflowsUnread s (.put regaddr data) = true) : FifoInv (s.put regaddr data) := by
  rcases put_cases hb regaddr hsize with hsame | ⟨hreset, ⟨-, -, -, hput⟩ | ⟨tpm, heffect, -, hput⟩⟩
  · rwa [hsame]
  · rw [hput]
    exact .of_state h.index_le (by simp)
  · rw [hput]
    cases heffect with
    | other access sts fwVerIndex _ hretry _ =>
        refine ⟨h.index_le, h.response, ?_⟩
        intro hstate
        show (if retries regaddr data = true then [] else s.readBack) = _
        rw [hretry hstate]
        exact h.readBack hstate
    | ready sts _ => exact .of_state h.index_le (by simp)
    | abort access sts _ => exact .of_state (Nat.zero_le _) (by simp)
    | go _ _ _ => exact .of_state h.index_le (by simp)
    | retry hstate hretry =>
        refine ⟨Nat.zero_le _, h.response, ?_⟩
        intro _
        show (if retries regaddr data = true then [] else s.readBack) = _
        rw [hretry]
        rfl
    | overflow hstate hreg hover =>
        simp only [overflowsUnread, hreset, hreg, hstate, hover, and_self, if_true,
          decide_eq_true_eq] at hallowed
        refine .of_state ?_ (by simp)
        show s.tpm.fifoReadIndex.toNat ≤ _
        rw [hallowed]
        exact Nat.zero_le _
    | receive sts writeIndex _ _ hwrite _ =>
        refine .of_state ?_ (by simp)
        show s.tpm.fifoReadIndex.toNat ≤ writeIndex.toNat
        have hle := h.index_le
        omega

/-- The host reads a register. -/
theorem FifoInv.get (h : FifoInv s) (dataSize : BitVec 32) : FifoInv (s.get regaddr dataSize) := by
  have heffect := Device.registerGet_effect s.fwVer regaddr dataSize s.tpm
  unfold State.get
  generalize s.tpm.registerGet s.fwVer regaddr dataSize = result at heffect
  cases heffect with
  | other fwVerIndex dest hreg =>
      refine ⟨h.index_le, h.response, ?_⟩
      intro hstate
      show (if regaddr = tpmDataFifo then s.readBack ++ dest else s.readBack) = _
      rw [if_neg hreg]
      exact h.readBack hstate
  | fifo sts hreg _ =>
      have hle := h.index_le
      set n := cMin dataSize (s.tpm.fifoWriteIndex - s.tpm.fifoReadIndex) with hn
      -- Not more is read than there is.
      have hread : s.tpm.fifoReadIndex.toNat + n.toNat ≤ s.tpm.fifoWriteIndex.toNat := by
        rw [hn, toNat_cMin, BitVec.toNat_sub_of_le hle]
        omega
      have hindex : (s.tpm.fifoReadIndex + n).toNat = s.tpm.fifoReadIndex.toNat + n.toNat := by
        have hlt := s.tpm.fifoWriteIndex.isLt
        rw [BitVec.toNat_add, Nat.mod_eq_of_lt (by omega)]
      refine ⟨?_, h.response, ?_⟩
      · show (s.tpm.fifoReadIndex + n).toNat ≤ s.tpm.fifoWriteIndex.toNat
        rw [hindex]
        exact hread
      · intro hstate
        show (if regaddr = tpmDataFifo then _ else s.readBack) =
          s.response.take (s.tpm.fifoReadIndex + n).toNat
        rw [if_pos hreg, hindex, h.readBack hstate, h.response hstate, Device.received,
          take_load hle, take_load hread, load_add, Nat.zero_add]

/-- **Step lemma.** -/
theorem step_fifoInv (h : FifoInv s) (hb : Bounds s) {e : Event}
    (hallowed : overflowsUnread s e = true) (hstep : step s e = some s') : FifoInv s' := by
  cases e with
  | put regaddr data =>
      simp only [step] at hstep
      split_ifs at hstep with hsize
      exact Option.some.inj hstep ▸ h.put hb hsize.2 hallowed
  | get regaddr dataSize =>
      simp only [step] at hstep
      split_ifs at hstep
      exact Option.some.inj hstep ▸ h.get dataSize
  | resetRequest =>
      simp only [step] at hstep
      split_ifs at hstep
      · exact Option.some.inj hstep ▸ h
      · exact Option.some.inj hstep ▸ ⟨h.index_le, h.response, h.readBack⟩
  | take mismatched rollingReboot =>
      obtain ⟨-, rfl | ⟨-, rfl⟩⟩ := take_cases hstep
      · refine .of_state ?_ ?_
        · show (Device.resetNow rollingReboot _).fifoReadIndex.toNat ≤ _
          rw [Device.resetNow_fifoReadIndex]
          exact Nat.zero_le _
        · show (Device.resetNow rollingReboot _).state ≠ _
          rw [Device.resetNow_state]
          rintro ⟨⟩
      · exact ⟨h.index_le, h.response, h.readBack⟩
  | store outcome =>
      obtain ⟨command, taken, mem, size, htask, hrespond, ⟨hpos, hsize, rfl⟩ | ⟨hsize, rfl⟩⟩ :=
        store_cases hstep
      · obtain ⟨sts, heq⟩ := complete_eq s.tpm mem hpos hsize
        rw [heq]
        refine ⟨Nat.zero_le _, fun _ => ?_, fun _ => rfl⟩
        show load mem 0 size = load mem 0 (BitVec.ofNat 32 size).toNat
        rw [BitVec.toNat_ofNat, Nat.mod_eq_of_lt (by omega)]
      · -- Nothing is announced, and the FIFO is what it was.
        have hmem : mem = s.tpm.dataFifo :=
          respond_unannounced (fun p hp => hb.room p taken (hp ▸ htask)) hrespond hsize
        subst hmem
        exact ⟨h.index_le, h.response, h.readBack⟩

/-- **TPM FIFO reads stay inside the response**, in every interleaving in which the FIFO overflows
only while nothing has been read from it: the indices are in order, a read copies only bytes below
`fifo_write_index`, and what has been read after a completion, or after the last retry, is the
first part of the response. -/
theorem tpm_fifo_reads_response {fwVer : List UInt8} {mem : Nat → UInt8} {rollingReboot : Bool}
    (h : Reachable step overflowsUnread (State.init fwVer mem rollingReboot) s) :
    s.tpm.fifoReadIndex.toNat ≤ s.tpm.fifoWriteIndex.toNat ∧
      s.tpm.fifoWriteIndex.toNat ≤ sizeofDataFifo.toNat ∧
      (∀ dataSize, ∃ n, s.tpm.fifoReadIndex.toNat + n ≤ s.tpm.fifoWriteIndex.toNat ∧
        (s.tpm.fifoRegRead dataSize).2 = load s.tpm.dataFifo s.tpm.fifoReadIndex.toNat n) ∧
      (s.tpm.state = .completingCmd → s.response = s.tpm.received ∧
        s.readBack = s.response.take s.tpm.fifoReadIndex.toNat) := by
  obtain ⟨hb, hinv⟩ : Bounds s ∧ FifoInv s := by
    refine h.invariant (fun s => Bounds s ∧ FifoInv s)
      ⟨init_bounds _ _ _, init_fifoInv _ _ _⟩ ?_
    intro s e s' hs hallowed hstep
    exact ⟨step_bounds hs.1 hstep, step_fifoInv hs.2 hs.1 hallowed hstep⟩
  refine ⟨hinv.index_le, hb.index_le, ?_, fun hstate => ⟨hinv.response hstate, hinv.readBack hstate⟩⟩
  intro dataSize
  refine ⟨(cMin dataSize (s.tpm.fifoWriteIndex - s.tpm.fifoReadIndex)).toNat, ?_, rfl⟩
  have hle := hinv.index_le
  rw [toNat_cMin, BitVec.toNat_sub_of_le hle]
  omega

/-- A command of the TPM library is executed, and the host reads the first four bytes of the
response. -/
theorem tpm_fifo_reads_response_run :
    ∃ s, Reachable step overflowsUnread (State.init [] (fun _ => 0) false) s ∧
      s.tpm.state = .completingCmd ∧ s.readBack = s.response.take 4 := by
  obtain ⟨s, hs, hstate, hread⟩ : ∃ s,
      Reachable step overflowsUnread (State.init [] (fun _ => 0) false) s ∧
        s.tpm.state = .completingCmd ∧ s.tpm.fifoReadIndex.toNat = 4 :=
    Reachable.exists_of_runEvents
      [.put tpmSts [0x40], .put tpmDataFifo [0x80, 1, 0, 0, 0, 10, 0, 0, 1, 0x44],
        .put tpmSts [0x20], .take false false,
        .store (.executed [0x80, 1, 0, 0, 0, 10, 0, 0, 0, 0]), .get tpmDataFifo 4]
      (by decide +kernel)
  exact ⟨s, hs, hstate, hread ▸ ((tpm_fifo_reads_response hs).2.2.2 hstate).2⟩

/-- **A FIFO read leaves the response.** The host reads the first ten bytes of its own command, and
goes on to write until the FIFO overflows. -/
theorem tpm_fifo_read_leaves_response :
    ∃ s, Reachable step anyEvent (State.init [] (fun _ => 0) false) s ∧
      s.tpm.fifoWriteIndex.toNat = 0 ∧ s.tpm.fifoReadIndex.toNat = 10 ∧
      (s.tpm.fifoRegRead 64).2.length = 64 :=
  Reachable.exists_of_runEvents
    ([.put tpmSts [0x40], .put tpmDataFifo (List.replicate 10 0), .get tpmDataFifo 10] ++
      List.replicate 32 (.put tpmDataFifo (List.replicate 64 0)))
    (by decide +kernel)

end Tpm
end CrosEc
