import CrosEc.FwUpdate.Headers

/-!
# What a refused block does to flash

`fw_upgrade_command_handler` checks a block in turn, and the check that the block fits into a section
is the one that erases the section for its first block.  The rate limit is checked after it.
-/

namespace CrosEc
namespace FwUpdate
namespace Chip

open Lib

/-- The codes that refuse a block -/
def refusedCodes : List UInt8 :=
  [updateGenError, updateDataError, upgradeUnalignedBlockError, upgradeTruncatedHeaderError,
    updateRollbackError, upgradeBoardIdError, updateBadAddr, updateRateLimitError]

def Response.Refused : Response → Prop
  | .startup pdu => pdu.returnValue ∈ refusedCodes.map UInt8.toUInt32
  | .code c => c ∈ refusedCodes

section Refused

variable {d : Device} {s : State} {p : Pdu} {offset size : UInt32}

/-- The block is in the section, and at its start. -/
def FirstOf (base top offset size : UInt32) : Prop :=
  top ≠ 0 ∧ base = offset ∧ offset + size ≤ top

/-- The block is the first one of the section that `check_update_chunk` takes it for. -/
def FirstOfSection (s : State) (offset size : UInt32) : Prop :=
  FirstOf s.rwBaseOffset s.rwTopOffset offset size ∨
    ¬(s.rwTopOffset ≠ 0 ∧ s.rwBaseOffset ≤ offset ∧ offset + size ≤ s.rwTopOffset) ∧
      FirstOf s.roBaseOffset s.roTopOffset offset size

/-- The first block of a section erases it; any other block leaves flash as it is. -/
theorem checkUpdateChunk_erases (o : FlashOutcome) (s : State) (offset size : UInt32) :
    (FirstOfSection s offset size ∧ ∃ erase flash,
        checkUpdateChunk o offset size s =
          (if o.eraseOk then updateSuccess else updateEraseFailure, [erase],
            { s with flash := flash })) ∨
      ¬FirstOfSection s offset size ∧ ∃ code, checkUpdateChunk o offset size s = (code, [], s) := by
  unfold checkUpdateChunk FirstOfSection FirstOf
  by_cases hrw : s.rwTopOffset ≠ 0 ∧ s.rwBaseOffset ≤ offset ∧ offset + size ≤ s.rwTopOffset
  · rw [if_pos hrw, eraseSection]
    by_cases hfirst : offset = s.rwBaseOffset
    · rw [if_pos hfirst]
      exact Or.inl ⟨Or.inl ⟨hrw.1, hfirst.symm, hrw.2.2⟩, _, _, rfl⟩
    · rw [if_neg hfirst]
      refine Or.inr ⟨?_, _, rfl⟩
      rintro (⟨-, heq, -⟩ | ⟨hnot, -⟩)
      · exact hfirst heq.symm
      · exact hnot hrw
  · rw [if_neg hrw]
    have hnotRw : ¬(s.rwTopOffset ≠ 0 ∧ s.rwBaseOffset = offset ∧
        offset + size ≤ s.rwTopOffset) := by
      rintro ⟨htop, heq, hend⟩
      exact hrw ⟨htop, heq ▸ UInt32.le_refl _, hend⟩
    by_cases hro : s.roTopOffset ≠ 0 ∧ s.roBaseOffset ≤ offset ∧ offset + size ≤ s.roTopOffset
    · rw [if_pos hro, eraseSection]
      by_cases hfirst : offset = s.roBaseOffset
      · rw [if_pos hfirst]
        exact Or.inl ⟨Or.inr ⟨hrw, hro.1, hfirst.symm, hro.2.2⟩, _, _, rfl⟩
      · rw [if_neg hfirst]
        refine Or.inr ⟨?_, _, rfl⟩
        rintro (hrw' | ⟨-, -, heq, -⟩)
        · exact hnotRw hrw'
        · exact hfirst heq.symm
    · rw [if_neg hro]
      refine Or.inr ⟨?_, _, rfl⟩
      rintro (hrw' | ⟨-, htop, heq, hend⟩)
      · exact hnotRw hrw'
      · exact hro ⟨htop, heq ▸ UInt32.le_refl _, hend⟩

theorem ops_of_checkUpdateChunk_refused {o : FlashOutcome}
    (h : (checkUpdateChunk o offset size s).1 ∈ refusedCodes) :
    (checkUpdateChunk o offset size s).2.1 = [] := by
  obtain ⟨-, erase, flash, heq⟩ | ⟨-, code, heq⟩ := checkUpdateChunk_erases o s offset size
  · rw [heq] at h
    by_cases herase : o.eraseOk = true
    · rw [if_pos herase] at h
      exact absurd h (by decide : updateSuccess ∉ refusedCodes)
    · rw [if_neg herase] at h
      exact absurd h (by decide : updateEraseFailure ∉ refusedCodes)
  · rw [heq]

/-- A block that passes every check but the last, when the section is erased already -/
structure RefusedLate (d : Device) (s : State) (p : Pdu) : Prop where
  whole : commandSize ≤ p.body.length
  block : ¬IsStart p.body
  valid : pduValid d p.body = true
  allowed : contentsAllowed d (blockBase p.body) (bodySize p.body) (updateData p.body) s = none
  first : FirstOfSection s (blockBase p.body) (bodySize p.body)
  erased : p.outcome.eraseOk = true
  tooSoon : chunkCameTooSoon d p.now (blockBase p.body) s = true

theorem RefusedLate.outcome (h : RefusedLate d s p) :
    (commandHandler d s p).response = .code updateRateLimitError ∧
      (commandHandler d s p).ops ≠ [] := by
  obtain ⟨-, erase, flash, hchecked⟩ | ⟨hnot, -⟩ :=
    checkUpdateChunk_erases p.outcome s (blockBase p.body) (bodySize p.body)
  · have htooSoon : chunkCameTooSoon d p.now (blockBase p.body) { s with flash := flash } = true :=
      h.tooSoon
    rw [h.erased, if_pos rfl] at hchecked
    unfold commandHandler
    dsimp only
    rw [if_neg (Nat.not_lt.mpr h.whole), if_neg h.block, if_neg (by rw [h.valid]; decide), h.allowed]
    dsimp only
    rw [hchecked, if_neg (not_not.mpr rfl), if_pos htooSoon]
    exact ⟨rfl, List.cons_ne_nil _ _⟩
  · exact absurd h.first hnot

theorem RefusedLate.not_leaves (h : RefusedLate d s p) :
    ¬((commandHandler d s p).response.Refused → (commandHandler d s p).ops = []) := by
  intro hleaves
  refine h.outcome.2 (hleaves ?_)
  rw [h.outcome.1]
  exact (by decide : updateRateLimitError ∈ refusedCodes)

/-- Every other refusal comes before any erase. -/
theorem ops_of_refused (hlate : ¬RefusedLate d s p) (h : (commandHandler d s p).response.Refused) :
    (commandHandler d s p).ops = [] := by
  revert h
  unfold commandHandler
  dsimp only
  by_cases hshort : p.body.length < commandSize
  · rw [if_pos hshort]
    exact fun _ => rfl
  rw [if_neg hshort]
  by_cases hstart : IsStart p.body
  · rw [if_pos hstart]
    exact fun _ => rfl
  rw [if_neg hstart]
  by_cases hvalid : pduValid d p.body = false
  · rw [if_pos hvalid]
    exact fun _ => rfl
  rw [if_neg hvalid]
  cases hallowed : contentsAllowed d (blockBase p.body) (bodySize p.body) (updateData p.body) s with
  | some code => exact fun _ => rfl
  | none =>
      dsimp only
      by_cases hfits : (checkUpdateChunk p.outcome (blockBase p.body) (bodySize p.body) s).1 ≠
          updateSuccess
      · rw [if_pos hfits]
        exact ops_of_checkUpdateChunk_refused
      rw [if_neg hfits]
      by_cases hsoon : chunkCameTooSoon d p.now (blockBase p.body)
          (checkUpdateChunk p.outcome (blockBase p.body) (bodySize p.body) s).2.2 = true
      · rw [if_pos hsoon]
        intro _
        obtain ⟨hfirst, erase, flash, hchecked⟩ | ⟨-, code, hchecked⟩ :=
          checkUpdateChunk_erases p.outcome s (blockBase p.body) (bodySize p.body)
        · rw [hchecked] at hfits hsoon
          have herased : p.outcome.eraseOk = true := by
            by_contra hfailed
            rw [if_neg hfailed] at hfits
            exact hfits (by decide : updateEraseFailure ≠ updateSuccess)
          exact absurd ⟨Nat.not_lt.mp hshort, hstart, Bool.not_eq_false _ ▸ hvalid, hallowed,
            hfirst, herased, hsoon⟩ hlate
        · rw [hchecked]
      · -- the codes from here on are none of these
        rw [if_neg hsoon]
        by_cases hwrite : p.outcome.writeOk = false
        · rw [if_pos hwrite]
          exact fun h => absurd h (by decide : updateWriteFailure ∉ refusedCodes)
        · rw [if_neg hwrite]
          dsimp only
          split
          · exact fun h => absurd h (by decide : updateVerifyError ∉ refusedCodes)
          · exact fun h => absurd h (by decide : updateSuccess ∉ refusedCodes)

/-- A refused block leaves flash alone exactly when it is not the rate limit that refuses the first
block of a section. -/
theorem refused_leaves_flash_iff (d : Device) (s : State) (p : Pdu) :
    ((commandHandler d s p).response.Refused → (commandHandler d s p).ops = []) ↔
      ¬RefusedLate d s p := by
  constructor
  · exact fun h hlate => hlate.not_leaves h
  · exact ops_of_refused

end Refused

/-- The sections are selected, and the first block of RW was written one second after the boot. -/
def writtenState : State where
  roBaseOffset := chipRoBMemOff
  roTopOffset := chipRoBMemOff + configRoSize - certsSize
  rwBaseOffset := configRwBMemOff
  rwTopOffset := configRwBMemOff + configRwSize
  prevOffset := configRwBMemOff
  prevTimestamp := 1000000
  flash := blankFlash

/-- The first block of RW once more, a second later -/
def repeatedPdu : Pdu where
  body := [0, 0, 0, 0, 0, 4, 0x40, 0] ++ List.replicate 1024 0xff
  now := 2000000
  writtenAt := 2000000
  outcome := testFlash

/-- RW is erased, and the block that should fill it is refused. -/
theorem refused_erases :
    ¬((commandHandler testDevice writtenState repeatedPdu).response.Refused →
      (commandHandler testDevice writtenState repeatedPdu).ops = []) := by
  have hlate : RefusedLate testDevice writtenState repeatedPdu :=
    ⟨by decide +kernel, by decide +kernel, by decide +kernel, by decide +kernel,
      Or.inl ⟨by decide +kernel, by decide +kernel, by decide +kernel⟩, by decide +kernel,
      by decide +kernel⟩
  exact hlate.not_leaves

end Chip
end FwUpdate
end CrosEc
