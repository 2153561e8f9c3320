import CrosEc.FwUpdate.Chip

/-!
# What an update of a G chip can reach

As in `common/update_fw.c` a block that ends below 2^32 stays in an inactive section.  A header is
written by the first block of a section only: the test for an overlap looks at the two ends of a
block, which is enough because the block is in one section and the headers are at their starts.
-/

namespace CrosEc
namespace FwUpdate
namespace Chip

open Lib

/-- A section that an update may go to. -/
structure Section where
  base : UInt32
  top : UInt32

namespace Section

def extent (t : Section) : Set Nat := Set.Ico t.base.toNat t.top.toNat

/-- The header of the image in the section. -/
def header (t : Section) : Set Nat := Set.Ico t.base.toNat (t.base.toNat + headerSize)

end Section

section Sections

variable (d : Device)

def inactiveRo : Option Section :=
  match d.ro with
  | .a => some ⟨chipRoBMemOff, chipRoBMemOff + configRoSize - certsSize⟩
  | .b => some ⟨configRoMemOff, configRoMemOff + configRoSize - certsSize⟩
  | .unknown => none

def inactiveRw : Option Section :=
  match d.rw with
  | .a => some ⟨configRwBMemOff, configRwBMemOff + configRwSize⟩
  | .b => some ⟨configRwMemOff, configRwMemOff + configRwSize⟩
  | .unknown => none

/-- No sections are selected, or the two that do not run. -/
def SectionsSelected (s : State) : Prop :=
  (s.roTopOffset = 0 ∧ s.rwTopOffset = 0) ∨
    (inactiveRo d = some ⟨s.roBaseOffset, s.roTopOffset⟩ ∧
      inactiveRw d = some ⟨s.rwBaseOffset, s.rwTopOffset⟩)

theorem setValidSections_selected {s : State} (h : SectionsSelected d s) :
    SectionsSelected d (setValidSections d s) := by
  have hunknown : d.rw = .unknown → s.roTopOffset = 0 ∧ s.rwTopOffset = 0 := by
    intro hrw
    apply h.resolve_right
    rintro ⟨-, hsome⟩
    rw [inactiveRw, hrw] at hsome
    cases hsome
  cases hro : d.ro with
  | unknown =>
      have hkept : setValidSections d s = s := by simp only [setValidSections, hro]
      rw [hkept]
      exact h
  | a =>
      cases hrw : d.rw with
      | unknown =>
          left
          simp only [setValidSections, hro, hrw]
          exact hunknown hrw
      | a => exact Or.inr (by simp [setValidSections, inactiveRo, inactiveRw, hro, hrw])
      | b => exact Or.inr (by simp [setValidSections, inactiveRo, inactiveRw, hro, hrw])
  | b =>
      cases hrw : d.rw with
      | unknown =>
          left
          simp only [setValidSections, hro, hrw]
          exact hunknown hrw
      | a => exact Or.inr (by simp [setValidSections, inactiveRo, inactiveRw, hro, hrw])
      | b => exact Or.inr (by simp [setValidSections, inactiveRo, inactiveRw, hro, hrw])

variable {d}

/-- The layout: a section ends behind its header, and the two are apart. -/
structure Layout (ro rw : Section) : Prop where
  ro_header : ro.base.toNat + headerSize < ro.top.toNat
  rw_header : rw.base.toNat + headerSize < rw.top.toNat
  apart : ro.top.toNat ≤ rw.base.toNat ∨ rw.top.toNat ≤ ro.base.toNat

theorem layout_inactive {ro rw : Section} (hro : inactiveRo d = some ro)
    (hrw : inactiveRw d = some rw) : Layout ro rw := by
  unfold inactiveRo at hro
  unfold inactiveRw at hrw
  cases hd : d.ro with
  | unknown => rw [hd] at hro; cases hro
  | a =>
      rw [hd] at hro
      cases hro
      cases hd' : d.rw with
      | unknown => rw [hd'] at hrw; cases hrw
      | a => rw [hd'] at hrw; cases hrw; exact ⟨by decide, by decide, by decide⟩
      | b => rw [hd'] at hrw; cases hrw; exact ⟨by decide, by decide, by decide⟩
  | b =>
      rw [hd] at hro
      cases hro
      cases hd' : d.rw with
      | unknown => rw [hd'] at hrw; cases hrw
      | a => rw [hd'] at hrw; cases hrw; exact ⟨by decide, by decide, by decide⟩
      | b => rw [hd'] at hrw; cases hrw; exact ⟨by decide, by decide, by decide⟩

end Sections

/-! ## Headers -/

/-- A block that may write the header of a section, and what it stores there. -/
structure HeaderBlock (body running : Bytes) (t : Section) (op : FlashOp) : Prop where
  starts : blockBase body = t.base
  whole : headerSize ≤ (updateData body).length
  not_older : newIsOlder (updateData body) running = false
  stored : ∀ offset data, op = .write offset data → offset = t.base ∧
    headerField data imageSizeOff &&& topImageSizeBit = topImageSizeBit

/-- The operation keeps to one inactive section, and to the rules for headers. -/
structure Guarded (d : Device) (s : State) (body : Bytes) (op : FlashOp) : Prop where
  inside : (∃ t, inactiveRo d = some t ∧ op.range ⊆ t.extent) ∨
    ∃ t, inactiveRw d = some t ∧ op.range ⊆ t.extent
  ro_header : ∀ t, inactiveRo d = some t → (op.range ∩ t.header).Nonempty →
    HeaderBlock body (roHeader d s) t op
  rw_header : ∀ t, inactiveRw d = some t → (op.range ∩ t.header).Nonempty →
    HeaderBlock body (rwHeader d s) t op

theorem length_corruptHeader (header : Bytes) : (corruptHeader header).length = header.length :=
  length_writeAt ..

theorem headerField_corruptHeader {header : Bytes} (h : headerSize ≤ header.length) :
    headerField (corruptHeader header) imageSizeOff =
      headerField header imageSizeOff ||| topImageSizeBit := by
  generalize hsize : headerField header imageSizeOff ||| topImageSizeBit = size
  have hlen : (Codec.uint32.encode size).length = 4 := Codec.uint32.length_encode size
  have hfits : imageSizeOff + (Codec.uint32.encode size).length ≤ header.length := by
    rw [hlen, imageSizeOff]
    rw [headerSize] at h
    omega
  have hback := take_drop_writeAt_self header (Codec.uint32.encode size) hfits
  rw [headerField, corruptHeader, hsize, ← List.take_append_drop 4
    ((writeAt header imageSizeOff (Codec.uint32.encode size)).drop imageSizeOff)]
  rw [hlen] at hback
  rw [hback, Codec.uint32.decode_encode]

theorem or_and_cancel (a b : UInt32) : (a ||| b) &&& b = b := by
  apply UInt32.toBitVec_inj.mp
  ext i hi
  simp only [UInt32.toBitVec_and, UInt32.toBitVec_or, BitVec.getElem_and, BitVec.getElem_or]
  cases a.toBitVec[i] <;> cases b.toBitVec[i] <;> rfl

/-! ## What the checks say -/

section Checks

variable {d : Device} {s : State} {body : Bytes}

/-- The first block of a section erases it. -/
theorem eraseSection_cases (o : FlashOutcome) (blockOffset base top : UInt32) (s : State) :
    (blockOffset = base ∧
        (eraseSection o blockOffset base top s).2 = ([.erase base (top - base)],
          { s with flash := o.leaves s.flash (.erase base (top - base)) })) ∨
      (eraseSection o blockOffset base top s).2 = ([], s) := by
  unfold eraseSection
  split
  · rename_i hbase
    exact Or.inl ⟨hbase, rfl⟩
  · exact Or.inr rfl

/-- `check_update_chunk` fails, or the block is in one of the sections and at most that section is
erased, for its first block. -/
theorem checkUpdateChunk_cases (o : FlashOutcome) (hwrap : NoWrap body)
    (hs : SectionsSelected d s) :
    ((checkUpdateChunk o (blockBase body) (bodySize body) s).1 ≠ updateSuccess ∧
        (checkUpdateChunk o (blockBase body) (bodySize body) s).2 = ([], s)) ∨
      ∃ t : Section,
        (t = ⟨s.roBaseOffset, s.roTopOffset⟩ ∨ t = ⟨s.rwBaseOffset, s.rwTopOffset⟩) ∧
        inactiveRo d = some ⟨s.roBaseOffset, s.roTopOffset⟩ ∧
        inactiveRw d = some ⟨s.rwBaseOffset, s.rwTopOffset⟩ ∧
        t.base ≤ blockBase body ∧
        Set.Ico (blockBase body).toNat ((blockBase body).toNat + (updateData body).length) ⊆
          t.extent ∧
        checkUpdateChunk o (blockBase body) (bodySize body) s =
          eraseSection o (blockBase body) t.base t.top s := by
  have hfail : updateBadAddr ≠ updateSuccess := by decide
  unfold checkUpdateChunk
  split
  · rename_i hrw
    obtain ⟨htop, hbase, hend⟩ := hrw
    obtain ⟨hro, hrw⟩ := hs.resolve_left (fun hzero => htop hzero.2)
    exact Or.inr ⟨_, Or.inr rfl, hro, hrw, hbase, range_of_check hwrap rfl hbase hend, rfl⟩
  · split
    · rename_i hro
      obtain ⟨htop, hbase, hend⟩ := hro
      obtain ⟨hro, hrw⟩ := hs.resolve_left (fun hzero => htop hzero.1)
      exact Or.inr ⟨_, Or.inl rfl, hro, hrw, hbase, range_of_check hwrap rfl hbase hend, rfl⟩
    · exact Or.inl ⟨hfail, rfl⟩

/-- A block at the start of a section that may be written: it brings a whole header that is not
older than the one that runs. -/
structure HeaderChecked (body running : Bytes) : Prop where
  whole : headerSize ≤ (updateData body).length
  not_older : newIsOlder (updateData body) running = false

theorem bodySize_toNat (hwrap : NoWrap body) : (bodySize body).toNat = (updateData body).length := by
  unfold NoWrap at hwrap
  rw [updateData, List.length_drop] at hwrap ⊢
  rw [bodySize, UInt32.toNat_ofNat', Nat.mod_eq_of_lt (by omega)]

/-- The checks of a header. -/
theorem headerChecked_of_none (hwrap : NoWrap body) {running : Bytes} {isRwHeader : Bool}
    (h : (if bodySize body < UInt32.ofNat headerSize then some upgradeTruncatedHeaderError
      else if newIsOlder (updateData body) running then some updateRollbackError
      else if isRwHeader && d.boardIdMismatch (updateData body) then some upgradeBoardIdError
      else none) = none) : HeaderChecked body running := by
  split at h
  · cases h
  · rename_i hwhole
    split at h
    · cases h
    · rename_i holder
      rw [UInt32.not_lt, UInt32.le_iff_toNat_le, bodySize_toNat hwrap] at hwhole
      exact ⟨hwhole, by simpa using holder⟩

theorem overlapsHeader_of_mem {t : Section} {offset : UInt32} (hin : offset.toNat ∈ t.header)
    (hfits : t.base.toNat + headerSize < t.top.toNat) : overlapsHeader offset t.base = true := by
  have hheader : (UInt32.ofNat headerSize).toNat = headerSize := rfl
  rw [overlapsHeader, decide_eq_true_iff, UInt32.le_iff_toNat_le, UInt32.lt_iff_toNat_lt,
    UInt32.toNat_add, hheader, Nat.mod_eq_of_lt (hfits.trans t.top.toNat_lt)]
  exact hin

theorem Layout.header_disjoint {ro rw : Section} (h : Layout ro rw) {a : Nat} (hro : a ∈ ro.header)
    (hrw : a ∈ rw.header) : False := by
  obtain ⟨hroTop, hrwTop, hapart⟩ := h
  obtain ⟨hlow, hhigh⟩ := hro
  obtain ⟨hlow', hhigh'⟩ := hrw
  omega

theorem base_mem_header (t : Section) : t.base.toNat ∈ t.header :=
  ⟨le_rfl, Nat.lt_add_of_pos_right (by decide)⟩

/-- What `contents_allowed` has checked of a block that starts in a header. -/
theorem contentsAllowed_none (hwrap : NoWrap body)
    (hlayout : Layout ⟨s.roBaseOffset, s.roTopOffset⟩ ⟨s.rwBaseOffset, s.rwTopOffset⟩)
    (h : contentsAllowed d (blockBase body) (bodySize body) (updateData body) s = none) :
    ((blockBase body).toNat ∈ (Section.mk s.roBaseOffset s.roTopOffset).header →
        blockBase body = s.roBaseOffset ∧ HeaderChecked body (roHeader d s)) ∧
      ((blockBase body).toNat ∈ (Section.mk s.rwBaseOffset s.rwTopOffset).header →
        blockBase body = s.rwBaseOffset ∧ HeaderChecked body (rwHeader d s)) := by
  unfold contentsAllowed at h
  by_cases hro : blockBase body = s.roBaseOffset
  · simp only [if_pos hro] at h
    have hin : (blockBase body).toNat ∈ (Section.mk s.roBaseOffset s.roTopOffset).header :=
      hro ▸ base_mem_header _
    exact ⟨fun _ => ⟨hro, headerChecked_of_none hwrap h⟩,
      fun hin' => (hlayout.header_disjoint hin hin').elim⟩
  · by_cases hrw : blockBase body = s.rwBaseOffset
    · simp only [if_neg hro, if_pos hrw] at h
      have hin : (blockBase body).toNat ∈ (Section.mk s.rwBaseOffset s.rwTopOffset).header :=
        hrw ▸ base_mem_header _
      exact ⟨fun hin' => (hlayout.header_disjoint hin' hin).elim,
        fun _ => ⟨hrw, headerChecked_of_none hwrap h⟩⟩
    · simp only [if_neg hro, if_neg hrw] at h
      split at h
      · cases h
      · rename_i hnone
        -- The block starts in neither header.
        simp only [List.any_cons, List.any_nil, Bool.or_false, Bool.or_eq_true, not_or] at hnone
        exact ⟨fun hin => absurd (overlapsHeader_of_mem hin hlayout.ro_header) hnone.1.1,
          fun hin => absurd (overlapsHeader_of_mem hin hlayout.rw_header) hnone.2.1⟩

/-- An operation in one of the two sections that begins with the block, or in its header only if
the block does. -/
theorem guarded_of_section {t : Section} {op : FlashOp} (hwrap : NoWrap body)
    (hro : inactiveRo d = some ⟨s.roBaseOffset, s.roTopOffset⟩)
    (hrw : inactiveRw d = some ⟨s.rwBaseOffset, s.rwTopOffset⟩)
    (hallowed : contentsAllowed d (blockBase body) (bodySize body) (updateData body) s = none)
    (ht : t = ⟨s.roBaseOffset, s.roTopOffset⟩ ∨ t = ⟨s.rwBaseOffset, s.rwTopOffset⟩)
    (hrange : op.range ⊆ t.extent) (hstart : t.base ≤ blockBase body)
    (hmeets : (op.range ∩ t.header).Nonempty →
      (blockBase body).toNat < t.base.toNat + headerSize)
    (hstored : blockBase body = t.base → headerSize ≤ (updateData body).length →
      ∀ offset data, op = .write offset data → offset = t.base ∧
        headerField data imageSizeOff &&& topImageSizeBit = topImageSizeBit) :
    Guarded d s body op := by
  have hlayout := layout_inactive hro hrw
  obtain ⟨hroChecked, hrwChecked⟩ := contentsAllowed_none hwrap hlayout hallowed
  obtain ⟨hroTop, hrwTop, hapart⟩ := hlayout
  rw [UInt32.le_iff_toNat_le] at hstart
  -- An operation in one section does not meet the header of the other one.
  have hother : ∀ u : Section, u.base.toNat + headerSize < u.top.toNat →
      t.top.toNat ≤ u.base.toNat ∨ u.top.toNat ≤ t.base.toNat →
        ¬ (op.range ∩ u.header).Nonempty := by
    rintro u hu hapart ⟨a, ha, hlow, hhigh⟩
    obtain ⟨hlow', hhigh'⟩ := hrange ha
    omega
  rcases ht with rfl | rfl
  · exact {
      inside := Or.inl ⟨_, hro, hrange⟩
      ro_header := by
        intro u hu hne
        obtain rfl := Option.some.inj (hu.symm.trans hro)
        obtain ⟨hbase, hchecked⟩ := hroChecked ⟨hstart, hmeets hne⟩
        exact ⟨hbase, hchecked.whole, hchecked.not_older, hstored hbase hchecked.whole⟩
      rw_header := by
        intro u hu hne
        obtain rfl := Option.some.inj (hu.symm.trans hrw)
        exact absurd hne (hother _ hrwTop hapart) }
  · exact {
      inside := Or.inr ⟨_, hrw, hrange⟩
      ro_header := by
        intro u hu hne
        obtain rfl := Option.some.inj (hu.symm.trans hro)
        exact absurd hne (hother _ hroTop hapart.symm)
      rw_header := by
        intro u hu hne
        obtain rfl := Option.some.inj (hu.symm.trans hrw)
        obtain ⟨hbase, hchecked⟩ := hrwChecked ⟨hstart, hmeets hne⟩
        exact ⟨hbase, hchecked.whole, hchecked.not_older, hstored hbase hchecked.whole⟩ }

theorem length_storedData (offset : UInt32) (data : Bytes) (s : State) :
    (storedData offset data s).length = data.length := by
  unfold storedData
  split
  · exact length_corruptHeader data
  · rfl

/-- The erase of the section that a block is the first one of. -/
theorem guarded_erase {t : Section} (hwrap : NoWrap body)
    (hallowed : contentsAllowed d (blockBase body) (bodySize body) (updateData body) s = none)
    (ht : t = ⟨s.roBaseOffset, s.roTopOffset⟩ ∨ t = ⟨s.rwBaseOffset, s.rwTopOffset⟩)
    (hro : inactiveRo d = some ⟨s.roBaseOffset, s.roTopOffset⟩)
    (hrw : inactiveRw d = some ⟨s.rwBaseOffset, s.rwTopOffset⟩) (hstart : t.base ≤ blockBase body)
    (hbase : blockBase body = t.base) : Guarded d s body (.erase t.base (t.top - t.base)) := by
  have hle : t.base ≤ t.top := by
    obtain ⟨hroTop, hrwTop, -⟩ := layout_inactive hro hrw
    rw [UInt32.le_iff_toNat_le]
    rcases ht with rfl | rfl
    · exact le_of_lt (lt_of_le_of_lt (Nat.le_add_right _ _) hroTop)
    · exact le_of_lt (lt_of_le_of_lt (Nat.le_add_right _ _) hrwTop)
  apply guarded_of_section hwrap hro hrw hallowed ht (le_of_eq (range_erase hle)) hstart
  · intro _
    rw [hbase, headerSize]
    omega
  · intro _ _ offset data heq
    cases heq

/-- The write of a block in a section. -/
theorem guarded_write {t : Section} (hwrap : NoWrap body)
    (hallowed : contentsAllowed d (blockBase body) (bodySize body) (updateData body) s = none)
    (ht : t = ⟨s.roBaseOffset, s.roTopOffset⟩ ∨ t = ⟨s.rwBaseOffset, s.rwTopOffset⟩)
    (hro : inactiveRo d = some ⟨s.roBaseOffset, s.roTopOffset⟩)
    (hrw : inactiveRw d = some ⟨s.rwBaseOffset, s.rwTopOffset⟩) (hstart : t.base ≤ blockBase body)
    (hinside : Set.Ico (blockBase body).toNat
      ((blockBase body).toNat + (updateData body).length) ⊆ t.extent) :
    Guarded d s body
      (.write (blockBase body) (storedData (blockBase body) (updateData body) s)) := by
  apply guarded_of_section hwrap hro hrw hallowed ht
  · rw [FlashOp.range, FlashOp.start, FlashOp.size, length_storedData]
    exact hinside
  · exact hstart
  · rintro ⟨a, ha, ha'⟩
    exact lt_of_le_of_lt ha.1 ha'.2
  · intro hbase hwhole offset data heq
    cases heq
    have hfirst : blockBase body = s.roBaseOffset ∨ blockBase body = s.rwBaseOffset := by
      rcases ht with rfl | rfl
      · exact Or.inl hbase
      · exact Or.inr hbase
    refine ⟨hbase, ?_⟩
    rw [storedData, if_pos hfirst, headerField_corruptHeader hwhole]
    exact or_and_cancel ..

/-- What the handler does to flash: nothing, or what `check_update_chunk` does, or this and the
write of the block. -/
theorem commandHandler_cases (d : Device) (s : State) (p : Pdu) :
    ((commandHandler d s p).ops = [] ∧
        ((commandHandler d s p).state = s ∨ (commandHandler d s p).state = setValidSections d s)) ∨
      contentsAllowed d (blockBase p.body) (bodySize p.body) (updateData p.body) s = none ∧
        ∃ code ops s', checkUpdateChunk p.outcome (blockBase p.body) (bodySize p.body) s =
            (code, ops, s') ∧
          (((commandHandler d s p).ops = ops ∧ (commandHandler d s p).state = s') ∨
            code = updateSuccess ∧
              ∃ write timestamp offset,
                write = FlashOp.write (blockBase p.body)
                  (storedData (blockBase p.body) (updateData p.body) s') ∧
                (commandHandler d s p).ops = ops ++ [write] ∧
                (commandHandler d s p).state =
                  { s' with
                    flash := p.outcome.leaves s'.flash write
                    prevTimestamp := timestamp
                    prevOffset := offset }) := by
  unfold commandHandler
  dsimp only
  by_cases hshort : p.body.length < commandSize
  · rw [if_pos hshort]
    exact Or.inl ⟨rfl, Or.inl rfl⟩
  rw [if_neg hshort]
  by_cases hstart : IsStart p.body
  · rw [if_pos hstart]
    have hstarted : (startup d s).2 = setValidSections d s := by
      unfold startup
      dsimp only
      split <;> rfl
    exact Or.inl ⟨rfl, Or.inr hstarted⟩
  rw [if_neg hstart]
  by_cases hvalid : pduValid d p.body = false
  · rw [if_pos hvalid]
    exact Or.inl ⟨rfl, Or.inl rfl⟩
  rw [if_neg hvalid]
  cases hallowed : contentsAllowed d (blockBase p.body) (bodySize p.body) (updateData p.body) s with
  | some code => exact Or.inl ⟨rfl, Or.inl rfl⟩
  | none =>
      refine Or.inr ⟨rfl, _, _, _, rfl, ?_⟩
      dsimp only
      by_cases hok : (checkUpdateChunk p.outcome (blockBase p.body) (bodySize p.body) s).1 ≠
          updateSuccess
      · rw [if_pos hok]
        exact Or.inl ⟨rfl, rfl⟩
      rw [if_neg hok]
      split
      · exact Or.inl ⟨rfl, rfl⟩
      · split
        · exact Or.inr ⟨not_not.mp hok, _, _, _, rfl, rfl, rfl⟩
        · exact Or.inr ⟨not_not.mp hok, _, _, _, rfl, rfl, rfl⟩

/-- **A step of an update** of a G chip. -/
theorem commandHandler_guarded {p : Pdu} (hwrap : NoWrap p.body) (hs : SectionsSelected d s) :
    SectionsSelected d (commandHandler d s p).state ∧
      ∀ op ∈ (commandHandler d s p).ops, Guarded d s p.body op := by
  rcases commandHandler_cases d s p with
    ⟨hops, hstate⟩ | ⟨hallowed, code, ops, s', hchecked, hdone⟩
  · rw [hops]
    refine ⟨?_, by simp⟩
    rcases hstate with hstate | hstate
    · rw [hstate]
      exact hs
    · rw [hstate]
      exact setValidSections_selected d hs
  · rcases checkUpdateChunk_cases p.outcome hwrap hs with
      ⟨hfail, hnothing⟩ | ⟨t, ht, hro, hrw, hstart, hinside, herase⟩
    · rw [hchecked] at hfail hnothing
      obtain ⟨rfl, rfl⟩ := Prod.mk.inj hnothing
      rcases hdone with ⟨hops, hstate⟩ | ⟨hok, -⟩
      · rw [hops, hstate]
        exact ⟨hs, by simp⟩
      · exact absurd hok hfail
    · have hcases := eraseSection_cases p.outcome (blockBase p.body) t.base t.top s
      rw [← herase, hchecked] at hcases
      have hwrite := guarded_write hwrap hallowed ht hro hrw hstart hinside
      have hkept : SectionsSelected d s' ∧
          storedData (blockBase p.body) (updateData p.body) s' =
            storedData (blockBase p.body) (updateData p.body) s ∧
          ∀ op ∈ ops, Guarded d s p.body op := by
        rcases hcases with ⟨hbase, heq⟩ | heq
        · obtain ⟨rfl, rfl⟩ := Prod.mk.inj heq
          refine ⟨hs, rfl, fun op hop => ?_⟩
          rw [List.mem_singleton.mp hop]
          exact guarded_erase hwrap hallowed ht hro hrw hstart hbase
        · obtain ⟨rfl, rfl⟩ := Prod.mk.inj heq
          exact ⟨hs, rfl, by simp⟩
      obtain ⟨hs', hstored, hops⟩ := hkept
      rcases hdone with ⟨hops', hstate⟩ | ⟨-, write, timestamp, offset, rfl, hops', hstate⟩
      · rw [hops', hstate]
        exact ⟨hs', hops⟩
      · rw [hops', hstate, hstored]
        refine ⟨hs', fun op hop => ?_⟩
        rcases List.mem_append.mp hop with hop | hop
        · exact hops op hop
        · rw [List.mem_singleton.mp hop]
          exact hwrite

end Checks

/-! ## Updates -/

section Updates

/-- Before the first PDU -/
def powerOn (flash : Nat → UInt8) : State where
  roBaseOffset := 0
  roTopOffset := 0
  rwBaseOffset := 0
  rwTopOffset := 0
  prevOffset := 0
  prevTimestamp := 0
  flash := flash

/-- The states of all updates whose blocks end below 2^32. -/
def Updating (d : Device) (flash : Nat → UInt8) : State → Prop :=
  Reachable (fun s p => some (commandHandler d s p).state)
    (fun _ (p : Pdu) => decide (NoWrap p.body)) (powerOn flash)

theorem Updating.sections {d : Device} {flash : Nat → UInt8} {s : State}
    (h : Updating d flash s) : SectionsSelected d s := by
  refine h.invariant (SectionsSelected d) (Or.inl ⟨rfl, rfl⟩) ?_
  intro s p s' hs hallowed hstep
  cases hstep
  exact (commandHandler_guarded (of_decide_eq_true hallowed) hs).1

/-- Flash outside of what is erased stays as it is. -/
theorem checkUpdateChunk_flash {o : FlashOutcome} {offset size : UInt32} {s : State} {a : Nat}
    (h : ∀ op ∈ (checkUpdateChunk o offset size s).2.1, a ∉ op.range) :
    (checkUpdateChunk o offset size s).2.2.flash a = s.flash a := by
  have herase : ∀ base top, (∀ op ∈ (eraseSection o offset base top s).2.1, a ∉ op.range) →
      (eraseSection o offset base top s).2.2.flash a = s.flash a := by
    intro base top hout
    rcases eraseSection_cases o offset base top s with ⟨-, heq⟩ | heq
    · rw [heq] at hout ⊢
      exact o.leaves_of_notMem _ (hout _ (List.mem_singleton.mpr rfl))
    · rw [heq]
  unfold checkUpdateChunk at h ⊢
  split
  · rename_i hrw
    rw [if_pos hrw] at h
    exact herase _ _ h
  · rename_i hrw
    rw [if_neg hrw] at h
    split
    · rename_i hro
      rw [if_pos hro] at h
      exact herase _ _ h
    · rfl

theorem setValidSections_flash (d : Device) (s : State) :
    (setValidSections d s).flash = s.flash := by
  unfold setValidSections
  cases d.ro <;> cases d.rw <;> rfl

/-- Flash outside of what is erased and written stays as it is. -/
theorem commandHandler_flash {d : Device} {s : State} {p : Pdu} {a : Nat}
    (h : ∀ op ∈ (commandHandler d s p).ops, a ∉ op.range) :
    (commandHandler d s p).state.flash a = s.flash a := by
  rcases commandHandler_cases d s p with
    ⟨-, hstate | hstate⟩ | ⟨-, code, ops, s', hchecked, hdone⟩
  · rw [hstate]
  · rw [hstate, setValidSections_flash]
  · have hcheck : (∀ op ∈ ops, a ∉ op.range) → s'.flash a = s.flash a := by
      intro hout
      have hkept := checkUpdateChunk_flash (o := p.outcome) (s := s) (a := a)
        (by rw [hchecked]; exact hout)
      rw [hchecked] at hkept
      exact hkept
    rcases hdone with ⟨hops, hstate⟩ | ⟨-, write, timestamp, offset, -, hops, hstate⟩
    · rw [hstate]
      rw [hops] at h
      exact hcheck h
    · rw [hstate]
      rw [hops] at h
      exact (p.outcome.leaves_of_notMem _ (h _ (by simp))).trans
        (hcheck fun op hop => h op (by simp [hop]))

/-- **The images that run stay as they are.** -/
theorem Updating.flash_running {d : Device} {flash : Nat → UInt8} {s : State}
    (h : Updating d flash s) {a : Nat} (hro : ∀ t, inactiveRo d = some t → a ∉ t.extent)
    (hrw : ∀ t, inactiveRw d = some t → a ∉ t.extent) : s.flash a = flash a := by
  induction h with
  | start => rfl
  | next p hreach hallowed hstep ih =>
      cases hstep
      obtain ⟨-, hguarded⟩ := commandHandler_guarded (of_decide_eq_true hallowed)
        (Updating.sections hreach)
      rw [← ih]
      apply commandHandler_flash
      intro op hop hin
      rcases (hguarded op hop).inside with ⟨t, ht, hrange⟩ | ⟨t, ht, hrange⟩
      · exact hro t ht (hrange hin)
      · exact hrw t ht (hrange hin)

end Updates

end Chip

open Lib

/-! ## The result -/

/-- **What an update touches.** In all updates whose blocks end below 2^32, of the common code and
of a G chip. -/
theorem update_touches_inactive {b : Board} {running : ImageCopy} {flash : Nat → UInt8} {s : State}
    (p : Pdu) {d : Chip.Device} {flash' : Nat → UInt8} {s' : Chip.State} (p' : Chip.Pdu)
    (hs : Updating b running flash s) (hp : NoWrap p.body)
    (hs' : Chip.Updating d flash' s') (hp' : NoWrap p'.body) :
    (∀ op ∈ (handlePdu b running s p).ops, op.range ⊆ inactiveSection b running) ∧
      ∀ op ∈ (Chip.commandHandler d s' p').ops, Chip.Guarded d s' p'.body op :=
  ⟨(handlePdu_inside hp hs.section).2, (Chip.commandHandler_guarded hp' hs'.sections).2⟩

/-! ## Two blocks on a small board -/

def testPdu (body : Bytes) : Pdu where
  body := body
  info := testInfo
  outcome := testFlash
  touchpadOk := true

def blankFlash : Nat → UInt8 := fun _ => 0xff

/-- The board runs its RO and has received the first PDU of an update. -/
def startedState : State := (handlePdu testBoard .ro (powerOn blankFlash)
  (testPdu [0, 0, 0, 0, 0, 0, 0, 0])).state

theorem startedState_updating : Updating testBoard .ro blankFlash startedState :=
  .next (testPdu [0, 0, 0, 0, 0, 0, 0, 0]) .start (by decide +kernel) rfl

def testDevice : Chip.Device where
  ro := .a
  rw := .a
  sha1 := fun _ => Arr.replicate 20 0
  boardIdMismatch := fun _ => false
  hardReset := false

def testChipPdu (body : Bytes) : Chip.Pdu where
  body := body
  now := 0
  writtenAt := 0
  outcome := testFlash

/-- The chip has received the first PDU of an update, which selects the sections. -/
def startedChip : Chip.State := (Chip.commandHandler testDevice (Chip.powerOn fun _ => 0)
  (testChipPdu [0, 0, 0, 0, 0, 0, 0, 0])).state

theorem startedChip_updating : Chip.Updating testDevice (fun _ => 0) startedChip :=
  .next (testChipPdu [0, 0, 0, 0, 0, 0, 0, 0]) .start (by decide +kernel) rfl

/-- The header of an image, for the start of the inactive RW section. -/
def headerBlock : Bytes := [0, 0, 0, 0, 0, 4, 0x40, 0] ++ List.replicate 1024 0

/-- Two bytes at the start of the section; and a header, for which the chip erases and writes. -/
theorem update_touches_inactive_first :
    ((∀ op ∈ (handlePdu testBoard .ro startedState (testPdu [0, 0, 0, 0, 0, 1, 0, 0, 7, 7])).ops,
        op.range ⊆ inactiveSection testBoard .ro) ∧
      ∀ op ∈ (Chip.commandHandler testDevice startedChip (testChipPdu headerBlock)).ops,
        Chip.Guarded testDevice startedChip headerBlock op) ∧
      (Chip.commandHandler testDevice startedChip (testChipPdu headerBlock)).ops.length = 2 :=
  have hwrap : NoWrap [0, 0, 0, 0, 0, 1, 0, 0, 7, 7] ∧ NoWrap headerBlock := by decide +kernel
  ⟨update_touches_inactive (testPdu [0, 0, 0, 0, 0, 1, 0, 0, 7, 7]) (testChipPdu headerBlock)
    startedState_updating hwrap.1 startedChip_updating hwrap.2, by decide +kernel⟩

/-- Two bytes at the very end of the address space: the sum of the check is 1. -/
theorem update_writes_outside :
    ∃ s, Reachable (fun s p => some (handlePdu testBoard .ro s p).state) anyEvent
        (powerOn blankFlash) s ∧
      ∃ op ∈ (handlePdu testBoard .ro s (testPdu [0, 0, 0, 0, 0xff, 0xff, 0xff, 0xff, 7, 7])).ops,
        ¬ op.range ⊆ inactiveSection testBoard .ro := by
  have hops : (handlePdu testBoard .ro startedState
      (testPdu [0, 0, 0, 0, 0xff, 0xff, 0xff, 0xff, 7, 7])).ops = [.write 0xffffffff [7, 7]] := by
    decide +kernel
  refine ⟨startedState, startedState_updating.mono fun _ _ _ => rfl, _,
    by rw [hops]; exact List.mem_singleton.mpr rfl, ?_⟩
  intro hsub
  have hin : (4294967295 : Nat) ∈ (FlashOp.write 0xffffffff [7, 7]).range :=
    ⟨by decide, by decide⟩
  exact absurd (hsub hin).2 (by decide)

end FwUpdate
end CrosEc
