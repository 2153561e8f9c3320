import CrosEc.Cbi.Reload

/-!
# `common/cbi.c`: which images are safe to parse

`do_read_board_info` checks the total size but not the sizes of the items.  An item that ends
behind the total size is copied out from behind the image, and when it is removed the number of
bytes behind it underflows.  The accesses are safe exactly when no item that `cbi_find_tag` can
find ends behind the total size.
-/

namespace CrosEc
namespace Cbi

open Lib

variable {cfg : Config}

/-- Every item that `cbi_find_tag` finds ends inside the total size. -/
def ItemsInside (cfg : Config) (cbi : Image) : Prop :=
  ∀ (tag : cfg.Tag) (d size : Nat), cbiFindTag cbi tag.toNat = some (some d) →
    itemSize cbi d = some size → headSize + d + itemHeader + size ≤ cbi.total

/-- No access of `cbi_get_board_info` and `cbi_set_board_info` leaves the image, and no length
underflows. -/
def SafeAccess (cfg : Config) (cbi : Image) : Prop :=
  (∀ (tag : cfg.Tag) (buf : Value), getFromImage cbi tag.toNat buf.val ≠ none) ∧
  ∀ (tag : cfg.Tag) (buf : Value), cbiSetBoardInfo cbi tag.toNat buf ≠ none

/-! ## The accesses -/

theorem load_isSome (cbi : Image) (off len : Nat) (h : off + len ≤ dataSize) :
    ∃ bs, cbi.load off len = some bs ∧ bs.length = len := by
  refine ⟨_, if_pos h, ?_⟩
  rw [List.length_take, List.length_drop, cbi.data.property]
  omega

theorem store_isSome (cbi : Image) (off : Nat) (bs : Bytes) (h : off + bs.length ≤ dataSize) :
    ∃ cbi', cbi.store off bs = some cbi' ∧ cbi'.head = cbi.head := ⟨_, if_pos h, rfl⟩

theorem appendItem_isSome (cbi : Image) (htotal : headSize ≤ cbi.total) (tag : Nat) (buf : Value) :
    appendItem cbi tag buf ≠ none := by
  rw [appendItem]
  split
  · simp
  · next hfits =>
    rw [if_neg (Nat.not_lt.2 htotal), cbiSetData]
    obtain ⟨cbi', hstore, -⟩ := store_isSome cbi (cbi.total - headSize)
      (UInt8.ofNat tag :: UInt8.ofNat buf.val.length :: buf.val) (by
        simp only [headSize, itemHeader, cbiEepromSize, dataSize, List.length_cons] at *
        omega)
    rw [hstore]
    simp

/-- Removing an item that ends inside the total size. -/
theorem cbiRemoveTag_isSome {cbi : Image} (htotal : cbi.total ≤ cbiEepromSize) {d size : Nat}
    (hsize : itemSize cbi d = some size)
    (hinside : headSize + d + itemHeader + size ≤ cbi.total) :
    ∃ cbi', cbiRemoveTag cbi d = some cbi' ∧ headSize ≤ cbi'.total := by
  have hnext : headSize + (d + (itemHeader + size)) ≤ cbi.total := by lia
  obtain ⟨after, hload, hlen⟩ := load_isSome cbi (d + (itemHeader + size))
    (cbi.total - (headSize + (d + (itemHeader + size)))) (by
      simp only [headSize, itemHeader, cbiEepromSize, dataSize] at *
      lia)
  obtain ⟨cbi', hstore, hhead⟩ := store_isSome cbi d after (by
    simp only [headSize, itemHeader, cbiEepromSize, dataSize] at *
    lia)
  have htotal' : cbi'.total = cbi.total := by rw [Image.total, hhead, Image.total]
  refine ⟨cbi'.setTotal (cbi'.total - (itemHeader + size)), ?_, ?_⟩
  · simp only [cbiRemoveTag, hsize, hload, hstore, if_pos hnext, Option.map_some]
  · rw [setTotal_total _ (by lia), htotal']
    lia

/-- **Which images are safe.**  An image that `do_read_board_info` accepts is safe for
`cbi_get_board_info` and `cbi_set_board_info`, whatever the tag and the value, exactly when every
item that `cbi_find_tag` can find ends inside the total size. -/
theorem safeAccess_iff_itemsInside {io : ReadIo} {eeprom : Blob cbiEepromSize} {ram cbi : Image}
    (haccepted : doReadBoardInfo io eeprom ram = (ecSuccess, cbi)) :
    SafeAccess cfg cbi ↔ ItemsInside cfg cbi := by
  obtain ⟨-, -, hacc, rfl⟩ := doReadBoardInfo_eq_success.1 haccepted
  set cbi := loadedImage eeprom ram
  have hle := hacc.total_le
  constructor
  · rintro ⟨-, hset⟩ tag d size hfind hsize
    by_contra hout
    -- a value of no bytes makes the code remove the item
    have hpos : size ≠ 0 := by
      rcases cbiFindTag_isSome hle tag.toNat with hnone | ⟨d', size', hfind', -, hd'⟩
      · rw [hnone] at hfind
        cases hfind
      · rw [hfind] at hfind'
        cases hfind'
        omega
    have hnext : ¬ headSize + (d + (itemHeader + size)) ≤ cbi.total := by omega
    refine hset tag ⟨[], by decide⟩ ?_
    simp only [cbiSetBoardInfo, hfind, hsize, cbiRemoveTag, List.length_nil, ne_eq, hpos,
      not_false_eq_true, if_true, if_neg hnext]
  · intro hinside
    constructor
    · intro tag buf
      rcases cbiFindTag_isSome hle tag.toNat with hnone | ⟨d, size, hfind, hsize, -⟩
      · simp [getFromImage, hnone]
      · have hend := hinside tag d size hfind hsize
        obtain ⟨value, hload, -⟩ := load_isSome cbi (d + itemHeader) size (by
          simp only [headSize, itemHeader, cbiEepromSize, dataSize] at *
          omega)
        simp only [getFromImage, hfind, hsize, hload]
        split <;> simp
    · intro tag buf
      rcases cbiFindTag_isSome hle tag.toNat with hnone | ⟨d, size, hfind, hsize, -⟩
      · simp only [cbiSetBoardInfo, hnone]
        exact appendItem_isSome cbi hacc.total_ge _ buf
      · have hend := hinside tag d size hfind hsize
        simp only [cbiSetBoardInfo, hfind, hsize]
        split
        · obtain ⟨cbi', hremove, hge⟩ := cbiRemoveTag_isSome hle hsize hend
          rw [hremove]
          exact appendItem_isSome cbi' hge _ buf
        · next hsame =>
          obtain ⟨cbi', hstore, -⟩ := store_isSome cbi (d + itemHeader) buf.val (by
            simp only [headSize, itemHeader, cbiEepromSize, dataSize, ne_eq, not_not] at *
            omega)
          rw [hstore]
          simp

/-- An EEPROM with a small total size and one item of 255 bytes, and a checksum that fits. -/
def longItemEeprom : Blob cbiEepromSize :=
  ⟨[0x43, 0x42, 0x49, 171, 0, 0, 11, 0, 2, 255, 7] ++ List.replicate 245 0xff, by
    rw [List.length_append, List.length_replicate]
    rfl⟩

/-- Reading the field copies from behind the buffer, and changing it underflows the length of the
`memmove`. -/
theorem not_safeAccess_longItem :
    (doReadBoardInfo ⟨true, true⟩ longItemEeprom initImage).1 = ecSuccess ∧
      getFromImage (doReadBoardInfo ⟨true, true⟩ longItemEeprom initImage).2 2
        (List.replicate 255 0) = none ∧
      cbiSetBoardInfo (doReadBoardInfo ⟨true, true⟩ longItemEeprom initImage).2 2
        ⟨[1], by decide⟩ = none := by
  decide +kernel

/-- The item is the reason. -/
theorem safeAccess_iff_itemsInside_longItem :
    ¬ ItemsInside wordTags (doReadBoardInfo ⟨true, true⟩ longItemEeprom initImage).2 := by
  obtain ⟨hcode, hset⟩ : (doReadBoardInfo ⟨true, true⟩ longItemEeprom initImage).1 = ecSuccess ∧
      cbiSetBoardInfo (doReadBoardInfo ⟨true, true⟩ longItemEeprom initImage).2 2
        ⟨[1], by decide⟩ = none := by
    decide +kernel
  have haccepted : doReadBoardInfo ⟨true, true⟩ longItemEeprom initImage =
      (ecSuccess, (doReadBoardInfo ⟨true, true⟩ longItemEeprom initImage).2) := by
    rw [← hcode]
  intro hinside
  have hsafe : SafeAccess wordTags _ := (safeAccess_iff_itemsInside haccepted).2 hinside
  exact hsafe.2 (2 : BitVec 32) ⟨[1], by decide⟩ hset

end Cbi

/-!
## `common/cbi.c`: updates that are rejected

`cbi_set_board_info` removes an item of another size before it finds out that the new one does not
fit.  Then it returns `EC_ERROR_OVERFLOW` and the old item is gone.  In all other cases a rejected
update leaves the image alone.
-/

namespace Cbi

open Lib

variable {cbi : Image} {tag : Nat} {buf : Value}

/-- A call that returns `EC_ERROR_OVERFLOW` leaves the image as it was. -/
def RejectedUnchanged (cbi : Image) (tag : Nat) (buf : Value) : Prop :=
  ∀ cbi', cbiSetBoardInfo cbi tag buf = some (ecErrorOverflow, cbi') → cbi' = cbi

/-- The image has an item with the tag, of another size, and the value does not even fit into the
room that this item leaves. -/
def Evicts (cbi : Image) (tag : Nat) (buf : Value) : Prop :=
  ∃ d size, cbiFindTag cbi tag = some (some d) ∧ itemSize cbi d = some size ∧
    size ≠ buf.val.length ∧ headSize + d + itemHeader + size ≤ cbi.total ∧
    cbi.total ≤ cbiEepromSize ∧ cbiEepromSize < cbi.total - size + buf.val.length

/-- An item that cannot be appended. -/
theorem appendItem_overflow {cbi cbi' : Image}
    (h : appendItem cbi tag buf = some (ecErrorOverflow, cbi')) :
    cbi' = cbi ∧ cbiEepromSize < cbi.total + itemHeader + buf.val.length := by
  rw [appendItem] at h
  split at h
  · rename_i hfull
    simp only [Option.some.injEq, Prod.mk.injEq, true_and] at h
    exact ⟨h.symm, hfull⟩
  · split at h
    · cases h
    · obtain ⟨_, -, heq⟩ := Option.map_eq_some_iff.mp h
      cases heq

/-- **All that `cbi_remove_tag` can do.** -/
theorem cbiRemoveTag_spec {cbi' : Image} {d size : Nat} (hsize : itemSize cbi d = some size)
    (h : cbiRemoveTag cbi d = some cbi') :
    headSize + d + itemHeader + size ≤ cbi.total ∧ cbi.total ≤ cbiEepromSize ∧
      cbi'.total = cbi.total - (itemHeader + size) := by
  simp only [cbiRemoveTag, hsize] at h
  split at h
  · rename_i hinside
    split at h
    · cases h
    · rename_i after hload
      obtain ⟨cbi₁, hstore, rfl⟩ := Option.map_eq_some_iff.mp h
      rw [Image.load, Option.ite_none_right_eq_some] at hload
      rw [Image.store, Option.ite_none_right_eq_some, Option.some_inj] at hstore
      have hbound := hload.1
      simp only [headSize, dataSize, cbiEepromSize] at hbound hinside ⊢
      have hsame : cbi₁.total = cbi.total := by
        rw [← hstore.2]
        rfl
      refine ⟨by lia, by lia, ?_⟩
      rw [setTotal_total _ (by rw [hsame, cbiEepromSize]; lia), hsame]
  · cases h

/-- **When a rejected update changes nothing.**  `cbi_set_board_info` that returns
`EC_ERROR_OVERFLOW` leaves the image as it was, unless it had to remove an old item first. -/
theorem rejectedUnchanged_iff (cbi : Image) (tag : Nat) (buf : Value) :
    RejectedUnchanged cbi tag buf ↔ ¬ Evicts cbi tag buf := by
  constructor
  · rintro hunchanged ⟨d, size, hfind, hsize, hne, hinside, htotal, hfull⟩
    obtain ⟨cbi₁, hremove, -⟩ := cbiRemoveTag_isSome htotal hsize hinside
    have htotal₁ := (cbiRemoveTag_spec hsize hremove).2.2
    have hcall : cbiSetBoardInfo cbi tag buf = some (ecErrorOverflow, cbi₁) := by
      simp only [cbiSetBoardInfo, hfind, hsize, if_pos hne, hremove]
      rw [appendItem, if_pos (by
        simp only [headSize, itemHeader] at *
        omega)]
    -- the image got smaller
    have hsame := hunchanged cbi₁ hcall
    subst hsame
    simp only [headSize, itemHeader] at *
    omega
  · intro hkeeps cbi' h
    rw [cbiSetBoardInfo] at h
    split at h
    · cases h
    · exact (appendItem_overflow h).1
    · rename_i d hfind
      split at h
      · cases h
      · rename_i size hsize
        split at h
        · rename_i hne
          split at h
          · cases h
          · rename_i cbi₁ hremove
            obtain ⟨hinside, htotal, htotal₁⟩ := cbiRemoveTag_spec hsize hremove
            have hfull := (appendItem_overflow h).2
            refine absurd ⟨d, size, hfind, hsize, hne, hinside, htotal, ?_⟩ hkeeps
            simp only [headSize, itemHeader] at *
            omega
        · obtain ⟨_, -, heq⟩ := Option.map_eq_some_iff.mp h
          cases heq

/-- A full image: a SKU of four bytes and an item of 240 bytes. -/
def fullImage : Image where
  head := ⟨cbiMagic, 0, 0, 0, 256⟩
  data := ⟨[2, 4, 1, 0, 0, 0] ++ [9, 240] ++ List.replicate 240 0, by
    rw [List.length_append, List.length_replicate]
    rfl⟩

/-- A SKU of eight bytes does not fit, and the one of four bytes is lost. -/
theorem not_rejectedUnchanged : ¬ RejectedUnchanged fullImage 2 ⟨List.replicate 8 0, by decide⟩ := by
  intro hunchanged
  have hcall : (cbiSetBoardInfo fullImage 2 ⟨List.replicate 8 0, by decide⟩).map
      (fun r => (r.1, r.2.total)) = some (ecErrorOverflow, 250) := by
    decide +kernel
  obtain ⟨⟨code, cbi'⟩, hrun, heq⟩ := Option.map_eq_some_iff.mp hcall
  simp only [Prod.mk.injEq] at heq
  obtain ⟨rfl, htotal⟩ := heq
  rw [hunchanged cbi' hrun] at htotal
  exact absurd htotal (by decide)

end Cbi
end CrosEc
