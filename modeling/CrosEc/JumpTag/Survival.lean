import CrosEc.Common
import CrosEc.Lib.Cells

/-!
# `common/system.c`: jump data and jump tags

An image that jumps to another one leaves a structure at the end of RAM, or before the panic data,
and tags below it, the last one lowest.  New fields are added to the start of the structure, so
each field has its distance from the end in every version.

Addresses and the total size of the tags are numbers without a bound: the model has no other end of
RAM.
-/

namespace CrosEc
namespace JumpTag

open Lib

def jumpDataMagic : Int := 0x706d754a
def jumpDataVersion : Int := 3
def jumpDataSizeV2 : Int := 16

/-- `sizeof(struct jump_data)` -/
def jumpDataSize : Int := 24

/-- `sizeof(struct jump_tag)` -/
def jumpTagSize : Int := 4

/-- `ROUNDUP4` -/
def roundup4 (x : Int) : Int := (x + 3) / 4 * 4

/-! ## The fields of `struct jump_data`, from the address of its end -/

def magicAt (e : Int) : Int := e - 4
def versionAt (e : Int) : Int := e - 8
def resetFlagsAt (e : Int) : Int := e - 12
def jumpTagTotalAt (e : Int) : Int := e - 16
def structSizeAt (e : Int) : Int := e - 20
def reserved0At (e : Int) : Int := e - 24

/-- The `struct jump_data` of an image. -/
structure Image where
  version : Int
  structSize : Int
  /-- from version 3 on, the size is itself a field -/
  valid : (version = 2 ∧ structSize = jumpDataSizeV2) ∨ (3 ≤ version ∧ 20 ≤ structSize)

/-- The structure of this source. -/
def thisImage : Image := ⟨jumpDataVersion, jumpDataSize, .inr (by decide)⟩

/-- `jdata` -/
def Image.jdata (im : Image) (e : Int) : Int := e - im.structSize

/-- `system_usable_ram_end` -/
def Image.usableRamEnd (im : Image) (e : Int) (mem : Cells) : Int :=
  im.jdata e - mem.loadInt (jumpTagTotalAt e)

/-- The part of `jump_to_image` that fills in the data that is preserved between jumps. -/
def Image.fillJumpData (im : Image) (e resetFlags : Int) (mem : Cells) : Cells :=
  let mem := if 24 ≤ im.structSize then mem.storeBytes (reserved0At e) [0] else mem
  let mem := mem.storeInt (magicAt e) jumpDataMagic
  let mem := mem.storeInt (versionAt e) im.version
  let mem := mem.storeInt (resetFlagsAt e) resetFlags
  let mem := mem.storeInt (jumpTagTotalAt e) 0
  if 3 ≤ im.version then mem.storeInt (structSizeAt e) im.structSize else mem

/-! ## Tags -/

/-- A number that is stored as a `uint8_t`. -/
def toUint8 (x : Int) : UInt8 := UInt8.ofNat (x % 256).toNat

/-- `system_add_jump_tag` -/
def Image.addJumpTag (im : Image) (e : Int) (tag : UInt16) (version size : Int) (data : Bytes)
    (mem : Cells) : Code × Cells :=
  -- Only allowed during a sysjump
  if mem.loadInt (magicAt e) ≠ jumpDataMagic then (ecErrorUnknown, mem)
  else if 255 < size then (ecErrorInval, mem)
  else
    -- Make room for the new tag
    let total := mem.loadInt (jumpTagTotalAt e) + (roundup4 size + jumpTagSize)
    let mem := mem.storeInt (jumpTagTotalAt e) total
    let t := im.usableRamEnd e mem
    let mem := mem.storeBytes t (encodeLE 2 tag.toNat)
    let mem := mem.storeBytes (t + 2) [toUint8 size]
    let mem := mem.storeBytes (t + 3) [toUint8 version]
    (ecSuccess,
      if size ≠ 0 then mem.storeBytes (t + jumpTagSize) (readBytes size.toNat data) else mem)

/-- The fields of `struct jump_tag`. -/
def tagAt (mem : Cells) (t : Int) : Nat := decodeLE 2 (mem.loadBytes t 2)
def dataSizeAt (mem : Cells) (t : Int) : Nat := (mem.loadByte (t + 2)).toNat
def dataVersionAt (mem : Cells) (t : Int) : Nat := (mem.loadByte (t + 3)).toNat

/-- What `system_get_jump_tag` finds: the version, the size, and where the data is. -/
structure Found where
  version : Nat
  size : Nat
  data : Int
  deriving DecidableEq

/-- The loop of `system_get_jump_tag`; every round uses at least the four bytes of a header. -/
def searchTags (mem : Cells) (base total : Int) (tag : UInt16) : Nat → Int → Option Found
  | 0, _ => none
  | rounds + 1, used =>
      if used < total then
        -- Check the next tag
        let t := base + used
        if tagAt mem t ≠ tag.toNat then
          searchTags mem base total tag rounds (used + (jumpTagSize + roundup4 (dataSizeAt mem t)))
        else some ⟨dataVersionAt mem t, dataSizeAt mem t, t + jumpTagSize⟩
      else none

/-- `system_get_jump_tag` -/
def getJumpTag (e : Int) (tag : UInt16) (mem : Cells) : Option Found :=
  let total := mem.loadInt (jumpTagTotalAt e)
  searchTags mem (thisImage.usableRamEnd e mem) total tag total.toNat 0

/-! ## The next image -/

/-- `system_common_pre_init`, from where the address of the end is known, without the reset flags
that it restores -/
def preInit (e resetFlags : Int) (mem : Cells) : Cells :=
  let version := mem.loadInt (versionAt e)
  if mem.loadInt (magicAt e) = jumpDataMagic ∧ 1 ≤ version ∧ resetFlags = 0 then
    -- Change in jump data struct size between the previous image and this one.
    let delta :=
      if version = 1 then 0
      else if version = 2 then jumpDataSize - jumpDataSizeV2
      else jumpDataSize - mem.loadInt (structSizeAt e)
    let total := mem.loadInt (jumpTagTotalAt e)
    let d := thisImage.usableRamEnd e mem
    let mem := if delta ≠ 0 ∧ total ≠ 0 then mem.memmove d (d + delta) total else mem
    -- Initialize fields added after version 1, and after version 2
    let mem := if version < 2 then mem.storeInt (jumpTagTotalAt e) 0 else mem
    let mem := if version < 3 then mem.storeBytes (reserved0At e) [0] else mem
    let mem := mem.storeInt (structSizeAt e) jumpDataSize
    -- Clear the jump struct's magic number.
    mem.storeInt (magicAt e) 0
  -- Clear the whole jump_data struct
  else mem.storeBytes (thisImage.jdata e) (List.replicate jumpDataSize.toNat 0)

/-! ## Runs -/

/-- A tag that is added. -/
structure Tag where
  tag : UInt16
  version : UInt8
  data : Bytes
  fits : data.length ≤ 255

/-- The calls of the hooks for a jump, in order. -/
def Image.addTags (im : Image) (e : Int) (tags : List Tag) (mem : Cells) : Cells :=
  tags.foldl (fun mem t =>
    (im.addJumpTag e t.tag t.version.toNat t.data.length t.data mem).2) mem

end JumpTag

/-!
## Jump tags survive the jump

The tags lie between the usable end of RAM and the jump data, one right behind the other
(`TagsAt`).  Adding a tag keeps this; the next image, whose structure may be larger or smaller,
moves them all by the difference, and only then writes its new fields.
-/

namespace JumpTag

open Lib Cells

variable {im : Image} {e : Int} {mem mem' : Cells} {tags : List Tag} {a top d : Int}

/-- The bytes that a tag takes. -/
def tagLength (t : Tag) : Int := jumpTagSize + roundup4 t.data.length

/-- The tag is at this address. -/
structure TagAt (mem : Cells) (a : Int) (t : Tag) : Prop where
  tag : tagAt mem a = t.tag.toNat
  size : dataSizeAt mem a = t.data.length
  version : dataVersionAt mem a = t.version.toNat
  data : mem.loadBytes (a + jumpTagSize) t.data.length = t.data

/-- The tags, the last one that was added first, fill the memory from one address to another. -/
def TagsAt (mem : Cells) : Int → List Tag → Int → Prop
  | a, [], top => a = top
  | a, t :: ts, top => TagAt mem a t ∧ TagsAt mem (a + tagLength t) ts top

theorem length_le_tagLength (t : Tag) : jumpTagSize + t.data.length ≤ tagLength t := by
  simp only [tagLength, roundup4]
  omega

theorem TagsAt.le {a : Int} (h : TagsAt mem a tags top) : a + 4 * tags.length ≤ top := by
  induction tags generalizing a with
  | nil =>
      change a = top at h
      simp [h]
  | cons t tags ih =>
      have hrest := ih h.2
      have hlen := length_le_tagLength t
      simp only [jumpTagSize] at hlen
      simp only [List.length_cons, Nat.cast_add, Nat.cast_one]
      omega

/-! ### Tags that are moved -/

theorem TagAt.moved {t : Tag} (h : TagAt mem a t) (hmoved : Moved mem mem' a (a + tagLength t) d) :
    TagAt mem' (a + d) t := by
  have hlen := length_le_tagLength t
  simp only [jumpTagSize] at hlen
  have htag := hmoved.loadBytes (a := a) (n := 2) le_rfl (by lia)
  have hsize := hmoved.loadByte (a := a + 2) (by lia) (by lia)
  have hversion := hmoved.loadByte (a := a + 3) (by lia) (by lia)
  have hdata := hmoved.loadBytes (a := a + jumpTagSize) (n := t.data.length)
    (by simp only [jumpTagSize]; lia) (by simp only [jumpTagSize]; lia)
  rw [add_right_comm] at hsize hversion hdata
  exact {
    tag := by rw [tagAt, htag, ← h.tag, tagAt]
    size := by rw [dataSizeAt, hsize, ← h.size, dataSizeAt]
    version := by rw [dataVersionAt, hversion, ← h.version, dataVersionAt]
    data := hdata.trans h.data }

theorem TagsAt.moved {a : Int} (h : TagsAt mem a tags top) (hmoved : Moved mem mem' a top d) :
    TagsAt mem' (a + d) tags (top + d) := by
  induction tags generalizing a with
  | nil =>
      change a = top at h
      exact congrArg (· + d) h
  | cons t tags ih =>
      have hrest := h.2.le
      have hlen := length_le_tagLength t
      simp only [jumpTagSize] at hlen
      refine ⟨h.1.moved (hmoved.mono le_rfl (by omega)), ?_⟩
      rw [add_right_comm]
      exact ih h.2 (hmoved.mono (by omega) le_rfl)

/-! ### Looking for a tag -/

/-- The answer is the first of the tags with that number. -/
def Finds (mem : Cells) (tag : UInt16) (tags : List Tag) (found : Option Found) : Prop :=
  match tags.find? fun t => t.tag = tag with
  | some t => ∃ data, found = some ⟨t.version.toNat, t.data.length, data⟩ ∧
      mem.loadBytes data t.data.length = t.data
  | none => found = none

/-- The loop goes from tag to tag. -/
theorem finds_searchTags {base total used : Int} {tag : UInt16} {rounds : Nat}
    (h : TagsAt mem (base + used) tags (base + total)) (hrounds : tags.length ≤ rounds) :
    Finds mem tag tags (searchTags mem base total tag rounds used) := by
  induction tags generalizing used rounds with
  | nil =>
      change base + used = base + total at h
      cases rounds with
      | zero => rfl
      | succ rounds =>
          rw [searchTags, if_neg (by omega)]
          rfl
  | cons t tags ih =>
      obtain ⟨rounds, rfl⟩ := Nat.exists_eq_succ_of_ne_zero
        (by rw [List.length_cons] at hrounds; omega : rounds ≠ 0)
      have hle := h.le
      rw [List.length_cons] at hle hrounds
      obtain ⟨hhead, hrest⟩ := h
      rw [searchTags, if_pos (by omega)]
      dsimp only
      rw [hhead.tag, hhead.size, hhead.version]
      by_cases hsame : t.tag = tag
      · rw [if_neg (by simp [hsame]), Finds, List.find?_cons_of_pos (by simpa using hsame)]
        exact ⟨_, rfl, hhead.data⟩
      · rw [if_pos (by simpa [UInt16.toNat_inj] using hsame), Finds,
          List.find?_cons_of_neg (by simpa using hsame)]
        refine ih ?_ (by omega)
        rwa [← add_assoc]

/-! ### Adding tags -/

/-- The state during a jump. -/
structure Jumping (im : Image) (e : Int) (mem : Cells) (tags : List Tag) : Prop where
  magic : mem.loadInt (magicAt e) = jumpDataMagic
  version : mem.loadInt (versionAt e) = im.version
  structSize : 3 ≤ im.version → mem.loadInt (structSizeAt e) = im.structSize
  tags : TagsAt mem (im.usableRamEnd e mem) tags (im.jdata e)

/-- Fields that a write does not meet. -/
theorem loadInt_storeInt_of_ne {b value : Int} (h : a + 4 ≤ b ∨ b + 4 ≤ a) :
    (mem.storeInt b value).loadInt a = mem.loadInt a := by
  have hmoved : Moved mem (mem.storeInt b value) a (a + 4) 0 := moved_storeInt h
  simpa using hmoved.loadInt le_rfl le_rfl

theorem loadInt_storeBytes_of_ne {b : Int} {bs : Bytes} (h : a + 4 ≤ b ∨ b + bs.length ≤ a) :
    (mem.storeBytes b bs).loadInt a = mem.loadInt a := by
  have hmoved : Moved mem (mem.storeBytes b bs) a (a + 4) 0 := moved_storeBytes h
  simpa using hmoved.loadInt le_rfl le_rfl

theorem structSize_ge (im : Image) : 16 ≤ im.structSize ∧ (3 ≤ im.version → 20 ≤ im.structSize) := by
  have hvalid := im.valid
  simp only [jumpDataSizeV2] at hvalid
  omega

/-- What `jump_to_image` fills in. -/
theorem jumping_fillJumpData (im : Image) (e resetFlags : Int) (mem : Cells) :
    Jumping im e (im.fillJumpData e resetFlags mem) [] := by
  unfold Image.fillJumpData
  dsimp only
  generalize (if 24 ≤ im.structSize then mem.storeBytes (reserved0At e) [0] else mem) = mem₀
  have hbefore : ∀ mem₁ : Cells, mem₁.loadInt (magicAt e) = jumpDataMagic →
      mem₁.loadInt (versionAt e) = im.version → mem₁.loadInt (jumpTagTotalAt e) = 0 →
        (3 ≤ im.version → mem₁.loadInt (structSizeAt e) = im.structSize) → Jumping im e mem₁ [] := by
    intro mem₁ hmagic hversion htotal hsize
    refine ⟨hmagic, hversion, hsize, ?_⟩
    simp [TagsAt, Image.usableRamEnd, htotal]
  simp only [magicAt, versionAt, resetFlagsAt, jumpTagTotalAt, structSizeAt] at hbefore ⊢
  split_ifs with hversion
  · apply hbefore
    · simp (disch := lia) only [loadInt_storeInt_of_ne, loadInt_storeInt]
    · simp (disch := lia) only [loadInt_storeInt_of_ne, loadInt_storeInt]
    · simp (disch := lia) only [loadInt_storeInt_of_ne, loadInt_storeInt]
    · exact fun _ => loadInt_storeInt _ _ _
  · apply hbefore
    · simp (disch := lia) only [loadInt_storeInt_of_ne, loadInt_storeInt]
    · simp (disch := lia) only [loadInt_storeInt_of_ne, loadInt_storeInt]
    · simp (disch := lia) only [loadInt_storeInt]
    · exact fun hge => absurd hge hversion

theorem toNat_toUint8 {n : Nat} (h : n ≤ 255) : (toUint8 n).toNat = n := by
  have hcast : ((n : Int) % 256).toNat = n := by omega
  rw [toUint8, hcast, UInt8.toNat_ofNat']
  omega

/-- The writes of a header and its data. -/
def storeTag (mem : Cells) (a : Int) (t : Tag) : Cells :=
  (((mem.storeBytes a (encodeLE 2 t.tag.toNat)).storeBytes (a + 2) [toUint8 t.data.length]).storeBytes
    (a + 3) [toUint8 t.version.toNat]).storeBytes (a + jumpTagSize) t.data

theorem moved_storeTag {lo hi : Int} {t : Tag} (h : hi ≤ a ∨ a + tagLength t ≤ lo) :
    Moved mem (storeTag mem a t) lo hi 0 := by
  have hlen := length_le_tagLength t
  simp only [jumpTagSize] at hlen
  intro x hlo hhi
  simp only [storeTag, jumpTagSize]
  rw [add_zero, storeBytes_of_ne (by lia), storeBytes_of_ne (by simp; lia),
    storeBytes_of_ne (by simp; lia), storeBytes_of_ne (by simp; lia)]

theorem tagAt_storeTag (mem : Cells) (a : Int) (t : Tag) : TagAt (storeTag mem a t) a t := by
  have hsize : (toUint8 t.data.length).toNat = t.data.length := toNat_toUint8 t.fits
  have hversion : (toUint8 t.version.toNat).toNat = t.version.toNat :=
    toNat_toUint8 (Nat.lt_succ_iff.mp t.version.toNat_lt)
  refine ⟨?_, ?_, ?_, loadBytes_storeBytes _ _ _⟩
  · have hbytes : (storeTag mem a t).loadBytes a 2 = encodeLE 2 t.tag.toNat := by
      have hstored := loadBytes_storeBytes mem a (encodeLE 2 t.tag.toNat)
      have hmoved : Moved (mem.storeBytes a (encodeLE 2 t.tag.toNat)) (storeTag mem a t) a (a + 2)
          0 := by
        intro x hlo hhi
        simp only [storeTag, jumpTagSize]
        rw [add_zero, storeBytes_of_ne (by lia), storeBytes_of_ne (by lia),
          storeBytes_of_ne (by lia)]
      rw [length_encodeLE] at hstored
      rw [← hstored]
      simpa using hmoved.loadBytes (n := 2) le_rfl le_rfl
    have hdecode := decodeLE_encodeLE 2 t.tag.toNat []
    rw [List.append_nil] at hdecode
    rw [tagAt, hbytes, hdecode]
    exact Nat.mod_eq_of_lt t.tag.toNat_lt
  · have hbyte : (storeTag mem a t).loadByte (a + 2) = toUint8 t.data.length := by
      simp only [loadByte, storeTag, jumpTagSize]
      rw [storeBytes_of_ne (by lia), storeBytes_of_ne (by lia)]
      simp [storeBytes, Cell.toByte]
    rw [dataSizeAt, hbyte, hsize]
  · have hbyte : (storeTag mem a t).loadByte (a + 3) = toUint8 t.version.toNat := by
      simp only [loadByte, storeTag, jumpTagSize]
      rw [storeBytes_of_ne (by lia)]
      simp [storeBytes, Cell.toByte]
    rw [dataVersionAt, hbyte, hversion]

/-- A tag is added. -/
theorem Jumping.add (h : Jumping im e mem tags) (t : Tag) :
    (im.addJumpTag e t.tag t.version.toNat t.data.length t.data mem).1 = ecSuccess ∧
      Jumping im e (im.addJumpTag e t.tag t.version.toNat t.data.length t.data mem).2
        (t :: tags) := by
  have hsizes := structSize_ge im
  have hlen := length_le_tagLength t
  have hle := h.tags.le
  have hfits := t.fits
  simp only [jumpTagSize] at hlen
  unfold Image.addJumpTag
  rw [if_neg (by simp [h.magic]), if_neg (by lia)]
  dsimp only
  refine ⟨rfl, ?_⟩
  set total := mem.loadInt (jumpTagTotalAt e) with htotal
  set mem₁ := mem.storeInt (jumpTagTotalAt e) (total + (roundup4 t.data.length + jumpTagSize))
    with hmem₁
  have hend : im.usableRamEnd e mem = im.jdata e - total := rfl
  have hend₁ : im.usableRamEnd e mem₁ = im.usableRamEnd e mem - tagLength t := by
    rw [Image.usableRamEnd, hmem₁, loadInt_storeInt, hend, tagLength]
    lia
  have hdata : readBytes (t.data.length : Int).toNat t.data = t.data := by
    rw [Int.toNat_natCast, readBytes_eq_take le_rfl, List.take_length]
  have hwritten : (if (t.data.length : Int) ≠ 0 then
      (((mem₁.storeBytes (im.usableRamEnd e mem₁) (encodeLE 2 t.tag.toNat)).storeBytes
        (im.usableRamEnd e mem₁ + 2) [toUint8 t.data.length]).storeBytes
        (im.usableRamEnd e mem₁ + 3) [toUint8 t.version.toNat]).storeBytes
        (im.usableRamEnd e mem₁ + jumpTagSize) (readBytes (t.data.length : Int).toNat t.data)
      else ((mem₁.storeBytes (im.usableRamEnd e mem₁) (encodeLE 2 t.tag.toNat)).storeBytes
        (im.usableRamEnd e mem₁ + 2) [toUint8 t.data.length]).storeBytes
        (im.usableRamEnd e mem₁ + 3) [toUint8 t.version.toNat]) =
      storeTag mem₁ (im.usableRamEnd e mem₁) t := by
    rw [hdata, storeTag]
    split_ifs with hempty
    · rfl
    · rw [List.length_eq_zero_iff.mp (by lia : t.data.length = 0)]
      simp
  rw [hwritten, hend₁]
  have hjdata : im.usableRamEnd e mem ≤ e - im.structSize := by
    simp only [Image.jdata] at hle
    lia
  -- Nothing from the old usable end of RAM on is written but the total.
  have hfield : ∀ b, im.usableRamEnd e mem ≤ b → b + 4 ≤ jumpTagTotalAt e ∨ jumpTagTotalAt e + 4 ≤ b →
      (storeTag mem₁ (im.usableRamEnd e mem - tagLength t) t).loadInt b = mem.loadInt b := by
    intro b hb hne
    have hmoved : Moved mem₁ (storeTag mem₁ (im.usableRamEnd e mem - tagLength t) t) b (b + 4) 0 :=
      moved_storeTag (.inr (by lia))
    have hsame := hmoved.loadInt le_rfl le_rfl
    rw [add_zero] at hsame
    rw [hsame, hmem₁, loadInt_storeInt_of_ne (by lia)]
  have htotal₁ : (storeTag mem₁ (im.usableRamEnd e mem - tagLength t) t).loadInt
      (jumpTagTotalAt e) = total + tagLength t := by
    have hmoved : Moved mem₁ (storeTag mem₁ (im.usableRamEnd e mem - tagLength t) t)
        (jumpTagTotalAt e) (jumpTagTotalAt e + 4) 0 :=
      moved_storeTag (.inr (by simp only [jumpTagTotalAt]; lia))
    have hsame := hmoved.loadInt le_rfl le_rfl
    rw [add_zero] at hsame
    rw [hsame, hmem₁, loadInt_storeInt, tagLength]
    lia
  simp only [jumpTagTotalAt] at hfield
  exact {
    magic := by
      rw [hfield _ (by simp only [magicAt]; lia) (by simp only [magicAt]; lia)]
      exact h.magic
    version := by
      rw [hfield _ (by simp only [versionAt]; lia) (by simp only [versionAt]; lia)]
      exact h.version
    structSize := by
      intro hversion
      rw [hfield _ (by simp only [structSizeAt]; lia) (by simp only [structSizeAt]; lia)]
      exact h.structSize hversion
    tags := by
      have hnewEnd : im.usableRamEnd e (storeTag mem₁ (im.usableRamEnd e mem - tagLength t) t) =
          im.usableRamEnd e mem - tagLength t := by
        rw [Image.usableRamEnd, htotal₁, hend]
        lia
      rw [hnewEnd]
      refine ⟨tagAt_storeTag _ _ _, ?_⟩
      rw [sub_add_cancel]
      have hstored : Moved mem mem₁ (im.usableRamEnd e mem) (im.jdata e) 0 :=
        moved_storeInt (.inl (by simp only [Image.jdata, jumpTagTotalAt]; lia))
      have hmoved := hstored.trans (moved_storeTag (a := im.usableRamEnd e mem - tagLength t)
        (t := t) (.inr (by lia)))
      simpa using h.tags.moved hmoved }

theorem jumping_addTags (h : Jumping im e mem tags) (added : List Tag) :
    Jumping im e (im.addTags e added mem) (added.reverse ++ tags) := by
  induction added generalizing mem tags with
  | nil => exact h
  | cons t added ih =>
      rw [List.reverse_cons, List.append_assoc]
      exact ih (h.add t).2

/-! ### The next image -/

/-- The difference of the sizes. -/
theorem Jumping.delta_eq (h : Jumping im e mem tags) :
    (if im.version = 1 then 0
      else if im.version = 2 then jumpDataSize - jumpDataSizeV2
      else jumpDataSize - mem.loadInt (structSizeAt e)) = jumpDataSize - im.structSize := by
  rcases im.valid with ⟨hversion, hsize⟩ | ⟨hversion, -⟩
  · rw [if_neg (by omega), if_pos hversion, hsize]
  · rw [if_neg (by omega), if_neg (by omega), h.structSize hversion]

/-- The next image finds a jump, and the fields of version 2. -/
theorem Jumping.preInit_eq (h : Jumping im e mem tags) {total : Int}
    (htotal : mem.loadInt (jumpTagTotalAt e) = total) :
    preInit e 0 mem =
      (((if im.version < 3 then
          (if jumpDataSize - im.structSize ≠ 0 ∧ total ≠ 0 then
            mem.memmove (e - 24 - total) (e - 24 - total + (jumpDataSize - im.structSize)) total
            else mem).storeBytes (reserved0At e) [0]
        else
          if jumpDataSize - im.structSize ≠ 0 ∧ total ≠ 0 then
            mem.memmove (e - 24 - total) (e - 24 - total + (jumpDataSize - im.structSize)) total
          else mem).storeInt (structSizeAt e) jumpDataSize).storeInt (magicAt e) 0) := by
  have hvalid := im.valid
  have hend : thisImage.usableRamEnd e mem = e - 24 - total := by
    rw [Image.usableRamEnd, htotal]
    rfl
  unfold preInit
  dsimp only
  rw [if_pos ⟨h.magic, by rw [h.version]; omega, rfl⟩, h.version, h.delta_eq,
    if_neg (show ¬ im.version < 2 by omega), htotal, hend]

/-- The move takes the tags along, to the new structure, and leaves that alone. -/
theorem moved_shift (e : Int) (mem : Cells) (size total : Int) :
    Moved mem (if jumpDataSize - size ≠ 0 ∧ total ≠ 0 then
        mem.memmove (e - 24 - total) (e - 24 - total + (jumpDataSize - size)) total else mem)
      (e - size - total) (e - size) (size - 24) ∧
    Moved mem (if jumpDataSize - size ≠ 0 ∧ total ≠ 0 then
        mem.memmove (e - 24 - total) (e - 24 - total + (jumpDataSize - size)) total else mem)
      (e - 24) e 0 := by
  by_cases hmove : jumpDataSize - size ≠ 0 ∧ total ≠ 0
  · rw [if_pos hmove]
    simp only [jumpDataSize]
    constructor
    · have hmemmove := moved_memmove mem (e - 24 - total) (e - 24 - total + (24 - size)) total
      rw [show e - 24 - total - (e - 24 - total + (24 - size)) = size - 24 by lia] at hmemmove
      exact hmemmove.mono (by lia) (by lia)
    · intro x hlo hhi
      rw [add_zero, memmove_of_ne (by lia)]
  · rw [if_neg hmove]
    refine ⟨?_, .refl mem _ _⟩
    by_cases hzero : total = 0
    · -- There is no tag.
      intro x hlo hhi
      lia
    · have hsame : size - 24 = 0 := by
        simp only [jumpDataSize] at hmove
        lia
      rw [hsame]
      exact .refl mem _ _

/-- The fields that are initialised are none of the tags, and not their size. -/
theorem initFields_eq (e : Int) (mem : Cells) (version lo : Int) :
    Moved mem (((if version < 3 then mem.storeBytes (reserved0At e) [0] else mem).storeInt
        (structSizeAt e) jumpDataSize).storeInt (magicAt e) 0) lo (e - 24) 0 ∧
    (((if version < 3 then mem.storeBytes (reserved0At e) [0] else mem).storeInt
        (structSizeAt e) jumpDataSize).storeInt (magicAt e) 0).loadInt (jumpTagTotalAt e) =
      mem.loadInt (jumpTagTotalAt e) := by
  constructor
  · intro x hlo hhi
    simp only [structSizeAt, magicAt]
    rw [add_zero, storeInt_of_ne (by omega), storeInt_of_ne (by omega)]
    split_ifs
    · rw [storeBytes_of_ne (by simp only [reserved0At]; omega)]
    · rfl
  · rw [loadInt_storeInt_of_ne (by simp only [jumpTagTotalAt, magicAt]; omega),
      loadInt_storeInt_of_ne (by simp only [jumpTagTotalAt, structSizeAt]; omega)]
    split_ifs
    · rw [loadInt_storeBytes_of_ne (by simp [jumpTagTotalAt, reserved0At])]
    · rfl

/-- **The tags after the jump.** They end where the new structure begins. -/
theorem tagsAt_preInit (h : Jumping im e mem tags) :
    TagsAt (preInit e 0 mem) (thisImage.usableRamEnd e (preInit e 0 mem)) tags
      (thisImage.jdata e) := by
  have hle := h.tags.le
  obtain ⟨total, htotal⟩ : ∃ total, mem.loadInt (jumpTagTotalAt e) = total := ⟨_, rfl⟩
  have hend : im.usableRamEnd e mem = e - im.structSize - total := by
    rw [Image.usableRamEnd, htotal]
    rfl
  have hpos : 0 ≤ total := by
    simp only [Image.jdata] at hle
    lia
  obtain ⟨hmoved, hfields⟩ := moved_shift e mem im.structSize _
  rw [h.preInit_eq htotal]
  generalize (if jumpDataSize - im.structSize ≠ 0 ∧ total ≠ 0 then
    mem.memmove (e - 24 - total) (e - 24 - total + (jumpDataSize - im.structSize)) total
    else mem) = mem₁ at hmoved hfields ⊢
  obtain ⟨hlow, hsame⟩ := initFields_eq e mem₁ im.version (e - 24 - total)
  generalize (((if im.version < 3 then mem₁.storeBytes (reserved0At e) [0] else mem₁).storeInt
    (structSizeAt e) jumpDataSize).storeInt (magicAt e) 0) = mem₂ at hlow hsame ⊢
  have htotal₁ : mem₁.loadInt (jumpTagTotalAt e) = total := by
    have hkept := hfields.loadInt (a := jumpTagTotalAt e) (by simp only [jumpTagTotalAt]; lia)
      (by simp only [jumpTagTotalAt]; lia)
    rwa [add_zero, htotal] at hkept
  have hnewEnd : thisImage.usableRamEnd e mem₂ = e - 24 - total := by
    rw [Image.usableRamEnd, hsame, htotal₁]
    rfl
  have htags := h.tags
  rw [hend] at htags
  have hnew := htags.moved hmoved
  rw [show e - im.structSize - total + (im.structSize - 24) = e - 24 - total by lia,
    show im.jdata e + (im.structSize - 24) = e - 24 by simp only [Image.jdata]; lia] at hnew
  have hfinal := hnew.moved hlow
  rw [add_zero, add_zero] at hfinal
  rw [hnewEnd]
  exact hfinal

/-- The search of the next image. -/
theorem finds_getJumpTag {tag : UInt16}
    (h : TagsAt mem (thisImage.usableRamEnd e mem) tags (thisImage.jdata e)) :
    Finds mem tag tags (getJumpTag e tag mem) := by
  have hle := h.le
  have hend : thisImage.usableRamEnd e mem + mem.loadInt (jumpTagTotalAt e) = thisImage.jdata e :=
    sub_add_cancel _ _
  refine finds_searchTags ?_ (by omega)
  rwa [add_zero, hend]

/-! ### The result -/

/-- The places of tags that fill the memory from an address on. -/
def places : Int → List Tag → List (Int × Int)
  | _, [] => []
  | a, t :: ts => (a, a + tagLength t) :: places (a + tagLength t) ts

/-- Tags do not overlap each other or what is behind them. -/
theorem TagsAt.places {a : Int} (h : TagsAt mem a tags top) :
    (places a tags).Pairwise (fun x y => x.2 ≤ y.1) ∧
      ∀ x ∈ JumpTag.places a tags, a ≤ x.1 ∧ x.2 ≤ top := by
  induction tags generalizing a with
  | nil => exact ⟨.nil, by simp [JumpTag.places]⟩
  | cons t tags ih =>
      obtain ⟨hpairs, hinside⟩ := ih h.2
      have hrest := h.2.le
      have hlen := length_le_tagLength t
      simp only [jumpTagSize] at hlen
      refine ⟨List.pairwise_cons.mpr ⟨fun y hy => (hinside y hy).1, hpairs⟩, ?_⟩
      intro x hx
      rcases List.mem_cons.mp hx with rfl | hx
      · exact ⟨le_rfl, by dsimp only; omega⟩
      · have hin := hinside x hx
        omega

/-- **What becomes of the tags.** The next image finds the last tag that was added with a number,
with its version, size and bytes, and no other number; and in both images the tags are at places
that do not overlap the jump data or each other. -/
structure Survives (im : Image) (e : Int) (tags : List Tag) (old new : Cells) : Prop where
  found : ∀ tag, Finds new tag tags.reverse (getJumpTag e tag new)
  before : TagsAt old (im.usableRamEnd e old) tags.reverse (im.jdata e)
  after : TagsAt new (thisImage.usableRamEnd e new) tags.reverse (thisImage.jdata e)
  apartBefore : (places (im.usableRamEnd e old) tags.reverse).Pairwise (fun x y => x.2 ≤ y.1) ∧
    ∀ x ∈ places (im.usableRamEnd e old) tags.reverse, x.2 ≤ im.jdata e
  apartAfter : (places (thisImage.usableRamEnd e new) tags.reverse).Pairwise
      (fun x y => x.2 ≤ y.1) ∧
    ∀ x ∈ places (thisImage.usableRamEnd e new) tags.reverse, x.2 ≤ thisImage.jdata e

/-- Data of version 1 has no tags, and none are found. -/
theorem getJumpTag_preInit_version_one (hmagic : mem.loadInt (magicAt e) = jumpDataMagic)
    (hversion : mem.loadInt (versionAt e) = 1) (tag : UInt16) :
    getJumpTag e tag (preInit e 0 mem) = none := by
  have htotal : (preInit e 0 mem).loadInt (jumpTagTotalAt e) = 0 := by
    unfold preInit
    dsimp only
    rw [hversion, if_pos ⟨hmagic, le_rfl, rfl⟩, if_pos (show (1 : Int) < 2 by decide),
      if_pos (show (1 : Int) < 3 by decide)]
    rw [loadInt_storeInt_of_ne (by simp only [jumpTagTotalAt, magicAt]; omega),
      loadInt_storeInt_of_ne (by simp only [jumpTagTotalAt, structSizeAt]; omega),
      loadInt_storeBytes_of_ne (by simp [jumpTagTotalAt, reserved0At]), loadInt_storeInt]
  unfold getJumpTag
  dsimp only
  rw [htotal]
  rfl

/-- **Jump tags survive the jump between images**, and for version 1 data no tag is found. -/
theorem jump_tags_survive (e : Int) (mem : Cells) :
    (∀ (im : Image) (resetFlags : Int) (tags : List Tag),
      Survives im e tags (im.addTags e tags (im.fillJumpData e resetFlags mem))
        (preInit e 0 (im.addTags e tags (im.fillJumpData e resetFlags mem)))) ∧
    (mem.loadInt (magicAt e) = jumpDataMagic → mem.loadInt (versionAt e) = 1 →
      ∀ tag, getJumpTag e tag (preInit e 0 mem) = none) := by
  constructor
  · intro im resetFlags tags
    have hjumping := jumping_addTags (jumping_fillJumpData im e resetFlags mem) tags
    rw [List.append_nil] at hjumping
    have hafter := tagsAt_preInit hjumping
    have hplacesBefore := hjumping.tags.places
    have hplacesAfter := hafter.places
    exact {
      found := fun tag => finds_getJumpTag hafter
      before := hjumping.tags
      after := hafter
      apartBefore := ⟨hplacesBefore.1, fun x hx => (hplacesBefore.2 x hx).2⟩
      apartAfter := ⟨hplacesAfter.1, fun x hx => (hplacesAfter.2 x hx).2⟩ }
  · exact getJumpTag_preInit_version_one

/-- Two tags of an image of version 2, and data of version 1. -/
theorem jump_tags_survive_run :
    Survives ⟨2, 16, .inl ⟨rfl, rfl⟩⟩ 1024 [⟨0x4843, 1, [7], by decide⟩, ⟨0x4843, 2, [8, 9], by decide⟩]
        (Image.addTags ⟨2, 16, .inl ⟨rfl, rfl⟩⟩ 1024
          [⟨0x4843, 1, [7], by decide⟩, ⟨0x4843, 2, [8, 9], by decide⟩]
          (Image.fillJumpData ⟨2, 16, .inl ⟨rfl, rfl⟩⟩ 1024 0 fun _ => .byte 0))
        (preInit 1024 0 (Image.addTags ⟨2, 16, .inl ⟨rfl, rfl⟩⟩ 1024
          [⟨0x4843, 1, [7], by decide⟩, ⟨0x4843, 2, [8, 9], by decide⟩]
          (Image.fillJumpData ⟨2, 16, .inl ⟨rfl, rfl⟩⟩ 1024 0 fun _ => .byte 0))) ∧
      getJumpTag 1024 0x4843 (preInit 1024 0
        ((Cells.storeInt (fun _ => .byte 0) (magicAt 1024) jumpDataMagic).storeInt
          (versionAt 1024) 1)) = none := by
  constructor
  · exact (jump_tags_survive 1024 fun _ => .byte 0).1 ⟨2, 16, .inl ⟨rfl, rfl⟩⟩ 0 _
  · apply (jump_tags_survive 1024 _).2
    · rw [loadInt_storeInt_of_ne (by decide), loadInt_storeInt]
    · exact loadInt_storeInt _ _ _

end JumpTag
end CrosEc
