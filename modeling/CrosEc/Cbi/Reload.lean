import CrosEc.Cbi.Items

/-!
# `common/cbi.c`: writing the EEPROM and reading it back

A set command that has written the EEPROM has written the whole image, page by page, with a
checksum that fits.  Reading it back, into whatever RAM there is, is accepted and gives an image
with the same items.
-/

namespace CrosEc
namespace Cbi

open Lib

/-! ## Pages -/

/-- **Run lemma.** Once every page is written, the bytes of the image are in the EEPROM. -/
theorem writePages_success (rv : Nat → Code) (bytes : Bytes) (page rest : Nat)
    (eeprom eeprom' : Blob cbiEepromSize) (hbytes : bytes.length = cbiEepromSize)
    (hfits : eepromPageWriteSize * page + rest ≤ cbiEepromSize)
    (hok : writePages rv bytes page rest eeprom = (ecSuccess, eeprom')) (i : Nat) :
    eeprom'.val[i]? =
      if eepromPageWriteSize * page ≤ i ∧ i < eepromPageWriteSize * page + rest then bytes[i]?
      else eeprom.val[i]? := by
  fun_induction writePages rv bytes page rest eeprom with
  | case1 page rest eeprom hrest hrv => exact absurd (congrArg Prod.fst hok) hrv
  | case2 page rest eeprom hrest size hrv chunk ih =>
      have hsize : size = min eepromPageWriteSize rest := rfl
      have hchunk : chunk.length = size := by
        simp only [chunk, List.length_take, List.length_drop, hbytes]
        lia
      have hpage : eepromPageWriteSize * (page + 1) =
          eepromPageWriteSize * page + eepromPageWriteSize := Nat.mul_succ _ _
      have hnext : eepromPageWriteSize * (page + 1) + (rest - size) ≤ cbiEepromSize := by
        simp only [eepromPageWriteSize, cbiEepromSize] at *
        lia
      rw [ih hnext hok, getElem?_writeAt (by rw [hchunk, eeprom.property]; lia), hchunk]
      -- a short page is the last one
      have hread : ∀ j < size, chunk[j]? = bytes[eepromPageWriteSize * page + j]? := by
        intro j hj
        rw [List.getElem?_take_of_lt hj, List.getElem?_drop]
      by_cases hlow : eepromPageWriteSize * page ≤ i ∧ i < eepromPageWriteSize * page + size
      · rw [if_neg (by lia), if_pos hlow, if_pos (by lia), hread _ (by lia),
          Nat.add_sub_cancel' hlow.1]
      · rw [if_neg hlow]
        split <;> split <;> first | rfl | lia
  | case3 page rest eeprom hrest =>
      have heq : eeprom = eeprom' := congrArg Prod.snd hok
      rw [heq, if_neg (by lia)]

theorem length_encode_head (h : CbiHeader) : (CbiHeader.codec.encode h).length = headSize :=
  CbiHeader.codec.length_encode h

theorem length_bytes (cbi : Image) : cbi.bytes.length = cbiEepromSize := by
  rw [Image.bytes, List.length_append, length_encode_head, cbi.data.property]
  rfl

/-- **`write_board_info` that succeeds** has written the whole image. -/
theorem writeBoardInfo_success {wp : Bool} {rv : Nat → Code} {s : State}
    (htotal : s.cbi.total ≤ cbiEepromSize) (hok : (writeBoardInfo wp rv s).1 = ecSuccess) :
    (writeBoardInfo wp rv s).2.eeprom.val =
      s.cbi.bytes.take s.cbi.total ++ s.eeprom.val.drop s.cbi.total := by
  rw [writeBoardInfo] at hok ⊢
  split at hok
  · have hne : ecErrorAccessDenied ≠ ecSuccess := by decide
    exact absurd hok hne
  · next hwp =>
    rw [if_neg hwp]
    have hpages := writePages_success rv s.cbi.bytes 0 s.cbi.total s.eeprom
      (writePages rv s.cbi.bytes 0 s.cbi.total s.eeprom).2 (length_bytes s.cbi)
      (by rw [Nat.mul_zero, Nat.zero_add]; exact htotal) (Prod.ext hok rfl)
    apply List.ext_getElem?
    intro i
    rw [hpages i, Nat.mul_zero, Nat.zero_add]
    have hlen : (s.cbi.bytes.take s.cbi.total).length = s.cbi.total :=
      List.length_take_of_le (by rw [length_bytes]; exact htotal)
    by_cases hi : i < s.cbi.total
    · rw [if_pos ⟨Nat.zero_le i, hi⟩, List.getElem?_append_left (by rw [hlen]; exact hi),
        List.getElem?_take_of_lt hi]
    · rw [if_neg fun h => hi h.2, List.getElem?_append_right (by rw [hlen]; omega), hlen,
        List.getElem?_drop, Nat.add_sub_cancel' (Nat.le_of_not_lt hi)]

@[simp]
theorem writeBoardInfo_cbi (wp : Bool) (rv : Nat → Code) (s : State) :
    (writeBoardInfo wp rv s).2.cbi = s.cbi := by
  rw [writeBoardInfo]
  split <;> rfl

@[simp]
theorem writeBoardInfo_cached (wp : Bool) (rv : Nat → Code) (s : State) :
    (writeBoardInfo wp rv s).2.cachedReadResult = s.cachedReadResult := by
  rw [writeBoardInfo]
  split <;> rfl

/-! ## The checksum -/

/-- The checksum does not cover itself. -/
theorem drop_encode_head (h : CbiHeader) (c : UInt8) :
    (CbiHeader.codec.encode { h with crc := c }).drop 4 = (CbiHeader.codec.encode h).drop 4 := by
  have hlayout : ∀ g : CbiHeader, (CbiHeader.codec.encode g).drop 4 =
      Codec.uint8.encode g.minorVersion ++ (Codec.uint8.encode g.majorVersion ++
        Codec.uint16.encode g.totalSize) := by
    intro g
    show (g.magic.val ++ (Codec.uint8.encode g.crc ++ _)).drop 4 = _
    rw [← List.append_assoc, List.drop_append_of_le_length (by
      rw [List.length_append, g.magic.property, Codec.length_encode]; rfl)]
    rw [List.drop_of_length_le (by
      rw [List.length_append, g.magic.property, Codec.length_encode]; rfl), List.nil_append]
    rfl
  rw [hlayout, hlayout]

/-- What the checksum covers. -/
theorem cbiCrc8_eq {cbi : Image} (htotal : headSize ≤ cbi.total) :
    cbiCrc8 cbi = crc8Arg ((CbiHeader.codec.encode cbi.head).drop 4 ++
      cbi.data.val.take (cbi.total - headSize)) 0 := by
  have hlen : ((CbiHeader.codec.encode cbi.head).drop 4).length = 4 := by
    rw [List.length_drop, length_encode_head]
    rfl
  rw [cbiCrc8, Image.bytes, List.drop_append_of_le_length (by rw [length_encode_head]; decide),
    List.take_append, hlen, List.take_of_length_le (by rw [hlen]; simp only [headSize] at htotal; omega)]
  rw [Nat.sub_sub]
  rfl

theorem sealImage_head_crc (cbi : Image) (htotal : headSize ≤ cbi.total) :
    (sealImage cbi).head.crc = cbiCrc8 (sealImage cbi) := by
  have hsealed : headSize ≤ (sealImage cbi).total := htotal
  rw [cbiCrc8_eq hsealed]
  set g : Image := { cbi with head := { cbi.head with
    majorVersion := cbiVersionMajor, minorVersion := cbiVersionMinor } } with hg
  have hbefore : headSize ≤ g.total := htotal
  show cbiCrc8 g = _
  rw [cbiCrc8_eq hbefore]
  exact congrArg (fun bs => crc8Arg (bs ++ _) 0) (drop_encode_head g.head _).symm

/-! ## Reading back -/

/-- What `do_read_board_info` checks. -/
structure Accepted (cbi : Image) : Prop where
  magic : cbi.head.magic = cbiMagic
  majorVersion : ¬ cbiVersionMajor < cbi.head.majorVersion
  total_ge : headSize ≤ cbi.total
  total_le : cbi.total ≤ cbiEepromSize
  crc : cbiCrc8 cbi = cbi.head.crc

theorem accepted_sealImage {cbi : Image} {its : List Item} (h : Holds cbi its)
    (hmagic : cbi.head.magic = cbiMagic) : Accepted (sealImage cbi) := by
  have hge : headSize ≤ cbi.total := by
    rw [h.total_eq]
    exact Nat.le_add_right _ _
  have hmajor : ¬ cbiVersionMajor < cbiVersionMajor := by decide
  exact ⟨hmagic, hmajor, hge, h.total_le, (sealImage_head_crc cbi hge).symm⟩

/-- The RAM image after both reads. -/
def loadedImage (eeprom : Blob cbiEepromSize) (ram : Image) : Image where
  head := CbiHeader.codec.decode eeprom.val
  data := ⟨writeAt ram.data.val 0 ((eeprom.val.drop headSize).take
    ((CbiHeader.codec.decode eeprom.val).totalSize.toNat - headSize)), by simp [ram.data.property]⟩

/-- **When `do_read_board_info` succeeds.** -/
theorem doReadBoardInfo_eq_success {io : ReadIo} {eeprom : Blob cbiEepromSize} {ram ram' : Image} :
    doReadBoardInfo io eeprom ram = (ecSuccess, ram') ↔
      io.head = true ∧ io.body = true ∧ Accepted (loadedImage eeprom ram) ∧
        ram' = loadedImage eeprom ram := by
  have herr : ∀ {code : Code} {x : Image}, code ≠ ecSuccess → ¬ (code, x) = (ecSuccess, ram') :=
    fun h heq => h (congrArg Prod.fst heq)
  simp only [doReadBoardInfo]
  constructor
  · intro h
    -- every check but the last one leaves with an error
    iterate 6
      split at h
      · exact absurd h (herr (by decide))
    rename_i hhead hmagic hmajor hsize hbody hcrc
    rw [not_or] at hsize
    exact ⟨by simpa using hhead, by simpa using hbody,
      ⟨not_not.1 hmagic, hmajor, Nat.le_of_not_lt hsize.1, Nat.le_of_not_lt hsize.2,
        not_not.1 hcrc⟩, (congrArg Prod.snd h).symm⟩
  · rintro ⟨hhead, hbody, hacc, rfl⟩
    have hsize : ¬ ((loadedImage eeprom ram).total < headSize ∨
        cbiEepromSize < (loadedImage eeprom ram).total) := by
      rw [not_or]
      exact ⟨Nat.not_lt.2 hacc.total_ge, Nat.not_lt.2 hacc.total_le⟩
    refine (if_neg (by simp [hhead])).trans ?_
    refine (if_neg (not_not.2 hacc.magic)).trans ?_
    refine (if_neg hacc.majorVersion).trans ?_
    refine (if_neg hsize).trans ?_
    refine (if_neg (by simp [hbody])).trans ?_
    exact if_neg (not_not.2 hacc.crc)

/-- **Reading back an image from the EEPROM**, into any RAM. -/
theorem doReadBoardInfo_written {cbi : Image} (h : Accepted cbi) {eeprom : Blob cbiEepromSize}
    {rest : Bytes} (heeprom : eeprom.val = cbi.bytes.take cbi.total ++ rest) (ram : Image) :
    ∃ ram', doReadBoardInfo ⟨true, true⟩ eeprom ram = (ecSuccess, ram') ∧
      ram'.head = cbi.head ∧
      ram'.data.val = cbi.data.val.take (cbi.total - headSize) ++
        ram.data.val.drop (cbi.total - headSize) := by
  have hge := h.total_ge
  have hle := h.total_le
  have hbytes : cbi.bytes.take cbi.total =
      CbiHeader.codec.encode cbi.head ++ cbi.data.val.take (cbi.total - headSize) := by
    rw [Image.bytes, List.take_append, length_encode_head,
      List.take_of_length_le (by rw [length_encode_head]; exact hge)]
  rw [hbytes, List.append_assoc] at heeprom
  have hhead : CbiHeader.codec.decode eeprom.val = cbi.head := by
    rw [heeprom, CbiHeader.codec.decode_encode]
  have htotal : (CbiHeader.codec.decode eeprom.val).totalSize.toNat = cbi.total := by
    rw [hhead]
    rfl
  have hlen : (cbi.data.val.take (cbi.total - headSize)).length = cbi.total - headSize := by
    rw [List.length_take, cbi.data.property]
    simp only [dataSize, headSize, cbiEepromSize] at *
    lia
  have hbody : (eeprom.val.drop headSize).take (cbi.total - headSize) =
      cbi.data.val.take (cbi.total - headSize) := by
    rw [heeprom, ← length_encode_head cbi.head, List.drop_left]
    rw [length_encode_head]
    exact List.take_left' hlen
  have hdata : (loadedImage eeprom ram).data.val =
      cbi.data.val.take (cbi.total - headSize) ++ ram.data.val.drop (cbi.total - headSize) := by
    show writeAt ram.data.val 0 _ = _
    rw [htotal, hbody, writeAt, List.take_zero, List.nil_append, Nat.sub_zero, Nat.zero_add, hlen,
      List.take_of_length_le (by
        rw [hlen, ram.data.property]
        simp only [dataSize, headSize, cbiEepromSize] at *
        lia)]
  have hloaded : (loadedImage eeprom ram).head = cbi.head := hhead
  have hloadedTotal : (loadedImage eeprom ram).total = cbi.total := htotal
  have hcrc : cbiCrc8 (loadedImage eeprom ram) = cbi.head.crc := by
    rw [← h.crc, cbiCrc8_eq (by rw [hloadedTotal]; exact hge), cbiCrc8_eq hge, hloadedTotal, hloaded,
      hdata, List.take_left' hlen]
  refine ⟨loadedImage eeprom ram, doReadBoardInfo_eq_success.2 ⟨rfl, rfl, ?_, rfl⟩, hloaded, hdata⟩
  exact ⟨hloaded ▸ h.magic, hloaded ▸ h.majorVersion, hloadedTotal ▸ hge, hloadedTotal ▸ hle,
    by rw [hcrc, hloaded]⟩

/-! ## The command -/

/-- The two checks at the head of `hc_cbi_set`. -/
def refused (cfg : Config) (p : SetParams) (io : SetIo) : Bool :=
  (io.writeProtected && p.flag &&& cbiSetNoSync = 0) ||
    (!cfg.systemUnlocked && (p.tag = cbiTagBoardVersion || p.tag = cbiTagOemId))

/-- The tag a command passes on. -/
def SetParams.cbiTag (cfg : Config) (p : SetParams) : cfg.Tag :=
  BitVec.ofNat cfg.tagBits p.tag.toNat

theorem hcCbiSet_refused {cfg : Config} {p : SetParams} {io : SetIo} (s : State)
    (h : refused cfg p io = true) : hcCbiSet cfg p io s = some (ecResAccessDenied, s) := by
  simp only [refused, Bool.or_eq_true, Bool.and_eq_true, decide_eq_true_eq] at h
  rw [hcCbiSet]
  rcases h with h | h
  · rw [if_pos h]
  · rw [if_pos h, ite_self]

/-- **What a command does that is not refused**: it loads the image or begins a new one, calls
`cbi_set_board_info`, and seals and writes what came out. -/
theorem hcCbiSet_eq {cfg : Config} {p : SetParams} {io : SetIo} {s : State}
    (h : refused cfg p io = false) :
    hcCbiSet cfg p io s =
      if (loadOrInit p io s).1 ≠ ecSuccess then some (ecResError, (loadOrInit p io s).2)
      else
        (cbiSetBoardInfo (loadOrInit p io s).2.cbi (p.cbiTag cfg).toNat p.value).map fun r =>
          if r.1 ≠ ecSuccess then (ecResInvalidParam, { (loadOrInit p io s).2 with cbi := r.2 })
          else
            let s' := { (loadOrInit p io s).2 with cbi := sealImage r.2 }
            if p.flag &&& cbiSetNoSync ≠ 0 then (ecResSuccess, s')
            else
              let w := writeBoardInfo io.writeProtectedLater io.writeRv s'
              (if w.1 ≠ ecSuccess then ecResError else ecResSuccess, w.2) := by
  simp only [refused, Bool.or_eq_false_iff, Bool.and_eq_false_iff, decide_eq_false_iff_not,
    Bool.not_eq_false'] at h
  rw [hcCbiSet, if_neg (by
    rintro ⟨hwp, hsync⟩
    rcases h.1 with h | h
    · exact absurd hwp (by simp [h])
    · exact h hsync), if_neg (by
    rintro ⟨hlocked, htag⟩
    rcases h.2 with h | h
    · exact absurd hlocked (by simp [h])
    · exact htag.elim h.1 h.2)]
  generalize loadOrInit p io s = loaded
  obtain ⟨code, s⟩ := loaded
  simp only [SetParams.cbiTag]
  split
  · rfl
  · cases cbiSetBoardInfo s.cbi (BitVec.ofNat cfg.tagBits p.tag.toNat).toNat p.value with
    | none => rfl
    | some r =>
        simp only [Option.map_some]
        split
        · rfl
        · split <;> rfl

/-- The image is loaded and holds the items. -/
structure Ready (s : State) (its : List Item) : Prop where
  cached : s.cachedReadResult = ecSuccess
  magic : s.cbi.head.magic = cbiMagic
  holds : Holds s.cbi its

theorem holds_sealImage {cbi : Image} {its : List Item} (h : Holds cbi its) :
    Holds (sealImage cbi) its := ⟨h.total_eq, h.data_eq⟩

/-- The image a command works on. -/
theorem Ready.loadOrInit {s : State} {its : List Item} (h : Ready s its) (p : SetParams)
    (io : SetIo) :
    (Cbi.loadOrInit p io s).1 = ecSuccess ∧
      Ready (Cbi.loadOrInit p io s).2 (if p.flag &&& cbiSetInit ≠ 0 then [] else its) := by
  rw [Cbi.loadOrInit]
  split
  · exact ⟨rfl, rfl, rfl, holds_initImage⟩
  · have hcache : s.cachedReadResult ≠ ecErrorCbiCacheInvalid := by
      rw [h.cached]
      decide
    rw [readBoardInfo, if_neg hcache]
    exact ⟨h.cached, h⟩

/-- **Frame.** A command that is not refused leaves the items that its call made of the items
`its` it found; once it has written the EEPROM, the image there will be accepted. -/
theorem hcCbiSet_image {s : State} {its : List Item} {cfg : Config} {p : SetParams} {io : SetIo}
    (hgo : refused cfg p io = false) (hload : (loadOrInit p io s).1 = ecSuccess)
    (hready : Ready (loadOrInit p io s).2 its) :
    ∃ code cbi its' rc s',
      cbiSetBoardInfo (loadOrInit p io s).2.cbi (p.cbiTag cfg).toNat p.value = some (code, cbi) ∧
      SetOutcome (p.cbiTag cfg).toNat p.value its code its' ∧
      hcCbiSet cfg p io s = some (rc, s') ∧ Ready s' its' ∧
      (rc = ecResSuccess → p.flag &&& cbiSetNoSync = 0 →
        Accepted s'.cbi ∧ ∃ rest, s'.eeprom.val = s'.cbi.bytes.take s'.cbi.total ++ rest) := by
  obtain ⟨code, cbi, its', hcall, hholds, hmagic, hout⟩ :=
    cbiSetBoardInfo_outcome hready.holds (p.cbiTag cfg).toNat p.value
  have hmagic' : cbi.head.magic = cbiMagic := hmagic.trans hready.magic
  rw [hcCbiSet_eq hgo, if_neg (not_not.2 hload), hcall, Option.map_some]
  by_cases hcode : code = ecSuccess
  · have hsealed := holds_sealImage hholds
    simp only [hcode, ne_eq, not_true_eq_false, if_false]
    by_cases hsync : p.flag &&& cbiSetNoSync = 0
    · rw [if_neg (not_not.2 hsync)]
      set s1 : State := { (loadOrInit p io s).2 with cbi := sealImage cbi } with hs1
      refine ⟨ecSuccess, cbi, its', _, _, rfl, hcode ▸ hout, rfl,
        ⟨by rw [writeBoardInfo_cached]; exact hready.cached, ?_, ?_⟩, fun hrc _ => ⟨?_, ?_⟩⟩
      · rw [writeBoardInfo_cbi]
        exact hmagic'
      · rw [writeBoardInfo_cbi]
        exact hsealed
      · rw [writeBoardInfo_cbi]
        exact accepted_sealImage hholds hmagic'
      · have hwrite : (writeBoardInfo io.writeProtectedLater io.writeRv s1).1 = ecSuccess := by
          by_contra hfail
          rw [if_pos hfail] at hrc
          exact absurd hrc (by decide)
        rw [writeBoardInfo_cbi]
        exact ⟨_, writeBoardInfo_success hsealed.total_le hwrite⟩
    · rw [if_pos hsync]
      exact ⟨_, _, _, _, _, rfl, hcode ▸ hout, rfl, ⟨hready.cached, hmagic', hsealed⟩,
        fun _ h => absurd h hsync⟩
  · simp only [if_pos hcode]
    exact ⟨_, _, _, _, _, rfl, hout, rfl, ⟨hready.cached, hmagic', hholds⟩,
      fun h => absurd h (by decide)⟩

end Cbi
end CrosEc
