import CrosEc.Common

/-!
# `common/cbi.c`: Cros Board Info

The board information is an image of 256 bytes: a header and a list of data items, each a tag,
a size and a value.  The EC keeps one copy in RAM and one in an EEPROM.

The image in RAM is a header record and the 248 bytes behind it, with offsets into these bytes.
An access that leaves them, or a length that underflows, has the result `none`.

The size of `enum cbi_data_tag` is up to the compiler.  It is a parameter here: a byte with short
enumerations, a word without.
-/

namespace CrosEc
namespace Cbi

open Lib

def ecErrorAccessDenied : Code := 7
/-- `EC_ERROR_CBI_CACHE_INVALID` -/
def ecErrorCbiCacheInvalid : Code := 0x10000

def ecResSuccess : Code := 0
def ecResError : Code := 2
def ecResInvalidParam : Code := 3
def ecResAccessDenied : Code := 4

def cbiEepromSize : Nat := 256
def eepromPageWriteSize : Nat := 16
def cbiVersionMajor : UInt8 := 0
def cbiVersionMinor : UInt8 := 0
def cbiMagic : Blob 3 := ⟨[0x43, 0x42, 0x49], rfl⟩

def cbiTagBoardVersion : UInt32 := 0
def cbiTagOemId : UInt32 := 1
def cbiSetNoSync : UInt32 := 1
def cbiSetInit : UInt32 := 2

structure Config where
  /-- the bits of `enum cbi_data_tag` -/
  tagBits : Nat
  tagBits_ge : 8 ≤ tagBits
  /-- `CONFIG_SYSTEM_UNLOCKED` -/
  systemUnlocked : Bool

/-- A value of `enum cbi_data_tag`. -/
abbrev Config.Tag (cfg : Config) := BitVec cfg.tagBits

/-- A board whose tags are words, locked. -/
def wordTags : Config := ⟨32, by decide, false⟩

/-! ## The image -/

/-- `struct cbi_header` -/
structure CbiHeader where
  magic : Blob 3
  crc : UInt8
  minorVersion : UInt8
  majorVersion : UInt8
  totalSize : UInt16

def CbiHeader.equiv :
    CbiHeader ≃ Blob 3 × UInt8 × UInt8 × UInt8 × UInt16 where
  toFun h := (h.magic, h.crc, h.minorVersion, h.majorVersion, h.totalSize)
  invFun t := ⟨t.1, t.2.1, t.2.2.1, t.2.2.2.1, t.2.2.2.2⟩
  left_inv _ := rfl
  right_inv _ := rfl

/-- The packed layout of the header. -/
def CbiHeader.codec : Codec CbiHeader :=
  .ofEquiv (.prod (.blob 3) (.prod .uint8 (.prod .uint8 (.prod .uint8 .uint16)))) equiv

/-- `sizeof(struct cbi_header)` -/
def headSize : Nat := 8
/-- `sizeof(struct cbi_data)`, the tag and the size -/
def itemHeader : Nat := 2
def dataSize : Nat := 248

/-- The buffer `cbi`. -/
structure Image where
  head : CbiHeader
  data : Blob dataSize

namespace Image

/-- The bytes of the buffer. -/
def bytes (cbi : Image) : Bytes := CbiHeader.codec.encode cbi.head ++ cbi.data.val

/-- `head->total_size` -/
def total (cbi : Image) : Nat := cbi.head.totalSize.toNat

def setTotal (cbi : Image) (n : Nat) : Image :=
  { cbi with head := { cbi.head with totalSize := UInt16.ofNat n } }

/-- Bytes of the data. -/
def load (cbi : Image) (off len : Nat) : Option Bytes :=
  if off + len ≤ dataSize then some ((cbi.data.val.drop off).take len) else none

def store (cbi : Image) (off : Nat) (bs : Bytes) : Option Image :=
  if off + bs.length ≤ dataSize then
    some { cbi with data := ⟨writeAt cbi.data.val off bs, by simp [cbi.data.property]⟩ }
  else none

end Image

/-- The inner loop of `crc8_arg`. -/
def crc8Shift : Nat → UInt32 → UInt32
  | 0, crc => crc
  | i + 1, crc =>
      let crc := if crc &&& 0x8000 ≠ 0 then crc ^^^ ((0x1070 : UInt32) <<< 3) else crc
      crc8Shift i (crc <<< 1)

/-- One round of the outer loop. -/
def crc8Byte (crc : UInt32) (b : UInt8) : UInt32 :=
  let top : UInt32 := b.toUInt32 <<< 8
  crc8Shift 8 (crc ^^^ top)

/-- `crc8_arg` -/
def crc8Arg (data : Bytes) (previousCrc : UInt8) : UInt8 :=
  let crc := data.foldl crc8Byte (previousCrc.toUInt32 <<< 8)
  (crc >>> 8).toUInt8

/-- `cbi_crc8`: over what follows the field `crc`. -/
def cbiCrc8 (cbi : Image) : UInt8 := crc8Arg ((cbi.bytes.drop 4).take (cbi.total - 4)) 0

/-- The loop of `cbi_find_tag`, at offset `p` of the data. -/
def findTagFrom (cbi : Image) (tag p : Nat) : Option (Option Nat) :=
  if headSize + p + itemHeader < cbi.total then
    match cbi.data.val[p]?, cbi.data.val[p + 1]? with
    | some t, some size =>
        if t.toNat = tag then some (some p)
        else findTagFrom cbi tag (p + (itemHeader + size.toNat))
    | _, _ => none
  else some none
termination_by cbi.total - p
decreasing_by
  simp only [itemHeader, headSize] at *
  omega

/-- `cbi_find_tag`: the offset of the item. -/
def cbiFindTag (cbi : Image) (tag : Nat) : Option (Option Nat) := findTagFrom cbi tag 0

/-- `d->size` of the item at `p`. -/
def itemSize (cbi : Image) (p : Nat) : Option Nat := (cbi.data.val[p + 1]?).map UInt8.toNat

/-! ## Access -/

/-- What `cbi_get_board_info` leaves: its return code, the buffer of the caller and `*size`. -/
structure GetResult where
  code : Code
  buf : Bytes
  size : Nat
  deriving DecidableEq

/-- `cbi_get_board_info` once the image is there, with a buffer of `*size` bytes. -/
def getFromImage (cbi : Image) (tag : Nat) (buf : Bytes) : Option GetResult :=
  match cbiFindTag cbi tag with
  | none => none
  | some none => some ⟨ecErrorUnknown, buf, buf.length⟩
  | some (some d) =>
      match itemSize cbi d with
      | none => none
      | some size =>
          -- insufficient buffer size
          if buf.length < size then some ⟨ecErrorInval, buf, buf.length⟩
          else
            match cbi.load (d + itemHeader) size with
            | none => none
            | some value =>
                some ⟨ecSuccess, value ++ List.replicate (buf.length - size) 0, size⟩

/-- `cbi_remove_tag` -/
def cbiRemoveTag (cbi : Image) (d : Nat) : Option Image :=
  match itemSize cbi d with
  | none => none
  | some dsize =>
      let size := itemHeader + dsize
      let next := d + size
      -- the length of the `memmove`
      if headSize + next ≤ cbi.total then
        match cbi.load next (cbi.total - (headSize + next)) with
        | none => none
        | some after => (cbi.store d after).map fun cbi => cbi.setTotal (cbi.total - size)
      else none

/-- Bytes that a `uint8_t` can count. -/
abbrev Value := { v : Bytes // v.length ≤ 255 }

/-- `cbi_set_data` -/
def cbiSetData (cbi : Image) (p tag : Nat) (buf : Bytes) : Option Image :=
  cbi.store p (UInt8.ofNat tag :: UInt8.ofNat buf.length :: buf)

/-- Append a new item, if it fits. -/
def appendItem (cbi : Image) (tag : Nat) (buf : Value) : Option (Code × Image) :=
  if cbiEepromSize < cbi.total + itemHeader + buf.val.length then some (ecErrorOverflow, cbi)
  else if cbi.total < headSize then none
  else
    (cbiSetData cbi (cbi.total - headSize) tag buf).map fun cbi' =>
      (ecSuccess, cbi'.setTotal (cbi.total + (itemHeader + buf.val.length)))

/-- `cbi_set_board_info` -/
def cbiSetBoardInfo (cbi : Image) (tag : Nat) (buf : Value) : Option (Code × Image) :=
  match cbiFindTag cbi tag with
  | none => none
  | some none => appendItem cbi tag buf
  | some (some d) =>
      match itemSize cbi d with
      | none => none
      | some size =>
          if size ≠ buf.val.length then
            -- the size does not match: delete the item
            match cbiRemoveTag cbi d with
            | none => none
            | some cbi => appendItem cbi tag buf
          else (cbi.store (d + itemHeader) buf.val).map fun cbi => (ecSuccess, cbi)

/-! ## The EEPROM -/

/-- Which of the two reads of `do_read_board_info` the bus carries out. -/
structure ReadIo where
  head : Bool
  body : Bool
  deriving DecidableEq

/-- `do_read_board_info` -/
def doReadBoardInfo (io : ReadIo) (eeprom : Blob cbiEepromSize) (cbi : Image) : Code × Image :=
  if !io.head then (ecErrorInval, cbi)
  else
    let cbi := { cbi with head := CbiHeader.codec.decode eeprom.val }
    if cbi.head.magic ≠ cbiMagic then (ecErrorInval, cbi)
    else if cbiVersionMajor < cbi.head.majorVersion then (ecErrorInval, cbi)
    else if cbi.total < headSize ∨ cbiEepromSize < cbi.total then (ecErrorOverflow, cbi)
    else if !io.body then (ecErrorInval, cbi)
    else
      let body := (eeprom.val.drop headSize).take (cbi.total - headSize)
      let cbi := { cbi with data := ⟨writeAt cbi.data.val 0 body, by simp [cbi.data.property]⟩ }
      if cbiCrc8 cbi ≠ cbi.head.crc then (ecErrorInval, cbi) else (ecSuccess, cbi)

/-- The RAM image, the result of reading it, and the EEPROM. -/
structure State where
  cbi : Image
  cachedReadResult : Code
  eeprom : Blob cbiEepromSize

/-- `read_board_info`: on an error a second read is tried. -/
def readBoardInfo (io io' : ReadIo) (s : State) : Code × State :=
  if s.cachedReadResult = ecErrorCbiCacheInvalid then
    let (code, cbi) := doReadBoardInfo io s.eeprom s.cbi
    let (code, cbi) := if code ≠ ecSuccess then doReadBoardInfo io' s.eeprom cbi else (code, cbi)
    (code, { s with cbi := cbi, cachedReadResult := code })
  else (s.cachedReadResult, s)

/-- `cbi_get_board_info` -/
def cbiGetBoardInfo (io io' : ReadIo) (tag : Nat) (buf : Bytes) (s : State) :
    Option (GetResult × State) :=
  let (code, s) := readBoardInfo io io' s
  if code ≠ ecSuccess then some (⟨ecErrorUnknown, buf, buf.length⟩, s)
  else (getFromImage s.cbi tag buf).map fun r => (r, s)

/-- The loop of `write_board_info`, from page `page` on with `rest` bytes left.  `rv` is the
result of the bus for each page; a page whose write fails stays as it was. -/
def writePages (rv : Nat → Code) (bytes : Bytes) (page rest : Nat) (eeprom : Blob cbiEepromSize) :
    Code × Blob cbiEepromSize :=
  if 0 < rest then
    let size := min eepromPageWriteSize rest
    if rv page ≠ ecSuccess then (rv page, eeprom)
    else
      let chunk := (bytes.drop (eepromPageWriteSize * page)).take size
      writePages rv bytes (page + 1) (rest - size)
        ⟨writeAt eeprom.val (eepromPageWriteSize * page) chunk, by simp [eeprom.property]⟩
  else (ecSuccess, eeprom)
termination_by rest
decreasing_by
  simp only [eepromPageWriteSize] at *
  omega

/-- `write_board_info` -/
def writeBoardInfo (writeProtected : Bool) (rv : Nat → Code) (s : State) : Code × State :=
  if writeProtected then (ecErrorAccessDenied, s)
  else
    let (code, eeprom) := writePages rv s.cbi.bytes 0 s.cbi.total s.eeprom
    (code, { s with eeprom := eeprom })

/-! ## The command -/

/-- `struct ec_params_set_cbi`.  The size is not compared with the length of the request, so
`data` goes on with what follows it in memory. -/
structure SetParams where
  tag : UInt32
  flag : UInt32
  size : UInt32
  data : Nat → UInt8

/-- The value a command passes on: the size is cut to a `uint8_t`. -/
def SetParams.value (p : SetParams) : Value :=
  ⟨(List.range p.size.toUInt8.toNat).map p.data, by
    have := p.size.toUInt8.toNat_lt
    simp only [List.length_map, List.length_range]
    omega⟩

/-- What the hardware answers during a command. -/
structure SetIo where
  writeProtected : Bool
  read : ReadIo
  retry : ReadIo
  /-- the write protection when the EEPROM is about to be written -/
  writeProtectedLater : Bool
  writeRv : Nat → Code

/-- The image `CBI_SET_INIT` begins with. -/
def initImage : Image where
  head := ⟨cbiMagic, 0, 0, 0, UInt16.ofNat headSize⟩
  data := ⟨List.replicate dataSize 0, by simp⟩

/-- `CBI_SET_INIT`, or else the image that was read. -/
def loadOrInit (p : SetParams) (io : SetIo) (s : State) : Code × State :=
  if p.flag &&& cbiSetInit ≠ 0 then
    (ecSuccess, { s with cbi := initImage, cachedReadResult := ecSuccess })
  else readBoardInfo io.read io.retry s

/-- The versions and the checksum of a new image. -/
def sealImage (cbi : Image) : Image :=
  let cbi := { cbi with head := { cbi.head with
    majorVersion := cbiVersionMajor, minorVersion := cbiVersionMinor } }
  { cbi with head := { cbi.head with crc := cbiCrc8 cbi } }

/-- `hc_cbi_set` -/
def hcCbiSet (cfg : Config) (p : SetParams) (io : SetIo) (s : State) : Option (Code × State) :=
  if io.writeProtected ∧ p.flag &&& cbiSetNoSync = 0 then some (ecResAccessDenied, s)
  else if !cfg.systemUnlocked ∧ (p.tag = cbiTagBoardVersion ∨ p.tag = cbiTagOemId) then
    some (ecResAccessDenied, s)
  else
    let (code, s) := loadOrInit p io s
    if code ≠ ecSuccess then some (ecResError, s)
    else
      let tag : cfg.Tag := BitVec.ofNat cfg.tagBits p.tag.toNat
      match cbiSetBoardInfo s.cbi tag.toNat p.value with
      | none => none
      | some (code, cbi) =>
          if code ≠ ecSuccess then some (ecResInvalidParam, { s with cbi := cbi })
          else
            let s := { s with cbi := sealImage cbi }
            -- skip the write if the client asks so
            if p.flag &&& cbiSetNoSync ≠ 0 then some (ecResSuccess, s)
            else
              let (code, s) := writeBoardInfo io.writeProtectedLater io.writeRv s
              some (if code ≠ ecSuccess then ecResError else ecResSuccess, s)

end Cbi
end CrosEc
