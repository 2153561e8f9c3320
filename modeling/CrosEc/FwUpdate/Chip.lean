import CrosEc.FwUpdate.Model

/-!
# `chip/g/upgrade_fw.c`: the two inactive sections of a G chip

Here an update goes to the copies of RO and of RW that do not run.  The first block of each is the
header of the image: it must not be older than the one that runs, and it is stored with a bit in
`image_size` that keeps it from running before the update is complete.
-/

namespace CrosEc
namespace FwUpdate
namespace Chip

open Lib

/-! ## The layout of flash -/

def cfgFlashHalf : UInt32 := 0x40000
def cfgTopSize : UInt32 := 0x3800
def configRoMemOff : UInt32 := 0
def chipRoBMemOff : UInt32 := cfgFlashHalf
def configRoSize : UInt32 := 0x4000
def configRwMemOff : UInt32 := configRoSize
def configRwBMemOff : UInt32 := cfgFlashHalf + configRwMemOff
def configRwSize : UInt32 := cfgFlashHalf - configRwMemOff - cfgTopSize

/-- The part of an RO section behind its code is for certificates. -/
def certsSize : UInt32 := 0x800

/-- The copies of RO and RW that run, or none of the two that there are. -/
inductive Copy where
  | a | b | unknown
  deriving DecidableEq

/-! ## Headers -/

/-- `sizeof(struct SignedHeader)` -/
def headerSize : Nat := 1024

/-- The fields of `struct SignedHeader` by their offsets. -/
def imageSizeOff : Nat := 808
def keyidOff : Nat := 420
def epochOff : Nat := 860
def majorOff : Nat := 864
def minorOff : Nat := 868

def headerField (header : Bytes) (off : Nat) : UInt32 := Codec.uint32.decode (header.drop off)

/-- `new_is_older` -/
def newIsOlder (new old : Bytes) : Bool :=
  if headerField new epochOff ≠ headerField old epochOff then
    headerField new epochOff < headerField old epochOff
  else if headerField new majorOff ≠ headerField old majorOff then
    headerField new majorOff < headerField old majorOff
  else headerField new minorOff < headerField old minorOff

/-- `TOP_IMAGE_SIZE_BIT` -/
def topImageSizeBit : UInt32 := 0x80000000

/-- The header with the top bit of `image_size` set. -/
def corruptHeader (header : Bytes) : Bytes :=
  writeAt header imageSizeOff
    (Codec.uint32.encode (headerField header imageSizeOff ||| topImageSizeBit))

/-! ## State -/

/-- `valid_sections`, the last block that was written, and the flash -/
structure State where
  roBaseOffset : UInt32
  roTopOffset : UInt32
  rwBaseOffset : UInt32
  rwTopOffset : UInt32
  prevOffset : UInt32
  prevTimestamp : UInt64
  flash : Nat → UInt8

/-- The chip, and the images that it runs. -/
structure Device where
  ro : Copy
  rw : Copy
  sha1 : Bytes → Blob 20
  boardIdMismatch : Bytes → Bool
  hardReset : Bool

/-- One PDU, with the clock and the results of the flash operations. -/
structure Pdu where
  body : Bytes
  now : UInt64
  writtenAt : UInt64
  outcome : FlashOutcome

/-- `struct first_response_pdu` -/
structure FirstResponse where
  returnValue : UInt32
  protocolVersion : UInt32
  backupRoOffset : UInt32
  backupRwOffset : UInt32
  /-- minor, major and epoch of the RO and of the RW that run -/
  shv : List (UInt32 × UInt32 × UInt32)
  keyid : List UInt32

inductive Response where
  | startup (pdu : FirstResponse)
  | code (c : UInt8)

structure Outcome where
  response : Response
  ops : List FlashOp
  state : State

def upgradeUnalignedBlockError : UInt8 := 10
def upgradeTruncatedHeaderError : UInt8 := 11
def upgradeBoardIdError : UInt8 := 12

/-! ## The handler -/

section Handler

variable (d : Device)

/-- `set_valid_sections`: the offsets that were determined before the first failure stay. -/
def setValidSections (s : State) : State :=
  let withRo (base : UInt32) : State := { s with roBaseOffset := base }
  let withRw (s : State) (base : UInt32) : State :=
    { s with
      rwBaseOffset := base
      roTopOffset := s.roBaseOffset + configRoSize - certsSize
      rwTopOffset := base + configRwSize }
  let pickRw (s : State) : State :=
    match d.rw with
    | .a => withRw s configRwBMemOff
    | .b => withRw s configRwMemOff
    | .unknown => s
  match d.ro with
  | .a => pickRw (withRo chipRoBMemOff)
  | .b => pickRw (withRo configRoMemOff)
  | .unknown => s

/-- `get_program_memory_addr` of the RO or RW that runs, as an offset into flash. -/
def programOffset (copy : Copy) (a b : UInt32) : Option Nat :=
  match copy with
  | .a => some a.toNat
  | .b => some b.toNat
  | .unknown => none

/-- The header of an image that runs; the one of an unknown image cannot be read. -/
def runningHeader (flash : Nat → UInt8) (off : Option Nat) : Bytes :=
  match off with
  | none => []
  | some off => load flash off headerSize

def roHeader (s : State) : Bytes :=
  runningHeader s.flash (programOffset d.ro configRoMemOff chipRoBMemOff)

def rwHeader (s : State) : Bytes :=
  runningHeader s.flash (programOffset d.rw configRwMemOff configRwBMemOff)

/-- One test of the loop in `contents_allowed`. -/
def overlapsHeader (offset base : UInt32) : Bool :=
  base ≤ offset ∧ offset < base + UInt32.ofNat headerSize

/-- `contents_allowed`: the error, or none. -/
def contentsAllowed (blockOffset bodySize : UInt32) (data : Bytes) (s : State) : Option UInt8 :=
  let checkHeader (header : Bytes) (isRwHeader : Bool) : Option UInt8 :=
    if bodySize < UInt32.ofNat headerSize then some upgradeTruncatedHeaderError
    else if newIsOlder data header then some updateRollbackError
    else if isRwHeader && d.boardIdMismatch data then some upgradeBoardIdError
    else none
  if blockOffset = s.roBaseOffset then checkHeader (roHeader d s) false
  else if blockOffset = s.rwBaseOffset then checkHeader (rwHeader d s) true
  else if [s.roBaseOffset, s.rwBaseOffset].any fun base =>
      overlapsHeader blockOffset base || overlapsHeader (blockOffset + bodySize) base then
    some upgradeUnalignedBlockError
  else none

/-- The erase in `check_update_chunk` if the block is the first of its section. -/
def eraseSection (o : FlashOutcome) (blockOffset base top : UInt32) (s : State) :
    UInt8 × List FlashOp × State :=
  if blockOffset = base then
    let erase := FlashOp.erase base (top - base)
    (if o.eraseOk then updateSuccess else updateEraseFailure, [erase],
      { s with flash := o.leaves s.flash erase })
  else (updateSuccess, [], s)

/-- `check_update_chunk` -/
def checkUpdateChunk (o : FlashOutcome) (blockOffset bodySize : UInt32) (s : State) :
    UInt8 × List FlashOp × State :=
  if s.rwTopOffset ≠ 0 ∧ s.rwBaseOffset ≤ blockOffset ∧ blockOffset + bodySize ≤ s.rwTopOffset then
    eraseSection o blockOffset s.rwBaseOffset s.rwTopOffset s
  else if s.roTopOffset ≠ 0 ∧ s.roBaseOffset ≤ blockOffset ∧
      blockOffset + bodySize ≤ s.roTopOffset then
    eraseSection o blockOffset s.roBaseOffset s.roTopOffset s
  else (updateBadAddr, [], s)

/-- `usb_pdu_valid`: the digest begins the hash of what follows it. -/
def pduValid (body : Bytes) : Bool := (d.sha1 (body.drop 4)).val.take 4 = body.take 4

/-- `60 * SECOND` -/
def backoffTime : UInt64 := 60000000

/-- `SIGNED_TRANSFER_SIZE` -/
def signedTransferSize : UInt32 := 1024

/-- `chunk_came_too_soon` -/
def chunkCameTooSoon (now : UInt64) (blockOffset : UInt32) (s : State) : Bool :=
  if backoffTime < now - s.prevTimestamp then false
  else if s.prevTimestamp = 0 then d.hardReset
  else if s.prevOffset = 0 ∨ s.prevOffset + signedTransferSize ≤ blockOffset then false
  else true

/-- The answer to a PDU without a block. -/
def startup (s : State) : FirstResponse × State :=
  let s' := setValidSections d s
  let blank : FirstResponse :=
    { returnValue := 0
      protocolVersion := 6
      backupRoOffset := 0
      backupRwOffset := 0
      shv := [(0, 0, 0), (0, 0, 0)]
      keyid := [0, 0] }
  let version (header : Bytes) : UInt32 × UInt32 × UInt32 :=
    (headerField header minorOff, headerField header majorOff, headerField header epochOff)
  if s'.roTopOffset = 0 ∨ s'.rwTopOffset = 0 then
    ({ blank with returnValue := updateGenError.toUInt32 }, s')
  else
    ({ blank with
        backupRoOffset := s'.roBaseOffset
        backupRwOffset := s'.rwBaseOffset
        shv := [version (roHeader d s'), version (rwHeader d s')]
        keyid := [headerField (roHeader d s') keyidOff, headerField (rwHeader d s') keyidOff] }, s')

/-- What is written: a header with the top bit of its size set. -/
def storedData (blockOffset : UInt32) (data : Bytes) (s : State) : Bytes :=
  if blockOffset = s.roBaseOffset ∨ blockOffset = s.rwBaseOffset then corruptHeader data else data

/-- `fw_upgrade_command_handler` -/
def commandHandler (s : State) (p : Pdu) : Outcome :=
  let offset := blockBase p.body
  let size := bodySize p.body
  let data := updateData p.body
  if p.body.length < commandSize then ⟨.code updateGenError, [], s⟩
  else if IsStart p.body then
    let started := startup d s
    ⟨.startup started.1, [], started.2⟩
  else if pduValid d p.body = false then ⟨.code updateDataError, [], s⟩
  else
    match contentsAllowed d offset size data s with
    | some code => ⟨.code code, [], s⟩
    | none =>
        let checked := checkUpdateChunk p.outcome offset size s
        if checked.1 ≠ updateSuccess then ⟨.code checked.1, checked.2.1, checked.2.2⟩
        else if chunkCameTooSoon d p.now offset checked.2.2 then
          ⟨.code updateRateLimitError, checked.2.1, checked.2.2⟩
        else
          let stored := storedData offset data checked.2.2
          let write := FlashOp.write offset stored
          let flash := p.outcome.leaves checked.2.2.flash write
          if p.outcome.writeOk = false then
            ⟨.code updateWriteFailure, checked.2.1 ++ [write], { checked.2.2 with flash := flash }⟩
          else
            let written : State :=
              { checked.2.2 with
                flash := flash
                prevTimestamp := p.writtenAt
                prevOffset := offset }
            ⟨.code (if load flash offset.toNat stored.length ≠ stored then updateVerifyError
                else updateSuccess), checked.2.1 ++ [write], written⟩

end Handler

end Chip
end FwUpdate
end CrosEc
