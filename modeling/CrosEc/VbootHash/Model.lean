import CrosEc.Common
import CrosEc.Lib.Interleaving

/-!
# `common/vboot_hash.c`, and the part of `common/flash.c` that keeps the hash up to date

A hash of a range of the flash is computed in chunks by the deferred function
`vboot_hash_next_chunk`.  `flash_write` and `flash_erase` abort a computation, and invalidate a
hash whose range they touch.

SHA-256 is a function on what has been hashed, so its context is what has been hashed so far.  A
physical write or erase may leave anything in the range it is called with, and changes nothing
elsewhere.  The build has no `CONFIG_EXTERNAL_STORAGE`.
-/

namespace CrosEc
namespace VbootHash

open Lib

def ecResSuccess : Code := 0
def ecResError : Code := 2
def ecResInvalidParam : Code := 3

/-- `EC_VBOOT_HASH_OFFSET_RO`, `_ACTIVE` and `_UPDATE` -/
def offsetRo : Nat := 0xfffffffe
def offsetActive : Nat := 0xfffffffd
def offsetUpdate : Nat := 0xfffffffc

def typeSha256 : Nat := 0
def statusNone : Nat := 0
def statusDone : Nat := 1
def statusBusy : Nat := 2
def digestSize : Nat := 32
def chunkSize : Nat := 1024

/-- What the build fixes. -/
structure Build where
  flashSize : Nat
  /-- far below, so that the sums of `flash_range_ok` do not overflow -/
  flashSize_le : flashSize ≤ 1073741824
  flashWriteSize : Nat
  flashEraseSize : Nat
  /-- `CONFIG_MAPPED_STORAGE` -/
  mappedStorage : Bool
  /-- `CONFIG_FLASH_MULTIPLE_REGION` -/
  multipleRegion : Bool
  sha256 : Bytes → Blob 32

/-- What a chunk needs without mapped storage: the results of `shared_mem_acquire` and of
`flash_read`. -/
structure ChunkIo where
  acquire : Code
  read : Code

/-- A physical write or erase: its result, and what is in its range afterwards. -/
structure Physical where
  rv : Code
  after : Nat → UInt8

/-- The static variables, and the flash. -/
structure State where
  dataOffset : Nat
  dataSize : Nat
  currPos : Nat
  /-- the hash, or nothing if it is not valid -/
  hash : Option (Blob 32)
  wantAbort : Bool
  inProgress : Bool
  /-- what has been hashed -/
  ctx : Bytes
  /-- a call of `vboot_hash_next_chunk` is pending -/
  pending : Bool
  flash : Nat → UInt8
  /-- the nonce of the last request that was accepted, which the code does not keep -/
  nonce : Bytes

/-- A `uint32_t` sum. -/
def addUint (a b : Nat) : Nat := (a + b) % 4294967296

/-- An `int` sum that overflows wraps around. -/
def addInt (a b : Int) : Int := (a + b).bmod 4294967296

def State.boot (flash : Nat → UInt8) : State where
  dataOffset := 0
  dataSize := 0
  currPos := 0
  hash := none
  wantAbort := false
  inProgress := false
  ctx := []
  pending := false
  flash := flash
  nonce := []

/-- The contents of a range of the flash. -/
def flashRange (flash : Nat → UInt8) (offset size : Nat) : Bytes :=
  (List.range' offset size).map flash

namespace State

/-- `vboot_hash_abort` -/
def abort (s : State) : State :=
  if s.inProgress then { s with wantAbort := true }
  else { s with wantAbort := false, dataSize := 0, hash := none }

/-! ## The deferred function -/

/-- `read_and_hash_chunk` -/
def readAndHashChunk (io : ChunkIo) (offset size : Nat) (s : State) : Code × State :=
  if size = 0 then (ecSuccess, s)
  -- Couldn't update hash right now; try again later
  else if io.acquire = ecErrorBusy then (io.acquire, { s with pending := true })
  else if io.acquire ≠ ecSuccess then (io.acquire, s.abort)
  else if io.read = ecSuccess then
    (io.read, { s with ctx := s.ctx ++ flashRange s.flash offset size })
  else (io.read, s.abort)

/-- The chunk, with or without mapped storage. -/
def hashChunk (b : Build) (io : ChunkIo) (offset size : Nat) (s : State) : Code × State :=
  if b.mappedStorage then (ecSuccess, { s with ctx := s.ctx ++ flashRange s.flash offset size })
  else s.readAndHashChunk io offset size

/-- `vboot_hash_next_chunk` -/
def nextChunk (b : Build) (io : ChunkIo) (s : State) : State :=
  -- Handle abort
  if s.wantAbort then { s with inProgress := false }.abort
  else
    let size := min chunkSize (s.dataSize - s.currPos)
    let (rv, s) := s.hashChunk b io (s.dataOffset + s.currPos) size
    if rv ≠ ecSuccess then s
    else
      let s := { s with currPos := s.currPos + size }
      if s.dataSize ≤ s.currPos then
        let s := { s with hash := some (b.sha256 s.ctx), inProgress := false }
        if s.wantAbort then s.abort else s
      else { s with pending := true }

/-- The hook task clears the deadline and calls `vboot_hash_next_chunk`. -/
def runDeferred (b : Build) (io : ChunkIo) (s : State) : State :=
  { s with pending := false }.nextChunk b io

/-- `vboot_hash_start` -/
def start (b : Build) (offset size : Nat) (nonce : Bytes) (nonceSize : Int) (s : State) :
    Code × State :=
  if s.inProgress then (ecErrorBusy, s)
  else if b.flashSize < offset ∨ b.flashSize < size ∨ b.flashSize < addUint offset size ∨
      nonceSize < 0 then (ecErrorInval, s)
  else
    let nonce := readBytes nonceSize.toNat nonce
    (ecSuccess, { s with
      dataOffset := offset
      dataSize := size
      currPos := 0
      hash := none
      wantAbort := false
      inProgress := true
      ctx := nonce
      pending := true
      nonce := nonce })

/-! ## The flash -/

/-- `vboot_hash_invalidate` -/
def invalidate (offset size : Int) (s : State) : State :=
  -- Don't invalidate if passed an invalid region
  if offset < 0 ∨ size ≤ 0 ∨ addInt offset size < 0 then s
  -- Don't invalidate if hash is already invalid
  else if s.hash.isNone then s
  -- Always invalidate zero-size hash
  else if 0 < s.dataSize ∧
      (addInt offset size ≤ s.dataOffset ∨ addUint s.dataOffset s.dataSize ≤ offset) then s
  else s.abort

/-- `flash_abort_or_invalidate_hash` -/
def abortOrInvalidateHash (offset size : Int) (s : State) : State :=
  if s.inProgress then s.abort else s.invalidate offset size

/-- `flash_range_ok` -/
def rangeOk (b : Build) (offset sizeReq : Int) (align : Nat) : Bool :=
  !(offset < 0 || sizeReq < 0 || b.flashSize < offset || b.flashSize < sizeReq ||
    b.flashSize < offset + sizeReq || (offset.toNat ||| sizeReq.toNat) &&& (align - 1) != 0)

/-- `flash_physical_write` and `flash_physical_erase` -/
def physical (b : Build) (offset size : Int) (p : Physical) (s : State) : Code × State :=
  (p.rv, { s with
    flash := fun i =>
      if 0 ≤ offset ∧ 0 ≤ size ∧ offset + size ≤ b.flashSize ∧ offset ≤ i ∧ i < offset + size then
        p.after i
      else s.flash i })

/-- `flash_write` -/
def flashWrite (b : Build) (offset size : Int) (p : Physical) (s : State) : Code × State :=
  if rangeOk b offset size b.flashWriteSize then
    (s.abortOrInvalidateHash offset size).physical b offset size p
  else (ecErrorInval, s)

/-- `flash_erase` -/
def flashErase (b : Build) (offset size : Int) (p : Physical) (s : State) : Code × State :=
  if b.multipleRegion || rangeOk b offset size b.flashEraseSize then
    (s.abortOrInvalidateHash offset size).physical b offset size p
  else (ecErrorInval, s)

end State

/-! ## The host command -/

/-- `enum ec_vboot_hash_cmd`, and any other number -/
inductive HashCmd where
  | get
  | abort
  | start
  | recalc
  | other
  deriving DecidableEq

/-- `struct ec_params_vboot_hash` -/
structure Params where
  cmd : HashCmd
  hashType : Nat
  nonceSize : Nat
  offset : Nat
  size : Nat
  nonceData : Blob 64

/-- `struct ec_response_vboot_hash` -/
structure Response where
  status : Nat
  hashType : Nat
  digestSize : Nat
  reserved0 : Nat
  offset : Nat
  size : Nat
  hashDigest : Blob 64

/-- Where the images are, and how large. -/
structure Images where
  roOffset : Nat
  activeOffset : Nat
  updateOffset : Nat
  roUsed : Nat
  rwSize : Nat

/-- `get_offset` -/
def Images.getOffset (m : Images) (offset : Nat) : Nat :=
  if offset = offsetRo then m.roOffset
  else if offset = offsetActive then m.activeOffset
  else if offset = offsetUpdate then m.updateOffset
  else offset

/-- Special offset values come with the size of their image. -/
def Images.getSize (m : Images) (p : Params) : Nat :=
  if p.offset = offsetRo then m.roUsed
  else if p.offset = offsetActive ∨ p.offset = offsetUpdate then m.rwSize
  else p.size

namespace State

/-- `fill_response` -/
def fillResponse (m : Images) (r : Response) (requestOffset : Nat) (s : State) : Response :=
  if s.inProgress then { r with status := statusBusy }
  else
    match s.hash with
    | some hash =>
        if m.getOffset requestOffset = s.dataOffset ∧ s.wantAbort = false then {
          status := statusDone
          hashType := typeSha256
          digestSize := digestSize
          reserved0 := 0
          offset := s.dataOffset
          size := s.dataSize
          hashDigest := ⟨writeAt r.hashDigest.1 0 hash.1, by
            rw [length_writeAt]
            exact r.hashDigest.2⟩ }
        else { r with status := statusNone }
    | none => { r with status := statusNone }

/-- `host_start_hash` -/
def hostStartHash (b : Build) (m : Images) (p : Params) (s : State) : Code × State :=
  if p.hashType ≠ typeSha256 then (ecResInvalidParam, s)
  else if 64 < p.nonceSize then (ecResInvalidParam, s)
  else
    let (rv, s) := s.start b (m.getOffset p.offset) (m.getSize p) p.nonceData.1 p.nonceSize
    (if rv = ecSuccess then ecResSuccess
      else if rv = ecErrorInval then ecResInvalidParam else ecResError, s)

/-- The wait of `EC_VBOOT_HASH_RECALC`: the deferred function is called, with these outcomes,
until the computation has ended. -/
def wait (b : Build) : List ChunkIo → State → Option State
  | ios, s =>
      if s.inProgress then
        match ios with
        | [] => none
        | io :: ios => if s.pending then wait b ios (s.runDeferred b io) else none
      else some s

/-- `host_command_vboot_hash`: the return code, and the response if there is one.  There is no
answer where the wait does not end with these outcomes. -/
def hostCommand (b : Build) (m : Images) (p : Params) (r : Response) (ios : List ChunkIo)
    (s : State) : Option (Code × Option Response × State) :=
  match p.cmd with
  | .get =>
      let requestOffset := if p.offset ≠ 0 ∨ p.size ≠ 0 then p.offset else s.dataOffset
      some (ecResSuccess, some (s.fillResponse m r requestOffset), s)
  | .abort => some (ecResSuccess, none, s.abort)
  | .start =>
      let (rv, s) := s.hostStartHash b m p
      if rv ≠ ecResSuccess then some (rv, none, s)
      else some (ecResSuccess, some (s.fillResponse m r p.offset), s)
  | .recalc =>
      let (rv, s) := s.hostStartHash b m p
      if rv ≠ ecResSuccess then some (rv, none, s)
      else (s.wait b ios).map fun s => (ecResSuccess, some (s.fillResponse m r p.offset), s)
  | .other => some (ecResInvalidParam, none, s)

end State

/-! ## Runs -/

inductive Event where
  | start (offset size : Nat) (nonce : Bytes) (nonceSize : Int)
  | abort
  | write (offset size : Int) (p : Physical)
  | erase (offset size : Int) (p : Physical)
  /-- the hook task runs `vboot_hash_next_chunk` -/
  | deferred (io : ChunkIo)
  | host (m : Images) (p : Params) (r : Response) (ios : List ChunkIo)

def step (b : Build) (s : State) : Event → Option State
  | .start offset size nonce nonceSize => some (s.start b offset size nonce nonceSize).2
  | .abort => some s.abort
  | .write offset size p => some (s.flashWrite b offset size p).2
  | .erase offset size p => some (s.flashErase b offset size p).2
  | .deferred io => if s.pending then some (s.runDeferred b io) else none
  | .host m p r ios => (s.hostCommand b m p r ios).map fun answer => answer.2.2

end VbootHash
end CrosEc
