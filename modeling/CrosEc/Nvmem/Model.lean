import CrosEc.Common

/-!
# `common/nvmem.c`: the cache and the two flash partitions

NVMEM keeps one copy of its contents in SRAM and up to two in flash.  A copy is a
`Partition`: a tag (hash, generation) and the buffer shared by all users.  In flash
the buffer is enciphered with the hash as salt.

The functions below follow the source call by call.  What the source gets from
outside is a parameter: the hash and the cipher are in `Platform`, the result of
every fallible flash or cipher call in `SaveOutcome` and `InitOutcome`.
-/

namespace CrosEc
namespace Nvmem

open Lib

/-- `sizeof(struct nvmem_tag)`. -/
def tagSize : Nat := 36

/-- The board's choice of users and sizes.  `sizes_fit` is the requirement of
`include/nvmem.h` on the board's table; the offsets are 32-bit. -/
structure Config where
  /-- `nvmem_user_sizes` -/
  userSizes : List Nat
  /-- `NVMEM_PARTITION_SIZE - sizeof(struct nvmem_tag)` -/
  bufferSize : Nat
  sizes_fit : userSizes.sum ≤ bufferSize
  partition_lt : tagSize + bufferSize < 2 ^ 32

/-- `struct nvmem_tag` -/
structure Tag where
  sha : Blob 16
  padding : Blob 16
  layoutVersion : UInt8
  generation : UInt8
  reserved : Blob 2
  deriving DecidableEq

/-- `struct nvmem_partition` -/
structure Partition (n : Nat) where
  tag : Tag
  buffer : Blob n
  deriving DecidableEq

/-- A partition in which every byte is `b`. -/
def Partition.filled (n : Nat) (b : UInt8) : Partition n where
  tag :=
    { sha := Arr.replicate 16 b, padding := Arr.replicate 16 b, layoutVersion := b,
      generation := b, reserved := Arr.replicate 2 b }
  buffer := Arr.replicate n b

/-- The state of an erased flash partition. -/
abbrev Partition.erased (n : Nat) : Partition n := Partition.filled n 0xff

/-- The bytes after the hash, which are what `nvmem_compute_sha` hashes. -/
def Partition.body {n : Nat} (p : Partition n) : Bytes :=
  p.tag.padding.val ++ [p.tag.layoutVersion, p.tag.generation] ++ p.tag.reserved.val ++ p.buffer.val

/-- The partition as it lies in memory. -/
def Partition.bytes {n : Nat} (p : Partition n) : Bytes := p.tag.sha.val ++ p.body

/-- `app_compute_hash` (the first 16 bytes of a digest) and `app_cipher` when it
succeeds; it produces as many bytes as it is given. -/
structure Platform (n : Nat) where
  computeHash : Bytes → Blob 16
  cipher : Blob 16 → Blob n → Blob n

/-- The static variables of `nvmem.c`, the flash behind them, and the key ladder
that `DCRYPTO_ladder_is_enabled` reports. -/
structure State (n : Nat) where
  flash : Fin 2 → Partition n
  cache : Partition n
  /-- `nvmem_act_partition`; `none` is `NVMEM_NOT_INITIALIZED` -/
  actPartition : Option (Fin 2)
  /-- `nvmem_mutex.task`; `none` is `TASK_ID_COUNT` -/
  mutexTask : Option TaskId
  writeInProgress : Bool
  commitsEnabled : Bool
  errorState : Code
  writeError : Bool
  ladderEnabled : Bool

/-- What the calls of one `nvmem_save` return.  A flash operation that fails leaves
its partition with the contents given here, a failed erase possibly as it was
(`none`); `app_cipher` fails before it writes anything. -/
structure SaveOutcome (n : Nat) where
  erase : Code
  eraseLeaves : Option (Partition n)
  encipher : Bool
  write : Code
  writeLeaves : Partition n
  decipher : Bool

/-- Every flash and cipher operation succeeds. -/
def SaveOutcome.Succeeds {n : Nat} (o : SaveOutcome n) : Prop :=
  o.erase = ecSuccess ∧ o.encipher = true ∧ o.write = ecSuccess ∧ o.decipher = true

/-- The outcome in which everything succeeds. -/
def SaveOutcome.ok (n : Nat) : SaveOutcome n where
  erase := ecSuccess
  eraseLeaves := none
  encipher := true
  write := ecSuccess
  writeLeaves := Partition.erased n
  decipher := true

/-- What the calls of one `nvmem_init` return. -/
structure InitOutcome (n : Nat) where
  decipher : Fin 2 → Bool
  save : SaveOutcome n

/-- The outcome in which everything succeeds. -/
def InitOutcome.ok (n : Nat) : InitOutcome n where
  decipher := fun _ => true
  save := SaveOutcome.ok n

variable {n : Nat} (P : Platform n)

/-! ## The lock -/

/-- `nvmem_lock_cache`, as seen once `mutex_lock` has returned. -/
def lockCache (task : TaskId) (s : State n) : State n :=
  if s.mutexTask = some task then s else { s with mutexTask := some task }

/-- `nvmem_release_cache` -/
def releaseCache (s : State n) : State n :=
  if s.writeInProgress || !s.commitsEnabled then s else { s with mutexTask := none }

/-! ## Saving -/

/-- `nvmem_compute_sha` -/
def computeSha (p : Partition n) : Blob 16 := P.computeHash p.body

/-- The partition that is not active. -/
def destPartition (act : Option (Fin 2)) : Fin 2 :=
  match act with
  | none => 0
  | some p => p + 1

/-- The cache with a new generation and the hash of the result. -/
def stamp (p : Partition n) : Partition n :=
  let bumped : Partition n :=
    { p with tag := { p.tag with layoutVersion := 0, generation := p.tag.generation + 1 } }
  { bumped with tag := { bumped.tag with sha := computeSha P bumped } }

/-- `app_cipher(part->tag.sha, part->buffer, part->buffer, sizeof(part->buffer))` -/
def cipherBuffer (p : Partition n) : Partition n :=
  { p with buffer := P.cipher p.tag.sha p.buffer }

/-- The cleanup at `release_cache:` in `nvmem_save`. -/
def releaseAfterSave (s : State n) : State n :=
  releaseCache { s with writeInProgress := false }

/-- `nvmem_save` -/
def save (o : SaveOutcome n) (s : State n) : Code × State n :=
  if s.ladderEnabled = false then
    (ecSuccess, releaseAfterSave s)
  else if s.cache.tag.sha = computeSha P s.cache then
    (ecSuccess, releaseAfterSave s)
  else
    let dest := destPartition s.actPartition
    if o.erase ≠ ecSuccess then
      (o.erase, releaseAfterSave
        { s with flash := Function.update s.flash dest (o.eraseLeaves.getD (s.flash dest)) })
    else
      let erased := Function.update s.flash dest (Partition.erased n)
      let stamped := stamp P s.cache
      if o.encipher = false then
        (ecErrorUnknown, releaseAfterSave { s with flash := erased, cache := stamped })
      else
        let enciphered := cipherBuffer P stamped
        if o.write ≠ ecSuccess then
          (o.write, releaseAfterSave
            { s with flash := Function.update erased dest o.writeLeaves, cache := enciphered })
        else
          let written := Function.update erased dest enciphered
          if o.decipher = false then
            (ecErrorUnknown, releaseAfterSave { s with flash := written, cache := enciphered })
          else
            (ecSuccess, releaseAfterSave
              { s with flash := written, cache := cipherBuffer P enciphered,
                       actPartition := some dest })

/-! ## Initialisation -/

/-- `nvmem_partition_read_verify`: the code, and what it leaves in the cache. -/
def partitionReadVerify (cipherOk : Bool) (p : Partition n) : Code × Partition n :=
  if cipherOk = false then
    (ecErrorUnknown, p)
  else
    let copy := cipherBuffer P p
    (if copy.tag.sha = computeSha P copy then ecSuccess else ecErrorUnknown, copy)

/-- `nvmem_reinitialize` -/
def reinitialize (task : TaskId) (o : SaveOutcome n) (s : State n) : Code × State n :=
  let locked := lockCache task s
  save P o { locked with actPartition := some 0, cache := Partition.filled n 0xff }

/-- `nvmem_compare_generation`: the partition whose generation is ahead in the
circular order of 8-bit numbers. -/
def compareGeneration (flash : Fin 2 → Partition n) : Fin 2 :=
  let ver0 := (flash 0).tag.generation.toNat
  let ver1 := (flash 1).tag.generation.toNat
  if (ver0 + 256 - ver1) % 256 < 128 then 0 else 1

/-- `nvmem_find_partition` -/
def findPartition (task : TaskId) (o : InitOutcome n) (s : State n) : Code × State n :=
  let newest := compareGeneration s.flash
  let first := partitionReadVerify P (o.decipher newest) (s.flash newest)
  if first.1 = ecSuccess then
    (ecSuccess, { s with cache := first.2, actPartition := some newest })
  else
    let second := partitionReadVerify P (o.decipher (newest + 1)) (s.flash (newest + 1))
    if second.1 = ecSuccess then
      (ecSuccess, { s with cache := second.2, actPartition := some (newest + 1) })
    else
      let r := reinitialize P task o.save { s with cache := second.2, actPartition := none }
      if r.1 ≠ ecSuccess then (ecErrorUnknown, r.2) else (ecSuccess, r.2)

/-- The static variables right after a reset. -/
def powerOn (flash : Fin 2 → Partition n) : State n where
  flash := flash
  cache := Partition.filled n 0
  actPartition := some 0
  mutexTask := none
  writeInProgress := false
  commitsEnabled := false
  errorState := ecSuccess
  writeError := false
  ladderEnabled := true

/-- `nvmem_init`.  The board's table passes the check of
`nvmem_generate_offset_table` by `Config.sizes_fit`. -/
def init (task : TaskId) (o : InitOutcome n) (s : State n) : Code × State n :=
  let r := findPartition P task o
    { s with errorState := ecSuccess, writeError := false, commitsEnabled := true }
  if r.1 ≠ ecSuccess then (r.1, { r.2 with errorState := r.1 }) else (ecSuccess, r.2)

/-! ## Access by the users -/

section Users

variable (cfg : Config)

/-- `nvmem_user_start_offset[user]`, from the start of the partition. -/
def userStartOffset (user : Nat) : UInt32 :=
  UInt32.ofNat (tagSize + (cfg.userSizes.take user).sum)

/-- `nvmem_get_partition_off`.  The sum `offset + len` is a 32-bit one. -/
def getPartitionOff (user : Nat) (offset len : UInt32) : Except Code UInt32 :=
  match cfg.userSizes[user]? with
  | none => .error ecErrorOverflow
  | some size =>
      if UInt32.ofNat size < offset + len then .error ecErrorOverflow
      else .ok (userStartOffset cfg user + offset)

/-- The `size` bytes of the partition from address `addr` on. -/
def Partition.load (p : Partition n) (addr size : UInt32) : Bytes :=
  (List.range size.toNat).map fun i => p.bytes.getD (addr + UInt32.ofNat i).toNat 0

/-- The bytes of one field of the partition, at offset `base` in it, after `size`
bytes of `data` have been copied to address `addr`.  Addresses are 32-bit. -/
def overlay (base : Nat) (addr size : UInt32) (data : Bytes) (field : Bytes) : Bytes :=
  (field.zipIdx base).map fun (b, i) =>
    if UInt32.ofNat i - addr < size then data.getD (UInt32.ofNat i - addr).toNat 0 else b

@[simp] theorem length_overlay (base : Nat) (addr size : UInt32) (data field : Bytes) :
    (overlay base addr size data field).length = field.length := by
  simp [overlay]

/-- `overlay` of an array field. -/
def overlayBlob {m : Nat} (base : Nat) (addr size : UInt32) (data : Bytes) (b : Blob m) : Blob m :=
  ⟨overlay base addr size data b.val, by rw [length_overlay, b.property]⟩

/-- `overlay` of a one-byte field. -/
def overlayByte (base : Nat) (addr size : UInt32) (data : Bytes) (b : UInt8) : UInt8 :=
  (overlay base addr size data [b]).headD 0

/-- `memcpy(nvmem_cache + addr, data, size)` -/
def Partition.store (p : Partition n) (addr size : UInt32) (data : Bytes) : Partition n where
  tag :=
    { sha := overlayBlob 0 addr size data p.tag.sha
      padding := overlayBlob 16 addr size data p.tag.padding
      layoutVersion := overlayByte 32 addr size data p.tag.layoutVersion
      generation := overlayByte 33 addr size data p.tag.generation
      reserved := overlayBlob 34 addr size data p.tag.reserved }
  buffer := overlayBlob tagSize addr size data p.buffer

/-- `nvmem_read`: the code, the bytes copied to the caller, the state. -/
def read (task : TaskId) (offset size : UInt32) (user : Nat) (s : State n) :
    Code × Bytes × State n :=
  let locked := lockCache task s
  match getPartitionOff cfg user offset size with
  | .error code => (code, [], releaseCache locked)
  | .ok addr => (ecSuccess, locked.cache.load addr size, releaseCache locked)

/-- `nvmem_is_different`.  The early return on a bad range does not release the cache. -/
def isDifferent (task : TaskId) (offset size : UInt32) (data : Bytes) (user : Nat) (s : State n) :
    Code × State n :=
  let locked := lockCache task s
  match getPartitionOff cfg user offset size with
  | .error code => (code, locked)
  | .ok addr => (memcmp (locked.cache.load addr size) data, releaseCache locked)

/-- `nvmem_write` -/
def write (task : TaskId) (offset size : UInt32) (data : Bytes) (user : Nat) (s : State n) :
    Code × State n :=
  let locked := { lockCache task s with writeInProgress := true }
  match getPartitionOff cfg user offset size with
  | .error code => (code, { locked with writeError := true })
  | .ok addr => (ecSuccess, { locked with cache := locked.cache.store addr size data })

/-- `nvmem_move` -/
def move (task : TaskId) (srcOffset destOffset size : UInt32) (user : Nat) (s : State n) :
    Code × State n :=
  let locked := { lockCache task s with writeInProgress := true }
  match getPartitionOff cfg user srcOffset size with
  | .error code => (code, { locked with writeError := true })
  | .ok src =>
      match getPartitionOff cfg user destOffset size with
      | .error code => (code, { locked with writeError := true })
      | .ok dest =>
          (ecSuccess, { locked with
            cache := locked.cache.store dest size (locked.cache.load src size) })

/-- `nvmem_commit` -/
def commit (task : TaskId) (o : SaveOutcome n) (s : State n) : Code × State n :=
  if s.mutexTask = none then
    (ecErrorOverflow, s)
  else if s.mutexTask ≠ some task then
    (ecErrorInval, s)
  else if s.writeError then
    (ecErrorUnknown, releaseCache { s with writeError := false, commitsEnabled := true })
  else if s.commitsEnabled = false then
    (ecSuccess, s)
  else
    save P o s

/-- `nvmem_enable_commits` -/
def enableCommits (task : TaskId) (o : SaveOutcome n) (s : State n) : Code × State n :=
  if s.commitsEnabled then (ecSuccess, s)
  else if s.mutexTask ≠ some task then (ecErrorInval, s)
  else commit P task o { s with commitsEnabled := true }

/-- `nvmem_disable_commits` -/
def disableCommits (task : TaskId) (s : State n) : State n :=
  { lockCache task s with commitsEnabled := false }

/-- Where the region of `user` starts in the buffer. -/
def regionStart (user : Nat) : Nat := (cfg.userSizes.take user).sum

/-- `memset(nvmem_cache + user_offset, 0xFF, user_size)` -/
def Partition.eraseRegion (p : Partition n) (user size : Nat) : Partition n :=
  { p with buffer :=
      ⟨writeAt p.buffer.val (regionStart cfg user) (List.replicate size 0xff), by
        rw [length_writeAt, p.buffer.property]⟩ }

/-- One pass of the loop of `nvmem_erase_user_data`. -/
def erasePass (task : TaskId) (user size : Nat) (part : UInt8) (o : SaveOutcome n)
    (s : State n) : Code × State n :=
  let locked := lockCache task s
  let erased := locked.cache.eraseRegion cfg user size
  save P o { locked with
    cache := { erased with tag := { erased.tag with generation := part } } }

/-- `nvmem_erase_user_data`: one pass for each of the two partitions, and the last
error of the two. -/
def eraseUserData (task : TaskId) (user : Nat) (o₀ o₁ : SaveOutcome n) (s : State n) :
    Code × State n :=
  match cfg.userSizes[user]? with
  | none => (ecErrorInval, s)
  | some size =>
      let r₀ := erasePass P cfg task user size 0 o₀ s
      let r₁ := erasePass P cfg task user size 1 o₁ r₀.2
      (if r₁.1 ≠ ecSuccess then r₁.1 else r₀.1, r₁.2)

end Users

end Nvmem
end CrosEc
