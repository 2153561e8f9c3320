import CrosEc.Nvmem.Model

/-!
# `common/nvmem_vars.c`: variables in one NVMEM region

Variables are `<key, value>` tuples, laid out one after the other in the region of
one NVMEM user and closed by a zero byte.  They are read and edited in a RAM copy of
the region, `rbuf`, which exists from the first access until `writevars` has
committed it.

Pointers into `rbuf` are offsets.  A value handed to `setvar` may be such a pointer
(`Value.inside`), and then `setvar` edits the memory it is about to read.
-/

namespace CrosEc
namespace Vars

open Lib

/-- The board's choice of the region that holds the variables. -/
structure Config extends Nvmem.Config where
  /-- `CONFIG_FLASH_NVMEM_VARS_USER_NUM` -/
  user : Nat
  /-- `CONFIG_FLASH_NVMEM_VARS_USER_SIZE` -/
  size : Nat
  user_size : userSizes[user]? = some size

/-- `rbuf` and the NVMEM module below it. -/
structure State (n : Nat) where
  nvmem : Nvmem.State n
  rbuf : Option Bytes

/-- The task that makes the calls, what `shared_mem_acquire` returns if it is
called, and what the operations of one `nvmem_save` return. -/
structure Io (n : Nat) where
  task : TaskId
  acquire : Code
  save : Nvmem.SaveOutcome n

/-- `sizeof(struct tuple)` -/
def tupleHeader : Nat := 3

/-! ## Walking the tuples -/

/-- `tuple->key_len` of the tuple at `idx`. -/
def keyLen (buf : Bytes) (idx : Nat) : Nat := (buf.getD idx 0).toNat

/-- `tuple->val_len` of the tuple at `idx`. -/
def valLen (buf : Bytes) (idx : Nat) : Nat := (buf.getD (idx + 1) 0).toNat

/-- `tuple_val`: where the value of the tuple at `idx` starts. -/
def tupleVal (buf : Bytes) (idx : Nat) : Nat := idx + tupleHeader + keyLen buf idx

/-- `match_key_at`.  The space left in the region is a 32-bit difference. -/
def matchKeyAt (size : Nat) (buf : Bytes) (idx : Nat) (key : Bytes) : Bool :=
  let maxLen := min key.length ((2 ^ 32 + size - idx - 1) % 2 ^ 32)
  maxLen = key.length && keyLen buf idx = key.length &&
    readBytes maxLen (buf.drop (idx + tupleHeader)) = key.take maxLen

/-- `next_tuple`: the index it leaves, and whether there is a tuple. -/
def nextTuple (buf : Bytes) (idx : Nat) : Nat × Bool :=
  if keyLen buf idx = 0 then (idx, false)
  else
    let next := idx + tupleHeader + keyLen buf idx + valLen buf idx
    (next, keyLen buf next ≠ 0)

/-- The loop of `getvar_idx`.  Every round advances the index, and past the end of
the buffer there is no tuple. -/
def getvarIdxFrom (size : Nat) (buf key : Bytes) : Nat → Nat → Nat × Bool
  | 0, i => (i, false)
  | fuel + 1, i =>
      if matchKeyAt size buf i key then (i, true)
      else
        let next := nextTuple buf i
        if next.2 then getvarIdxFrom size buf key fuel next.1 else (next.1, false)

/-- `getvar_idx` from index 0. -/
def getvarIdx (size : Nat) (buf key : Bytes) : Nat × Bool :=
  getvarIdxFrom size buf key (buf.length + 1) 0

/-- `while (next_tuple(&i));` -/
def skipTuplesFrom (buf : Bytes) : Nat → Nat → Nat
  | 0, i => i
  | fuel + 1, i =>
      let next := nextTuple buf i
      if next.2 then skipTuplesFrom buf fuel next.1 else next.1

def skipTuples (buf : Bytes) (i : Nat) : Nat := skipTuplesFrom buf (buf.length + 1) i

/-! ## Editing the RAM copy -/

/-- The value argument of `setvar`. -/
inductive Value where
  | null
  /-- memory of the caller -/
  | outside (data : Bytes)
  /-- `len` bytes from offset `off` of `rbuf` -/
  | inside (off len : Nat)

def Value.length : Value → Nat
  | .null => 0
  | .outside data => data.length
  | .inside _ len => len

/-- The first half of `setvar`: cover up the tuple with this key, if there is one.
Returns the buffer and the index at which a new tuple goes. -/
def removeTuple (size : Nat) (buf key : Bytes) : Bytes × Nat :=
  let found := getvarIdx size buf key
  if found.2 then
    let next := nextTuple buf found.1
    if next.2 then
      let moved := moveWithin buf found.1 next.1 (size - next.1)
      (moved, skipTuples moved found.1)
    else (buf, found.1)
  else (buf, found.1)

/-- Mark the end of the tuples at `i` and erase the rest. -/
def markEnd (size : Nat) (buf : Bytes) (i : Nat) : Bytes :=
  writeAt (writeAt buf i [0]) (i + 1) (List.replicate (size - (i + 1)) 0xff)

/-- `memcpy` of the value to offset `dst`. -/
def copyValue (buf : Bytes) (dst : Nat) : Value → Bytes
  | .null => buf
  | .outside data => writeAt buf dst data
  | .inside off len => copyForward buf dst off len

/-- What `setvar` does to the RAM copy. -/
def setvarBuf (size : Nat) (buf key : Bytes) (val : Value) : Code × Bytes :=
  let removed := removeTuple size buf key
  let i := removed.2
  if val.length = 0 then (ecSuccess, markEnd size removed.1 i)
  else if size < i + tupleHeader + key.length + val.length + 1 then
    (ecErrorOverflow, markEnd size removed.1 i)
  else
    let header := [UInt8.ofNat key.length, UInt8.ofNat val.length, 0]
    let keyed := writeAt (writeAt removed.1 i header) (i + tupleHeader) key
    let written := copyValue keyed (i + tupleHeader + key.length) val
    (ecSuccess, markEnd size written (nextTuple written i).1)

/-! ## The API -/

variable {n : Nat} (cfg : Config)

/-- `get_local_copy` -/
def getLocalCopy (io : Io n) (s : State n) : Code × State n :=
  match s.rbuf with
  | some _ => (ecSuccess, s)
  | none =>
      if io.acquire ≠ ecSuccess then (io.acquire, s)
      else
        let r := Nvmem.read cfg.toConfig io.task 0 (UInt32.ofNat cfg.size) cfg.user s.nvmem
        if r.1 ≠ ecSuccess then (r.1, { s with nvmem := r.2.2 })
        else (ecSuccess, { nvmem := r.2.2, rbuf := some r.2.1 })

/-- `getvar`: the offset of the tuple, or `NULL`. -/
def getvar (io : Io n) (key : Bytes) (s : State n) : Option Nat × State n :=
  if key.length = 0 then (none, s)
  else
    let copy := getLocalCopy cfg io s
    if copy.1 ≠ ecSuccess then (none, copy.2)
    else
      match copy.2.rbuf with
      | none => (none, copy.2)
      | some buf =>
          let found := getvarIdx cfg.size buf key
          (if found.2 then some found.1 else none, copy.2)

/-- `setvar` -/
def setvar (io : Io n) (key : Bytes) (val : Value) (s : State n) : Code × State n :=
  if key.length = 0 then (ecErrorInval, s)
  else
    let copy := getLocalCopy cfg io s
    if copy.1 ≠ ecSuccess then (copy.1, copy.2)
    else
      match copy.2.rbuf with
      | none => (copy.1, copy.2)
      | some buf =>
          let r := setvarBuf cfg.size buf key val
          (r.1, { copy.2 with rbuf := some r.2 })

/-- `writevars` -/
def writevars (P : Nvmem.Platform n) (io : Io n) (s : State n) : Code × State n :=
  match s.rbuf with
  | none => (ecSuccess, s)
  | some buf =>
      let written :=
        Nvmem.write cfg.toConfig io.task 0 (UInt32.ofNat cfg.size) buf cfg.user s.nvmem
      if written.1 ≠ ecSuccess then (written.1, { s with nvmem := written.2 })
      else
        let committed := Nvmem.commit P io.task io.save written.2
        if committed.1 ≠ ecSuccess then (committed.1, { s with nvmem := committed.2 })
        else (ecSuccess, { nvmem := committed.2, rbuf := none })

/-- The first loop of `initvars`: the index of the closing zero, or `none` where it
jumps to `fixit`.  Every round advances the index, which stays inside the region. -/
def scanTuplesFrom (size : Nat) (buf : Bytes) : Nat → Nat → Option Nat
  | 0, _ => none
  | fuel + 1, i =>
      if keyLen buf i = 0 then some i
      else if size < i + tupleHeader then none
      else if valLen buf i = 0 then none
      else
        let len := tupleHeader + (keyLen buf i + valLen buf i)
        if size ≤ i + len then none else scanTuplesFrom size buf fuel (i + len)

/-- The checks of `initvars`: tuples inside the region, a closing zero, `0xff` up to
the end. -/
def storeIsValid (size : Nat) (buf : Bytes) : Bool :=
  match scanTuplesFrom size buf (size + 1) 0 with
  | none => false
  | some i => ((buf.take size).drop (i + 1)).all fun b => b = 0xff

/-- `initvars` -/
def initvars (P : Nvmem.Platform n) (io : Io n) (s : State n) : Code × State n :=
  let copy := getLocalCopy cfg io s
  if copy.1 ≠ ecSuccess then (copy.1, copy.2)
  else
    match copy.2.rbuf with
    | none => (copy.1, copy.2)
    | some buf =>
        if storeIsValid cfg.size buf then (ecSuccess, { copy.2 with rbuf := none })
        else writevars cfg P io { copy.2 with rbuf := some (markEnd cfg.size buf 0) }

end Vars
end CrosEc
