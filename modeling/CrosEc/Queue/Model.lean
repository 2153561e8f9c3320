import CrosEc.Common
import CrosEc.Lib.Ring

/-!
# `common/queue.c`: the queue

A queue has room for `buffer_units` units of `unit_bytes` bytes.  Its head and tail are
`size_t` counters, here of any width `w`, that are reduced to an index only where the
buffer is accessed.

An access outside of the queue's buffer, or outside of the memory that a caller passes,
has the result `none`.  The policy is told how many units were added or removed; it is not
part of the model.
-/

namespace CrosEc

/-- `struct queue`, as far as it is constant: `queue_init` asserts the power of two, and
the buffer is an object in memory. -/
structure Queue (w : Nat) where
  bufferUnits : BitVec w
  unitBytes : BitVec w
  powerOfTwo : ∃ k, bufferUnits.toNat = 2 ^ k
  unitBytes_pos : 0 < unitBytes.toNat
  size_lt : bufferUnits.toNat * unitBytes.toNat < 2 ^ w

namespace Queue

open Lib

/-- `struct queue_state`, and the buffer. -/
structure QueueState (w : Nat) where
  head : BitVec w
  tail : BitVec w
  buffer : Bytes

variable {w : Nat}

/-- `memcpy(dest + destOff, src + srcOff, n)` -/
def memcpy (dest : Bytes) (destOff : BitVec w) (src : Bytes) (srcOff n : BitVec w) :
    Option Bytes :=
  copyAt dest destOff.toNat src srcOff.toNat n.toNat

/-- `queue_init` -/
def queueInit (w : Nat) (buffer : Bytes) : QueueState w := ⟨0, 0, buffer⟩

/-- `queue_is_empty` -/
def queueIsEmpty (s : QueueState w) : Bool := s.head = s.tail

/-- `queue_count` -/
def queueCount (s : QueueState w) : BitVec w := s.tail - s.head

/-- `queue_space` -/
def queueSpace (q : Queue w) (s : QueueState w) : BitVec w := q.bufferUnits - queueCount s

/-- `queue_is_full` -/
def queueIsFull (q : Queue w) (s : QueueState w) : Bool := queueSpace q s = 0

/-- `x & (q->buffer_units - 1)` -/
def index (q : Queue w) (x : BitVec w) : BitVec w := x &&& (q.bufferUnits - 1)

/-- `struct queue_chunk`; the pointer is an offset in the buffer of the queue. -/
structure QueueChunk (w : Nat) where
  length : BitVec w
  buffer : BitVec w

/-- `queue_get_write_chunk` -/
def queueGetWriteChunk (q : Queue w) (s : QueueState w) : QueueChunk w :=
  let head := q.index s.head
  let tail := q.index s.tail
  let last :=
    if queueIsFull q s then tail
    else if tail < head then head
    else q.bufferUnits
  { length := (last - tail) * q.unitBytes, buffer := tail * q.unitBytes }

/-- `queue_get_read_chunk` -/
def queueGetReadChunk (q : Queue w) (s : QueueState w) : QueueChunk w :=
  let head := q.index s.head
  let tail := q.index s.tail
  let last :=
    if queueIsEmpty s then head
    else if head < tail then tail
    else q.bufferUnits
  { length := (last - head) * q.unitBytes, buffer := head * q.unitBytes }

/-- `queue_advance_head` -/
def queueAdvanceHead (count : BitVec w) (s : QueueState w) : BitVec w × QueueState w :=
  let transfer := cMin count (queueCount s)
  (transfer, { s with head := s.head + transfer })

/-- `queue_advance_tail` -/
def queueAdvanceTail (q : Queue w) (count : BitVec w) (s : QueueState w) :
    BitVec w × QueueState w :=
  let transfer := cMin count (queueSpace q s)
  (transfer, { s with tail := s.tail + transfer })

/-- `queue_add_unit` -/
def queueAddUnit (q : Queue w) (src : Bytes) (s : QueueState w) :
    Option (BitVec w × QueueState w) :=
  let tail := q.index s.tail
  if queueSpace q s = 0 then some (0, s)
  else
    let stored :=
      if q.unitBytes = 1 then memcpy s.buffer tail src 0 1
      else memcpy s.buffer (tail * q.unitBytes) src 0 q.unitBytes
    match stored with
    | none => none
    | some buffer => some (queueAdvanceTail q 1 { s with buffer := buffer })

/-- `queue_add_units`, that is `queue_add_memcpy` with the ordinary `memcpy`. -/
def queueAddUnits (q : Queue w) (src : Bytes) (count : BitVec w) (s : QueueState w) :
    Option (BitVec w × QueueState w) :=
  let transfer := cMin count (queueSpace q s)
  let tail := q.index s.tail
  let first := cMin transfer (q.bufferUnits - tail)
  match memcpy s.buffer (tail * q.unitBytes) src 0 (first * q.unitBytes) with
  | none => none
  | some buffer₁ =>
      let stored :=
        if first < transfer then
          memcpy buffer₁ 0 src (first * q.unitBytes) ((transfer - first) * q.unitBytes)
        else some buffer₁
      match stored with
      | none => none
      | some buffer₂ => some (queueAdvanceTail q transfer { s with buffer := buffer₂ })

/-- `queue_read_safe`: the destination after it. -/
def queueReadSafe (q : Queue w) (buffer dest : Bytes) (head transfer : BitVec w) : Option Bytes :=
  let first := cMin transfer (q.bufferUnits - head)
  match memcpy dest 0 buffer (head * q.unitBytes) (first * q.unitBytes) with
  | none => none
  | some dest₁ =>
      if first < transfer then
        memcpy dest₁ (first * q.unitBytes) buffer 0 ((transfer - first) * q.unitBytes)
      else some dest₁

/-- `queue_remove_unit`: the destination comes back with the return value. -/
def queueRemoveUnit (q : Queue w) (dest : Bytes) (s : QueueState w) :
    Option (Bytes × BitVec w × QueueState w) :=
  let head := q.index s.head
  if queueCount s = 0 then some (dest, 0, s)
  else
    let read :=
      if q.unitBytes = 1 then memcpy dest 0 s.buffer head 1
      else memcpy dest 0 s.buffer (head * q.unitBytes) q.unitBytes
    match read with
    | none => none
    | some dest' => some (dest', queueAdvanceHead 1 s)

/-- `queue_remove_units`, that is `queue_remove_memcpy` with the ordinary `memcpy`. -/
def queueRemoveUnits (q : Queue w) (dest : Bytes) (count : BitVec w) (s : QueueState w) :
    Option (Bytes × BitVec w × QueueState w) :=
  let transfer := cMin count (queueCount s)
  match queueReadSafe q s.buffer dest (q.index s.head) transfer with
  | none => none
  | some dest' => some (dest', queueAdvanceHead transfer s)

/-- `queue_peek_units`, that is `queue_peek_memcpy` with the ordinary `memcpy`. -/
def queuePeekUnits (q : Queue w) (dest : Bytes) (i count : BitVec w) (s : QueueState w) :
    Option (Bytes × BitVec w) :=
  let available := queueCount s
  let transfer := cMin count (available - i)
  if i < available then
    match queueReadSafe q s.buffer dest (q.index (s.head + i)) transfer with
    | none => none
    | some dest' => some (dest', transfer)
  else some (dest, transfer)

end Queue
end CrosEc
