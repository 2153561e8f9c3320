import CrosEc.Common
import CrosEc.Lib.DList

/-!
# `common/shmalloc.c`: the shared memory allocator

The pool is cut into chunks.  A chunk starts with a `struct shm_buffer`, its header: two
links and the size of the chunk, header included.  Free chunks are in one doubly linked
chain, in the order of their addresses; allocated chunks are in another one.

Pointers to headers are addresses, and `NULL` is `none`.  Memory is looked at through the
headers only: they lie at the starts of chunks, which do not overlap.  A function returns
`none` where the source would follow a null pointer or a chain would not end.
-/

namespace CrosEc
namespace Shmalloc

open Lib

abbrev Addr := Nat

/-- `struct shm_buffer`; `val` is `buffer_size`. -/
abbrev ShmBuffer := Node Addr Nat

/-- `sizeof(struct shm_buffer)` -/
def headerSize : Nat := 12

/-- The memory between `__shared_mem_buf` and `system_usable_ram_end()`.  It has room for
a header, is smaller than the 256 MiB that `do_acquire` takes for more than there will
ever be, and does not reach up to the end of the address space. -/
structure Pool where
  base : Addr
  size : Nat
  header_le : headerSize ≤ size
  size_lt : size < 0x10000000
  top_lt : base + size < 2 ^ 32

/-- The headers and the static variables. -/
structure State where
  mem : Addr → ShmBuffer
  freeBufChain : Option Addr
  alloccedBufChain : Option Addr
  maxAllocatedSize : Nat

/-- `shared_mem_init` -/
def sharedMemInit (pool : Pool) (mem : Addr → ShmBuffer) : State where
  mem := Function.update mem pool.base ⟨none, none, pool.size⟩
  freeBufChain := some pool.base
  alloccedBufChain := none
  maxAllocatedSize := 0

/-- `if (x) x->prev_buffer = v;` -/
def State.linkPrev (s : State) (x v : Option Addr) : State :=
  { s with mem := Lib.linkPrev s.mem x v }

/-- `x->next_buffer = v;` through a pointer that must not be null. -/
def State.storeNext (s : State) (x v : Option Addr) : Option State :=
  match x with
  | none => none
  | some a => some { s with mem := setNext s.mem a v }

/-- `a->next_buffer = next; a->prev_buffer = prev; a->buffer_size = size;` -/
def State.store (s : State) (a : Addr) (buffer : ShmBuffer) : State :=
  { s with mem := Function.update s.mem a buffer }

/-! ## Releasing -/

/-- The loop that looks for `ptr` from `pfb` on.  `fuel` bounds the length of the chain. -/
def inChain (mem : Addr → ShmBuffer) (ptr : Addr) : Nat → Option Addr → Option Bool
  | _, none => some false
  | 0, some _ => none
  | fuel + 1, some a => if a = ptr then some true else inChain mem ptr fuel (mem a).next

/-- `while (pfb->next_buffer && (pfb->next_buffer < ptr)) pfb = pfb->next_buffer;` -/
def findSpot (mem : Addr → ShmBuffer) (ptr : Addr) : Nat → Addr → Option Addr
  | 0, _ => none
  | fuel + 1, pfb =>
      match (mem pfb).next with
      | none => some pfb
      | some b => if b < ptr then findSpot mem ptr fuel b else some pfb

/-- The first part of `do_release`: take the buffer out of the allocated chain.  The
Boolean is `false` if it is not there. -/
def takeOut (fuel : Nat) (ptr : Addr) (s : State) : Option (Bool × State) :=
  if s.alloccedBufChain = some ptr then
    let s₁ := s.linkPrev (s.mem ptr).next none
    some (true, { s₁ with alloccedBufChain := (s₁.mem ptr).next })
  else
    match s.alloccedBufChain with
    | none => none
    | some head =>
        match inChain s.mem ptr fuel (s.mem head).next with
        | none => none
        | some false => some (false, s)
        | some true =>
            match s.storeNext (s.mem ptr).prev (s.mem ptr).next with
            | none => none
            | some s₁ => some (true, s₁.linkPrev (s₁.mem ptr).next (s₁.mem ptr).prev)

/-- Put the released buffer in front of the free chain, joined with its first buffer if
they touch. -/
def prependFree (ptr head : Addr) (releasedSize : Nat) (s : State) : State :=
  let s₁ :=
    if ptr + releasedSize = head then
      s.store ptr { s.mem ptr with
        next := (s.mem head).next, val := (s.mem head).val + releasedSize }
    else
      let s' := s.store ptr { s.mem ptr with next := some head, val := releasedSize }
      s'.linkPrev (some head) (some ptr)
  let s₂ := s₁.linkPrev (s₁.mem ptr).next (some ptr)
  { s₂ with mem := setPrev s₂.mem ptr none, freeBufChain := some ptr }

/-- The released buffer follows `pfb` without a gap: `pfb` grows, and grows once more if
the released buffer closed the gap to the next one. -/
def growBelow (pfb ptr : Addr) (releasedSize : Nat) (s : State) : Option State :=
  let s₁ := { s with mem := setVal s.mem pfb ((s.mem pfb).val + releasedSize) }
  if some (ptr + releasedSize) = (s₁.mem pfb).next then
    match (s₁.mem pfb).next with
    | none => none
    | some above =>
        let s₂ := { s₁ with mem := setVal s₁.mem pfb ((s₁.mem pfb).val + (s₁.mem above).val) }
        let s₃ := { s₂ with mem := setNext s₂.mem pfb (s₂.mem above).next }
        some (s₃.linkPrev (s₃.mem pfb).next (some pfb))
  else some s₁

/-- The released buffer comes behind `pfb`, joined with the one above it if they touch. -/
def insertAfter (pfb ptr : Addr) (releasedSize : Nat) (s : State) : Option State :=
  let joined :=
    if some (ptr + releasedSize) = (s.mem pfb).next then
      match (s.mem pfb).next with
      | none => none
      | some above => some (s.store ptr { s.mem ptr with
          next := (s.mem above).next, val := releasedSize + (s.mem above).val })
    else
      some (s.store ptr { s.mem ptr with next := (s.mem pfb).next, val := releasedSize })
  match joined with
  | none => none
  | some s₁ =>
      let s₂ := { s₁ with mem := setNext (setPrev s₁.mem ptr (some pfb)) pfb (some ptr) }
      some (s₂.linkPrev (s₂.mem ptr).next (some ptr))

/-- The second part of `do_release`: bring the buffer back into the free chain. -/
def giveBack (fuel : Nat) (ptr : Addr) (s : State) : Option State :=
  let releasedSize := (s.mem ptr).val
  match s.freeBufChain with
  | none => some { s.store ptr ⟨none, none, releasedSize⟩ with freeBufChain := some ptr }
  | some head =>
      if ptr < head then some (prependFree ptr head releasedSize s)
      else
        match findSpot s.mem ptr fuel head with
        | none => none
        | some pfb =>
            if pfb + (s.mem pfb).val = ptr then growBelow pfb ptr releasedSize s
            else insertAfter pfb ptr releasedSize s

/-- `do_release` -/
def doRelease (fuel : Nat) (ptr : Addr) (s : State) : Option State :=
  match takeOut fuel ptr s with
  | none => none
  | some (false, s₁) => some s₁
  | some (true, s₁) => giveBack fuel ptr s₁

/-! ## Acquiring -/

/-- The size that `do_acquire` asks for: rounded up to whole words, and room for the
header.  The parameter is not negative, so the sum stays below `2 ^ 32`. -/
def neededSize (size : Nat) : Nat := (size + 3) / 4 * 4 + headerSize

/-- The search of `do_acquire` from `pfb` on: the smallest headroom and its chunk. -/
def bestFit (mem : Addr → ShmBuffer) (size : Nat) :
    Nat → Option Addr → Nat → Option Addr → Option (Nat × Option Addr)
  | _, none, headroom, candidate => some (headroom, candidate)
  | 0, some _, _, _ => none
  | fuel + 1, some pfb, headroom, candidate =>
      if size < (mem pfb).val ∧ (mem pfb).val - size < headroom then
        bestFit mem size fuel (mem pfb).next ((mem pfb).val - size) (some pfb)
      else bestFit mem size fuel (mem pfb).next headroom candidate

/-- The entire candidate is allocated: it leaves the free chain. -/
def takeWhole (candidate : Addr) (s : State) : Option State :=
  if s.freeBufChain = some candidate then
    let s₁ := { s with freeBufChain := (s.mem candidate).next }
    some (s₁.linkPrev s₁.freeBufChain none)
  else
    match s.storeNext (s.mem candidate).prev (s.mem candidate).next with
    | none => none
    | some s₁ => some (s₁.linkPrev (s₁.mem candidate).next (s₁.mem candidate).prev)

/-- The candidate is cut: its tail takes its place in the free chain. -/
def takePart (candidate : Addr) (size headroom : Nat) (s : State) : Option State :=
  let s₁ := { s with mem := setVal s.mem candidate size }
  let pfb := candidate + size
  let s₂ := s₁.store pfb
    ⟨(s₁.mem candidate).next, (s₁.mem candidate).prev, headroom⟩
  let s₃ := s₂.linkPrev (s₂.mem pfb).next (some pfb)
  if s₃.freeBufChain = some candidate then some { s₃ with freeBufChain := some pfb }
  else s₃.storeNext (s₃.mem pfb).prev (some pfb)

/-- `do_acquire`: the chunk it has taken out of the free chain, if there was one. -/
def doAcquire (fuel : Nat) (size : Nat) (s : State) : Option (Option Addr × State) :=
  match bestFit s.mem (neededSize size) fuel s.freeBufChain 0x10000000 none with
  | none => none
  | some (_, none) => some (none, s)
  | some (headroom, some candidate) =>
      let taken :=
        if headroom ≤ headerSize then takeWhole candidate s
        else takePart candidate (neededSize size) headroom s
      match taken with
      | none => none
      | some s₁ => some (some candidate, s₁)

/-! ## The interface -/

/-- A pool has at most as many chunks as addresses. -/
def Pool.fuel (pool : Pool) : Nat := pool.size + 1

/-- `shared_mem_acquire`, called in a task or in an interrupt: the return code, the pointer
it hands out, the state. -/
def sharedMemAcquire (pool : Pool) (inInterrupt : Bool) (size : Nat) (s : State) :
    Option (Code × Option Addr × State) :=
  if inInterrupt then some (ecErrorInval, none, s)
  else if s.freeBufChain = none then some (ecErrorBusy, none, s)
  else
    match doAcquire pool.fuel size s with
    | none => none
    | some (none, s₁) => some (ecErrorBusy, none, s₁)
    | some (some newBuf, s₁) =>
        let s₂ := { s₁ with mem := setPrev (setNext s₁.mem newBuf s₁.alloccedBufChain) newBuf none }
        let s₃ := s₂.linkPrev s₂.alloccedBufChain (some newBuf)
        some (ecSuccess, some (newBuf + headerSize),
          { s₃ with
            alloccedBufChain := some newBuf
            maxAllocatedSize := max s₃.maxAllocatedSize size })

/-- `(struct shm_buffer *)ptr - 1`; addresses have 32 bits. -/
def headerOf (ptr : Addr) : Addr := (ptr + (2 ^ 32 - headerSize)) % 2 ^ 32

/-- `shared_mem_release` -/
def sharedMemRelease (pool : Pool) (inInterrupt : Bool) (ptr : Addr) (s : State) : Option State :=
  if inInterrupt then some s else doRelease pool.fuel (headerOf ptr) s

/-- The loop of `shared_mem_size` from `pfb` on. -/
def maxAvailable (mem : Addr → ShmBuffer) : Nat → Option Addr → Nat → Option Nat
  | _, none, available => some available
  | 0, some _, _ => none
  | fuel + 1, some pfb, available =>
      maxAvailable mem fuel (mem pfb).next
        (if available < (mem pfb).val then (mem pfb).val else available)

/-- `shared_mem_size` -/
def sharedMemSize (pool : Pool) (s : State) : Option Nat :=
  maxAvailable s.mem pool.fuel s.freeBufChain 0

end Shmalloc
end CrosEc
