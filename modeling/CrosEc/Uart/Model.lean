import CrosEc.Common
import CrosEc.Util.Strtoi

/-!
# `common/uart_buffering.c`: the transmit buffer

The console's output goes through a ring of `2 ^ k` bytes, one of which stays free.  Four more
indices into it belong to the host commands that read the console: the snapshot, and what is new in
it since the last one.  The writer moves the latter two out of its way.

This is the code without `CONFIG_POLLING_UART`; the calls of `uart_tx_start`, which let the
transmitter take characters later, are left out.
-/

namespace CrosEc
namespace Uart

open Lib Util

/-- An index into the buffer. -/
abbrev Index (k : Nat) := Fin (2 ^ k)

/-- `TX_BUF_NEXT` -/
def txBufNext {k : Nat} (i : Index k) : Index k :=
  ⟨(i.val + 1) &&& (2 ^ k - 1), Nat.and_lt_two_pow _ (Nat.sub_lt (Nat.two_pow_pos k) Nat.one_pos)⟩

/-- The state of the transmitter's buffer. -/
structure TxState (k : Nat) where
  txBuf : Index k → UInt8
  txBufHead : Index k
  txBufTail : Index k
  txSnapshotHead : Index k
  txSnapshotTail : Index k
  txLastSnapshotHead : Index k
  txNextSnapshotHead : Index k

/-- `CONSOLE_READ_NEXT` and `CONSOLE_READ_RECENT` -/
inductive ConsoleRead where
  | next
  | recent
  deriving DecidableEq

namespace TxState

variable {k : Nat}

/-- The state at boot. -/
def init (k : Nat) : TxState k :=
  let zero : Index k := ⟨0, Nat.two_pow_pos k⟩
  ⟨fun _ => 0, zero, zero, zero, zero, zero, zero⟩

/-- `__tx_char` after the translation of newlines; nothing if the character is dropped. -/
def txPut (u : TxState k) (c : BitVec 32) : Option (TxState k) :=
  let txBufNextHead := txBufNext u.txBufHead
  if txBufNextHead = u.txBufTail then none
  else
    let txBufNewTail := txBufNext txBufNextHead
    some { u with
      -- the place that a READ_RECENT reads from is always ahead of the new head
      txLastSnapshotHead :=
        if txBufNextHead = u.txLastSnapshotHead ∧ u.txLastSnapshotHead ≠ u.txSnapshotHead then
          txBufNewTail
        else u.txLastSnapshotHead
      txNextSnapshotHead :=
        if txBufNextHead = u.txNextSnapshotHead then txBufNewTail else u.txNextSnapshotHead
      txBuf := Function.update u.txBuf u.txBufHead ⟨c.setWidth 8⟩
      txBufHead := txBufNextHead }

/-- `__tx_char`; whether the character was dropped, and the state. -/
def txChar (u : TxState k) (c : BitVec 32) : Bool × TxState k :=
  -- newline to CRLF translation
  match if c = charInt '\n'.toUInt8 then u.txPut (charInt '\r'.toUInt8) else some u with
  | none => (true, u)
  | some u =>
      match u.txPut c with
      | none => (true, u)
      | some u => (false, u)

/-! ## Output -/

/-- `uart_putc` -/
def uartPutc (u : TxState k) (c : BitVec 32) : Code × TxState k :=
  let (rv, u) := u.txChar c
  (if rv then ecErrorOverflow else ecSuccess, u)

/-- The loop of `uart_puts`: where `outstr` points to, up to the NUL, and the state. -/
def putsLoop : Bytes → TxState k → Bytes × TxState k
  | [], u => ([], u)
  | c :: outstr, u =>
      if c = 0 then (c :: outstr, u)
      else
        match u.txChar (charInt c) with
        | (true, u) => (outstr, u)
        | (false, u) => putsLoop outstr u

/-- `uart_puts` of the string with these characters. -/
def uartPuts (u : TxState k) (outstr : Bytes) : Code × TxState k :=
  let (outstr, u) := putsLoop outstr u
  (if outstr.headD 0 ≠ 0 then ecErrorOverflow else ecSuccess, u)

/-- The loop of `uart_put`, with `len`. -/
def putLoop : Bytes → Int → TxState k → Int × TxState k
  -- the test of the last round decrements as well
  | [], len, u => (len - 1, u)
  | c :: out, len, u =>
      match u.txChar (charInt c) with
      | (true, u) => (len - 1, u)
      | (false, u) => putLoop out (len - 1) u

/-- `uart_put` of these characters and their number. -/
def uartPut (u : TxState k) (out : Bytes) : Code × TxState k :=
  let (len, u) := putLoop out out.length u
  (if len ≠ 0 then ecErrorOverflow else ecSuccess, u)

/-- `uart_process_output`, when the transmitter is ready for some number of characters. -/
def uartProcessOutput : Nat → TxState k → TxState k
  | 0, u => u
  | ready + 1, u =>
      if u.txBufHead ≠ u.txBufTail then
        uartProcessOutput ready { u with txBufTail := txBufNext u.txBufTail }
      else u

/-! ## The console's host commands -/

/-- The search for a byte that is used, with a bound on its rounds. -/
def skipUnused (u : TxState k) : Nat → Index k → Index k
  | 0, tail => tail
  | rounds + 1, tail =>
      if tail = u.txSnapshotHead ∨ u.txBuf tail ≠ 0 then tail
      else skipUnused u rounds (txBufNext tail)

/-- `uart_console_read_buffer_init` -/
def uartConsoleReadBufferInit (u : TxState k) : TxState k :=
  -- assume the whole circular buffer is full
  let u := { u with
    txSnapshotHead := u.txBufHead
    txSnapshotTail := txBufNext u.txBufHead
    -- the pointer for just the new part of the buffer
    txLastSnapshotHead := u.txNextSnapshotHead
    txNextSnapshotHead := u.txBufHead }
  { u with txSnapshotTail := skipUnused u (2 ^ k) u.txSnapshotTail }

/-- The copying loop, with a bound on its rounds: `*tail`, and the characters copied.  `room` is
`dest_size - 1`, and `write_count` counts up from 0. -/
def copyLoop (u : TxState k) (room : Int) : Nat → Index k → Bytes → Index k × Bytes
  | 0, tail, dest => (tail, dest)
  | rounds + 1, tail, dest =>
      if tail ≠ u.txSnapshotHead ∧ dest.length < room then
        -- only non-zero bytes
        let dest := if u.txBuf tail ≠ 0 then dest ++ [u.txBuf tail] else dest
        copyLoop u room rounds (txBufNext tail) dest
      else (tail, dest)

/-- `uart_console_read_buffer`, which is successful for both types; the results are what is written
to `dest` and the state. -/
def uartConsoleReadBuffer (u : TxState k) (type : ConsoleRead) (destSize : BitVec 16) :
    Bytes × TxState k :=
  let tail := match type with
    | .next => u.txSnapshotTail
    | .recent => u.txLastSnapshotHead
  -- if no snapshot data, an empty response
  if u.txSnapshotHead = tail then ([], u)
  else
    -- a turn of the buffer is enough
    let (tail, dest) := copyLoop u ((destSize.toNat : Int) - 1) (2 ^ k) tail []
    (dest ++ [0], match type with
      | .next => { u with txSnapshotTail := tail }
      | .recent => { u with txLastSnapshotHead := tail })

end TxState

/-! ## Positions

A position counts all characters from the first one on. -/

variable {k p q : Nat}

/-- Where the character at a position is. -/
def slot (k p : Nat) : Index k := ⟨p % 2 ^ k, Nat.mod_lt _ (Nat.two_pow_pos k)⟩

theorem slot_val (i : Index k) : slot k i.val = i := Fin.ext (Nat.mod_eq_of_lt i.isLt)

theorem slot_add_pow (k p : Nat) : slot k (p + 2 ^ k) = slot k p := Fin.ext (Nat.add_mod_right _ _)

theorem txBufNext_slot (k p : Nat) : txBufNext (slot k p) = slot k (p + 1) := by
  apply Fin.ext
  show (p % 2 ^ k + 1) &&& (2 ^ k - 1) = (p + 1) % 2 ^ k
  rw [Nat.and_two_pow_sub_one_eq_mod, Nat.mod_add_mod]

/-- Positions less than a turn apart are in the same place only if they are the same. -/
theorem slot_eq_iff (hle : p ≤ q) (hlt : q < p + 2 ^ k) : slot k p = slot k q ↔ p = q := by
  refine ⟨fun h => ?_, fun h => h ▸ rfl⟩
  have hmod : p % 2 ^ k = q % 2 ^ k := congrArg Fin.val h
  have hdvd : 2 ^ k ∣ q - p := (Nat.modEq_iff_dvd' hle).mp hmod
  have hzero := Nat.eq_zero_of_dvd_of_lt hdvd (by omega)
  omega

end Uart
end CrosEc
