import CrosEc.Common
import CrosEc.Lib.BitStream

/-!
# `common/base32.c`: base-32 strings

Five bits to a symbol, most significant bit first, with an optional CRC symbol after each group
of symbols.  Lengths and the CRC interval are natural numbers here: the `int`s of the source wrap
from 2^31 - 4 bits on only, which is for `Base32/Bounds`.

Memory is a function from addresses to bytes.  The encoder looks at the byte behind the symbol
even when the bit string ends before it, and masks what it has read; so the bytes behind the bit
string are part of the memory and arbitrary.  Of a destination string only its characters before
the terminating null are kept.
-/

namespace CrosEc
namespace Base32

open Lib

def crc5Table1 : List Nat :=
  [0x00, 0x0E, 0x1C, 0x12, 0x11, 0x1F, 0x0D, 0x03,
   0x0B, 0x05, 0x17, 0x19, 0x1A, 0x14, 0x06, 0x08]

def crc5Table0 : List Nat :=
  [0x00, 0x16, 0x05, 0x13, 0x0A, 0x1C, 0x0F, 0x19,
   0x14, 0x02, 0x11, 0x07, 0x1E, 0x08, 0x1B, 0x0D]

/-- `crc5_sym` -/
def crc5Sym (sym previousCrc : Nat) : Nat :=
  let tmp := sym ^^^ previousCrc
  crc5Table1.getD (tmp &&& 0x0F) 0 ^^^ crc5Table0.getD ((tmp >>> 4) &&& 0x0F) 0

/-- A-Z0-9 with I,O,0,1 removed.  The array of the source has room for the null. -/
def base32Map : List Char := "ABCDEFGHJKLMNPQRSTUVWXYZ23456789".toList

def base32Char (sym : Nat) : Char := base32Map.getD sym '\x00'

/-- `decode_sym`; `none` is -1. -/
def decodeSym (sym : Char) : Option Nat := base32Map.findIdx? (· = sym)

/-- `isspace` of `common/util.c` -/
def isspace (c : Char) : Bool := c = ' ' || c = '\t' || c = '\r' || c = '\n'

/-! ## Encoding -/

/-- The bits at `i`, with other bits in front of them and perhaps behind them. -/
def loadSym (src : Nat → UInt8) (srclenBits i : Nat) : Nat :=
  let sidx := i / 8
  let bitOffs := i % 8
  if bitOffs ≤ 3 then
    -- the entire symbol fits in that byte
    (src sidx).toNat >>> (3 - bitOffs)
  else
    let left := (src sidx).toNat <<< (bitOffs - 3)
    -- the bits from the next byte, if any
    if i + 1 < srclenBits then left ||| (src (sidx + 1)).toNat >>> (11 - bitOffs) else left

/-- The symbol of the bits from `i` on. -/
def encodeSym (src : Nat → UInt8) (srclenBits i : Nat) : Nat :=
  let sym := loadSym src srclenBits i &&& 0x1f
  -- pad an incomplete symbol with 0 bits
  if srclenBits - i < 5 then sym &&& (0x1f <<< (5 + i - srclenBits)) else sym

/-- The loop of `base32_encode`: the characters it stores from the symbol at `i` on. -/
def encodeLoop (src : Nat → UInt8) (srclenBits addCrcEvery i crc crcCount : Nat) : List Char :=
  if i < srclenBits then
    let sym := encodeSym src srclenBits i
    base32Char sym ::
      if addCrcEvery = 0 then
        encodeLoop src srclenBits addCrcEvery (i + 5) crc crcCount
      else if crcCount + 1 = addCrcEvery then
        base32Char (crc5Sym sym crc) :: encodeLoop src srclenBits addCrcEvery (i + 5) 0 0
      else
        encodeLoop src srclenBits addCrcEvery (i + 5) (crc5Sym sym crc) (crcCount + 1)
  else []
termination_by srclenBits - i

/-- `base32_encode`: the return code and the string in `dest`, which is empty after an error. -/
def base32Encode (destlenChars : Nat) (src : Nat → UInt8) (srclenBits addCrcEvery : Nat) :
    Code × List Char :=
  let symbols := (srclenBits + 4) / 5
  -- there must be an exact number of groups to add the CRC
  if addCrcEvery ≠ 0 ∧ symbols % addCrcEvery ≠ 0 then (ecErrorInval, [])
  else
    let destlenNeeded := if addCrcEvery ≠ 0 then symbols + symbols / addCrcEvery else symbols
    if destlenChars < destlenNeeded + 1 then (ecErrorInval, [])
    else (ecSuccess, encodeLoop src srclenBits addCrcEvery 0 0 0)

/-! ## Decoding -/

structure DecodeState where
  crc : Nat
  crcCount : Nat
  outBits : Nat
  dest : Nat → UInt8

/-- The last part of the loop of `base32_decode`: the bits of `sym` go to `dest`. -/
def storeSym (destlenBits sym : Nat) (s : DecodeState) : DecodeState :=
  -- how many bits to use from this symbol
  let sbits := min 5 (destlenBits - s.outBits)
  let sym := if sbits < 5 then sym >>> (5 - sbits) else sym
  -- fill up the rest of the current byte
  let dbits := 8 - (s.outBits &&& 7)
  let b := min dbits sbits
  let cur := s.outBits / 8
  let old := if dbits = 8 then 0 else s.dest cur
  let dest := Function.update s.dest cur
    (old ||| UInt8.ofNat ((sym <<< (dbits - b)) >>> (sbits - b)))
  let outBits := s.outBits + b
  let rest := sbits - b
  -- start the next byte if there is space
  if 0 < rest then
    { s with
      dest := Function.update dest (outBits / 8) (UInt8.ofNat (sym <<< (8 - rest)))
      outBits := outBits + rest }
  else { s with dest := dest, outBits := outBits }

/-- The loop of `base32_decode`; an error is a return of -1. -/
def decodeLoop (destlenBits crcAfterEvery : Nat) :
    List Char → DecodeState → Except DecodeState DecodeState
  | [], s => .ok s
  | c :: src, s =>
      if isspace c || c = '-' then decodeLoop destlenBits crcAfterEvery src s
      else
        match decodeSym c with
        | none => .error s
        | some sym =>
            if crcAfterEvery ≠ 0 ∧ s.crcCount = crcAfterEvery then
              if s.crc ≠ sym then .error s
              else decodeLoop destlenBits crcAfterEvery src { s with crc := 0, crcCount := 0 }
            else
              let s :=
                if crcAfterEvery ≠ 0 then
                  { s with crc := crc5Sym sym s.crc, crcCount := s.crcCount + 1 }
                else s
              -- out of space
              if destlenBits ≤ s.outBits then .ok s
              else decodeLoop destlenBits crcAfterEvery src (storeSym destlenBits sym s)

/-- `base32_decode`: the return value and the destination. -/
def base32Decode (dest : Nat → UInt8) (destlenBits : Nat) (src : List Char)
    (crcAfterEvery : Nat) : Int × (Nat → UInt8) :=
  match decodeLoop destlenBits crcAfterEvery src ⟨0, 0, 0, dest⟩ with
  | .error s => (-1, s.dest)
  | .ok s =>
      -- with CRCs there is a full group at the end
      if crcAfterEvery ≠ 0 ∧ s.crcCount ≠ 0 then (-1, s.dest) else (s.outBits, s.dest)

end Base32
end CrosEc
