import CrosEc.Common
import CrosEc.Lib.BiphaseMark
import CrosEc.Lib.WordStream

/-!
# `chip/stm32/usb_pd_phy.c`: symbols to bits, samples to bits

A port has one memory, `raw_samples`.  The transmitter fills it with the levels of the CC line,
32 to a word, and the receiver with the times at which the line changes, one byte each.  The
two are the words of a `Tx` and the bytes of `Samples` here.

The receiver works on samples that are all there: `avail` of them have been stored when the
line falls silent, and waiting for more ends with the time-out of the timer.  An access outside
of `raw_samples` and a shift by a negative count are undefined, and the answer is `none`.
-/

namespace CrosEc
namespace UsbPd

open Lib

/-- `PD_BIT_LEN`: the bits of the longest packet -/
def pdBitLen : Nat := 429
/-- `PD_MAX_RAW_SIZE` -/
def pdMaxRawSize : Nat := pdBitLen * 2
/-- `PD_PREAMBLE` -/
def pdPreamble : BitVec 32 := 0xB4B4B4B4#32
/-- `PERIOD` -/
def period : UInt8 := 4
/-- `PERIOD_THRESHOLD` -/
def periodThreshold : UInt8 := (period + 2 * period) / 2

/-- `PD_RX_ERR_INVAL` -/
def pdRxErrInval : Int := -1
/-- `PD_RX_ERR_HARD_RESET` -/
def pdRxErrHardReset : Int := -2
/-- `PD_RX_ERR_CRC` -/
def pdRxErrCrc : Int := -3
/-- `PD_RX_ERR_UNSUPPORTED_SOP` -/
def pdRxErrUnsupportedSop : Int := -5
/-- `PD_RX_ERR_CABLE_RESET` -/
def pdRxErrCableReset : Int := -6

/-! ## Transmitter -/

/-- The transmitter's part of `struct pd_physical`, and the offset that its functions pass
along. -/
structure Tx where
  msg : Nat → BitVec 32
  bToggle : BitVec 32
  off : Nat

namespace Tx

/-- `pd_write_preamble` -/
def pdWritePreamble (tx : Tx) : Tx where
  msg i := if i < 4 then pdPreamble else tx.msg i
  -- the preamble ends with 1
  bToggle := 0x3FF#32
  off := 2 * 64

/-- `pd_write_sym` -/
def pdWriteSym (val10 : BitVec 32) (tx : Tx) : Tx :=
  let wordIdx := tx.off / 32
  let bitIdx := tx.off % 32
  let val := tx.bToggle ^^^ val10
  { msg :=
      if bitIdx ≤ 22 then
        let msg := if bitIdx = 0 then Function.update tx.msg wordIdx 0#32 else tx.msg
        Function.update msg wordIdx (msg wordIdx ||| val <<< bitIdx)
      else
        let msg := Function.update tx.msg wordIdx (tx.msg wordIdx ||| val <<< bitIdx)
        Function.update msg (wordIdx + 1) (val >>> (32 - bitIdx))
    bToggle := if val &&& 0x200#32 ≠ 0#32 then 0x3FF#32 else 0#32
    off := tx.off + 5 * 2 }

/-- `pd_write_last_edge` -/
def pdWriteLastEdge (tx : Tx) : Tx :=
  let wordIdx := tx.off / 32
  let bitIdx := tx.off % 32
  let msg := if bitIdx = 0 then Function.update tx.msg wordIdx 0#32 else tx.msg
  let (msg, wordIdx) :=
    if tx.bToggle = 0#32 then
      -- transition to 1, another 1, then 0
      if bitIdx = 31 then
        (Function.update (Function.update msg wordIdx (msg wordIdx ||| 1#32 <<< bitIdx))
          (wordIdx + 1) 1#32, wordIdx + 1)
      else
        (Function.update msg wordIdx (msg wordIdx ||| 3#32 <<< bitIdx), wordIdx)
    else
      (msg, wordIdx)
  { tx with msg := Function.update msg (wordIdx + 1) 0#32, off := tx.off + 3 }

/-- The levels that go out on the line. -/
def line (tx : Tx) : List Bool := firstBits tx.msg tx.off

end Tx

/-! ## The line -/

/-- The time stamps of the changes of a line that is low at first: the low eight bits of a timer
that counts `PERIOD` for every level. -/
def timeStamps (levels : List Bool) : Bytes :=
  (BiphaseMark.edges false 0 levels).map fun t => UInt8.ofNat (t * 4)

/-- `raw_samples` of a receiver, and the number of samples that the DMA has stored. -/
structure Samples where
  raw : Blob pdMaxRawSize
  avail : Nat

/-- The DMA stores samples over what the memory held before. -/
def Samples.receive (old : Blob pdMaxRawSize) (samples : Bytes) : Samples where
  raw := ⟨writeAt old.val 0 samples, by rw [length_writeAt, old.property]⟩
  avail := min samples.length pdMaxRawSize

/-- `samples[i]` -/
def Samples.get (s : Samples) (i : Int) : Option UInt8 :=
  if 0 ≤ i then s.raw.val[i.toNat]? else none

/-! ## Receiver -/

/-- The state of the bit decoder. -/
structure Dequeue where
  dLast : BitVec 32
  dLastlen : Int

/-- `pd_init_dequeue` -/
def pdInitDequeue : Dequeue := ⟨0#32, 0⟩

/-- `wait_bits` -/
def waitBits (s : Samples) (nb : Int) : Int := if s.avail < nb then -1 else nb

/-- `d_last = (d_last >> 1) | ...; d_lastlen++` -/
def Dequeue.enqueue (d : Dequeue) (bit : Bool) : Dequeue :=
  ⟨(d.dLast >>> 1) ||| (if bit then 0x80000000#32 else 0#32), d.dLastlen + 1⟩

/-- One bit of `pd_dequeue_bits`: the bit and the next offset, or `some none` for a jump to
`stream_err`. -/
def dequeueBit (s : Samples) (off : Int) : Option (Option (Bool × Int)) := do
  if waitBits s (off + 2) < 0 then
    return none
  let cnt := (← s.get off) - (← s.get (off - 1))
  if cnt = 0 ∨ cnt > 3 * period then
    return none
  let off := off + 1
  if cnt ≤ periodThreshold then
    let cnt := (← s.get off) - (← s.get (off - 1))
    if cnt > periodThreshold then
      return none
    return some (cnt ≤ periodThreshold, off + 1)
  else
    return some (cnt ≤ periodThreshold, off)

/-- The loop of `pd_dequeue_bits`, with the number of bits that are still missing. -/
def dequeueLoop (s : Samples) : Nat → Int → Dequeue → Option (Option Int × Dequeue)
  | 0, off, d => some (some off, d)
  | missing + 1, off, d =>
      if off < pdMaxRawSize - 1 then do
        match ← dequeueBit s off with
        | none => return (none, d)
        | some (bit, off) => dequeueLoop s missing off (d.enqueue bit)
      else
        some (some off, d)

/-- `pd_dequeue_bits`, with the value that `*val` has before. -/
def pdDequeueBits (s : Samples) (off : Int) (len : Nat) (val : BitVec 32) (d : Dequeue) :
    Option (Int × BitVec 32 × Dequeue) := do
  let (off, d) ← dequeueLoop s (len - d.dLastlen).toNat off d
  match off with
  | none => return (-1, val, d)
  | some off =>
      if off < pdMaxRawSize then
        if 0 ≤ d.dLastlen - len ∧ d.dLastlen - len < 32 then
          return (off, (d.dLast <<< (d.dLastlen - len).toNat) >>> (32 - len),
            { d with dLastlen := d.dLastlen - len })
        else
          none
      else
        return (-1, val, d)

/-- The loop of `pd_find_preamble` from `bit` on. -/
def findPreambleFrom (s : Samples) : Nat → Nat → BitVec 32 → Option Int
  | 0, _, _ => some (-1)
  | rounds + 1, bit, all =>
      if s.avail < bit + 1 then
        some (-1)
      else do
        let cnt := (← s.get bit) - (← s.get ((bit : Int) - 1))
        let all := (all >>> 1) ||| (if cnt ≤ periodThreshold then 0x80000000#32 else 0#32)
        if all = 0x36db6db6#32 then
          return (bit : Int) - 1
        if all = 0xF33F3F3F#32 then
          return pdRxErrHardReset
        if all = 0x3c7fe0ff#32 then
          return pdRxErrCableReset
        findPreambleFrom s rounds (bit + 1) all

/-- `pd_find_preamble` -/
def pdFindPreamble (s : Samples) : Option Int := findPreambleFrom s (pdMaxRawSize - 2) 1 0#32

end UsbPd

/-!
## `common/usb_pd_tcpc.c`: messages on the line

A message is a header and up to seven words.  Four bits of it become a symbol of five bits, and
every bit becomes two levels of the line.  `prepare_message` and `send_hard_reset` write such
packets, and `pd_analyze_rx` reads them back from the samples of the receiver.

The checksum comes from the CRC unit of the chip, of which only the interface is used.
-/

namespace UsbPd

open Lib

/-- The CRC unit: `crc32_init`, `crc32_hash16`, `crc32_hash32` and `crc32_result`. -/
structure Crc (κ : Type) where
  init : κ
  hash16 : κ → BitVec 16 → κ
  hash32 : κ → BitVec 32 → κ
  result : κ → BitVec 32

/-! ### Symbols -/

/-- `BMC`: five bits in biphase mark coding -/
def bmc (x : BitVec 5) : BitVec 32 :=
  (if x.getLsbD 0 then 0x001#32 else 0x3FF#32) ^^^
    (if x.getLsbD 1 then 0x004#32 else 0x3FC#32) ^^^
    (if x.getLsbD 2 then 0x010#32 else 0x3F0#32) ^^^
    (if x.getLsbD 3 then 0x040#32 else 0x3C0#32) ^^^
    (if x.getLsbD 4 then 0x100#32 else 0x300#32)

/-- `PD_SYNC1` -/
def pdSync1 : BitVec 5 := 0x18#5
/-- `PD_SYNC2` -/
def pdSync2 : BitVec 5 := 0x11#5
/-- `PD_SYNC3` -/
def pdSync3 : BitVec 5 := 0x06#5
/-- `PD_RST1` -/
def pdRst1 : BitVec 5 := 0x07#5
/-- `PD_RST2` -/
def pdRst2 : BitVec 5 := 0x19#5
/-- `PD_EOP` -/
def pdEop : BitVec 5 := 0x0D#5

/-- The symbols of `bmc4b5b`, before their biphase mark coding. -/
def symbols4b5b : List (BitVec 5) :=
  [0x1E#5, 0x09#5, 0x14#5, 0x15#5, 0x0A#5, 0x0B#5, 0x0E#5, 0x0F#5,
    0x12#5, 0x13#5, 0x16#5, 0x17#5, 0x1A#5, 0x1B#5, 0x1C#5, 0x1D#5]

/-- `bmc4b5b` -/
def bmc4b5b (nibble : BitVec 4) : BitVec 32 := bmc (symbols4b5b.getD nibble.toNat 0#5)

/-- The table `dec4b5b`. -/
def dec4b5bTable : List (BitVec 8) :=
  [0x10#8, 0x10#8, 0x10#8, 0x10#8, 0x10#8, 0x10#8, 0x10#8, 0x13#8,
    0x10#8, 0x01#8, 0x04#8, 0x05#8, 0x10#8, 0x15#8, 0x06#8, 0x07#8,
    0x10#8, 0x12#8, 0x08#8, 0x09#8, 0x02#8, 0x03#8, 0x0A#8, 0x0B#8,
    0x11#8, 0x14#8, 0x0C#8, 0x0D#8, 0x0E#8, 0x0F#8, 0x00#8, 0x10#8]

/-- `dec4b5b[x]`, promoted -/
def dec4b5b (x : BitVec 5) : BitVec 16 := (dec4b5bTable.getD x.toNat 0#8).setWidth 16

/-- Four symbols, the first one lowest. -/
def kCodes (a b c d : BitVec 5) : BitVec 32 :=
  a.setWidth 32 ||| (b.setWidth 32 <<< 5) ||| (c.setWidth 32 <<< 10) ||| (d.setWidth 32 <<< 15)

/-- `PD_SOP` -/
def pdSop : BitVec 32 := kCodes pdSync1 pdSync1 pdSync1 pdSync2
/-- `PD_SOP_PRIME` -/
def pdSopPrime : BitVec 32 := kCodes pdSync1 pdSync1 pdSync3 pdSync3
/-- `PD_SOP_PRIME_PRIME` -/
def pdSopPrimePrime : BitVec 32 := kCodes pdSync1 pdSync3 pdSync1 pdSync3

/-- `PD_HEADER_CNT` -/
def pdHeaderCnt (header : BitVec 16) : Nat := ((header >>> 12) &&& 7#16).toNat

/-! ### Transmission -/

namespace Tx

/-- `encode_short` -/
def encodeShort (val16 : BitVec 16) (tx : Tx) : Tx :=
  let tx := tx.pdWriteSym (bmc4b5b (val16.setWidth 4))
  let tx := tx.pdWriteSym (bmc4b5b ((val16 >>> 4).setWidth 4))
  let tx := tx.pdWriteSym (bmc4b5b ((val16 >>> 8).setWidth 4))
  tx.pdWriteSym (bmc4b5b ((val16 >>> 12).setWidth 4))

/-- `encode_word` -/
def encodeWord (val32 : BitVec 32) (tx : Tx) : Tx :=
  let tx := tx.encodeShort (val32.setWidth 16)
  tx.encodeShort ((val32 >>> 16).setWidth 16)

/-- The payload loop of `prepare_message`. -/
def encodePayload {κ : Type} (crc : Crc κ) : List (BitVec 32) → κ → Tx → κ × Tx
  | [], k, tx => (k, tx)
  | word :: data, k, tx => encodePayload crc data (crc.hash32 k word) (tx.encodeWord word)

/-- `prepare_message`, whose `cnt` is the number of words. -/
def prepareMessage {κ : Type} (crc : Crc κ) (header : BitVec 16) (data : List (BitVec 32))
    (tx : Tx) : Tx :=
  let tx := tx.pdWritePreamble
  let tx := tx.pdWriteSym (bmc pdSync1)
  let tx := tx.pdWriteSym (bmc pdSync1)
  let tx := tx.pdWriteSym (bmc pdSync1)
  let tx := tx.pdWriteSym (bmc pdSync2)
  let tx := tx.encodeShort header
  let (k, tx) := tx.encodePayload crc data (crc.hash16 crc.init header)
  let tx := tx.encodeWord (crc.result k)
  let tx := tx.pdWriteSym (bmc pdEop)
  tx.pdWriteLastEdge

/-- The packet of `send_hard_reset`. -/
def hardReset (tx : Tx) : Tx :=
  let tx := tx.pdWritePreamble
  let tx := tx.pdWriteSym (bmc pdRst1)
  let tx := tx.pdWriteSym (bmc pdRst1)
  let tx := tx.pdWriteSym (bmc pdRst1)
  let tx := tx.pdWriteSym (bmc pdRst2)
  tx.pdWriteLastEdge

end Tx

/-! ### Reception -/

/-- The options of a receiver, and what its uninitialised locals hold. -/
structure RxConfig where
  /-- `CONFIG_USB_PD_DECODE_SOP` -/
  decodeSop : Bool
  junk : BitVec 32

/-- `decode_short`: the next offset and the value -/
def decodeShort (cfg : RxConfig) (s : Samples) (off : Int) (d : Dequeue) :
    Option (Int × BitVec 16 × Dequeue) := do
  let (stop, w, d) ← pdDequeueBits s off 20 cfg.junk d
  let val16 := dec4b5b (w.setWidth 5) |||
    (dec4b5b ((w >>> 5).setWidth 5) <<< 4) |||
    (dec4b5b ((w >>> 10).setWidth 5) <<< 8) |||
    (dec4b5b ((w >>> 15).setWidth 5) <<< 12)
  return (stop, val16, d)

/-- `decode_word` -/
def decodeWord (cfg : RxConfig) (s : Samples) (off : Int) (d : Dequeue) :
    Option (Int × BitVec 32 × Dequeue) := do
  let (off, low, d) ← decodeShort cfg s off d
  let (off, high, d) ← decodeShort cfg s off d
  return (off, high ++ low, d)

/-- How the search for the start of a packet ends. -/
inductive SopSearch where
  | stop (bit : Int) (val : BitVec 32) (d : Dequeue)
  | unsupported

/-- The search for the start of a packet, with a bound on its rounds. -/
def findSop (cfg : RxConfig) (s : Samples) :
    Nat → Int → BitVec 32 → Dequeue → Option SopSearch
  | 0, _, _, _ => none
  | rounds + 1, bit, val, d =>
      if 0 < bit then do
        let (bit, val, d) ← pdDequeueBits s bit 20 val d
        if val = pdSop then
          return .stop bit val d
        else if val = pdSopPrime ∨ val = pdSopPrimePrime then
          if cfg.decodeSop then return .stop bit val d else return .unsupported
        else
          findSop cfg s rounds bit val d
      else
        return .stop bit val d

/-- The message address in the bits that `PD_HEADER_SOP` gives it, or a jump to `packet_err`. -/
def encodeAddress (cfg : RxConfig) (val : BitVec 32) : Option (BitVec 32) :=
  if cfg.decodeSop then
    if val = pdSop then some 0#32
    else if val = pdSopPrime then some (1#32 <<< 28)
    else if val = pdSopPrimePrime then some (2#32 <<< 28)
    else none
  else
    some 0#32

/-- The payload loop of `pd_analyze_rx`: the word `p` is next of `p + rounds`. -/
def decodePayload {κ : Type} (cfg : RxConfig) (crc : Crc κ) (s : Samples) :
    Nat → Nat → Int → κ → List (BitVec 32) → Dequeue →
      Option (Int × κ × List (BitVec 32) × Dequeue)
  | 0, _, bit, k, payload, d => some (bit, k, payload, d)
  | rounds + 1, p, bit, k, payload, d =>
      if 0 < bit then do
        let (bit, word, d) ← decodeWord cfg s bit d
        decodePayload cfg crc s rounds (p + 1) bit (crc.hash32 k word) (payload.set p word) d
      else
        some (bit, k, payload, d)

/-- `pd_analyze_rx` from the header on, behind the start of packet `val`. -/
def analyzePacket {κ : Type} (cfg : RxConfig) (crc : Crc κ) (s : Samples) (bit : Int)
    (val : BitVec 32) (d : Dequeue) (payload : List (BitVec 32)) :
    Option (Int × List (BitVec 32)) := do
  let (bit, header, d) ← decodeShort cfg s bit d
  let k := crc.hash16 crc.init header
  match encodeAddress cfg val with
  | none => return (bit, payload)
  | some address =>
      let (bit, k, payload, d) ← decodePayload cfg crc s (pdHeaderCnt header) 0 bit k payload d
      let ccrc := crc.result k
      if bit < 0 then
        return (bit, payload)
      let (bit, pcrc, d) ← decodeWord cfg s bit d
      if bit < 0 ∨ pcrc ≠ ccrc then
        return (if pcrc ≠ ccrc then pdRxErrCrc else bit, payload)
      let (bit, eop, _) ← pdDequeueBits s bit 4 cfg.junk d
      if bit < 0 ∨ eop ≠ pdEop.setWidth 32 then
        return (bit, payload)
      return ((address ||| header.setWidth 32).toInt, payload)

/-- `pd_analyze_rx`: what it returns, and the payload that it leaves -/
def pdAnalyzeRx {κ : Type} (cfg : RxConfig) (crc : Crc κ) (s : Samples)
    (payload : List (BitVec 32)) : Option (Int × List (BitVec 32)) := do
  let d := pdInitDequeue
  let bit ← pdFindPreamble s
  if bit < 0 then
    return (bit, payload)
  match ← findSop cfg s pdMaxRawSize bit 0#32 d with
  | .unsupported => return (pdRxErrUnsupportedSop, payload)
  | .stop bit val d =>
      if bit < 0 then
        return (bit, payload)
      analyzePacket cfg crc s bit val d payload

end UsbPd
end CrosEc
