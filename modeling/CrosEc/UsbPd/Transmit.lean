import CrosEc.UsbPd.Message

/-!
# What a packet looks like on the line

The transmitter fills its buffer symbol by symbol.  `Written` says that the levels it has
written are the biphase mark coding of a list of bits; every symbol appends its five bits to
that list (`Written.pdWriteSym`).  The time stamps of a whole packet follow from the marks of
its bits (`timeStamps_prepareMessage`, `timeStamps_hardReset`).
-/

namespace CrosEc
namespace UsbPd

open Lib BiphaseMark

/-! ## Bits -/

/-- The bits of a symbol, in the order in which they are sent. -/
def symBits (x : BitVec 5) : List Bool :=
  [x.getLsbD 0, x.getLsbD 1, x.getLsbD 2, x.getLsbD 3, x.getLsbD 4]

/-- The bits of four data bits. -/
def nibbleBits (x : BitVec 4) : List Bool := symBits (symbols4b5b.getD x.toNat 0#5)

def shortBits (v : BitVec 16) : List Bool :=
  nibbleBits (v.setWidth 4) ++ nibbleBits ((v >>> 4).setWidth 4) ++
    nibbleBits ((v >>> 8).setWidth 4) ++ nibbleBits ((v >>> 12).setWidth 4)

def wordBits (v : BitVec 32) : List Bool :=
  shortBits (v.setWidth 16) ++ shortBits ((v >>> 16).setWidth 16)

def codeBits (a b c d : BitVec 5) : List Bool := symBits a ++ symBits b ++ symBits c ++ symBits d

/-- The preamble: 64 bits that alternate, the first one 0. -/
def preambleBits : List Bool := (List.replicate 32 [false, true]).flatten

/-- The preamble without its first bit, at whose start a low line does not change. -/
def preambleRest : List Bool := true :: (List.replicate 31 [false, true]).flatten

@[simp] theorem length_symBits (x : BitVec 5) : (symBits x).length = 5 := rfl

@[simp] theorem length_shortBits (v : BitVec 16) : (shortBits v).length = 20 := rfl

@[simp] theorem length_wordBits (v : BitVec 32) : (wordBits v).length = 40 := rfl

@[simp] theorem length_codeBits (a b c d : BitVec 5) : (codeBits a b c d).length = 20 := rfl

theorem length_flatMap_wordBits (data : List (BitVec 32)) :
    (data.flatMap wordBits).length = 40 * data.length := by
  induction data with
  | nil => rfl
  | cons word data ih =>
      rw [List.flatMap_cons, List.length_append, ih, length_wordBits, List.length_cons]
      omega

/-! ## The writer -/

/-- `b_toggle` after a level. -/
def toggle (level : Bool) : BitVec 32 := if level then 0x3FF#32 else 0#32

/-- The ten levels of a symbol. -/
theorem map_getLsbD_bmc : ∀ (level : Bool) (x : BitVec 5),
    (List.range 10).map (toggle level ^^^ bmc x).getLsbD = encode level (symBits x) := by
  decide

theorem bmc_lt : ∀ (level : Bool) (x : BitVec 5), toggle level ^^^ bmc x < 1024#32 := by
  decide

theorem getLsbD_bmc (level : Bool) (x : BitVec 5) (j : Nat) :
    (toggle level ^^^ bmc x).getLsbD j = (encode level (symBits x)).getD j false := by
  by_cases hj : j < 10
  · rw [← map_getLsbD_bmc, List.getD_eq_getElem?_getD, List.getElem?_map,
      List.getElem?_range hj, Option.map_some, Option.getD_some]
  · have hlt : (toggle level ^^^ bmc x).toNat < 2 ^ 10 := BitVec.lt_def.mp (bmc_lt level x)
    rw [getD_of_le (by rw [length_encode, length_symBits]; omega), BitVec.getLsbD,
      Nat.testBit_lt_two_pow (hlt.trans_le (Nat.pow_le_pow_right (by decide) (by omega)))]

/-- The level behind a symbol is that of its last bit. -/
theorem toggle_bmc : ∀ (level : Bool) (x : BitVec 5),
    (if (toggle level ^^^ bmc x) &&& 0x200#32 ≠ 0#32 then 0x3FF#32 else 0#32) =
      toggle (lastLevel level (symBits x)) := by
  decide

/-- The buffer holds the coding of the bits. -/
structure Written (tx : Tx) (bits : List Bool) : Prop where
  off_eq : tx.off = (encode true bits).length
  toggle_eq : tx.bToggle = toggle (lastLevel true bits)
  holds : HoldsBits tx.msg (encode true bits)

theorem written_pdWritePreamble (tx : Tx) : Written tx.pdWritePreamble preambleBits := by
  have hlen : (encode true preambleBits).length = 128 := by
    rw [length_encode]
    rfl
  have hlevel : toggle (lastLevel true preambleBits) = 0x3FF#32 := by decide +kernel
  refine ⟨hlen.symm, hlevel.symm, ?_⟩
  have hbits : ∀ m < 128, pdPreamble.getLsbD (m % 32) =
      (encode true preambleBits).getD m false := by
    decide
  intro m hm
  have hm : m < 128 := by omega
  have hword : m / 32 < 4 := by omega
  simp only [wordBit, Tx.pdWritePreamble, hword, if_true]
  exact hbits m hm

/-- A word that is cleared first where `c` says so, and then or-ed into. -/
theorem update_cleared (mem : Nat → BitVec 32) (i : Nat) (v : BitVec 32) (c : Prop) [Decidable c] :
    Function.update (if c then Function.update mem i 0#32 else mem) i
        ((if c then Function.update mem i 0#32 else mem) i ||| v) =
      Function.update mem i ((if c then 0#32 else mem i) ||| v) := by
  split_ifs <;> simp

theorem cleared_eq_update (mem : Nat → BitVec 32) (i : Nat) (c : Prop) [Decidable c] :
    (if c then Function.update mem i 0#32 else mem) =
      Function.update mem i (if c then 0#32 else mem i) := by
  split_ifs <;> simp

/-- **Step lemma.** A symbol appends its bits. -/
theorem Written.pdWriteSym {tx : Tx} {bits : List Bool} (h : Written tx bits) (x : BitVec 5) :
    Written (tx.pdWriteSym (bmc x)) (bits ++ symBits x) := by
  have hval := getLsbD_bmc (lastLevel true bits) x
  have hlen : (encode (lastLevel true bits) (symBits x)).length = 10 := rfl
  refine ⟨?_, ?_, ?_⟩
  · rw [encode_append, List.length_append, ← h.off_eq, hlen]
    rfl
  · rw [lastLevel_append, ← toggle_bmc, ← h.toggle_eq]
    rfl
  · rw [encode_append]
    simp only [Tx.pdWriteSym, h.toggle_eq, h.off_eq]
    by_cases hfits : (encode true bits).length % 32 ≤ 22
    · rw [if_pos hfits, update_cleared]
      exact h.holds.append_within hval (by lia)
    · rw [if_neg hfits]
      exact h.holds.append_across hval (by lia) (by lia)

/-- The levels of `pd_write_last_edge`: a change, and the line is low in the end. -/
def lastEdge (level : Bool) : List Bool := [!level, !level, false]

theorem getLsbD_three : ∀ j, (3#32).getLsbD j = [true, true].getD j false
  | 0 => rfl
  | 1 => rfl
  | j + 2 => by
      rw [getD_of_le (by simp), BitVec.getLsbD]
      exact Nat.testBit_lt_two_pow
        (lt_of_lt_of_le (by decide) (Nat.pow_le_pow_right (by decide) (Nat.le_add_left 2 j)))

/-- The first two of the last levels, as the bits that are or-ed in. -/
theorem getLsbD_lastEdge (level : Bool) (j : Nat) :
    (if level then 0#32 else 3#32).getLsbD j = [!level, !level].getD j false := by
  cases level with
  | false => exact getLsbD_three j
  | true => rcases j with - | - | j <;> simp

/-- What `pd_write_last_edge` does to the buffer, at an even offset. -/
theorem msg_pdWriteLastEdge {tx : Tx} {level : Bool} (htoggle : tx.bToggle = toggle level)
    (heven : tx.off % 2 = 0) :
    tx.pdWriteLastEdge.msg = Function.update
      (Function.update tx.msg (tx.off / 32)
        ((if tx.off % 32 = 0 then 0#32 else tx.msg (tx.off / 32)) |||
          (if level then 0#32 else 3#32) <<< (tx.off % 32)))
      (tx.off / 32 + 1) 0#32 := by
  have hodd : tx.off % 32 ≠ 31 := by omega
  cases level with
  | false =>
      have hzero : tx.bToggle = 0#32 := htoggle
      simp only [Tx.pdWriteLastEdge, hzero, if_true, hodd, if_false, update_cleared,
        Bool.false_eq_true]
  | true =>
      have hset : tx.bToggle ≠ 0#32 := by
        rw [htoggle]
        decide
      simp only [Tx.pdWriteLastEdge, hset, if_false, if_true, BitVec.zero_shiftLeft,
        BitVec.or_zero, cleared_eq_update]

theorem Written.line_pdWriteLastEdge {tx : Tx} {bits : List Bool} (h : Written tx bits) :
    tx.pdWriteLastEdge.line = encode true bits ++ lastEdge (lastLevel true bits) := by
  have hlen := length_encode true bits
  have hoff := h.off_eq
  -- The offset is even, so that two levels fit into the word and the third one begins the next
  -- word or stands in a word that is clear there.
  have hmsg := msg_pdWriteLastEdge h.toggle_eq (by lia)
  have hfits : (encode true bits).length % 32 + 2 ≤ 32 := by lia
  have happend :=
    (h.holds.append_within (getLsbD_lastEdge (lastLevel true bits)) hfits).append_false
  have hnext : ((encode true bits ++
      [!lastLevel true bits, !lastLevel true bits]).length + 31) / 32 =
      (encode true bits).length / 32 + 1 := by
    simp only [List.length_append, List.length_cons, List.length_nil]
    lia
  rw [hnext, ← hoff, ← hmsg, List.append_assoc] at happend
  have hline := happend.firstBits_eq
  rw [List.length_append, ← hoff] at hline
  exact hline

/-! ## Packets -/

section Packets

variable {tx : Tx} {bits : List Bool}

theorem Written.encodeShort (h : Written tx bits) (v : BitVec 16) :
    Written (tx.encodeShort v) (bits ++ shortBits v) := by
  have hall := (((h.pdWriteSym (symbols4b5b.getD (v.setWidth 4).toNat 0#5)).pdWriteSym
    (symbols4b5b.getD ((v >>> 4).setWidth 4).toNat 0#5)).pdWriteSym
    (symbols4b5b.getD ((v >>> 8).setWidth 4).toNat 0#5)).pdWriteSym
    (symbols4b5b.getD ((v >>> 12).setWidth 4).toNat 0#5)
  rw [List.append_assoc, List.append_assoc, List.append_assoc] at hall
  exact hall

theorem Written.encodeWord (h : Written tx bits) (v : BitVec 32) :
    Written (tx.encodeWord v) (bits ++ wordBits v) := by
  have hall := (h.encodeShort (v.setWidth 16)).encodeShort ((v >>> 16).setWidth 16)
  rw [List.append_assoc] at hall
  exact hall

theorem Written.codes (h : Written tx bits) (a b c d : BitVec 5) :
    Written ((((tx.pdWriteSym (bmc a)).pdWriteSym (bmc b)).pdWriteSym (bmc c)).pdWriteSym (bmc d))
      (bits ++ codeBits a b c d) := by
  have hall := (((h.pdWriteSym a).pdWriteSym b).pdWriteSym c).pdWriteSym d
  rw [List.append_assoc, List.append_assoc, List.append_assoc] at hall
  exact hall

variable {κ : Type} (crc : Crc κ)

/-- **Run lemma.** The payload loop. -/
theorem Written.encodePayload (h : Written tx bits) (data : List (BitVec 32)) (k : κ) :
    (tx.encodePayload crc data k).1 = data.foldl crc.hash32 k ∧
      Written (tx.encodePayload crc data k).2 (bits ++ data.flatMap wordBits) := by
  induction data generalizing tx bits k with
  | nil => exact ⟨rfl, by simpa [Tx.encodePayload] using h⟩
  | cons word data ih =>
      rw [Tx.encodePayload, List.foldl_cons, List.flatMap_cons, ← List.append_assoc]
      exact ih (h.encodeWord word) (crc.hash32 k word)

/-- The checksum of a message. -/
def messageCrc (header : BitVec 16) (data : List (BitVec 32)) : BitVec 32 :=
  crc.result (data.foldl crc.hash32 (crc.hash16 crc.init header))

/-- The bits of a message behind the start of packet. -/
def messageBits (header : BitVec 16) (data : List (BitVec 32)) : List Bool :=
  shortBits header ++ data.flatMap wordBits ++ wordBits (messageCrc crc header data) ++
    symBits pdEop

/-- The time stamps of a packet: those of the marks of its bits, and of the change at its end. -/
def packetStamps (bits : List Bool) : Bytes :=
  (marks 2 (preambleRest ++ bits) ++
    (2 + 2 * (preambleRest ++ bits).length) ::
      if lastLevel false (preambleRest ++ bits) then []
      else [2 + 2 * (preambleRest ++ bits).length + 2]).map fun t => UInt8.ofNat (t * 4)

theorem edges_lastEdge (level : Bool) (t : Nat) :
    edges level t (lastEdge level) = t :: if level then [] else [t + 2] := by
  cases level <;> simp [lastEdge, edges]

/-- A line that is low misses the first change of the preamble. -/
theorem Written.timeStamps_line (h : Written tx (preambleBits ++ bits)) :
    timeStamps tx.pdWriteLastEdge.line = packetStamps bits := by
  have hsplit : preambleBits ++ bits = false :: (preambleRest ++ bits) := rfl
  have hencode : encode true (preambleBits ++ bits) =
      false :: false :: encode false (preambleRest ++ bits) := by
    rw [hsplit]
    rfl
  have hlevel : lastLevel true (preambleBits ++ bits) = lastLevel false (preambleRest ++ bits) := by
    rw [hsplit]
    rfl
  have hlow : edges false 0 (false :: false ::
      (encode false (preambleRest ++ bits) ++ lastEdge (lastLevel false (preambleRest ++ bits)))) =
      edges false 2 (encode false (preambleRest ++ bits) ++
        lastEdge (lastLevel false (preambleRest ++ bits))) := rfl
  rw [timeStamps, h.line_pdWriteLastEdge, hencode, hlevel, List.cons_append, List.cons_append,
    hlow, edges_append, edges_encode, getLastD_encode, length_encode, edges_lastEdge]
  rfl

/-- **What `prepare_message` sends.** -/
theorem timeStamps_prepareMessage (header : BitVec 16) (data : List (BitVec 32)) (tx : Tx) :
    timeStamps (tx.prepareMessage crc header data).line =
      packetStamps (codeBits pdSync1 pdSync1 pdSync1 pdSync2 ++ messageBits crc header data) := by
  have hheader := ((written_pdWritePreamble tx).codes pdSync1 pdSync1 pdSync1 pdSync2).encodeShort
    header
  obtain ⟨hk, hpayload⟩ := hheader.encodePayload crc data (crc.hash16 crc.init header)
  have hall := (hpayload.encodeWord (messageCrc crc header data)).pdWriteSym pdEop
  simp only [List.append_assoc] at hall
  have hstamps := hall.timeStamps_line
  rw [messageBits]
  simp only [List.append_assoc]
  rw [← hstamps, messageCrc, ← hk]
  rfl

/-- **What `send_hard_reset` sends.** -/
theorem timeStamps_hardReset (tx : Tx) :
    timeStamps tx.hardReset.line = packetStamps (codeBits pdRst1 pdRst1 pdRst1 pdRst2) :=
  ((written_pdWritePreamble tx).codes pdRst1 pdRst1 pdRst1 pdRst2).timeStamps_line

end Packets

end UsbPd
end CrosEc
