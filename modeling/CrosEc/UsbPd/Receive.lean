import CrosEc.UsbPd.Transmit

/-!
# The receiver reads back what was sent

`Ahead` says which bits the samples from a position on stand for.  One round of
`pd_dequeue_bits` takes the first of them (`Ahead.dequeueBit`), a call takes as many as it is
asked for (`Ahead.pdDequeueBits`), and the functions above it take symbols, words and messages.
The preamble and the start of a packet are the same for every message, so that the place where
`pd_find_preamble` stops can be computed.
-/

namespace CrosEc
namespace UsbPd

open Lib BiphaseMark

/-- The time stamp of a change at the time `t`. -/
def stamp (t : Nat) : UInt8 := UInt8.ofNat (t * 4)

/-- The changes of the bits from the time `t` on, of the next change behind them, and of the
`rest`. -/
def changes (t : Nat) (bits : List Bool) (rest : List Nat) : List Nat :=
  marks t bits ++ (t + 2 * bits.length) :: rest

theorem changes_false (t : Nat) (bits : List Bool) (rest : List Nat) :
    changes t (false :: bits) rest = t :: changes (t + 2) bits rest := by
  have hshift : t + 2 * (bits.length + 1) = t + 2 + 2 * bits.length := by omega
  simp [changes, marks, hshift]

theorem changes_true (t : Nat) (bits : List Bool) (rest : List Nat) :
    changes t (true :: bits) rest = t :: (t + 1) :: changes (t + 2) bits rest := by
  have hshift : t + 2 * (bits.length + 1) = t + 2 + 2 * bits.length := by omega
  simp [changes, marks, hshift]

theorem changes_append (t : Nat) (bits more : List Bool) (rest : List Nat) :
    changes t (bits ++ more) rest = marks t bits ++ changes (t + 2 * bits.length) more rest := by
  have hshift : t + 2 * (bits.length + more.length) = t + 2 * bits.length + 2 * more.length := by
    omega
  rw [changes, changes, marks_append, List.append_assoc, List.length_append, hshift]

/-- The first change is at the start of the bits. -/
theorem exists_changes_eq_cons (t : Nat) (bits : List Bool) (rest : List Nat) :
    ∃ later, changes t bits rest = t :: later := by
  cases bits with
  | nil => exact ⟨rest, rfl⟩
  | cons b bits =>
      cases b with
      | false => exact ⟨_, changes_false t bits rest⟩
      | true => exact ⟨_, changes_true t bits rest⟩

theorem two_le_length_changes (t : Nat) {bits : List Bool} (rest : List Nat) (h : bits ≠ []) :
    2 ≤ (changes t bits rest).length := by
  cases bits with
  | nil => exact absurd rfl h
  | cons b bits =>
      obtain ⟨later, hlater⟩ := exists_changes_eq_cons (t + 2) bits rest
      cases b with
      | false =>
          rw [changes_false, hlater]
          simp
      | true =>
          rw [changes_true, hlater]
          simp

/-- The samples from `n` on are those of the bits. -/
structure Ahead (s : Samples) (n t : Nat) (bits : List Bool) (rest : List Nat) : Prop where
  samples : ∃ stale, s.raw.val.drop n = (changes t bits rest).map stamp ++ stale
  avail : s.avail = n + (changes t bits rest).length
  avail_le : s.avail ≤ pdMaxRawSize

/-! ## Bits -/

section Dequeue

variable {s : Samples} {n t : Nat} {bits more : List Bool} {rest : List Nat}

theorem stamp_sub_two (t : Nat) : stamp (t + 2) - stamp t = 8 := by
  have hsplit : (t + 2) * 4 = t * 4 + 8 := by omega
  rw [stamp, stamp, hsplit, UInt8.ofNat_add, UInt8.add_comm, UInt8.add_sub_cancel]
  rfl

theorem stamp_sub_one (t : Nat) : stamp (t + 1) - stamp t = 4 := by
  have hsplit : (t + 1) * 4 = t * 4 + 4 := by omega
  rw [stamp, stamp, hsplit, UInt8.ofNat_add, UInt8.add_comm, UInt8.add_sub_cancel]
  rfl

theorem Samples.get_of_drop {vals : Bytes} (h : s.raw.val.drop n = vals) (i : Nat) :
    s.get ((n + i : Nat) : Int) = vals[i]? := by
  rw [Samples.get, if_pos (Int.natCast_nonneg _), Int.toNat_natCast, ← h, List.getElem?_drop]

theorem Ahead.get_start (h : Ahead s n t bits rest) : s.get (n : Int) = some (stamp t) := by
  obtain ⟨stale, hsamples⟩ := h.samples
  obtain ⟨later, hlater⟩ := exists_changes_eq_cons t bits rest
  have hget := Samples.get_of_drop hsamples 0
  simpa [hlater] using hget

theorem Ahead.tail_false (h : Ahead s n t (false :: bits) rest) :
    Ahead s (n + 1) (t + 2) bits rest := by
  obtain ⟨stale, hsamples⟩ := h.samples
  have havail := h.avail
  rw [changes_false] at hsamples havail
  rw [List.length_cons] at havail
  refine ⟨⟨stale, ?_⟩, by omega, h.avail_le⟩
  rw [← List.drop_drop, hsamples]
  rfl

theorem Ahead.tail_true (h : Ahead s n t (true :: bits) rest) :
    Ahead s (n + 2) (t + 2) bits rest ∧ s.get ((n + 1 : Nat) : Int) = some (stamp (t + 1)) := by
  obtain ⟨stale, hsamples⟩ := h.samples
  have havail := h.avail
  rw [changes_true] at hsamples havail
  rw [List.length_cons, List.length_cons] at havail
  refine ⟨⟨⟨stale, ?_⟩, by omega, h.avail_le⟩, ?_⟩
  · rw [← List.drop_drop, hsamples]
    rfl
  · have hget := Samples.get_of_drop hsamples 1
    simpa using hget

/-- The samples that `wait_bits` waits for are there. -/
theorem Ahead.add_three_le_avail {b : Bool} (h : Ahead s n t (b :: bits) rest)
    (hmore : bits ≠ []) : n + 3 ≤ s.avail := by
  have hlen := two_le_length_changes (t + 2) rest hmore
  cases b with
  | false =>
      rw [h.tail_false.avail]
      omega
  | true =>
      rw [h.tail_true.1.avail]
      omega

/-- **Step lemma.** One bit, when there are more behind it. -/
theorem Ahead.dequeueBit {b : Bool} (h : Ahead s n t (b :: bits) rest) (hmore : bits ≠ []) :
    ∃ m, dequeueBit s ((n + 1 : Nat) : Int) = some (some (b, ((m + 1 : Nat) : Int))) ∧
      Ahead s m (t + 2) bits rest := by
  have havail := h.add_three_le_avail hmore
  have hwait : ¬ waitBits s (((n + 1 : Nat) : Int) + 2) < 0 := by
    rw [waitBits, if_neg (by omega)]
    omega
  have hback : ((n + 1 : Nat) : Int) - 1 = (n : Int) := by omega
  rw [UsbPd.dequeueBit, if_neg hwait, hback]
  cases b with
  | false =>
      have hnext := h.tail_false.get_start
      refine ⟨n + 1, ?_, h.tail_false⟩
      simp only [h.get_start, hnext, stamp_sub_two, Option.pure_def, Option.bind_eq_bind,
        Option.bind_some]
      rfl
  | true =>
      obtain ⟨htail, hmid⟩ := h.tail_true
      have hnext : s.get (((n + 1 : Nat) : Int) + 1) = some (stamp (t + 2)) := htail.get_start
      have hback' : ((n + 1 : Nat) : Int) + 1 - 1 = ((n + 1 : Nat) : Int) := by omega
      have hstep : stamp (t + 2) - stamp (t + 1) = 4 := stamp_sub_one (t + 1)
      refine ⟨n + 2, ?_, htail⟩
      simp only [h.get_start, hmid, hnext, hback', stamp_sub_one, hstep, Option.pure_def,
        Option.bind_eq_bind, Option.bind_some]
      rfl

theorem enqueue_eq (d : Dequeue) (b : Bool) :
    d.enqueue b = ⟨shiftIn d.dLast b, d.dLastlen + 1⟩ := rfl

/-- **Run lemma.** The loop takes the bits that are missing. -/
theorem Ahead.dequeueLoop (h : Ahead s n t (bits ++ more) rest) (hmore : more ≠ [])
    (d : Dequeue) :
    ∃ m, dequeueLoop s bits.length ((n + 1 : Nat) : Int) d =
        some (some ((m + 1 : Nat) : Int),
          ⟨bits.foldl shiftIn d.dLast, d.dLastlen + bits.length⟩) ∧
      Ahead s m (t + 2 * bits.length) more rest := by
  induction bits generalizing n t d with
  | nil => exact ⟨n, by simp [UsbPd.dequeueLoop], by simpa using h⟩
  | cons b bits ih =>
      have hne : bits ++ more ≠ [] := List.append_ne_nil_of_right_ne_nil _ hmore
      obtain ⟨m, hbit, hahead⟩ := Ahead.dequeueBit h hne
      obtain ⟨m', hloop, hahead'⟩ := ih hahead (d.enqueue b)
      have hbound : ((n + 1 : Nat) : Int) < pdMaxRawSize - 1 := by
        have hle := h.avail_le
        have havail := h.add_three_le_avail hne
        omega
      refine ⟨m', ?_, ?_⟩
      · rw [List.length_cons, UsbPd.dequeueLoop, if_pos hbound, hbit]
        simp only [Option.bind_eq_bind, Option.bind_some]
        rw [hloop, enqueue_eq]
        simp only [List.foldl_cons, Option.some.injEq, Prod.mk.injEq, true_and]
        congr 1
        push_cast
        ring
      · have hshift : t + 2 + 2 * bits.length = t + 2 * (bits.length + 1) := by omega
        rw [List.length_cons, ← hshift]
        exact hahead'

/-- **Spec of `pd_dequeue_bits`**, when no bit is left over from before. -/
theorem Ahead.pdDequeueBits (h : Ahead s n t (bits ++ more) rest) (hmore : more ≠ [])
    (hlen : bits.length ≤ 32) (val d : BitVec 32) :
    ∃ m v d', pdDequeueBits s ((n + 1 : Nat) : Int) bits.length val ⟨d, 0⟩ =
        some (((m + 1 : Nat) : Int), v, ⟨d', 0⟩) ∧
      (∀ i, v.getLsbD i = bits.getD i false) ∧ Ahead s m (t + 2 * bits.length) more rest := by
  obtain ⟨m, hloop, hahead⟩ := Ahead.dequeueLoop h hmore ⟨d, 0⟩
  refine ⟨m, bits.foldl shiftIn d >>> (32 - bits.length), bits.foldl shiftIn d, ?_,
    getLsbD_foldl_shiftIn_ushiftRight bits d hlen, hahead⟩
  have hbound : ((m + 1 : Nat) : Int) < pdMaxRawSize := by
    have hle := hahead.avail_le
    have havail := hahead.avail
    have htwo := two_le_length_changes (t + 2 * bits.length) rest hmore
    omega
  have hmissing : ((bits.length : Int) - 0).toNat = bits.length := by simp
  rw [UsbPd.pdDequeueBits, hmissing, hloop]
  simp only [Option.bind_eq_bind, Option.bind_some]
  rw [if_pos hbound]
  simp

/-! ## Symbols and words -/

theorem setWidth_ushiftRight_of_bits {w : BitVec 32} {k : Nat} {x : BitVec 5}
    (h : ∀ i < 5, w.getLsbD (k + i) = x.getLsbD i) : (w >>> k).setWidth 5 = x := by
  apply BitVec.eq_of_getLsbD_eq
  intro i hi
  rw [BitVec.getLsbD_setWidth, BitVec.getLsbD_ushiftRight, h i hi]
  simp [hi]

theorem dec4b5b_symbols4b5b : ∀ x : BitVec 4,
    dec4b5b (symbols4b5b.getD x.toNat 0#5) = x.setWidth 16 := by
  decide

theorem nibbles_eq (v : BitVec 16) :
    (v.setWidth 4).setWidth 16 ||| (((v >>> 4).setWidth 4).setWidth 16 <<< 4) |||
      (((v >>> 8).setWidth 4).setWidth 16 <<< 8) |||
      (((v >>> 12).setWidth 4).setWidth 16 <<< 12) = v := by
  apply BitVec.eq_of_getLsbD_eq
  intro i hi
  interval_cases i <;> simp

theorem Ahead.decodeShort {v : BitVec 16} (h : Ahead s n t (shortBits v ++ more) rest)
    (hmore : more ≠ []) (cfg : RxConfig) (d : BitVec 32) :
    ∃ m d', decodeShort cfg s ((n + 1 : Nat) : Int) ⟨d, 0⟩ =
        some (((m + 1 : Nat) : Int), v, ⟨d', 0⟩) ∧
      Ahead s m (t + 40) more rest := by
  obtain ⟨m, w, d', hdequeue, hw, hahead⟩ :=
    Ahead.pdDequeueBits h hmore (by rw [length_shortBits]; decide) cfg.junk d
  refine ⟨m, d', ?_, hahead⟩
  -- Each of the four symbols stands in its five bits of `w`.
  have hsym : ∀ (k : Nat) (x : BitVec 4),
      (∀ i < 5, (shortBits v).getD (k + i) false = (nibbleBits x).getD i false) →
      dec4b5b ((w >>> k).setWidth 5) = x.setWidth 16 := by
    intro k x hx
    rw [setWidth_ushiftRight_of_bits (x := symbols4b5b.getD x.toNat 0#5), dec4b5b_symbols4b5b]
    intro i hi
    rw [hw, hx i hi]
    interval_cases i <;> rfl
  have h0 := hsym 0 (v.setWidth 4) (by intro i hi; interval_cases i <;> rfl)
  have h1 := hsym 5 ((v >>> 4).setWidth 4) (by intro i hi; interval_cases i <;> rfl)
  have h2 := hsym 10 ((v >>> 8).setWidth 4) (by intro i hi; interval_cases i <;> rfl)
  have h3 := hsym 15 ((v >>> 12).setWidth 4) (by intro i hi; interval_cases i <;> rfl)
  rw [BitVec.ushiftRight_zero] at h0
  have hbits : (shortBits v).length = 20 := rfl
  rw [hbits] at hdequeue
  rw [UsbPd.decodeShort, hdequeue]
  simp only [Option.bind_eq_bind, Option.bind_some, h0, h1, h2, h3, nibbles_eq]
  rfl

theorem append_setWidth (v : BitVec 32) :
    ((v >>> 16).setWidth 16 : BitVec 16) ++ (v.setWidth 16 : BitVec 16) = v := by
  apply BitVec.eq_of_getLsbD_eq
  intro i hi
  rw [BitVec.getLsbD_append]
  by_cases hlow : i < 16
  · simp [hlow]
  · have hidx : 16 + (i - 16) = i := by omega
    simp [hlow, hidx]
    omega

theorem Ahead.decodeWord {v : BitVec 32} (h : Ahead s n t (wordBits v ++ more) rest)
    (hmore : more ≠ []) (cfg : RxConfig) (d : BitVec 32) :
    ∃ m d', decodeWord cfg s ((n + 1 : Nat) : Int) ⟨d, 0⟩ =
        some (((m + 1 : Nat) : Int), v, ⟨d', 0⟩) ∧
      Ahead s m (t + 80) more rest := by
  rw [wordBits, List.append_assoc] at h
  obtain ⟨m, d₁, hlow, hahead⟩ :=
    Ahead.decodeShort h (List.append_ne_nil_of_right_ne_nil _ hmore) cfg d
  obtain ⟨m', d₂, hhigh, hahead'⟩ := Ahead.decodeShort hahead hmore cfg d₁
  refine ⟨m', d₂, ?_, hahead'⟩
  rw [UsbPd.decodeWord, hlow]
  simp only [Option.bind_eq_bind, Option.bind_some, hhigh, append_setWidth]
  rfl

/-- **Run lemma.** The payload loop stores the words one after another. -/
theorem Ahead.decodePayload {data : List (BitVec 32)}
    (h : Ahead s n t (data.flatMap wordBits ++ more) rest) (hmore : more ≠ []) (cfg : RxConfig)
    {κ : Type} (crc : Crc κ) (k : κ) (d : BitVec 32) {p : Nat} {payload : List (BitVec 32)}
    (hfits : p + data.length ≤ payload.length) :
    ∃ m d', decodePayload cfg crc s data.length p ((n + 1 : Nat) : Int) k payload ⟨d, 0⟩ =
        some (((m + 1 : Nat) : Int), data.foldl crc.hash32 k,
          payload.take p ++ data ++ payload.drop (p + data.length), ⟨d', 0⟩) ∧
      Ahead s m (t + 80 * data.length) more rest := by
  induction data generalizing n t k d p payload with
  | nil => exact ⟨n, d, by simp [UsbPd.decodePayload], by simpa using h⟩
  | cons word data ih =>
      rw [List.flatMap_cons, List.append_assoc] at h
      rw [List.length_cons] at hfits
      obtain ⟨m, d₁, hword, hahead⟩ :=
        Ahead.decodeWord h (List.append_ne_nil_of_right_ne_nil _ hmore) cfg d
      have hfits' : p + 1 + data.length ≤ (payload.set p word).length := by
        rw [List.length_set]
        lia
      obtain ⟨m', d₂, hrest, hahead'⟩ := ih hahead (crc.hash32 k word) d₁ hfits'
      refine ⟨m', d₂, ?_, ?_⟩
      · have hpos : (0 : Int) < ((n + 1 : Nat) : Int) := by lia
        have htake : (payload.set p word).take (p + 1) = payload.take p ++ [word] := by
          rw [List.take_add_one, List.take_set_of_le (Nat.le_refl p)]
          simp [show p < payload.length by lia]
        have hdrop : (payload.set p word).drop (p + 1 + data.length) =
            payload.drop (p + (data.length + 1)) := by
          rw [List.drop_set_of_lt (by lia), Nat.add_assoc, Nat.add_comm 1]
        rw [List.length_cons, UsbPd.decodePayload, if_pos hpos, hword]
        simp only [Option.bind_eq_bind, Option.bind_some]
        rw [hrest, htake, hdrop]
        simp
      · have hshift : t + 80 + 80 * data.length = t + 80 * (data.length + 1) := by lia
        rw [List.length_cons, ← hshift]
        exact hahead'

theorem eq_pdEop_of_bits {eop : BitVec 32}
    (h : ∀ i, eop.getLsbD i = [true, false, true, true].getD i false) :
    eop = pdEop.setWidth 32 := by
  apply BitVec.eq_of_getLsbD_eq
  intro i hi
  rw [h]
  interval_cases i <;> rfl

theorem encodeAddress_pdSop (cfg : RxConfig) : encodeAddress cfg pdSop = some 0#32 := by
  rw [encodeAddress, if_pos rfl]
  split_ifs <;> rfl

theorem toInt_header (header : BitVec 16) :
    (0#32 ||| header.setWidth 32).toInt = (header.toNat : Int) := by
  have hlt := header.isLt
  have hsame : (header.setWidth 32).toNat = header.toNat := by
    rw [BitVec.toNat_setWidth]
    omega
  rw [BitVec.zero_or, BitVec.toInt_eq_toNat_of_lt (by rw [hsame]; omega), hsame]

/-- **Spec of the part behind the start of packet.** -/
theorem Ahead.analyzePacket {κ : Type} {crc : Crc κ} {header : BitVec 16}
    {data : List (BitVec 32)} (h : Ahead s n t (messageBits crc header data) rest)
    (hcnt : data.length = pdHeaderCnt header) (cfg : RxConfig) (d : BitVec 32)
    {payload : List (BitVec 32)} (hfits : data.length ≤ payload.length) :
    analyzePacket cfg crc s ((n + 1 : Nat) : Int) pdSop ⟨d, 0⟩ payload =
      some ((header.toNat : Int), data ++ payload.drop data.length) := by
  have heop : symBits pdEop = [true, false, true, true] ++ [false] := rfl
  rw [messageBits, heop] at h
  simp only [List.append_assoc] at h
  obtain ⟨n₁, d₁, hheader, h⟩ :=
    Ahead.decodeShort h (by simp) cfg d
  obtain ⟨n₂, d₂, hdata, h⟩ := Ahead.decodePayload h (by simp) cfg crc
    (crc.hash16 crc.init header) d₁ (by omega : 0 + data.length ≤ payload.length)
  obtain ⟨n₃, d₃, hcrc, h⟩ := Ahead.decodeWord h (by simp) cfg d₂
  obtain ⟨n₄, eop, d₄, hend, heop, -⟩ := Ahead.pdDequeueBits h (by simp) (by decide) cfg.junk d₃
  have hpos : ∀ m : Nat, ¬ ((m + 1 : Nat) : Int) < 0 := by
    intro m
    omega
  have hvalue := eq_pdEop_of_bits heop
  have hsame : messageCrc crc header data =
      crc.result (data.foldl crc.hash32 (crc.hash16 crc.init header)) := rfl
  rw [UsbPd.analyzePacket, hheader]
  simp only [Option.bind_eq_bind, Option.bind_some, encodeAddress_pdSop]
  rw [← hcnt, hdata]
  simp only [Option.bind_some, List.take_zero, List.nil_append, Nat.zero_add]
  rw [if_neg (hpos n₂), hcrc]
  simp only [Option.bind_some]
  rw [if_neg (not_or.mpr ⟨hpos n₃, not_not.mpr hsame⟩),
    show (4 : Nat) = [true, false, true, true].length from rfl, hend]
  simp only [Option.bind_some]
  rw [if_neg (not_or.mpr ⟨hpos n₄, not_not.mpr hvalue⟩), toInt_header]
  rfl

theorem eq_pdSop_of_bits {val : BitVec 32}
    (h : ∀ i, val.getLsbD i =
      (codeBits pdSync1 pdSync1 pdSync1 pdSync2).getD i false) : val = pdSop := by
  apply BitVec.eq_of_getLsbD_eq
  intro i hi
  rw [h]
  interval_cases i <;> rfl

theorem Ahead.findSop
    (h : Ahead s n t (codeBits pdSync1 pdSync1 pdSync1 pdSync2 ++ more) rest) (hmore : more ≠ [])
    (cfg : RxConfig) (rounds : Nat) (val d : BitVec 32) :
    ∃ m d', findSop cfg s (rounds + 1) ((n + 1 : Nat) : Int) val ⟨d, 0⟩ =
        some (.stop ((m + 1 : Nat) : Int) pdSop ⟨d', 0⟩) ∧
      Ahead s m (t + 40) more rest := by
  obtain ⟨m, v, d', hdequeue, hv, hahead⟩ :=
    Ahead.pdDequeueBits h hmore (by rw [length_codeBits]; decide) val d
  rw [length_codeBits] at hdequeue
  have hpos : (0 : Int) < ((n + 1 : Nat) : Int) := by omega
  refine ⟨m, d', ?_, hahead⟩
  rw [UsbPd.findSop, if_pos hpos, hdequeue, eq_pdSop_of_bits hv]
  rfl

end Dequeue

/-! ## The preamble -/

/-- The loop of `pd_find_preamble` on samples that are all known. -/
def scanPreamble (bit : Nat) (all : BitVec 32) : Bytes → Option Int
  | prev :: next :: vals =>
      let all := (all >>> 1) |||
        (if next - prev ≤ periodThreshold then 0x80000000#32 else 0#32)
      if all = 0x36db6db6#32 then some ((bit : Int) - 1)
      else if all = 0xF33F3F3F#32 then some pdRxErrHardReset
      else if all = 0x3c7fe0ff#32 then some pdRxErrCableReset
      else scanPreamble (bit + 1) all (next :: vals)
  | _ => none

theorem findPreambleFrom_eq {s : Samples} {vals stale : Bytes} {bit : Nat} {all : BitVec 32}
    {r : Int} (hscan : scanPreamble (bit + 1) all vals = some r)
    (hsamples : s.raw.val.drop bit = vals ++ stale) (havail : bit + vals.length ≤ s.avail)
    {rounds : Nat} (hrounds : vals.length ≤ rounds) :
    findPreambleFrom s rounds (bit + 1) all = some r := by
  induction rounds generalizing vals bit all with
  | zero =>
      rw [List.eq_nil_of_length_eq_zero (Nat.le_zero.mp hrounds)] at hscan
      simp [scanPreamble] at hscan
  | succ rounds ih =>
      match vals with
      | [] => simp [scanPreamble] at hscan
      | [_] => simp [scanPreamble] at hscan
      | prev :: next :: vals =>
          simp only [List.length_cons] at havail hrounds
          have hprev : s.get (((bit + 1 : Nat) : Int) - 1) = some prev := by
            have hget := Samples.get_of_drop hsamples 0
            simpa using hget
          have hnext : s.get ((bit + 1 : Nat) : Int) = some next := by
            have hget := Samples.get_of_drop hsamples 1
            simpa using hget
          have hdrop : s.raw.val.drop (bit + 1) = (next :: vals) ++ stale := by
            rw [← List.drop_drop, hsamples]
            rfl
          rw [findPreambleFrom, if_neg (by omega), hprev, hnext]
          simp only [Option.bind_eq_bind, Option.bind_some]
          simp only [scanPreamble] at hscan
          generalize (all >>> 1 ||| if next - prev ≤ periodThreshold then 0x80000000#32
            else 0#32) = all' at hscan ⊢
          split_ifs at hscan ⊢
          · exact hscan
          · exact hscan
          · exact hscan
          · exact ih hscan hdrop (by simp only [List.length_cons]; omega)
              (by simp only [List.length_cons]; omega)

/-- The samples up to the end of the start of packet, the same for every message. -/
theorem scanPreamble_sop :
    scanPreamble 1 0#32 ((marks 2 (preambleRest ++
      codeBits pdSync1 pdSync1 pdSync1 pdSync2)).map stamp) = some 96 := by
  decide +kernel

theorem scanPreamble_hardReset :
    scanPreamble 1 0#32 (packetStamps (codeBits pdRst1 pdRst1 pdRst1 pdRst2)) =
      some pdRxErrHardReset := by
  decide +kernel

theorem pdFindPreamble_eq {s : Samples} {vals stale : Bytes} {r : Int}
    (hscan : scanPreamble 1 0#32 vals = some r) (hsamples : s.raw.val = vals ++ stale)
    (havail : vals.length ≤ s.avail) (hlen : vals.length ≤ pdMaxRawSize - 2) :
    pdFindPreamble s = some r :=
  findPreambleFrom_eq hscan hsamples (by omega) hlen

/-! ## Whole packets -/

theorem raw_receive (old : Blob pdMaxRawSize) {samples : Bytes}
    (hlen : samples.length ≤ pdMaxRawSize) :
    (Samples.receive old samples).raw.val = samples ++ old.val.drop samples.length ∧
      (Samples.receive old samples).avail = samples.length := by
  refine ⟨?_, Nat.min_eq_left hlen⟩
  have hfits : samples.take (old.val.length - 0) = samples := by
    rw [old.property]
    exact List.take_of_length_le hlen
  simp only [Samples.receive, writeAt, hfits, List.take_zero, List.nil_append, Nat.zero_add]

/-- A message fits into `raw_samples`. -/
theorem length_packetStamps_le (bits : List Bool) (h : bits.length ≤ 365) :
    (packetStamps bits).length ≤ 827 := by
  have hpreamble : (marks 2 preambleRest).length = 95 := by
    rw [length_marks]
    rfl
  have hbits := length_marks (2 + 2 * preambleRest.length) bits
  have hones : bits.count true ≤ bits.length := List.count_le_length
  rw [packetStamps, List.length_map, List.length_append, marks_append, List.length_append,
    hpreamble, List.length_cons]
  split_ifs <;> simp <;> omega

theorem length_messageBits {κ : Type} (crc : Crc κ) (header : BitVec 16)
    (data : List (BitVec 32)) :
    (messageBits crc header data).length = 65 + 40 * data.length := by
  simp only [messageBits, List.length_append, length_shortBits, length_flatMap_wordBits,
    length_wordBits, length_symBits]
  omega

theorem pdHeaderCnt_le (header : BitVec 16) : pdHeaderCnt header ≤ 7 := by
  rw [pdHeaderCnt, BitVec.toNat_and]
  exact Nat.and_le_right

/-- The position behind the preamble. -/
theorem ahead_packetStamps (old : Blob pdMaxRawSize) {bits : List Bool} (h : bits.length ≤ 365) :
    ∃ rest, Ahead (Samples.receive old (packetStamps bits)) 95 128 bits rest := by
  have hle := length_packetStamps_le bits h
  obtain ⟨hraw, havail⟩ := raw_receive old (hle.trans (by decide))
  have hstamps : ∃ rest, packetStamps bits = (changes 2 (preambleRest ++ bits) rest).map stamp :=
    ⟨_, rfl⟩
  obtain ⟨rest, hstamps⟩ := hstamps
  have hpreamble : ((marks 2 preambleRest).map stamp).length = 95 := by
    rw [List.length_map, length_marks]
    rfl
  rw [changes_append, List.map_append] at hstamps
  refine ⟨rest, ⟨old.val.drop (packetStamps bits).length, ?_⟩, ?_, ?_⟩
  · rw [hraw, hstamps, List.append_assoc, List.drop_left' hpreamble]
    rfl
  · rw [havail, hstamps, List.length_append, hpreamble, List.length_map]
    rfl
  · rw [havail]
    exact hle.trans (by decide)

theorem exists_packetStamps_append (bits more : List Bool) :
    ∃ later, packetStamps (bits ++ more) =
      (marks 2 (preambleRest ++ bits)).map stamp ++ later := by
  rw [packetStamps, ← List.append_assoc, marks_append, List.append_assoc, List.map_append]
  exact ⟨_, rfl⟩

section Packets

variable {κ : Type} (cfg : RxConfig) (crc : Crc κ) (tx : Tx) (old : Blob pdMaxRawSize)
  (payload : Arr (BitVec 32) 7)

/-- The preamble of a message ends where its start of packet begins. -/
theorem pdFindPreamble_message {bits : List Bool}
    (h : (codeBits pdSync1 pdSync1 pdSync1 pdSync2 ++ bits).length ≤ 365) :
    pdFindPreamble (Samples.receive old
      (packetStamps (codeBits pdSync1 pdSync1 pdSync1 pdSync2 ++ bits))) = some 96 := by
  have hle := length_packetStamps_le _ h
  obtain ⟨hraw, havail⟩ := raw_receive old (hle.trans (by decide))
  -- The samples up to the end of the start of packet are the same for every message.
  obtain ⟨later, hlater⟩ :=
    exists_packetStamps_append (codeBits pdSync1 pdSync1 pdSync1 pdSync2) bits
  have hfirst : ((marks 2 (preambleRest ++
      codeBits pdSync1 pdSync1 pdSync1 pdSync2)).map stamp).length = 123 := by
    rw [List.length_map, length_marks]
    rfl
  rw [hlater] at hraw havail ⊢
  rw [List.append_assoc] at hraw
  rw [List.length_append] at havail
  exact pdFindPreamble_eq scanPreamble_sop hraw (by omega) (by rw [hfirst]; decide)

theorem pdAnalyzeRx_prepareMessage (header : BitVec 16)
    (data : Arr (BitVec 32) (pdHeaderCnt header)) :
    pdAnalyzeRx cfg crc
        (Samples.receive old (timeStamps (tx.prepareMessage crc header data.val).line))
        payload.val =
      some ((header.toNat : Int), data.val ++ payload.val.drop (pdHeaderCnt header)) := by
  have hcnt := pdHeaderCnt_le header
  have hbits : (codeBits pdSync1 pdSync1 pdSync1 pdSync2 ++
      messageBits crc header data.val).length ≤ 365 := by
    rw [List.length_append, length_codeBits, length_messageBits, data.property]
    omega
  have hne : messageBits crc header data.val ≠ [] := by
    rw [← List.length_pos_iff, length_messageBits]
    omega
  have hfits : data.val.length ≤ payload.val.length := by
    rw [data.property, payload.property]
    exact hcnt
  have hfind := pdFindPreamble_message old hbits
  obtain ⟨rest, hahead⟩ := ahead_packetStamps old hbits
  obtain ⟨n, d, hsop, hmessage⟩ := Ahead.findSop hahead hne cfg 857 0#32 0#32
  have hpacket := Ahead.analyzePacket hmessage data.property cfg d hfits
  rw [data.property] at hpacket
  have hpos : ¬ ((n + 1 : Nat) : Int) < 0 := by omega
  rw [timeStamps_prepareMessage, pdAnalyzeRx, hfind]
  simp only [Option.bind_eq_bind, Option.bind_some]
  rw [if_neg (by decide)]
  have hstart : findSop cfg (Samples.receive old (packetStamps
      (codeBits pdSync1 pdSync1 pdSync1 pdSync2 ++ messageBits crc header data.val)))
      pdMaxRawSize 96 0#32 pdInitDequeue =
        some (.stop ((n + 1 : Nat) : Int) pdSop ⟨d, 0⟩) := hsop
  rw [hstart]
  simp only [Option.bind_some]
  rw [if_neg hpos]
  exact hpacket

theorem pdAnalyzeRx_hardReset :
    pdAnalyzeRx cfg crc (Samples.receive old (timeStamps tx.hardReset.line)) payload.val =
      some (pdRxErrHardReset, payload.val) := by
  have hbits : (codeBits pdRst1 pdRst1 pdRst1 pdRst2).length ≤ 365 := by
    rw [length_codeBits]
    decide
  have hfits := (length_packetStamps_le _ hbits).trans (by decide : 827 ≤ pdMaxRawSize - 2)
  obtain ⟨hraw, havail⟩ := raw_receive old (hfits.trans (by decide))
  rw [timeStamps_hardReset, pdAnalyzeRx,
    pdFindPreamble_eq scanPreamble_hardReset hraw havail.ge hfits]
  rfl

/-- **USB-PD transmit and receive agree.**  For every header and payload, and whatever the two
buffers held before, `pd_analyze_rx` makes of the samples of `prepare_message` the header and
the words that were sent, and of the samples of `send_hard_reset` a hard reset.  The result is
`some`: no sample outside of `raw_samples` is read. -/
theorem pdAnalyzeRx_transmitted :
    (∀ (header : BitVec 16) (data : Arr (BitVec 32) (pdHeaderCnt header)),
      pdAnalyzeRx cfg crc
          (Samples.receive old (timeStamps (tx.prepareMessage crc header data.val).line))
          payload.val =
        some ((header.toNat : Int), data.val ++ payload.val.drop (pdHeaderCnt header))) ∧
    pdAnalyzeRx cfg crc (Samples.receive old (timeStamps tx.hardReset.line)) payload.val =
      some (pdRxErrHardReset, payload.val) :=
  ⟨pdAnalyzeRx_prepareMessage cfg crc tx old payload,
    pdAnalyzeRx_hardReset cfg crc tx old payload⟩

end Packets

end UsbPd
end CrosEc
