import CrosEc.Base32.Model

/-!
# `common/base32.c`: decoding undoes encoding

The bits of one symbol are followed through both loops: `encodeSym_testBit` says which bits of
the source a symbol holds, `storeSym_filled` that the decoder puts the bits of a symbol where
they belong.  The loops are then compared symbol by symbol, with the CRC counters in step.
-/

namespace CrosEc
namespace Base32

open Lib

/-! ## Symbols -/

theorem crc5Table1_lt : ∀ x ∈ crc5Table1, x < 2 ^ 5 := by decide

theorem crc5Table0_lt : ∀ x ∈ crc5Table0, x < 2 ^ 5 := by decide

theorem getD_lt {l : List Nat} {b : Nat} (h : ∀ x ∈ l, x < b) (hb : 0 < b) (i : Nat) :
    l.getD i 0 < b := by
  rw [List.getD_eq_getElem?_getD]
  cases hi : l[i]? with
  | none => simpa using hb
  | some x => exact h x (List.mem_of_getElem? hi)

/-- A CRC is a symbol. -/
theorem crc5Sym_lt (sym crc : Nat) : crc5Sym sym crc < 32 :=
  Nat.xor_lt_two_pow (n := 5) (getD_lt crc5Table1_lt (by decide) _)
    (getD_lt crc5Table0_lt (by decide) _)

theorem decodeSym_base32Char {sym : Nat} (h : sym < 32) :
    decodeSym (base32Char sym) = some sym := by
  revert sym
  decide

/-- What the decoder skips. -/
def isSeparator (c : Char) : Bool := isspace c || c = '-'

theorem isSeparator_base32Char {sym : Nat} (h : sym < 32) :
    isSeparator (base32Char sym) = false := by
  revert sym
  decide

theorem loadSym_testBit (src : Nat → UInt8) {n i j : Nat} (hj : j < 5) (hn : i + j < n) :
    (loadSym src n i).testBit (4 - j) = streamBit src (i + j) := by
  simp only [loadSym]
  by_cases hoffs : i % 8 ≤ 3
  · rw [if_pos hoffs, Nat.testBit_shiftRight, streamBit_add_of_lt src (by lia)]
    congr 1
    lia
  · rw [if_neg hoffs]
    have hleft : ((src (i / 8)).toNat <<< (i % 8 - 3)).testBit (4 - j) =
        (decide (i % 8 + j < 8) && (src (i / 8)).toNat.testBit (7 - (i % 8 + j))) := by
      rw [Nat.testBit_shiftLeft]
      congr 1
      · simp only [decide_eq_decide]
        lia
      · congr 1
        lia
    by_cases hin : i % 8 + j < 8
    · -- the other byte has no bit there
      have hright : ((src (i / 8 + 1)).toNat >>> (11 - i % 8)).testBit (4 - j) = false := by
        rw [Nat.testBit_shiftRight]
        exact testBit_byte_of_le _ (by lia)
      rw [streamBit_add_of_lt src hin]
      split <;> simp [hleft, hright, hin]
    · have hright : ((src (i / 8 + 1)).toNat >>> (11 - i % 8)).testBit (4 - j) =
          (src (i / 8 + 1)).toNat.testBit (15 - (i % 8 + j)) := by
        rw [Nat.testBit_shiftRight]
        congr 1
        lia
      rw [if_pos (by lia), Nat.testBit_or, hleft, hright,
        streamBit_add_of_le src (by lia) (by lia)]
      simp [hin]

/-- **The bits of a symbol** are five bits of the source, or zero behind its end. -/
theorem encodeSym_testBit (src : Nat → UInt8) {n i j : Nat} (hj : j < 5) :
    (encodeSym src n i).testBit (4 - j) = (decide (i + j < n) && streamBit src (i + j)) := by
  have hmask : (loadSym src n i &&& 0x1f).testBit (4 - j) = (loadSym src n i).testBit (4 - j) := by
    rw [show (0x1f : Nat) = 2 ^ 5 - 1 from rfl, Nat.testBit_and, Nat.testBit_two_pow_sub_one]
    simp [show 4 - j < 5 by lia]
  simp only [encodeSym]
  split
  next hpad =>
    have hbits : (0x1f <<< (5 + i - n) : Nat).testBit (4 - j) = decide (i + j < n) := by
      rw [show (0x1f : Nat) = 2 ^ 5 - 1 from rfl, Nat.testBit_shiftLeft,
        Nat.testBit_two_pow_sub_one, ← Bool.decide_and, decide_eq_decide]
      lia
    rw [Nat.testBit_and, hmask, hbits, Bool.and_comm]
    by_cases hn : i + j < n
    · simp [hn, loadSym_testBit src hj hn]
    · simp [hn]
  next hfull =>
    have hn : i + j < n := by lia
    rw [hmask, loadSym_testBit src hj hn]
    simp [hn]

theorem encodeSym_lt (src : Nat → UInt8) (n i : Nat) : encodeSym src n i < 32 := by
  have hmask : ∀ x : Nat, x &&& 0x1f < 32 := fun x =>
    lt_of_le_of_lt Nat.and_le_right (by decide)
  simp only [encodeSym]
  split
  · exact lt_of_le_of_lt Nat.and_le_left (hmask _)
  · exact hmask _

/-! ## Storing a symbol -/

theorem testBit_topBits (sym k : Nat) {sbits : Nat} (hle : sbits ≤ 5) :
    (if sbits < 5 then sym >>> (5 - sbits) else sym).testBit k = sym.testBit (k + 5 - sbits) := by
  split
  · rw [Nat.testBit_shiftRight]
    congr 1
    lia
  · congr 1
    lia

/-- The bits of a symbol that fill up a byte, of which `dbits` are left. -/
theorem testBit_firstPart (sym k : Nat) {sbits dbits b : Nat} (hle : sbits ≤ 5)
    (hb : b = min dbits sbits) :
    (((if sbits < 5 then sym >>> (5 - sbits) else sym) <<< (dbits - b)) >>> (sbits - b)).testBit k =
      (decide (dbits ≤ k + b) && sym.testBit (k + 5 - dbits)) := by
  rw [Nat.testBit_shiftRight, Nat.testBit_shiftLeft, testBit_topBits sym _ hle]
  by_cases hk : dbits ≤ k + b
  · have hindex : sbits - b + k - (dbits - b) + 5 - sbits = k + 5 - dbits := by lia
    rw [hindex]
    simp only [hk, decide_true, Bool.true_and]
    rw [decide_eq_true (by lia), Bool.true_and]
  · have hlow : ¬ sbits - b + k ≥ dbits - b := by lia
    simp [hk, hlow]

theorem storeSym_outBits (destlenBits sym : Nat) (s : DecodeState) :
    (storeSym destlenBits sym s).outBits = s.outBits + min 5 (destlenBits - s.outBits) := by
  simp only [storeSym]
  split
  · simp only
    lia
  · simp only
    lia

/-- The byte the decoder stands in is filled up. -/
theorem filled_currentByte {sym o sbits dbits b : Nat} {dest : Nat → UInt8} {f : Nat → Bool}
    (hsb : 0 < sbits ∧ sbits ≤ 5) (hdb : dbits = 8 - o % 8) (hb : b = min dbits sbits)
    (hsym : sym < 32) (h : Filled dest o f)
    (hbits : ∀ j < sbits, sym.testBit (4 - j) = f (o + j)) :
    Filled (Function.update dest (o / 8) ((if dbits = 8 then 0 else dest (o / 8)) ||| UInt8.ofNat
      (((if sbits < 5 then sym >>> (5 - sbits) else sym) <<< (dbits - b)) >>> (sbits - b))))
      (o + b) f := by
  refine h.update (by lia) (by lia) fun m hm => ?_
  refine testBit_or_behind (o := o) (by lia) ?_ ?_
  · split
    · have hnot : ¬ m < o := by lia
      simp [hnot]
    · exact h.testBit_current (by lia) hm
  · rw [testBit_firstPart sym _ hsb.2 hb]
    by_cases hlow : m < o
    · -- in front of the symbol there is nothing
      have hzero : sym.testBit (7 - m % 8 + 5 - dbits) = false :=
        Nat.testBit_lt_two_pow (lt_of_lt_of_le hsym
          (Nat.pow_le_pow_right (n := 2) (by decide) (show 5 ≤ _ by lia)))
      have hnot : ¬ o ≤ m := by lia
      simp [hzero, hnot]
    · obtain ⟨j, rfl⟩ := Nat.exists_eq_add_of_le (Nat.not_lt.1 hlow)
      by_cases hin : j < b
      · have hindex : 7 - (o + j) % 8 + 5 - dbits = 4 - j := by lia
        have hc : dbits ≤ 7 - (o + j) % 8 + b := by lia
        rw [hindex, hbits j (by lia)]
        simp [hc, hin]
      · have hc : ¬ dbits ≤ 7 - (o + j) % 8 + b := by lia
        simp [hc, hin]

/-- The next byte takes the rest of the symbol. -/
theorem filled_nextByte {sym o sbits b : Nat} {dest : Nat → UInt8} {f : Nat → Bool}
    (hsb : sbits ≤ 5) (hrest : 0 < sbits - b) (hnext : (o + b) % 8 = 0)
    (h : Filled dest (o + b) f) (hbits : ∀ j < sbits, sym.testBit (4 - j) = f (o + j)) :
    Filled (Function.update dest ((o + b) / 8) (UInt8.ofNat
      ((if sbits < 5 then sym >>> (5 - sbits) else sym) <<< (8 - (sbits - b)))))
      (o + b + (sbits - b)) f := by
  refine h.update (by lia) (by lia) fun m hm => ?_
  rw [testBit_ofNat _ (by lia), Nat.testBit_shiftLeft, testBit_topBits sym _ hsb]
  obtain ⟨j, rfl⟩ : ∃ j, m = o + b + j := ⟨m - (o + b), by lia⟩
  by_cases hin : j < sbits - b
  · have hindex : 7 - (o + b + j) % 8 - (8 - (sbits - b)) + 5 - sbits = 4 - (b + j) := by lia
    have hc : 7 - (o + b + j) % 8 ≥ 8 - (sbits - b) := by lia
    rw [hindex, hbits (b + j) (by lia), ← Nat.add_assoc]
    simp [hc, hin]
  · have hc : ¬ 7 - (o + b + j) % 8 ≥ 8 - (sbits - b) := by lia
    simp [hc, hin]

/-- **The bits of a symbol follow those stored before**, up to the end of the destination. -/
theorem storeSym_filled {destlenBits sym : Nat} {s : DecodeState} {f : Nat → Bool}
    (hspace : s.outBits < destlenBits) (hsym : sym < 32) (h : Filled s.dest s.outBits f)
    (hbits : ∀ j < 5, s.outBits + j < destlenBits → sym.testBit (4 - j) = f (s.outBits + j)) :
    Filled (storeSym destlenBits sym s).dest (storeSym destlenBits sym s).outBits f := by
  have hand : s.outBits &&& 7 = s.outBits % 8 := Nat.and_two_pow_sub_one_eq_mod _ 3
  simp only [storeSym, hand]
  set sbits := min 5 (destlenBits - s.outBits) with hsbits
  have hused : ∀ j < sbits, sym.testBit (4 - j) = f (s.outBits + j) := fun j hj =>
    hbits j (by lia) (by lia)
  have hfirst := filled_currentByte (by lia) rfl rfl hsym h hused
  split
  next hrest => exact filled_nextByte (by lia) hrest (by lia) hfirst hused
  next => exact hfirst

/-! ## The loops -/

/-- The decoder skips separators. -/
theorem decodeLoop_filter (destlenBits crcAfterEvery : Nat) (src : List Char) (s : DecodeState) :
    decodeLoop destlenBits crcAfterEvery src s =
      decodeLoop destlenBits crcAfterEvery (src.filter fun c => !isSeparator c) s := by
  induction src generalizing s with
  | nil => rfl
  | cons c src ih =>
      by_cases hsep : isSeparator c
      · have hskip : (isspace c || c = '-') = true := hsep
        rw [decodeLoop, if_pos hskip, List.filter_cons_of_neg (by simp [hsep])]
        exact ih s
      · have hskip : ¬ (isspace c || c = '-') = true := hsep
        rw [List.filter_cons_of_pos (by simp [hsep]), decodeLoop, decodeLoop, if_neg hskip,
          if_neg hskip]
        simp only [ih]

/-- The decoder's state once its CRC counter has seen a symbol. -/
def DecodeState.countSym (crcAfterEvery sym : Nat) (s : DecodeState) : DecodeState :=
  if crcAfterEvery ≠ 0 then { s with crc := crc5Sym sym s.crc, crcCount := s.crcCount + 1 } else s

/-- A data symbol. -/
theorem decodeLoop_data {destlenBits crcAfterEvery sym : Nat} (hsym : sym < 32)
    (src : List Char) {s : DecodeState} (hcount : crcAfterEvery ≠ 0 → s.crcCount < crcAfterEvery)
    (hspace : s.outBits < destlenBits) :
    decodeLoop destlenBits crcAfterEvery (base32Char sym :: src) s =
      decodeLoop destlenBits crcAfterEvery src
        (storeSym destlenBits sym (s.countSym crcAfterEvery sym)) := by
  have hskip : ¬ (isspace (base32Char sym) || base32Char sym = '-') = true := by
    simpa [isSeparator] using isSeparator_base32Char hsym
  have hfull : ¬ (crcAfterEvery ≠ 0 ∧ s.crcCount = crcAfterEvery) := fun h =>
    absurd h.2 (Nat.ne_of_lt (hcount h.1))
  have hout : (s.countSym crcAfterEvery sym).outBits = s.outBits := by
    rw [DecodeState.countSym]
    split <;> rfl
  rw [decodeLoop, if_neg hskip, decodeSym_base32Char hsym]
  simp only [if_neg hfull]
  show (if destlenBits ≤ (s.countSym crcAfterEvery sym).outBits then _ else _) = _
  rw [hout, if_neg (by omega)]
  rfl

/-- The CRC symbol behind a full group. -/
theorem decodeLoop_crc {destlenBits crcAfterEvery : Nat} (hevery : crcAfterEvery ≠ 0)
    (src : List Char) {s : DecodeState} (hcrc : s.crc < 32) (hcount : s.crcCount = crcAfterEvery) :
    decodeLoop destlenBits crcAfterEvery (base32Char s.crc :: src) s =
      decodeLoop destlenBits crcAfterEvery src { s with crc := 0, crcCount := 0 } := by
  have hskip : ¬ (isspace (base32Char s.crc) || base32Char s.crc = '-') = true := by
    simpa [isSeparator] using isSeparator_base32Char hcrc
  rw [decodeLoop, if_neg hskip, decodeSym_base32Char hcrc]
  simp [hevery, hcount]

theorem storeSym_crc (destlenBits sym : Nat) (s : DecodeState) :
    (storeSym destlenBits sym s).crc = s.crc ∧
      (storeSym destlenBits sym s).crcCount = s.crcCount := by
  simp only [storeSym]
  split <;> exact ⟨rfl, rfl⟩

/-- **Step lemma.** One symbol of the encoder, stored by the decoder. -/
theorem storeSym_encodeSym (src : Nat → UInt8) {n i : Nat} (hi : i < n) {dest : Nat → UInt8}
    (crc crcCount : Nat) (hdest : Filled dest (min i n) (streamBit src)) :
    ∃ dest', storeSym n (encodeSym src n i) ⟨crc, crcCount, min i n, dest⟩ =
        ⟨crc, crcCount, min (i + 5) n, dest'⟩ ∧
      Filled dest' (min (i + 5) n) (streamBit src) := by
  have hmin : min i n = i := by lia
  rw [hmin] at hdest ⊢
  set s := storeSym n (encodeSym src n i) ⟨crc, crcCount, i, dest⟩ with hs
  have hout : s.outBits = min (i + 5) n := by
    rw [hs, storeSym_outBits]
    show i + min 5 (n - i) = _
    lia
  have hfilled : Filled s.dest s.outBits (streamBit src) := by
    refine storeSym_filled (s := ⟨crc, crcCount, i, dest⟩) hi (encodeSym_lt src n i) hdest ?_
    intro j hj hlt
    rw [encodeSym_testBit src hj, decide_eq_true hlt, Bool.true_and]
  obtain ⟨hcrc, hcount⟩ := storeSym_crc n (encodeSym src n i) ⟨crc, crcCount, i, dest⟩
  refine ⟨s.dest, ?_, hout ▸ hfilled⟩
  rw [← hout]
  exact congrArg₂ (fun a b => (⟨a, b, s.outBits, s.dest⟩ : DecodeState)) hcrc hcount

/-- **The two loops in step.**  The decoder stands in front of the symbol for bit `i`, with the
bits before it stored and the CRC counters equal to the encoder's; the symbols left complete the
groups. -/
theorem decodeLoop_encodeLoop (src : Nat → UInt8) (n every : Nat) (i crc crcCount : Nat)
    (dest : Nat → UInt8) (hdest : Filled dest (min i n) (streamBit src))
    (hcount : every ≠ 0 → crcCount < every)
    (hgroups : every ≠ 0 → (crcCount + (n - i + 4) / 5) % every = 0) :
    ∃ s, decodeLoop n every (encodeLoop src n every i crc crcCount)
        ⟨crc, crcCount, min i n, dest⟩ = .ok s ∧
      s.outBits = n ∧ Filled s.dest n (streamBit src) ∧ (every ≠ 0 → s.crcCount = 0) := by
  fun_induction encodeLoop src n every i crc crcCount generalizing dest with
  | case1 i crc crcCount hi sym ihPlain ihFull ihPart =>
      have hsym : sym < 32 := encodeSym_lt src n i
      have hleft : (n - i + 4) / 5 = 1 + (n - (i + 5) + 4) / 5 := by lia
      rw [decodeLoop_data hsym _ hcount (by show min i n < n; lia)]
      by_cases hevery : every = 0
      · obtain ⟨dest', hstore, hfilled⟩ := storeSym_encodeSym src hi crc crcCount hdest
        have hskip : DecodeState.countSym every sym ⟨crc, crcCount, min i n, dest⟩ =
            ⟨crc, crcCount, min i n, dest⟩ := by
          simp [DecodeState.countSym, hevery]
        rw [if_pos hevery, hskip, hstore]
        exact ihPlain dest' hfilled hcount (fun h => absurd hevery h)
      · obtain ⟨dest', hstore, hfilled⟩ :=
          storeSym_encodeSym src hi (crc5Sym sym crc) (crcCount + 1) hdest
        have hsum := hgroups hevery
        have hcountSym : DecodeState.countSym every sym ⟨crc, crcCount, min i n, dest⟩ =
            ⟨crc5Sym sym crc, crcCount + 1, min i n, dest⟩ := by
          simp [DecodeState.countSym, hevery]
        rw [if_neg hevery, hcountSym, hstore]
        rw [hleft, ← Nat.add_assoc] at hsum
        by_cases hfull : crcCount + 1 = every
        · -- the group is complete, and its CRC follows
          rw [if_pos hfull, decodeLoop_crc hevery _ (s := ⟨crc5Sym sym crc, crcCount + 1, _, dest'⟩)
            (crc5Sym_lt sym crc) hfull]
          refine ihFull dest' hfilled (fun _ => Nat.pos_of_ne_zero hevery) (fun _ => ?_)
          rw [hfull, Nat.add_mod_left] at hsum
          rw [Nat.zero_add, hsum]
        · rw [if_neg hfull]
          have hlt := hcount hevery
          exact ihPart dest' hfilled (fun _ => by lia) (fun _ => hsum)
  | case2 i crc crcCount hi =>
      have hmin : min i n = n := by lia
      refine ⟨_, rfl, hmin, hmin ▸ hdest, fun hevery => ?_⟩
      have hrest := hgroups hevery
      rw [show (n - i + 4) / 5 = 0 by lia, Nat.add_zero, Nat.mod_eq_of_lt (hcount hevery)] at hrest
      exact hrest

/-- How many characters a string of `symbols` symbols has with its CRC symbols. -/
def encodedLength (symbols addCrcEvery : Nat) : Nat :=
  if addCrcEvery ≠ 0 then symbols + symbols / addCrcEvery else symbols

theorem length_encodeLoop (src : Nat → UInt8) (n every i crc crcCount : Nat)
    (hcount : every ≠ 0 → crcCount < every) :
    (encodeLoop src n every i crc crcCount).length + crcCount =
      encodedLength (crcCount + (n - i + 4) / 5) every := by
  fun_induction encodeLoop src n every i crc crcCount with
  | case1 i crc crcCount hi sym ihPlain ihFull ihPart =>
      have hleft : (n - i + 4) / 5 = 1 + (n - (i + 5) + 4) / 5 := by lia
      rw [List.length_cons, hleft, ← Nat.add_assoc]
      by_cases hevery : every = 0
      · have := ihPlain hcount
        simp only [encodedLength, hevery, ne_eq, not_true_eq_false, if_false, if_true] at this ⊢
        lia
      · rw [if_neg hevery]
        by_cases hfull : crcCount + 1 = every
        · have hih := ihFull (fun _ => Nat.pos_of_ne_zero hevery)
          rw [if_pos hfull, List.length_cons, hfull]
          simp only [encodedLength, hevery, ne_eq, not_false_eq_true, if_true, Nat.zero_add,
            Nat.add_zero] at hih ⊢
          rw [hih, Nat.add_div_left _ (Nat.pos_of_ne_zero hevery)]
          lia
        · have hlt := hcount hevery
          have hih := ihPart (fun _ => by lia)
          rw [if_neg hfull, ← hih]
          lia
  | case2 i crc crcCount hi =>
      rw [show (n - i + 4) / 5 = 0 by lia, List.length_nil, Nat.zero_add, Nat.add_zero,
        encodedLength]
      split
      next hevery => rw [Nat.div_eq_of_lt (hcount hevery), Nat.add_zero]
      next => rfl

/-- **Decoding undoes encoding.**  For a bit string of any length `n` and a CRC interval that
divides the number of symbols, or none: with room for the string and its null, encoding
succeeds.  Decoding any text that is the string with separators put in returns `n` and leaves
the bits in the destination, whatever was there, with zeros up to the end of the last byte. -/
theorem base32Decode_base32Encode (src : Nat → UInt8) (n every destlenChars : Nat)
    (hevery : every = 0 ∨ every ∣ (n + 4) / 5)
    (hroom : encodedLength ((n + 4) / 5) every < destlenChars)
    (text : List Char)
    (htext : text.filter (fun c => !isSeparator c) = (base32Encode destlenChars src n every).2)
    (dest : Nat → UInt8) :
    (base32Encode destlenChars src n every).1 = ecSuccess ∧
      (base32Encode destlenChars src n every).2.length = encodedLength ((n + 4) / 5) every ∧
      (base32Decode dest n text every).1 = n ∧
      ∀ m < 8 * ((n + 7) / 8), streamBit (base32Decode dest n text every).2 m =
        if m < n then streamBit src m else false := by
  have hdvd : every ≠ 0 → (n + 4) / 5 % every = 0 := fun h =>
    Nat.mod_eq_zero_of_dvd (hevery.resolve_left h)
  have hencode : base32Encode destlenChars src n every =
      (ecSuccess, encodeLoop src n every 0 0 0) := by
    have hgroups : ¬ (every ≠ 0 ∧ (n + 4) / 5 % every ≠ 0) := fun h => h.2 (hdvd h.1)
    simp only [base32Encode, if_neg hgroups]
    rw [if_neg]
    intro hfew
    have hlen : encodedLength ((n + 4) / 5) every < destlenChars := hroom
    rw [encodedLength] at hlen
    omega
  have hcount : every ≠ 0 → 0 < every := Nat.pos_of_ne_zero
  obtain ⟨s, hloop, hout, hfilled, hzero⟩ := decodeLoop_encodeLoop src n every 0 0 0 dest
    (by simpa using Filled.zero dest (streamBit src)) hcount (by simpa using hdvd)
  rw [hencode] at htext ⊢
  have hlen := length_encodeLoop src n every 0 0 0 hcount
  have hdecode : base32Decode dest n text every = ((s.outBits : Int), s.dest) := by
    rw [base32Decode, decodeLoop_filter, htext]
    rw [Nat.zero_min] at hloop
    rw [hloop]
    exact if_neg fun h => h.2 (hzero h.1)
  rw [hdecode]
  refine ⟨rfl, by simpa using hlen, by rw [hout], fun m hm => ?_⟩
  rw [hfilled m (by omega)]
  split <;> simp_all

/-- Nine bits with a CRC after two symbols, typed with a blank and a dash, over a destination of
ones. -/
theorem base32Decode_base32Encode_typed :
    let src : Nat → UInt8 := fun i => [0xfe].getD i 0xff
    let result := base32Decode (fun _ => 0xff) 9 " 94-T".toList 2
    result.1 = (9 : Nat) ∧ ∀ m < 8 * ((9 + 7) / 8),
      streamBit result.2 m = if m < 9 then streamBit src m else false := by
  intro src result
  have hloop : encodeLoop src 9 2 0 0 0 = "94T".toList := by
    simp [encodeLoop]
    decide
  have htext : " 94-T".toList.filter (fun c => !isSeparator c) = (base32Encode 4 src 9 2).2 := by
    show _ = encodeLoop src 9 2 0 0 0
    rw [hloop]
    decide
  exact (base32Decode_base32Encode src 9 2 4 (by decide) (by decide) _ htext fun _ => 0xff).2.2

end Base32
end CrosEc
