import CrosEc.Lib.Crash

/-!
# `common/nvcounter.c`: the anti-rollback counter

The counter lives in two pages of flash, LOW and HIGH.  A count is a strike: it clears
four bits of a word, so a word can be struck eight times.  When LOW is struck out, HIGH
is struck once to say that LOW is being erased, LOW is erased, and HIGH is struck again.

A flash write can only clear bits.  If power is lost during a write, any subset of the
bits it would clear is cleared; if it is lost during an erase, the page is left with
arbitrary contents.
-/

namespace CrosEc
namespace NvCounter

open Lib

abbrev Word := BitVec 32

/-- Which of the two pages. -/
inductive Page where
  | lo
  | hi
  deriving DecidableEq

/-- The contents of the two pages.  A page has `PAGE_WORDS` words; indices from there on
are not part of it. -/
structure Pages where
  lo : Nat → Word
  hi : Nat → Word

/-- What a loss of power leaves: the bits that a cut write spares, or the page that a cut
erase makes. -/
structure Torn where
  keep : Word
  page : Nat → Word

/-- A computation over the two pages that may be cut. -/
abbrev Flash := Prog Pages Torn

def Pages.get (s : Pages) : Page → Nat → Word
  | .lo => s.lo
  | .hi => s.hi

def Pages.set (s : Pages) (p : Page) (page : Nat → Word) : Pages :=
  match p with
  | .lo => { s with lo := page }
  | .hi => { s with hi := page }

/-- Clear, in word `i`, the bits that are clear in `v`. -/
def Pages.strike (s : Pages) (p : Page) (i : Nat) (v : Word) : Pages :=
  s.set p (Function.update (s.get p) i (s.get p i &&& v))

/-- An erased page. -/
def erasedPage : Nat → Word := fun _ => 0xffffffff

/-- `_write` -/
def write (p : Page) (i : Nat) (v : Word) : Flash Unit :=
  Prog.step (fun s => s.strike p i v) fun torn s => s.strike p i (v ||| torn.keep)

/-- `_erase` -/
def erase (p : Page) : Flash Unit :=
  Prog.step (fun s => s.set p erasedPage) fun torn s => s.set p torn.page

/-- `INCORRECT_FLASH_CNT` -/
def incorrectFlashCnt : Nat := 0xdeadd0d0

/-- The clean states of a word, which `_decode` returns at once. -/
def cleanLevel (v : Word) : Option Nat :=
  if v = 0xffffffff then some 0
  else if v = 0x3cffffff then some 1
  else if v = 0x00ffffff then some 2
  else if v = 0x003cffff then some 3
  else if v = 0x0000ffff then some 4
  else if v = 0x00003cff then some 5
  else if v = 0x000000ff then some 6
  else if v = 0x0000003c then some 7
  else if v = 0x00000000 then some 8
  else none

/-- The transition that got interrupted: its target, and the level of the target. -/
def interrupted (v : Word) : Option (Word × Nat) :=
  if v &&& 0x3cffffff = 0x3cffffff then some (0x3cffffff, 1)
  else if v &&& 0xc3ffffff = 0x00ffffff then some (0x00ffffff, 2)
  else if v &&& 0xff3cffff = 0x003cffff then some (0x003cffff, 3)
  else if v &&& 0xffc3ffff = 0x0000ffff then some (0x0000ffff, 4)
  else if v &&& 0xffff3cff = 0x00003cff then some (0x00003cff, 5)
  else if v &&& 0xffffc3ff = 0x000000ff then some (0x000000ff, 6)
  else if v &&& 0xffffff3c = 0x0000003c then some (0x0000003c, 7)
  else if v &&& 0xffffffc3 = 0x00000000 then some (0x00000000, 8)
  else none

/-- `_decode` -/
def decode (p : Page) (i : Nat) : Flash Nat := do
  let s ← Prog.get
  match cleanLevel (s.get p i) with
  | some level => pure level
  | none =>
      match interrupted (s.get p i) with
      | some (target, level) =>
          write p i target -- affirm
          pure level
      | none => pure incorrectFlashCnt

/-- `_encode` -/
def encode (v : Nat) : Word :=
  if 7 < v then 0
  else
    match v with
    | 0 => 0xffffffff
    | 1 => 0x3cffffff
    | 2 => 0x00ffffff
    | 3 => 0x003cffff
    | 4 => 0x0000ffff
    | 5 => 0x00003cff
    | 6 => 0x000000ff
    | 7 => 0x0000003c
    | _ => 0

/-- `_inc` -/
def inc (p : Page) (i : Nat) : Flash Unit := do
  let v ← decode p i
  if v = 8 then
    write p i 0 -- re-affirm
    write p (i + 1) (encode 1)
  else
    write p i (encode (v + 1))

/-- How a loop of `nvcounter_incr` ends: the whole call returns, or the loop is left at
this index with this count. -/
inductive Scan where
  | returned (cnt : UInt32)
  | stopped (index : Nat) (cnt : UInt32)

/-- `8 * PAGE_WORDS + 1`: what one count of the HIGH page is worth. -/
def lowSpan (pageWords : Nat) : UInt32 := 8 * UInt32.ofNat pageWords + 1

/-- The loop over the HIGH page, `n` words before its end. -/
def scanHigh (pageWords : Nat) : Nat → Nat → UInt32 → Flash Scan
  | 0, hi, cnt => pure (.stopped hi cnt)
  | n + 1, hi, cnt => do
      let result ← decode .hi hi
      if result = incorrectFlashCnt then
        -- jump the entire word ahead
        write .hi hi 0
        pure (.returned ((cnt + 4) * lowSpan pageWords))
      else if result % 2 = 1 then
        -- an erase was interrupted
        erase .lo
        write .hi hi (encode (result + 1))
        pure (.returned ((cnt + UInt32.ofNat ((result + 1) / 2)) * lowSpan pageWords))
      else if result ≠ 8 then
        pure (.stopped hi (cnt + UInt32.ofNat (result / 2)))
      else
        scanHigh pageWords n (hi + 1) (cnt + UInt32.ofNat (result / 2))

/-- The loop over the LOW page, `n` words before its end. -/
def scanLow : Nat → Nat → UInt32 → Flash Scan
  | 0, lo, cnt => pure (.stopped lo cnt)
  | n + 1, lo, cnt => do
      let result ← decode .lo lo
      if result = incorrectFlashCnt then
        write .lo lo 0 -- jump ahead
        pure (.returned (cnt + 8))
      else if result ≠ 8 then
        pure (.stopped lo (cnt + UInt32.ofNat result))
      else
        scanLow n (lo + 1) (cnt + UInt32.ofNat result)

/-- The end of `nvcounter_incr`: one more strike, once the current count is known. -/
def advance (pageWords hi lo : Nat) (cnt : UInt32) : Flash UInt32 := do
  if hi = pageWords ∧ lo = pageWords then
    pure 0xffffffff -- exhausted
  else if lo = pageWords then
    write .lo (pageWords - 1) 0
    inc .hi hi -- mark erase busy
    erase .lo
    inc .hi hi -- mark erase done
    pure (cnt + 1)
  else
    inc .lo lo
    pure (cnt + 1)

/-- `nvcounter_incr` -/
def nvcounterIncr (pageWords : Nat) : Flash UInt32 := do
  match ← scanHigh pageWords pageWords 0 0 with
  | .returned cnt => pure cnt
  | .stopped hi cnt =>
      match ← scanLow pageWords 0 (cnt * lowSpan pageWords) with
      | .returned cnt => pure cnt
      | .stopped lo cnt => advance pageWords hi lo cnt

end NvCounter

/-!
## Struck words and struck pages

A word goes through the levels `encode 0, …, encode 8`, and every strike clears four
bits.  A strike that was cut leaves a word between two levels; `decode_partial` says that
`_decode` tells from every such word which strike it was.

A page that has been struck `c` times has its words struck out one after the other
(`Struck`).  While the `c`-th strike is under way it is `Striking`, and `ReadsAs c` is
what the counter makes of such a page: `c` strikes as soon as one bit of the last one is
cleared.
-/

namespace NvCounter

open Lib

/-! ### Sets of bits -/

/-- Every bit of `a` is set in `b`. -/
def Within (a b : Word) : Prop := a &&& b = a

instance (a b : Word) : Decidable (Within a b) := inferInstanceAs (Decidable (_ = _))

theorem within_iff {a b : Word} :
    Within a b ↔ ∀ i, a.getLsbD i = true → b.getLsbD i = true := by
  constructor
  · intro h i hi
    have hbit : (a &&& b).getLsbD i = a.getLsbD i := by rw [h]
    rw [BitVec.getLsbD_and, hi, Bool.true_and] at hbit
    exact hbit
  · intro h
    apply BitVec.eq_of_getLsbD_eq
    intro i _
    rw [BitVec.getLsbD_and]
    cases ha : a.getLsbD i with
    | false => simp
    | true => simp [h i ha]

theorem Within.refl (a : Word) : Within a a := BitVec.and_self

theorem Within.trans {a b c : Word} (hab : Within a b) (hbc : Within b c) : Within a c :=
  within_iff.mpr fun i hi => within_iff.mp hbc i (within_iff.mp hab i hi)

theorem Within.antisymm {a b : Word} (hab : Within a b) (hba : Within b a) : a = b := by
  have hcomm : b &&& a = a &&& b := BitVec.and_comm b a
  calc
    a = a &&& b := hab.symm
    _ = b &&& a := hcomm.symm
    _ = b := hba

/-- A write clears bits. -/
theorem within_and_left (w v : Word) : Within (w &&& v) w := by
  apply within_iff.mpr
  intro i hi
  rw [BitVec.getLsbD_and, Bool.and_eq_true] at hi
  exact hi.1

/-- A cut write spares what the whole write would have spared. -/
theorem within_torn {a w v keep : Word} (haw : Within a w) (hav : Within a v) :
    Within a (w &&& (v ||| keep)) := by
  apply within_iff.mpr
  intro i hi
  rw [BitVec.getLsbD_and, BitVec.getLsbD_or, within_iff.mp haw i hi, within_iff.mp hav i hi]
  rfl

/-- A word between `a` and `b` is `a` and some of the bits that `b` has more. -/
theorem eq_or_of_within {a w b : Word} (haw : Within a w) (hwb : Within w b) :
    w = a ||| (w &&& (b &&& ~~~ a)) := by
  apply BitVec.eq_of_getLsbD_eq
  intro i hi
  have h₁ := within_iff.mp haw i
  have h₂ := within_iff.mp hwb i
  simp only [BitVec.getLsbD_or, BitVec.getLsbD_and, BitVec.getLsbD_not, hi, decide_true,
    Bool.true_and]
  cases ha : a.getLsbD i with
  | true => simp [h₁ ha]
  | false =>
      cases hw : w.getLsbD i with
      | true => simp [h₂ hw]
      | false => simp

/-- The four bits of a word at these positions, as four Booleans. -/
def fourBits (i j k l : Nat) (b₁ b₂ b₃ b₄ : Bool) : Word :=
  (if b₁ then BitVec.twoPow 32 i else 0) ||| (if b₂ then BitVec.twoPow 32 j else 0) |||
    (if b₃ then BitVec.twoPow 32 k else 0) ||| (if b₄ then BitVec.twoPow 32 l else 0)

theorem and_fourBits (w : Word) (i j k l : Nat) :
    w &&& fourBits i j k l true true true true =
      fourBits i j k l (w.getLsbD i) (w.getLsbD j) (w.getLsbD k) (w.getLsbD l) := by
  simp only [fourBits, if_true, BitVec.and_or_distrib_left, BitVec.and_twoPow]
  rfl

/-! ### Levels -/

/-- The positions of the bits that strike `level` clears. -/
def strikeBits : Nat → Nat × Nat × Nat × Nat
  | 1 => (24, 25, 30, 31)
  | 2 => (26, 27, 28, 29)
  | 3 => (16, 17, 22, 23)
  | 4 => (18, 19, 20, 21)
  | 5 => (8, 9, 14, 15)
  | 6 => (10, 11, 12, 13)
  | 7 => (0, 1, 6, 7)
  | _ => (2, 3, 4, 5)

/-- The word after some of the bits of strike `level` have been cleared. -/
def partialStrike (level : Nat) (b₁ b₂ b₃ b₄ : Bool) : Word :=
  let p := strikeBits level
  encode level ||| fourBits p.1 p.2.1 p.2.2.1 p.2.2.2 b₁ b₂ b₃ b₄

theorem encode_of_le {v : Nat} (h : 8 ≤ v) : encode v = 0 := by
  unfold encode
  rw [if_pos (by omega)]

/-- Every strike clears bits only. -/
theorem encode_succ_within (v : Nat) : Within (encode (v + 1)) (encode v) := by
  by_cases h : v < 8
  · interval_cases v <;> decide
  · rw [encode_of_le (by omega), encode_of_le (by omega)]
    exact Within.refl 0

/-- What `_decode` makes of a word after some of the bits of strike `level` have been
cleared: the old level if there are none, and the new one otherwise. -/
def DecodesTo (level : Nat) (w : Word) : Prop :=
  if w = encode (level - 1) then cleanLevel w = some (level - 1)
  else if w = encode level then cleanLevel w = some level
  else cleanLevel w = none ∧ interrupted w = some (encode level, level)

instance (level : Nat) (w : Word) : Decidable (DecodesTo level w) :=
  inferInstanceAs (Decidable (ite _ _ _))

theorem decodesTo_partialStrike {level : Nat} (hpos : 0 < level) (hle : level ≤ 8) :
    ∀ b₁ b₂ b₃ b₄, DecodesTo level (partialStrike level b₁ b₂ b₃ b₄) := by
  interval_cases level <;> decide

/-- A word between two levels has lost some of the four bits of one strike. -/
theorem exists_partialStrike {level : Nat} (hpos : 0 < level) (hle : level ≤ 8) {w : Word}
    (hlow : Within (encode level) w) (hhigh : Within w (encode (level - 1))) :
    ∃ b₁ b₂ b₃ b₄, w = partialStrike level b₁ b₂ b₃ b₄ := by
  have hbits : encode (level - 1) &&& ~~~ encode level =
      fourBits (strikeBits level).1 (strikeBits level).2.1 (strikeBits level).2.2.1
        (strikeBits level).2.2.2 true true true true := by
    interval_cases level <;> decide
  have hsplit := eq_or_of_within hlow hhigh
  rw [hbits, and_fourBits] at hsplit
  exact ⟨_, _, _, _, hsplit⟩

/-- **Every partial bit pattern of a strike is recognised.** -/
theorem decode_partial {level : Nat} (hpos : 0 < level) (hle : level ≤ 8) {w : Word}
    (hlow : Within (encode level) w) (hhigh : Within w (encode (level - 1))) :
    DecodesTo level w := by
  obtain ⟨b₁, b₂, b₃, b₄, rfl⟩ := exists_partialStrike hpos hle hlow hhigh
  exact decodesTo_partialStrike hpos hle b₁ b₂ b₃ b₄

/-- A word at a level is in a clean state. -/
theorem cleanLevel_encode {level : Nat} (hle : level ≤ 8) :
    cleanLevel (encode level) = some level := by
  interval_cases level <;> decide

theorem encode_pred_ne {level : Nat} (hpos : 0 < level) (hle : level ≤ 8) :
    encode level ≠ encode (level - 1) := by
  interval_cases level <;> decide

/-! ### Pages -/

section Pages

variable {pw c : Nat} {page : Nat → Word}

/-- The page after `c` strikes: word `i` is struck out from `8 * i + 8` strikes on. -/
def Struck (pw : Nat) (page : Nat → Word) (c : Nat) : Prop :=
  ∀ i < pw, page i = encode (c - 8 * i)

/-- The page while strike `c` is under way, or after it. -/
def Striking (pw : Nat) (page : Nat → Word) (c : Nat) : Prop :=
  ∀ i < pw, Within (encode (c - 8 * i)) (page i) ∧ Within (page i) (encode (c - 1 - 8 * i))

/-- The counter reads the page as `c` strikes. -/
def ReadsAs (pw : Nat) (page : Nat → Word) (c : Nat) : Prop :=
  Striking pw page c ∧ (0 < c → ¬ Struck pw page (c - 1))

theorem Struck.striking (h : Struck pw page c) : Striking pw page c := by
  intro i hi
  rw [h i hi]
  refine ⟨Within.refl _, ?_⟩
  by_cases hlow : c ≤ 8 * i
  · have hzero : c - 8 * i = c - 1 - 8 * i := by lia
    rw [hzero]
    exact Within.refl _
  · have hsucc : c - 8 * i = c - 1 - 8 * i + 1 := by lia
    rw [hsucc]
    exact encode_succ_within _

/-- Two different numbers of strikes leave different pages. -/
theorem Struck.not_pred (h : Struck pw page c) (hpos : 0 < c) (hle : c ≤ 8 * pw) :
    ¬ Struck pw page (c - 1) := by
  intro hpred
  have hi : (c - 1) / 8 < pw := by lia
  have hword := (h _ hi).symm.trans (hpred _ hi)
  have hlevel : c - 1 - 8 * ((c - 1) / 8) = c - 8 * ((c - 1) / 8) - 1 := by lia
  rw [hlevel] at hword
  exact encode_pred_ne (by lia) (by lia) hword

theorem Struck.readsAs (h : Struck pw page c) (hle : c ≤ 8 * pw) : ReadsAs pw page c :=
  ⟨h.striking, fun hpos => h.not_pred hpos hle⟩

/-- A strike that was cut has been made, or not. -/
theorem Striking.readsAs (h : Striking pw page (c + 1)) (hle : c ≤ 8 * pw) :
    ReadsAs pw page c ∨ ReadsAs pw page (c + 1) := by
  by_cases hold : Struck pw page c
  · exact Or.inl (hold.readsAs hle)
  · exact Or.inr ⟨h, fun _ => hold⟩

/-- Only the word that is being struck can be between two levels. -/
theorem Striking.word_eq (h : Striking pw page c) {i : Nat} (hi : i < pw)
    (hout : c ≤ 8 * i ∨ 8 * i + 8 < c) : page i = encode (c - 8 * i) := by
  obtain ⟨hlow, hhigh⟩ := h i hi
  have hsame : encode (c - 1 - 8 * i) = encode (c - 8 * i) := by
    rcases hout with hbefore | hafter
    · congr 1
      lia
    · rw [encode_of_le (by lia), encode_of_le (by lia)]
  rw [hsame] at hhigh
  exact hhigh.antisymm hlow

/-- An erased page has not been struck. -/
theorem struck_erasedPage (pw : Nat) : Struck pw erasedPage 0 := by
  intro i _
  rw [Nat.zero_sub]
  rfl

/-- The word that is being struck, as `_decode` sees it on a page that reads as `c`. -/
theorem ReadsAs.decodes (h : ReadsAs pw page c) {i : Nat} (hi : i < pw) :
    (page i = encode (c - 8 * i) ∧ cleanLevel (page i) = some (min 8 (c - 8 * i))) ∨
      (8 * i < c ∧ c ≤ 8 * i + 8 ∧ cleanLevel (page i) = none ∧
        interrupted (page i) = some (encode (c - 8 * i), c - 8 * i)) := by
  have hclean : page i = encode (c - 8 * i) →
      cleanLevel (page i) = some (min 8 (c - 8 * i)) := by
    intro hword
    rw [hword]
    by_cases hfull : 8 ≤ c - 8 * i
    · rw [encode_of_le hfull, Nat.min_eq_left hfull]
      rfl
    · rw [Nat.min_eq_right (by lia)]
      exact cleanLevel_encode (by lia)
  by_cases hout : c ≤ 8 * i ∨ 8 * i + 8 < c
  · have hword := h.1.word_eq hi hout
    exact Or.inl ⟨hword, hclean hword⟩
  · obtain ⟨hlow, hhigh⟩ := h.1 i hi
    have hpred : c - 1 - 8 * i = c - 8 * i - 1 := by lia
    rw [hpred] at hhigh
    have hdecode := decode_partial (by lia) (by lia) hlow hhigh
    by_cases hword : page i = encode (c - 8 * i)
    · exact Or.inl ⟨hword, hclean hword⟩
    · -- The word has lost a bit: otherwise the page would read as `c - 1`.
      have hlost : page i ≠ encode (c - 8 * i - 1) := by
        intro hold
        apply h.2 (by lia)
        intro j hj
        by_cases hij : j = i
        · rw [hij, hold, hpred]
        · have hother := h.1.word_eq hj (by lia)
          rw [hother]
          rcases Nat.lt_or_gt_of_ne hij with hlt | hgt
          · rw [encode_of_le (by lia), encode_of_le (by lia)]
          · congr 1
            lia
      unfold DecodesTo at hdecode
      rw [if_neg hlost, if_neg hword] at hdecode
      exact Or.inr ⟨by lia, by lia, hdecode.1, hdecode.2⟩

end Pages

end NvCounter
end CrosEc
