import CrosEc.UsbPd.Tcpc
import CrosEc.UsbPd.Transmit

/-!
# Damaged packets

`pd_analyze_rx` keeps its place among the samples in the variable that it returns, and every part
that it reads leaves -1 there when the samples do not go on as they should.  A packet is followed
through these parts here, up to its checksum and to the four bits behind it.
-/

namespace CrosEc
namespace UsbPd

open Lib

variable {cfg : RxConfig} {s : Samples} {off off' : Int} {d d' : Dequeue} {len : Nat}
  {val v : BitVec 32}

/-! ## Places -/

/-- No bit is left over. -/
def Dequeue.Fresh (d : Dequeue) : Prop := d.dLastlen = 0

theorem dequeueBit_lt {bit : Bool} (h : dequeueBit s off = some (some (bit, off'))) :
    off < off' := by
  unfold dequeueBit at h
  simp only [Option.pure_def, Option.bind_eq_bind] at h
  split at h
  · cases h
  obtain ⟨_, -, h⟩ := Option.bind_eq_some_iff.mp h
  obtain ⟨_, -, h⟩ := Option.bind_eq_some_iff.mp h
  split at h
  · cases h
  split at h
  · obtain ⟨_, -, h⟩ := Option.bind_eq_some_iff.mp h
    obtain ⟨_, -, h⟩ := Option.bind_eq_some_iff.mp h
    split at h
    · cases h
    · cases h
      omega
  · cases h
    omega

/-- The loop takes all the bits that are missing, or some of them. -/
theorem dequeueLoop_off {missing : Nat} (h : dequeueLoop s missing off d = some (some off', d')) :
    d'.dLastlen = d.dLastlen + missing ∧ off + missing ≤ off' ∨
      d'.dLastlen < d.dLastlen + missing := by
  induction missing generalizing off d with
  | zero =>
      cases h
      exact .inl ⟨(Int.add_zero _).symm, (Int.add_zero _).le⟩
  | succ missing ih =>
      rw [dequeueLoop] at h
      split at h
      · obtain ⟨bit, hbit, h⟩ := Option.bind_eq_some_iff.mp h
        rcases bit with _ | ⟨bit, off₁⟩
        · cases h
        · have hlt := dequeueBit_lt hbit
          have hlen : (d.enqueue bit).dLastlen = d.dLastlen + 1 := rfl
          rcases ih h with ⟨hall, hoff⟩ | hsome
          · exact .inl ⟨by push_cast; lia, by push_cast; lia⟩
          · exact .inr (by push_cast; lia)
      · cases h
        exact .inr (by push_cast; lia)

/-- **Spec of `pd_dequeue_bits`** on any samples: the bits are lost, or the place moves on by as
many at least. -/
theorem pdDequeueBits_off (hfresh : d.Fresh)
    (h : pdDequeueBits s off len val d = some (off', v, d')) :
    off' = -1 ∨ off + len ≤ off' ∧ off' < pdMaxRawSize ∧ d'.Fresh := by
  have hmissing : ((len : Int) - d.dLastlen).toNat = len := by
    rw [hfresh, Int.sub_zero, Int.toNat_natCast]
  rw [pdDequeueBits, hmissing] at h
  obtain ⟨⟨stop, d₁⟩, hloop, h⟩ := Option.bind_eq_some_iff.mp h
  rcases stop with _ | stop
  · cases h
    exact .inl rfl
  dsimp only at h
  split at h
  · rename_i hbound
    split at h
    · rename_i hshift
      cases h
      have hzero : d.dLastlen = 0 := hfresh
      rcases dequeueLoop_off hloop with ⟨hall, hoff⟩ | hsome
      · refine .inr ⟨hoff, hbound, ?_⟩
        show d₁.dLastlen - len = 0
        omega
      · omega
    · cases h
  · cases h
    exact .inl rfl

/-- A bit before the first sample is not read. -/
theorem dequeueBit_lost {bit : Option (Bool × Int)} (h : dequeueBit s (-1) = some bit) :
    bit = none := by
  unfold dequeueBit at h
  simp only [Option.pure_def, Option.bind_eq_bind] at h
  split at h
  · exact (Option.some.inj h).symm
  · have hget : s.get (-1) = none := if_neg (by decide)
    rw [hget] at h
    cases h

/-- Bits that follow lost ones are lost as well. -/
theorem pdDequeueBits_lost (h : pdDequeueBits s (-1) len val d = some (off', v, d')) :
    off' = -1 := by
  rw [pdDequeueBits] at h
  obtain ⟨⟨stop, d₁⟩, hloop, h⟩ := Option.bind_eq_some_iff.mp h
  have hstop : stop = none ∨ stop = some (-1) := by
    cases hmissing : ((len : Int) - d.dLastlen).toNat with
    | zero =>
        rw [hmissing] at hloop
        cases hloop
        exact .inr rfl
    | succ missing =>
        rw [hmissing, dequeueLoop, if_pos (by decide)] at hloop
        obtain ⟨bit, hbit, hloop⟩ := Option.bind_eq_some_iff.mp hloop
        rw [dequeueBit_lost hbit] at hloop
        cases hloop
        exact .inl rfl
  rcases hstop with rfl | rfl
  · cases h
    rfl
  · dsimp only at h
    rw [if_pos (by decide)] at h
    split at h
    · cases h
      rfl
    · cases h

theorem decodeShort_off {val16 : BitVec 16} (hfresh : d.Fresh)
    (h : decodeShort cfg s off d = some (off', val16, d')) :
    off' = -1 ∨ off + 20 ≤ off' ∧ off' < pdMaxRawSize ∧ d'.Fresh := by
  obtain ⟨⟨stop, w, d₁⟩, hdequeue, h⟩ := Option.bind_eq_some_iff.mp h
  cases h
  exact pdDequeueBits_off hfresh hdequeue

/-- A word is read, or it is lost. -/
theorem decodeWord_off (hfresh : d.Fresh) (h : decodeWord cfg s off d = some (off', v, d')) :
    off' = -1 ∨ off + 40 ≤ off' ∧ off' < pdMaxRawSize ∧ d'.Fresh := by
  obtain ⟨⟨mid, low, d₁⟩, hlow, h⟩ := Option.bind_eq_some_iff.mp h
  obtain ⟨⟨stop, high, d₂⟩, hhigh, h⟩ := Option.bind_eq_some_iff.mp h
  cases h
  rcases decodeShort_off hfresh hlow with rfl | ⟨hmid, -, hfresh₁⟩
  · obtain ⟨⟨stop, w, d₃⟩, hdequeue, hhigh⟩ := Option.bind_eq_some_iff.mp hhigh
    cases hhigh
    exact .inl (pdDequeueBits_lost hdequeue)
  · refine (decodeShort_off hfresh₁ hhigh).imp_right fun h => ⟨?_, h.2⟩
    have hstep := h.1
    omega

/-! ## The preamble -/

theorem Samples.exists_get (s : Samples) {i : Int} (hi : 0 ≤ i) (hlt : i < pdMaxRawSize) :
    ∃ x, s.get i = some x := by
  have hlen : i.toNat < s.raw.val.length := by
    rw [s.raw.property]
    omega
  exact ⟨_, (if_pos hi).trans (List.getElem?_eq_getElem hlen)⟩

/-- One sample after the other, as long as there are samples. -/
theorem findPreambleFrom_succ (s : Samples) (rounds bit : Nat) (all : BitVec 32) (hbit : 1 ≤ bit)
    (hlt : bit < pdMaxRawSize) :
    findPreambleFrom s (rounds + 1) bit all = some (-1) ∨
      ∃ cnt : UInt8, ∃ all', all' = (all >>> 1) |||
          (if cnt ≤ periodThreshold then 0x80000000#32 else 0#32) ∧
        findPreambleFrom s (rounds + 1) bit all =
          if all' = 0x36db6db6#32 then some ((bit : Int) - 1)
          else if all' = 0xF33F3F3F#32 then some pdRxErrHardReset
          else if all' = 0x3c7fe0ff#32 then some pdRxErrCableReset
          else findPreambleFrom s rounds (bit + 1) all' := by
  rw [findPreambleFrom]
  split
  · exact .inl rfl
  · obtain ⟨next, hnext⟩ := s.exists_get (show (0 : Int) ≤ bit by omega) (by omega)
    obtain ⟨prev, hprev⟩ := s.exists_get (show (0 : Int) ≤ (bit : Int) - 1 by omega) (by omega)
    rw [hnext, hprev]
    exact .inr ⟨next - prev, _, rfl, rfl⟩

/-- The place of a preamble lies among those that are looked at. -/
theorem findPreambleFrom_spec (s : Samples) (rounds bit : Nat) (all : BitVec 32) (hbit : 1 ≤ bit)
    (hend : bit + rounds ≤ pdMaxRawSize) :
    ∃ r, findPreambleFrom s rounds bit all = some r ∧
      (r < 0 ∨ (bit : Int) - 1 ≤ r ∧ r < bit + rounds) := by
  induction rounds generalizing bit all with
  | zero => exact ⟨-1, rfl, .inl (by decide)⟩
  | succ rounds ih =>
      rcases findPreambleFrom_succ s rounds bit all hbit (by lia) with h | ⟨cnt, all', -, h⟩
      · exact ⟨-1, h, .inl (by decide)⟩
      · rw [h]
        split_ifs
        · exact ⟨_, rfl, .inr ⟨le_rfl, by push_cast; lia⟩⟩
        · exact ⟨pdRxErrHardReset, rfl, .inl (by decide)⟩
        · exact ⟨pdRxErrCableReset, rfl, .inl (by decide)⟩
        · obtain ⟨r, hr, hoff⟩ := ih (bit + 1) all' (by lia) (by lia)
          refine ⟨r, hr, hoff.imp_right fun h => ?_⟩
          push_cast at h ⊢
          lia

/-- **`pd_find_preamble`** finds no preamble at the first sample. -/
theorem pdFindPreamble_spec (s : Samples) :
    ∃ r, pdFindPreamble s = some r ∧ (r < 0 ∨ 0 < r ∧ r < pdMaxRawSize) := by
  have hsize : pdMaxRawSize = 858 := rfl
  rcases findPreambleFrom_succ s 855 1 0#32 le_rfl (by decide) with h | ⟨cnt, all, hall, h⟩
  · exact ⟨-1, h, .inl (by decide)⟩
  · -- the first change fills one bit of the pattern
    have hfirst : all = 0x80000000#32 ∨ all = 0#32 := by
      rw [hall]
      split_ifs
      · exact .inl (by decide)
      · exact .inr (by decide)
    have hnone : all ≠ 0x36db6db6#32 ∧ all ≠ 0xF33F3F3F#32 ∧ all ≠ 0x3c7fe0ff#32 := by
      rcases hfirst with rfl | rfl <;> decide
    rw [if_neg hnone.1, if_neg hnone.2.1, if_neg hnone.2.2] at h
    obtain ⟨r, hr, hoff⟩ := findPreambleFrom_spec s 855 2 all (by decide) (by decide)
    refine ⟨r, h.trans hr, hoff.imp_right fun hoff => ?_⟩
    push_cast at hoff
    omega

/-! ## The parts of a packet

A packet is read up to a place when every part before it was found there: the relations below
follow `pd_analyze_rx` along its straight path, and leave out the rounds that go wrong.
-/

/-- The value starts a packet. -/
def IsCode (val : BitVec 32) : Prop := val = pdSop ∨ val = pdSopPrime ∨ val = pdSopPrimePrime

/-- It starts one that the receiver takes. -/
def IsSop (cfg : RxConfig) (val : BitVec 32) : Prop :=
  val = pdSop ∨ cfg.decodeSop = true ∧ IsCode val

/-- Behind the preamble the start of packet has not come up to this place. -/
inductive Searching (s : Samples) : Int → BitVec 32 → Dequeue → Prop
  | preamble {bit : Int} (hfind : pdFindPreamble s = some bit) (hpos : 0 < bit) :
      Searching s bit 0#32 pdInitDequeue
  | next {off off' : Int} {val val' : BitVec 32} {d d' : Dequeue} (h : Searching s off val d)
      (hdequeue : pdDequeueBits s off 20 val d = some (off', val', d')) (hpos : 0 < off')
      (hval : ¬ IsCode val') : Searching s off' val' d'

/-- The start of packet `val` ends at this place. -/
inductive SopAt (cfg : RxConfig) (s : Samples) : Int → BitVec 32 → Dequeue → Prop
  | found {off off' : Int} {val val' : BitVec 32} {d d' : Dequeue} (h : Searching s off val d)
      (hdequeue : pdDequeueBits s off 20 val d = some (off', val', d')) (hpos : 0 < off')
      (hsop : IsSop cfg val') : SopAt cfg s off' val' d'

/-- The header and some of its words end at this place. -/
inductive WordsAt (cfg : RxConfig) (s : Samples) :
    BitVec 32 → BitVec 16 → List (BitVec 32) → Int → Dequeue → Prop
  | header {off off' : Int} {val : BitVec 32} {header : BitVec 16} {d d' : Dequeue}
      (h : SopAt cfg s off val d) (hdecode : decodeShort cfg s off d = some (off', header, d'))
      (hpos : 0 < off') : WordsAt cfg s val header [] off' d'
  | word {off off' : Int} {val word : BitVec 32} {header : BitVec 16} {words : List (BitVec 32)}
      {d d' : Dequeue} (h : WordsAt cfg s val header words off d)
      (hmore : words.length < pdHeaderCnt header)
      (hdecode : decodeWord cfg s off d = some (off', word, d')) (hpos : 0 < off') :
      WordsAt cfg s val header (words ++ [word]) off' d'

/-- The header, all of its words and a checksum equal to theirs end at this place. -/
inductive CrcAt {κ : Type} (cfg : RxConfig) (crc : Crc κ) (s : Samples) :
    BitVec 32 → BitVec 16 → Int → Dequeue → Prop
  | equal {off off' : Int} {val : BitVec 32} {header : BitVec 16} {words : List (BitVec 32)}
      {d d' : Dequeue} (h : WordsAt cfg s val header words off d)
      (hall : words.length = pdHeaderCnt header)
      (hdecode : decodeWord cfg s off d = some (off', messageCrc crc header words, d'))
      (hpos : 0 < off') : CrcAt cfg crc s val header off' d'

/-- The four bits `eop` behind the checksum end at this place. -/
inductive EopAt {κ : Type} (cfg : RxConfig) (crc : Crc κ) (s : Samples) :
    BitVec 32 → BitVec 16 → Int → BitVec 32 → Prop
  | read {off off' : Int} {val eop : BitVec 32} {header : BitVec 16} {d d' : Dequeue}
      (h : CrcAt cfg crc s val header off d)
      (hdequeue : pdDequeueBits s off 4 cfg.junk d = some (off', eop, d')) (hpos : 0 < off') :
      EopAt cfg crc s val header off' eop

section Stages

variable {κ : Type} (cfg : RxConfig) (crc : Crc κ) (s : Samples)

/-- A whole message was read, with its checksum and its end of packet. -/
def Received (header : BitVec 16) : Prop :=
  ∃ val off, EopAt cfg crc s val header off (pdEop.setWidth 32)

/-- A message with the right checksum ends with other bits than the end of packet. -/
def WrongEop : Prop :=
  ∃ val header off eop, EopAt cfg crc s val header off eop ∧ eop ≠ pdEop.setWidth 32

/-- A part is read outside of the samples: before the first one, behind a word whose first half is
lost, or with bits still missing at the last one. -/
inductive Astray : Prop
  | sop {off : Int} {val : BitVec 32} {d : Dequeue} (h : Searching s off val d)
      (hout : pdDequeueBits s off 20 val d = none)
  | header {off : Int} {val : BitVec 32} {d : Dequeue} (h : SopAt cfg s off val d)
      (hout : decodeShort cfg s off d = none)
  | word {off : Int} {val : BitVec 32} {header : BitVec 16} {words : List (BitVec 32)}
      {d : Dequeue} (h : WordsAt cfg s val header words off d)
      (hout : decodeWord cfg s off d = none)
  | eop {off : Int} {val : BitVec 32} {header : BitVec 16} {d : Dequeue}
      (h : CrcAt cfg crc s val header off d) (hout : pdDequeueBits s off 4 cfg.junk d = none)

end Stages

/-! ## Nothing is left over between the parts -/

theorem Searching.spec (h : Searching s off val d) :
    0 < off ∧ off < pdMaxRawSize ∧ d.Fresh := by
  induction h with
  | preamble hfind hpos =>
      obtain ⟨r, hr, hneg | hoff⟩ := pdFindPreamble_spec s
      · cases hfind.symm.trans hr
        omega
      · cases hfind.symm.trans hr
        exact ⟨hoff.1, hoff.2, rfl⟩
  | next h hdequeue hpos hval ih =>
      rcases pdDequeueBits_off ih.2.2 hdequeue with rfl | hoff
      · omega
      · exact ⟨hpos, hoff.2⟩

theorem SopAt.pos (h : SopAt cfg s off val d) : 0 < off := by
  cases h
  assumption

theorem SopAt.isSop (h : SopAt cfg s off val d) : IsSop cfg val := by
  cases h
  assumption

theorem SopAt.fresh (h : SopAt cfg s off val d) : d.Fresh := by
  obtain ⟨hsearch, hdequeue, hpos, -⟩ := h
  rcases pdDequeueBits_off hsearch.spec.2.2 hdequeue with rfl | hoff
  · omega
  · exact hoff.2.2

section Words

variable {κ : Type} {crc : Crc κ} {header header' : BitVec 16} {words words' : List (BitVec 32)}
  {val' eop eop' : BitVec 32}

theorem WordsAt.fresh (h : WordsAt cfg s val header words off d) : d.Fresh := by
  induction h with
  | header h hdecode hpos =>
      rcases decodeShort_off h.fresh hdecode with rfl | hoff
      · omega
      · exact hoff.2.2
  | word h hmore hdecode hpos ih =>
      rcases decodeWord_off ih hdecode with rfl | hoff
      · omega
      · exact hoff.2.2

theorem CrcAt.fresh (h : CrcAt cfg crc s val header off d) : d.Fresh := by
  obtain ⟨hwords, -, hdecode, hpos⟩ := h
  rcases decodeWord_off hwords.fresh hdecode with rfl | hoff
  · omega
  · exact hoff.2.2

/-! ## The search -/

theorem findSop_next {rounds : Nat} (hpos : 0 < off)
    (hdequeue : pdDequeueBits s off 20 val d = some (off', v, d')) (hval : ¬ IsCode v) :
    findSop cfg s (rounds + 1) off val d = findSop cfg s rounds off' v d' := by
  rw [findSop, if_pos hpos, hdequeue]
  simp only [Option.bind_eq_bind, Option.bind_some]
  rw [if_neg fun h => hval (.inl h), if_neg fun h => hval (.inr h)]

theorem findSop_found {rounds : Nat} (hpos : 0 < off)
    (hdequeue : pdDequeueBits s off 20 val d = some (off', v, d')) (hsop : IsSop cfg v) :
    findSop cfg s (rounds + 1) off val d = some (.stop off' v d') := by
  rw [findSop, if_pos hpos, hdequeue]
  simp only [Option.bind_eq_bind, Option.bind_some]
  rcases hsop with hsop | ⟨hdecode, hcode⟩
  · rw [if_pos hsop]
    rfl
  · rcases hcode with hcode | hcode
    · rw [if_pos hcode]
      rfl
    · rw [if_pos hcode, if_pos hdecode, ite_self]
      rfl

theorem findSop_unsupported {rounds : Nat} (hpos : 0 < off)
    (hdequeue : pdDequeueBits s off 20 val d = some (off', v, d')) (hcode : IsCode v)
    (hsop : ¬ IsSop cfg v) : findSop cfg s (rounds + 1) off val d = some .unsupported := by
  have hplain : v ≠ pdSop := fun h => hsop (.inl h)
  have hdecode : ¬ cfg.decodeSop = true := fun h => hsop (.inr ⟨h, hcode⟩)
  rw [findSop, if_pos hpos, hdequeue]
  simp only [Option.bind_eq_bind, Option.bind_some]
  rw [if_neg hplain, if_pos (hcode.resolve_left hplain), if_neg hdecode]
  rfl

/-- The rounds of the search suffice, since every one of them takes 20 samples at least. -/
theorem Searching.findSop_eq (cfg : RxConfig) (h : Searching s off val d) :
    ∃ bit, pdFindPreamble s = some bit ∧ 0 < bit ∧
      ∃ rounds : Nat, 20 * pdMaxRawSize ≤ off + 20 * (rounds + 1) ∧
        findSop cfg s pdMaxRawSize bit 0#32 pdInitDequeue =
          findSop cfg s (rounds + 1) off val d := by
  have hsize : pdMaxRawSize = 858 := rfl
  induction h with
  | @preamble bit hfind hpos => exact ⟨bit, hfind, hpos, 857, by lia, rfl⟩
  | @next off off' val val' d d' h hdequeue hpos hval ih =>
      obtain ⟨bit, hfind, hbit, rounds, hrounds, heq⟩ := ih
      obtain ⟨hoff, hlt, hfresh⟩ := h.spec
      have hstep : off + 20 ≤ off' ∧ off' < pdMaxRawSize := by
        rcases pdDequeueBits_off hfresh hdequeue with rfl | hstep
        · lia
        · exact ⟨hstep.1, hstep.2.1⟩
      cases rounds with
      | zero => lia
      | succ rounds =>
          rw [findSop_next hoff hdequeue hval] at heq
          refine ⟨bit, hfind, hbit, rounds, ?_, heq⟩
          push_cast at hrounds
          lia

theorem SopAt.findSop_eq (h : SopAt cfg s off val d) :
    ∃ bit, pdFindPreamble s = some bit ∧ 0 < bit ∧
      findSop cfg s pdMaxRawSize bit 0#32 pdInitDequeue = some (.stop off val d) := by
  obtain ⟨hsearch, hdequeue, -, hsop⟩ := h
  obtain ⟨bit, hfind, hbit, rounds, -, heq⟩ := hsearch.findSop_eq cfg
  exact ⟨bit, hfind, hbit, heq.trans (findSop_found hsearch.spec.1 hdequeue hsop)⟩

/-- How a search goes on from a place that it has come to. -/
theorem Searching.findSop_cases (cfg : RxConfig) (h : Searching s off val d) {rounds : Nat}
    (hrounds : 20 * pdMaxRawSize ≤ off + 20 * rounds) :
    (∃ off₁ val₁ d₁, Searching s off₁ val₁ d₁ ∧ pdDequeueBits s off₁ 20 val₁ d₁ = none) ∨
      findSop cfg s rounds off val d = some .unsupported ∨
      ∃ off₁ val₁ d₁, findSop cfg s rounds off val d = some (.stop off₁ val₁ d₁) ∧
        (off₁ < 0 ∨ SopAt cfg s off₁ val₁ d₁) := by
  have hsize : pdMaxRawSize = 858 := rfl
  induction rounds generalizing off val d with
  | zero =>
      have hlt := h.spec.2.1
      lia
  | succ rounds ih =>
      obtain ⟨hoff, hlt, hfresh⟩ := h.spec
      cases hdequeue : pdDequeueBits s off 20 val d with
      | none => exact .inl ⟨off, val, d, h, hdequeue⟩
      | some read =>
          obtain ⟨off', v, d'⟩ := read
          have hstep := pdDequeueBits_off hfresh hdequeue
          by_cases hsop : IsSop cfg v
          · refine .inr (.inr ⟨off', v, d', findSop_found hoff hdequeue hsop, ?_⟩)
            rcases hstep with rfl | hstep
            · exact .inl (by decide)
            · exact .inr (.found h hdequeue (by lia) hsop)
          by_cases hcode : IsCode v
          · exact .inr (.inl (findSop_unsupported hoff hdequeue hcode hsop))
          rw [findSop_next hoff hdequeue hcode]
          rcases hstep with rfl | hstep
          · -- the bits are lost, and the next round finds the place negative
            cases rounds with
            | zero => lia
            | succ rounds =>
                exact .inr (.inr ⟨-1, v, d', if_neg (by decide), .inl (by decide)⟩)
          · refine ih (.next h hdequeue (by lia) hcode) ?_
            have hmore := hstep.1
            push_cast at hrounds hmore
            lia

/-! ## One packet has one reading -/

theorem SopAt.unique (h : SopAt cfg s off val d) (h' : SopAt cfg s off' val' d') :
    off = off' ∧ val = val' ∧ d = d' := by
  obtain ⟨bit, hfind, -, hsop⟩ := h.findSop_eq
  obtain ⟨bit', hfind', -, hsop'⟩ := h'.findSop_eq
  cases hfind.symm.trans hfind'
  cases hsop.symm.trans hsop'
  exact ⟨rfl, rfl, rfl⟩

theorem WordsAt.unique (h : WordsAt cfg s val header words off d)
    (h' : WordsAt cfg s val' header' words' off' d') (hlen : words.length = words'.length) :
    header = header' ∧ words = words' ∧ off = off' ∧ d = d' := by
  induction h generalizing words' off' d' with
  | header h hdecode hpos =>
      cases h' with
      | header h' hdecode' hpos' =>
          obtain ⟨rfl, rfl, rfl⟩ := h.unique h'
          cases hdecode.symm.trans hdecode'
          exact ⟨rfl, rfl, rfl, rfl⟩
      | word => simp at hlen
  | word h hmore hdecode hpos ih =>
      cases h' with
      | header => simp at hlen
      | word h' hmore' hdecode' hpos' =>
          obtain ⟨rfl, rfl, rfl, rfl⟩ := ih h' (by simpa using hlen)
          cases hdecode.symm.trans hdecode'
          exact ⟨rfl, rfl, rfl, rfl⟩

/-- Without its words, the header ends at one place. -/
theorem WordsAt.start (h : WordsAt cfg s val header words off d) :
    ∃ off₁ d₁, WordsAt cfg s val header [] off₁ d₁ := by
  induction h with
  | header h hdecode hpos => exact ⟨_, _, .header h hdecode hpos⟩
  | word _ _ _ _ ih => exact ih

theorem CrcAt.unique (h : CrcAt cfg crc s val header off d)
    (h' : CrcAt cfg crc s val' header' off' d') : off = off' ∧ d = d' := by
  obtain ⟨hwords, hall, hdecode, -⟩ := h
  obtain ⟨hwords', hall', hdecode', -⟩ := h'
  obtain ⟨_, _, hstart⟩ := hwords.start
  obtain ⟨_, _, hstart'⟩ := hwords'.start
  obtain ⟨rfl, -, -, -⟩ := hstart.unique hstart' rfl
  obtain ⟨-, rfl, rfl, rfl⟩ := hwords.unique hwords' (hall.trans hall'.symm)
  cases hdecode.symm.trans hdecode'
  exact ⟨rfl, rfl⟩

theorem EopAt.unique (h : EopAt cfg crc s val header off eop)
    (h' : EopAt cfg crc s val' header' off' eop') : off = off' ∧ eop = eop' := by
  obtain ⟨hcrc, hdequeue, -⟩ := h
  obtain ⟨hcrc', hdequeue', -⟩ := h'
  obtain ⟨rfl, rfl⟩ := hcrc.unique hcrc'
  cases hdequeue.symm.trans hdequeue'
  exact ⟨rfl, rfl⟩

end Words

/-! ## What becomes of a packet -/

section Analyze

variable {κ : Type} (cfg : RxConfig) (crc : Crc κ) (s : Samples) (address : BitVec 32)
  (header : BitVec 16)

/-- `analyzePacket` from the end of packet on -/
def analyzeEop (bit : Int) (d : Dequeue) (payload : List (BitVec 32)) :
    Option (Int × List (BitVec 32)) := do
  let (bit, eop, _) ← pdDequeueBits s bit 4 cfg.junk d
  if bit < 0 ∨ eop ≠ pdEop.setWidth 32 then
    return (bit, payload)
  return ((address ||| header.setWidth 32).toInt, payload)

/-- `analyzePacket` from the checksum on -/
def analyzeCrc (read : Int × κ × List (BitVec 32) × Dequeue) :
    Option (Int × List (BitVec 32)) := do
  let (bit, k, payload, d) := read
  let ccrc := crc.result k
  if bit < 0 then
    return (bit, payload)
  let (bit, pcrc, d) ← decodeWord cfg s bit d
  if bit < 0 ∨ pcrc ≠ ccrc then
    return (if pcrc ≠ ccrc then pdRxErrCrc else bit, payload)
  analyzeEop cfg s address header bit d payload

variable {cfg crc s address header} {payload : List (BitVec 32)} {words : List (BitVec 32)}
  {read : Int × κ × List (BitVec 32) × Dequeue} {k : κ}

theorem exists_encodeAddress (hsop : IsSop cfg val) :
    ∃ address, encodeAddress cfg val = some address ∧ address.setWidth 16 = 0#16 := by
  rw [encodeAddress]
  split_ifs with hdecode h₀ h₁ h₂
  · exact ⟨_, rfl, by decide⟩
  · exact ⟨_, rfl, by decide⟩
  · exact ⟨_, rfl, by decide⟩
  · rcases hsop with hsop | ⟨-, hsop | hsop | hsop⟩ <;> contradiction
  · exact ⟨_, rfl, by decide⟩

/-- The low bits of the result are the header. -/
theorem ofInt_toInt_header (haddress : address.setWidth 16 = 0#16) (header : BitVec 16) :
    BitVec.ofInt 16 (address ||| header.setWidth 32).toInt = header := by
  have hlow : BitVec.ofInt 16 (address ||| header.setWidth 32).toInt =
      (address ||| header.setWidth 32).setWidth 16 :=
    BitVec.signExtend_eq_setWidth_of_le _ (by decide)
  rw [hlow, BitVec.setWidth_or, haddress, BitVec.zero_or]
  exact BitVec.setWidth_setWidth_of_le header (by decide)

theorem analyzePacket_eq (haddress : encodeAddress cfg val = some address) :
    analyzePacket cfg crc s off val d payload =
      (decodeShort cfg s off d).bind fun (bit, header, d) =>
        (decodePayload cfg crc s (pdHeaderCnt header) 0 bit (crc.hash16 crc.init header) payload
          d).bind (analyzeCrc cfg crc s address header) := by
  rw [analyzePacket, haddress]
  rfl

theorem SopAt.pdAnalyzeRx_eq (h : SopAt cfg s off val d) (crc : Crc κ)
    (payload : List (BitVec 32)) :
    pdAnalyzeRx cfg crc s payload = analyzePacket cfg crc s off val d payload := by
  obtain ⟨bit, hfind, hbit, hsop⟩ := h.findSop_eq
  have hpos := h.pos
  rw [pdAnalyzeRx, hfind]
  simp only [Option.bind_eq_bind, Option.bind_some]
  rw [if_neg (by omega), hsop]
  simp only [Option.bind_some]
  rw [if_neg (by omega)]

/-- A loop that has lost its place ends. -/
theorem decodePayload_of_not_pos (rounds p : Nat) (hbit : ¬ 0 < off) :
    decodePayload cfg crc s rounds p off k payload d = some (off, k, payload, d) := by
  cases rounds with
  | zero => rfl
  | succ rounds => exact if_neg hbit

theorem decodePayload_succ (rounds p : Nat) (hbit : 0 < off) :
    decodePayload cfg crc s (rounds + 1) p off k payload d =
      (decodeWord cfg s off d).bind fun (bit, word, d) =>
        decodePayload cfg crc s rounds (p + 1) bit (crc.hash32 k word) (payload.set p word) d :=
  if_pos hbit

theorem WordsAt.pos (h : WordsAt cfg s val header words off d) : 0 < off := by
  cases h <;> assumption

theorem WordsAt.exists_encodeAddress (h : WordsAt cfg s val header words off d) :
    ∃ address, encodeAddress cfg val = some address ∧ address.setWidth 16 = 0#16 := by
  induction h with
  | header h => exact UsbPd.exists_encodeAddress h.isSop
  | word _ _ _ _ ih => exact ih

/-- **Run lemma.** The loop comes to every place behind a word, with the checksum of the words so
far. -/
theorem WordsAt.pdAnalyzeRx_eq (h : WordsAt cfg s val header words off d) (crc : Crc κ)
    (payload : List (BitVec 32)) (haddress : encodeAddress cfg val = some address) :
    ∃ payload', pdAnalyzeRx cfg crc s payload =
      (decodePayload cfg crc s (pdHeaderCnt header - words.length) words.length off
        (words.foldl crc.hash32 (crc.hash16 crc.init header)) payload' d).bind
          (analyzeCrc cfg crc s address header) := by
  induction h with
  | header h hdecode hpos =>
      refine ⟨payload, ?_⟩
      rw [h.pdAnalyzeRx_eq, analyzePacket_eq haddress, hdecode]
      rfl
  | @word off off' val word header words d d' h hmore hdecode hpos ih =>
      obtain ⟨payload', ih⟩ := ih haddress
      have hrounds : pdHeaderCnt header - words.length =
          pdHeaderCnt header - (words ++ [word]).length + 1 := by
        rw [List.length_append, List.length_singleton]
        omega
      refine ⟨payload'.set words.length word, ih.trans ?_⟩
      rw [hrounds, decodePayload_succ _ _ h.pos, hdecode, List.length_append,
        List.foldl_append]
      rfl

theorem CrcAt.pdAnalyzeRx_eq (h : CrcAt cfg crc s val header off d)
    (payload : List (BitVec 32)) :
    ∃ address payload', encodeAddress cfg val = some address ∧ address.setWidth 16 = 0#16 ∧
      pdAnalyzeRx cfg crc s payload = analyzeEop cfg s address header off d payload' := by
  cases h with
  | @equal off₁ _ _ _ words d₁ _ hwords hall hdecode hpos =>
      obtain ⟨address, haddress, hlow⟩ := hwords.exists_encodeAddress
      obtain ⟨payload', heq⟩ := hwords.pdAnalyzeRx_eq crc payload haddress
      have hsame : crc.result (words.foldl crc.hash32 (crc.hash16 crc.init header)) =
          messageCrc crc header words := rfl
      have hbefore := hwords.pos
      refine ⟨address, payload', haddress, hlow, heq.trans ?_⟩
      rw [hall, Nat.sub_self, decodePayload]
      simp only [Option.bind_some, analyzeCrc, hsame]
      rw [if_neg (by omega), hdecode]
      simp only [Option.bind_eq_bind, Option.bind_some]
      rw [if_neg (not_or.mpr ⟨by omega, not_not.mpr rfl⟩)]

/-! ## Outside of the samples -/

/-- A packet that is read outside of the samples has no result. -/
theorem Astray.pdAnalyzeRx_eq (h : Astray cfg crc s) (payload : List (BitVec 32)) :
    pdAnalyzeRx cfg crc s payload = none := by
  cases h with
  | sop h hout =>
      obtain ⟨bit, hfind, hbit, rounds, -, heq⟩ := h.findSop_eq cfg
      rw [pdAnalyzeRx, hfind]
      simp only [Option.bind_eq_bind, Option.bind_some]
      rw [if_neg (by omega), heq, findSop, if_pos h.spec.1, hout]
      rfl
  | header h hout =>
      rw [h.pdAnalyzeRx_eq, analyzePacket, hout]
      rfl
  | word h hout =>
      obtain ⟨address, haddress, -⟩ := h.exists_encodeAddress
      obtain ⟨payload', heq⟩ := h.pdAnalyzeRx_eq crc payload haddress
      have hpos := h.pos
      rw [heq]
      cases hmore : pdHeaderCnt _ - List.length _ with
      | zero =>
          rw [decodePayload]
          simp only [Option.bind_some, analyzeCrc]
          rw [if_neg (by omega), hout]
          rfl
      | succ rounds =>
          rw [decodePayload_succ _ _ hpos, hout]
          rfl
  | eop h hout =>
      obtain ⟨address, payload', -, -, heq⟩ := h.pdAnalyzeRx_eq payload
      rw [heq, analyzeEop, hout]
      rfl

/-! ## Every result -/

/-- How a call ends that leaves `result`. -/
inductive Outcome (cfg : RxConfig) (crc : Crc κ) (s : Samples) :
    Option (Int × List (BitVec 32)) → Prop
  | astray {result : Option (Int × List (BitVec 32))} (h : Astray cfg crc s) :
      Outcome cfg crc s result
  | wrongEop {result : Option (Int × List (BitVec 32))} (h : WrongEop cfg crc s) :
      Outcome cfg crc s result
  | refused {r : Int} {payload : List (BitVec 32)} (hr : r ≤ 0) :
      Outcome cfg crc s (some (r, payload))
  | received {r : Int} {payload : List (BitVec 32)} {header : BitVec 16}
      (h : Received cfg crc s header) (hlow : BitVec.ofInt 16 r = header) :
      Outcome cfg crc s (some (r, payload))

theorem CrcAt.pos (h : CrcAt cfg crc s val header off d) : 0 < off := by
  cases h
  assumption

theorem CrcAt.outcome (h : CrcAt cfg crc s val header off d)
    (hlow : address.setWidth 16 = 0#16) :
    Outcome cfg crc s (analyzeEop cfg s address header off d payload) := by
  rw [analyzeEop]
  cases hdequeue : pdDequeueBits s off 4 cfg.junk d with
  | none => exact .astray (.eop h hdequeue)
  | some read =>
      obtain ⟨off', eop, d'⟩ := read
      simp only [Option.bind_eq_bind, Option.bind_some]
      rcases pdDequeueBits_off h.fresh hdequeue with rfl | hstep
      · rw [if_pos (.inl (by decide))]
        exact .refused (by decide)
      have hbefore := h.pos
      have hread : EopAt cfg crc s val header off' eop := .read h hdequeue (by omega)
      by_cases heop : eop = pdEop.setWidth 32
      · rw [if_neg (not_or.mpr ⟨by omega, not_not.mpr heop⟩)]
        exact .received ⟨val, off', heop ▸ hread⟩ (ofInt_toInt_header hlow header)
      · exact .wrongEop ⟨val, header, off', eop, hread, heop⟩

/-- The checksum behind the last word. -/
theorem WordsAt.outcome_crc (h : WordsAt cfg s val header words off d)
    (hall : words.length = pdHeaderCnt header) (hlow : address.setWidth 16 = 0#16)
    (hk : k = words.foldl crc.hash32 (crc.hash16 crc.init header)) :
    Outcome cfg crc s (analyzeCrc cfg crc s address header (off, k, payload, d)) := by
  have hpos := h.pos
  have hsame : crc.result k = messageCrc crc header words := by
    rw [hk]
    rfl
  rw [analyzeCrc]
  dsimp only
  rw [if_neg (by omega), hsame]
  cases hdecode : decodeWord cfg s off d with
  | none => exact .astray (.word h hdecode)
  | some read =>
      obtain ⟨off', pcrc, d'⟩ := read
      simp only [Option.bind_eq_bind, Option.bind_some]
      by_cases hcrc : pcrc = messageCrc crc header words
      · rcases decodeWord_off h.fresh hdecode with rfl | hstep
        · rw [if_pos (.inl (by decide)), if_neg (not_not.mpr hcrc)]
          exact .refused (by decide)
        · rw [if_neg (not_or.mpr ⟨by omega, not_not.mpr hcrc⟩)]
          exact CrcAt.outcome (.equal h hall (hcrc ▸ hdecode) (by omega)) hlow
      · rw [if_pos (.inr hcrc), if_pos hcrc]
        exact .refused (by decide)

/-- **Run lemma.** The words that are missing, and what is behind them. -/
theorem WordsAt.outcome {rounds p : Nat} (h : WordsAt cfg s val header words off d)
    (hrounds : words.length + rounds = pdHeaderCnt header) (hlow : address.setWidth 16 = 0#16)
    (hk : k = words.foldl crc.hash32 (crc.hash16 crc.init header)) :
    Outcome cfg crc s ((decodePayload cfg crc s rounds p off k payload d).bind
      (analyzeCrc cfg crc s address header)) := by
  induction rounds generalizing words p off k payload d with
  | zero => exact h.outcome_crc hrounds hlow hk
  | succ rounds ih =>
      rw [decodePayload_succ _ _ h.pos]
      cases hdecode : decodeWord cfg s off d with
      | none => exact .astray (.word h hdecode)
      | some read =>
          obtain ⟨off', word, d'⟩ := read
          simp only [Option.bind_some]
          have hbefore := h.pos
          rcases decodeWord_off h.fresh hdecode with rfl | hstep
          · rw [decodePayload_of_not_pos _ _ (by decide)]
            exact .refused (by decide)
          · refine ih (.word h (by omega) hdecode (by omega)) ?_ ?_
            · rw [List.length_append, List.length_singleton]
              omega
            · rw [List.foldl_append, hk]
              rfl

theorem SopAt.outcome (h : SopAt cfg s off val d) :
    Outcome cfg crc s (analyzePacket cfg crc s off val d payload) := by
  have hpos := h.pos
  obtain ⟨address, haddress, hlow⟩ := exists_encodeAddress h.isSop
  rw [analyzePacket_eq haddress]
  cases hdecode : decodeShort cfg s off d with
  | none => exact .astray (.header h hdecode)
  | some read =>
      obtain ⟨off', header, d'⟩ := read
      simp only [Option.bind_some]
      rcases decodeShort_off h.fresh hdecode with rfl | hstep
      · rw [decodePayload_of_not_pos _ _ (by decide)]
        exact .refused (by decide)
      · exact WordsAt.outcome (.header h hdecode (by omega)) (Nat.zero_add _) hlow rfl

/-- **Every result of `pd_analyze_rx`.** -/
theorem outcome (cfg : RxConfig) (crc : Crc κ) (s : Samples) (payload : List (BitVec 32)) :
    Outcome cfg crc s (pdAnalyzeRx cfg crc s payload) := by
  obtain ⟨bit, hfind, hbit⟩ := pdFindPreamble_spec s
  rw [pdAnalyzeRx, hfind]
  simp only [Option.bind_eq_bind, Option.bind_some]
  rcases hbit with hbit | ⟨hbit, -⟩
  · rw [if_pos hbit]
    exact .refused hbit.le
  rw [if_neg (by omega)]
  have hstart : Searching s bit 0#32 pdInitDequeue := .preamble hfind hbit
  have hrounds : 20 * (pdMaxRawSize : Int) ≤ bit + 20 * (pdMaxRawSize : Nat) := by omega
  rcases hstart.findSop_cases cfg hrounds with
    ⟨off, val, d, h, hout⟩ | hunsupported | ⟨off, val, d, hstop, hoff⟩
  · exact .astray (.sop h hout)
  · rw [hunsupported]
    exact .refused (by decide)
  · rw [hstop]
    simp only [Option.bind_some]
    rcases hoff with hoff | h
    · rw [if_pos hoff]
      exact .refused hoff.le
    · have hpos := h.pos
      rw [if_neg (by omega)]
      exact h.outcome

end Analyze

/-! ## What is expected of `pd_analyze_rx` -/

section Truthful

variable {κ : Type} (cfg : RxConfig) (crc : Crc κ) (s : Samples) (payload : Arr (BitVec 32) 7)

/-- No message is kept, no place of the ring is used up, and no GoodCRC is sent. -/
structure NothingTaken {size : Nat} (st st' : Tcpc.State size) : Prop where
  kept : st'.kept = st.kept
  acknowledged : st'.acknowledged = st.acknowledged
  head : st'.rxBufHead = st.rxBufHead

/-- `tcpc_run` takes nothing from a packet with this result. -/
def Dropped (r : Int) : Prop :=
  ∀ (size : Nat) (st : Tcpc.State size) (run : Tcpc.State.Run) (msg : Tcpc.Message)
    (collision : Bool), msg.head = r → run.received = some (msg, collision) →
      NothingTaken st (st.tcpcRun run)

/-- A positive result stands for a message that was read to its end, and its low bits are the
header; every other packet is dropped. -/
def Truthful : Prop :=
  ∃ r payload', pdAnalyzeRx cfg crc s payload.val = some (r, payload') ∧
    (0 < r → ∃ header, Received cfg crc s header ∧ BitVec.ofInt 16 r = header) ∧
    (r ≤ 0 → Dropped r)

variable {cfg crc s payload}

section Taken

variable {size : Nat} {st st' : Tcpc.State size}

theorem NothingTaken.raise (h : NothingTaken st st') (mask : BitVec 16) :
    NothingTaken st (st'.raise mask) :=
  ⟨h.kept, h.acknowledged, h.head⟩

theorem NothingTaken.transmitted (h : NothingTaken st st') (res : Int) :
    NothingTaken st (st'.transmitted res) := by
  rw [Tcpc.State.transmitted]
  split_ifs
  · exact h.raise _
  · exact h.raise _
  · exact h.raise _

theorem nothingTaken_receive (st : Tcpc.State size) {msg : Tcpc.Message} (hhead : msg.head ≤ 0)
    (collision : Bool) : NothingTaken st (st.receive msg collision) := by
  rw [Tcpc.State.receive]
  dsimp only
  rw [if_neg (by omega)]
  split_ifs
  · exact ⟨rfl, rfl, rfl⟩
  · exact ⟨rfl, rfl, rfl⟩

end Taken

theorem dropped_of_nonpos {r : Int} (hr : r ≤ 0) : Dropped r := by
  rintro size st ⟨received, sent, cc₁, cc₂⟩ msg collision rfl hrun
  cases hrun
  have hin : NothingTaken st (if st.rxEnabled then st.receive msg collision else st) := by
    split_ifs
    · exact nothingTaken_receive st hr collision
    · exact ⟨rfl, rfl, rfl⟩
  rw [Tcpc.State.tcpcRun_some]
  generalize (if st.rxEnabled then st.receive msg collision else st) = st' at hin ⊢
  unfold Tcpc.State.tcpcRun
  dsimp only
  split
  · exact hin.transmitted _
  · cases cc₁ <;> cases cc₂
    · exact hin
    · exact hin.raise _
    · exact hin.raise _
    · exact (hin.raise _).raise _

/-- **The wrong end of a packet.** The place behind it is returned in place of an error. -/
theorem WrongEop.not_truthful (h : WrongEop cfg crc s) : ¬ Truthful cfg crc s payload := by
  rintro ⟨r, payload', hresult, hpos, -⟩
  obtain ⟨val, header, off, eop, hread, heop⟩ := h
  cases hread with
  | read hcrc hdequeue hoff =>
      obtain ⟨address, payload₁, -, -, heq⟩ := hcrc.pdAnalyzeRx_eq payload.val
      rw [heq, analyzeEop, hdequeue] at hresult
      simp only [Option.bind_eq_bind, Option.bind_some] at hresult
      rw [if_pos (.inr heop)] at hresult
      cases hresult
      obtain ⟨header', ⟨val', off', hread'⟩, -⟩ := hpos hoff
      exact heop ((EopAt.read hcrc hdequeue hoff).unique hread').2

theorem Outcome.truthful (h : Outcome cfg crc s (pdAnalyzeRx cfg crc s payload.val))
    (hastray : ¬ Astray cfg crc s) (heop : ¬ WrongEop cfg crc s) :
    Truthful cfg crc s payload := by
  generalize hresult : pdAnalyzeRx cfg crc s payload.val = result at h
  cases h with
  | astray h => exact absurd h hastray
  | wrongEop h => exact absurd h heop
  | refused hr =>
      exact ⟨_, _, hresult, fun hpos => absurd hr (by omega), fun _ => dropped_of_nonpos hr⟩
  | received h hlow => exact ⟨_, _, hresult, fun _ => ⟨_, h, hlow⟩, dropped_of_nonpos⟩

/-- **Damaged packets.** What `pd_analyze_rx` returns is to be trusted on exactly those samples that
it does not leave, and on which a message with the right checksum does not end with other bits than
the end of packet. -/
theorem pdAnalyzeRx_truthful_iff :
    Truthful cfg crc s payload ↔ ¬ Astray cfg crc s ∧ ¬ WrongEop cfg crc s := by
  constructor
  · intro h
    refine ⟨fun hastray => ?_, fun heop => heop.not_truthful h⟩
    obtain ⟨r, payload', hresult, -⟩ := h
    rw [hastray.pdAnalyzeRx_eq] at hresult
    cases hresult
  · rintro ⟨hastray, heop⟩
    exact (outcome cfg crc s payload.val).truthful hastray heop

end Truthful

/-! ## A packet with another symbol at its end -/

/-- `crc32_tab` -/
def crc32Tab : List (BitVec 32) :=
  [0x00000000#32, 0x77073096#32, 0xee0e612c#32, 0x990951ba#32, 0x076dc419#32, 0x706af48f#32,
    0xe963a535#32, 0x9e6495a3#32, 0x0edb8832#32, 0x79dcb8a4#32, 0xe0d5e91e#32, 0x97d2d988#32,
    0x09b64c2b#32, 0x7eb17cbd#32, 0xe7b82d07#32, 0x90bf1d91#32, 0x1db71064#32, 0x6ab020f2#32,
    0xf3b97148#32, 0x84be41de#32, 0x1adad47d#32, 0x6ddde4eb#32, 0xf4d4b551#32, 0x83d385c7#32,
    0x136c9856#32, 0x646ba8c0#32, 0xfd62f97a#32, 0x8a65c9ec#32, 0x14015c4f#32, 0x63066cd9#32,
    0xfa0f3d63#32, 0x8d080df5#32, 0x3b6e20c8#32, 0x4c69105e#32, 0xd56041e4#32, 0xa2677172#32,
    0x3c03e4d1#32, 0x4b04d447#32, 0xd20d85fd#32, 0xa50ab56b#32, 0x35b5a8fa#32, 0x42b2986c#32,
    0xdbbbc9d6#32, 0xacbcf940#32, 0x32d86ce3#32, 0x45df5c75#32, 0xdcd60dcf#32, 0xabd13d59#32,
    0x26d930ac#32, 0x51de003a#32, 0xc8d75180#32, 0xbfd06116#32, 0x21b4f4b5#32, 0x56b3c423#32,
    0xcfba9599#32, 0xb8bda50f#32, 0x2802b89e#32, 0x5f058808#32, 0xc60cd9b2#32, 0xb10be924#32,
    0x2f6f7c87#32, 0x58684c11#32, 0xc1611dab#32, 0xb6662d3d#32, 0x76dc4190#32, 0x01db7106#32,
    0x98d220bc#32, 0xefd5102a#32, 0x71b18589#32, 0x06b6b51f#32, 0x9fbfe4a5#32, 0xe8b8d433#32,
    0x7807c9a2#32, 0x0f00f934#32, 0x9609a88e#32, 0xe10e9818#32, 0x7f6a0dbb#32, 0x086d3d2d#32,
    0x91646c97#32, 0xe6635c01#32, 0x6b6b51f4#32, 0x1c6c6162#32, 0x856530d8#32, 0xf262004e#32,
    0x6c0695ed#32, 0x1b01a57b#32, 0x8208f4c1#32, 0xf50fc457#32, 0x65b0d9c6#32, 0x12b7e950#32,
    0x8bbeb8ea#32, 0xfcb9887c#32, 0x62dd1ddf#32, 0x15da2d49#32, 0x8cd37cf3#32, 0xfbd44c65#32,
    0x4db26158#32, 0x3ab551ce#32, 0xa3bc0074#32, 0xd4bb30e2#32, 0x4adfa541#32, 0x3dd895d7#32,
    0xa4d1c46d#32, 0xd3d6f4fb#32, 0x4369e96a#32, 0x346ed9fc#32, 0xad678846#32, 0xda60b8d0#32,
    0x44042d73#32, 0x33031de5#32, 0xaa0a4c5f#32, 0xdd0d7cc9#32, 0x5005713c#32, 0x270241aa#32,
    0xbe0b1010#32, 0xc90c2086#32, 0x5768b525#32, 0x206f85b3#32, 0xb966d409#32, 0xce61e49f#32,
    0x5edef90e#32, 0x29d9c998#32, 0xb0d09822#32, 0xc7d7a8b4#32, 0x59b33d17#32, 0x2eb40d81#32,
    0xb7bd5c3b#32, 0xc0ba6cad#32, 0xedb88320#32, 0x9abfb3b6#32, 0x03b6e20c#32, 0x74b1d29a#32,
    0xead54739#32, 0x9dd277af#32, 0x04db2615#32, 0x73dc1683#32, 0xe3630b12#32, 0x94643b84#32,
    0x0d6d6a3e#32, 0x7a6a5aa8#32, 0xe40ecf0b#32, 0x9309ff9d#32, 0x0a00ae27#32, 0x7d079eb1#32,
    0xf00f9344#32, 0x8708a3d2#32, 0x1e01f268#32, 0x6906c2fe#32, 0xf762575d#32, 0x806567cb#32,
    0x196c3671#32, 0x6e6b06e7#32, 0xfed41b76#32, 0x89d32be0#32, 0x10da7a5a#32, 0x67dd4acc#32,
    0xf9b9df6f#32, 0x8ebeeff9#32, 0x17b7be43#32, 0x60b08ed5#32, 0xd6d6a3e8#32, 0xa1d1937e#32,
    0x38d8c2c4#32, 0x4fdff252#32, 0xd1bb67f1#32, 0xa6bc5767#32, 0x3fb506dd#32, 0x48b2364b#32,
    0xd80d2bda#32, 0xaf0a1b4c#32, 0x36034af6#32, 0x41047a60#32, 0xdf60efc3#32, 0xa867df55#32,
    0x316e8eef#32, 0x4669be79#32, 0xcb61b38c#32, 0xbc66831a#32, 0x256fd2a0#32, 0x5268e236#32,
    0xcc0c7795#32, 0xbb0b4703#32, 0x220216b9#32, 0x5505262f#32, 0xc5ba3bbe#32, 0xb2bd0b28#32,
    0x2bb45a92#32, 0x5cb36a04#32, 0xc2d7ffa7#32, 0xb5d0cf31#32, 0x2cd99e8b#32, 0x5bdeae1d#32,
    0x9b64c2b0#32, 0xec63f226#32, 0x756aa39c#32, 0x026d930a#32, 0x9c0906a9#32, 0xeb0e363f#32,
    0x72076785#32, 0x05005713#32, 0x95bf4a82#32, 0xe2b87a14#32, 0x7bb12bae#32, 0x0cb61b38#32,
    0x92d28e9b#32, 0xe5d5be0d#32, 0x7cdcefb7#32, 0x0bdbdf21#32, 0x86d3d2d4#32, 0xf1d4e242#32,
    0x68ddb3f8#32, 0x1fda836e#32, 0x81be16cd#32, 0xf6b9265b#32, 0x6fb077e1#32, 0x18b74777#32,
    0x88085ae6#32, 0xff0f6a70#32, 0x66063bca#32, 0x11010b5c#32, 0x8f659eff#32, 0xf862ae69#32,
    0x616bffd3#32, 0x166ccf45#32, 0xa00ae278#32, 0xd70dd2ee#32, 0x4e048354#32, 0x3903b3c2#32,
    0xa7672661#32, 0xd06016f7#32, 0x4969474d#32, 0x3e6e77db#32, 0xaed16a4a#32, 0xd9d65adc#32,
    0x40df0b66#32, 0x37d83bf0#32, 0xa9bcae53#32, 0xdebb9ec5#32, 0x47b2cf7f#32, 0x30b5ffe9#32,
    0xbdbdf21c#32, 0xcabac28a#32, 0x53b39330#32, 0x24b4a3a6#32, 0xbad03605#32, 0xcdd70693#32,
    0x54de5729#32, 0x23d967bf#32, 0xb3667a2e#32, 0xc4614ab8#32, 0x5d681b02#32, 0x2a6f2b94#32,
    0xb40bbe37#32, 0xc30c8ea1#32, 0x5a05df1b#32, 0x2d02ef8d#32]

/-- `crc32_hash` -/
def crc32Hash (crc : BitVec 32) (buf : Bytes) : BitVec 32 :=
  buf.foldl (fun crc p =>
    let crc := crc ^^^ p.toBitVec.setWidth 32
    crc32Tab.getD (crc &&& 0xFF#32).toNat 0#32 ^^^ crc >>> 8) crc

/-- The checksum of `common/crc.c`. -/
def softCrc : Crc (BitVec 32) where
  init := 0xFFFFFFFF#32
  hash16 crc val := crc32Hash crc [⟨val.setWidth 8⟩, ⟨(val >>> 8).setWidth 8⟩]
  hash32 crc val := crc32Hash crc [⟨val.setWidth 8⟩, ⟨(val >>> 8).setWidth 8⟩,
    ⟨(val >>> 16).setWidth 8⟩, ⟨(val >>> 24).setWidth 8⟩]
  result crc := crc ^^^ 0xFFFFFFFF#32

/-- `GET_SOURCE_CAP` with its checksum, and a symbol in place of the end of packet. -/
def brokenEop : Samples :=
  Samples.receive (Arr.replicate _ 0) (packetStamps
    (codeBits pdSync1 pdSync1 pdSync1 pdSync2 ++ shortBits 0x0047#16 ++
      wordBits (messageCrc softCrc 0x0047#16 []) ++ symBits 0x0F#5))

deriving instance DecidableEq for Dequeue

/-- The symbol is taken for the end of packet: the message passes with the place behind it for its
header. -/
theorem not_truthful_brokenEop :
    ¬ Truthful ⟨false, 0#32⟩ softCrc brokenEop (Arr.replicate _ 0#32) := by
  have hsearch : Searching brokenEop 96 0#32 pdInitDequeue :=
    .preamble (by decide +kernel) (by decide)
  have hsop : SopAt ⟨false, 0#32⟩ brokenEop 124 pdSop ⟨0x8e318000#32, 0⟩ :=
    .found hsearch (by decide +kernel) (by decide) (.inl rfl)
  have hheader : WordsAt ⟨false, 0#32⟩ brokenEop pdSop 0x0047#16 [] 158 ⟨0xf794f8e3#32, 0⟩ :=
    .header hsop (by decide +kernel) (by decide)
  have hcrc : CrcAt ⟨false, 0#32⟩ softCrc brokenEop pdSop 0x0047#16 224 ⟨0xef389d5e#32, 0⟩ :=
    .equal hheader (by decide) (by decide +kernel) (by decide)
  have heop : EopAt ⟨false, 0#32⟩ softCrc brokenEop pdSop 0x0047#16 232 0x0f#32 :=
    .read hcrc (by decide +kernel : pdDequeueBits brokenEop 224 4 0#32 ⟨0xef389d5e#32, 0⟩ =
      some (232, 0x0f#32, ⟨0xfef389d5#32, 0⟩)) (by decide)
  exact WrongEop.not_truthful ⟨_, _, _, _, heop, by decide⟩

end UsbPd
end CrosEc
