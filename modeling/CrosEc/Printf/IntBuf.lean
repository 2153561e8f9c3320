import CrosEc.Printf.Scanner
import Mathlib.Data.Nat.Digits.Lemmas

/-!
# The scratch buffer of a number

A number is written backwards from the last byte of `intbuf`, so that all of its bytes are in the
buffer when its text, with the NUL, is no longer than that.  The text of a decimal or a hexadecimal
number fits with any fraction, and so does its sign but for the longest fraction that the precision
is cut to.  The text of a binary number of 64 bits does not.
-/

namespace CrosEc
namespace Printf

open Lib Util

variable {α γ : Type} {config : Config} {va : VaList α} {n : Number} {b : IntBuf} {upper : Bool}
  {base : BitVec 32} {v : BitVec 64} {precision : Nat} {s : Bytes} {args args' : α}

/-! ## Digits -/

/-- The bases of `switch (c)`. -/
def IsBase (base : BitVec 32) : Prop := base = 2#32 ∨ base = 10#32 ∨ base = 16#32

theorem IsBase.one_lt (hbase : IsBase base) : 1 < base.toNat := by
  rcases hbase with rfl | rfl | rfl <;> decide

theorem isBase_ten : IsBase 10#32 := .inr (.inl rfl)

/-- `uint64divmod` divides by each of them. -/
theorem uint64divmod_base (v : BitVec 64) (hbase : IsBase base) :
    (uint64divmod v base).1.toNat = v.toNat / base.toNat ∧
      (uint64divmod v base).2 = BitVec.ofNat 32 (v.toNat % base.toNat) := by
  have hpos : 0 < base.toInt := by rcases hbase with rfl | rfl | rfl <;> decide
  have hsmall : base.toNat ≤ 2 ^ 30 := by rcases hbase with rfl | rfl | rfl <;> decide
  obtain ⟨hquot, hrem⟩ := divides_of_le v hpos hsmall
  have hmod := Nat.mod_lt v.toNat (show 0 < base.toNat from hbase.one_lt.le)
  have hsmallNat : (BitVec.ofNat 32 (v.toNat % base.toNat)).toNat = v.toNat % base.toNat := by
    rw [BitVec.toNat_ofNat, Nat.mod_eq_of_lt]
    omega
  refine ⟨hquot, BitVec.eq_of_toInt_eq ?_⟩
  rw [hrem, BitVec.toInt_eq_toNat_of_lt (by omega), hsmallNat]

/-- A digit, as a character. -/
def digitText (upper : Bool) (digit : Nat) : UInt8 := digitChar upper (BitVec.ofNat 32 digit)

/-- The loop writes the digits, the highest one last. -/
theorem text_digits (hbase : IsBase base) {rounds : Nat} (hv : v.toNat < 2 ^ rounds) :
    (digits upper base rounds v b).text =
      (Nat.digits base.toNat v.toNat).reverse.map (digitText upper) ++ b.text := by
  induction rounds generalizing v b with
  | zero =>
      have hzero : v.toNat = 0 := Nat.lt_one_iff.mp hv
      rw [digits, hzero, Nat.digits_zero]
      rfl
  | succ rounds ih =>
      rw [digits]
      split
      · rename_i hzero
        rw [hzero, BitVec.toNat_ofNat, Nat.zero_mod, Nat.digits_zero]
        rfl
      · rename_i hne
        have hpos : 0 < v.toNat := Nat.pos_of_ne_zero fun h => hne (BitVec.toNat_inj.mp h)
        obtain ⟨hquot, hrem⟩ := uint64divmod_base v hbase
        have hless : (uint64divmod v base).1.toNat < 2 ^ rounds := by
          rw [hquot]
          have hone := hbase.one_lt
          exact Nat.div_lt_of_lt_mul (hv.trans_le (by
            rw [Nat.pow_succ, Nat.mul_comm]
            exact Nat.mul_le_mul_right _ hone))
        dsimp only
        rw [ih hless, hquot, hrem, Nat.digits_def' hbase.one_lt hpos, List.reverse_cons,
          List.map_append, List.append_assoc]
        rfl

/-- The fraction takes as many digits as the precision says. -/
theorem fractionDigits_spec (precision : Nat) (v : BitVec 64) (b : IntBuf) :
    (fractionDigits precision v b).1.toNat = v.toNat / 10 ^ precision ∧
      (fractionDigits precision v b).2.text.length = b.text.length + precision := by
  induction precision generalizing v b with
  | zero => exact ⟨(Nat.div_one _).symm, rfl⟩
  | succ precision ih =>
      obtain ⟨hquot, hlen⟩ := ih (uint64divmod v 10#32).1
        (b.push ⟨(charInt '0'.toUInt8 + (uint64divmod v 10#32).2).setWidth 8⟩)
      rw [(uint64divmod_base v isBase_ten).1] at hquot
      refine ⟨hquot.trans ?_, hlen.trans ?_⟩
      · rw [Nat.div_div_eq_div_mul, Nat.pow_succ, Nat.mul_comm (10 ^ precision)]
        rfl
      · rw [IntBuf.push, List.length_cons]
        omega

/-! ## Offsets -/

/-- `vstr` is where the text starts, and all from there on is written. -/
structure IntBuf.Tracks (b : IntBuf) : Prop where
  vstr_eq : b.vstr = 33 - b.text.length
  mem_writes : ∀ o, o ∈ b.writes ↔ b.vstr ≤ o ∧ o ≤ 33

theorem tracks_init : IntBuf.init.Tracks where
  vstr_eq := rfl
  mem_writes := by
    intro o
    show o ∈ [intbufSize - 1] ↔ intbufSize - 1 ≤ o ∧ o ≤ 33
    rw [intbufSize, List.mem_singleton]
    omega

theorem IntBuf.Tracks.push (h : b.Tracks) (c : UInt8) : (b.push c).Tracks where
  vstr_eq := by
    have hvstr := h.vstr_eq
    rw [IntBuf.push, List.length_cons]
    push_cast
    omega
  mem_writes := by
    intro o
    have hvstr := h.vstr_eq
    show o ∈ (b.vstr - 1) :: b.writes ↔ b.vstr - 1 ≤ o ∧ o ≤ 33
    rw [List.mem_cons, h.mem_writes]
    omega

theorem IntBuf.Tracks.fractionDigits (h : b.Tracks) (precision : Nat) (v : BitVec 64) :
    (Printf.fractionDigits precision v b).2.Tracks := by
  induction precision generalizing v b with
  | zero => exact h
  | succ precision ih => exact ih (h.push _) _

theorem IntBuf.Tracks.digits (h : b.Tracks) (rounds : Nat) (v : BitVec 64) :
    (Printf.digits upper base rounds v b).Tracks := by
  induction rounds generalizing v b with
  | zero => exact h
  | succ rounds ih =>
      rw [Printf.digits]
      split
      · exact h
      · exact ih (h.push _) _

/-- Everything written is in the buffer when the text and its NUL fit. -/
theorem IntBuf.Tracks.inBuffer_iff (h : b.Tracks) :
    (∀ o ∈ b.writes, 0 ≤ o ∧ o < intbufSize) ↔ b.text.length ≤ 33 := by
  have hvstr := h.vstr_eq
  rw [intbufSize]
  constructor
  · intro hin
    have hfirst := hin b.vstr ((h.mem_writes _).mpr ⟨le_rfl, by omega⟩)
    omega
  · intro hlen o ho
    have hrange := (h.mem_writes o).mp ho
    omega

/-! ## A number -/

/-- A number as `switch (c)` makes it: only decimal ones have a sign. -/
structure Number.Proper (n : Number) : Prop where
  isBase : IsBase n.base
  sign : n.sign ≠ 0 → n.base = 10#32

/-- The fraction's place in the text, with the point. -/
def fractionWidth (precision : Nat) : Nat :=
  if min precision 31 = 0 then 0 else min precision 31 + 1

/-- The sign's place in the text. -/
def signText (n : Number) : Bytes := if n.sign ≠ 0 then [n.sign] else []

/-- The digits before the point. -/
def wholeText (upper : Bool) (base whole : Nat) : Bytes :=
  if whole = 0 then ['0'.toUInt8] else (Nat.digits base whole).reverse.map (digitText upper)

/-- The text of a number: its sign, the digits before the point and the fraction. -/
theorem text_write (upper : Bool) (h : n.Proper) (precision : Nat) :
    (n.write upper precision).Tracks ∧ ∃ fraction : Bytes,
      fraction.length = fractionWidth precision ∧
        (n.write upper precision).text = signText n ++
          wholeText upper n.base.toNat (n.v.toNat / 10 ^ min precision 31) ++ fraction := by
  have hclamp : (if 34 - 3 < precision then 34 - 3 else precision) = min precision 31 := by
    split <;> omega
  rw [Number.write, hclamp]
  obtain ⟨p, hp⟩ : ∃ p, min precision 31 = p := ⟨_, rfl⟩
  rw [fractionWidth, hp]
  obtain ⟨hquot, hlen⟩ := fractionDigits_spec p n.v IntBuf.init
  have htracks := tracks_init.fractionDigits p n.v
  generalize fractionDigits p n.v IntBuf.init = fraction at hquot hlen htracks
  obtain ⟨whole, b⟩ := fraction
  dsimp only at hquot hlen htracks ⊢
  rw [← hquot]
  -- the point
  obtain ⟨b₁, hb₁, htracks₁, hlen₁⟩ : ∃ b₁, (if p ≠ 0 then b.push '.'.toUInt8 else b) = b₁ ∧
      b₁.Tracks ∧ b₁.text.length = if p = 0 then 0 else p + 1 := by
    refine ⟨_, rfl, ?_⟩
    by_cases hzero : p = 0
    · rw [if_neg (not_not.mpr hzero), if_pos hzero]
      exact ⟨htracks, hlen.trans (by rw [hzero]; rfl)⟩
    · rw [if_pos hzero, if_neg hzero]
      refine ⟨htracks.push _, ?_⟩
      rw [IntBuf.push, List.length_cons, hlen]
      exact congrArg (· + 1) (Nat.zero_add p)
  rw [hb₁]
  -- the digits before it
  obtain ⟨b₂, hb₂, htracks₂, htext₂⟩ : ∃ b₂,
      digits upper n.base 64 whole (if whole = 0#64 then b₁.push '0'.toUInt8 else b₁) = b₂ ∧
        b₂.Tracks ∧ b₂.text = wholeText upper n.base.toNat whole.toNat ++ b₁.text := by
    refine ⟨_, rfl, ?_⟩
    rw [wholeText]
    by_cases hzero : whole = 0#64
    · rw [if_pos hzero, hzero, if_pos (show (0#64).toNat = 0 from rfl)]
      exact ⟨(htracks₁.push _).digits 64 _, rfl⟩
    · have hne : whole.toNat ≠ 0 := fun h => hzero (BitVec.toNat_inj.mp h)
      rw [if_neg hzero, if_neg hne]
      exact ⟨htracks₁.digits 64 _, text_digits h.isBase whole.isLt⟩
  rw [hb₂, signText]
  split
  · exact ⟨htracks₂.push _, b₁.text, hlen₁, by rw [IntBuf.push, htext₂]; rfl⟩
  · exact ⟨htracks₂, b₁.text, hlen₁, htext₂⟩

theorem length_wholeText (upper : Bool) (base whole : Nat) :
    (wholeText upper base whole).length = max 1 (Nat.digits base whole).length := by
  rw [wholeText]
  split
  · rename_i hzero
    rw [hzero, Nat.digits_zero]
    rfl
  · rename_i hne
    have hpos := List.length_pos_of_ne_nil (mt Nat.digits_eq_nil_iff_eq_zero.mp hne)
      (l := Nat.digits base whole)
    rw [List.length_map, List.length_reverse]
    omega

/-- The longest text but for the sign: a fraction of 31 digits, or less than 33 characters. -/
theorem lt_pow_of_ten_le {base p width : Nat} (v : BitVec 64) (hbase : 10 ≤ base)
    (hwidth : width ≤ p + 1) (hle : width ≤ 32) : v.toNat / 10 ^ p < base ^ (32 - width) := by
  have hten : 10 ^ 31 ≤ base ^ (32 - width) * 10 ^ p :=
    calc 10 ^ 31 ≤ 10 ^ (32 - width + p) := Nat.pow_le_pow_right (by decide) (by omega)
      _ = 10 ^ (32 - width) * 10 ^ p := Nat.pow_add 10 _ p
      _ ≤ base ^ (32 - width) * 10 ^ p :=
        Nat.mul_le_mul_right _ (Nat.pow_le_pow_left hbase _)
  have hv := v.isLt
  rw [Nat.div_lt_iff_lt_mul (Nat.pow_pos (by decide))]
  omega

/-- The combinations that do not fit: a binary number that is too long with its fraction, and a sign
before the longest fraction. -/
def Number.Overflows (n : Number) (precision : Nat) : Prop :=
  n.base = 2#32 ∧ 2 ^ (33 - fractionWidth precision) ≤ n.v.toNat / 10 ^ min precision 31 ∨
    n.sign ≠ 0 ∧ 31 ≤ precision

/-- **A number fits `intbuf`** exactly when it is none of these. -/
theorem inBuffer_write_iff (upper : Bool) (h : n.Proper) (precision : Nat) :
    (∀ o ∈ (n.write upper precision).writes, 0 ≤ o ∧ o < intbufSize) ↔
      ¬ n.Overflows precision := by
  obtain ⟨htracks, fraction, hfraction, htext⟩ := text_write upper h precision
  have hbound : ∀ k, 1 ≤ k → (max 1 (Nat.digits n.base.toNat
      (n.v.toNat / 10 ^ min precision 31)).length ≤ k ↔
        n.v.toNat / 10 ^ min precision 31 < n.base.toNat ^ k) := fun k hk => by
    rw [max_le_iff, Nat.digits_length_le_iff h.isBase.one_lt]
    exact and_iff_right hk
  have hwidth : fractionWidth precision ≤ min precision 31 + 1 := by
    rw [fractionWidth]
    split <;> lia
  rw [htracks.inBuffer_iff, htext, List.length_append, List.length_append, hfraction,
    length_wholeText, Number.Overflows, signText]
  by_cases htwo : n.base = 2#32
  · have hsign : ¬ n.sign ≠ 0 := fun hne => by
      rw [h.sign hne] at htwo
      exact absurd htwo (by decide)
    have hlen := hbound (33 - fractionWidth precision) (by lia)
    rw [htwo] at hlen ⊢
    rw [if_neg hsign, List.length_nil]
    have htoNat : (2#32).toNat = 2 := rfl
    rw [htoNat] at hlen ⊢
    constructor
    · rintro hle (⟨-, hover⟩ | ⟨hne, -⟩)
      · exact absurd (hlen.mp (by lia)) (Nat.not_lt.mpr hover)
      · exact hsign hne
    · intro hnot
      have hlt := hlen.mpr (Nat.lt_of_not_ge fun hover => hnot (.inl ⟨rfl, hover⟩))
      lia
  · have hten : 10 ≤ n.base.toNat := by
      rcases h.isBase with hbase | hbase | hbase
      · exact absurd hbase htwo
      all_goals
        rw [hbase]
        decide
    by_cases hlong : 31 ≤ precision
    · -- the fraction has all the digits there are
      have hp : min precision 31 = 31 := Nat.min_eq_right hlong
      have hw : fractionWidth precision = 32 := by rw [fractionWidth, hp]; rfl
      have hzero : n.v.toNat / 10 ^ min precision 31 = 0 := by
        have hv := n.v.isLt
        rw [hp]
        exact Nat.div_eq_of_lt (by lia)
      rw [hzero, Nat.digits_zero, hw, List.length_nil]
      by_cases hsign : n.sign ≠ 0
      · rw [if_pos hsign, List.length_singleton]
        exact iff_of_false (by lia) (not_not.mpr (.inr ⟨hsign, hlong⟩))
      · rw [if_neg hsign, List.length_nil]
        refine iff_of_true (by lia) ?_
        rintro (⟨hbase, -⟩ | ⟨hne, -⟩)
        · exact htwo hbase
        · exact hsign hne
    · have hlen := (hbound (32 - fractionWidth precision) (by lia)).mpr
        (lt_pow_of_ten_le n.v hten hwidth (by lia))
      have hfits : ¬ (n.base = 2#32 ∧ 2 ^ (33 - fractionWidth precision) ≤
          n.v.toNat / 10 ^ min precision 31 ∨ n.sign ≠ 0 ∧ 31 ≤ precision) := by
        rintro (⟨hbase, -⟩ | ⟨-, hle⟩)
        · exact htwo hbase
        · exact hlong hle
      refine iff_of_true ?_ hfits
      split
      · rw [List.length_singleton]
        lia
      · rw [List.length_nil]
        lia

/-! ## The scanner's numbers -/

theorem proper_signed (flags : Flags) (v : BitVec 64) : (signed flags v).Proper := by
  rw [signed]
  dsimp only
  split <;> split <;> exact ⟨isBase_ten, fun _ => rfl⟩

/-- `switch (c)` makes proper numbers. -/
theorem proper_of_convert {c : UInt8} {flags : Flags}
    (h : convert config c flags v = some n) : n.Proper := by
  have hunsigned : ∀ base, IsBase base → Number.Proper ⟨0, base, v⟩ :=
    fun base hbase => ⟨hbase, fun hne => absurd rfl hne⟩
  rw [convert] at h
  split_ifs at h
  all_goals cases h
  · exact proper_signed _ v
  · exact proper_signed _ v
  · exact hunsigned _ isBase_ten
  · exact hunsigned _ (.inr (.inr rfl))
  · exact hunsigned _ (.inl rfl)

/-- The number of a directive, if it has one, is a proper one. -/
def Directive.Proper : Directive → Prop
  | number _ _ _ _ n => n.Proper
  | _ => True

/-- What a part of the scanner finds is proper. -/
def ProperResult (result : Option (Directive × Bytes × α)) : Prop :=
  ∀ found ∈ result, found.1.Proper

theorem ProperResult.bind {β : Type} {x : Option β} {f : β → Option (Directive × Bytes × α)}
    (h : ∀ a, ProperResult (f a)) : ProperResult (x.bind f) := by
  intro found hfound
  obtain ⟨a, -, ha⟩ := Option.bind_eq_some_iff.mp hfound
  exact h a found ha

theorem properResult_some {directive : Directive} (h : directive.Proper) (s : Bytes) (args : α) :
    ProperResult (some (directive, s, args)) := by
  rintro _ ⟨⟩
  exact h

theorem properResult_scanNumber (flags : Flags) (padWidth : Nat) (c : UInt8) :
    ProperResult (scanNumber config va flags padWidth precision c s args) := by
  refine ProperResult.bind fun scanned => ?_
  dsimp only
  split
  · rename_i n hconvert
    exact properResult_some (by exact proper_of_convert hconvert) _ _
  · exact properResult_some (by exact trivial) _ _

theorem properResult_scanConversion (flags : Flags) (padWidth : Nat) (c : UInt8) :
    ProperResult (scanConversion config va flags padWidth precision c s args) := by
  rw [scanConversion]
  split
  · exact properResult_some (by exact trivial) _ _
  · split
    · dsimp only
      split <;> exact properResult_some (by exact trivial) _ _
    · exact properResult_scanNumber flags padWidth c

theorem properResult_scanFlags (c : UInt8) : ProperResult (scanFlags config va c s args) := by
  refine .bind fun left => .bind fun sign => .bind fun padzero => .bind fun ⟨_, _, _, _⟩ => ?_
  dsimp only
  split
  · exact properResult_some (by exact trivial) _ _
  · refine .bind fun ⟨_, _, _, _⟩ => ?_
    dsimp only
    split
    · exact properResult_some (by exact trivial) _ _
    · exact properResult_scanConversion _ _ _

/-- **The scanner** finds proper numbers only. -/
theorem properResult_scan (c : UInt8) : ProperResult (scan config va c s args) := by
  rw [scan]
  split
  · exact properResult_some (by exact trivial) _ _
  · refine .bind fun next => ?_
    dsimp only
    split
    · exact properResult_some (by exact trivial) _ _
    · split
      · exact properResult_some (by exact trivial) _ _
      · exact properResult_scanFlags _

/-! ## The whole format -/

/-- The scanner gets to a number that does not fit. -/
def ReachesOverflow (config : Config) (va : VaList α) (s : Bytes) (args : α) : Prop :=
  ∃ c t args' flags padWidth precision upper n t' args'',
    Reaches config va s args (c :: t) args' ∧ c ≠ 0 ∧
      scan config va c t args' = some (.number flags padWidth precision upper n, t', args'') ∧
        n.Overflows precision

/-- All writes through `vstr` stay in `intbuf`, whatever takes the characters. -/
def StaysInBuffer (config : Config) (va : VaList α) (s : Bytes) (args : α) : Prop :=
  ∀ (γ : Type) (addchar : γ → BitVec 32 → Bool × γ) (context : γ) (fuel : Nat),
    ∀ o ∈ (vfnprintf config va addchar fuel context s args).writes, 0 ≤ o ∧ o < intbufSize

/-- The writes after some directives are writes of the run. -/
theorem Reaches.writes_subset {t : Bytes} (h : Reaches config va s args t args') (fuel : Nat) :
    ∃ fuel', ∀ o ∈ (vfnprintf config va takeAll fuel () t args').writes,
      o ∈ (vfnprintf config va takeAll fuel' () s args).writes := by
  induction h with
  | here s args => exact ⟨fuel, fun _ ho => ho⟩
  | step hc hscan _ ih =>
      obtain ⟨fuel', hsubset⟩ := ih
      refine ⟨fuel' + 1, fun o ho => ?_⟩
      rw [vfnprintf, if_neg hc, hscan]
      dsimp only
      rw [addAll_takeAll]
      exact List.mem_append_right _ (hsubset o ho)

/-- A run in which every number fits. -/
theorem writes_of_not_overflow (addchar : γ → BitVec 32 → Bool × γ)
    (h : ¬ ReachesOverflow config va s args) (fuel : Nat) (context : γ) :
    ∀ o ∈ (vfnprintf config va addchar fuel context s args).writes, 0 ≤ o ∧ o < intbufSize := by
  induction fuel generalizing s args context with
  | zero => exact fun _ ho => absurd ho List.not_mem_nil
  | succ fuel ih =>
      cases s with
      | nil => exact fun _ ho => absurd ho List.not_mem_nil
      | cons c s =>
          rw [vfnprintf]
          split
          · exact fun _ ho => absurd ho List.not_mem_nil
          rename_i hc
          split
          · exact fun _ ho => absurd ho List.not_mem_nil
          rename_i directive s' args' hscan
          have hdirective : ∀ o ∈ directive.writes, 0 ≤ o ∧ o < intbufSize := by
            have hproper := properResult_scan c (directive, s', args') hscan
            cases directive with
            | number flags padWidth precision upper n =>
                exact (inBuffer_write_iff upper hproper precision).mpr fun hover =>
                  h ⟨c, s, args, flags, padWidth, precision, upper, n, s', args', .here _ _, hc,
                    hscan, hover⟩
            | _ => exact fun _ ho => absurd ho List.not_mem_nil
          split
          · exact hdirective
          · intro o ho
            rcases List.mem_append.mp ho with ho | ho
            · exact hdirective o ho
            · refine ih (fun hover => h ?_) _ o ho
              obtain ⟨d, t, args₁, flags, padWidth, precision, upper, n, t', args₂, hreach, hrest⟩ :=
                hover
              exact ⟨d, t, args₁, flags, padWidth, precision, upper, n, t', args₂,
                .step hc hscan hreach, hrest⟩

/-- **Number formatting stays in its buffer**, exactly when the scanner gets to no number that is
too long for it. -/
theorem staysInBuffer_iff (config : Config) (va : VaList α) (format : Format) (args : α) :
    StaysInBuffer config va format.bytes args ↔
      ¬ ReachesOverflow config va format.bytes args := by
  constructor
  · rintro hstays ⟨c, t, args', flags, padWidth, precision, upper, n, t', args'', hreach, hc,
      hscan, hover⟩
    have hproper : n.Proper := properResult_scan c _ hscan
    refine (inBuffer_write_iff upper hproper precision).mp (fun o ho => ?_) hover
    obtain ⟨fuel, hsubset⟩ := hreach.writes_subset 1
    refine hstays Unit takeAll () fuel o (hsubset o ?_)
    rw [vfnprintf, if_neg hc, hscan]
    dsimp only
    rw [addAll_takeAll]
    exact List.mem_append_left _ ho
  · intro hover γ addchar context fuel
    exact writes_of_not_overflow addchar hover fuel context

/-- `"%lb"` of 2^33. -/
theorem not_staysInBuffer_binary :
    ¬ ∀ (config : Config) (va : VaList Unit) (format : Format),
      StaysInBuffer config va format.bytes () := by
  intro hstays
  have hwrites := hstays ⟨false, false⟩
    ⟨fun _ => (0, ()), fun _ => (0, ()), fun _ => (0x200000000#64, ()), fun _ => (none, ()),
      fun _ => (fun _ => 0, ()), fun _ => (0, ())⟩
    ⟨['%'.toUInt8, 'l'.toUInt8, 'b'.toUInt8], by decide⟩ Unit takeAll () 1
  exact absurd (hwrites (-1) (by decide)).1 (by decide)

end Printf
end CrosEc
