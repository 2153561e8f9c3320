import CrosEc.Printf.IntBuf
import Mathlib.Data.List.TakeWhile

/-!
# Printed integers read back

`snprintf` puts out the digits of a number by division, the highest one first, and `strtoi` and
`strtoul` multiply them up again.  The lowest number of 32 bits is its own negation, in the one and
in the other.
-/

namespace CrosEc
namespace Printf

open Lib Util

variable {α : Type} {config : Config} {va : VaList α} {context : SnprintfContext}
  {mem₀ : Nat → UInt8} {size₀ : BitVec 32} {text s : Bytes} {args : α} {base : BitVec 32}
  {out : List (BitVec 32)}

/-! ## Printing to a string -/

/-- What a format puts out, when no character is dropped. -/
inductive Prints (config : Config) (va : VaList α) : Bytes → α → List (BitVec 32) → Prop where
  | done (s : Bytes) (args : α) : Prints config va (0 :: s) args []
  | step {c : UInt8} {s s' : Bytes} {args args' : α} {directive : Directive}
      {out : List (BitVec 32)} (hc : c ≠ 0)
      (hscan : scan config va c s args = some (directive, s', args'))
      (hrest : Prints config va s' args' out) :
      Prints config va (c :: s) args (directive.output ++ out)

/-- A character of a string. -/
def toChar (c : BitVec 32) : UInt8 := ⟨c.setWidth 8⟩

theorem toChar_charInt (c : UInt8) : toChar (charInt c) = c := by
  apply UInt8.toBitVec_inj.mp
  show (c.toBitVec.setWidth 32).setWidth 8 = c.toBitVec
  rw [BitVec.setWidth_setWidth_of_le _ (by decide), BitVec.setWidth_eq]

/-- The string holds this text, and there is room behind it. -/
structure Printed (mem₀ : Nat → UInt8) (size₀ : BitVec 32) (text : Bytes)
    (context : SnprintfContext) : Prop where
  str : context.str = text.length
  size : context.size.toNat + text.length = size₀.toNat
  mem : ∀ i, context.mem i = text[i]?.getD (mem₀ i)

/-- The memory with one more character. -/
theorem Printed.update (h : Printed mem₀ size₀ text context) (c : UInt8) (i : Nat) :
    Function.update context.mem context.str c i = (text ++ [c])[i]?.getD (mem₀ i) := by
  rw [h.str, Function.update_apply, h.mem]
  split
  · rename_i hi
    rw [hi, List.getElem?_concat_length]
    rfl
  · rename_i hne
    rcases Nat.lt_or_gt_of_ne hne with hlt | hgt
    · rw [List.getElem?_append_left hlt]
    · rw [List.getElem?_eq_none hgt.le, List.getElem?_eq_none]
      rw [List.length_append, List.length_singleton]
      exact hgt

/-- A character is added. -/
theorem Printed.addchar (h : Printed mem₀ size₀ text context) (hroom : text.length < size₀.toNat)
    (c : BitVec 32) :
    ∃ context', snprintfAddchar context c = (false, context') ∧
      Printed mem₀ size₀ (text ++ [toChar c]) context' := by
  have hsize := h.size
  have hpos : context.size ≠ 0#32 := by
    intro hzero
    rw [hzero, BitVec.toNat_ofNat] at hsize
    omega
  refine ⟨_, if_neg hpos, ?_, ?_, h.update _⟩
  · rw [List.length_append, List.length_singleton, h.str]
  · rw [List.length_append, List.length_singleton]
    show (context.size - 1#32).toNat + (text.length + 1) = size₀.toNat
    bv_omega

/-- Some characters are added. -/
theorem Printed.addAll (h : Printed mem₀ size₀ text context) (cs : List (BitVec 32))
    (hroom : text.length + cs.length ≤ size₀.toNat) :
    ∃ context', Printf.addAll snprintfAddchar cs context = (false, context') ∧
      Printed mem₀ size₀ (text ++ cs.map toChar) context' := by
  induction cs generalizing text context with
  | nil => exact ⟨context, rfl, by rwa [List.map_nil, List.append_nil]⟩
  | cons c cs ih =>
      rw [List.length_cons] at hroom
      obtain ⟨context₁, hadd, hprinted₁⟩ := h.addchar (by omega) c
      obtain ⟨context₂, hall, hprinted₂⟩ := ih hprinted₁ (by
        rw [List.length_append, List.length_singleton]
        omega)
      refine ⟨context₂, ?_, ?_⟩
      · rw [Printf.addAll, hadd]
        exact hall
      · rwa [List.map_cons, List.append_cons]

/-- **`vfnprintf`** to a string with room for the text. -/
theorem Prints.vfnprintf_eq (h : Prints config va s args out)
    (hcontext : Printed mem₀ size₀ text context) (hroom : text.length + out.length ≤ size₀.toNat) :
    ∃ fuel context', (vfnprintf config va snprintfAddchar fuel context s args).ending =
        .returned ecSuccess ∧
      (vfnprintf config va snprintfAddchar fuel context s args).context = context' ∧
        Printed mem₀ size₀ (text ++ out.map toChar) context' := by
  induction h generalizing text context with
  | done s args =>
      refine ⟨1, context, rfl, rfl, ?_⟩
      rwa [List.map_nil, List.append_nil]
  | @step c s s' args args' directive out hc hscan _ ih =>
      rw [List.length_append] at hroom
      obtain ⟨context₁, hadd, hprinted₁⟩ := hcontext.addAll directive.output (by omega)
      obtain ⟨fuel, context', hending, hend, hprinted⟩ := ih hprinted₁ (by
        rw [List.length_append, List.length_map]
        omega)
      refine ⟨fuel + 1, context', ?_, ?_, ?_⟩
      · rw [vfnprintf, if_neg hc, hscan]
        dsimp only
        rw [hadd]
        exact hending
      · rw [vfnprintf, if_neg hc, hscan]
        dsimp only
        rw [hadd]
        exact hend
      · rwa [List.map_append, ← List.append_assoc]

/-- **`vsnprintf`** to a buffer that is large enough: the text, its NUL, and nothing else. -/
theorem Prints.vsnprintf_eq (h : Prints config va s args out) (mem : Nat → UInt8)
    {size : BitVec 32} (hsize : out.length < size.toNat) :
    ∃ fuel mem', vsnprintf config va fuel mem size s args =
        some (UInt32.ofNat out.length, mem') ∧
      ∀ i, mem' i = (out.map toChar ++ [0])[i]?.getD (mem i) := by
  have hne : size ≠ 0#32 := by
    rintro rfl
    exact absurd hsize (Nat.not_lt_zero _)
  have hroom : (size - 1#32).toNat = size.toNat - 1 := by bv_omega
  have hstart : Printed mem (size - 1#32) [] ⟨mem, 0, size - 1#32⟩ := ⟨rfl, rfl, fun _ => rfl⟩
  obtain ⟨fuel, context', hending, hend, hprinted⟩ := h.vfnprintf_eq hstart (by
    rw [hroom, List.length_nil]
    lia)
  have hstr := hprinted.str
  rw [List.nil_append, List.length_map] at hstr
  refine ⟨fuel, _, ?_, hprinted.update 0⟩
  rw [vsnprintf, if_neg hne]
  dsimp only
  rw [hending]
  dsimp only
  rw [if_pos rfl, hend, hstr]

/-- The buffer's bytes. -/
def bufferBytes (mem : Nat → UInt8) (size : BitVec 32) : Bytes := (List.range size.toNat).map mem

/-- A buffer that holds a text starts with it. -/
theorem bufferBytes_eq {mem mem' : Nat → UInt8} {size : BitVec 32}
    (hmem : ∀ i, mem' i = (text ++ [0])[i]?.getD (mem i)) (hsize : text.length < size.toNat) :
    ∃ rest, bufferBytes mem' size = text ++ 0 :: rest := by
  refine ⟨(bufferBytes mem' size).drop (text.length + 1), ?_⟩
  have htake : (bufferBytes mem' size).take (text.length + 1) = text ++ [0] := by
    apply List.ext_getElem?
    intro i
    rw [List.getElem?_take]
    split
    · rename_i hi
      rw [bufferBytes, List.getElem?_map, List.getElem?_range (by omega), Option.map_some, hmem,
        List.getElem?_eq_getElem (by rwa [List.length_append, List.length_singleton])]
      rfl
    · rename_i hi
      rw [List.getElem?_eq_none]
      rw [List.length_append, List.length_singleton]
      omega
  rw [List.append_cons, ← htake, List.take_append_drop]

/-! ## The text of a number -/

/-- A string without widths is put out as it is. -/
theorem copyString_eq (flags : Flags) (htext : ∀ c ∈ text, c ≠ 0) (hlen : text.length < 2 ^ 31) :
    copyString flags 0 0 text = text.map charInt := by
  have hall : text.takeWhile (· ≠ 0) = text :=
    List.takeWhile_eq_self_iff.mpr fun c hc => decide_eq_true (htext c hc)
  have hvlen : (BitVec.ofNat 32 text.length).toInt = text.length := by
    have hto : (BitVec.ofNat 32 text.length).toNat = text.length := by
      rw [BitVec.toNat_ofNat, Nat.mod_eq_of_lt]
      lia
    rw [BitVec.toInt_eq_toNat_of_lt (by lia), hto]
  have hpadding : ((0 : Int) - text.length).toNat = 0 := by lia
  have hprecision : (max (text.length : Int) 0).toNat = text.length := by lia
  simp only [copyString, strlen, hall, hvlen]
  norm_num [hpadding, hprecision]

/-- The digits of a number are read as they are written. -/
theorem digitValue_digitText {k : Nat} (hbase : base = 10#32 ∨ base = 16#32)
    (hk : k < base.toNat) :
    digitText false k ≠ 0 ∧ digitValue base (digitText false k) = some (BitVec.ofNat 32 k) := by
  have hten : ∀ k < 10, digitText false k ≠ 0 ∧
      digitValue 10#32 (digitText false k) = some (BitVec.ofNat 32 k) := by decide
  have hsixteen : ∀ k < 16, digitText false k ≠ 0 ∧
      digitValue 16#32 (digitText false k) = some (BitVec.ofNat 32 k) := by decide
  rcases hbase with rfl | rfl
  · exact hten k hk
  · exact hsixteen k hk

/-- **The digits before the point spell the number.** -/
theorem spells_wholeText (hbase : base = 10#32 ∨ base = 16#32) (v : Nat) :
    ∃ ds, Spells base (wholeText false base.toNat v) ds ∧ numeral base.toNat 0 ds = v := by
  have hlt : base.toNat < 2 ^ 31 ∧ 1 < base.toNat := by rcases hbase with rfl | rfl <;> decide
  rw [wholeText]
  split
  · rename_i hzero
    have hdigit := digitValue_digitText hbase (show 0 < base.toNat by omega)
    refine ⟨[0], .cons ⟨hdigit.1, by decide, hdigit.2⟩ .nil, ?_⟩
    rw [hzero, numeral]
    exact Nat.zero_mul _
  · refine ⟨(Nat.digits base.toNat v).reverse, ?_, numeral_digits _ v⟩
    rw [Spells, List.forall₂_map_left_iff, List.forall₂_same]
    intro k hk
    have hdigit := Nat.digits_lt_base hlt.2 (List.mem_reverse.mp hk)
    have hvalue := digitValue_digitText hbase hdigit
    exact ⟨hvalue.1, hdigit.trans hlt.1, hvalue.2⟩

theorem wholeText_ne_nil (upper : Bool) (base v : Nat) : wholeText upper base v ≠ [] := by
  apply List.ne_nil_of_length_pos
  rw [length_wholeText]
  omega

/-- A number of 64 bits, without fraction. -/
theorem output_number {n : Number} (flags : Flags) (h : n.Proper)
    (hbase : n.base = 10#32 ∨ n.base = 16#32) :
    (Directive.number flags 0 0 false n).output =
      (signText n ++ wholeText false n.base.toNat n.v.toNat).map charInt := by
  obtain ⟨-, fraction, hfraction, htext⟩ := text_write false h 0
  obtain ⟨ds, hspells, -⟩ := spells_wholeText hbase n.v.toNat
  have hnil : fraction = [] := List.eq_nil_of_length_eq_zero hfraction
  rw [hnil, Nat.zero_min, Nat.pow_zero, Nat.div_one, List.append_nil] at htext
  have hdigits := (Nat.digits_length_le_iff (k := 64) h.isBase.one_lt n.v.toNat).mpr
    (n.v.isLt.trans_le (Nat.pow_le_pow_left h.isBase.one_lt 64))
  rw [Directive.output, htext]
  refine copyString_eq flags ?_ ?_
  · intro c hc
    rcases List.mem_append.mp hc with hc | hc
    · rw [signText] at hc
      split at hc
      · rename_i hsign
        rwa [List.mem_singleton.mp hc]
      · exact absurd hc List.not_mem_nil
    · exact hspells.ne_zero c hc
  · have hsign : (signText n).length ≤ 1 := by
      rw [signText]
      split
      · exact le_rfl
      · exact Nat.zero_le 1
    rw [List.length_append, length_wholeText]
    omega

/-! ## The formats -/

/-- `case 'd'` of a number of 32 bits: its absolute value. -/
theorem signed_int (v : BitVec 32) (left padzero : Bool) :
    ∃ m : BitVec 64, m.toNat = (if v.toInt < 0 then -v else v).toNat ∧
      signed ⟨left, padzero, false, false⟩ (v.setWidth 64) =
        ⟨if v.toInt < 0 then '-'.toUInt8 else 0, 10#32, m⟩ := by
  have hint : (v.setWidth 64).setWidth 32 = v := by
    rw [BitVec.setWidth_setWidth_of_le _ (by decide), BitVec.setWidth_eq]
  have hwide : (v.setWidth 64).toNat = v.toNat := by
    rw [BitVec.toNat_setWidth, Nat.mod_eq_of_lt]
    exact v.isLt.trans (by decide)
  rw [signed]
  dsimp only
  rw [if_neg Bool.false_ne_true, hint]
  by_cases hneg : v.toInt < 0
  · rw [if_pos hneg, if_pos hneg, if_pos hneg]
    have hlow : 2 ^ 31 ≤ v.toNat := by
      rw [BitVec.toInt_eq_toNat_cond] at hneg
      have hlt := v.isLt
      split at hneg <;> lia
    by_cases hmin : v.setWidth 64 = 1#64 <<< 31
    · refine ⟨v.setWidth 64, ?_, by rw [if_neg (not_not.mpr hmin)]⟩
      have hv : v.toNat = 2 ^ 31 := by
        rw [← hwide, hmin]
        rfl
      rw [hwide, BitVec.toNat_neg, hv]
      rfl
    · refine ⟨(-v).signExtend 64, ?_, by rw [if_pos hmin]⟩
      have hne : v.toNat ≠ 2 ^ 31 := fun hv => hmin (BitVec.eq_of_toNat_eq (hwide.trans hv))
      have hto : (-v).toNat = 2 ^ 32 - v.toNat := by
        rw [BitVec.toNat_neg, Nat.mod_eq_of_lt]
        lia
      have hmsb : (-v).msb = false := by
        rw [BitVec.msb_eq_decide, hto]
        exact decide_eq_false (by lia)
      rw [BitVec.signExtend_eq_setWidth_of_msb_false hmsb, BitVec.toNat_setWidth,
        Nat.mod_eq_of_lt ((-v).isLt.trans (by decide))]
  · rw [if_neg hneg, if_neg hneg, if_neg hneg]
    exact ⟨v.setWidth 64, hwide, rfl⟩

/-- `switch (c)` of a number that is no `i`. -/
theorem convert_of_ne {c : UInt8} (config : Config) (flags : Flags) (v : BitVec 64)
    (hc : c ≠ 'i'.toUInt8) : convert config c flags v = convert ⟨false, false⟩ c flags v := by
  have hlegacy : ¬ (config.printfLegacyLiFormat = true ∧ c = 'i'.toUInt8) := fun h => hc h.2
  have hoff : ¬ (false = true ∧ c = 'i'.toUInt8) := fun h => Bool.false_ne_true h.1
  rw [convert, if_neg hlegacy, convert, if_neg hoff]

/-- The flags of a directive without any. -/
def noFlags (is64bit : Bool) : Flags := ⟨false, false, false, is64bit⟩

/-- A conversion without flags. -/
theorem scan_int {c : UInt8} {n : Number} (hc : c = 'd'.toUInt8 ∨ c = 'x'.toUInt8) (args : α)
    (h : convert config c (noFlags false) ((va.uint32 args).1.setWidth 64) = some n) :
    scan config va '%'.toUInt8 [c, 0] args =
      some (.number (noFlags false) 0 0 false n, [0], (va.uint32 args).2) := by
  have hscan : scan config va '%'.toUInt8 [c, 0] args =
      scanNumber config va (noFlags false) 0 0 c [0] args := by
    rcases hc with rfl | rfl <;> rfl
  have hflag : scanFlag 'l'.toUInt8 c [0] = some (false, c, [0]) := by
    rcases hc with rfl | rfl <;> rfl
  have harg : numberArg config va (noFlags false) 0 c args =
      (noFlags false, 0, (va.uint32 args).1.setWidth 64, (va.uint32 args).2) := by
    rcases hc with rfl | rfl <;> rfl
  rw [hscan, scanNumber, hflag]
  dsimp only [Option.bind_eq_bind, Option.bind_some, noFlags] at harg h ⊢
  rw [harg]
  dsimp only
  rw [h]
  rcases hc with rfl | rfl <;> rfl

/-- A conversion with `l`. -/
theorem scan_long {c : UInt8} {n : Number} (hc : c = 'u'.toUInt8 ∨ c = 'x'.toUInt8) (args : α)
    (h : convert config c (noFlags true) (va.uint64 args).1 = some n) :
    scan config va '%'.toUInt8 ['l'.toUInt8, c, 0] args =
      some (.number (noFlags true) 0 0 false n, [0], (va.uint64 args).2) := by
  have hscan : scan config va '%'.toUInt8 ['l'.toUInt8, c, 0] args =
      scanNumber config va (noFlags false) 0 0 'l'.toUInt8 [c, 0] args := rfl
  have hflag : scanFlag 'l'.toUInt8 'l'.toUInt8 [c, 0] = some (true, c, [0]) := rfl
  have harg : numberArg config va (noFlags true) 0 c args =
      (noFlags true, 0, (va.uint64 args).1, (va.uint64 args).2) := by
    rcases hc with rfl | rfl <;> rfl
  rw [hscan, scanNumber, hflag]
  dsimp only [Option.bind_eq_bind, Option.bind_some, noFlags] at harg h ⊢
  rw [harg]
  dsimp only
  rw [h]
  rcases hc with rfl | rfl <;> rfl

/-- A number at the end of a format. -/
theorem Prints.number {n : Number} {flags : Flags} {args' : α}
    (hscan : scan config va '%'.toUInt8 s args =
      some (.number flags 0 0 false n, [0], args')) (hn : n.Proper)
    (hbase : n.base = 10#32 ∨ n.base = 16#32) :
    Prints config va ('%'.toUInt8 :: s) args
      ((signText n ++ wholeText false n.base.toNat n.v.toNat).map charInt) := by
  rw [← output_number flags hn hbase]
  have hstep := Prints.step (by decide) hscan (.done [] args')
  rwa [List.append_nil] at hstep

/-- A character of the format. -/
theorem Prints.plain {c : UInt8} (hc : c ≠ 0) (hpercent : c ≠ '%'.toUInt8)
    (h : Prints config va s args (text.map charInt)) :
    Prints config va (c :: s) args ((c :: text).map charInt) :=
  .step hc (if_pos hpercent) h

/-- The text that `snprintf` makes of a format is read as `v`, up to its end, from every buffer that
is large enough for it. -/
def ReadsBack {w : Nat} (config : Config) (va : VaList α) (format : Bytes) (args : α)
    (read : Bytes → Option (BitVec w × Bytes)) (v : BitVec w) : Prop :=
  ∃ text : Bytes, ∀ (mem : Nat → UInt8) (size : BitVec 32), text.length < size.toNat →
    ∃ fuel mem',
      vsnprintf config va fuel mem size format args = some (UInt32.ofNat text.length, mem') ∧
      (∀ i, mem' i = (text ++ [0])[i]?.getD (mem i)) ∧
      read (bufferBytes mem' size) = some (v, (bufferBytes mem' size).drop text.length)

theorem readsBack_of_prints {w : Nat} {read : Bytes → Option (BitVec w × Bytes)} {v : BitVec w}
    (h : Prints config va s args (text.map charInt))
    (hread : ∀ rest, read (text ++ 0 :: rest) = some (v, 0 :: rest)) :
    ReadsBack config va s args read v := by
  have hchars : (text.map charInt).map toChar = text := by
    rw [List.map_map]
    exact (List.map_congr_left fun c _ => toChar_charInt c).trans (List.map_id text)
  refine ⟨text, fun mem size hsize => ?_⟩
  obtain ⟨fuel, mem', hrun, hmem⟩ := h.vsnprintf_eq mem (by rwa [List.length_map])
  rw [hchars] at hmem
  rw [List.length_map] at hrun
  obtain ⟨rest, hbuffer⟩ := bufferBytes_eq hmem hsize
  refine ⟨fuel, mem', hrun, hmem, ?_⟩
  rw [hbuffer, hread, List.drop_left]

/-- A numeral behind some characters is read as a function of its value. -/
theorem readsBack_of_numeral {w : Nat} (read : Bytes → Option (BitVec w × Bytes))
    (g : Nat → BitVec w) (front : Bytes) {base : BitVec 32} {m : Nat}
    (hbase : base = 10#32 ∨ base = 16#32)
    (h : Prints config va s args ((front ++ wholeText false base.toNat m).map charInt))
    (hread : ∀ {c text ds}, Spells base (c :: text) ds → ∀ rest,
      read (front ++ c :: text ++ 0 :: rest) = some (g (numeral base.toNat 0 ds), 0 :: rest)) :
    ReadsBack config va s args read (g m) := by
  obtain ⟨ds, hspells, hvalue⟩ := spells_wholeText hbase m
  obtain ⟨c, text, htext⟩ := List.exists_cons_of_ne_nil (wholeText_ne_nil false base.toNat m)
  refine readsBack_of_prints h fun rest => ?_
  rw [htext] at hspells ⊢
  rw [hread hspells rest, hvalue]

/-- `"%d"` and `strtoi`. -/
theorem readsBack_int (config : Config) (va : VaList α) (args : α) :
    ReadsBack config va ['%'.toUInt8, 'd'.toUInt8, 0] args (strtoi · 0#32) (va.uint32 args).1 := by
  obtain ⟨v, hv⟩ : ∃ v, (va.uint32 args).1 = v := ⟨_, rfl⟩
  obtain ⟨m, hm, hsigned⟩ := signed_int v false false
  have hconvert : convert config 'd'.toUInt8 (noFlags false) ((va.uint32 args).1.setWidth 64) =
      some ⟨if v.toInt < 0 then '-'.toUInt8 else 0, 10#32, m⟩ := by
    rw [convert_of_ne config _ _ (by decide), hv, ← hsigned]
    rfl
  have hprints := Prints.number (scan_int (.inl rfl) args hconvert) (proper_of_convert hconvert)
    (.inl rfl)
  have hmv : BitVec.ofNat 32 m.toNat = if v.toInt < 0 then -v else v := by
    rw [hm, BitVec.ofNat_toNat, BitVec.setWidth_eq]
  rw [signText] at hprints
  dsimp only at hprints
  rw [hv]
  by_cases hneg : v.toInt < 0
  · rw [if_pos hneg] at hmv hprints
    rw [if_pos (by decide)] at hprints
    have hback := readsBack_of_numeral (strtoi · 0#32) (fun k => -BitVec.ofNat 32 k)
      ['-'.toUInt8] (.inl rfl) hprints strtoi_negative
    rwa [hmv, BitVec.neg_neg] at hback
  · rw [if_neg hneg] at hmv hprints
    rw [if_neg (not_not.mpr rfl)] at hprints
    have hback := readsBack_of_numeral (strtoi · 0#32) (BitVec.ofNat 32) [] (.inl rfl) hprints
      strtoi_decimal
    rwa [hmv] at hback

/-- `"0x%x"` and `strtoi`. -/
theorem readsBack_hex (config : Config) (va : VaList α) (args : α) (base : BitVec 32) :
    ReadsBack config va ['0'.toUInt8, 'x'.toUInt8, '%'.toUInt8, 'x'.toUInt8, 0] args
      (strtoi · base) (va.uint32 args).1 := by
  obtain ⟨v, hv⟩ : ∃ v, (va.uint32 args).1 = v := ⟨_, rfl⟩
  have hwide : (v.setWidth 64).toNat = v.toNat := by
    rw [BitVec.toNat_setWidth, Nat.mod_eq_of_lt]
    exact v.isLt.trans (by decide)
  have hconvert : convert config 'x'.toUInt8 (noFlags false) ((va.uint32 args).1.setWidth 64) =
      some ⟨0, 16#32, v.setWidth 64⟩ := by
    rw [convert_of_ne config _ _ (by decide), hv]
    rfl
  have hprints := ((Prints.number (scan_int (.inr rfl) args hconvert) (proper_of_convert hconvert)
    (.inr rfl)).plain (c := 'x'.toUInt8) (by decide) (by decide)).plain (c := '0'.toUInt8)
      (by decide) (by decide)
  have hback := readsBack_of_numeral (strtoi · base) (BitVec.ofNat 32) ['0'.toUInt8, 'x'.toUInt8]
    (.inr rfl) hprints fun h rest => strtoi_hexadecimal h rest base
  rwa [hwide, BitVec.ofNat_toNat, BitVec.setWidth_eq, ← hv] at hback

/-- `"%lu"` and `strtoul`. -/
theorem readsBack_long (config : Config) (va : VaList α) (args : α)
    (hbase : base = 0#32 ∨ base = 10#32) :
    ReadsBack config va ['%'.toUInt8, 'l'.toUInt8, 'u'.toUInt8, 0] args (strtoul · base)
      (va.uint64 args).1 := by
  obtain ⟨v, hv⟩ : ∃ v, (va.uint64 args).1 = v := ⟨_, rfl⟩
  have hconvert : convert config 'u'.toUInt8 (noFlags true) (va.uint64 args).1 =
      some ⟨0, 10#32, v⟩ := by
    rw [convert_of_ne config _ _ (by decide), hv]
    rfl
  have hprints := Prints.number (scan_long (.inl rfl) args hconvert) (proper_of_convert hconvert)
    (.inl rfl)
  have hback := readsBack_of_numeral (strtoul · base) (BitVec.ofNat 64) [] (.inl rfl) hprints
    fun h rest => strtoul_decimal h rest hbase
  rwa [BitVec.ofNat_toNat, BitVec.setWidth_eq, ← hv] at hback

/-- `"0x%lx"` and `strtoul`. -/
theorem readsBack_longHex (config : Config) (va : VaList α) (args : α) (base : BitVec 32) :
    ReadsBack config va ['0'.toUInt8, 'x'.toUInt8, '%'.toUInt8, 'l'.toUInt8, 'x'.toUInt8, 0] args
      (strtoul · base) (va.uint64 args).1 := by
  obtain ⟨v, hv⟩ : ∃ v, (va.uint64 args).1 = v := ⟨_, rfl⟩
  have hconvert : convert config 'x'.toUInt8 (noFlags true) (va.uint64 args).1 =
      some ⟨0, 16#32, v⟩ := by
    rw [convert_of_ne config _ _ (by decide), hv]
    rfl
  have hprints := ((Prints.number (scan_long (.inr rfl) args hconvert) (proper_of_convert hconvert)
    (.inr rfl)).plain (c := 'x'.toUInt8) (by decide) (by decide)).plain (c := '0'.toUInt8)
      (by decide) (by decide)
  have hback := readsBack_of_numeral (strtoul · base) (BitVec.ofNat 64) ['0'.toUInt8, 'x'.toUInt8]
    (.inr rfl) hprints fun h rest => strtoul_hexadecimal h rest base
  rwa [BitVec.ofNat_toNat, BitVec.setWidth_eq, ← hv] at hback

/-- **Printed integers read back.**  Whatever the argument is, `strtoi` reads it from `%d` and
`0x%x`, and `strtoul` reads it from `%lu`, in base 0 or 10, and from `0x%lx`. -/
theorem printed_reads_back (config : Config) (va : VaList α) (args : α) :
    ReadsBack config va ['%'.toUInt8, 'd'.toUInt8, 0] args (strtoi · 0#32) (va.uint32 args).1 ∧
      ReadsBack config va ['0'.toUInt8, 'x'.toUInt8, '%'.toUInt8, 'x'.toUInt8, 0] args
        (strtoi · 0#32) (va.uint32 args).1 ∧
      ReadsBack config va ['%'.toUInt8, 'l'.toUInt8, 'u'.toUInt8, 0] args
        (strtoul · 0#32) (va.uint64 args).1 ∧
      ReadsBack config va ['%'.toUInt8, 'l'.toUInt8, 'u'.toUInt8, 0] args
        (strtoul · 10#32) (va.uint64 args).1 ∧
      ∀ base, ReadsBack config va
        ['0'.toUInt8, 'x'.toUInt8, '%'.toUInt8, 'l'.toUInt8, 'x'.toUInt8, 0] args
          (strtoul · base) (va.uint64 args).1 :=
  ⟨readsBack_int config va args, readsBack_hex config va args 0#32,
    readsBack_long config va args (.inl rfl), readsBack_long config va args (.inr rfl),
    fun base => readsBack_longHex config va args base⟩

end Printf
end CrosEc
