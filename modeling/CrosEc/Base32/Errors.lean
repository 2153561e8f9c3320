import CrosEc.Base32.RoundTrip
import CrosEc.Lib.CheckSymbol

/-!
# `common/base32.c`: typing errors

The CRC of a group is a check symbol in the sense of `Lib.CheckSymbol`: a step is linear in the
exclusive or of the symbol and the CRC before it, and no symbol but zero is mapped to itself or
to zero.  A decoder that reports no error has found every check symbol right
(`accepts_of_decodeLoop`), so of two texts that differ by one typing error it rejects one.
-/

namespace CrosEc
namespace Base32

open Lib

/-! ## The recurrence -/

theorem crc5Sym_of_xor (x y : Nat) : crc5Sym (x ^^^ y) 0 = crc5Sym x y := by
  rw [crc5Sym, Nat.xor_zero]
  rfl

/-- **A step is linear.** -/
theorem crc5Sym_eq_xor {x y : Nat} (hx : x < 32) (hy : y < 32) :
    crc5Sym x y = crc5Sym x 0 ^^^ crc5Sym y 0 := by
  have htable : ∀ x < 32, ∀ y < 32, crc5Sym x y = crc5Sym x 0 ^^^ crc5Sym y 0 := by
    decide +kernel
  exact htable x hx y hy

theorem crc5Sym_xor {x y : Nat} (hx : x < 32) (hy : y < 32) :
    crc5Sym (x ^^^ y) 0 = crc5Sym x 0 ^^^ crc5Sym y 0 := by
  rw [crc5Sym_of_xor, crc5Sym_eq_xor hx hy]

theorem eq_zero_of_crc5Sym_eq_zero {x : Nat} (hx : x < 32) (h : crc5Sym x 0 = 0) : x = 0 := by
  revert x
  decide

theorem eq_zero_of_crc5Sym_eq_self {x : Nat} (hx : x < 32) (h : crc5Sym x 0 = x) : x = 0 := by
  revert x
  decide

theorem xor_lt {x y : Nat} (hx : x < 32) (hy : y < 32) : x ^^^ y < 32 :=
  Nat.xor_lt_two_pow (n := 5) hx hy

theorem crc5Sym_injective {x y : Nat} (hx : x < 32) (hy : y < 32)
    (h : crc5Sym x 0 = crc5Sym y 0) : x = y := by
  have hzero : crc5Sym (x ^^^ y) 0 = 0 := by
    rw [crc5Sym_xor hx hy, h, Nat.xor_self]
  exact Nat.xor_eq_zero_iff.mp (eq_zero_of_crc5Sym_eq_zero (xor_lt hx hy) hzero)

/-- Two symbols are equal if their images differ as they do themselves. -/
theorem eq_of_crc5Sym_xor {x y : Nat} (hx : x < 32) (hy : y < 32)
    (h : crc5Sym x 0 ^^^ crc5Sym y 0 = x ^^^ y) : x = y := by
  have hself : crc5Sym (x ^^^ y) 0 = x ^^^ y := by
    rw [crc5Sym_xor hx hy, h]
  exact Nat.xor_eq_zero_iff.mp (eq_zero_of_crc5Sym_eq_self (xor_lt hx hy) hself)

/-- What two sums have in common cancels. -/
theorem xor_eq_of_xor_eq {u v x y c : Nat} (h : v ^^^ (x ^^^ c) = u ^^^ (y ^^^ c)) :
    x ^^^ y = u ^^^ v := by
  apply Nat.eq_of_testBit_eq
  intro i
  have hbit := congrArg (fun m => m.testBit i) h
  simp only [Nat.testBit_xor] at hbit ⊢
  revert hbit
  cases u.testBit i <;> cases v.testBit i <;> cases x.testBit i <;> cases y.testBit i <;>
    cases c.testBit i <;> decide

/-- The CRC of a group. -/
def crc5 : CheckSymbol (Fin 32) where
  start := 0
  step := fun crc sym => ⟨crc5Sym sym crc, crc5Sym_lt sym crc⟩
  step_injective := by
    intro crc a b h
    have hsum : crc5Sym a crc = crc5Sym b crc := Fin.mk.inj h
    rw [crc5Sym_eq_xor a.isLt crc.isLt, crc5Sym_eq_xor b.isLt crc.isLt] at hsum
    exact Fin.ext (crc5Sym_injective a.isLt b.isLt (Nat.xor_left_inj.mp hsum))
  step_left_injective := by
    intro sym crc crc' h
    have hsum : crc5Sym sym crc = crc5Sym sym crc' := Fin.mk.inj h
    rw [crc5Sym_eq_xor sym.isLt crc.isLt, crc5Sym_eq_xor sym.isLt crc'.isLt] at hsum
    exact Fin.ext (crc5Sym_injective crc.isLt crc'.isLt (Nat.xor_right_inj.mp hsum))
  eq_of_step_comm := by
    intro crc a b h
    have hsum : crc5Sym b (crc5Sym a crc) = crc5Sym a (crc5Sym b crc) := Fin.mk.inj h
    rw [crc5Sym_eq_xor b.isLt (crc5Sym_lt _ _), crc5Sym_eq_xor a.isLt (crc5Sym_lt _ _),
      crc5Sym_eq_xor a.isLt crc.isLt, crc5Sym_eq_xor b.isLt crc.isLt,
      crc5Sym_xor (crc5Sym_lt _ _) (crc5Sym_lt _ _),
      crc5Sym_xor (crc5Sym_lt _ _) (crc5Sym_lt _ _)] at hsum
    have himages : crc5Sym a 0 = crc5Sym b 0 :=
      eq_of_crc5Sym_xor (crc5Sym_lt _ _) (crc5Sym_lt _ _) (xor_eq_of_xor_eq hsum)
    exact Fin.ext (crc5Sym_injective a.isLt b.isLt himages)
  eq_of_step_check := by
    intro crc a b hb ha
    have hb' : (b : Nat) = crc5Sym a crc := congrArg Fin.val hb
    have ha' : (a : Nat) = crc5Sym b crc := congrArg Fin.val ha
    rw [crc5Sym_eq_xor a.isLt crc.isLt] at hb'
    rw [crc5Sym_eq_xor b.isLt crc.isLt] at ha'
    have hsum : (a : Nat) ^^^ (crc5Sym a 0 ^^^ crc5Sym crc 0) =
        b ^^^ (crc5Sym b 0 ^^^ crc5Sym crc 0) := by
      rw [← hb', ← ha', Nat.xor_comm]
    exact Fin.ext (eq_of_crc5Sym_xor a.isLt b.isLt
      ((xor_eq_of_xor_eq hsum).trans (Nat.xor_comm _ _)))

/-! ## What the decoder accepts -/

/-- The character of a symbol. -/
def symChar (sym : Fin 32) : Char := base32Char sym

theorem symChar_injective : Function.Injective symChar := by
  intro a b h
  have hdecode := decodeSym_base32Char a.isLt
  rw [show base32Char a = base32Char b from h, decodeSym_base32Char b.isLt] at hdecode
  exact Fin.ext (Option.some.inj hdecode).symm

/-- A character that decodes is that of a symbol. -/
theorem exists_symChar {c : Char} {sym : Nat} (h : decodeSym c = some sym) :
    ∃ x : Fin 32, symChar x = c ∧ (x : Nat) = sym := by
  obtain ⟨hlt, heq, -⟩ := List.findIdx?_eq_some_iff_getElem.mp h
  refine ⟨⟨sym, hlt⟩, ?_, rfl⟩
  rw [symChar, base32Char, List.getD_eq_getElem _ _ hlt]
  exact of_decide_eq_true heq

/-- **The end of a decoding.**  A text without separators that is decoded to its end, and ends
with a complete group, has the right check symbols. -/
theorem accepts_of_decodeLoop {destlenBits every : Nat} (hevery : every ≠ 0) {chars : List Char}
    (hplain : ∀ c ∈ chars, isSeparator c = false) {s s' : DecodeState} {crc : Fin 32}
    (hcrc : s.crc = crc) (h : decodeLoop destlenBits every chars s = .ok s')
    (hdone : s'.crcCount = 0) :
    ∃ syms : List (Fin 32), syms.map symChar = chars ∧
      crc5.Accepts every crc s.crcCount syms := by
  induction chars generalizing s crc with
  | nil =>
      rw [decodeLoop, Except.ok.injEq] at h
      exact ⟨[], rfl, h ▸ hdone⟩
  | cons c chars ih =>
      have hskip : ¬(isspace c || c = '-') = true := by
        have hc := hplain c List.mem_cons_self
        rwa [isSeparator, ← Bool.not_eq_true] at hc
      have hrest : ∀ c ∈ chars, isSeparator c = false := fun c hc =>
        hplain c (List.mem_cons_of_mem _ hc)
      rw [decodeLoop, if_neg hskip] at h
      split at h
      · cases h
      · rename_i sym hdecode
        obtain ⟨x, rfl, rfl⟩ := exists_symChar hdecode
        by_cases hfull : s.crcCount = every
        · rw [if_pos ⟨hevery, hfull⟩] at h
          split at h
          · cases h
          · rename_i heq
            obtain ⟨syms, rfl, haccepts⟩ := ih hrest
              (rfl : _ = ((crc5.start : Fin 32) : Nat)) h
            refine ⟨x :: syms, rfl, ?_⟩
            unfold CheckSymbol.Accepts
            rw [if_pos hfull]
            exact ⟨Fin.ext (by rw [← hcrc]; exact (not_not.mp heq).symm), haccepts⟩
        · rw [if_neg fun hcheck => hfull hcheck.2] at h
          simp only [ne_eq, hevery, not_false_eq_true, if_true] at h
          split at h
          · -- out of space, inside a group
            rw [Except.ok.injEq] at h
            rw [← h] at hdone
            cases hdone
          · obtain ⟨hnext, hcount⟩ := storeSym_crc destlenBits x
              { s with crc := crc5Sym x s.crc, crcCount := s.crcCount + 1 }
            obtain ⟨syms, rfl, haccepts⟩ := ih hrest
              (by rw [hnext, hcrc]; rfl : _ = ((crc5.step crc x : Fin 32) : Nat)) h
            refine ⟨x :: syms, rfl, ?_⟩
            unfold CheckSymbol.Accepts
            rw [if_neg hfull]
            rwa [hcount] at haccepts

/-! ## Typing errors -/

/-- One error in a typed string with a CRC symbol after `every` symbols: another symbol instead of
one, or two different neighbours of a group in the wrong order. -/
inductive TypingError (every : Nat) : List Char → List Char → Prop
  | replace (pre post : List Char) (a b : Char) (hb : b ∈ base32Map) (hne : a ≠ b) :
      TypingError every (pre ++ a :: post) (pre ++ b :: post)
  | exchange (pre post : List Char) (a b : Char) (hne : a ≠ b)
      (hgroup : pre.length / (every + 1) = (pre.length + 1) / (every + 1)) :
      TypingError every (pre ++ a :: b :: post) (pre ++ b :: a :: post)

/-- The first one of two neighbours in one group is not the check symbol. -/
theorem mod_ne_of_div_eq {k every : Nat} (h : k / (every + 1) = (k + 1) / (every + 1)) :
    k % (every + 1) ≠ every := by
  intro hlast
  have hdvd : every + 1 ∣ k + 1 := by
    have hsplit := Nat.div_add_mod k (every + 1)
    rw [hlast] at hsplit
    exact ⟨k / (every + 1) + 1, by rw [Nat.mul_succ]; omega⟩
  rw [Nat.succ_div_of_dvd hdvd] at h
  omega

/-- The symbols around a character of a string. -/
theorem split_symbols {syms : List (Fin 32)} {pre post : List Char} {c : Char}
    (h : syms.map symChar = pre ++ c :: post) :
    ∃ (before : List (Fin 32)) (x : Fin 32) (behind : List (Fin 32)),
      syms = before ++ x :: behind ∧ before.map symChar = pre ∧ symChar x = c ∧
        behind.map symChar = post := by
  obtain ⟨before, rest, hsyms, hbefore, hrest⟩ := List.map_eq_append_iff.mp h
  obtain ⟨x, behind, rfl, hx, hbehind⟩ := List.map_eq_cons_iff.mp hrest
  exact ⟨before, x, behind, hsyms, hbefore, hx, hbehind⟩

/-- Of two strings that differ by a typing error, the check symbols are right in one only. -/
theorem TypingError.not_accepts {every : Nat} {syms syms' : List (Fin 32)}
    (herror : TypingError every (syms.map symChar) (syms'.map symChar))
    (haccepts : crc5.Accepts every 0 0 syms) : ¬crc5.Accepts every 0 0 syms' := by
  intro haccepts'
  generalize hchars : syms.map symChar = chars at herror
  generalize hchars' : syms'.map symChar = chars' at herror
  cases herror with
  | replace pre post a b hb hne =>
      obtain ⟨before, x, behind, rfl, hbefore, rfl, hbehind⟩ := split_symbols hchars
      obtain ⟨before', y, behind', rfl, hbefore', rfl, hbehind'⟩ := split_symbols hchars'
      obtain rfl := symChar_injective.list_map (hbefore.trans hbefore'.symm)
      obtain rfl := symChar_injective.list_map (hbehind.trans hbehind'.symm)
      exact hne (congrArg symChar (haccepts.eq_of_replace haccepts'))
  | exchange pre post a b hne hgroup =>
      obtain ⟨before, x, rest, rfl, hbefore, rfl, hrest⟩ := split_symbols hchars
      obtain ⟨y, behind, rfl, rfl, hbehind⟩ := List.map_eq_cons_iff.mp hrest
      obtain ⟨before', y', rest', rfl, hbefore', hy, hrest'⟩ := split_symbols hchars'
      obtain ⟨x', behind', rfl, hx, hbehind'⟩ := List.map_eq_cons_iff.mp hrest'
      obtain rfl := symChar_injective.list_map (hbefore.trans hbefore'.symm)
      obtain rfl := symChar_injective.list_map (hbehind.trans hbehind'.symm)
      obtain rfl := symChar_injective hy
      obtain rfl := symChar_injective hx
      rw [← hbefore, List.length_map] at hgroup
      have hfirst : (0 + before.length) % (every + 1) ≠ every := by
        rw [Nat.zero_add]
        exact mod_ne_of_div_eq hgroup
      exact hne (congrArg symChar (haccepts.eq_of_exchange (Nat.zero_le _) hfirst haccepts'))

/-- A decoding without an error ends with the right check symbols. -/
theorem accepts_of_base32Decode {destlenBits every : Nat} (hevery : every ≠ 0) {chars : List Char}
    (hplain : ∀ c ∈ chars, isSeparator c = false) {dest : Nat → UInt8}
    (h : (base32Decode dest destlenBits chars every).1 ≠ -1) :
    ∃ syms : List (Fin 32), syms.map symChar = chars ∧ crc5.Accepts every 0 0 syms := by
  unfold base32Decode at h
  split at h
  · exact absurd rfl h
  · rename_i s hloop
    by_cases hdone : s.crcCount = 0
    · exact accepts_of_decodeLoop hevery hplain (rfl : _ = ((0 : Fin 32) : Nat)) hloop hdone
    · rw [if_pos ⟨hevery, hdone⟩] at h
      exact absurd rfl h

theorem plain_encodeLoop (src : Nat → UInt8) (n every i crc crcCount : Nat) :
    ∀ c ∈ encodeLoop src n every i crc crcCount, isSeparator c = false := by
  fun_induction encodeLoop src n every i crc crcCount with
  | case1 i crc crcCount hi sym ihPlain ihFull ihPart =>
      intro c hc
      rcases List.mem_cons.mp hc with rfl | hc
      · exact isSeparator_base32Char (encodeSym_lt src n i)
      · split at hc
        · rename_i hevery
          exact ihPlain c hc
        · split at hc
          · rcases List.mem_cons.mp hc with rfl | hc
            · exact isSeparator_base32Char (crc5Sym_lt sym crc)
            · exact ihFull c hc
          · exact ihPart c hc
  | case2 => exact fun c hc => absurd hc List.not_mem_nil

/-- The check symbols of an encoded string are right: the decoder accepts it. -/
theorem accepts_base32Encode (destlenChars : Nat) (src : Nat → UInt8) (n : Nat) {every : Nat}
    (hevery : every ≠ 0) :
    (∀ c ∈ (base32Encode destlenChars src n every).2, isSeparator c = false) ∧
      ∃ syms : List (Fin 32), syms.map symChar = (base32Encode destlenChars src n every).2 ∧
        crc5.Accepts every 0 0 syms := by
  have hempty : ∃ syms : List (Fin 32), syms.map symChar = [] ∧ crc5.Accepts every 0 0 syms :=
    ⟨[], rfl, rfl⟩
  simp only [base32Encode]
  split
  · exact ⟨fun c hc => absurd hc List.not_mem_nil, hempty⟩
  · rename_i hgroups
    split
    · exact ⟨fun c hc => absurd hc List.not_mem_nil, hempty⟩
    · have hplain := plain_encodeLoop src n every 0 0 0
      have hexact : every ≠ 0 → (0 + (n - 0 + 4) / 5) % every = 0 := fun _ => by
        rw [Nat.zero_add, Nat.sub_zero]
        exact not_not.mp fun hne => hgroups ⟨hevery, hne⟩
      obtain ⟨s, hloop, -, -, hdone⟩ := decodeLoop_encodeLoop src n every 0 0 0 (fun _ => 0)
        (by simpa using Filled.zero _ (streamBit src)) (fun _ => Nat.pos_of_ne_zero hevery) hexact
      exact ⟨hplain, accepts_of_decodeLoop hevery hplain (rfl : _ = ((0 : Fin 32) : Nat)) hloop
        (hdone hevery)⟩

theorem isSeparator_of_mem {c : Char} (h : c ∈ base32Map) : isSeparator c = false := by
  obtain ⟨sym, hlt, rfl⟩ := List.getElem_of_mem h
  rw [← List.getD_eq_getElem base32Map '\x00' hlt]
  exact isSeparator_base32Char hlt

/-- A typing error puts no separators into a string. -/
theorem TypingError.plain {every : Nat} {w typed : List Char} (herror : TypingError every w typed)
    (hw : ∀ c ∈ w, isSeparator c = false) : ∀ c ∈ typed, isSeparator c = false := by
  cases herror with
  | replace pre post a b hb hne =>
      simp only [List.mem_append, List.mem_cons] at hw ⊢
      rintro c (hpre | rfl | hpost)
      · exact hw c (Or.inl hpre)
      · exact isSeparator_of_mem hb
      · exact hw c (Or.inr (Or.inr hpost))
  | exchange pre post a b hne hgroup =>
      simp only [List.mem_append, List.mem_cons] at hw ⊢
      rintro c (hpre | rfl | rfl | hpost)
      · exact hw c (Or.inl hpre)
      · exact hw c (Or.inr (Or.inr (Or.inl rfl)))
      · exact hw c (Or.inr (Or.inl rfl))
      · exact hw c (Or.inr (Or.inr (Or.inr hpost)))

/-- **The CRC catches typing errors.**  Another symbol instead of one of an encoded string, or two
different neighbours of a group in the wrong order, the CRC symbol among them: whatever separators
are put in, decoding returns -1, for a destination of any length. -/
theorem base32Decode_typingError (src : Nat → UInt8) (n every destlenChars : Nat)
    (hevery : every ≠ 0) (typed text : List Char)
    (herror : TypingError every (base32Encode destlenChars src n every).2 typed)
    (htext : text.filter (fun c => !isSeparator c) = typed) (dest : Nat → UInt8)
    (destlenBits : Nat) : (base32Decode dest destlenBits text every).1 = -1 := by
  obtain ⟨hplain, syms, hsyms, haccepts⟩ := accepts_base32Encode destlenChars src n hevery
  have hskip : base32Decode dest destlenBits text every =
      base32Decode dest destlenBits typed every := by
    rw [base32Decode, decodeLoop_filter, htext, base32Decode]
  by_contra hok
  rw [hskip] at hok
  obtain ⟨syms', hsyms', haccepts'⟩ := accepts_of_base32Decode hevery (herror.plain hplain) hok
  rw [← hsyms, ← hsyms'] at herror
  exact herror.not_accepts haccepts haccepts'

/-- The string of nine bits is "94T". -/
theorem base32Decode_typingError_replaced :
    (base32Decode (fun _ => 0xff) 9 " 9A-T".toList 2).1 = -1 := by
  have hencode : (base32Encode 4 (fun i => [0xfe].getD i 0xff) 9 2).2 = ['9'] ++ '4' :: ['T'] := by
    show encodeLoop _ 9 2 0 0 0 = _
    simp [encodeLoop]
    decide
  refine base32Decode_typingError (fun i => [0xfe].getD i 0xff) 9 2 4 (by decide)
    (['9'] ++ 'A' :: ['T']) " 9A-T".toList ?_ (by decide) (fun _ => 0xff) 9
  rw [hencode]
  exact .replace ['9'] ['T'] '4' 'A' (by decide) (by decide)

end Base32
end CrosEc
