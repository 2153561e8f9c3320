import CrosEc.Dcrypto.Masks

/-!
# PKCS#1 type 2

`check_pkcs1_type2_pad` accepts exactly the strings that `pkcs1_type2_pad` makes: a zero, a two,
at least eight random bytes that are not zero, a zero, and the message.
-/

namespace CrosEc
namespace Dcrypto

open Lib

/-! ## Random bytes that are not zero -/

theorem fillWord_spec (bs : Bytes) (psLen : Nat) :
    (fillWord bs psLen).1.length + (fillWord bs psLen).2 = psLen ∧
      ∀ b ∈ (fillWord bs psLen).1, b ≠ 0 := by
  fun_induction fillWord bs psLen with
  | case1 => simp
  | case2 => simp
  | case3 b bs psLen hb filled rest heq ih =>
      rw [heq] at ih
      refine ⟨?_, List.forall_mem_cons.mpr ⟨hb, ih.2⟩⟩
      have := ih.1
      dsimp only at this ⊢
      rw [List.length_cons]
      omega
  | case4 b bs psLen hb ih => exact ih

/-- Bytes that are not zero are all taken. -/
theorem fillWord_append {bs : Bytes} (hbs : ∀ b ∈ bs, b ≠ 0) (rest : Bytes) (psLen : Nat) :
    fillWord (bs ++ rest) (bs.length + psLen) =
      (bs ++ (fillWord rest psLen).1, (fillWord rest psLen).2) := by
  induction bs with
  | nil => rw [List.nil_append, List.length_nil, Nat.zero_add, List.nil_append]
  | cons b bs ih =>
      obtain ⟨hb, hbs⟩ := List.forall_mem_cons.mp hbs
      rw [List.cons_append, List.length_cons, Nat.add_right_comm, fillWord, if_pos hb, ih hbs]
      rfl

theorem type2Ps_spec (rng : Rng) (start psLen : Nat) :
    (type2Ps rng start psLen).length = psLen ∧ ∀ b ∈ type2Ps rng start psLen, b ≠ 0 := by
  fun_induction type2Ps rng start psLen with
  | case1 => simp
  | case2 start psLen hpos filled ih =>
      obtain ⟨hlen, hne⟩ := fillWord_spec (wordBytes (rng.word start)) psLen
      rw [List.length_append, List.forall_mem_append, ih.1]
      exact ⟨hlen, hne, ih.2⟩

/-- A word of which all bytes that are missing are taken. -/
theorem fillWord_readBytes {bs : Bytes} (hbs : ∀ b ∈ bs, b ≠ 0) :
    fillWord (readBytes 4 bs) bs.length = (bs.take 4, bs.length - 4) := by
  rcases le_total 4 bs.length with hle | hle
  · have htake : (bs.take 4).length = 4 := by rw [List.length_take, Nat.min_eq_left hle]
    have hne : ∀ b ∈ bs.take 4, b ≠ 0 := fun b hb => hbs b (List.mem_of_mem_take hb)
    have hfill := fillWord_append hne [] (bs.length - 4)
    have hnil : fillWord [] (bs.length - 4) = ([], bs.length - 4) := by
      cases bs.length - 4 <;> rfl
    rw [List.append_nil, htake, Nat.add_sub_cancel' hle, hnil, List.append_nil] at hfill
    rw [readBytes_eq_take hle, hfill]
  · obtain ⟨r, hr⟩ := Nat.exists_eq_add_of_le hle
    have hfill := fillWord_append hbs (readBytes r (bs.drop bs.length)) 0
    have hstop : fillWord (readBytes r (bs.drop bs.length)) 0 = ([], 0) := by
      cases readBytes r (bs.drop bs.length) <;> rfl
    rw [hstop, Nat.add_zero, List.append_nil] at hfill
    have hbytes : readBytes bs.length bs = bs := by
      rw [readBytes_eq_take (le_refl _), List.take_length]
    rw [hr, readBytes_add, hbytes, hfill, List.take_of_length_le (by omega),
      Nat.sub_eq_zero_of_le (by omega)]

/-- Any such bytes can come out. -/
theorem type2Ps_ofBytes {bs : Bytes} (hbs : ∀ b ∈ bs, b ≠ 0) (start : Nat) :
    type2Ps (Rng.ofBytes bs) start (bs.length - 4 * start) = bs.drop (4 * start) := by
  induction hn : bs.length - 4 * start using Nat.strong_induction_on generalizing start with
  | _ n ih =>
      subst hn
      rw [type2Ps]
      by_cases hpos : bs.length - 4 * start = 0
      · rw [if_pos hpos, List.drop_of_length_le (by lia)]
      have hfill := fillWord_readBytes fun b hb => hbs b (List.mem_of_mem_drop (i := 4 * start) hb)
      rw [List.length_drop] at hfill
      have hrest := ih (bs.length - 4 * (start + 1)) (by lia) (start + 1) rfl
      rw [if_neg hpos, wordBytes_ofBytes (by lia), hfill]
      dsimp only
      rw [show bs.length - 4 * start - 4 = bs.length - 4 * (start + 1) by lia, hrest,
        show 4 * (start + 1) = 4 * start + 4 by lia, ← List.drop_drop, List.take_append_drop]

/-! ## The search for the separator -/

namespace Type2Scan

theorem run_found (s : Type2Scan) (i : Nat) (bs : Bytes) (h : s.lookingForIndex = 0) :
    s.run i bs = s := by
  induction bs generalizing i with
  | nil => rfl
  | cons b bs ih =>
      obtain ⟨zeroIndex, looking⟩ := s
      obtain rfl : looking = 0 := h
      have hstep : step ⟨zeroIndex, 0⟩ (UInt32.ofNat i) b = ⟨zeroIndex, 0⟩ := by simp [step]
      rw [run, hstep, ih]

theorem step_zero (zeroIndex i : UInt32) : step ⟨zeroIndex, -1⟩ i 0 = ⟨i, 0⟩ := by
  simp [step, isZero_zero]

theorem step_other (zeroIndex i : UInt32) {b : UInt8} (hb : b ≠ 0) :
    step ⟨zeroIndex, -1⟩ i b = ⟨zeroIndex, -1⟩ := by
  simp [step, isZero_toUInt32, hb]

/-- Bytes that are not zero are passed over. -/
theorem run_append (zeroIndex : UInt32) (i : Nat) {ps : Bytes} (hps : ∀ b ∈ ps, b ≠ 0)
    (rest : Bytes) :
    run ⟨zeroIndex, -1⟩ i (ps ++ rest) = run ⟨zeroIndex, -1⟩ (i + ps.length) rest := by
  induction ps generalizing i with
  | nil => rfl
  | cons b ps ih =>
      obtain ⟨hb, hps⟩ := List.forall_mem_cons.mp hps
      rw [List.cons_append, run, step_other _ _ hb, ih _ hps, List.length_cons, Nat.add_assoc,
        Nat.add_comm 1]

theorem run_separator (zeroIndex : UInt32) (i : Nat) {ps : Bytes} (hps : ∀ b ∈ ps, b ≠ 0)
    (msg : Bytes) :
    run ⟨zeroIndex, -1⟩ i (ps ++ 0 :: msg) = ⟨UInt32.ofNat (i + ps.length), 0⟩ := by
  rw [run_append _ _ hps, run, step_zero]
  exact run_found _ _ _ rfl

theorem run_missing (zeroIndex : UInt32) (i : Nat) {bs : Bytes} (hbs : ∀ b ∈ bs, b ≠ 0) :
    run ⟨zeroIndex, -1⟩ i bs = ⟨zeroIndex, -1⟩ := by
  have := run_append zeroIndex i hbs []
  rwa [List.append_nil] at this

end Type2Scan

/-! ## What is padded and what is accepted -/

/-- The string that carries a message. -/
def type2Encode (ps msg : Bytes) : Bytes := [0, 2] ++ ps ++ [0] ++ msg

/-- What `pkcs1_type2_pad` makes. -/
theorem pkcs1Type2Pad_eq_some_iff {rng : Rng} {buf input padded : Bytes} :
    pkcs1Type2Pad rng buf input = some padded ↔
      ∃ k, 8 ≤ k ∧ buf.length = 3 + k + input.length ∧
        padded = type2Encode (type2Ps rng 0 k) input := by
  unfold pkcs1Type2Pad rsaPkcs1PaddingSize
  by_cases hsmall : buf.length < 11
  · rw [if_pos hsmall]
    refine iff_of_false (by simp) ?_
    rintro ⟨k, hk, hlen, -⟩
    lia
  by_cases hlarge : buf.length - 11 < input.length
  · rw [if_neg hsmall, if_pos hlarge]
    refine iff_of_false (by simp) ?_
    rintro ⟨k, hk, hlen, -⟩
    lia
  rw [if_neg hsmall, if_neg hlarge]
  dsimp only
  rw [Option.some.injEq]
  constructor
  · rintro rfl
    exact ⟨buf.length - 3 - input.length, by lia, by lia, rfl⟩
  · rintro ⟨k, hk, hlen, rfl⟩
    rw [show buf.length - 3 - input.length = k by lia]
    rfl

/-- With a separator, the first two bytes count, the number of bytes in front of the separator, and
the room for the message. -/
theorem checkPkcs1Type2Pad_separator {outLen : Nat} {a b : UInt8} {ps msg : Bytes}
    (hps : ∀ b ∈ ps, b ≠ 0) (hsize : 2 + ps.length + (msg.length + 1) < 2 ^ 32)
    (hsmall : 11 ≤ 2 + ps.length + (msg.length + 1)) :
    checkPkcs1Type2Pad outLen (a :: b :: (ps ++ 0 :: msg)) =
      if (a = 0 ∧ b = 2 ∧ 8 ≤ ps.length) ∧ msg.length ≤ outLen then some msg else none := by
  have hindex : (UInt32.ofNat (2 + ps.length) + 1).toNat = 3 + ps.length := by
    rw [UInt32.toNat_add, UInt32.toNat_ofNat']
    simp only [UInt32.reduceToNat]
    lia
  have hsplit : a :: b :: (ps ++ 0 :: msg) = (a :: b :: (ps ++ [0])) ++ msg := by simp
  have hpre : (a :: b :: (ps ++ [0])).length = 3 + ps.length := by
    simp only [List.length_cons, List.length_append, List.length_nil]
    lia
  unfold checkPkcs1Type2Pad rsaPkcs1PaddingSize
  dsimp only
  rw [if_neg (by simp; lia), List.drop_succ_cons, List.drop_succ_cons, List.drop_zero,
    UInt32.not_zero, Type2Scan.run_separator _ _ hps]
  dsimp only
  rw [hindex, hsplit, List.drop_left' hpre, List.length_append, hpre, Nat.add_sub_cancel_left]
  have hvalid : ((if (a :: b :: (ps ++ [0]) ++ msg).getD 0 0 = 0 then (1 : UInt32) else 0) &&&
      (if (a :: b :: (ps ++ [0]) ++ msg).getD 1 0 = 2 then 1 else 0) &&& ~~~0 &&&
      (if 11 ≤ 3 + ps.length then 1 else 0) = 0) ↔ ¬ (a = 0 ∧ b = 2 ∧ 8 ≤ ps.length) := by
    have ha : (a :: b :: (ps ++ [0]) ++ msg).getD 0 0 = a := rfl
    have hb : (a :: b :: (ps ++ [0]) ++ msg).getD 1 0 = b := rfl
    have hlen : 11 ≤ 3 + ps.length ↔ 8 ≤ ps.length := by lia
    rw [ha, hb]
    simp only [hlen]
    by_cases ha : a = 0 <;> by_cases hb : b = 2 <;> by_cases hlen : 8 ≤ ps.length <;>
      simp [ha, hb, hlen]
  by_cases hgood : a = 0 ∧ b = 2 ∧ 8 ≤ ps.length
  · rw [if_neg (mt hvalid.mp (not_not.mpr hgood))]
    by_cases hout : outLen < msg.length
    · rw [if_pos hout, if_neg fun h => absurd h.2 (Nat.not_le.mpr hout)]
    · rw [if_neg hout, if_pos ⟨hgood, Nat.not_lt.mp hout⟩]
  · rw [if_pos (hvalid.mpr hgood), if_neg fun h => hgood h.1]

theorem checkPkcs1Type2Pad_missing {outLen : Nat} {a b : UInt8} {rest : Bytes}
    (hrest : ∀ b ∈ rest, b ≠ 0) : checkPkcs1Type2Pad outLen (a :: b :: rest) = none := by
  unfold checkPkcs1Type2Pad
  dsimp only
  split
  · rfl
  · rw [List.drop_succ_cons, List.drop_succ_cons, List.drop_zero, UInt32.not_zero,
      Type2Scan.run_missing _ _ hrest]
    simp

/-- What `check_pkcs1_type2_pad` accepts. -/
theorem checkPkcs1Type2Pad_eq_some_iff {outLen : Nat} {padded msg : Bytes}
    (hsize : padded.length < 2 ^ 32) :
    checkPkcs1Type2Pad outLen padded = some msg ↔
      msg.length ≤ outLen ∧ ∃ ps : Bytes, 8 ≤ ps.length ∧ (∀ b ∈ ps, b ≠ 0) ∧
        padded = type2Encode ps msg := by
  have hencode : ∀ ps msg, type2Encode ps msg = 0 :: 2 :: (ps ++ 0 :: msg) := by
    intro ps msg
    simp [type2Encode]
  constructor
  · intro h
    match padded, hsize, h with
    | [], _, h => cases h
    | [a], _, h => cases h
    | a :: b :: rest, hsize, h =>
        by_cases hzero : (0 : UInt8) ∈ rest
        · obtain ⟨ps, msg', rfl, hnot⟩ := List.eq_append_cons_of_mem hzero
          have hps : ∀ b ∈ ps, b ≠ 0 := fun b hb hz => hnot (hz ▸ hb)
          have hbig : 11 ≤ (a :: b :: (ps ++ 0 :: msg')).length := by
            by_contra hsmall
            rw [checkPkcs1Type2Pad, if_pos (by rw [rsaPkcs1PaddingSize]; lia)] at h
            cases h
          simp only [List.length_cons, List.length_append] at hsize hbig
          rw [checkPkcs1Type2Pad_separator hps (by lia) (by lia)] at h
          obtain ⟨⟨⟨rfl, rfl, hlen⟩, hout⟩, hmsg⟩ := Option.ite_none_right_eq_some.mp h
          obtain rfl := Option.some.inj hmsg
          exact ⟨hout, ps, hlen, hps, (hencode ps msg').symm⟩
        · rw [checkPkcs1Type2Pad_missing fun b hb hz => hzero (hz ▸ hb)] at h
          cases h
  · rintro ⟨hout, ps, hlen, hps, rfl⟩
    rw [hencode] at hsize ⊢
    simp only [List.length_cons, List.length_append] at hsize
    rw [checkPkcs1Type2Pad_separator hps (by lia) (by lia)]
    exact if_pos ⟨⟨rfl, rfl, hlen⟩, hout⟩

end Dcrypto
end CrosEc
