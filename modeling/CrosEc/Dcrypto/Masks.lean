import CrosEc.Dcrypto.Padding

/-!
# Masks, comparisons, slices and random bytes

The branch-free operations decide what their names say, and `MGF1_xor` is a bytewise exclusive or
with a mask that depends on the seed and on the length only.  It is therefore its own inverse.  A
random source can return any bytes.
-/

namespace CrosEc
namespace Dcrypto

open Lib

/-! ## Branch-free selection -/

theorem isZero_toUInt32 (b : UInt8) : isZero b.toUInt32 = if b = 0 then -1 else 0 := by
  have hall : ∀ x : BitVec 8, isZero (UInt8.ofBitVec x).toUInt32 =
      if UInt8.ofBitVec x = 0 then -1 else 0 := by decide
  exact hall b.toBitVec

theorem isZero_toUInt32_xor_one (b : UInt8) :
    isZero (b.toUInt32 ^^^ 1) = if b = 1 then -1 else 0 := by
  have hall : ∀ x : BitVec 8, isZero ((UInt8.ofBitVec x).toUInt32 ^^^ 1) =
      if UInt8.ofBitVec x = 1 then -1 else 0 := by decide
  exact hall b.toBitVec

theorem isZero_zero : isZero 0 = -1 := by decide

theorem isZero_one : isZero 1 = 0 := by decide

@[simp] theorem select_neg_one (a b : UInt32) : select (-1) a b = a := by
  rw [select, UInt32.neg_one_and, show ~~~(-1 : UInt32) = 0 from rfl, UInt32.zero_and,
    UInt32.or_zero]

@[simp] theorem select_zero (a b : UInt32) : select 0 a b = b := by
  rw [select, UInt32.zero_and, UInt32.not_zero, UInt32.neg_one_and, UInt32.zero_or]

@[simp] theorem select_zero_zero (mask : UInt32) : select mask 0 0 = 0 := by
  rw [select, UInt32.and_zero, UInt32.and_zero, UInt32.or_zero]

theorem foldl_diff_eq_zero_iff (l : List (UInt8 × UInt8)) (diff : UInt8) :
    l.foldl (fun diff (x, y) => diff ||| (x ^^^ y)) diff = 0 ↔
      diff = 0 ∧ ∀ p ∈ l, p.1 = p.2 := by
  induction l generalizing diff with
  | nil => simp
  | cons p l ih =>
      obtain ⟨x, y⟩ := p
      rw [List.foldl_cons, ih, UInt8.or_eq_zero_iff, UInt8.xor_eq_zero_iff, List.forall_mem_cons,
        and_assoc]

theorem dcryptoEquals_iff {a b : Bytes} (hlen : a.length = b.length) :
    dcryptoEquals a b = true ↔ a = b := by
  rw [dcryptoEquals, beq_iff_eq, foldl_diff_eq_zero_iff]
  constructor
  · rintro ⟨-, hall⟩
    apply List.ext_getElem hlen
    intro i ha hb
    apply hall (a[i], b[i])
    exact List.mem_iff_getElem.mpr ⟨i, by simpa using ⟨ha, hb⟩, List.getElem_zip⟩
  · rintro rfl
    refine ⟨rfl, fun p hp => ?_⟩
    obtain ⟨i, hi, rfl⟩ := List.mem_iff_getElem.mp hp
    rw [List.getElem_zip]

/-! ## The mask generator -/

@[simp] theorem HashCtx.length_final (H : Digests) (ctx : HashCtx) :
    (ctx.final H).length = hashSize ctx.hashing := by
  unfold HashCtx.final hashSize
  split
  · exact (H.sha1 ctx.data).property
  · exact (H.sha256 ctx.data).property

@[simp] theorem length_labelHash (H : Digests) (hashing : HashingMode) (label : Option Bytes) :
    (labelHash H hashing label).length = hashSize hashing :=
  HashCtx.length_final _ _

/-- The mask of `MGF1_xor` for `n` bytes. -/
def maskFrom (H : Digests) (hashing : HashingMode) (seed : Bytes) (cnt : Counter) (n : Nat) :
    Bytes :=
  if n = 0 then []
  else
    ((((hashInit hashing).update seed).update cnt.bytes).final H).take n ++
      maskFrom H hashing seed cnt.next (n - hashSize hashing)
termination_by n
decreasing_by
  have := hashSize_pos hashing
  omega

theorem length_maskFrom (H : Digests) (hashing : HashingMode) (seed : Bytes) (cnt : Counter)
    (n : Nat) : (maskFrom H hashing seed cnt n).length = n := by
  fun_induction maskFrom H hashing seed cnt n with
  | case1 => rfl
  | case2 cnt n _ ih =>
      rw [List.length_append, ih, List.length_take, HashCtx.length_final]
      change min n (hashSize hashing) + (n - hashSize hashing) = n
      omega

theorem xorBytes_append {a b a' b' : Bytes} (h : a.length = a'.length) :
    xorBytes (a ++ b) (a' ++ b') = xorBytes a a' ++ xorBytes b b' :=
  List.zipWith_append h

theorem xorBytes_xorBytes {a mask : Bytes} (h : a.length = mask.length) :
    xorBytes (xorBytes a mask) mask = a := by
  induction a generalizing mask with
  | nil => rfl
  | cons x a ih =>
      cases mask with
      | nil => cases h
      | cons y mask =>
          have hrest := ih (Nat.succ.inj h)
          simp only [xorBytes, List.zipWith_cons_cons] at hrest ⊢
          rw [hrest, UInt8.xor_assoc, UInt8.xor_self, UInt8.xor_zero]

theorem length_xorBytes {a mask : Bytes} (h : a.length = mask.length) :
    (xorBytes a mask).length = a.length := by
  rw [xorBytes, List.length_zipWith, h, Nat.min_self]

theorem mgf1XorFrom_eq (H : Digests) (hashing : HashingMode) (seed : Bytes) (cnt : Counter)
    (dst : Bytes) :
    mgf1XorFrom H hashing seed cnt dst =
      xorBytes dst (maskFrom H hashing seed cnt dst.length) := by
  fun_induction mgf1XorFrom H hashing seed cnt dst with
  | case1 => rfl
  | case2 cnt dst hne digest ih =>
      have hdigest : digest.length = hashSize hashing := HashCtx.length_final H _
      rw [maskFrom, if_neg (by simpa using hne), ih, List.length_drop]
      change xorBytes dst digest ++ _ = xorBytes dst (digest.take dst.length ++ _)
      rcases le_total (hashSize hashing) dst.length with hle | hle
      · -- a whole block and the rest
        have hblock : (dst.take (hashSize hashing)).length = digest.length := by
          rw [List.length_take, hdigest, Nat.min_eq_left hle]
        have htake : digest.take dst.length = digest := List.take_of_length_le (by omega)
        have hfirst : xorBytes dst digest = xorBytes (dst.take (hashSize hashing)) digest := by
          conv_lhs => rw [← List.take_append_drop (hashSize hashing) dst,
            ← List.append_nil digest]
          rw [xorBytes_append hblock]
          simp [xorBytes]
        conv_rhs => rw [htake, ← List.take_append_drop (hashSize hashing) dst]
        rw [xorBytes_append hblock, hfirst, List.length_append, List.length_take, List.length_drop,
          Nat.min_eq_left hle, Nat.add_sub_cancel' hle]
      · -- the last block, of which only the first bytes count
        have hdrop : dst.drop (hashSize hashing) = [] := List.drop_of_length_le hle
        have hmask : dst.length - hashSize hashing = 0 := Nat.sub_eq_zero_of_le hle
        have hcut : xorBytes dst digest = xorBytes dst (digest.take dst.length) := by
          conv_lhs => rw [← List.append_nil dst, ← List.take_append_drop dst.length digest]
          rw [xorBytes_append (by rw [List.length_take]; omega)]
          simp [xorBytes]
        rw [hdrop, hmask, maskFrom, if_pos rfl, List.append_nil, hcut]
        simp [xorBytes]

@[simp] theorem length_mgf1Xor (H : Digests) (dst seed : Bytes) (hashing : HashingMode) :
    (mgf1Xor H dst seed hashing).length = dst.length := by
  rw [mgf1Xor, mgf1XorFrom_eq, length_xorBytes (length_maskFrom _ _ _ _ _).symm]

/-- `MGF1_xor` twice with the same seed. -/
theorem mgf1Xor_mgf1Xor (H : Digests) (dst seed : Bytes) (hashing : HashingMode) :
    mgf1Xor H (mgf1Xor H dst seed hashing) seed hashing = dst := by
  have hlen := length_mgf1Xor H dst seed hashing
  unfold mgf1Xor at hlen ⊢
  rw [mgf1XorFrom_eq, hlen, mgf1XorFrom_eq, xorBytes_xorBytes (length_maskFrom _ _ _ _ _).symm]

theorem mgf1Xor_eq_iff {H : Digests} {a b seed : Bytes} {hashing : HashingMode} :
    mgf1Xor H a seed hashing = b ↔ a = mgf1Xor H b seed hashing := by
  constructor
  · rintro rfl
    exact (mgf1Xor_mgf1Xor H a seed hashing).symm
  · rintro rfl
    exact mgf1Xor_mgf1Xor H b seed hashing

/-! ## Slices -/

theorem slice_append (pre mid post : Bytes) {off len : Nat} (hoff : pre.length = off)
    (hlen : mid.length = len) : slice (pre ++ mid ++ post) off len = mid := by
  rw [slice, List.append_assoc, List.drop_left' hoff, List.take_left' hlen]

theorem slice_append_end (pre mid : Bytes) {off len : Nat} (hoff : pre.length = off)
    (hlen : mid.length = len) : slice (pre ++ mid) off len = mid := by
  have := slice_append pre mid [] hoff hlen
  rwa [List.append_nil] at this

/-- `MGF1_xor` with the seed in front of what it changes. -/
theorem mgf1XorAt_behind (H : Digests) (pre seed dst : Bytes) {off off' : Nat}
    (hashing : HashingMode) (hoff : pre.length = off) (hoff' : off' = off + seed.length) :
    mgf1XorAt H (pre ++ seed ++ dst) off' dst.length off seed.length hashing =
      pre ++ seed ++ mgf1Xor H dst seed hashing := by
  have hpre : (pre ++ seed).length = off' := by rw [List.length_append, hoff, hoff']
  have hwrite := writeAt_append (pre ++ seed) dst [] (mgf1Xor H dst seed hashing) hpre
    (length_mgf1Xor H dst seed hashing).symm
  rw [List.append_nil, List.append_nil] at hwrite
  rw [mgf1XorAt, slice_append_end _ dst hpre rfl, slice_append pre seed dst hoff rfl, hwrite]

/-- `MGF1_xor` with the seed right behind what it changes. -/
theorem mgf1XorAt_before (H : Digests) (pre dst seed post : Bytes) {off off' : Nat}
    (hashing : HashingMode) (hoff : pre.length = off) (hoff' : off' = off + dst.length) :
    mgf1XorAt H (pre ++ dst ++ seed ++ post) off dst.length off' seed.length hashing =
      pre ++ mgf1Xor H dst seed hashing ++ seed ++ post := by
  have hseed : slice (pre ++ dst ++ seed ++ post) off' seed.length = seed :=
    slice_append _ seed post (by rw [List.length_append, hoff, hoff']) rfl
  have hdst : slice (pre ++ dst ++ seed ++ post) off dst.length = dst := by
    rw [List.append_assoc (pre ++ dst)]
    exact slice_append pre dst _ hoff rfl
  have hwrite := writeAt_append pre dst (seed ++ post) (mgf1Xor H dst seed hashing) hoff
    (length_mgf1Xor H dst seed hashing).symm
  rw [mgf1XorAt, hdst, hseed, List.append_assoc (pre ++ dst), hwrite, ← List.append_assoc]

/-! ## Random bytes -/

/-- A source that returns these bytes first, in words of which the last one may be short. -/
def Rng.ofBytes (bs : Bytes) : Rng where
  word := fun n => if n < bs.length then UInt32.ofNat (decodeLE 4 (bs.drop (4 * n))) else 1
  eventually := fun n => ⟨max n bs.length, le_max_left _ _, by simp⟩

theorem wordBytes_ofBytes {bs : Bytes} {n : Nat} (hn : 4 * n < bs.length) :
    wordBytes ((Rng.ofBytes bs).word n) = readBytes 4 (bs.drop (4 * n)) := by
  have hlt := decodeLE_lt 4 (bs.drop (4 * n))
  change wordBytes (if n < bs.length then _ else _) = _
  rw [if_pos (by omega), wordBytes, UInt32.toNat_ofNat',
    Nat.mod_eq_of_lt (lt_of_lt_of_eq hlt (by norm_num)), encodeLE_decodeLE]

theorem seedBytes_ofBytes {bs : Bytes} {start n : Nat} (hn : 4 * start + 4 * n ≤ bs.length) :
    seedBytes (Rng.ofBytes bs) start n = (bs.drop (4 * start)).take (4 * n) := by
  induction n generalizing start with
  | zero => rfl
  | succ n ih =>
      rw [seedBytes, ih (by lia), wordBytes_ofBytes (by lia),
        readBytes_eq_take (by rw [List.length_drop]; lia),
        show 4 * (n + 1) = 4 + 4 * n by lia, List.take_add, List.drop_drop]
      rfl

end Dcrypto
end CrosEc
