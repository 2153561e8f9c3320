import CrosEc.Dcrypto.Oaep
import CrosEc.Dcrypto.Signatures
import CrosEc.Dcrypto.Type2

/-!
# The paddings and their checks

A padded message is accepted and comes back, and what is accepted could have been padded.  Only
`HASH_NULL` is different: the padding takes a digest of any size, as its comment says, but the
check takes the empty one, which the padding refuses.
-/

namespace CrosEc
namespace Dcrypto

open Lib

/-- A buffer has as many bytes as a `uint32_t` can count. -/
abbrev Buffer := { bytes : Bytes // bytes.length < 2 ^ 32 }

/-- What is padded in `buf` is accepted.  A message comes back; the digest that was signed is the
only one that is accepted, up to the hash that PSS makes of it. -/
structure RoundTrips (H : Digests) (rng : Rng) (buf : Buffer) (msg : Bytes)
    (hashing : HashingMode) (label : Option Bytes) : Prop where
  oaep : ∀ padded outLen, oaepPad H rng buf.val msg hashing label = some padded →
    msg.length ≤ outLen → checkOaepPad H outLen padded hashing label = some msg
  type2 : ∀ padded outLen, pkcs1Type2Pad rng buf.val msg = some padded →
    msg.length ≤ outLen → checkPkcs1Type2Pad outLen padded = some msg
  pss : ∀ padded, pkcs1PssPad H rng buf.val msg hashing = some padded → ∃ salt, ∀ digest,
    checkPkcs1PssPad H digest padded hashing = true ↔
      digest.length = msg.length ∧ pssHash H digest salt hashing = pssHash H msg salt hashing
  type1 : ∀ padded, pkcs1Type1Pad buf.val msg hashing = some padded → ∀ digest,
    checkPkcs1Type1Pad digest padded hashing = true ↔ digest = msg

/-- What is accepted can be padded, with some random numbers. -/
structure OnlyPadded (H : Digests) (padded : Buffer) (hashing : HashingMode)
    (label : Option Bytes) : Prop where
  oaep : ∀ outLen msg, checkOaepPad H outLen padded.val hashing label = some msg →
    ∃ rng, oaepPad H rng padded.val msg hashing label = some padded.val
  type2 : ∀ outLen msg, checkPkcs1Type2Pad outLen padded.val = some msg →
    ∃ rng, pkcs1Type2Pad rng padded.val msg = some padded.val
  type1 : ∀ digest, checkPkcs1Type1Pad digest padded.val hashing = true →
    pkcs1Type1Pad padded.val digest hashing = some padded.val

/-! ## Encryption -/

theorem length_oaepEncode (H : Digests) (seed db : Bytes) (hashing : HashingMode) :
    (oaepEncode H seed db hashing).length = 1 + seed.length + db.length := by
  simp only [oaepEncode, List.length_append, List.length_singleton, length_mgf1Xor]

theorem length_type2Encode (ps msg : Bytes) :
    (type2Encode ps msg).length = 3 + ps.length + msg.length := by
  simp only [type2Encode, List.length_append, List.length_cons, List.length_nil]
  omega

theorem oaep_roundTrip {H : Digests} {rng : Rng} {buf msg padded : Bytes} {hashing : HashingMode}
    {label : Option Bytes} {outLen : Nat} (hbuf : buf.length < 2 ^ 32)
    (hpad : oaepPad H rng buf msg hashing label = some padded) (hout : msg.length ≤ outLen) :
    checkOaepPad H outLen padded hashing label = some msg := by
  obtain ⟨k, hk, rfl⟩ := oaepPad_eq_some_iff.mp hpad
  have hseed : (seedBytes rng 0 (hashSize hashing / 4)).length = hashSize hashing := by
    rw [length_seedBytes, four_mul_hashSize_div]
  refine (checkOaepPad_eq_some_iff ?_).mpr ⟨hout, _, k, hseed, rfl⟩
  rw [length_oaepEncode, length_oaepBlock, hseed]
  omega

theorem oaep_producible {H : Digests} {padded msg : Bytes} {hashing : HashingMode}
    {label : Option Bytes} {outLen : Nat} (hpadded : padded.length < 2 ^ 32)
    (h : checkOaepPad H outLen padded hashing label = some msg) :
    ∃ rng, oaepPad H rng padded msg hashing label = some padded := by
  obtain ⟨-, seed, k, hseed, hencode⟩ := (checkOaepPad_eq_some_iff hpadded).mp h
  refine ⟨Rng.ofBytes seed, oaepPad_eq_some_iff.mpr ⟨k, ?_, ?_⟩⟩
  · rw [hencode, length_oaepEncode, length_oaepBlock, hseed]
    omega
  · have hall : seedBytes (Rng.ofBytes seed) 0 (hashSize hashing / 4) = seed := by
      rw [seedBytes_ofBytes (by rw [four_mul_hashSize_div]; omega), four_mul_hashSize_div,
        Nat.mul_zero, List.drop_zero, ← hseed, List.take_length]
    rw [hall, hencode]

theorem type2_roundTrip {rng : Rng} {buf msg padded : Bytes} {outLen : Nat}
    (hbuf : buf.length < 2 ^ 32) (hpad : pkcs1Type2Pad rng buf msg = some padded)
    (hout : msg.length ≤ outLen) : checkPkcs1Type2Pad outLen padded = some msg := by
  obtain ⟨k, hk, hlen, rfl⟩ := pkcs1Type2Pad_eq_some_iff.mp hpad
  obtain ⟨hps, hne⟩ := type2Ps_spec rng 0 k
  refine (checkPkcs1Type2Pad_eq_some_iff ?_).mpr ⟨hout, _, by rw [hps]; exact hk, hne, rfl⟩
  rw [length_type2Encode, hps]
  omega

theorem type2_producible {padded msg : Bytes} {outLen : Nat} (hpadded : padded.length < 2 ^ 32)
    (h : checkPkcs1Type2Pad outLen padded = some msg) :
    ∃ rng, pkcs1Type2Pad rng padded msg = some padded := by
  obtain ⟨-, ps, hps, hne, hencode⟩ := (checkPkcs1Type2Pad_eq_some_iff hpadded).mp h
  refine ⟨Rng.ofBytes ps, pkcs1Type2Pad_eq_some_iff.mpr ⟨ps.length, hps, ?_, ?_⟩⟩
  · rw [hencode, length_type2Encode]
  · rw [hencode, show type2Ps (Rng.ofBytes ps) 0 ps.length = ps from type2Ps_ofBytes hne 0]

/-! ## Signatures -/

theorem pss_roundTrip {H : Digests} {rng : Rng} {buf msg padded : Bytes} {hashing : HashingMode}
    (hpad : pkcs1PssPad H rng buf msg hashing = some padded) :
    ∃ salt, ∀ digest, checkPkcs1PssPad H digest padded hashing = true ↔
      digest.length = msg.length ∧ pssHash H digest salt hashing = pssHash H msg salt hashing := by
  obtain ⟨hmsg, k, salt, -, -, rfl⟩ := pkcs1PssPad_eq_some_iff.mp hpad
  refine ⟨salt, fun digest => ?_⟩
  rw [checkPkcs1PssPad_encode (length_pssHash H msg salt hashing), hmsg]
  exact and_congr_right' eq_comm

theorem length_type1Encode (k : Nat) (der digest : Bytes) :
    (type1Encode k der digest).length = 3 + k + der.length + digest.length := by
  simp only [type1Encode, List.length_append, List.length_cons, List.length_nil,
    List.length_replicate]
  omega

/-- Two digests of the same size in the same string. -/
theorem type1Encode_inj {k k' : Nat} {der digest digest' : Bytes}
    (hlen : digest.length = digest'.length)
    (h : type1Encode k der digest = type1Encode k' der digest') : digest = digest' :=
  (List.append_inj' h hlen).2

theorem hashSize_eq_zero_iff {hashing : HashingMode} :
    (pkcs1GetDer hashing).hashSize = 0 ↔ hashing = .null := by
  cases hashing <;> simp [pkcs1GetDer]

theorem type1_roundTrip_iff {buf msg : Bytes} {hashing : HashingMode} :
    (∀ padded, pkcs1Type1Pad buf msg hashing = some padded → ∀ digest,
      checkPkcs1Type1Pad digest padded hashing = true ↔ digest = msg) ↔
      ¬ (hashing = .null ∧ msg ≠ [] ∧ msg.length + 11 ≤ buf.length) := by
  constructor
  · rintro h ⟨rfl, hmsg, hlen⟩
    have hpad : pkcs1Type1Pad buf msg .null =
        some (type1Encode (buf.length - 3 - msg.length) [] msg) :=
      pkcs1Type1Pad_eq_some_iff.mpr ⟨⟨hmsg, .inl rfl⟩, buf.length - 3 - msg.length, by lia,
        by simp [pkcs1GetDer]; lia, rfl⟩
    have := (checkPkcs1Type1Pad_iff.mp ((h _ hpad msg).mpr rfl)).1
    exact hmsg (List.length_eq_zero_iff.mp this)
  · intro hnot padded hpad digest
    obtain ⟨⟨hne, hsize⟩, k, hk, hlen, rfl⟩ := pkcs1Type1Pad_eq_some_iff.mp hpad
    have hmsg : msg.length = (pkcs1GetDer hashing).hashSize := by
      refine hsize.resolve_left fun hzero => hnot ⟨hashSize_eq_zero_iff.mp hzero, hne, ?_⟩
      lia
    rw [checkPkcs1Type1Pad_iff]
    constructor
    · rintro ⟨hdigest, k', -, h⟩
      exact (type1Encode_inj (hmsg.trans hdigest.symm) h).symm
    · rintro rfl
      exact ⟨hmsg, k, hk, rfl⟩

theorem type1_producible_iff {padded : Bytes} {hashing : HashingMode} :
    (∀ digest, checkPkcs1Type1Pad digest padded hashing = true →
      pkcs1Type1Pad padded digest hashing = some padded) ↔
      ¬ (hashing = .null ∧ ∃ k, 8 ≤ k ∧ padded = [0, 1] ++ List.replicate k 0xFF ++ [0]) := by
  have hencode : ∀ k, type1Encode k [] [] = [0, 1] ++ List.replicate k 0xFF ++ [0] := by
    intro k
    rw [type1Encode, List.append_nil, List.append_nil]
  constructor
  · rintro h ⟨rfl, k, hk, rfl⟩
    have hcheck : checkPkcs1Type1Pad [] ([0, 1] ++ List.replicate k 0xFF ++ [0]) .null = true :=
      checkPkcs1Type1Pad_iff.mpr ⟨rfl, k, hk, (hencode k).symm⟩
    exact (pkcs1Type1Pad_eq_some_iff.mp (h [] hcheck)).1.1 rfl
  · intro hnot digest hcheck
    obtain ⟨hdigest, k, hk, hpadded⟩ := checkPkcs1Type1Pad_iff.mp hcheck
    have hne : digest ≠ [] := by
      rintro rfl
      have hnull := hashSize_eq_zero_iff.mp hdigest.symm
      subst hnull
      exact hnot ⟨rfl, k, hk, hpadded.trans (hencode k)⟩
    refine pkcs1Type1Pad_eq_some_iff.mpr ⟨⟨hne, .inr hdigest⟩, k, hk, ?_, hpadded⟩
    rw [hpadded, length_type1Encode]

/-! ## All paddings -/

/-- **Paddings.**  Everything that can be padded comes back, and everything that is accepted can
be padded, except with `HASH_NULL`: no digest that it pads is accepted, and it accepts the empty
one. -/
theorem paddings_roundTrip_iff (H : Digests) :
    (∀ rng (buf : Buffer) msg hashing label, RoundTrips H rng buf msg hashing label ↔
      ¬ (hashing = .null ∧ msg ≠ [] ∧ msg.length + 11 ≤ buf.val.length)) ∧
    ∀ (padded : Buffer) hashing label, OnlyPadded H padded hashing label ↔
      ¬ (hashing = .null ∧ ∃ k, 8 ≤ k ∧
        padded.val = [0, 1] ++ List.replicate k 0xFF ++ [0]) := by
  constructor
  · intro rng buf msg hashing label
    rw [← type1_roundTrip_iff]
    constructor
    · exact fun h => h.type1
    · intro h
      exact ⟨fun padded outLen => oaep_roundTrip buf.property,
        fun padded outLen => type2_roundTrip buf.property, fun padded => pss_roundTrip, h⟩
  · intro padded hashing label
    rw [← type1_producible_iff]
    constructor
    · exact fun h => h.type1
    · intro h
      exact ⟨fun outLen msg => oaep_producible padded.property,
        fun outLen msg => type2_producible padded.property, h⟩

/-- Digests that can be evaluated. -/
def checksums : Digests := ⟨checksum 20, checksum 32⟩

/-- A digest of one byte that is padded and not accepted, and a string without a digest that is
accepted. -/
theorem paddings_null :
    ¬ RoundTrips checksums (Rng.ofBytes []) ⟨List.replicate 12 0, by decide⟩ [7] .null none ∧
    ¬ OnlyPadded checksums ⟨[0, 1] ++ List.replicate 8 0xFF ++ [0], by decide⟩ .null none := by
  constructor
  · intro h
    have hcheck := (h.type1 ([0, 1] ++ List.replicate 8 0xFF ++ [0, 7]) (by decide) [7]).mpr rfl
    revert hcheck
    decide
  · intro h
    have hpad := h.type1 [] (by decide)
    revert hpad
    decide

end Dcrypto
end CrosEc
