import CrosEc.Dcrypto.Masks

/-!
# The paddings of signatures

`check_pkcs1_type1_pad` accepts exactly one string for each number of padding bytes, but only for a
digest of the size that belongs to the hash; the size zero of `HASH_NULL`, which allows any digest
in `pkcs1_type1_pad`, allows only the empty one here.  With the salt that `pkcs1_pss_pad` has taken,
`check_pkcs1_pss_pad` accepts every digest with the same hash.
-/

namespace CrosEc
namespace Dcrypto

open Lib

/-! ## PKCS#1 type 1 -/

/-- The string that carries a digest. -/
def type1Encode (k : Nat) (der digest : Bytes) : Bytes :=
  [0, 1] ++ List.replicate k 0xFF ++ [0] ++ der ++ digest

/-- The digests that `pkcs1_type1_pad` accepts. -/
def SignedDigest (hashing : HashingMode) (digest : Bytes) : Prop :=
  digest ≠ [] ∧ ((pkcs1GetDer hashing).hashSize = 0 ∨
    digest.length = (pkcs1GetDer hashing).hashSize)

/-- What `pkcs1_type1_pad` makes. -/
theorem pkcs1Type1Pad_eq_some_iff {buf input padded : Bytes} {hashing : HashingMode} :
    pkcs1Type1Pad buf input hashing = some padded ↔
      SignedDigest hashing input ∧ ∃ k, 8 ≤ k ∧
        buf.length = 3 + k + (pkcs1GetDer hashing).der.length + input.length ∧
        padded = type1Encode k (pkcs1GetDer hashing).der input := by
  unfold pkcs1Type1Pad SignedDigest rsaPkcs1PaddingSize
  generalize pkcs1GetDer hashing = d
  obtain ⟨der, hashSize⟩ := d
  dsimp only
  by_cases hsmall : buf.length < 11 + der.length
  · rw [if_pos hsmall]
    refine iff_of_false (by simp) ?_
    rintro ⟨-, k, hk, hlen, -⟩
    lia
  rw [if_neg hsmall]
  by_cases hdigest : input.length = 0 ∨ (hashSize ≠ 0 ∧ input.length ≠ hashSize)
  · rw [if_pos hdigest]
    refine iff_of_false (by simp) ?_
    rintro ⟨⟨hne, hsize⟩, -⟩
    rcases hdigest with hzero | ⟨hpos, hother⟩
    · exact hne (List.length_eq_zero_iff.mp hzero)
    · exact hsize.elim hpos hother
  rw [if_neg hdigest]
  have hsigned : input ≠ [] ∧ (hashSize = 0 ∨ input.length = hashSize) := by
    refine ⟨fun h => hdigest (.inl (by rw [h]; rfl)), ?_⟩
    by_contra hnot
    exact hdigest (.inr (not_or.mp hnot))
  by_cases hlarge : buf.length - 11 - der.length < input.length
  · rw [if_pos hlarge]
    refine iff_of_false (by simp) ?_
    rintro ⟨-, k, hk, hlen, -⟩
    lia
  rw [if_neg hlarge, Option.some.injEq]
  constructor
  · rintro rfl
    exact ⟨hsigned, buf.length - 3 - der.length - input.length, by lia, by lia, rfl⟩
  · rintro ⟨-, k, hk, hlen, rfl⟩
    rw [show buf.length - 3 - der.length - input.length = k by lia]
    rfl

/-- The string in its parts. -/
theorem checkPkcs1Type1Pad_parts {msg ff der' digest : Bytes} {a b z : UInt8}
    {hashing : HashingMode} (hff : 8 ≤ ff.length)
    (hder : der'.length = (pkcs1GetDer hashing).der.length)
    (hdigest : digest.length = (pkcs1GetDer hashing).hashSize) :
    checkPkcs1Type1Pad msg ([a, b] ++ ff ++ ([z] ++ der' ++ digest)) hashing = true ↔
      msg = digest ∧ a = 0 ∧ b = 1 ∧ ff = List.replicate ff.length 0xFF ∧ z = 0 ∧
        der' = (pkcs1GetDer hashing).der := by
  unfold checkPkcs1Type1Pad rsaPkcs1PaddingSize
  generalize pkcs1GetDer hashing = d at *
  obtain ⟨der, hashSize⟩ := d
  dsimp only at *
  by_cases hmsg : msg.length = hashSize
  swap
  · rw [if_pos hmsg]
    exact iff_of_false (by simp) fun h => hmsg (by rw [h.1, hdigest])
  have hlen : ([a, b] ++ ff ++ ([z] ++ der' ++ digest)).length =
      3 + ff.length + der.length + hashSize := by
    simp only [List.length_append, List.length_cons, List.length_nil, hder, hdigest]
    lia
  rw [if_neg (not_not.mpr hmsg), if_neg (by lia),
    show ([a, b] ++ ff ++ ([z] ++ der' ++ digest)).length - 3 - der.length - hashSize = ff.length by
      lia]
  have hslice : slice ([a, b] ++ ff ++ ([z] ++ der' ++ digest)) 2 ff.length = ff :=
    slice_append [a, b] ff _ rfl rfl
  have hz : ([a, b] ++ ff ++ ([z] ++ der' ++ digest)).getD (ff.length + 2) 0 = z := by
    rw [List.getD_eq_getElem?_getD, List.getElem?_append_right (by simp)]
    simp
  have hslice' : slice ([a, b] ++ ff ++ ([z] ++ der' ++ digest)) (ff.length + 2 + 1) der.length =
      der' := by
    rw [← List.append_assoc, ← List.append_assoc]
    exact slice_append _ der' digest (by simp) hder
  have hslice'' : slice ([a, b] ++ ff ++ ([z] ++ der' ++ digest))
      (ff.length + 2 + 1 + der.length) hashSize = digest := by
    rw [← List.append_assoc, ← List.append_assoc]
    exact slice_append_end _ digest (by simp; lia) hdigest
  rw [hslice, hz, hslice', hslice'']
  have hany : ff.any (· ≠ 0xFF) = true ↔ ¬ ff = List.replicate ff.length 0xFF := by
    rw [List.eq_replicate_iff]
    simp
  have hfirst : ([a, b] ++ ff ++ ([z] ++ der' ++ digest)).getD 0 0 = a := rfl
  have hsecond : ([a, b] ++ ff ++ ([z] ++ der' ++ digest)).getD 1 0 = b := rfl
  rw [hfirst, hsecond]
  by_cases hhead : a ≠ 0 ∨ b ≠ 1
  · rw [if_pos hhead]
    exact iff_of_false (by simp) fun h => hhead.elim (· h.2.1) (· h.2.2.1)
  obtain ⟨ha, hb⟩ := not_or.mp hhead
  rw [if_neg hhead]
  by_cases hpad : ff.any (· ≠ 0xFF) = true
  · rw [if_pos hpad]
    exact iff_of_false (by simp) fun h => hany.mp hpad h.2.2.2.1
  rw [if_neg hpad]
  by_cases hsep : z ≠ 0
  · rw [if_pos hsep]
    exact iff_of_false (by simp) fun h => hsep h.2.2.2.2.1
  rw [if_neg hsep]
  by_cases hprefix : der' = der
  · rw [if_neg (not_not.mpr ((dcryptoEquals_iff hder).mpr hprefix)),
      dcryptoEquals_iff (hmsg.trans hdigest.symm)]
    exact ⟨fun h => ⟨h, not_not.mp ha, not_not.mp hb, not_not.mp (mt hany.mpr hpad),
      not_not.mp hsep, hprefix⟩, fun h => h.1⟩
  · rw [if_pos (mt (dcryptoEquals_iff hder).mp hprefix)]
    exact iff_of_false (by simp) fun h => hprefix h.2.2.2.2.2

/-- What `check_pkcs1_type1_pad` accepts. -/
theorem checkPkcs1Type1Pad_iff {msg padded : Bytes} {hashing : HashingMode} :
    checkPkcs1Type1Pad msg padded hashing = true ↔
      msg.length = (pkcs1GetDer hashing).hashSize ∧ ∃ k, 8 ≤ k ∧
        padded = type1Encode k (pkcs1GetDer hashing).der msg := by
  have hencode : ∀ k, type1Encode k (pkcs1GetDer hashing).der msg = [0, 1] ++
      List.replicate k 0xFF ++ ([0] ++ (pkcs1GetDer hashing).der ++ msg) := by
    intro k
    simp [type1Encode]
  constructor
  · intro h
    have hmsg : msg.length = (pkcs1GetDer hashing).hashSize := by
      by_contra hne
      unfold checkPkcs1Type1Pad at h
      dsimp only at h
      rw [if_pos hne] at h
      cases h
    have hlen : 11 + (pkcs1GetDer hashing).der.length + msg.length ≤ padded.length := by
      by_contra hsmall
      unfold checkPkcs1Type1Pad rsaPkcs1PaddingSize at h
      dsimp only at h
      rw [if_neg (not_not.mpr hmsg), if_pos (by lia)] at h
      cases h
    refine ⟨hmsg, padded.length - 3 - (pkcs1GetDer hashing).der.length - msg.length, by lia, ?_⟩
    -- the string is cut where its parts have to be
    match padded, h, hlen with
    | [], _, hlen => simp at hlen
    | [_], _, hlen =>
        rw [List.length_singleton] at hlen
        lia
    | a :: b :: rest, h, hlen =>
        generalize hk : (a :: b :: rest).length - 3 - (pkcs1GetDer hashing).der.length -
          msg.length = k
        rw [List.length_cons, List.length_cons] at hlen hk
        have hcut : a :: b :: rest = [a, b] ++ rest.take k ++ rest.drop k := by
          rw [List.append_assoc, List.take_append_drop]
          rfl
        have hff : (rest.take k).length = k := by
          rw [List.length_take]
          lia
        have hdrop : (rest.drop k).length = (pkcs1GetDer hashing).der.length + msg.length + 1 := by
          rw [List.length_drop]
          lia
        obtain ⟨z, tail, htail⟩ := List.exists_cons_of_length_eq_add_one hdrop
        rw [htail, List.length_cons, Nat.add_right_cancel_iff] at hdrop
        have hder : (tail.take (pkcs1GetDer hashing).der.length).length =
            (pkcs1GetDer hashing).der.length := by
          rw [List.length_take]
          lia
        have hdigest : (tail.drop (pkcs1GetDer hashing).der.length).length =
            (pkcs1GetDer hashing).hashSize := by
          rw [List.length_drop]
          lia
        have htail' : rest.drop k = [z] ++ tail.take (pkcs1GetDer hashing).der.length ++
            tail.drop (pkcs1GetDer hashing).der.length := by
          rw [List.append_assoc, List.take_append_drop, htail]
          rfl
        rw [hcut, htail', checkPkcs1Type1Pad_parts (by lia) hder hdigest] at h
        obtain ⟨hsame, rfl, rfl, hall, rfl, hprefix⟩ := h
        rw [hencode, hcut, htail', hall, hff, hprefix, ← hsame]
  · rintro ⟨hmsg, k, hk, rfl⟩
    rw [hencode, checkPkcs1Type1Pad_parts (by simpa using hk) rfl hmsg]
    exact ⟨rfl, rfl, rfl, by rw [List.length_replicate], rfl, rfl⟩

/-! ## PSS -/

@[simp] theorem length_randBytes (rng : Rng) (start len : Nat) :
    (randBytes rng start len).length = len := by
  fun_induction randBytes rng start len with
  | case1 => rfl
  | case2 start len hpos ih =>
      rw [List.length_append, ih, List.length_take, List.length_reverse, wordBytes,
        length_encodeLE]
      omega

/-- The hash of a digest with a salt. -/
def pssHash (H : Digests) (digest salt : Bytes) (hashing : HashingMode) : Bytes :=
  ((((hashInit hashing).update (List.replicate 8 0)).update digest).update salt).final H

@[simp] theorem length_pssHash (H : Digests) (digest salt : Bytes) (hashing : HashingMode) :
    (pssHash H digest salt hashing).length = hashSize hashing := HashCtx.length_final H _

/-- The data block of a salt. -/
def pssBlock (k : Nat) (salt : Bytes) : Bytes := List.replicate k 0 ++ 1 :: salt

/-- The string that carries a hash and its salt. -/
def pssEncode (H : Digests) (db hash : Bytes) (hashing : HashingMode) : Bytes :=
  let masked := mgf1Xor H db hash hashing
  masked.set 0 (masked.getD 0 0 &&& 0x7F) ++ hash ++ [0xBC]

/-- The buffer of `pkcs1_pss_pad` before it is masked. -/
theorem pssPad_buffer (p1 p2 hash salt : Bytes) (y x : UInt8) (hp2 : p2.length = salt.length)
    (hsalt : (p1 ++ [y] ++ p2).take salt.length = salt) :
    (writeAt (moveWithin (p1 ++ [y] ++ p2 ++ hash ++ [x]) (p1.length + 1) 0 salt.length) 0
      (List.replicate p1.length 0)).set p1.length 1 =
      pssBlock p1.length salt ++ hash ++ [x] := by
  have hread : readBytes salt.length ((p1 ++ [y] ++ p2 ++ hash ++ [x]).drop 0) = salt := by
    rw [List.drop_zero, readBytes_eq_take (by simp; omega), List.append_assoc (p1 ++ [y] ++ p2),
      List.take_append_of_le_length (by simp; omega), hsalt]
  have hmove : writeAt (p1 ++ [y] ++ p2 ++ hash ++ [x]) (p1.length + 1) salt =
      p1 ++ [y] ++ salt ++ (hash ++ [x]) := by
    rw [List.append_assoc (p1 ++ [y] ++ p2)]
    exact writeAt_append (p1 ++ [y]) p2 (hash ++ [x]) salt (by simp) hp2
  have hzero : writeAt (p1 ++ [y] ++ salt ++ (hash ++ [x])) 0 (List.replicate p1.length 0) =
      List.replicate p1.length 0 ++ ([y] ++ salt ++ (hash ++ [x])) := by
    have := writeAt_append [] p1 ([y] ++ salt ++ (hash ++ [x])) (List.replicate p1.length 0) rfl
      List.length_replicate.symm
    simpa using this
  rw [moveWithin, hread, hmove, hzero, List.set_append_right _ _ (by simp)]
  simp [pssBlock]

theorem exists_append_of_le {bs : Bytes} {k : Nat} (h : k ≤ bs.length) :
    ∃ as rest, bs = as ++ rest ∧ as.length = k :=
  ⟨bs.take k, bs.drop k, (List.take_append_drop k bs).symm, by
    rw [List.length_take, Nat.min_eq_left h]⟩

/-- The places of the buffer that `pkcs1_pss_pad` fills. -/
theorem exists_pssParts {bs : Bytes} {k s n : Nat} (hlen : bs.length = k + 1 + s + n + 1) :
    ∃ p1 y p2 h x, bs = p1 ++ [y] ++ p2 ++ h ++ [x] ∧ p1.length = k ∧ p2.length = s ∧
      h.length = n := by
  obtain ⟨p1, rest, rfl, hp1⟩ := exists_append_of_le (show k ≤ bs.length by lia)
  rw [List.length_append] at hlen
  have hrest : rest.length = s + n + 1 + 1 := by lia
  obtain ⟨y, rest, rfl⟩ := List.exists_cons_of_length_eq_add_one hrest
  rw [List.length_cons] at hlen
  obtain ⟨p2, rest, rfl, hp2⟩ := exists_append_of_le (show s ≤ rest.length by lia)
  rw [List.length_append] at hlen
  obtain ⟨h, rest, rfl, hh⟩ := exists_append_of_le (show n ≤ rest.length by lia)
  rw [List.length_append] at hlen
  obtain ⟨x, rfl⟩ := List.length_eq_one_iff.mp (show rest.length = 1 by lia)
  exact ⟨p1, y, p2, h, x, by simp, hp1, hp2, hh⟩

/-- `MGF1_xor` at the start of the buffer. -/
theorem mgf1XorAt_front (H : Digests) (db hash post : Bytes) (hashing : HashingMode)
    (hdb : db ≠ []) :
    mgf1XorAt H (db ++ hash ++ post) 0 db.length db.length hash.length hashing =
        mgf1Xor H db hash hashing ++ hash ++ post ∧
      0 < (mgf1Xor H db hash hashing).length := by
  have hmask : mgf1XorAt H ([] ++ db ++ hash ++ post) 0 db.length db.length hash.length hashing =
      [] ++ mgf1Xor H db hash hashing ++ hash ++ post :=
    mgf1XorAt_before H [] db hash post hashing rfl (Nat.zero_add db.length).symm
  rw [List.nil_append, List.nil_append] at hmask
  refine ⟨hmask, ?_⟩
  rw [length_mgf1Xor]
  exact List.length_pos_iff.mpr hdb

/-- A change of the first byte of a buffer. -/
theorem set_zero_append {db : Bytes} (hash post : Bytes) (hdb : 0 < db.length)
    (f : UInt8 → UInt8) :
    (db ++ hash ++ post).set 0 (f ((db ++ hash ++ post).getD 0 0)) =
      db.set 0 (f (db.getD 0 0)) ++ hash ++ post := by
  cases db with
  | nil => cases hdb
  | cons d ds => rfl

/-- The end of `pkcs1_pss_pad`: the mask, the first bit and the last byte. -/
theorem pssPad_finish (H : Digests) (db hash : Bytes) (x : UInt8) (hashing : HashingMode)
    (hdb : db ≠ []) :
    ((mgf1XorAt H (db ++ hash ++ [x]) 0 db.length db.length hash.length hashing).set 0
      ((mgf1XorAt H (db ++ hash ++ [x]) 0 db.length db.length hash.length hashing).getD 0 0 &&&
        0x7F)).set (db.length + hash.length) 0xBC = pssEncode H db hash hashing := by
  obtain ⟨hmask, hpos⟩ := mgf1XorAt_front H db hash [x] hashing hdb
  rw [hmask, set_zero_append hash [x] hpos (· &&& 0x7F), List.set_append_right _ _ (by simp)]
  simp [pssEncode]

/-- What `pkcs1_pss_pad` makes. -/
theorem pkcs1PssPad_eq_some_iff {H : Digests} {rng : Rng} {buf input padded : Bytes}
    {hashing : HashingMode} :
    pkcs1PssPad H rng buf input hashing = some padded ↔
      input.length = hashSize hashing ∧ ∃ k salt,
        salt = randBytes rng 0 (min (buf.length - hashSize hashing - 2) (hashSize hashing)) ∧
        buf.length = k + 1 + salt.length + hashSize hashing + 1 ∧
        padded = pssEncode H (pssBlock k salt) (pssHash H input salt hashing) hashing := by
  unfold pkcs1PssPad
  dsimp only
  by_cases hinput : input.length = hashSize hashing
  swap
  · rw [if_pos hinput]
    exact iff_of_false (by simp) fun h => hinput h.1
  rw [if_neg (not_not.mpr hinput)]
  by_cases hsmall : buf.length < hashSize hashing + 2
  · rw [if_pos hsmall]
    refine iff_of_false (by simp) ?_
    rintro ⟨-, k, salt, -, hlen, -⟩
    lia
  rw [if_neg hsmall]
  have h8 : 8 ≤ buf.length := by
    have : 8 ≤ hashSize hashing := by
      unfold hashSize
      split <;> decide
    lia
  generalize hs : min (buf.length - hashSize hashing - 2) (hashSize hashing) = saltLen
  have hsalt : (randBytes rng 0 saltLen).length = saltLen := length_randBytes rng 0 saltLen
  generalize randBytes rng 0 saltLen = salt at hsalt ⊢
  subst hsalt
  have hzeros : slice (writeAt buf 0 (List.replicate 8 0)) 0 8 = List.replicate 8 0 :=
    take_drop_writeAt_self buf (List.replicate 8 0) (by simpa using h8)
  have hread : slice (writeAt (writeAt buf 0 (List.replicate 8 0)) 0 salt) 0 salt.length = salt :=
    take_drop_writeAt_self _ salt (by simp; lia)
  rw [hzeros, hread]
  obtain ⟨k, hk⟩ : ∃ k, buf.length = k + 1 + salt.length + hashSize hashing + 1 :=
    ⟨buf.length - hashSize hashing - 2 - salt.length, by lia⟩
  have hlen : (writeAt (writeAt buf 0 (List.replicate 8 0)) 0 salt).length =
      k + 1 + salt.length + hashSize hashing + 1 := by
    rw [length_writeAt, length_writeAt, hk]
  generalize writeAt (writeAt buf 0 (List.replicate 8 0)) 0 salt = b at hread hlen ⊢
  obtain ⟨p1, y, p2, h, x, rfl, rfl, hp2, hh⟩ := exists_pssParts hlen
  have hdbLen : buf.length - hashSize hashing - 1 = (pssBlock p1.length salt).length := by
    simp only [pssBlock, List.length_append, List.length_replicate, List.length_cons]
    lia
  have hpsLen : (pssBlock p1.length salt).length - salt.length - 1 = p1.length := by
    simp only [pssBlock, List.length_append, List.length_replicate, List.length_cons]
    lia
  have hend : buf.length - 1 =
      (pssBlock p1.length salt).length + (pssHash H input salt hashing).length := by
    rw [length_pssHash, ← hdbLen]
    lia
  have hhash : writeAt (p1 ++ [y] ++ p2 ++ h ++ [x]) (pssBlock p1.length salt).length
      (pssHash H input salt hashing) =
      p1 ++ [y] ++ p2 ++ pssHash H input salt hashing ++ [x] :=
    writeAt_append _ h [x] _ (by simp [pssBlock, hp2]) (by rw [hh, length_pssHash])
  have hsalt : (p1 ++ [y] ++ p2).take salt.length = salt := by
    have hread' : (p1 ++ [y] ++ p2 ++ (h ++ [x])).take salt.length = salt := by
      rw [← List.append_assoc]
      exact hread
    rwa [List.take_append_of_le_length (by simp; lia)] at hread'
  have hbuffer := pssPad_buffer p1 p2 (pssHash H input salt hashing) salt y x hp2 hsalt
  have hfinish := pssPad_finish H (pssBlock p1.length salt) (pssHash H input salt hashing) x hashing
    (by simp [pssBlock])
  have hctx : ((((hashInit hashing).update (List.replicate 8 0)).update input).update
      salt).final H = pssHash H input salt hashing := rfl
  rw [length_pssHash] at hfinish hend
  rw [hctx, hdbLen, hpsLen, hend, hhash, hbuffer, hfinish, Option.some.injEq]
  constructor
  · rintro rfl
    exact ⟨hinput, p1.length, salt, rfl, hk, rfl⟩
  · rintro ⟨-, k, salt, rfl, hk', rfl⟩
    obtain rfl : k = p1.length := by lia
    rfl

/-! ### The check -/

/-- The first bit is cleared before the mask comes off, and again behind it. -/
theorem clear_top_bit (d k : UInt8) : (((d ^^^ k) &&& 0x7F) ^^^ k) &&& 0x7F = d &&& 0x7F := by
  apply UInt8.toBitVec_inj.1
  simp only [UInt8.toBitVec_and, UInt8.toBitVec_xor]
  ext i hi
  simp only [BitVec.getElem_and, BitVec.getElem_xor]
  cases (UInt8.toBitVec 127)[i] <;> simp

/-- The first byte has a mask of its own. -/
theorem exists_mgf1Xor_cons (H : Digests) (seed : Bytes) (hashing : HashingMode) (n : Nat) :
    ∃ first rest, ∀ (d : UInt8) (ds : Bytes), ds.length = n →
      mgf1Xor H (d :: ds) seed hashing = (d ^^^ first) :: xorBytes ds rest ∧
        xorBytes (xorBytes ds rest) rest = ds := by
  have hlen := length_maskFrom H hashing seed ⟨0, 0⟩ (n + 1)
  obtain ⟨first, rest, hmask⟩ := List.exists_cons_of_length_eq_add_one hlen
  refine ⟨first, rest, fun d ds hds => ?_⟩
  rw [hmask, List.length_cons, Nat.add_right_cancel_iff] at hlen
  rw [mgf1Xor, mgf1XorFrom_eq, List.length_cons, hds, hmask]
  exact ⟨rfl, xorBytes_xorBytes (hds.trans hlen.symm)⟩

/-- The data block comes back, although a bit of it has been cleared under the mask. -/
theorem pssEncode_recover (H : Digests) {d : UInt8} (ds hash : Bytes) (hashing : HashingMode)
    (hd : d &&& 0x7F = d) :
    ∃ m ms, pssEncode H (d :: ds) hash hashing = (m &&& 0x7F) :: ms ++ hash ++ [0xBC] ∧
      ms.length = ds.length ∧
      (mgf1Xor H ((m &&& 0x7F) :: ms) hash hashing).set 0
        ((mgf1Xor H ((m &&& 0x7F) :: ms) hash hashing).getD 0 0 &&& 0x7F) = d :: ds := by
  obtain ⟨first, rest, hmask⟩ := exists_mgf1Xor_cons H hash hashing ds.length
  obtain ⟨henc, hback⟩ := hmask d ds rfl
  have hlen : (xorBytes ds rest).length = ds.length := by
    have := congrArg List.length henc
    rw [length_mgf1Xor, List.length_cons, List.length_cons] at this
    omega
  refine ⟨d ^^^ first, xorBytes ds rest, ?_, hlen, ?_⟩
  · rw [pssEncode, henc]
    rfl
  · rw [(hmask _ _ hlen).1, hback, List.set_cons_zero, List.getD_cons_zero, clear_top_bit, hd]

theorem pssScan_zeros (i k : Nat) (rest : Bytes) :
    pssScan 0 i (List.replicate k 0 ++ rest) = pssScan 0 (i + k) rest := by
  induction k generalizing i with
  | zero => rfl
  | succ k ih =>
      have hstep : ∀ bs, pssScan 0 i (0 :: bs) = pssScan 0 (i + 1) bs := by
        intro bs
        rw [pssScan, if_neg (by decide), UInt8.or_zero]
      rw [List.replicate_succ, List.cons_append, hstep, ih, Nat.add_assoc, Nat.add_comm 1]

/-- What the search finds in a data block. -/
theorem pssScan_block (k : Nat) (salt : Bytes) :
    pssScan 0 0 ((pssBlock k salt).take (k + salt.length)) = (k, 0) := by
  have htake : (pssBlock k salt).take (k + salt.length) =
      List.replicate k 0 ++ (1 :: salt).take salt.length := by
    rw [pssBlock, List.take_append, List.length_replicate, Nat.add_sub_cancel_left,
      List.take_of_length_le (by simp)]
  rw [htake, pssScan_zeros, Nat.zero_add]
  cases hlen : salt.length with
  | zero => rfl
  | succ n => rw [List.take_succ_cons, pssScan, if_pos rfl]

/-- With the salt of a string, the check compares the hashes. -/
theorem checkPkcs1PssPad_encode {H : Digests} {digest hash salt : Bytes} {hashing : HashingMode}
    {k : Nat} (hhash : hash.length = hashSize hashing) :
    checkPkcs1PssPad H digest (pssEncode H (pssBlock k salt) hash hashing) hashing = true ↔
      digest.length = hashSize hashing ∧ hash = pssHash H digest salt hashing := by
  obtain ⟨d, ds, hblock, hd⟩ : ∃ d ds, pssBlock k salt = d :: ds ∧ d &&& 0x7F = d := by
    cases k with
    | zero => exact ⟨1, salt, rfl, rfl⟩
    | succ k => exact ⟨0, _, rfl, rfl⟩
  obtain ⟨m, ms, henc, hms, hback⟩ := pssEncode_recover H ds hash hashing hd
  have hds : ds.length = k + salt.length := by
    have := congrArg List.length hblock
    simp only [pssBlock, List.length_append, List.length_replicate, List.length_cons] at this
    lia
  unfold checkPkcs1PssPad
  dsimp only
  by_cases hdigest : digest.length = hashSize hashing
  swap
  · rw [if_pos hdigest]
    exact iff_of_false (by simp) fun h => hdigest h.1
  rw [hblock, henc, if_neg (not_not.mpr hdigest), and_iff_right hdigest]
  have hlen : ((m &&& 0x7F) :: ms ++ hash ++ [0xBC]).length =
      k + salt.length + 1 + hashSize hashing + 1 := by
    simp only [List.length_append, List.length_cons, List.length_nil, hhash, hms, hds]
  have hclen : ((m &&& 0x7F) :: ms).length = k + salt.length + 1 := by
    rw [List.length_cons, hms, hds]
  have hrecover : (mgf1XorAt H ((m &&& 0x7F) :: ms ++ hash ++ [0xBC]) 0 (k + salt.length + 1)
      (k + salt.length + 1) (hashSize hashing) hashing).set 0
      ((mgf1XorAt H ((m &&& 0x7F) :: ms ++ hash ++ [0xBC]) 0 (k + salt.length + 1)
        (k + salt.length + 1) (hashSize hashing) hashing).getD 0 0 &&& 0x7F) =
      pssBlock k salt ++ hash ++ [0xBC] := by
    obtain ⟨hmask, hpos⟩ := mgf1XorAt_front H ((m &&& 0x7F) :: ms) hash [0xBC] hashing
      (List.cons_ne_nil _ _)
    rw [hclen, hhash] at hmask
    rw [hmask, set_zero_append hash [0xBC] hpos (· &&& 0x7F), hback, hblock]
  have hfirst : ((m &&& 0x7F) :: ms ++ hash ++ [0xBC]).getD 0 0 &&& 0x80 = 0 := by
    change (m &&& 0x7F) &&& 0x80 = 0
    rw [UInt8.and_assoc]
    exact UInt8.and_zero
  have hlast : ((m &&& 0x7F) :: ms ++ hash ++ [0xBC]).getD
      (k + salt.length + 1 + hashSize hashing) 0 = 0xBC := by
    have hpre : ((m &&& 0x7F) :: ms ++ hash).length = k + salt.length + 1 + hashSize hashing := by
      rw [List.length_append, hclen, hhash]
    rw [List.getD_eq_getElem?_getD, ← hpre, List.getElem?_concat_length]
    rfl
  have hscan : slice (pssBlock k salt ++ hash ++ [0xBC]) 0 (k + salt.length) =
      (pssBlock k salt).take (k + salt.length) := by
    rw [slice, List.drop_zero, List.append_assoc, List.take_append_of_le_length]
    simp [pssBlock]
  have hone : (pssBlock k salt ++ hash ++ [0xBC]).getD k 0 = 1 := by
    simp [pssBlock, List.getD_eq_getElem?_getD]
  have hsalt : slice (pssBlock k salt ++ hash ++ [0xBC]) (k + 1) salt.length = salt := by
    have : slice (List.replicate k 0 ++ [1] ++ salt ++ (hash ++ [0xBC])) (k + 1) salt.length =
        salt := slice_append _ salt _ (by simp) rfl
    simpa [pssBlock] using this
  have hhash' : slice (pssBlock k salt ++ hash ++ [0xBC]) (k + salt.length + 1)
      (hashSize hashing) = hash := by
    exact slice_append _ hash [0xBC] (by simp [pssBlock, Nat.add_assoc]) hhash
  rw [hlen, if_neg (by lia),
    show k + salt.length + 1 + hashSize hashing + 1 - hashSize hashing - 1 = k + salt.length + 1 by
      lia, Nat.add_sub_cancel, hrecover, hfirst, hlast, UInt8.xor_self, UInt8.or_zero,
    Nat.add_sub_cancel, hscan, pssScan_block]
  dsimp only
  rw [hone, UInt8.xor_self, UInt8.or_zero, UInt8.zero_or, Nat.add_sub_cancel_left,
    show k + salt.length + 1 - salt.length = k + 1 by lia, hsalt, hhash']
  rw [← dcryptoEquals_iff (hhash.trans (length_pssHash H digest salt hashing).symm)]
  change ((if dcryptoEquals hash (pssHash H digest salt hashing) = true then (0 : UInt8) else 1) ==
    0) = true ↔ _
  split <;> simp_all

end Dcrypto
end CrosEc
