import CrosEc.Dcrypto.Masks

/-!
# OAEP

`check_oaep_pad` accepts exactly the strings that `oaep_pad` makes: a zero, a masked seed, and the
hash of the label, zeros, a one and the message, masked with that seed.
-/

namespace CrosEc
namespace Dcrypto

open Lib

/-! ## The search for the separator -/

namespace OaepScan

theorem step_found (s : OaepScan) (i : UInt32) (b : UInt8) (h : s.lookingForOneByte = 0) :
    s.step i b = s := by
  obtain ⟨oneIndex, looking, bad⟩ := s
  obtain rfl : looking = 0 := h
  simp [step]

theorem run_found (s : OaepScan) (i : Nat) (bs : Bytes) (h : s.lookingForOneByte = 0) :
    s.run i bs = s := by
  induction bs generalizing i with
  | nil => rfl
  | cons b bs ih => rw [run, step_found s _ b h, ih]

theorem step_bad {s : OaepScan} (i : UInt32) (b : UInt8) (h : s.bad ≠ 0) :
    (s.step i b).bad ≠ 0 := by
  intro hzero
  exact h (UInt32.or_eq_zero_iff.mp hzero).1

theorem run_bad {s : OaepScan} (i : Nat) (bs : Bytes) (h : s.bad ≠ 0) : (s.run i bs).bad ≠ 0 := by
  induction bs generalizing s i with
  | nil => exact h
  | cons b bs ih => exact ih (i + 1) (step_bad _ b h)

theorem step_zero (oneIndex bad i : UInt32) :
    step ⟨oneIndex, -1, bad⟩ i 0 = ⟨oneIndex, -1, bad⟩ := by
  simp [step, isZero_zero, isZero_one]

theorem step_one (oneIndex bad i : UInt32) : step ⟨oneIndex, -1, bad⟩ i 1 = ⟨i, 0, bad⟩ := by
  simp [step, isZero_zero, isZero_one]

theorem step_other (oneIndex bad i : UInt32) {b : UInt8} (h0 : b ≠ 0) (h1 : b ≠ 1) :
    (step ⟨oneIndex, -1, bad⟩ i b).bad ≠ 0 := by
  simp [step, isZero_toUInt32, isZero_toUInt32_xor_one, h0, h1]

/-- The separator is found behind any number of zeros. -/
theorem run_separator (oneIndex bad : UInt32) (i k : Nat) (msg : Bytes) :
    run ⟨oneIndex, -1, bad⟩ i (List.replicate k 0 ++ 1 :: msg) =
      ⟨UInt32.ofNat (i + k), 0, bad⟩ := by
  induction k generalizing i with
  | zero =>
      rw [List.replicate_zero, List.nil_append, run, step_one]
      exact run_found _ _ _ rfl
  | succ k ih =>
      rw [List.replicate_succ, List.cons_append, run, step_zero, ih, Nat.add_assoc,
        Nat.add_comm 1 k]

/-- Where nothing is bad at the end, there is a separator. -/
theorem exists_separator {oneIndex bad : UInt32} {i : Nat} {bs : Bytes}
    (hbad : (run ⟨oneIndex, -1, bad⟩ i bs).bad = 0)
    (hlooking : (run ⟨oneIndex, -1, bad⟩ i bs).lookingForOneByte = 0) :
    ∃ k msg, bs = List.replicate k 0 ++ 1 :: msg := by
  induction bs generalizing i with
  | nil => cases hlooking
  | cons b bs ih =>
      by_cases h1 : b = 1
      · exact ⟨0, bs, by rw [h1]; rfl⟩
      · by_cases h0 : b = 0
        · subst h0
          rw [run, step_zero] at hbad hlooking
          obtain ⟨k, msg, rfl⟩ := ih hbad hlooking
          exact ⟨k + 1, msg, rfl⟩
        · exact absurd hbad (run_bad (i + 1) bs (step_other oneIndex bad _ h0 h1))

end OaepScan

/-! ## What is padded -/

/-- A data block, masked with a seed that is masked with it. -/
def oaepEncode (H : Digests) (seed db : Bytes) (hashing : HashingMode) : Bytes :=
  let db := mgf1Xor H db seed hashing
  [0] ++ mgf1Xor H seed db hashing ++ db

/-- The data block of a message. -/
def oaepBlock (H : Digests) (hashing : HashingMode) (label : Option Bytes) (k : Nat)
    (msg : Bytes) : Bytes :=
  labelHash H hashing label ++ (List.replicate k 0 ++ 1 :: msg)

theorem length_oaepBlock (H : Digests) (hashing : HashingMode) (label : Option Bytes) (k : Nat)
    (msg : Bytes) :
    (oaepBlock H hashing label k msg).length = hashSize hashing + (k + (msg.length + 1)) := by
  simp [oaepBlock]

@[simp] theorem length_seedBytes (rng : Rng) (start n : Nat) :
    (seedBytes rng start n).length = 4 * n := by
  induction n generalizing start with
  | zero => rfl
  | succ n ih =>
      rw [seedBytes, List.length_append, ih, wordBytes, length_encodeLE]
      omega

theorem four_mul_hashSize_div (hashing : HashingMode) :
    4 * (hashSize hashing / 4) = hashSize hashing := by
  unfold hashSize
  split <;> rfl

/-- Both masks, in the order of `oaep_pad`. -/
theorem mgf1XorAt_encode (H : Digests) (seed db : Bytes) (hashing : HashingMode) :
    mgf1XorAt H (mgf1XorAt H ([0] ++ seed ++ db) (1 + seed.length) db.length 1 seed.length hashing)
      1 seed.length (1 + seed.length) db.length hashing = oaepEncode H seed db hashing := by
  have hdb : mgf1XorAt H ([0] ++ seed ++ db) (1 + seed.length) db.length 1 seed.length hashing =
      [0] ++ seed ++ mgf1Xor H db seed hashing :=
    mgf1XorAt_behind H [0] seed db hashing rfl rfl
  have hseed := mgf1XorAt_before H [0] seed (mgf1Xor H db seed hashing) [] hashing rfl rfl
  rw [List.append_nil, List.append_nil, length_mgf1Xor] at hseed
  rw [hdb]
  exact hseed

/-- Bytes that are written where there have only been zeros so far. -/
theorem writeAt_fresh (pre data : Bytes) (r off : Nat) (hoff : pre.length = off) :
    writeAt (pre ++ List.replicate (data.length + r) 0) off data =
      pre ++ data ++ List.replicate r 0 := by
  rw [List.replicate_add, ← List.append_assoc]
  exact writeAt_append pre _ _ data hoff List.length_replicate

/-- The buffer of `oaep_pad` before it is masked. -/
theorem oaepPad_buffer (seed hash msg : Bytes) (k : Nat) :
    writeAt (writeAt (writeAt (writeAt
      (List.replicate (1 + (seed.length + (hash.length + (k + (1 + (msg.length + 0)))))) 0)
      1 seed) (1 + seed.length) hash) (1 + seed.length + hash.length + k) [1])
      (1 + seed.length + hash.length + k + 1) msg =
      [0] ++ seed ++ (hash ++ (List.replicate k 0 ++ 1 :: msg)) := by
  have hone : writeAt ([0] ++ seed ++ hash ++ List.replicate k 0 ++
      List.replicate (1 + (msg.length + 0)) 0) (1 + seed.length + hash.length + k) [1] =
      [0] ++ seed ++ hash ++ List.replicate k 0 ++ [1] ++ List.replicate (msg.length + 0) 0 :=
    writeAt_fresh _ [1] _ _ (by simp; omega)
  rw [List.replicate_add, show List.replicate 1 (0 : UInt8) = [0] from rfl,
    writeAt_fresh [0] seed _ 1 rfl, writeAt_fresh _ hash _ _ (by simp; omega),
    List.replicate_add, ← List.append_assoc, hone, writeAt_fresh _ msg 0 _ (by simp; omega)]
  simp

/-- What `oaep_pad` makes. -/
theorem oaepPad_eq_some_iff {H : Digests} {rng : Rng} {output msg padded : Bytes}
    {hashing : HashingMode} {label : Option Bytes} :
    oaepPad H rng output msg hashing label = some padded ↔
      ∃ k, output.length = 2 + 2 * hashSize hashing + k + msg.length ∧
        padded = oaepEncode H (seedBytes rng 0 (hashSize hashing / 4))
          (oaepBlock H hashing label k msg) hashing := by
  unfold oaepPad
  dsimp only
  by_cases hsmall : output.length < 2 + 2 * hashSize hashing
  · rw [if_pos hsmall]
    refine iff_of_false (by simp) ?_
    rintro ⟨k, hk, -⟩
    lia
  by_cases hlarge : output.length - 2 - 2 * hashSize hashing < msg.length
  · rw [if_neg hsmall, if_pos hlarge]
    refine iff_of_false (by simp) ?_
    rintro ⟨k, hk, -⟩
    lia
  rw [if_neg hsmall, if_neg hlarge]
  obtain ⟨k, hk⟩ : ∃ k, output.length = 2 + 2 * hashSize hashing + k + msg.length :=
    ⟨output.length - 2 - 2 * hashSize hashing - msg.length, by lia⟩
  have hps : output.length - 2 - 2 * hashSize hashing - msg.length = k := by lia
  have hmax : output.length - 2 - 2 * hashSize hashing = k + msg.length := by lia
  have hdb : hashSize hashing + 1 + (k + msg.length) =
      (oaepBlock H hashing label k msg).length := by
    rw [length_oaepBlock]
    lia
  have hseed : (seedBytes rng 0 (hashSize hashing / 4)).length = hashSize hashing := by
    rw [length_seedBytes, four_mul_hashSize_div]
  have hbuffer := oaepPad_buffer (seedBytes rng 0 (hashSize hashing / 4))
    (labelHash H hashing label) msg k
  rw [length_labelHash, hseed,
    show 1 + (hashSize hashing + (hashSize hashing + (k + (1 + (msg.length + 0))))) =
      output.length by lia] at hbuffer
  have hmask := mgf1XorAt_encode H (seedBytes rng 0 (hashSize hashing / 4))
    (oaepBlock H hashing label k msg) hashing
  rw [hseed] at hmask
  rw [hps, hmax, hdb, hbuffer]
  change some (mgf1XorAt H (mgf1XorAt H ([0] ++ _ ++ oaepBlock H hashing label k msg) _ _ _ _ _)
    _ _ _ _ _) = some padded ↔ _
  rw [hmask, Option.some.injEq]
  constructor
  · rintro rfl
    exact ⟨k, hk, rfl⟩
  · rintro ⟨k', hk', rfl⟩
    obtain rfl : k' = k := by lia
    rfl

/-! ## What is accepted -/

/-- Both masks are taken off, in the order of `check_oaep_pad`. -/
theorem mgf1XorAt_decode (H : Digests) (z : UInt8) (s d : Bytes) (hashing : HashingMode) :
    mgf1XorAt H (mgf1XorAt H ([z] ++ s ++ d) 1 s.length (1 + s.length) d.length hashing)
      (1 + s.length) d.length 1 s.length hashing =
      [z] ++ mgf1Xor H s d hashing ++ mgf1Xor H d (mgf1Xor H s d hashing) hashing := by
  have hseed : mgf1XorAt H ([z] ++ s ++ d) 1 s.length (1 + s.length) d.length hashing =
      [z] ++ mgf1Xor H s d hashing ++ d := by
    have : mgf1XorAt H ([z] ++ s ++ d ++ []) 1 s.length (1 + s.length) d.length hashing =
        [z] ++ mgf1Xor H s d hashing ++ d ++ [] :=
      mgf1XorAt_before H [z] s d [] hashing rfl rfl
    rwa [List.append_nil, List.append_nil] at this
  have hdb := mgf1XorAt_behind H [z] (mgf1Xor H s d hashing) d hashing rfl rfl
  rw [length_mgf1Xor] at hdb
  rw [hseed]
  exact hdb

/-- The end of `check_oaep_pad`, with the masks taken off. -/
def oaepAccept (H : Digests) (outLen : Nat) (z : UInt8) (seed db : Bytes) (hashing : HashingMode)
    (label : Option Bytes) : Option Bytes :=
  let hs := hashSize hashing
  let padded := [z] ++ seed ++ db
  let bad : UInt32 := if dcryptoEquals (db.take hs) (labelHash H hashing label) then 0 else 1
  let s := OaepScan.run ⟨0, -1, bad ||| z.toUInt32⟩ (1 + hs + hs) (db.drop hs)
  if s.bad ||| s.lookingForOneByte ≠ 0 then none
  else
    let oneIndex := (s.oneIndex + 1).toNat
    if outLen < padded.length - oneIndex then none else some (padded.drop oneIndex)

theorem checkOaepPad_eq (H : Digests) (outLen : Nat) (z : UInt8) {s d : Bytes}
    {hashing : HashingMode} (label : Option Bytes) (hs : s.length = hashSize hashing)
    (hd : hashSize hashing + 1 ≤ d.length) :
    checkOaepPad H outLen ([z] ++ s ++ d) hashing label =
      oaepAccept H outLen z (mgf1Xor H s d hashing)
        (mgf1Xor H d (mgf1Xor H s d hashing) hashing) hashing label := by
  have hlen : ([z] ++ s ++ d).length = 1 + hashSize hashing + d.length := by
    rw [List.length_append, List.length_append, hs, List.length_singleton]
  have hdlen : hashSize hashing + 1 + (([z] ++ s ++ d).length - 2 - 2 * hashSize hashing) =
      d.length := by lia
  have hmask := mgf1XorAt_decode H z s d hashing
  rw [hs] at hmask
  unfold checkOaepPad
  dsimp only
  rw [if_neg (by lia), hdlen, hmask]
  generalize hseed : mgf1Xor H s d hashing = seed
  generalize hdb : mgf1Xor H d seed hashing = db
  have hseedlen : ([z] ++ seed).length = 1 + hashSize hashing := by
    rw [← hseed, List.length_append, length_mgf1Xor, hs, List.length_singleton]
  have hslice : slice ([z] ++ seed ++ db) (1 + hashSize hashing) (hashSize hashing) =
      db.take (hashSize hashing) := by
    rw [slice, List.drop_left' hseedlen]
  have hdrop : ([z] ++ seed ++ db).drop (1 + hashSize hashing + hashSize hashing) =
      db.drop (hashSize hashing) := by
    rw [List.drop_append, hseedlen, List.drop_of_length_le (by lia), List.nil_append,
      Nat.add_sub_cancel_left]
  rw [hslice, hdrop]
  rfl

/-- With a separator, only the hash and the first byte count, and the room for the message. -/
theorem oaepAccept_separator {H : Digests} {outLen : Nat} {z : UInt8} {seed hash msg : Bytes}
    {hashing : HashingMode} {label : Option Bytes} {k : Nat}
    (hseed : seed.length = hashSize hashing) (hhash : hash.length = hashSize hashing)
    (hsize : 1 + seed.length + hash.length + k + (msg.length + 1) < 2 ^ 32) :
    oaepAccept H outLen z seed (hash ++ (List.replicate k 0 ++ 1 :: msg)) hashing label =
      if hash = labelHash H hashing label ∧ z = 0 ∧ msg.length ≤ outLen then some msg
      else none := by
  unfold oaepAccept
  dsimp only
  rw [List.take_left' hhash, List.drop_left' hhash, OaepScan.run_separator]
  dsimp only
  have hbad : ((if dcryptoEquals hash (labelHash H hashing label) = true then (0 : UInt32) else 1)
      ||| z.toUInt32 ||| 0 = 0) ↔ hash = labelHash H hashing label ∧ z = 0 := by
    rw [UInt32.or_zero, UInt32.or_eq_zero_iff,
      ← dcryptoEquals_iff (hhash.trans (length_labelHash H hashing label).symm)]
    apply and_congr
    · split <;> simp_all
    · exact ⟨fun h => by simpa using congrArg UInt32.toUInt8 h, fun h => by rw [h]; rfl⟩
  have hindex : (UInt32.ofNat (1 + hashSize hashing + hashSize hashing + k) + 1).toNat =
      1 + hashSize hashing + hashSize hashing + k + 1 := by
    rw [UInt32.toNat_add, UInt32.toNat_ofNat']
    simp only [UInt32.reduceToNat]
    omega
  have hsplit : [z] ++ seed ++ (hash ++ (List.replicate k 0 ++ 1 :: msg)) =
      ([z] ++ seed ++ hash ++ List.replicate k 0 ++ [1]) ++ msg := by simp
  have hpre : ([z] ++ seed ++ hash ++ List.replicate k 0 ++ [1]).length =
      1 + hashSize hashing + hashSize hashing + k + 1 := by
    simp only [List.length_append, List.length_singleton, List.length_replicate, hseed, hhash]
  rw [hindex, hsplit, List.drop_left' hpre, List.length_append, hpre, Nat.add_sub_cancel_left]
  by_cases hgood : hash = labelHash H hashing label ∧ z = 0
  · rw [if_neg (not_not.mpr (hbad.mpr hgood))]
    by_cases hout : outLen < msg.length
    · rw [if_pos hout, if_neg fun h => absurd h.2.2 (Nat.not_le.mpr hout)]
    · rw [if_neg hout, if_pos ⟨hgood.1, hgood.2, Nat.not_lt.mp hout⟩]
  · rw [if_pos (mt hbad.mp hgood), if_neg fun h => hgood ⟨h.1, h.2.1⟩]

/-- Everything that `check_oaep_pad` accepts, with the masks taken off. -/
theorem oaepAccept_eq_some_iff {H : Digests} {outLen : Nat} {z : UInt8} {seed db msg : Bytes}
    {hashing : HashingMode} {label : Option Bytes} (hseed : seed.length = hashSize hashing)
    (hsize : 1 + seed.length + db.length < 2 ^ 32) (hdb : hashSize hashing ≤ db.length) :
    oaepAccept H outLen z seed db hashing label = some msg ↔
      msg.length ≤ outLen ∧ z = 0 ∧ ∃ k, db = oaepBlock H hashing label k msg := by
  have htake : (db.take (hashSize hashing)).length = hashSize hashing := by
    rw [List.length_take, Nat.min_eq_left hdb]
  constructor
  · intro h
    obtain ⟨k, msg', hdrop⟩ : ∃ k msg', db.drop (hashSize hashing) =
        List.replicate k 0 ++ 1 :: msg' := by
      have hgood := (Option.ite_none_left_eq_some.mp h).1
      rw [ne_eq, not_not, UInt32.or_eq_zero_iff] at hgood
      exact OaepScan.exists_separator hgood.1 hgood.2
    have hblock : db = db.take (hashSize hashing) ++ (List.replicate k 0 ++ 1 :: msg') := by
      rw [← hdrop, List.take_append_drop]
    have hlen := congrArg List.length hdrop
    rw [List.length_drop, List.length_append, List.length_replicate, List.length_cons] at hlen
    rw [hblock, oaepAccept_separator hseed htake (by lia)] at h
    obtain ⟨⟨hhash, hz, hout⟩, hmsg⟩ := Option.ite_none_right_eq_some.mp h
    obtain rfl := Option.some.inj hmsg
    rw [hhash] at hblock
    exact ⟨hout, hz, k, hblock⟩
  · rintro ⟨hout, rfl, k, rfl⟩
    rw [length_oaepBlock] at hsize
    rw [oaepBlock, oaepAccept_separator hseed (length_labelHash H hashing label) (by simp; lia)]
    exact if_pos ⟨rfl, rfl, hout⟩

theorem oaepEncode_eq_iff {H : Digests} {z : UInt8} {s d seed db : Bytes} {hashing : HashingMode}
    (hlen : s.length = seed.length) :
    [z] ++ s ++ d = oaepEncode H seed db hashing ↔
      z = 0 ∧ mgf1Xor H s d hashing = seed ∧ mgf1Xor H d seed hashing = db := by
  constructor
  · intro h
    have hfirst := List.append_inj h (by simp [hlen])
    have hz := List.append_inj hfirst.1 rfl
    have hd : mgf1Xor H d seed hashing = db := mgf1Xor_eq_iff.mpr hfirst.2
    have hs : mgf1Xor H s d hashing = seed := by
      rw [hz.2, hfirst.2]
      exact mgf1Xor_mgf1Xor H seed _ hashing
    exact ⟨List.singleton_injective hz.1, hs, hd⟩
  · rintro ⟨rfl, hs, rfl⟩
    unfold oaepEncode
    dsimp only
    rw [mgf1Xor_mgf1Xor, mgf1Xor_eq_iff.mp hs]

/-- What `check_oaep_pad` accepts. -/
theorem checkOaepPad_eq_some_iff {H : Digests} {outLen : Nat} {padded msg : Bytes}
    {hashing : HashingMode} {label : Option Bytes} (hsize : padded.length < 2 ^ 32) :
    checkOaepPad H outLen padded hashing label = some msg ↔
      msg.length ≤ outLen ∧ ∃ seed k, seed.length = hashSize hashing ∧
        padded = oaepEncode H seed (oaepBlock H hashing label k msg) hashing := by
  by_cases hsmall : padded.length < 2 + 2 * hashSize hashing
  · refine iff_of_false (by simp [checkOaepPad, hsmall]) ?_
    rintro ⟨-, seed, k, hseed, rfl⟩
    simp only [oaepEncode, List.length_append, List.length_singleton, length_mgf1Xor, hseed,
      length_oaepBlock] at hsmall
    lia
  obtain ⟨z, s, d, hs, rfl⟩ : ∃ z s d, s.length = hashSize hashing ∧ padded = [z] ++ s ++ d := by
    cases padded with
    | nil => simp at hsmall
    | cons z rest =>
        rw [List.length_cons] at hsmall
        refine ⟨z, rest.take (hashSize hashing), rest.drop (hashSize hashing), ?_, ?_⟩
        · rw [List.length_take]
          lia
        · rw [List.append_assoc, List.take_append_drop, List.singleton_append]
  rw [List.length_append, List.length_append, hs, List.length_singleton] at hsize hsmall
  rw [checkOaepPad_eq H outLen z label hs (by lia),
    oaepAccept_eq_some_iff (by rw [length_mgf1Xor, hs]) (by simpa [hs] using hsize)
      (by rw [length_mgf1Xor]; lia)]
  apply and_congr_right'
  constructor
  · rintro ⟨hz, k, hk⟩
    exact ⟨_, k, by rw [length_mgf1Xor, hs], (oaepEncode_eq_iff (by rw [length_mgf1Xor])).mpr
      ⟨hz, rfl, hk⟩⟩
  · rintro ⟨seed, k, hseed, h⟩
    obtain ⟨hz, rfl, hk⟩ := (oaepEncode_eq_iff (hs.trans hseed.symm)).mp h
    exact ⟨hz, k, hk⟩

end Dcrypto
end CrosEc
