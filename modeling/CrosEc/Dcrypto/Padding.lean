import CrosEc.Common

/-!
# `chip/g/dcrypto/rsa.c`: the paddings

The padding of a message before the modular exponentiation, and its check afterwards: OAEP and
PKCS#1 type 2 for encryption, PKCS#1 type 1 and PSS for signatures.

The digests are parameters.  The random numbers are a sequence of words that is not zero for ever,
or else `pkcs1_type2_pad` would not return.
-/

namespace CrosEc
namespace Dcrypto

open Lib

/-- `enum hashing_mode` -/
inductive HashingMode where
  | sha1
  | sha256
  | sha384
  | sha512
  | null
  deriving DecidableEq

/-- The digests of the SHA engine. -/
structure Digests where
  sha1 : Bytes → Blob 20
  sha256 : Bytes → Blob 32

/-- `hash_size` of the paddings that hash. -/
def hashSize (hashing : HashingMode) : Nat := if hashing = .sha1 then 20 else 32

/-- `HASH_CTX`, with the bytes that have been hashed. -/
structure HashCtx where
  hashing : HashingMode
  data : Bytes

/-- `DCRYPTO_SHA1_init` or `DCRYPTO_SHA256_init` -/
def hashInit (hashing : HashingMode) : HashCtx := ⟨hashing, []⟩

def HashCtx.update (ctx : HashCtx) (data : Bytes) : HashCtx :=
  { ctx with data := ctx.data ++ data }

def HashCtx.final (H : Digests) (ctx : HashCtx) : Bytes :=
  if ctx.hashing = .sha1 then (H.sha1 ctx.data).val else (H.sha256 ctx.data).val

/-! ## Branch-free selection -/

/-- `msb_extend` -/
def msbExtend (a : UInt32) : UInt32 := (0 : UInt32) - (a >>> 31)

/-- `is_zero` -/
def isZero (a : UInt32) : UInt32 := msbExtend (~~~a &&& (a - 1))

/-- `select` -/
def select (mask a b : UInt32) : UInt32 := (mask &&& a) ||| (~~~mask &&& b)

/-- `DCRYPTO_equals` -/
def dcryptoEquals (a b : Bytes) : Bool :=
  (a.zip b).foldl (fun diff (x, y) => diff ||| (x ^^^ y)) 0 == (0 : UInt8)

/-! ## The mask generator -/

/-- The two lower bytes of `cnt`; the others stay zero. -/
structure Counter where
  b0 : UInt8
  b1 : UInt8

def Counter.bytes (cnt : Counter) : Bytes := [0, 0, cnt.b1, cnt.b0]

def Counter.next (cnt : Counter) : Counter :=
  if cnt.b0 + 1 = 0 then ⟨0, cnt.b1 + 1⟩ else ⟨cnt.b0 + 1, cnt.b1⟩

def xorBytes (dst digest : Bytes) : Bytes := List.zipWith (· ^^^ ·) dst digest

theorem hashSize_pos (hashing : HashingMode) : 0 < hashSize hashing := by
  unfold hashSize
  split <;> decide

/-- The loop of `MGF1_xor`, from a counter on. -/
def mgf1XorFrom (H : Digests) (hashing : HashingMode) (seed : Bytes) (cnt : Counter)
    (dst : Bytes) : Bytes :=
  if dst = [] then []
  else
    let digest := (((hashInit hashing).update seed).update cnt.bytes).final H
    xorBytes dst digest ++ mgf1XorFrom H hashing seed cnt.next (dst.drop (hashSize hashing))
termination_by dst.length
decreasing_by
  rename_i hne
  have := hashSize_pos hashing
  have := List.length_pos_iff.mpr hne
  rw [List.length_drop]
  omega

/-- `MGF1_xor`: the new contents of `dst`. -/
def mgf1Xor (H : Digests) (dst seed : Bytes) (hashing : HashingMode) : Bytes :=
  mgf1XorFrom H hashing seed ⟨0, 0⟩ dst

/-! ## Random numbers -/

/-- The words that `rand` returns, one after the other. -/
structure Rng where
  word : Nat → UInt32
  eventually : ∀ n, ∃ k, n ≤ k ∧ word k ≠ 0

/-- The bytes of a word, the least significant first. -/
def wordBytes (r : UInt32) : Bytes := encodeLE 4 r.toNat

/-- The loop of `oaep_pad` that fills the seed, four bytes at a time. -/
def seedBytes (rng : Rng) (start : Nat) : Nat → Bytes
  | 0 => []
  | n + 1 => wordBytes (rng.word start) ++ seedBytes rng (start + 1) n

/-- `rand_bytes`, which takes the most significant byte of a word first. -/
def randBytes (rng : Rng) (start len : Nat) : Bytes :=
  if len = 0 then []
  else (wordBytes (rng.word start)).reverse.take len ++ randBytes rng (start + 1) (len - 4)
termination_by len

/-- The bytes of a word that are not zero, as many as are missing, and how many still are. -/
def fillWord : Bytes → Nat → Bytes × Nat
  | _, 0 => ([], 0)
  | [], psLen + 1 => ([], psLen + 1)
  | b :: bs, psLen + 1 =>
      if b ≠ 0 then
        let (filled, rest) := fillWord bs psLen
        (b :: filled, rest)
      else fillWord bs (psLen + 1)

/-- The next word that is not zero. -/
def Rng.next (rng : Rng) (start : Nat) : Nat := Nat.find (rng.eventually start)

/-- A word of zeros brings the next one nearer. -/
theorem Rng.next_succ_lt (rng : Rng) {start : Nat} (h : rng.word start = 0) :
    rng.next (start + 1) - (start + 1) < rng.next start - start := by
  obtain ⟨hle, hne⟩ := Nat.find_spec (rng.eventually start)
  change start ≤ rng.next start at hle
  change rng.word (rng.next start) ≠ 0 at hne
  have hlt : start + 1 ≤ rng.next start := by
    rcases Nat.eq_or_lt_of_le hle with heq | hlt
    · rw [← heq] at hne
      exact absurd h hne
    · exact hlt
  have hnext : rng.next (start + 1) ≤ rng.next start :=
    Nat.find_min' (rng.eventually (start + 1)) ⟨hlt, hne⟩
  omega

/-! ## OAEP -/

/-- The bytes of a label that are hashed: a string with its end. -/
def labelBytes : Option Bytes → Bytes
  | none => []
  | some label => label.takeWhile (· ≠ 0) ++ [0]

def labelHash (H : Digests) (hashing : HashingMode) (label : Option Bytes) : Bytes :=
  ((hashInit hashing).update (labelBytes label)).final H

/-- `len` bytes of a buffer from `off` on. -/
def slice (buf : Bytes) (off len : Nat) : Bytes := (buf.drop off).take len

/-- `MGF1_xor` inside of a buffer. -/
def mgf1XorAt (H : Digests) (buf : Bytes) (dst dstLen seed seedLen : Nat)
    (hashing : HashingMode) : Bytes :=
  writeAt buf dst (mgf1Xor H (slice buf dst dstLen) (slice buf seed seedLen) hashing)

/-- `oaep_pad`: the padded message. -/
def oaepPad (H : Digests) (rng : Rng) (output msg : Bytes) (hashing : HashingMode)
    (label : Option Bytes) : Option Bytes :=
  let hs := hashSize hashing
  let maxMsgLen := output.length - 2 - 2 * hs
  let psLen := maxMsgLen - msg.length
  let seed := 1
  let phash := seed + hs
  let one := phash + hs + psLen
  if output.length < 2 + 2 * hs then none
  else if output.length - 2 - 2 * hs < msg.length then none
  else
    let output := List.replicate output.length 0
    let output := writeAt output seed (seedBytes rng 0 (hs / 4))
    let output := writeAt output phash (labelHash H hashing label)
    let output := writeAt output one [1]
    let output := writeAt output (one + 1) msg
    let output := mgf1XorAt H output phash (hs + 1 + maxMsgLen) seed hs hashing
    some (mgf1XorAt H output seed hs phash (hs + 1 + maxMsgLen) hashing)

/-- What the loop of `check_oaep_pad` knows. -/
structure OaepScan where
  oneIndex : UInt32
  lookingForOneByte : UInt32
  bad : UInt32

/-- One step of the loop, at index `i`. -/
def OaepScan.step (s : OaepScan) (i : UInt32) (b : UInt8) : OaepScan :=
  let equals0 := isZero b.toUInt32
  let equals1 := isZero (b.toUInt32 ^^^ 1)
  let oneIndex := select (s.lookingForOneByte &&& equals1) i s.oneIndex
  let lookingForOneByte := select equals1 0 s.lookingForOneByte
  ⟨oneIndex, lookingForOneByte, s.bad ||| (lookingForOneByte &&& ~~~equals0)⟩

def OaepScan.run (s : OaepScan) : Nat → Bytes → OaepScan
  | _, [] => s
  | i, b :: bs => (s.step (UInt32.ofNat i) b).run (i + 1) bs

/-- `check_oaep_pad`: the bytes that are copied to `out`. -/
def checkOaepPad (H : Digests) (outLen : Nat) (padded : Bytes) (hashing : HashingMode)
    (label : Option Bytes) : Option Bytes :=
  let hs := hashSize hashing
  let maxMsgLen := padded.length - 2 - 2 * hs
  let seed := 1
  let phash := seed + hs
  let ps := phash + hs
  if padded.length < 2 + 2 * hs then none
  else
    let padded := mgf1XorAt H padded seed hs phash (hs + 1 + maxMsgLen) hashing
    let padded := mgf1XorAt H padded phash (hs + 1 + maxMsgLen) seed hs hashing
    let bad : UInt32 :=
      if dcryptoEquals (slice padded phash hs) (labelHash H hashing label) then 0 else 1
    let bad := bad ||| (padded.getD 0 0).toUInt32
    let s := OaepScan.run ⟨0, ~~~0, bad⟩ ps (padded.drop ps)
    if s.bad ||| s.lookingForOneByte ≠ 0 then none
    else
      let oneIndex := (s.oneIndex + 1).toNat
      if outLen < padded.length - oneIndex then none else some (padded.drop oneIndex)

/-! ## PKCS#1 type 2 -/

/-- `RSA_PKCS1_PADDING_SIZE` -/
def rsaPkcs1PaddingSize : Nat := 11

theorem fillWord_le (bs : Bytes) (psLen : Nat) : (fillWord bs psLen).2 ≤ psLen := by
  fun_induction fillWord bs psLen with
  | case1 => exact le_refl 0
  | case2 psLen => exact le_refl _
  | case3 b bs psLen _ filled rest heq ih =>
      rw [heq] at ih
      exact Nat.le_succ_of_le ih
  | case4 b bs psLen _ ih => exact ih

theorem fillWord_lt {bs : Bytes} {psLen : Nat} (hpos : psLen ≠ 0) (hbs : ∃ b ∈ bs, b ≠ 0) :
    (fillWord bs psLen).2 < psLen := by
  fun_induction fillWord bs psLen with
  | case1 => exact absurd rfl hpos
  | case2 psLen => simp at hbs
  | case3 b bs psLen _ filled rest heq ih =>
      have := fillWord_le bs psLen
      rw [heq] at this
      exact Nat.lt_succ_of_le this
  | case4 b bs psLen hb ih =>
      apply ih hpos
      obtain ⟨c, hc, hne⟩ := hbs
      rcases List.mem_cons.mp hc with rfl | hc
      · exact absurd hne hb
      · exact ⟨c, hc, hne⟩

theorem exists_wordBytes_ne {r : UInt32} (h : r ≠ 0) : ∃ b ∈ wordBytes r, b ≠ 0 := by
  by_contra hall
  push Not at hall
  apply h
  have hbytes : wordBytes r = List.replicate 4 0 :=
    List.eq_replicate_iff.mpr ⟨length_encodeLE _ _, hall⟩
  have hround := decodeLE_encodeLE 4 r.toNat []
  have := r.toNat_lt
  rw [List.append_nil, show encodeLE 4 r.toNat = List.replicate 4 0 from hbytes,
    Nat.mod_eq_of_lt (by omega)] at hround
  exact UInt32.toNat.inj hround.symm

/-- The loop of `pkcs1_type2_pad`: `psLen` bytes that are not zero. -/
def type2Ps (rng : Rng) (start psLen : Nat) : Bytes :=
  if psLen = 0 then []
  else
    let filled := fillWord (wordBytes (rng.word start)) psLen
    filled.1 ++ type2Ps rng (start + 1) filled.2
termination_by (psLen, rng.next start - start)
decreasing_by
  rename_i hpos
  rcases Nat.eq_or_lt_of_le (fillWord_le (wordBytes (rng.word start)) psLen) with heq | hlt
  · have hword : rng.word start = 0 := by
      by_contra hne
      exact absurd heq (Nat.ne_of_lt (fillWord_lt hpos (exists_wordBytes_ne hne)))
    rw [heq]
    exact Prod.Lex.right psLen (rng.next_succ_lt hword)
  · exact Prod.Lex.left _ _ hlt

/-- `pkcs1_type2_pad`.  The pointer moves from byte to byte. -/
def pkcs1Type2Pad (rng : Rng) (padded input : Bytes) : Option Bytes :=
  if padded.length < rsaPkcs1PaddingSize then none
  else if padded.length - rsaPkcs1PaddingSize < input.length then none
  else
    let psLen := padded.length - 3 - input.length
    some ([0, 2] ++ type2Ps rng 0 psLen ++ [0] ++ input)

/-- What the loop of `check_pkcs1_type2_pad` knows. -/
structure Type2Scan where
  zeroIndex : UInt32
  lookingForIndex : UInt32

/-- One step of the loop, at index `i`. -/
def Type2Scan.step (s : Type2Scan) (i : UInt32) (b : UInt8) : Type2Scan :=
  let found := isZero b.toUInt32
  ⟨select (s.lookingForIndex &&& found) i s.zeroIndex, select found 0 s.lookingForIndex⟩

def Type2Scan.run (s : Type2Scan) : Nat → Bytes → Type2Scan
  | _, [] => s
  | i, b :: bs => (s.step (UInt32.ofNat i) b).run (i + 1) bs

/-- `check_pkcs1_type2_pad`: the bytes that are copied to `out`. -/
def checkPkcs1Type2Pad (outLen : Nat) (padded : Bytes) : Option Bytes :=
  if padded.length < rsaPkcs1PaddingSize then none
  else
    let valid : UInt32 := if padded.getD 0 0 = 0 then 1 else 0
    let valid := valid &&& (if padded.getD 1 0 = 2 then 1 else 0)
    let s := Type2Scan.run ⟨0, ~~~0⟩ 2 (padded.drop 2)
    let zeroIndex := s.zeroIndex + 1
    let valid := valid &&& ~~~s.lookingForIndex
    let valid := valid &&& (if rsaPkcs1PaddingSize ≤ zeroIndex.toNat then 1 else 0)
    if valid = 0 then none
    else if outLen < padded.length - zeroIndex.toNat then none
    else some (padded.drop zeroIndex.toNat)

/-! ## PKCS#1 type 1 -/

def sha1Der : Bytes :=
  [0x30, 0x21, 0x30, 0x09, 0x06, 0x05, 0x2b, 0x0e, 0x03, 0x02, 0x1a, 0x05, 0x00, 0x04, 0x14]

def sha256Der : Bytes :=
  [0x30, 0x31, 0x30, 0x0d, 0x06, 0x09, 0x60, 0x86, 0x48, 0x01, 0x65, 0x03, 0x04, 0x02, 0x01, 0x05,
    0x00, 0x04, 0x20]

def sha384Der : Bytes :=
  [0x30, 0x41, 0x30, 0x0d, 0x06, 0x09, 0x60, 0x86, 0x48, 0x01, 0x65, 0x03, 0x04, 0x02, 0x02, 0x05,
    0x00, 0x04, 0x30]

def sha512Der : Bytes :=
  [0x30, 0x51, 0x30, 0x0d, 0x06, 0x09, 0x60, 0x86, 0x48, 0x01, 0x65, 0x03, 0x04, 0x02, 0x03, 0x05,
    0x00, 0x04, 0x40]

/-- What `pkcs1_get_der` finds. -/
structure Der where
  der : Bytes
  hashSize : Nat

/-- `pkcs1_get_der`, of which the size zero allows any size. -/
def pkcs1GetDer : HashingMode → Der
  | .sha1 => ⟨sha1Der, 20⟩
  | .sha256 => ⟨sha256Der, 32⟩
  | .sha384 => ⟨sha384Der, 48⟩
  | .sha512 => ⟨sha512Der, 64⟩
  | .null => ⟨[], 0⟩

/-- `pkcs1_type1_pad`.  The pointer moves from byte to byte. -/
def pkcs1Type1Pad (padded input : Bytes) (hashing : HashingMode) : Option Bytes :=
  let ⟨der, hashSize⟩ := pkcs1GetDer hashing
  if padded.length < rsaPkcs1PaddingSize + der.length then none
  else if input.length = 0 ∨ (hashSize ≠ 0 ∧ input.length ≠ hashSize) then none
  else if padded.length - rsaPkcs1PaddingSize - der.length < input.length then none
  else
    let psLen := padded.length - 3 - der.length - input.length
    some ([0, 1] ++ List.replicate psLen 0xFF ++ [0] ++ der ++ input)

/-- `check_pkcs1_type1_pad` -/
def checkPkcs1Type1Pad (msg padded : Bytes) (hashing : HashingMode) : Bool :=
  let ⟨der, hashSize⟩ := pkcs1GetDer hashing
  if msg.length ≠ hashSize then false
  else if padded.length < rsaPkcs1PaddingSize + der.length + hashSize then false
  else
    let psLen := padded.length - 3 - der.length - hashSize
    if padded.getD 0 0 ≠ 0 ∨ padded.getD 1 0 ≠ 1 then false
    else if (slice padded 2 psLen).any (· ≠ 0xFF) then false
    else
      let i := psLen + 2
      if padded.getD i 0 ≠ 0 then false
      else if ¬ dcryptoEquals (slice padded (i + 1) der.length) der then false
      else dcryptoEquals msg (slice padded (i + 1 + der.length) hashSize)

/-! ## PSS -/

/-- `pkcs1_pss_pad` -/
def pkcs1PssPad (H : Digests) (rng : Rng) (padded input : Bytes) (hashing : HashingMode) :
    Option Bytes :=
  let hs := hashSize hashing
  let saltLen := min (padded.length - hs - 2) hs
  if input.length ≠ hs then none
  else if padded.length < hs + 2 then none
  else
    let paddedLen := padded.length
    let dbLen := paddedLen - hs - 1
    let padded := writeAt padded 0 (List.replicate 8 0)
    let ctx := ((hashInit hashing).update (slice padded 0 8)).update input
    let padded := writeAt padded 0 (randBytes rng 0 saltLen)
    let ctx := ctx.update (slice padded 0 saltLen)
    let padded := writeAt padded dbLen (ctx.final H)
    let psLen := dbLen - saltLen - 1
    let padded := moveWithin padded (psLen + 1) 0 saltLen
    let padded := writeAt padded 0 (List.replicate psLen 0)
    let padded := padded.set psLen 1
    let padded := mgf1XorAt H padded 0 dbLen dbLen hs hashing
    let padded := padded.set 0 (padded.getD 0 0 &&& 0x7F)
    some (padded.set (paddedLen - 1) 0xBC)

/-- The loop of `check_pkcs1_pss_pad`: the index where it stops, and `bad`. -/
def pssScan (bad : UInt8) : Nat → Bytes → Nat × UInt8
  | i, [] => (i, bad)
  | i, b :: bs => if b = 1 then (i, bad) else pssScan (bad ||| b) (i + 1) bs

/-- `check_pkcs1_pss_pad` -/
def checkPkcs1PssPad (H : Digests) (input padded : Bytes) (hashing : HashingMode) : Bool :=
  let hs := hashSize hashing
  if input.length ≠ hs then false
  else if padded.length < hs + 2 then false
  else
    let dbLen := padded.length - hs - 1
    let bad := padded.getD 0 0 &&& 0x80
    let bad := bad ||| (padded.getD (padded.length - 1) 0 ^^^ 0xBC)
    let padded := mgf1XorAt H padded 0 dbLen dbLen hs hashing
    let padded := padded.set 0 (padded.getD 0 0 &&& 0x7F)
    let maxPsLen := dbLen - 1
    let (i, bad) := pssScan bad 0 (slice padded 0 maxPsLen)
    let bad := bad ||| (padded.getD i 0 ^^^ 1)
    let saltLen := maxPsLen - i
    let ctx := (((hashInit hashing).update (List.replicate 8 0)).update input).update
      (slice padded (dbLen - saltLen) saltLen)
    let bad := bad ||| (if dcryptoEquals (slice padded dbLen hs) (ctx.final H) then 0 else 1)
    bad == 0

end Dcrypto
end CrosEc
