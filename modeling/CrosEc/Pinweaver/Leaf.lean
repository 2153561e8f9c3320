import CrosEc.Pinweaver.Merkle

/-!
# Leaves: import, authentication, encryption, checks

A leaf comes in as bytes of unknown length; `import_leaf` sets up pointers into them
from the lengths in the header.  A pointer is the memory from there on, so the
fields of `ImportedLeaf` may run on past the leaf.
-/

namespace CrosEc
namespace Pinweaver

open Lib

/-- `struct imported_leaf_data_t`; `pub`, `cipherText` and `hashes` are pointers. -/
structure ImportedLeaf where
  head : LeafHeader
  hmac : Hash
  iv : Blob 16
  pub : Bytes
  cipherText : Bytes
  hashes : Bytes

/-- `import_leaf` -/
def importLeaf (unimported : Bytes) : ImportedLeaf :=
  let head := LeafHeader.codec.decode unimported
  let payload := unimported.drop unimportedLeafSize
  { head := head
    hmac := readBlob 32 (unimported.drop 8)
    iv := readBlob 16 (unimported.drop 40)
    pub := payload
    cipherText := payload.drop head.pubLen.toNat
    hashes := payload.drop (head.pubLen.toNat + head.secLen.toNat) }

/-- The leaf inside the memory it was imported from: public and encrypted data cut to
the lengths in the header. -/
structure LeafCopy where
  head : LeafHeader
  iv : Blob 16
  pub : Bytes
  cipherText : Bytes
  deriving DecidableEq

def ImportedLeaf.copy (leaf : ImportedLeaf) : LeafCopy where
  head := leaf.head
  iv := leaf.iv
  pub := readBytes leaf.head.pubLen.toNat leaf.pub
  cipherText := readBytes leaf.head.secLen.toNat leaf.cipherText

/-! ## The hmac of a leaf -/

/-- `sizeof(PW_WRAP_BLOCK_SIZE)`: the constant is an `int`. -/
def sizeofWrapBlockSize : Nat := 4

/-- What `compute_hmac` feeds to the HMAC, update by update. -/
def hmacInput (leaf : ImportedLeaf) : Bytes :=
  LeafHeader.codec.encode leaf.head ++ readBytes sizeofWrapBlockSize leaf.iv.val ++
    readBytes leaf.head.pubLen.toNat leaf.pub ++ readBytes leaf.head.secLen.toNat leaf.cipherText

variable (C : Crypto)

/-- `compute_hmac` -/
def computeHmac (tree : MerkleTree) (leaf : ImportedLeaf) : Hash :=
  C.hmacSha256 tree.hmacKey (hmacInput leaf)

/-- Equal up to the bytes of the iv that are not fed to the HMAC. -/
def LeafCopy.SameButIvTail (a b : LeafCopy) : Prop :=
  a.head = b.head ∧ a.iv.val.take sizeofWrapBlockSize = b.iv.val.take sizeofWrapBlockSize ∧
    a.pub = b.pub ∧ a.cipherText = b.cipherText

theorem LeafCopy.SameButIvTail.eq {a b : LeafCopy} (h : a.SameButIvTail b) (hiv : a.iv = b.iv) :
    a = b := by
  obtain ⟨hhead, -, hpub, hcipher⟩ := h
  cases a
  cases b
  simp_all

/-- The byte string fed to the HMAC determines the leaf up to the last twelve bytes of
its iv, and nothing of those. -/
theorem hmacInput_eq_iff {a b : ImportedLeaf} :
    hmacInput a = hmacInput b ↔ a.copy.SameButIvTail b.copy := by
  have hiv : ∀ leaf : ImportedLeaf, readBytes sizeofWrapBlockSize leaf.iv.val =
      leaf.iv.val.take sizeofWrapBlockSize := by
    intro leaf
    apply readBytes_eq_take
    rw [leaf.iv.property]
    decide
  unfold hmacInput LeafCopy.SameButIvTail ImportedLeaf.copy
  constructor
  · intro h
    simp only [List.append_assoc] at h
    obtain ⟨hhead, h⟩ := LeafHeader.codec.encode_append_inj h
    rw [hhead] at h
    obtain ⟨hivs, h⟩ := List.append_inj h (by simp)
    obtain ⟨hpub, hcipher⟩ := List.append_inj h (by simp)
    rw [hiv, hiv] at hivs
    exact ⟨hhead, hivs, by rw [hhead]; exact hpub, by rw [hhead]; exact hcipher⟩
  · rintro ⟨hhead, hivs, hpub, hcipher⟩
    simp only at hhead hivs hpub hcipher
    rw [hiv, hiv, hivs, hpub, hcipher, hhead]

/-- **What the leaf hmac binds.**  Two leaves with the same HMAC input have the same
header, iv, public data and cipher text, exactly if they are not a pair that agrees
everywhere except in iv bytes 4 to 15. -/
theorem hmacInput_binds_iff (a b : ImportedLeaf) :
    (hmacInput a = hmacInput b → a.copy = b.copy) ↔
      ¬ (a.copy.SameButIvTail b.copy ∧
        a.iv.val.drop sizeofWrapBlockSize ≠ b.iv.val.drop sizeofWrapBlockSize) := by
  rw [hmacInput_eq_iff]
  constructor
  · rintro h ⟨hsame, htail⟩
    have hiv : a.iv = b.iv := congrArg LeafCopy.iv (h hsame)
    exact htail (by rw [hiv])
  · intro h hsame
    have htail : a.iv.val.drop sizeofWrapBlockSize = b.iv.val.drop sizeofWrapBlockSize := by
      by_contra hne
      exact h ⟨hsame, hne⟩
    have hiv : a.copy.iv = b.copy.iv := by
      apply Subtype.ext
      rw [← List.take_append_drop sizeofWrapBlockSize a.copy.iv.val, hsame.2.1]
      exact (congrArg _ htail).trans (List.take_append_drop _ _)
    exact hsame.eq hiv

/-- A leaf of version 0.1 and the same leaf with one bit of iv byte 15 changed. -/
def zeroLeaf : ImportedLeaf where
  head := ⟨1, 0, 220, 96⟩
  hmac := emptyHash
  iv := Arr.replicate 16 0
  pub := []
  cipherText := []
  hashes := []

def tamperedLeaf : ImportedLeaf :=
  { zeroLeaf with iv := ⟨List.replicate 15 0 ++ [1], rfl⟩ }

theorem hmacInput_misses_iv :
    ¬ (hmacInput zeroLeaf = hmacInput tamperedLeaf → zeroLeaf.copy = tamperedLeaf.copy) := by
  intro h
  exact absurd (congrArg LeafCopy.iv (h rfl)) (by decide)

/-! ## Encryption -/

/-- The header that `init_wrapped_leaf_data` writes. -/
def currentHead : LeafHeader where
  minor := pwLeafMinorVersion
  major := pwLeafMajorVersion
  pubLen := 220
  secLen := 96

/-- `encrypt_leaf_data`: the iv that `rand_bytes` gave, and the cipher text. -/
def encryptLeafData (aesOk : Bool) (randIv : Blob 16) (tree : MerkleTree) (leaf : LeafData) :
    Except Code (Blob 16 × Blob 96) :=
  if aesOk = false then .error pwErrCryptoFailure
  else
    .ok (randIv, C.aesCtr tree.wrapKey randIv
      (readBlob 96 (LeafSensitiveData.codec.encode leaf.sec)))

/-- `decrypt_leaf_data` into a zeroed record: of the public data at most its own size
is copied, and memory that is not copied stays zero. -/
def decryptLeafData (aesOk : Bool) (tree : MerkleTree) (leaf : ImportedLeaf) :
    Except Code LeafData :=
  let pub := LeafPublicData.codec.decode
    (readBytes (min leaf.head.pubLen.toNat LeafPublicData.codec.size) leaf.pub)
  if aesOk = false then .error pwErrCryptoFailure
  else
    .ok { pub := pub
          sec := LeafSensitiveData.codec.decode
            (C.aesCtr tree.wrapKey leaf.iv (readBlob 96 leaf.cipherText)).val }

/-- The wrapped leaf with its hmac, which is computed over the imported record. -/
def sealLeaf (tree : MerkleTree) (iv : Blob 16) (pub : LeafPublicData) (cipherText : Blob 96) :
    WrappedLeafData :=
  let unsealed : WrappedLeafData :=
    { head := currentHead, hmac := emptyHash, iv := iv, pub := pub, cipherText := cipherText }
  { unsealed with
    hmac := computeHmac C tree (importLeaf (WrappedLeafData.codec.encode unsealed)) }

/-- `handle_leaf_update`: the wrapped leaf and the new root. -/
def handleLeafUpdate (aesOk : Bool) (randIv : Blob 16) (tree : MerkleTree) (leaf : LeafData)
    (hashes : Bytes) (old : Option ImportedLeaf) : Except Code (WrappedLeafData × Hash) :=
  let sealed :=
    match old with
    | none => encryptLeafData C aesOk randIv tree leaf
    | some imported => .ok (imported.iv, readBlob 96 imported.cipherText)
  match sealed with
  | .error code => .error code
  | .ok (iv, cipherText) =>
      let wrapped := sealLeaf C tree iv leaf.pub cipherText
      .ok (wrapped, computeRootHash C tree leaf.pub.label hashes wrapped.hmac)

/-! ## Checks -/

/-- The loop of `validate_delay_schedule`, from index `x` down to 1. -/
def validateDelayScheduleFrom (schedule : List DelayScheduleEntry) : Nat → Code
  | 0 => ecSuccess
  | x + 1 =>
      let entry := schedule.getD (x + 1) ⟨0, 0⟩
      let before := schedule.getD x ⟨0, 0⟩
      if entry.attemptCount = 0 then
        if entry.timeDiff ≠ 0 then pwErrDelayScheduleInvalid
        else validateDelayScheduleFrom schedule x
      else if entry.attemptCount ≤ before.attemptCount || entry.timeDiff ≤ before.timeDiff then
        pwErrDelayScheduleInvalid
      else validateDelayScheduleFrom schedule x

/-- `validate_delay_schedule` -/
def validateDelaySchedule (schedule : Arr DelayScheduleEntry 16) : Code :=
  if (schedule.val.getD 0 ⟨0, 0⟩).timeDiff = 0 then pwErrDelayScheduleInvalid
  else validateDelayScheduleFrom schedule.val (pwSchedCount - 1)

/-- The loop of `validate_pcr_value`; `first` tells whether `index` is 0.  A digest
that cannot be read is `none`. -/
def validatePcrValueFrom (pcrDigest : Blob 2 → Option (Blob 32)) (first : Bool) :
    List ValidPcrValue → Code
  | [] => pwErrPcrNotMatch
  | criterion :: rest =>
      if criterion.bitmask = Arr.replicate 2 0 then
        if first then ecSuccess else pwErrPcrNotMatch
      else
        match pcrDigest criterion.bitmask with
        | none => pwErrPcrNotMatch
        | some digest =>
            if digest = criterion.digest then ecSuccess
            else validatePcrValueFrom pcrDigest false rest

/-- `validate_pcr_value` -/
def validatePcrValue (pcrDigest : Blob 2 → Option (Blob 32)) (criteria : Arr ValidPcrValue 2) :
    Code :=
  validatePcrValueFrom pcrDigest true criteria.val

/-- `expected_payload_len` -/
def expectedPayloadLen (minor : UInt16) : UInt32 :=
  if minor = 0 then UInt32.ofNat (pwLeafPayloadSize - pwValidPcrCriteriaSize)
  else if minor = pwLeafMinorVersion then UInt32.ofNat pwLeafPayloadSize
  else 0

/-- `validate_leaf_header` -/
def validateLeafHeader (head : LeafHeader) (payloadLen auxHashLen : UInt16) : Code :=
  let leafPayloadLen := head.pubLen.toUInt32 + head.secLen.toUInt32
  if head.major ≠ pwLeafMajorVersion then pwErrLeafVersionMismatch
  else if head.minor ≤ pwLeafMinorVersion ∧ leafPayloadLen ≠ expectedPayloadLen head.minor then
    pwErrLengthInvalid
  else if payloadLen.toUInt32 ≠ leafPayloadLen + auxHashLen.toUInt32 * UInt32.ofNat pwHashSize then
    pwErrLengthInvalid
  else ecSuccess

/-- `validate_request_with_path` -/
def validateRequestWithPath (tree : MerkleTree) (path : UInt64) (hashes : Bytes) (hmac : Hash) :
    Code :=
  if validateTree tree ≠ ecSuccess then validateTree tree
  else if validateLabel tree path ≠ ecSuccess then validateLabel tree path
  else authenticatePath C tree path hashes hmac

/-- The label that `pub->label` points to. -/
def ImportedLeaf.label (leaf : ImportedLeaf) : UInt64 := Codec.uint64.decode leaf.pub

/-- The defaults that `validate_request_with_wrapped_leaf` fills in for a leaf of
version 0.0. -/
def upgradeLeaf (head : LeafHeader) (leaf : LeafData) : LeafData :=
  if head.minor = 0 ∧ head.major = 0 then
    { leaf with pub := { leaf.pub with
        validPcrCriteria := Arr.replicate 2 ⟨Arr.replicate 2 0, Arr.replicate 32 0⟩ } }
  else leaf

/-- `validate_request_with_wrapped_leaf` -/
def validateRequestWithWrappedLeaf (aesOk : Bool) (tree : MerkleTree) (payloadLen : UInt16)
    (unimported : Bytes) : Except Code (ImportedLeaf × LeafData) :=
  let header := validateLeafHeader (LeafHeader.codec.decode unimported) payloadLen
    (getPathAuxiliaryHashCount tree).toUInt16
  if header ≠ ecSuccess then .error header
  else
    let imported := importLeaf unimported
    let pathOk := validateRequestWithPath C tree imported.label imported.hashes imported.hmac
    if pathOk ≠ ecSuccess then .error pathOk
    else if computeHmac C tree imported ≠ imported.hmac then .error pwErrHmacAuthFailed
    else
      match decryptLeafData C aesOk tree imported with
      | .error code => .error code
      | .ok leaf => .ok (imported, upgradeLeaf imported.head leaf)

/-! ## Time -/

/-- `SECOND` in microseconds. -/
def second : UInt64 := 1000000

/-- `update_timestamp` at time `now`. -/
def updateTimestamp (now : UInt64) (restartCount : UInt32) : Timestamp where
  bootCount := restartCount
  timerValue := now / second

/-- The loop of `test_rate_limit`: how many entries of the schedule are reached. -/
def reachedEntries (attemptCount : UInt32) : List DelayScheduleEntry → Nat
  | [] => 0
  | entry :: rest =>
      if entry.attemptCount = 0 then 0
      else if attemptCount < entry.attemptCount then 0
      else reachedEntries attemptCount rest + 1

/-- `test_rate_limit`: the code, and `seconds_to_wait` if it was set. -/
def testRateLimit (now : UInt64) (restartCount : UInt32) (pub : LeafPublicData) :
    Code × Option UInt32 :=
  let x := reachedEntries pub.attemptCount pub.delaySchedule.val
  let delay := if 0 < x then (pub.delaySchedule.val.getD (x - 1) ⟨0, 0⟩).timeDiff else 0
  if delay = 0 then (ecSuccess, none)
  else if delay = pwBlockAttempts then (pwErrRateLimitReached, some pwBlockAttempts)
  else
    let current := updateTimestamp now restartCount
    let readyTime :=
      if pub.timestamp.bootCount = current.bootCount then delay.toUInt64 + pub.timestamp.timerValue
      else delay.toUInt64
    if current.timerValue ≥ readyTime then (ecSuccess, none)
    else (pwErrRateLimitReached, some (readyTime - current.timerValue).toUInt32)

end Pinweaver
end CrosEc
