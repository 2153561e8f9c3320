import CrosEc.Common

/-!
# `include/pinweaver_types.h`, `include/pinweaver.h`: the records of PinWeaver

Every record that crosses the interface or goes to flash is packed, so its layout is
a `Codec`.  Records that only live in RAM are plain structures.
-/

namespace CrosEc
namespace Pinweaver

open Lib

/-! ## Constants -/

def pwProtocolVersion : UInt8 := 1
def pwLeafMajorVersion : UInt16 := 0
def pwLeafMinorVersion : UInt16 := 1
def pwStorageVersion : UInt16 := 0
/-- `PW_MAX_MESSAGE_SIZE`: 2048 less the TPM command header. -/
def pwMaxMessageSize : Nat := 2036
def pwMaxPathSize : Nat := 1024
def pwHashSize : Nat := 32
def pwSecretSize : Nat := 32
def pwWrapBlockSize : Nat := 16
def pwSchedCount : Nat := 16
def pwMaxPcrCriteriaCount : Nat := 2
def pwLogEntryCount : Nat := 2
/-- `PW_BLOCK_ATTEMPTS` is `UINT32_MAX`. -/
def pwBlockAttempts : UInt32 := 0xffffffff

/-- `"pwT0"` -/
def pwTreeVar : Bytes := [0x70, 0x77, 0x54, 0x30]
/-- `"pwL0"` -/
def pwLogVar0 : Bytes := [0x70, 0x77, 0x4c, 0x30]

def pwErrVersionMismatch : Code := 0x10000
def pwErrTreeInvalid : Code := 0x10001
def pwErrLengthInvalid : Code := 0x10002
def pwErrTypeInvalid : Code := 0x10003
def pwErrBitsPerLevelInvalid : Code := 0x10004
def pwErrHeightInvalid : Code := 0x10005
def pwErrLabelInvalid : Code := 0x10006
def pwErrDelayScheduleInvalid : Code := 0x10007
def pwErrPathAuthFailed : Code := 0x10008
def pwErrLeafVersionMismatch : Code := 0x10009
def pwErrHmacAuthFailed : Code := 0x1000a
def pwErrLowentAuthFailed : Code := 0x1000b
def pwErrResetAuthFailed : Code := 0x1000c
def pwErrCryptoFailure : Code := 0x1000d
def pwErrRateLimitReached : Code := 0x1000e
def pwErrRootNotFound : Code := 0x1000f
def pwErrNvEmpty : Code := 0x10010
def pwErrNvLengthMismatch : Code := 0x10011
def pwErrNvVersionMismatch : Code := 0x10012
def pwErrPcrNotMatch : Code := 0x10013

/-! ## Message types -/

def pwMtInvalid : UInt8 := 0
def pwResetTree : UInt8 := 1
def pwInsertLeaf : UInt8 := 2
def pwRemoveLeaf : UInt8 := 3
def pwTryAuth : UInt8 := 4
def pwResetAuth : UInt8 := 5
def pwGetLog : UInt8 := 6
def pwLogReplay : UInt8 := 7

/-! ## Records -/

/-- A hash or an hmac in the tree. -/
abbrev Hash := Blob 32

abbrev Secret := Blob 32

/-- The hash of an empty slot. -/
def emptyHash : Hash := Arr.replicate 32 0

/-- `struct leaf_header_t`, with `struct leaf_version_t` spread out. -/
structure LeafHeader where
  minor : UInt16
  major : UInt16
  pubLen : UInt16
  secLen : UInt16
  deriving DecidableEq

/-- `struct pw_timestamp_t` -/
structure Timestamp where
  bootCount : UInt32
  timerValue : UInt64
  deriving DecidableEq

/-- `struct delay_schedule_entry_t` -/
structure DelayScheduleEntry where
  attemptCount : UInt32
  timeDiff : UInt32
  deriving DecidableEq

/-- `struct valid_pcr_value_t` -/
structure ValidPcrValue where
  bitmask : Blob 2
  digest : Blob 32
  deriving DecidableEq

/-- `struct leaf_public_data_t` -/
structure LeafPublicData where
  label : UInt64
  delaySchedule : Arr DelayScheduleEntry 16
  timestamp : Timestamp
  attemptCount : UInt32
  validPcrCriteria : Arr ValidPcrValue 2
  deriving DecidableEq

/-- `struct leaf_sensitive_data_t` -/
structure LeafSensitiveData where
  lowEntropySecret : Secret
  highEntropySecret : Secret
  resetSecret : Secret
  deriving DecidableEq

/-- `struct leaf_data_t` -/
structure LeafData where
  pub : LeafPublicData
  sec : LeafSensitiveData
  deriving DecidableEq

/-- `struct wrapped_leaf_data_t` -/
structure WrappedLeafData where
  head : LeafHeader
  hmac : Hash
  iv : Blob 16
  pub : LeafPublicData
  cipherText : Blob 96
  deriving DecidableEq

/-- `struct merkle_tree_t` -/
structure MerkleTree where
  bitsPerLevel : UInt8
  height : UInt8
  root : Hash
  keyDerivationNonce : Blob 16
  hmacKey : Blob 32
  wrapKey : Blob 32
  deriving DecidableEq

/-- `struct pw_get_log_entry_t`.  The union of `leaf_hmac` and of timestamp and return
code is kept as the bytes it occupies. -/
structure LogEntry where
  root : Hash
  label : UInt64
  type : UInt8
  data : Blob 32
  deriving DecidableEq

/-- `struct pw_log_storage_t` -/
structure LogStorage where
  storageVersion : UInt16
  restartCount : UInt32
  entries : Arr LogEntry 2
  deriving DecidableEq

/-- `struct pw_long_term_storage_t` -/
structure LongTermStorage where
  storageVersion : UInt16
  bitsPerLevel : UInt8
  height : UInt8
  keyDerivationNonce : Blob 16
  deriving DecidableEq

/-! ## Layouts -/

open Codec

def LeafHeader.codec : Codec LeafHeader :=
  (uint16.prod (uint16.prod (uint16.prod uint16))).ofEquiv
    { toFun := fun h => (h.minor, h.major, h.pubLen, h.secLen)
      invFun := fun t => ⟨t.1, t.2.1, t.2.2.1, t.2.2.2⟩
      left_inv := fun _ => rfl
      right_inv := fun _ => rfl }

def Timestamp.codec : Codec Timestamp :=
  (uint32.prod uint64).ofEquiv
    { toFun := fun t => (t.bootCount, t.timerValue)
      invFun := fun t => ⟨t.1, t.2⟩
      left_inv := fun _ => rfl
      right_inv := fun _ => rfl }

def DelayScheduleEntry.codec : Codec DelayScheduleEntry :=
  (uint32.prod uint32).ofEquiv
    { toFun := fun e => (e.attemptCount, e.timeDiff)
      invFun := fun t => ⟨t.1, t.2⟩
      left_inv := fun _ => rfl
      right_inv := fun _ => rfl }

def ValidPcrValue.codec : Codec ValidPcrValue :=
  ((blob 2).prod (blob 32)).ofEquiv
    { toFun := fun v => (v.bitmask, v.digest)
      invFun := fun t => ⟨t.1, t.2⟩
      left_inv := fun _ => rfl
      right_inv := fun _ => rfl }

def LeafPublicData.codec : Codec LeafPublicData :=
  (uint64.prod ((DelayScheduleEntry.codec.array 16).prod (Timestamp.codec.prod
    (uint32.prod (ValidPcrValue.codec.array 2))))).ofEquiv
    { toFun := fun p =>
        (p.label, p.delaySchedule, p.timestamp, p.attemptCount, p.validPcrCriteria)
      invFun := fun t => ⟨t.1, t.2.1, t.2.2.1, t.2.2.2.1, t.2.2.2.2⟩
      left_inv := fun _ => rfl
      right_inv := fun _ => rfl }

def LeafSensitiveData.codec : Codec LeafSensitiveData :=
  ((blob 32).prod ((blob 32).prod (blob 32))).ofEquiv
    { toFun := fun s => (s.lowEntropySecret, s.highEntropySecret, s.resetSecret)
      invFun := fun t => ⟨t.1, t.2.1, t.2.2⟩
      left_inv := fun _ => rfl
      right_inv := fun _ => rfl }

def WrappedLeafData.codec : Codec WrappedLeafData :=
  (LeafHeader.codec.prod ((blob 32).prod ((blob 16).prod
    (LeafPublicData.codec.prod (blob 96))))).ofEquiv
    { toFun := fun w => (w.head, w.hmac, w.iv, w.pub, w.cipherText)
      invFun := fun t => ⟨t.1, t.2.1, t.2.2.1, t.2.2.2.1, t.2.2.2.2⟩
      left_inv := fun _ => rfl
      right_inv := fun _ => rfl }

def LogEntry.codec : Codec LogEntry :=
  ((blob 32).prod (uint64.prod (uint8.prod (blob 32)))).ofEquiv
    { toFun := fun e => (e.root, e.label, e.type, e.data)
      invFun := fun t => ⟨t.1, t.2.1, t.2.2.1, t.2.2.2⟩
      left_inv := fun _ => rfl
      right_inv := fun _ => rfl }

def LogStorage.codec : Codec LogStorage :=
  (uint16.prod (uint32.prod (LogEntry.codec.array 2))).ofEquiv
    { toFun := fun l => (l.storageVersion, l.restartCount, l.entries)
      invFun := fun t => ⟨t.1, t.2.1, t.2.2⟩
      left_inv := fun _ => rfl
      right_inv := fun _ => rfl }

def LongTermStorage.codec : Codec LongTermStorage :=
  (uint16.prod (uint8.prod (uint8.prod (blob 16)))).ofEquiv
    { toFun := fun l => (l.storageVersion, l.bitsPerLevel, l.height, l.keyDerivationNonce)
      invFun := fun t => ⟨t.1, t.2.1, t.2.2.1, t.2.2.2⟩
      left_inv := fun _ => rfl
      right_inv := fun _ => rfl }

/-- The type-specific part of a `PW_TRY_AUTH` entry, which fills 16 of the 32 bytes. -/
def authRecord : Codec (Timestamp × UInt32) := Timestamp.codec.prod uint32

/-! ## Sizes -/

/-- `sizeof(struct unimported_leaf_data_t)`: header, hmac and iv. -/
def unimportedLeafSize : Nat := 56
/-- `PW_LEAF_PAYLOAD_SIZE`: public and encrypted data. -/
def pwLeafPayloadSize : Nat := 316
/-- `PW_VALID_PCR_CRITERIA_SIZE` -/
def pwValidPcrCriteriaSize : Nat := 68
/-- `sizeof(struct pw_request_header_t)` -/
def requestHeaderSize : Nat := 4
/-- `sizeof(struct pw_response_header_t)` -/
def responseHeaderSize : Nat := 39

example : LeafHeader.codec.size = 8 := rfl
example : LeafPublicData.codec.size = 220 := rfl
example : WrappedLeafData.codec.size = unimportedLeafSize + pwLeafPayloadSize := rfl
example : LogEntry.codec.size = 73 := rfl
example : LogStorage.codec.size = 152 := rfl
example : LongTermStorage.codec.size = 20 := rfl

end Pinweaver
end CrosEc
