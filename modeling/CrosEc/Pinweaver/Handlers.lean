import CrosEc.Pinweaver.Log

/-!
# The request handlers

One function for each handler of `pinweaver.c`, then `pw_handle_request` with the
conversions for protocol version 0, and `pw_vendor_specific_command` on top.

A request body is the memory behind the request header.  A handler returns its code,
the new state, the bytes it wrote to the response and the length it reported.
-/

namespace CrosEc
namespace Pinweaver

open Lib

/-- `struct pw_request_t` -/
structure Request where
  version : UInt8
  type : UInt8
  dataLength : UInt16
  body : Bytes

/-- `struct pw_response_t` -/
structure Response where
  version : UInt8
  dataLength : UInt16
  resultCode : Code
  root : Hash
  body : Bytes

/-- What a handler leaves behind. -/
structure Outcome (n : Nat) where
  code : Code
  state : State n
  body : Bytes
  dataLength : UInt16

/-- A handler that returns before it has written anything to the response. -/
def Outcome.fail {n : Nat} (code : Code) (s : State n) : Outcome n := ⟨code, s, [], 0⟩

/-! ## Request fields -/

/-- `sizeof(struct pw_request_insert_leaf_t)` -/
def insertLeafSize : Nat := 300
/-- `sizeof(struct pw_request_insert_leaf00_t)` -/
def insertLeaf00Size : Nat := 232
/-- `sizeof(struct pw_request_remove_leaf_t)` -/
def removeLeafSize : Nat := 40
/-- `sizeof(struct pw_request_try_auth_t)`, and of the reset and replay requests: 32
bytes and the fixed part of a leaf. -/
def leafRequestSize : Nat := 88

/-- The first 32 bytes of a try, reset or replay request: the low entropy secret, the
reset secret or the root. -/
def leafRequestHead (body : Bytes) : Blob 32 := readBlob 32 body

/-- The leaf of a try, reset or replay request. -/
def leafRequestLeaf (body : Bytes) : Bytes := body.drop 32

def insertLeafLabel (body : Bytes) : UInt64 := Codec.uint64.decode body

def insertLeafPath (body : Bytes) : Bytes := body.drop insertLeafSize

/-- The leaf that an insert request describes, from a zeroed record. -/
def insertLeafData (body : Bytes) : LeafData where
  pub :=
    { label := insertLeafLabel body
      delaySchedule := (DelayScheduleEntry.codec.array 16).decode (body.drop 8)
      timestamp := ⟨0, 0⟩
      attemptCount := 0
      validPcrCriteria := (ValidPcrValue.codec.array 2).decode (body.drop 232) }
  sec :=
    { lowEntropySecret := readBlob 32 (body.drop 136)
      highEntropySecret := readBlob 32 (body.drop 168)
      resetSecret := readBlob 32 (body.drop 200) }

def removeLeafLocation (body : Bytes) : UInt64 := Codec.uint64.decode body

def removeLeafHmac (body : Bytes) : Hash := readBlob 32 (body.drop 8)

def removeLeafPath (body : Bytes) : Bytes := body.drop removeLeafSize

/-! ## Handlers -/

section Handlers

variable (B : Board) (env : Env B.cfg.bufferSize)

/-- `sizeof(*request) + get_path_auxiliary_hash_count(tree) * PW_HASH_SIZE`, as the
32-bit number that `req_size` is compared with. -/
def sizeWithPath (tree : MerkleTree) (fixed : Nat) : UInt32 :=
  UInt32.ofNat fixed + getPathAuxiliaryHashCount tree * UInt32.ofNat pwHashSize

/-- `pw_handle_reset_tree` -/
def handleResetTree (reqSize : UInt16) (body : Bytes) (s : State B.cfg.bufferSize) :
    Outcome B.cfg.bufferSize :=
  let bitsPerLevel := Codec.uint8.decode body
  let height := Codec.uint8.decode (body.drop 1)
  if reqSize ≠ 2 then .fail pwErrLengthInvalid s
  else if validateTreeParameters bitsPerLevel height ≠ ecSuccess then
    .fail (validateTreeParameters bitsPerLevel height) s
  else
    let created := createMerkleTree B.crypto env.keys bitsPerLevel height env.nonce
    if created.1 ≠ ecSuccess then .fail created.1 s
    else
      let stored := storeMerkleTree B.cfg B.nvmem env.io created.2 s.restartCount s.vars
      if stored.1 ≠ ecSuccess then .fail stored.1 { s with vars := stored.2.2 }
      else .fail ecSuccess { tree := created.2, restartCount := stored.2.1, vars := stored.2.2 }

/-- `pw_handle_insert_leaf` -/
def handleInsertLeaf (reqSize : UInt16) (body : Bytes) (s : State B.cfg.bufferSize) :
    Outcome B.cfg.bufferSize :=
  let label := insertLeafLabel body
  let path := insertLeafPath body
  let leaf := insertLeafData body
  let pathOk := validateRequestWithPath B.crypto s.tree label path emptyHash
  if reqSize.toUInt32 ≠ sizeWithPath s.tree insertLeafSize then .fail pwErrLengthInvalid s
  else if pathOk ≠ ecSuccess then .fail pathOk s
  else if validateDelaySchedule leaf.pub.delaySchedule ≠ ecSuccess then
    .fail (validateDelaySchedule leaf.pub.delaySchedule) s
  else
    match handleLeafUpdate B.crypto env.aesOk env.iv s.tree leaf path none with
    | .error code => .fail code s
    | .ok (wrapped, newRoot) =>
        let logged := logInsertLeaf B.cfg B.nvmem env.io label newRoot wrapped.hmac s.vars
        if logged.1 ≠ ecSuccess then .fail logged.1 { s with vars := logged.2 }
        else
          { code := ecSuccess
            state := { s with tree := { s.tree with root := newRoot }, vars := logged.2 }
            body := WrappedLeafData.codec.encode wrapped
            dataLength := UInt16.ofNat (unimportedLeafSize + pwLeafPayloadSize) }

/-- `pw_handle_remove_leaf` -/
def handleRemoveLeaf (reqSize : UInt16) (body : Bytes) (s : State B.cfg.bufferSize) :
    Outcome B.cfg.bufferSize :=
  let location := removeLeafLocation body
  let path := removeLeafPath body
  let pathOk := validateRequestWithPath B.crypto s.tree location path (removeLeafHmac body)
  if reqSize.toUInt32 ≠ sizeWithPath s.tree removeLeafSize then .fail pwErrLengthInvalid s
  else if pathOk ≠ ecSuccess then .fail pathOk s
  else
    let newRoot := computeRootHash B.crypto s.tree location path emptyHash
    let logged := logRemoveLeaf B.cfg B.nvmem env.io location newRoot s.vars
    if logged.1 ≠ ecSuccess then .fail logged.1 { s with vars := logged.2 }
    else .fail ecSuccess { s with tree := { s.tree with root := newRoot }, vars := logged.2 }

/-- The row of `results_table` that applies: code, attempts and whether the secrets
are returned. -/
def tryAuthResult (lowEntropySecret : Secret) (leaf : LeafData) : Code × UInt32 :=
  if lowEntropySecret = leaf.sec.lowEntropySecret then (ecSuccess, 0)
  else
    (pwErrLowentAuthFailed,
      if leaf.pub.attemptCount = 0xffffffff then leaf.pub.attemptCount
      else leaf.pub.attemptCount + 1)

/-- The leaf after an attempt. -/
def tryAuthLeaf (now : UInt64) (restartCount : UInt32) (lowEntropySecret : Secret)
    (leaf : LeafData) : LeafData :=
  { leaf with pub := { leaf.pub with
      timestamp := updateTimestamp now restartCount
      attemptCount := (tryAuthResult lowEntropySecret leaf).2 } }

/-- `pw_handle_try_auth` -/
def handleTryAuth (reqSize : UInt16) (body : Bytes) (s : State B.cfg.bufferSize) :
    Outcome B.cfg.bufferSize :=
  let responseSize := 124 + pwLeafPayloadSize
  if reqSize < UInt16.ofNat leafRequestSize then .fail pwErrLengthInvalid s
  else
    match validateRequestWithWrappedLeaf B.crypto env.aesOk s.tree
        (reqSize - UInt16.ofNat leafRequestSize) (leafRequestLeaf body) with
    | .error code => .fail code s
    | .ok (imported, leaf) =>
        if validatePcrValue env.pcrDigest leaf.pub.validPcrCriteria ≠ ecSuccess then
          .fail (validatePcrValue env.pcrDigest leaf.pub.validPcrCriteria) s
        else
          let rate := testRateLimit env.now s.restartCount leaf.pub
          if rate.1 ≠ ecSuccess then
            { code := rate.1
              state := s
              body := readBytes responseSize (Codec.uint32.encode (rate.2.getD 0))
              dataLength := UInt16.ofNat responseSize }
          else
            let result := tryAuthResult (leafRequestHead body) leaf
            let updated := tryAuthLeaf env.later s.restartCount (leafRequestHead body) leaf
            match handleLeafUpdate B.crypto env.aesOk env.iv s.tree updated imported.hashes
                (some imported) with
            | .error code => .fail code s
            | .ok (wrapped, newRoot) =>
                let logged := logAuth B.cfg B.nvmem env.io wrapped.pub.label newRoot result.1
                  updated.pub.timestamp s.vars
                if logged.1 ≠ ecSuccess then .fail logged.1 { s with vars := logged.2 }
                else
                  let secret :=
                    if result.1 = ecSuccess then leaf.sec.highEntropySecret else emptyHash
                  let resetSecret :=
                    if result.1 = ecSuccess then leaf.sec.resetSecret else emptyHash
                  { code := result.1
                    state := { s with tree := { s.tree with root := newRoot }, vars := logged.2 }
                    body := Codec.uint32.encode 0 ++ secret.val ++ resetSecret.val ++
                      WrappedLeafData.codec.encode wrapped
                    dataLength := UInt16.ofNat responseSize }

/-- The leaf after a reset. -/
def resetAuthLeaf (leaf : LeafData) : LeafData :=
  { leaf with pub := { leaf.pub with attemptCount := 0 } }

/-- `pw_handle_reset_auth` -/
def handleResetAuth (reqSize : UInt16) (body : Bytes) (s : State B.cfg.bufferSize) :
    Outcome B.cfg.bufferSize :=
  if reqSize < UInt16.ofNat leafRequestSize then .fail pwErrLengthInvalid s
  else
    match validateRequestWithWrappedLeaf B.crypto env.aesOk s.tree
        (reqSize - UInt16.ofNat leafRequestSize) (leafRequestLeaf body) with
    | .error code => .fail code s
    | .ok (imported, leaf) =>
        if leafRequestHead body ≠ leaf.sec.resetSecret then .fail pwErrResetAuthFailed s
        else
          let updated := resetAuthLeaf leaf
          match handleLeafUpdate B.crypto env.aesOk env.iv s.tree updated imported.hashes
              (some imported) with
          | .error code => .fail code s
          | .ok (wrapped, newRoot) =>
              let logged := logAuth B.cfg B.nvmem env.io updated.pub.label newRoot ecSuccess
                updated.pub.timestamp s.vars
              if logged.1 ≠ ecSuccess then .fail logged.1 { s with vars := logged.2 }
              else
                { code := ecSuccess
                  state := { s with tree := { s.tree with root := newRoot }, vars := logged.2 }
                  body := leaf.sec.highEntropySecret.val ++ WrappedLeafData.codec.encode wrapped
                  dataLength := UInt16.ofNat (leafRequestSize + pwLeafPayloadSize) }

/-- `pw_handle_get_log`.  The entries up to the relevant one are copied, each adding
its size to the length. -/
def handleGetLog (reqSize : UInt16) (body : Bytes) (s : State B.cfg.bufferSize) :
    Outcome B.cfg.bufferSize :=
  if reqSize ≠ 32 then .fail pwErrLengthInvalid s
  else if validateTree s.tree ≠ ecSuccess then .fail (validateTree s.tree) s
  else
    let loaded := loadLogData B.cfg env.io s.vars
    match loaded.1 with
    | .error code => .fail code { s with vars := loaded.2 }
    | .ok log =>
        let x := (findRelevantEntry log (readBlob 32 body)).2
        if x < 0 then .fail ecSuccess { s with vars := loaded.2 }
        else
          let entries := log.entries.val.take (x.toNat + 1)
          { code := ecSuccess
            state := { s with vars := loaded.2 }
            body := LogEntry.codec.encodeList entries
            dataLength := UInt16.ofNat ((x.toNat + 1) * LogEntry.codec.size) }

/-- The leaf with the metadata of a log entry. -/
def replayLeaf (e : LogEntry) (leaf : LeafData) : LeafData :=
  { leaf with pub := { leaf.pub with
      attemptCount := if e.returnCode = ecSuccess then 0 else leaf.pub.attemptCount + 1
      timestamp := e.timestamp } }

/-- `pw_handle_log_replay` -/
def handleLogReplay (reqSize : UInt16) (body : Bytes) (s : State B.cfg.bufferSize) :
    Outcome B.cfg.bufferSize :=
  let header := validateLeafHeader (LeafHeader.codec.decode (leafRequestLeaf body))
    (reqSize - UInt16.ofNat leafRequestSize) (getPathAuxiliaryHashCount s.tree).toUInt16
  if reqSize < UInt16.ofNat leafRequestSize then .fail pwErrLengthInvalid s
  else if validateTree s.tree ≠ ecSuccess then .fail (validateTree s.tree) s
  else if header ≠ ecSuccess then .fail header s
  else
    let imported := importLeaf (leafRequestLeaf body)
    let loaded := loadLogData B.cfg env.io s.vars
    let s := { s with vars := loaded.2 }
    match loaded.1 with
    | .error code => .fail code s
    | .ok log =>
        let found := findRelevantEntry log (leafRequestHead body)
        if found.1 ≠ ecSuccess then .fail found.1 s
        else
          let entry := log.entries.val.getD found.2.toNat (plainEntry pwMtInvalid 0 emptyHash)
          if entry.type ≠ pwTryAuth then .fail pwErrTypeInvalid s
          else if computeHmac B.crypto s.tree imported ≠ imported.hmac then
            .fail pwErrHmacAuthFailed s
          else
            match decryptLeafData B.crypto env.aesOk s.tree imported with
            | .error code => .fail code s
            | .ok leaf =>
                if leaf.pub.label ≠ entry.label then .fail pwErrLabelInvalid s
                else
                  match handleLeafUpdate B.crypto env.aesOk env.iv s.tree (replayLeaf entry leaf)
                      imported.hashes (some imported) with
                  | .error code => .fail code s
                  | .ok (wrapped, root) =>
                      if root ≠ entry.root then .fail pwErrPathAuthFailed s
                      else
                        { code := ecSuccess
                          state := s
                          body := WrappedLeafData.codec.encode wrapped
                          dataLength := UInt16.ofNat (unimportedLeafSize + pwLeafPayloadSize) }

/-! ## Requests -/

/-- `make_compatible_request`; `none` is an unsupported version. -/
def makeCompatibleRequest (tree : MerkleTree) (r : Request) : Option Request :=
  if r.version = 0 then
    if r.type = pwInsertLeaf then
      let hashesSize :=
        (getPathAuxiliaryHashCount tree * UInt32.ofNat pwHashSize).toUInt16.toNat
      some { r with
        dataLength := r.dataLength + UInt16.ofNat pwValidPcrCriteriaSize
        body := readBytes insertLeaf00Size r.body ++ List.replicate pwValidPcrCriteriaSize 0 ++
          readBytes hashesSize (r.body.drop insertLeaf00Size) ++
          r.body.drop (insertLeafSize + hashesSize) }
    else some r
  else if r.version = pwProtocolVersion then some r
  else none

/-- The switch of `pw_handle_request`. -/
def dispatch (r : Request) (s : State B.cfg.bufferSize) : Outcome B.cfg.bufferSize :=
  if r.type = pwResetTree then handleResetTree B env r.dataLength r.body s
  else if r.type = pwInsertLeaf then handleInsertLeaf B env r.dataLength r.body s
  else if r.type = pwRemoveLeaf then handleRemoveLeaf B env r.dataLength r.body s
  else if r.type = pwTryAuth then handleTryAuth B env r.dataLength r.body s
  else if r.type = pwResetAuth then handleResetAuth B env r.dataLength r.body s
  else if r.type = pwGetLog then handleGetLog B env r.dataLength r.body s
  else if r.type = pwLogReplay then handleLogReplay B env r.dataLength r.body s
  else .fail pwErrTypeInvalid s

/-- The handler's part of `pw_handle_request`, up to the label `cleanup:`. -/
def handle (r : Request) (s : State B.cfg.bufferSize) : Outcome B.cfg.bufferSize :=
  match makeCompatibleRequest s.tree r with
  | none => .fail pwErrVersionMismatch s
  | some r' => dispatch B env r' s

/-- `make_compatible_response`.  Version 0 of a try response has no reset secret: the
leaf moves down over it. -/
def makeCompatibleResponse (version type : UInt8) (resp : Response) : Response :=
  if pwProtocolVersion ≤ version then resp
  else if version = 0 ∧ type = pwTryAuth then
    { resp with
      version := version
      dataLength := resp.dataLength - UInt16.ofNat pwSecretSize
      body := resp.body.take 36 ++ resp.body.drop (36 + pwSecretSize) }
  else { resp with version := version }

/-- `pw_handle_request`: the response and the new state. -/
def handleRequest (r : Request) (s : State B.cfg.bufferSize) :
    Response × State B.cfg.bufferSize :=
  let o := handle B env r s
  (makeCompatibleResponse r.version r.type
    { version := pwProtocolVersion
      dataLength := o.dataLength
      resultCode := o.code
      root := o.state.tree.root
      body := o.body }, o.state)

/-- The request in the command buffer. -/
def parseRequest (buf : Bytes) : Request where
  version := Codec.uint8.decode buf
  type := Codec.uint8.decode (buf.drop 1)
  dataLength := Codec.uint16.decode (buf.drop 2)
  body := buf.drop requestHeaderSize

def vendorRcSuccess : Code := 0
def vendorRcInternalError : Code := 6
def vendorRcRequestTooBig : Code := 4

/-- `pw_vendor_specific_command`: the code, the response with the size it reports, and
the new state. -/
def vendorSpecificCommand (buf : Bytes) (s : State B.cfg.bufferSize) :
    Code × Option (Response × Nat) × State B.cfg.bufferSize :=
  let request := parseRequest buf
  if buf.length < requestHeaderSize then (vendorRcInternalError, none, s)
  else if buf.length ≠ request.dataLength.toNat + requestHeaderSize then
    (vendorRcRequestTooBig, none, s)
  else
    let r := handleRequest B env request s
    (vendorRcSuccess, some (r.1, r.1.dataLength.toNat + responseHeaderSize), r.2)

end Handlers

/-! ## A small board

One NVMEM user of 192 bytes for the variables: room for the two variables of PinWeaver
and a tuple of five bytes.  The concrete runs below use it. -/

def testBoard : Board where
  cfg :=
    { userSizes := [192]
      bufferSize := 192
      sizes_fit := by decide
      partition_lt := by decide
      user := 0
      size := 192
      user_size := rfl }
  crypto := testCrypto
  nvmem := Nvmem.xorPlatform _

/-- A request during which everything works, two seconds after the boot. -/
def testEnv : Env testBoard.cfg.bufferSize where
  nonce := Arr.replicate 16 1
  iv := Arr.replicate 16 2
  now := 2000000
  later := 2000001
  pcrDigest := fun _ => none
  keys := { appkeyInit := true, deriveWrap := true, deriveHmac := true }
  aesOk := true
  io := { task := 1, acquire := ecSuccess, save := Nvmem.SaveOutcome.ok _ }

/-- A new device: nothing in flash yet, no tree, and an empty variable store in RAM. -/
def blankState : State testBoard.cfg.bufferSize where
  tree :=
    { bitsPerLevel := 0
      height := 0
      root := emptyHash
      keyDerivationNonce := Arr.replicate 16 0
      hmacKey := Arr.replicate 32 0
      wrapKey := Arr.replicate 32 0 }
  restartCount := 0
  vars :=
    { nvmem := { Nvmem.powerOn (fun _ => Nvmem.Partition.erased _) with
        cache := Nvmem.Partition.filled _ 0xff
        commitsEnabled := true }
      rbuf := some (Vars.encodeStore testBoard.cfg.size []) }

/-- A reset to a tree of two slots. -/
def resetRequest : Request where
  version := 1
  type := pwResetTree
  dataLength := 2
  body := [1, 1]

end Pinweaver
end CrosEc
