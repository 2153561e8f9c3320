import CrosEc.Pinweaver.Handlers

/-!
# What a handler can do

One inversion lemma for each handler: it rejects the request and leaves the state
alone, or the request passes all checks and the handler stores a new log; it changes
the tree only if that succeeds.  Everything proved about requests starts from these.
-/

namespace CrosEc
namespace Pinweaver

open Lib

section Cases

variable (B : Board) (env : Env B.cfg.bufferSize) (reqSize : UInt16) (body : Bytes)
  (s : State B.cfg.bufferSize)

/-- The state after a request that stored its log entry. -/
def State.committed {n : Nat} (s : State n) (root : Hash) (vars : Vars.State n) : State n :=
  { s with tree := { s.tree with root := root }, vars := vars }

/-! ## Reset -/

/-- A reset request whose new tree is ready to be stored. -/
structure ResetAccepted (tree : MerkleTree) : Prop where
  size : reqSize = 2
  params : validateTreeParameters (Codec.uint8.decode body) (Codec.uint8.decode (body.drop 1)) =
    ecSuccess
  created : createMerkleTree B.crypto env.keys (Codec.uint8.decode body)
    (Codec.uint8.decode (body.drop 1)) env.nonce = (ecSuccess, tree)

theorem handleResetTree_cases :
    (∃ code, code ≠ ecSuccess ∧ handleResetTree B env reqSize body s = .fail code s) ∨
      ∃ tree, ResetAccepted B env reqSize body tree ∧
        (((storeMerkleTree B.cfg B.nvmem env.io tree s.restartCount s.vars).1 ≠ ecSuccess ∧
            handleResetTree B env reqSize body s =
              .fail (storeMerkleTree B.cfg B.nvmem env.io tree s.restartCount s.vars).1
                { s with vars :=
                    (storeMerkleTree B.cfg B.nvmem env.io tree s.restartCount s.vars).2.2 }) ∨
          ((storeMerkleTree B.cfg B.nvmem env.io tree s.restartCount s.vars).1 = ecSuccess ∧
            handleResetTree B env reqSize body s =
              .fail ecSuccess
                { tree := tree
                  restartCount :=
                    (storeMerkleTree B.cfg B.nvmem env.io tree s.restartCount s.vars).2.1
                  vars :=
                    (storeMerkleTree B.cfg B.nvmem env.io tree s.restartCount s.vars).2.2 })) := by
  unfold handleResetTree
  simp only
  split
  · exact Or.inl ⟨_, by decide, rfl⟩
  · split
    · exact Or.inl ⟨_, by assumption, rfl⟩
    · split
      · exact Or.inl ⟨_, by assumption, rfl⟩
      · rename_i hsize hparams hcreated
        refine Or.inr ⟨_, ⟨not_not.mp hsize, not_not.mp hparams,
          Prod.ext (not_not.mp hcreated) rfl⟩, ?_⟩
        split
        · exact Or.inl ⟨by assumption, rfl⟩
        · rename_i hstored
          exact Or.inr ⟨not_not.mp hstored, rfl⟩

/-! ## Insert and remove -/

/-- An insert request that passed all checks, with the leaf and the root it leads to. -/
structure InsertAccepted (wrapped : WrappedLeafData) (newRoot : Hash) : Prop where
  size : reqSize.toUInt32 = sizeWithPath s.tree insertLeafSize
  path : validateRequestWithPath B.crypto s.tree (insertLeafLabel body) (insertLeafPath body)
    emptyHash = ecSuccess
  schedule : validateDelaySchedule (insertLeafData body).pub.delaySchedule = ecSuccess
  update : handleLeafUpdate B.crypto env.aesOk env.iv s.tree (insertLeafData body)
    (insertLeafPath body) none = .ok (wrapped, newRoot)

theorem handleInsertLeaf_cases :
    (∃ code, code ≠ ecSuccess ∧ handleInsertLeaf B env reqSize body s = .fail code s) ∨
      ∃ wrapped newRoot, InsertAccepted B env reqSize body s wrapped newRoot ∧
        ∃ logged, logged = logInsertLeaf B.cfg B.nvmem env.io (insertLeafLabel body) newRoot
            wrapped.hmac s.vars ∧
          ((logged.1 ≠ ecSuccess ∧
              handleInsertLeaf B env reqSize body s = .fail logged.1 { s with vars := logged.2 }) ∨
            (logged.1 = ecSuccess ∧
              handleInsertLeaf B env reqSize body s =
                ⟨ecSuccess, s.committed newRoot logged.2, WrappedLeafData.codec.encode wrapped,
                  UInt16.ofNat (unimportedLeafSize + pwLeafPayloadSize)⟩)) := by
  unfold handleInsertLeaf
  simp only
  split
  · exact Or.inl ⟨_, by decide, rfl⟩
  · split
    · exact Or.inl ⟨_, by assumption, rfl⟩
    · split
      · exact Or.inl ⟨_, by assumption, rfl⟩
      · rename_i hsize hpath hschedule
        cases hupdate : handleLeafUpdate B.crypto env.aesOk env.iv s.tree (insertLeafData body)
            (insertLeafPath body) none with
        | error code =>
            refine Or.inl ⟨code, ?_, rfl⟩
            unfold handleLeafUpdate encryptLeafData at hupdate
            simp only at hupdate
            split at hupdate
            · rename_i herr
              split at herr
              · cases herr
                cases hupdate
                decide
              · cases herr
            · cases hupdate
        | ok r =>
            obtain ⟨wrapped, newRoot⟩ := r
            refine Or.inr ⟨wrapped, newRoot, ⟨not_not.mp hsize, not_not.mp hpath,
              not_not.mp hschedule, hupdate⟩, _, rfl, ?_⟩
            simp only
            split
            · exact Or.inl ⟨by assumption, rfl⟩
            · rename_i hlogged
              exact Or.inr ⟨not_not.mp hlogged, rfl⟩

/-- A remove request that passed all checks. -/
structure RemoveAccepted : Prop where
  size : reqSize.toUInt32 = sizeWithPath s.tree removeLeafSize
  path : validateRequestWithPath B.crypto s.tree (removeLeafLocation body) (removeLeafPath body)
    (removeLeafHmac body) = ecSuccess

/-- The root that a remove request leads to. -/
def removedRoot : Hash :=
  computeRootHash B.crypto s.tree (removeLeafLocation body) (removeLeafPath body) emptyHash

theorem handleRemoveLeaf_cases :
    (∃ code, code ≠ ecSuccess ∧ handleRemoveLeaf B env reqSize body s = .fail code s) ∨
      (RemoveAccepted B reqSize body s ∧
        ∃ logged, logged = logRemoveLeaf B.cfg B.nvmem env.io (removeLeafLocation body)
            (removedRoot B body s) s.vars ∧
          ((logged.1 ≠ ecSuccess ∧
              handleRemoveLeaf B env reqSize body s = .fail logged.1 { s with vars := logged.2 }) ∨
            (logged.1 = ecSuccess ∧
              handleRemoveLeaf B env reqSize body s =
                .fail ecSuccess (s.committed (removedRoot B body s) logged.2)))) := by
  unfold handleRemoveLeaf
  simp only
  split
  · exact Or.inl ⟨_, by decide, rfl⟩
  · split
    · exact Or.inl ⟨_, by assumption, rfl⟩
    · rename_i hsize hpath
      refine Or.inr ⟨⟨not_not.mp hsize, not_not.mp hpath⟩, _, rfl, ?_⟩
      simp only [removedRoot]
      split
      · exact Or.inl ⟨by assumption, rfl⟩
      · rename_i hlogged
        exact Or.inr ⟨not_not.mp hlogged, rfl⟩

/-! ## Requests with a wrapped leaf -/

/-- What `validate_request_with_wrapped_leaf` has checked when it returns success. -/
structure LeafAccepted (aesOk : Bool) (tree : MerkleTree) (payloadLen : UInt16)
    (unimported : Bytes) (leaf : LeafData) : Prop where
  header : validateLeafHeader (LeafHeader.codec.decode unimported) payloadLen
    (getPathAuxiliaryHashCount tree).toUInt16 = ecSuccess
  path : validateRequestWithPath B.crypto tree (importLeaf unimported).label
    (importLeaf unimported).hashes (importLeaf unimported).hmac = ecSuccess
  hmac : computeHmac B.crypto tree (importLeaf unimported) = (importLeaf unimported).hmac
  decrypted : ∃ raw, decryptLeafData B.crypto aesOk tree (importLeaf unimported) = .ok raw ∧
    leaf = upgradeLeaf (importLeaf unimported).head raw

theorem validateRequestWithWrappedLeaf_cases (aesOk : Bool) (tree : MerkleTree)
    (payloadLen : UInt16) (unimported : Bytes) :
    (∃ code, code ≠ ecSuccess ∧
        validateRequestWithWrappedLeaf B.crypto aesOk tree payloadLen unimported = .error code) ∨
      ∃ leaf, LeafAccepted B aesOk tree payloadLen unimported leaf ∧
        validateRequestWithWrappedLeaf B.crypto aesOk tree payloadLen unimported =
          .ok (importLeaf unimported, leaf) := by
  unfold validateRequestWithWrappedLeaf
  simp only
  split
  · exact Or.inl ⟨_, by assumption, rfl⟩
  · split
    · exact Or.inl ⟨_, by assumption, rfl⟩
    · split
      · exact Or.inl ⟨_, by decide, rfl⟩
      · rename_i hheader hpath hhmac
        cases hdecrypt : decryptLeafData B.crypto aesOk tree (importLeaf unimported) with
        | error code =>
            refine Or.inl ⟨code, ?_, rfl⟩
            unfold decryptLeafData at hdecrypt
            simp only at hdecrypt
            split at hdecrypt
            · cases hdecrypt
              decide
            · cases hdecrypt
        | ok raw =>
            exact Or.inr ⟨_, ⟨not_not.mp hheader, not_not.mp hpath, not_not.mp hhmac,
              raw, hdecrypt, rfl⟩, rfl⟩

theorem validateRequestWithWrappedLeaf_of_accepted {aesOk : Bool} {tree : MerkleTree}
    {payloadLen : UInt16} {unimported : Bytes} {leaf : LeafData}
    (h : LeafAccepted B aesOk tree payloadLen unimported leaf) :
    validateRequestWithWrappedLeaf B.crypto aesOk tree payloadLen unimported =
      .ok (importLeaf unimported, leaf) := by
  obtain ⟨hheader, hpath, hhmac, raw, hraw, rfl⟩ := h
  simp [validateRequestWithWrappedLeaf, hheader, hpath, hhmac, hraw]

theorem LeafAccepted.unique {aesOk : Bool} {tree : MerkleTree} {payloadLen : UInt16}
    {unimported : Bytes} {leaf leaf' : LeafData}
    (h : LeafAccepted B aesOk tree payloadLen unimported leaf)
    (h' : LeafAccepted B aesOk tree payloadLen unimported leaf') : leaf = leaf' := by
  have heq := validateRequestWithWrappedLeaf_of_accepted B h
  rw [validateRequestWithWrappedLeaf_of_accepted B h'] at heq
  cases heq
  rfl

/-- The wrapped leaf with new public data and the old cipher text. -/
def rewrap (tree : MerkleTree) (imported : ImportedLeaf) (pub : LeafPublicData) :
    WrappedLeafData :=
  sealLeaf B.crypto tree imported.iv pub (readBlob 96 imported.cipherText)

/-- The root with that leaf in its slot. -/
def rewrapRoot (tree : MerkleTree) (imported : ImportedLeaf) (pub : LeafPublicData) : Hash :=
  computeRootHash B.crypto tree pub.label imported.hashes (rewrap B tree imported pub).hmac

theorem handleLeafUpdate_some (aesOk : Bool) (randIv : Blob 16) (tree : MerkleTree)
    (leaf : LeafData) (imported : ImportedLeaf) :
    handleLeafUpdate B.crypto aesOk randIv tree leaf imported.hashes (some imported) =
      .ok (rewrap B tree imported leaf.pub, rewrapRoot B tree imported leaf.pub) := rfl

/-- A try request for which the handler has got past all checks. -/
structure TryAccepted (leaf : LeafData) : Prop where
  size : ¬ reqSize < UInt16.ofNat leafRequestSize
  leaf_ok : LeafAccepted B env.aesOk s.tree (reqSize - UInt16.ofNat leafRequestSize)
    (leafRequestLeaf body) leaf
  pcr : validatePcrValue env.pcrDigest leaf.pub.validPcrCriteria = ecSuccess

/-- The response to a try request. -/
def tryAuthBody (result : Code) (leaf : LeafData) (wrapped : WrappedLeafData) : Bytes :=
  let secret := if result = ecSuccess then leaf.sec.highEntropySecret else emptyHash
  let resetSecret := if result = ecSuccess then leaf.sec.resetSecret else emptyHash
  Codec.uint32.encode 0 ++ secret.val ++ resetSecret.val ++ WrappedLeafData.codec.encode wrapped

theorem drop_tryAuthBody (result : Code) (leaf : LeafData) (wrapped : WrappedLeafData) :
    (tryAuthBody result leaf wrapped).drop (36 + pwSecretSize) =
      WrappedLeafData.codec.encode wrapped := by
  have hword : (Codec.uint32.encode 0).length = 4 := Codec.uint32.length_encode 0
  have hlen : ∀ secret : Secret, secret.val.length = 32 := fun secret => secret.property
  apply List.drop_left'
  simp only [List.length_append, hword, hlen]
  rfl

/-- The public data after the attempt of this request. -/
def tryAuthPub (leaf : LeafData) : LeafPublicData :=
  (tryAuthLeaf env.later s.restartCount (leafRequestHead body) leaf).pub

theorem handleTryAuth_cases :
    (∃ code, code ≠ ecSuccess ∧ (∀ leaf, ¬ TryAccepted B env reqSize body s leaf) ∧
        handleTryAuth B env reqSize body s = .fail code s) ∨
      ∃ leaf, TryAccepted B env reqSize body s leaf ∧
        (((testRateLimit env.now s.restartCount leaf.pub).1 ≠ ecSuccess ∧
            handleTryAuth B env reqSize body s =
              ⟨(testRateLimit env.now s.restartCount leaf.pub).1, s,
                readBytes (124 + pwLeafPayloadSize) (Codec.uint32.encode
                  ((testRateLimit env.now s.restartCount leaf.pub).2.getD 0)),
                UInt16.ofNat (124 + pwLeafPayloadSize)⟩) ∨
          ((testRateLimit env.now s.restartCount leaf.pub).1 = ecSuccess ∧
            ∃ wrapped newRoot logged,
              wrapped = rewrap B s.tree (importLeaf (leafRequestLeaf body))
                (tryAuthPub B env body s leaf) ∧
              newRoot = rewrapRoot B s.tree (importLeaf (leafRequestLeaf body))
                (tryAuthPub B env body s leaf) ∧
              logged = logAuth B.cfg B.nvmem env.io wrapped.pub.label newRoot
                (tryAuthResult (leafRequestHead body) leaf).1
                (tryAuthPub B env body s leaf).timestamp s.vars ∧
              ((logged.1 ≠ ecSuccess ∧
                  handleTryAuth B env reqSize body s =
                    .fail logged.1 { s with vars := logged.2 }) ∨
                (logged.1 = ecSuccess ∧
                  handleTryAuth B env reqSize body s =
                    ⟨(tryAuthResult (leafRequestHead body) leaf).1, s.committed newRoot logged.2,
                      tryAuthBody (tryAuthResult (leafRequestHead body) leaf).1 leaf wrapped,
                      UInt16.ofNat (124 + pwLeafPayloadSize)⟩)))) := by
  unfold handleTryAuth
  simp only
  split
  · rename_i hsize
    exact Or.inl ⟨_, by decide, fun leaf h => h.size hsize, rfl⟩
  · rename_i hsize
    rcases validateRequestWithWrappedLeaf_cases B env.aesOk s.tree
        (reqSize - UInt16.ofNat leafRequestSize) (leafRequestLeaf body) with
      ⟨code, hne, hcode⟩ | ⟨leaf, hleaf, hok⟩
    · rw [hcode]
      refine Or.inl ⟨code, hne, fun leaf h => ?_, rfl⟩
      have hok := validateRequestWithWrappedLeaf_of_accepted B h.leaf_ok
      rw [hcode] at hok
      cases hok
    · rw [hok]
      simp only [handleLeafUpdate_some]
      split
      · rename_i hpcr
        refine Or.inl ⟨_, hpcr, fun leaf' h => ?_, rfl⟩
        cases hleaf.unique B h.leaf_ok
        exact hpcr h.pcr
      · rename_i hpcr
        refine Or.inr ⟨leaf, ⟨hsize, hleaf, not_not.mp hpcr⟩, ?_⟩
        split
        · exact Or.inl ⟨by assumption, rfl⟩
        · rename_i hrate
          refine Or.inr ⟨not_not.mp hrate, _, _, _, rfl, rfl, rfl, ?_⟩
          simp only [tryAuthPub]
          split
          · exact Or.inl ⟨by assumption, rfl⟩
          · rename_i hlogged
            exact Or.inr ⟨not_not.mp hlogged, rfl⟩

/-- A reset-attempts request that passed all checks. -/
structure ResetAuthAccepted (leaf : LeafData) : Prop where
  size : ¬ reqSize < UInt16.ofNat leafRequestSize
  leaf_ok : LeafAccepted B env.aesOk s.tree (reqSize - UInt16.ofNat leafRequestSize)
    (leafRequestLeaf body) leaf
  secret : leafRequestHead body = leaf.sec.resetSecret

theorem handleResetAuth_cases :
    (∃ code, code ≠ ecSuccess ∧ handleResetAuth B env reqSize body s = .fail code s) ∨
      ∃ leaf, ResetAuthAccepted B env reqSize body s leaf ∧
        ∃ wrapped newRoot logged,
          wrapped = rewrap B s.tree (importLeaf (leafRequestLeaf body)) (resetAuthLeaf leaf).pub ∧
          newRoot =
            rewrapRoot B s.tree (importLeaf (leafRequestLeaf body)) (resetAuthLeaf leaf).pub ∧
          logged = logAuth B.cfg B.nvmem env.io (resetAuthLeaf leaf).pub.label newRoot ecSuccess
            (resetAuthLeaf leaf).pub.timestamp s.vars ∧
          ((logged.1 ≠ ecSuccess ∧
              handleResetAuth B env reqSize body s = .fail logged.1 { s with vars := logged.2 }) ∨
            (logged.1 = ecSuccess ∧
              handleResetAuth B env reqSize body s =
                ⟨ecSuccess, s.committed newRoot logged.2,
                  leaf.sec.highEntropySecret.val ++ WrappedLeafData.codec.encode wrapped,
                  UInt16.ofNat (leafRequestSize + pwLeafPayloadSize)⟩)) := by
  unfold handleResetAuth
  split
  · exact Or.inl ⟨_, by decide, rfl⟩
  · rename_i hsize
    rcases validateRequestWithWrappedLeaf_cases B env.aesOk s.tree
        (reqSize - UInt16.ofNat leafRequestSize) (leafRequestLeaf body) with
      ⟨code, hne, hcode⟩ | ⟨leaf, hleaf, hok⟩
    · rw [hcode]
      exact Or.inl ⟨code, hne, rfl⟩
    · rw [hok]
      simp only [handleLeafUpdate_some]
      split
      · exact Or.inl ⟨_, by decide, rfl⟩
      · rename_i hsecret
        refine Or.inr ⟨leaf, ⟨hsize, hleaf, not_not.mp hsecret⟩, _, _, _, rfl, rfl, rfl, ?_⟩
        split
        · exact Or.inl ⟨by assumption, rfl⟩
        · rename_i hlogged
          exact Or.inr ⟨not_not.mp hlogged, rfl⟩

/-! ## Requests that only read -/

/-- `s'` differs from `s` in the RAM copy of the variables at most. -/
def LogLoaded (s' : State B.cfg.bufferSize) : Prop :=
  s' = s ∨ s' = { s with vars := (loadLogData B.cfg env.io s.vars).2 }

theorem handleGetLog_state : LogLoaded B env s (handleGetLog B env reqSize body s).state := by
  unfold handleGetLog
  split
  · exact Or.inl rfl
  · split
    · exact Or.inl rfl
    · simp only
      split
      · exact Or.inr rfl
      · split
        · exact Or.inr rfl
        · exact Or.inr rfl

theorem handleLogReplay_state :
    LogLoaded B env s (handleLogReplay B env reqSize body s).state := by
  unfold handleLogReplay
  simp only
  split
  · exact Or.inl rfl
  · split
    · exact Or.inl rfl
    · split
      · exact Or.inl rfl
      · repeat' split
        all_goals exact Or.inr rfl

/-- The leaf behind a wrapped leaf, when the AES engine works. -/
def decryptedLeaf (tree : MerkleTree) (leaf : ImportedLeaf) : LeafData where
  pub := LeafPublicData.codec.decode
    (readBytes (min leaf.head.pubLen.toNat LeafPublicData.codec.size) leaf.pub)
  sec := LeafSensitiveData.codec.decode
    (B.crypto.aesCtr tree.wrapKey leaf.iv (readBlob 96 leaf.cipherText)).val

theorem decryptLeafData_eq (aesOk : Bool) (tree : MerkleTree) (leaf : ImportedLeaf) :
    decryptLeafData B.crypto aesOk tree leaf =
      if aesOk then .ok (decryptedLeaf B tree leaf) else .error pwErrCryptoFailure := by
  cases aesOk <;> rfl

theorem LeafAccepted.leaf_eq {aesOk : Bool} {tree : MerkleTree} {payloadLen : UInt16}
    {unimported : Bytes} {leaf : LeafData}
    (h : LeafAccepted B aesOk tree payloadLen unimported leaf) :
    leaf = upgradeLeaf (importLeaf unimported).head
      (decryptedLeaf B tree (importLeaf unimported)) := by
  obtain ⟨raw, hraw, rfl⟩ := h.decrypted
  rw [decryptLeafData_eq] at hraw
  split at hraw
  · rw [Except.ok.inj hraw]
  · cases hraw

/-- The entry that a replay finds for a root. -/
def foundEntry (log : LogStorage) (root : Hash) : Option LogEntry :=
  if (findRelevantEntry log root).1 = ecSuccess then
    some (log.entries.val.getD (findRelevantEntry log root).2.toNat
      (plainEntry pwMtInvalid 0 emptyHash))
  else none

theorem foundEntry_root {log : LogStorage} {root : Hash} {e : LogEntry}
    (h : foundEntry log root = some e) : e.root = root := by
  unfold foundEntry at h
  split at h
  · rename_i hcode
    obtain ⟨j, e', hindex, hentry, hroot⟩ := findRelevantEntryFrom_found hcode
    have hfound := Option.some.inj h
    unfold findRelevantEntry at hfound
    rw [hindex, Nat.zero_add, Int.toNat_natCast, List.getD_eq_getElem?_getD, hentry,
      Option.getD_some] at hfound
    rw [← hfound, hroot]
  · cases h

/-- A replay request that passed all checks, and the log entry it found. -/
structure ReplayAccepted (log : LogStorage) (e : LogEntry) : Prop where
  size : ¬ reqSize < UInt16.ofNat leafRequestSize
  tree_ok : validateTree s.tree = ecSuccess
  header : validateLeafHeader (LeafHeader.codec.decode (leafRequestLeaf body))
    (reqSize - UInt16.ofNat leafRequestSize) (getPathAuxiliaryHashCount s.tree).toUInt16 = ecSuccess
  log_ok : (loadLogData B.cfg env.io s.vars).1 = .ok log
  found : foundEntry log (leafRequestHead body) = some e
  type_ok : e.type = pwTryAuth
  hmac : computeHmac B.crypto s.tree (importLeaf (leafRequestLeaf body)) =
    (importLeaf (leafRequestLeaf body)).hmac
  aes : env.aesOk = true
  label : (decryptedLeaf B s.tree (importLeaf (leafRequestLeaf body))).pub.label = e.label
  root : rewrapRoot B s.tree (importLeaf (leafRequestLeaf body))
    (replayLeaf e (decryptedLeaf B s.tree (importLeaf (leafRequestLeaf body)))).pub = e.root

/-- The response to a replay request that passed all checks. -/
def replayOutcome (e : LogEntry) : Outcome B.cfg.bufferSize where
  code := ecSuccess
  state := { s with vars := (loadLogData B.cfg env.io s.vars).2 }
  body := WrappedLeafData.codec.encode (rewrap B s.tree (importLeaf (leafRequestLeaf body))
    (replayLeaf e (decryptedLeaf B s.tree (importLeaf (leafRequestLeaf body)))).pub)
  dataLength := UInt16.ofNat (unimportedLeafSize + pwLeafPayloadSize)

theorem handleLogReplay_of_accepted {log : LogStorage} {e : LogEntry}
    (h : ReplayAccepted B env reqSize body s log e) :
    handleLogReplay B env reqSize body s = replayOutcome B env body s e := by
  have hfound := h.found
  unfold foundEntry at hfound
  split at hfound
  · rename_i hcode
    have hentry := Option.some.inj hfound
    unfold handleLogReplay
    simp only [h.size, h.tree_ok, h.header, h.log_ok, hcode, hentry, h.type_ok, h.hmac,
      decryptLeafData_eq, h.aes, h.label, handleLeafUpdate_some, h.root, ne_eq, not_true_eq_false,
      if_false, if_true]
    rw [replayOutcome]
  · cases hfound

theorem loadLogData_error {io : Vars.Io B.cfg.bufferSize} {vars : Vars.State B.cfg.bufferSize}
    {code : Code} (h : (loadLogData B.cfg io vars).1 = .error code) : code ≠ ecSuccess := by
  unfold loadLogData at h
  simp only at h
  split at h
  · split at h
    · cases h
      decide
    · split at h
      · cases h
        decide
      · cases h
  · cases h
    decide

theorem handleLogReplay_cases :
    (handleLogReplay B env reqSize body s).code ≠ ecSuccess ∨
      ∃ log e, ReplayAccepted B env reqSize body s log e ∧
        handleLogReplay B env reqSize body s = replayOutcome B env body s e := by
  by_cases hcode : (handleLogReplay B env reqSize body s).code = ecSuccess
  · right
    have haccepted : ∃ log e, ReplayAccepted B env reqSize body s log e := by
      unfold handleLogReplay at hcode
      simp only [decryptLeafData_eq, handleLeafUpdate_some] at hcode
      split at hcode
      · cases hcode
      · rename_i hsize
        split at hcode
        · exact absurd hcode (by assumption)
        · rename_i htree
          split at hcode
          · exact absurd hcode (by assumption)
          · rename_i hheader
            split at hcode
            · rename_i hload
              exact absurd hcode (loadLogData_error B hload)
            · rename_i log hload
              split at hcode
              · exact absurd hcode (by assumption)
              · rename_i hfound
                split at hcode
                · cases hcode
                · rename_i htype
                  split at hcode
                  · cases hcode
                  · rename_i hhmac
                    cases haes : env.aesOk with
                    | false =>
                        simp only [haes] at hcode
                        cases hcode
                    | true =>
                        simp only [haes, if_true] at hcode
                        split at hcode
                        · cases hcode
                        · rename_i hlabel
                          split at hcode
                          · cases hcode
                          · rename_i hroot
                            refine ⟨log, _, hsize, not_not.mp htree, not_not.mp hheader, hload,
                              if_pos (not_not.mp hfound), not_not.mp htype, not_not.mp hhmac, haes,
                              not_not.mp hlabel, not_not.mp hroot⟩
    obtain ⟨log, e, haccepted⟩ := haccepted
    exact ⟨log, e, haccepted, handleLogReplay_of_accepted B env reqSize body s haccepted⟩
  · exact Or.inl hcode

end Cases

/-! ## Authentication requests

Tries and resets of the attempt counter present a wrapped leaf and get the updated one
back. -/

/-- Where the wrapped leaf starts in the body of a response. -/
def leafOffset (version type : UInt8) : Nat :=
  if type = pwTryAuth then if version = 0 then 36 else 36 + pwSecretSize
  else if type = pwResetAuth then pwSecretSize
  else 0

/-- The wrapped leaf in the response to a request. -/
def Response.leafBytes (r : Request) (resp : Response) : Bytes :=
  resp.body.drop (leafOffset r.version r.type)

/-- The leaf that a request presents. -/
def Request.presented (r : Request) : ImportedLeaf := importLeaf (leafRequestLeaf r.body)

/-- The response to an authentication request returns an updated leaf. -/
def AuthTookEffect (r : Request) (resp : Response) : Prop :=
  (resp.resultCode = ecSuccess ∨
    r.type = pwTryAuth ∧ resp.resultCode = pwErrLowentAuthFailed) ∧ resp.body ≠ []

section Requests

variable (B : Board) (env : Env B.cfg.bufferSize) (r : Request) (s : State B.cfg.bufferSize)

/-- The data of the presented leaf, with the defaults of its version filled in. -/
def presentedLeaf (tree : MerkleTree) : LeafData :=
  upgradeLeaf r.presented.head (decryptedLeaf B tree r.presented)

/-- The public data after an authentication request. -/
def authPub : LeafPublicData :=
  if r.type = pwTryAuth then tryAuthPub B env r.body s (presentedLeaf B r s.tree)
  else (resetAuthLeaf (presentedLeaf B r s.tree)).pub

/-- The result of an authentication request that takes effect. -/
def authCode : Code :=
  if r.type = pwTryAuth then (tryAuthResult (leafRequestHead r.body) (presentedLeaf B r s.tree)).1
  else ecSuccess

/-- What an authentication leaves of the public data. -/
theorem authPub_kept :
    (authPub B env r s).label = (presentedLeaf B r s.tree).pub.label ∧
      (authPub B env r s).delaySchedule = (presentedLeaf B r s.tree).pub.delaySchedule ∧
      (authPub B env r s).validPcrCriteria = (presentedLeaf B r s.tree).pub.validPcrCriteria := by
  unfold authPub tryAuthPub
  generalize presentedLeaf B r s.tree = leaf
  split
  · exact ⟨rfl, rfl, rfl⟩
  · exact ⟨rfl, rfl, rfl⟩

theorem makeCompatibleRequest_type {tree : MerkleTree} {r r' : Request}
    (h : makeCompatibleRequest tree r = some r') : r'.type = r.type := by
  unfold makeCompatibleRequest at h
  repeat' split at h
  all_goals cases h
  all_goals rfl

/-- Only insert requests are converted; a request of another type is rejected for its
version or handled as it is. -/
theorem handle_cases (htype : r.type ≠ pwInsertLeaf) :
    handle B env r s = .fail pwErrVersionMismatch s ∨ handle B env r s = dispatch B env r s := by
  unfold handle makeCompatibleRequest
  rw [if_neg htype]
  by_cases hzero : r.version = 0
  · simp [hzero]
  · by_cases hone : r.version = pwProtocolVersion
    · simp [hone]
    · simp [hzero, hone]

theorem testRateLimit_code (now : UInt64) (restartCount : UInt32) (pub : LeafPublicData) :
    (testRateLimit now restartCount pub).1 = ecSuccess ∨
      (testRateLimit now restartCount pub).1 = pwErrRateLimitReached := by
  unfold testRateLimit
  simp only
  repeat' split
  all_goals simp

/-- Taking the reset secret out leaves the wrapped leaf behind the other secret. -/
theorem drop_cut (body : Bytes) :
    (body.take 36 ++ body.drop (36 + pwSecretSize)).drop 36 = body.drop (36 + pwSecretSize) := by
  by_cases hlen : 36 ≤ body.length
  · have htake : (body.take 36).length = 36 := by rw [List.length_take, Nat.min_eq_left hlen]
    rw [List.drop_left' htake]
  · have hnil : body.drop (36 + pwSecretSize) = [] := List.drop_eq_nil_of_le (by omega)
    rw [hnil, List.append_nil, List.drop_eq_nil_of_le (by rw [List.length_take]; omega)]

/-- What the response converted for its protocol version still says. -/
theorem handleRequest_response :
    (handleRequest B env r s).1.resultCode = (handle B env r s).code ∧
      (handleRequest B env r s).1.root = (handle B env r s).state.tree.root ∧
      (handleRequest B env r s).2 = (handle B env r s).state ∧
      ((handle B env r s).body = [] → (handleRequest B env r s).1.body = []) ∧
      (handleRequest B env r s).1.leafBytes r =
        (handle B env r s).body.drop (leafOffset pwProtocolVersion r.type) := by
  unfold handleRequest makeCompatibleResponse Response.leafBytes
  simp only
  split
  · rename_i hversion
    refine ⟨rfl, rfl, trivial, id, ?_⟩
    have hne : r.version ≠ 0 := by
      rintro hzero
      rw [hzero] at hversion
      exact absurd hversion (by decide)
    simp [leafOffset, hne, pwProtocolVersion]
  · split
    · rename_i htry
      obtain ⟨hversion, htype⟩ := htry
      refine ⟨rfl, rfl, trivial, ?_, ?_⟩
      · intro hnil
        simp [hnil]
      · have hold : leafOffset r.version r.type = 36 := by simp [leafOffset, hversion, htype]
        have hnew : leafOffset pwProtocolVersion r.type = 36 + pwSecretSize := by
          rw [htype]
          rfl
        rw [hold, hnew]
        exact drop_cut _
    · rename_i hversion htry
      refine ⟨rfl, rfl, trivial, id, ?_⟩
      have hzero : r.version = 0 := by
        rw [UInt8.not_le, UInt8.lt_iff_toNat_lt] at hversion
        apply UInt8.toNat_inj.mp
        have hone : pwProtocolVersion.toNat = 1 := rfl
        have hnil : (0 : UInt8).toNat = 0 := rfl
        omega
      have hne : r.type ≠ pwTryAuth := fun htype => htry ⟨hzero, htype⟩
      simp [leafOffset, hne]

/-- An outcome of an authentication handler that returns the updated leaf: the presented one
passed all checks, and the tree now holds the update. -/
structure AuthOutcome (o : Outcome B.cfg.bufferSize) : Prop where
  leaf_ok : LeafAccepted B env.aesOk s.tree (r.dataLength - UInt16.ofNat leafRequestSize)
    (leafRequestLeaf r.body) (presentedLeaf B r s.tree)
  size : ¬ r.dataLength < UInt16.ofNat leafRequestSize
  code_eq : o.code = authCode B r s
  leaf_eq : o.body.drop (leafOffset pwProtocolVersion r.type) =
    WrappedLeafData.codec.encode (rewrap B s.tree r.presented (authPub B env r s))
  tree_eq : o.state.tree =
    { s.tree with root := rewrapRoot B s.tree r.presented (authPub B env r s) }

theorem authOutcome_tryAuth (htype : r.type = pwTryAuth)
    (hcode : (handleTryAuth B env r.dataLength r.body s).code = ecSuccess ∨
      (handleTryAuth B env r.dataLength r.body s).code = pwErrLowentAuthFailed)
    (hbody : (handleTryAuth B env r.dataLength r.body s).body ≠ []) :
    AuthOutcome B env r s (handleTryAuth B env r.dataLength r.body s) := by
  rcases handleTryAuth_cases B env r.dataLength r.body s with
    ⟨code, -, -, ho⟩ | ⟨leaf, haccepted, ⟨hrate, ho⟩ | ⟨-, wrapped, newRoot, logged, rfl, rfl,
      rfl, ⟨-, ho⟩ | ⟨-, ho⟩⟩⟩
  · rw [ho] at hbody
    exact absurd rfl hbody
  · -- A try that comes too early has a body too, but its code tells it apart.
    rw [ho] at hcode
    have hlimited := (testRateLimit_code env.now s.restartCount leaf.pub).resolve_left hrate
    rcases hcode with hok | hok
    · exact absurd hok hrate
    · simp only [hlimited] at hok
      exact absurd hok (by decide)
  · rw [ho] at hbody
    exact absurd rfl hbody
  · have hdata : leaf = presentedLeaf B r s.tree := haccepted.leaf_ok.leaf_eq B
    subst hdata
    have hpub : authPub B env r s = tryAuthPub B env r.body s (presentedLeaf B r s.tree) := by
      rw [authPub, if_pos htype]
    have hresult : authCode B r s =
        (tryAuthResult (leafRequestHead r.body) (presentedLeaf B r s.tree)).1 := by
      rw [authCode, if_pos htype]
    refine ⟨haccepted.leaf_ok, haccepted.size, ?_, ?_, ?_⟩
    · rw [ho, hresult]
    · rw [ho, hpub, htype]
      exact drop_tryAuthBody _ _ _
    · rw [ho, hpub]
      rfl

theorem authOutcome_resetAuth (htype : r.type = pwResetAuth)
    (hbody : (handleResetAuth B env r.dataLength r.body s).body ≠ []) :
    AuthOutcome B env r s (handleResetAuth B env r.dataLength r.body s) := by
  rcases handleResetAuth_cases B env r.dataLength r.body s with
    ⟨code, -, ho⟩ | ⟨leaf, haccepted, wrapped, newRoot, logged, rfl, rfl, rfl, ⟨-, ho⟩ | ⟨-, ho⟩⟩
  · rw [ho] at hbody
    exact absurd rfl hbody
  · rw [ho] at hbody
    exact absurd rfl hbody
  · have hdata : leaf = presentedLeaf B r s.tree := haccepted.leaf_ok.leaf_eq B
    subst hdata
    have hne : r.type ≠ pwTryAuth := by
      rw [htype]
      decide
    have hpub : authPub B env r s = (resetAuthLeaf (presentedLeaf B r s.tree)).pub := by
      rw [authPub, if_neg hne]
    have hresult : authCode B r s = ecSuccess := by
      rw [authCode, if_neg hne]
    refine ⟨haccepted.leaf_ok, haccepted.size, ?_, ?_, ?_⟩
    · rw [ho, hresult]
    · rw [ho, hpub, htype]
      exact List.drop_left' (presentedLeaf B r s.tree).sec.highEntropySecret.property
    · rw [ho, hpub]
      rfl

/-- **What an authentication request has done** when its response returns a leaf: the
presented leaf passed all checks, and the tree now holds the updated one. -/
theorem handleRequest_auth (htype : r.type = pwTryAuth ∨ r.type = pwResetAuth)
    (heffect : AuthTookEffect r (handleRequest B env r s).1) :
    LeafAccepted B env.aesOk s.tree (r.dataLength - UInt16.ofNat leafRequestSize)
        (leafRequestLeaf r.body) (presentedLeaf B r s.tree) ∧
      ¬ r.dataLength < UInt16.ofNat leafRequestSize ∧
      (handleRequest B env r s).1.resultCode = authCode B r s ∧
      (handleRequest B env r s).1.leafBytes r =
        WrappedLeafData.codec.encode (rewrap B s.tree r.presented (authPub B env r s)) ∧
      (handleRequest B env r s).2.tree =
        { s.tree with root := rewrapRoot B s.tree r.presented (authPub B env r s) } := by
  obtain ⟨hcode, -, hstate, hnil, hleaf⟩ := handleRequest_response B env r s
  obtain ⟨heffect, hbody⟩ := heffect
  rw [hcode] at heffect
  have hbody' : (handle B env r s).body ≠ [] := fun h => hbody (hnil h)
  have hinsert : r.type ≠ pwInsertLeaf := by
    rcases htype with h | h <;> rw [h] <;> decide
  have houtcome : AuthOutcome B env r s (handle B env r s) := by
    rcases handle_cases B env r s hinsert with h | h
    · rw [h] at hbody'
      exact absurd rfl hbody'
    rw [h] at heffect hbody' ⊢
    rcases htype with htype | htype
    · have hdispatch : dispatch B env r s = handleTryAuth B env r.dataLength r.body s := by
        simp only [dispatch, htype]
        rfl
      rw [hdispatch] at heffect hbody' ⊢
      exact authOutcome_tryAuth B env r s htype (heffect.imp_right And.right) hbody'
    · have hdispatch : dispatch B env r s = handleResetAuth B env r.dataLength r.body s := by
        simp only [dispatch, htype]
        rfl
      rw [hdispatch] at hbody' ⊢
      exact authOutcome_resetAuth B env r s htype hbody'
  rw [hleaf, hstate, hcode]
  exact ⟨houtcome.leaf_ok, houtcome.size, houtcome.code_eq, houtcome.leaf_eq, houtcome.tree_eq⟩

end Requests

end Pinweaver
end CrosEc
