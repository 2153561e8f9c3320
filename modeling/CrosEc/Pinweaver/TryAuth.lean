import CrosEc.Pinweaver.DelaySchedule
import CrosEc.Pinweaver.Response
import CrosEc.Pinweaver.Replay
import CrosEc.Pinweaver.StoreFailure

/-!
# When a try request releases the secrets

`pw_handle_try_auth` checks the leaf, the PCR values, the rate limit and the secret, and stores
the outcome in the log before it answers.  Below the conditions are stated by themselves; the
result says for each combination of them what is in the response, the tree and the log.
-/

namespace CrosEc
namespace Pinweaver

open Lib

/-! ## The conditions -/

section Conditions

variable (B : Board) (env : Env B.cfg.bufferSize) (reqSize : UInt16) (body : Bytes)
  (s : State B.cfg.bufferSize)

/-- The request is well formed, its leaf is in the tree and has the right hmac, and this is the
data of the leaf. -/
structure Authentic (leaf : LeafData) : Prop where
  size : leafRequestSize ≤ reqSize.toNat
  header : validateLeafHeader (LeafHeader.codec.decode (leafRequestLeaf body))
    (reqSize - UInt16.ofNat leafRequestSize) (getPathAuxiliaryHashCount s.tree).toUInt16 = ecSuccess
  tree_ok : validateTree s.tree = ecSuccess
  label : validateLabel s.tree (importLeaf (leafRequestLeaf body)).label = ecSuccess
  root : computeRootHash B.crypto s.tree (importLeaf (leafRequestLeaf body)).label
    (importLeaf (leafRequestLeaf body)).hashes (importLeaf (leafRequestLeaf body)).hmac =
      s.tree.root
  hmac : computeHmac B.crypto s.tree (importLeaf (leafRequestLeaf body)) =
    (importLeaf (leafRequestLeaf body)).hmac
  decrypts : env.aesOk = true
  data : leaf = upgradeLeaf (importLeaf (leafRequestLeaf body)).head
    (decryptedLeaf B s.tree (importLeaf (leafRequestLeaf body)))

end Conditions

/-- The end of the list of criteria. -/
def ValidPcrValue.IsEnd (c : ValidPcrValue) : Prop := c.bitmask = Arr.replicate 2 0

instance (c : ValidPcrValue) : Decidable c.IsEnd := by
  unfold ValidPcrValue.IsEnd
  infer_instance

/-- One of the criteria matches, and the PCRs of those before it could be read. -/
def PcrMatched (pcrDigest : Blob 2 → Option (Blob 32)) (criteria : List ValidPcrValue) : Prop :=
  ∃ before c after, criteria = before ++ c :: after ∧
    ¬ c.IsEnd ∧ pcrDigest c.bitmask = some c.digest ∧
    ∀ b ∈ before, ¬ b.IsEnd ∧ pcrDigest b.bitmask ≠ none

/-- The list of criteria is empty, or it is matched. -/
def PcrAllowed (pcrDigest : Blob 2 → Option (Blob 32)) (criteria : Arr ValidPcrValue 2) : Prop :=
  (∃ c, criteria.val.head? = some c ∧ c.IsEnd) ∨ PcrMatched pcrDigest criteria.val

/-- The delay that `test_rate_limit` picks from the schedule. -/
def delayAt (pub : LeafPublicData) : UInt32 :=
  if 0 < reachedEntries pub.attemptCount pub.delaySchedule.val then
    (pub.delaySchedule.val.getD (reachedEntries pub.attemptCount pub.delaySchedule.val - 1)
      ⟨0, 0⟩).timeDiff
  else 0

/-- No delay, or one that is over: it counts from the timestamp of the leaf, or from the restart
if there was one since. -/
def RateExpired (now : UInt64) (restartCount : UInt32) (pub : LeafPublicData) : Prop :=
  delayAt pub = 0 ∨ (delayAt pub ≠ pwBlockAttempts ∧
    (if pub.timestamp.bootCount = restartCount then
        (delayAt pub).toUInt64 + pub.timestamp.timerValue
      else (delayAt pub).toUInt64) ≤ now / second)

theorem testRateLimit_eq_waitFor (now : UInt64) (restartCount : UInt32) (pub : LeafPublicData) :
    testRateLimit now restartCount pub = waitFor (delayAt pub) now restartCount pub.timestamp := rfl

theorem testRateLimit_iff (now : UInt64) (restartCount : UInt32) (pub : LeafPublicData) :
    (testRateLimit now restartCount pub).1 = ecSuccess ↔ RateExpired now restartCount pub := by
  have hlimited : ¬ pwErrRateLimitReached = ecSuccess := by decide
  rw [testRateLimit_eq_waitFor]
  unfold RateExpired waitFor
  generalize delayAt pub = delay
  by_cases hzero : delay = 0
  · rw [if_pos hzero]
    simp only [hzero, true_or]
  · rw [if_neg hzero]
    by_cases hblock : delay = pwBlockAttempts
    · rw [if_pos hblock]
      simp only [hlimited, hblock, not_true_eq_false, ne_eq, false_and, or_false, false_iff]
      decide
    · rw [if_neg hblock]
      by_cases hboot : pub.timestamp.bootCount = restartCount
      · have hboot' : pub.timestamp.bootCount = (updateTimestamp now restartCount).bootCount := hboot
        simp only [if_pos hboot', if_pos hboot, hzero, hblock, false_or, ne_eq, not_false_eq_true,
          true_and]
        split
        · simp_all [updateTimestamp]
        · simp_all [updateTimestamp]
      · have hboot' : ¬ pub.timestamp.bootCount = (updateTimestamp now restartCount).bootCount :=
          hboot
        simp only [if_neg hboot', if_neg hboot, hzero, hblock, false_or, ne_eq, not_false_eq_true,
          true_and]
        split
        · simp_all [updateTimestamp]
        · simp_all [updateTimestamp]

theorem pcrMatched_cons {pcrDigest : Blob 2 → Option (Blob 32)} {c : ValidPcrValue}
    {rest : List ValidPcrValue} :
    PcrMatched pcrDigest (c :: rest) ↔ ¬ c.IsEnd ∧
      (pcrDigest c.bitmask = some c.digest ∨
        (pcrDigest c.bitmask ≠ none ∧ PcrMatched pcrDigest rest)) := by
  constructor
  · rintro ⟨before, c', after, heq, hend, hdigest, hbefore⟩
    cases before with
    | nil =>
        cases heq
        exact ⟨hend, Or.inl hdigest⟩
    | cons b before =>
        cases heq
        obtain ⟨hb, hread⟩ := hbefore c (List.mem_cons_self ..)
        exact ⟨hb, Or.inr ⟨hread, before, c', after, rfl, hend, hdigest,
          fun u hu => hbefore u (List.mem_cons_of_mem _ hu)⟩⟩
  · rintro ⟨hend, hdigest | ⟨hread, before, c', after, rfl, hend', hdigest, hbefore⟩⟩
    · exact ⟨[], c, rest, rfl, hend, hdigest, by simp⟩
    · refine ⟨c :: before, c', after, rfl, hend', hdigest, ?_⟩
      rw [List.forall_mem_cons]
      exact ⟨⟨hend, hread⟩, hbefore⟩

theorem validatePcrValueFrom_iff (pcrDigest : Blob 2 → Option (Blob 32)) (first : Bool)
    (criteria : List ValidPcrValue) :
    validatePcrValueFrom pcrDigest first criteria = ecSuccess ↔
      (first = true ∧ ∃ c, criteria.head? = some c ∧ c.IsEnd) ∨
        PcrMatched pcrDigest criteria := by
  have hnot : ¬ pwErrPcrNotMatch = ecSuccess := by decide
  induction criteria generalizing first with
  | nil => simp [validatePcrValueFrom, PcrMatched, hnot]
  | cons c rest ih =>
      rw [validatePcrValueFrom, pcrMatched_cons]
      by_cases hend : c.IsEnd
      · rw [if_pos (show c.bitmask = Arr.replicate 2 0 from hend)]
        cases first with
        | false => simp [hnot, hend]
        | true => simp [hend]
      · rw [if_neg (show ¬ c.bitmask = Arr.replicate 2 0 from hend)]
        cases hread : pcrDigest c.bitmask with
        | none => simp [hnot, hend]
        | some digest =>
            simp only
            by_cases hdigest : digest = c.digest
            · simp [hdigest, hend]
            · rw [if_neg hdigest]
              refine (ih false).trans ?_
              simp [hdigest, hend]

theorem validatePcrValue_iff (pcrDigest : Blob 2 → Option (Blob 32))
    (criteria : Arr ValidPcrValue 2) :
    validatePcrValue pcrDigest criteria = ecSuccess ↔ PcrAllowed pcrDigest criteria := by
  rw [validatePcrValue, validatePcrValueFrom_iff, PcrAllowed]
  simp

/-! ## The outcome of an attempt -/

section Attempt

variable (B : Board) (env : Env B.cfg.bufferSize) (reqSize : UInt16) (body : Bytes)
  (s : State B.cfg.bufferSize)

/-- The leaf may be tried: all conditions but the secret. -/
structure MayTry (leaf : LeafData) : Prop where
  authentic : Authentic B env reqSize body s leaf
  pcr : PcrAllowed env.pcrDigest leaf.pub.validPcrCriteria
  rate : RateExpired env.now s.restartCount leaf.pub

/-- The presented secret is that of the leaf. -/
def SecretMatches (leaf : LeafData) : Prop := leafRequestHead body = leaf.sec.lowEntropySecret

instance (leaf : LeafData) : Decidable (SecretMatches body leaf) := by
  unfold SecretMatches
  infer_instance

/-- The public data after the attempt: the counter starts again or counts, up to its end. -/
def attemptedPub (leaf : LeafData) : LeafPublicData :=
  { leaf.pub with
    timestamp := ⟨s.restartCount, env.later / second⟩
    attemptCount :=
      if SecretMatches body leaf then 0
      else UInt32.ofNat (min (leaf.pub.attemptCount.toNat + 1) (2 ^ 32 - 1)) }

def attemptCode (leaf : LeafData) : Code :=
  if SecretMatches body leaf then ecSuccess else pwErrLowentAuthFailed

/-- The root with the updated leaf in its slot. -/
def attemptedRoot (leaf : LeafData) : Hash :=
  rewrapRoot B s.tree (importLeaf (leafRequestLeaf body)) (attemptedPub B env body s leaf)

/-- The log entry of the attempt. -/
def attemptEntry (leaf : LeafData) : LogEntry :=
  authEntry leaf.pub.label (attemptedRoot B env body s leaf) (attemptCode body leaf)
    ⟨s.restartCount, env.later / second⟩

/-- The entry could be stored. -/
def Recorded (leaf : LeafData) : Prop :=
  (logEntry B.cfg B.nvmem env.io (attemptEntry B env body s leaf) s.vars).1 = ecSuccess

theorem tryAuthResult_attempts (leaf : LeafData) :
    (tryAuthResult (leafRequestHead body) leaf).2 =
      if SecretMatches body leaf then 0
      else UInt32.ofNat (min (leaf.pub.attemptCount.toNat + 1) (2 ^ 32 - 1)) := by
  unfold tryAuthResult
  by_cases hsecret : leafRequestHead body = leaf.sec.lowEntropySecret
  · rw [if_pos hsecret, if_pos (show SecretMatches body leaf from hsecret)]
  · rw [if_neg hsecret, if_neg (show ¬ SecretMatches body leaf from hsecret)]
    have hlt := leaf.pub.attemptCount.toNat_lt
    apply UInt32.toNat_inj.mp
    rw [UInt32.toNat_ofNat', Nat.mod_eq_of_lt (by lia)]
    dsimp only
    split
    · rename_i hmax
      rw [hmax]
      rfl
    · rename_i hmax
      have hne : leaf.pub.attemptCount.toNat ≠ 4294967295 := fun h => hmax (UInt32.toNat_inj.mp h)
      rw [UInt32.toNat_add, UInt32.toNat_one]
      lia

theorem tryAuthPub_eq (leaf : LeafData) :
    tryAuthPub B env body s leaf = attemptedPub B env body s leaf := by
  unfold tryAuthPub tryAuthLeaf attemptedPub
  rw [tryAuthResult_attempts]
  rfl

theorem tryAuthResult_eq (leaf : LeafData) :
    (tryAuthResult (leafRequestHead body) leaf).1 = attemptCode body leaf := by
  unfold tryAuthResult attemptCode
  by_cases hsecret : leafRequestHead body = leaf.sec.lowEntropySecret
  · rw [if_pos hsecret, if_pos (show SecretMatches body leaf from hsecret)]
  · rw [if_neg hsecret, if_neg (show ¬ SecretMatches body leaf from hsecret)]

theorem authentic_iff (leaf : LeafData) :
    Authentic B env reqSize body s leaf ↔ ¬ reqSize < UInt16.ofNat leafRequestSize ∧
      LeafAccepted B env.aesOk s.tree (reqSize - UInt16.ofNat leafRequestSize)
        (leafRequestLeaf body) leaf := by
  have hsize : ¬ reqSize < UInt16.ofNat leafRequestSize ↔ leafRequestSize ≤ reqSize.toNat := by
    rw [UInt16.not_lt, UInt16.le_iff_toNat_le]
    rfl
  have hpath : validateRequestWithPath B.crypto s.tree (importLeaf (leafRequestLeaf body)).label
      (importLeaf (leafRequestLeaf body)).hashes (importLeaf (leafRequestLeaf body)).hmac =
        ecSuccess ↔
      validateTree s.tree = ecSuccess ∧
        validateLabel s.tree (importLeaf (leafRequestLeaf body)).label = ecSuccess ∧
        computeRootHash B.crypto s.tree (importLeaf (leafRequestLeaf body)).label
          (importLeaf (leafRequestLeaf body)).hashes (importLeaf (leafRequestLeaf body)).hmac =
            s.tree.root := by
    unfold validateRequestWithPath authenticatePath
    constructor
    · intro h
      split at h
      · exact absurd h (by assumption)
      · rename_i htree
        split at h
        · exact absurd h (by assumption)
        · rename_i hlabel
          split at h
          · cases h
          · rename_i hroot
            exact ⟨not_not.mp htree, not_not.mp hlabel, not_not.mp hroot⟩
    · rintro ⟨htree, hlabel, hroot⟩
      simp only [htree, hlabel, hroot, ne_eq, not_true_eq_false, if_false]
  rw [hsize]
  constructor
  · intro h
    refine ⟨h.size, h.header, hpath.mpr ⟨h.tree_ok, h.label, h.root⟩, h.hmac, ?_⟩
    rw [decryptLeafData_eq, if_pos h.decrypts]
    exact ⟨_, rfl, h.data⟩
  · rintro ⟨hle, haccepted⟩
    obtain ⟨htree, hlabel, hroot⟩ := hpath.mp haccepted.path
    have hdecrypts : env.aesOk = true := by
      obtain ⟨raw, hraw, -⟩ := haccepted.decrypted
      rw [decryptLeafData_eq] at hraw
      split at hraw
      · assumption
      · cases hraw
    exact ⟨hle, haccepted.header, htree, hlabel, hroot, haccepted.hmac, hdecrypts,
      haccepted.leaf_eq B⟩

/-- Of the environment only the cipher counts. -/
theorem Authentic.of_aesOk {env' : Env B.cfg.bufferSize} {leaf : LeafData}
    (h : Authentic B env reqSize body s leaf) (haes : env'.aesOk = env.aesOk) :
    Authentic B env' reqSize body s leaf :=
  ⟨h.size, h.header, h.tree_ok, h.label, h.root, h.hmac, haes.trans h.decrypts, h.data⟩

theorem mayTry_iff (leaf : LeafData) :
    MayTry B env reqSize body s leaf ↔ TryAccepted B env reqSize body s leaf ∧
      (testRateLimit env.now s.restartCount leaf.pub).1 = ecSuccess := by
  rw [testRateLimit_iff]
  constructor
  · rintro ⟨hauthentic, hpcr, hrate⟩
    obtain ⟨hsize, hleaf⟩ := (authentic_iff B env reqSize body s leaf).mp hauthentic
    exact ⟨⟨hsize, hleaf, (validatePcrValue_iff ..).mpr hpcr⟩, hrate⟩
  · rintro ⟨⟨hsize, hleaf, hpcr⟩, hrate⟩
    exact ⟨(authentic_iff B env reqSize body s leaf).mpr ⟨hsize, hleaf⟩,
      (validatePcrValue_iff ..).mp hpcr, hrate⟩

end Attempt

/-! ## The fields of the response -/

def responseHighEntropySecret (body : Bytes) : Bytes := (body.drop 4).take pwSecretSize

def responseResetSecret (body : Bytes) : Bytes := (body.drop 36).take pwSecretSize

def responseLeaf (body : Bytes) : Bytes := body.drop (36 + pwSecretSize)

theorem responseHighEntropySecret_tryAuthBody (code : Code) (leaf : LeafData)
    (wrapped : WrappedLeafData) :
    responseHighEntropySecret (tryAuthBody code leaf wrapped) =
      (if code = ecSuccess then leaf.sec.highEntropySecret else emptyHash).val := by
  unfold responseHighEntropySecret tryAuthBody
  generalize (if code = ecSuccess then leaf.sec.highEntropySecret else emptyHash) = secret
  have hword : (Codec.uint32.encode 0).length = 4 := Codec.uint32.length_encode 0
  have hlen : secret.val.length = pwSecretSize := secret.property
  rw [List.append_assoc, List.append_assoc, List.drop_left' hword, List.take_left' hlen]

theorem responseResetSecret_tryAuthBody (code : Code) (leaf : LeafData)
    (wrapped : WrappedLeafData) :
    responseResetSecret (tryAuthBody code leaf wrapped) =
      (if code = ecSuccess then leaf.sec.resetSecret else emptyHash).val := by
  unfold responseResetSecret tryAuthBody
  generalize (if code = ecSuccess then leaf.sec.highEntropySecret else emptyHash) = secret
  generalize (if code = ecSuccess then leaf.sec.resetSecret else emptyHash) = resetSecret
  have hlen : (Codec.uint32.encode 0 ++ secret.val).length = 36 := by
    rw [List.length_append, Codec.uint32.length_encode, secret.property]
    rfl
  have hlen' : resetSecret.val.length = pwSecretSize := resetSecret.property
  rw [List.append_assoc, List.drop_left' hlen, List.take_left' hlen']

/-- Behind the bytes that are there, `memset` has left zeros. -/
theorem eq_zero_of_mem_drop_readBytes {n m : Nat} {bs : Bytes} (h : bs.length ≤ m) :
    ∀ b ∈ (readBytes n bs).drop m, b = 0 := by
  induction n generalizing m bs with
  | zero => simp
  | succ n ih =>
      cases bs with
      | nil =>
          have hall : ∀ k, readBytes k [] = List.replicate k 0 := by
            intro k
            induction k with
            | zero => rfl
            | succ k ihk => rw [readBytes, ihk, List.replicate_succ]
          rw [hall, List.drop_replicate]
          exact fun b hb => List.eq_of_mem_replicate hb
      | cons c bs =>
          obtain ⟨m, rfl⟩ : ∃ k, m = k + 1 := ⟨m - 1, by simp at h; omega⟩
          exact ih (Nat.le_of_succ_le_succ h)

/-! ## The result -/

section Result

variable (B : Board) (env : Env B.cfg.bufferSize) (reqSize : UInt16) (body : Bytes)
  (s : State B.cfg.bufferSize)

/-- What is to come of a try request. -/
structure TryAnswer (o : Outcome B.cfg.bufferSize) : Prop where
  released : o.code = ecSuccess ↔ ∃ leaf, MayTry B env reqSize body s leaf ∧
    SecretMatches body leaf ∧ Recorded B env body s leaf
  secrets : ∀ leaf, MayTry B env reqSize body s leaf → o.code = ecSuccess →
    responseHighEntropySecret o.body = leaf.sec.highEntropySecret.val ∧
      responseResetSecret o.body = leaf.sec.resetSecret.val
  hidden : o.code ≠ ecSuccess →
    (∀ b ∈ responseHighEntropySecret o.body, b = 0) ∧ ∀ b ∈ responseResetSecret o.body, b = 0
  answered : ∀ leaf, MayTry B env reqSize body s leaf → Recorded B env body s leaf →
    o.code = attemptCode body leaf ∧
      (∃ wrapped, responseLeaf o.body = WrappedLeafData.codec.encode wrapped ∧
        wrapped.pub = attemptedPub B env body s leaf) ∧
      o.state.tree = { s.tree with root := attemptedRoot B env body s leaf }
  logged : ∀ leaf, MayTry B env reqSize body s leaf → Recorded B env body s leaf →
    ∃ log, storedValue B.cfg s.vars pwLogVar0 = some (LogStorage.codec.encode log) ∧
      storedValue B.cfg o.state.vars pwLogVar0 =
        some (LogStorage.codec.encode (log.append (attemptEntry B env body s leaf)))
  kept : (∀ leaf, MayTry B env reqSize body s leaf → ¬ Recorded B env body s leaf) →
    o.state.tree = s.tree
  refused : (∀ leaf, ¬ MayTry B env reqSize body s leaf) → o.state = s

variable {B env reqSize body s}

theorem MayTry.unique {leaf leaf' : LeafData} (h : MayTry B env reqSize body s leaf)
    (h' : MayTry B env reqSize body s leaf') : leaf' = leaf :=
  h'.authentic.data.trans h.authentic.data.symm

/-- The log entry is in the store if the code says so. -/
theorem logEntry_stored {ts : List Vars.Tuple} (hP : B.nvmem.Involutive)
    (hholds : Vars.Holds B.cfg s.vars ts) {e : LogEntry}
    (hok : (logEntry B.cfg B.nvmem env.io e s.vars).1 = ecSuccess) :
    ∃ log, storedValue B.cfg s.vars pwLogVar0 = some (LogStorage.codec.encode log) ∧
      storedValue B.cfg (logEntry B.cfg B.nvmem env.io e s.vars).2 pwLogVar0 =
        some (LogStorage.codec.encode (log.append e)) := by
  cases hload : (loadLogData B.cfg env.io s.vars).1 with
  | error code =>
      rw [logEntry] at hok
      simp only [hload] at hok
      exact absurd hok (loadLogData_error B hload)
  | ok log =>
      have hcopy := loadLogData_copy hload
      rw [logEntry_eq hload] at hok ⊢
      have hflags : ∀ t ∈ [logTuple 0 (log.append e)], t.flags = 0 := by simp [logTuple]
      have hholds' := Vars.persist_holds hP hholds hcopy hflags hok
      refine ⟨log, ((loadLogData_iff hholds hcopy).mp hload).1, ?_⟩
      rw [storedValue_eq hholds' (by decide)]
      exact Vars.valueOf_put_self

variable (B env reqSize body s) in
/-- The handler in terms of the conditions above. -/
theorem handleTryAuth_attempt :
    ((∀ leaf, ¬ MayTry B env reqSize body s leaf) ∧
        (handleTryAuth B env reqSize body s).code ≠ ecSuccess ∧
        (handleTryAuth B env reqSize body s).state = s ∧
        ((handleTryAuth B env reqSize body s).body = [] ∨
          ∃ wait, (handleTryAuth B env reqSize body s).body =
            readBytes (124 + pwLeafPayloadSize) (Codec.uint32.encode wait))) ∨
      ∃ leaf, MayTry B env reqSize body s leaf ∧
        ∃ logged, logged = logEntry B.cfg B.nvmem env.io (attemptEntry B env body s leaf) s.vars ∧
          ((logged.1 ≠ ecSuccess ∧
              handleTryAuth B env reqSize body s = .fail logged.1 { s with vars := logged.2 }) ∨
            (logged.1 = ecSuccess ∧
              handleTryAuth B env reqSize body s =
                ⟨attemptCode body leaf, s.committed (attemptedRoot B env body s leaf) logged.2,
                  tryAuthBody (attemptCode body leaf) leaf
                    (rewrap B s.tree (importLeaf (leafRequestLeaf body))
                      (attemptedPub B env body s leaf)),
                  UInt16.ofNat (124 + pwLeafPayloadSize)⟩)) := by
  rcases handleTryAuth_cases B env reqSize body s with
    ⟨code, hne, hnot, h⟩ | ⟨leaf, haccepted, ⟨hrate, h⟩ | ⟨hrate, wrapped, newRoot, logged, rfl,
      rfl, hlogged, hcases⟩⟩
  · left
    rw [h]
    exact ⟨fun leaf hmay => hnot leaf ((mayTry_iff ..).mp hmay).1, hne, rfl, Or.inl rfl⟩
  · left
    rw [h]
    refine ⟨fun leaf' hmay => ?_, hrate, rfl, Or.inr ⟨_, rfl⟩⟩
    obtain ⟨haccepted', hrate'⟩ := (mayTry_iff ..).mp hmay
    cases haccepted.leaf_ok.unique B haccepted'.leaf_ok
    exact hrate hrate'
  · right
    have hentry : logged =
        logEntry B.cfg B.nvmem env.io (attemptEntry B env body s leaf) s.vars := by
      rw [hlogged, tryAuthPub_eq, tryAuthResult_eq]
      rfl
    rw [tryAuthPub_eq, tryAuthResult_eq] at hcases
    exact ⟨leaf, (mayTry_iff ..).mpr ⟨haccepted, hrate⟩, logged, hentry, hcases⟩

theorem attemptCode_eq_success {leaf : LeafData} :
    attemptCode body leaf = ecSuccess ↔ SecretMatches body leaf := by
  unfold attemptCode
  split
  · simp only [*]
  · simp only [*, iff_false]
    decide

/-- A success has met the conditions. -/
theorem mayTry_of_success (h : (handleTryAuth B env reqSize body s).code = ecSuccess) :
    ∃ leaf, MayTry B env reqSize body s leaf ∧ SecretMatches body leaf ∧
      Recorded B env body s leaf := by
  rcases handleTryAuth_attempt B env reqSize body s with
    ⟨-, hne, -⟩ | ⟨leaf, hmay, logged, hlogged, ⟨herr, heq⟩ | ⟨hok, heq⟩⟩
  · exact absurd h hne
  · rw [heq] at h
    exact absurd h herr
  · rw [heq] at h
    refine ⟨leaf, hmay, attemptCode_eq_success.mp h, ?_⟩
    rw [Recorded, ← hlogged]
    exact hok

/-- A request that is refused. -/
theorem tryAnswer_refused (hnot : ∀ leaf, ¬ MayTry B env reqSize body s leaf)
    (hne : (handleTryAuth B env reqSize body s).code ≠ ecSuccess)
    (hstate : (handleTryAuth B env reqSize body s).state = s)
    (hbody : (handleTryAuth B env reqSize body s).body = [] ∨
      ∃ wait, (handleTryAuth B env reqSize body s).body =
        readBytes (124 + pwLeafPayloadSize) (Codec.uint32.encode wait)) :
    TryAnswer B env reqSize body s (handleTryAuth B env reqSize body s) where
  released := ⟨fun hcode => absurd hcode hne, fun ⟨leaf, hmay, _⟩ => absurd hmay (hnot leaf)⟩
  secrets := fun leaf hmay => absurd hmay (hnot leaf)
  hidden := by
    intro _
    rcases hbody with hnil | ⟨wait, hwait⟩
    · rw [hnil]
      exact ⟨by simp [responseHighEntropySecret], by simp [responseResetSecret]⟩
    · have hword : (Codec.uint32.encode wait).length = 4 := Codec.uint32.length_encode wait
      rw [hwait]
      exact ⟨fun b hb => eq_zero_of_mem_drop_readBytes (by omega) b (List.mem_of_mem_take hb),
        fun b hb => eq_zero_of_mem_drop_readBytes (by omega) b (List.mem_of_mem_take hb)⟩
  answered := fun leaf hmay => absurd hmay (hnot leaf)
  logged := fun leaf hmay => absurd hmay (hnot leaf)
  kept := fun _ => by rw [hstate]
  refused := fun _ => hstate

/-- An attempt that cannot be logged. -/
theorem tryAnswer_unlogged {leaf : LeafData} (hmay : MayTry B env reqSize body s leaf)
    (hnot : ¬ Recorded B env body s leaf) {code : Code} (herr : code ≠ ecSuccess)
    {vars : Vars.State B.cfg.bufferSize}
    (h : handleTryAuth B env reqSize body s = .fail code { s with vars := vars }) :
    TryAnswer B env reqSize body s (handleTryAuth B env reqSize body s) := by
  have hnot' : ∀ leaf', MayTry B env reqSize body s leaf' → ¬ Recorded B env body s leaf' := by
    intro leaf' hmay'
    cases hmay.unique hmay'
    exact hnot
  rw [h]
  exact {
    released := ⟨fun hcode => absurd hcode herr,
      fun ⟨leaf', hmay', _, hrecorded⟩ => absurd hrecorded (hnot' leaf' hmay')⟩
    secrets := fun _ _ hcode => absurd hcode herr
    hidden := fun _ => ⟨by simp [responseHighEntropySecret, Outcome.fail],
      by simp [responseResetSecret, Outcome.fail]⟩
    answered := fun leaf' hmay' hrecorded => absurd hrecorded (hnot' leaf' hmay')
    logged := fun leaf' hmay' hrecorded => absurd hrecorded (hnot' leaf' hmay')
    kept := fun _ => rfl
    refused := fun hall => absurd hmay (hall leaf) }

/-- An attempt that is logged. -/
theorem tryAnswer_logged {ts : List Vars.Tuple} (hP : B.nvmem.Involutive)
    (hholds : Vars.Holds B.cfg s.vars ts) {leaf : LeafData}
    (hmay : MayTry B env reqSize body s leaf) (hrecorded : Recorded B env body s leaf)
    (h : handleTryAuth B env reqSize body s =
      ⟨attemptCode body leaf, s.committed (attemptedRoot B env body s leaf)
          (logEntry B.cfg B.nvmem env.io (attemptEntry B env body s leaf) s.vars).2,
        tryAuthBody (attemptCode body leaf) leaf
          (rewrap B s.tree (importLeaf (leafRequestLeaf body)) (attemptedPub B env body s leaf)),
        UInt16.ofNat (124 + pwLeafPayloadSize)⟩) :
    TryAnswer B env reqSize body s (handleTryAuth B env reqSize body s) := by
  have hsuccess : (handleTryAuth B env reqSize body s).code = ecSuccess → ∃ leaf,
      MayTry B env reqSize body s leaf ∧ SecretMatches body leaf ∧ Recorded B env body s leaf :=
    mayTry_of_success
  rw [h] at hsuccess ⊢
  exact {
    released := by
      refine ⟨hsuccess, ?_⟩
      rintro ⟨leaf', hmay', hsecret, -⟩
      cases hmay.unique hmay'
      exact attemptCode_eq_success.mpr hsecret
    secrets := by
      intro leaf' hmay' hcode
      cases hmay.unique hmay'
      dsimp only at hcode ⊢
      rw [responseHighEntropySecret_tryAuthBody, responseResetSecret_tryAuthBody, if_pos hcode,
        if_pos hcode]
      exact ⟨rfl, rfl⟩
    hidden := by
      intro hcode
      dsimp only at hcode ⊢
      rw [responseHighEntropySecret_tryAuthBody, responseResetSecret_tryAuthBody, if_neg hcode,
        if_neg hcode]
      exact ⟨fun b hb => List.eq_of_mem_replicate hb, fun b hb => List.eq_of_mem_replicate hb⟩
    answered := by
      intro leaf' hmay' _
      cases hmay.unique hmay'
      exact ⟨rfl, ⟨_, drop_tryAuthBody .., rfl⟩, rfl⟩
    logged := by
      intro leaf' hmay' hrecorded'
      cases hmay.unique hmay'
      exact logEntry_stored hP hholds hrecorded'
    kept := fun hall => absurd hrecorded (hall leaf hmay)
    refused := fun hall => absurd hmay (hall leaf) }

/-- **What a try request releases, returns, stores and keeps.** -/
theorem tryAuth_releases_iff {ts : List Vars.Tuple} (hP : B.nvmem.Involutive)
    (hholds : Vars.Holds B.cfg s.vars ts) :
    TryAnswer B env reqSize body s (handleTryAuth B env reqSize body s) := by
  rcases handleTryAuth_attempt B env reqSize body s with
    ⟨hnot, hne, hstate, hbody⟩ | ⟨leaf, hmay, logged, rfl, ⟨herr, h⟩ | ⟨hok, h⟩⟩
  · exact tryAnswer_refused hnot hne hstate hbody
  · exact tryAnswer_unlogged hmay herr herr h
  · exact tryAnswer_logged hP hholds hmay hok h

end Result

/-- A try with the wrong secret on the small board. -/
theorem tryAuth_releases_iff_wrong :
    TryAnswer testBoard testEnv 436 (tryRequest wrongSecret 4).body (enrolledState 4)
      (handleTryAuth testBoard testEnv 436 (tryRequest wrongSecret 4).body (enrolledState 4)) := by
  have hholds : Vars.Holds testBoard.cfg (enrolledState 4).vars
      [treeTuple 0 twoSlotTree.storage, logTuple 0 (resetLog (enrolledTree 4).root)] :=
    ⟨rfl, by decide +kernel, by decide +kernel⟩
  exact tryAuth_releases_iff testBoard_involutive hholds

/-! ## Two tries that keep the secrets back -/

/-- The secret that encrypts to zeros. -/
def rightSecret : Secret := (presentedLeaf testBoard (tryRequest wrongSecret 4)
  (enrolledState 4).tree).sec.lowEntropySecret

/-- A leaf that is bound to either of two PCRs. -/
def boundLeaf : WrappedLeafData :=
  let criteria : Arr ValidPcrValue 2 :=
    ⟨[⟨⟨[1, 0], rfl⟩, emptyHash⟩, ⟨⟨[2, 0], rfl⟩, emptyHash⟩], rfl⟩
  sealLeaf testCrypto twoSlotTree (Arr.replicate 16 2)
    { enrolledPub 4 with validPcrCriteria := criteria } (Arr.replicate 96 0)

def boundState : State testBoard.cfg.bufferSize :=
  let root := computeRootHash testCrypto twoSlotTree 0 emptyHash.val boundLeaf.hmac
  { enrolledState 4 with tree := { twoSlotTree with root := root } }

def boundBody : Bytes :=
  rightSecret.val ++ WrappedLeafData.codec.encode boundLeaf ++ emptyHash.val

/-- The first of them cannot be read. -/
def firstUnread : Env testBoard.cfg.bufferSize :=
  { testEnv with pcrDigest := fun mask => if mask.val = [1, 0] then none else some emptyHash }

def bothRead : Env testBoard.cfg.bufferSize :=
  { testEnv with pcrDigest := fun _ => some emptyHash }

/-- The right secret is presented, and no check fails but the write of the log, or one criterion
matches behind one that cannot be read. -/
theorem tryAuth_withholds :
    (∃ leaf, MayTry testBoard failingErase 436 (tryRequest rightSecret 4).body (enrolledState 4)
        leaf ∧ SecretMatches (tryRequest rightSecret 4).body leaf ∧
      (handleTryAuth testBoard failingErase 436 (tryRequest rightSecret 4).body
        (enrolledState 4)).code ≠ ecSuccess) ∧
    ∃ leaf, Authentic testBoard firstUnread 436 boundBody boundState leaf ∧
      (∃ c ∈ leaf.pub.validPcrCriteria.val, ¬ c.IsEnd ∧
        firstUnread.pcrDigest c.bitmask = some c.digest) ∧
      RateExpired firstUnread.now boundState.restartCount leaf.pub ∧ SecretMatches boundBody leaf ∧
      (handleTryAuth testBoard firstUnread 436 boundBody boundState).code = pwErrPcrNotMatch := by
  constructor
  · have hrun : (handleTryAuth testBoard testEnv 436 (tryRequest rightSecret 4).body
          (enrolledState 4)).code = ecSuccess ∧
        (handleTryAuth testBoard failingErase 436 (tryRequest rightSecret 4).body
          (enrolledState 4)).code ≠ ecSuccess := by
      decide +kernel
    obtain ⟨leaf, hmay, hsecret, -⟩ := mayTry_of_success hrun.1
    exact ⟨leaf, ⟨hmay.authentic.of_aesOk _ _ _ _ _ rfl, hmay.pcr, hmay.rate⟩, hsecret, hrun.2⟩
  · have hrun : (handleTryAuth testBoard bothRead 436 boundBody boundState).code = ecSuccess ∧
        (handleTryAuth testBoard firstUnread 436 boundBody boundState).code = pwErrPcrNotMatch := by
      decide +kernel
    obtain ⟨leaf, hmay, hsecret, -⟩ := mayTry_of_success hrun.1
    refine ⟨leaf, hmay.authentic.of_aesOk _ _ _ _ _ rfl, ?_, hmay.rate, hsecret, hrun.2⟩
    rw [hmay.authentic.data]
    decide +kernel

end Pinweaver
end CrosEc
