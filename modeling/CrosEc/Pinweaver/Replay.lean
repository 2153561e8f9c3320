import CrosEc.Pinweaver.Boot
import CrosEc.Pinweaver.Cases

/-!
# Log replay

A client that lost the leaf an authentication returned can have it computed again:
`PW_LOG_REPLAY` takes the leaf from before and the root that the log has for the
attempt.  The handler redoes the update from the log entry alone, so it gives the same
leaf only if the entry it finds says the same as the attempt did.
-/

namespace CrosEc
namespace Pinweaver

open Lib

/-- The tree has not been reset: only the root may differ. -/
def SameTree (tree tree' : MerkleTree) : Prop := ∃ root, tree' = { tree with root := root }

theorem SameTree.refl (tree : MerkleTree) : SameTree tree tree := ⟨tree.root, rfl⟩

/-- Only a reset replaces the tree; all other requests keep its shape and its keys. -/
theorem dispatch_sameTree (B : Board) (env : Env B.cfg.bufferSize) {r : Request}
    (s : State B.cfg.bufferSize) (htype : r.type ≠ pwResetTree) :
    SameTree s.tree (dispatch B env r s).state.tree := by
  have hloaded : ∀ s', LogLoaded B env s s' → SameTree s.tree s'.tree := by
    rintro s' (rfl | rfl)
    · exact SameTree.refl _
    · exact SameTree.refl _
  unfold dispatch
  rw [if_neg htype]
  repeat' split
  · rcases handleInsertLeaf_cases B env r.dataLength r.body s with
      ⟨code, -, h⟩ | ⟨wrapped, newRoot, -, logged, -, ⟨-, h⟩ | ⟨-, h⟩⟩
    · rw [h]
      exact SameTree.refl _
    · rw [h]
      exact SameTree.refl _
    · rw [h]
      exact ⟨newRoot, rfl⟩
  · rcases handleRemoveLeaf_cases B env r.dataLength r.body s with
      ⟨code, -, h⟩ | ⟨-, logged, -, ⟨-, h⟩ | ⟨-, h⟩⟩
    · rw [h]
      exact SameTree.refl _
    · rw [h]
      exact SameTree.refl _
    · rw [h]
      exact ⟨_, rfl⟩
  · rcases handleTryAuth_cases B env r.dataLength r.body s with
      ⟨code, -, -, h⟩ | ⟨leaf, -, ⟨-, h⟩ | ⟨-, wrapped, newRoot, logged, -, -, -,
        ⟨-, h⟩ | ⟨-, h⟩⟩⟩
    · rw [h]
      exact SameTree.refl _
    · rw [h]
      exact SameTree.refl _
    · rw [h]
      exact SameTree.refl _
    · rw [h]
      exact ⟨newRoot, rfl⟩
  · rcases handleResetAuth_cases B env r.dataLength r.body s with
      ⟨code, -, h⟩ | ⟨leaf, -, wrapped, newRoot, logged, -, -, -, ⟨-, h⟩ | ⟨-, h⟩⟩
    · rw [h]
      exact SameTree.refl _
    · rw [h]
      exact SameTree.refl _
    · rw [h]
      exact ⟨newRoot, rfl⟩
  · exact hloaded _ (handleGetLog_state B env r.dataLength r.body s)
  · exact hloaded _ (handleLogReplay_state B env r.dataLength r.body s)
  · exact SameTree.refl _

theorem handleRequest_sameTree (B : Board) (env : Env B.cfg.bufferSize) {r : Request}
    (s : State B.cfg.bufferSize) (htype : r.type ≠ pwResetTree) :
    SameTree s.tree (handleRequest B env r s).2.tree := by
  rw [(handleRequest_response B env r s).2.2.1]
  unfold handle
  split
  · exact SameTree.refl _
  · rename_i r' hcompat
    exact dispatch_sameTree B env s (by rw [makeCompatibleRequest_type hcompat]; exact htype)

section SameTree

variable (B : Board) (tree : MerkleTree) (root : Hash)

theorem decryptedLeaf_root (leaf : ImportedLeaf) :
    decryptedLeaf B { tree with root := root } leaf = decryptedLeaf B tree leaf := rfl

theorem rewrap_root (leaf : ImportedLeaf) (pub : LeafPublicData) :
    rewrap B { tree with root := root } leaf pub = rewrap B tree leaf pub := rfl

theorem rewrapRoot_root (leaf : ImportedLeaf) (pub : LeafPublicData) :
    rewrapRoot B { tree with root := root } leaf pub = rewrapRoot B tree leaf pub := rfl

theorem rewrap_pub (leaf : ImportedLeaf) (pub : LeafPublicData) :
    (rewrap B tree leaf pub).pub = pub := rfl

end SameTree

/-- The request to replay an authentication request: the same leaf and path, and the
root that the tree had after it. -/
def replayRequest (version : UInt8) (r : Request) (root : Hash) : Request where
  version := version
  type := pwLogReplay
  dataLength := r.dataLength
  body := root.val ++ leafRequestLeaf r.body

theorem leafRequestLeaf_replay (version : UInt8) (r : Request) (root : Hash) :
    leafRequestLeaf (replayRequest version r root).body = leafRequestLeaf r.body :=
  List.drop_left' root.property

theorem leafRequestHead_replay (version : UInt8) (r : Request) (root : Hash) :
    leafRequestHead (replayRequest version r root).body = root :=
  Subtype.ext (readBytes_append root.property _)

section Replay

variable (B : Board)

/-! ## The two updates -/

/-- The attempts after an authentication, from the ones before. -/
theorem authPub_attemptCount (env : Env B.cfg.bufferSize) (r : Request)
    (s : State B.cfg.bufferSize) :
    (authCode B r s = ecSuccess → (authPub B env r s).attemptCount = 0) ∧
      (authCode B r s ≠ ecSuccess →
        (authPub B env r s).attemptCount =
          if (presentedLeaf B r s.tree).pub.attemptCount = 0xffffffff then 0xffffffff
          else (presentedLeaf B r s.tree).pub.attemptCount + 1) := by
  unfold authCode authPub tryAuthPub tryAuthLeaf tryAuthResult
  by_cases htype : r.type = pwTryAuth
  · simp only [htype, if_true]
    split
    · exact ⟨fun _ => rfl, fun h => absurd rfl h⟩
    · have hfailed : ¬ pwErrLowentAuthFailed = ecSuccess := by decide
      refine ⟨fun h => absurd h hfailed, fun _ => ?_⟩
      simp only
      split
      · assumption
      · rfl
  · simp only [htype, if_false]
    exact ⟨fun _ => rfl, fun h => absurd rfl h⟩

/-- The replayed attempts are the attempts: both count up from below the maximum, or
both end at 0. -/
theorem replayed_attempts_iff (entryCode : Code) {code : Code} {old new : UInt32}
    (hzero : code = ecSuccess → new = 0)
    (hcount : code ≠ ecSuccess → new = if old = 0xffffffff then 0xffffffff else old + 1) :
    (if entryCode = ecSuccess then 0 else old + 1) = new ↔
      (code = ecSuccess → entryCode = ecSuccess ∨ old = 0xffffffff) ∧
        (code ≠ ecSuccess → entryCode ≠ ecSuccess ∧ old ≠ 0xffffffff) := by
  have hwrap : old + 1 = 0 ↔ old = 0xffffffff := by
    have hone : (1 : UInt32).toNat = 1 := rfl
    have hmax : (0xffffffff : UInt32).toNat = 2 ^ 32 - 1 := rfl
    have hnil : (0 : UInt32).toNat = 0 := rfl
    have hlt := old.toNat_lt
    rw [← UInt32.toNat_inj, ← UInt32.toNat_inj, UInt32.toNat_add, hone, hmax, hnil]
    omega
  by_cases hcode : code = ecSuccess
  · rw [hzero hcode]
    by_cases hentry : entryCode = ecSuccess
    · simp [hcode, hentry]
    · simp [hcode, hentry, hwrap]
  · rw [hcount hcode]
    by_cases hold : old = 0xffffffff
    · subst hold
      by_cases hentry : entryCode = ecSuccess
      · simp [hcode, hentry]
      · simp [hcode, hentry]
    · have hne : old + 1 ≠ 0 := fun h => hold (hwrap.mp h)
      by_cases hentry : entryCode = ecSuccess
      · simp [hcode, hentry, hold, hne.symm]
      · simp [hcode, hentry, hold]

/-! ## The replay -/

/-- What a replay is meant to do: succeed, return these bytes as the leaf, and change
neither the tree nor the variables. -/
def ReplayReproduces (env : Env B.cfg.bufferSize) (r : Request) (s : State B.cfg.bufferSize)
    (leafBytes : Bytes) : Prop :=
  (handleRequest B env r s).1.resultCode = ecSuccess ∧
    (handleRequest B env r s).1.leafBytes r = leafBytes ∧
    (handleRequest B env r s).2.tree = s.tree ∧
    Vars.contents B.cfg (handleRequest B env r s).2.vars = Vars.contents B.cfg s.vars

/-- The first entry with this root says what the attempt did: it is of the same leaf, has
the time of the attempt, and leads to the same attempt counter.  A failed attempt is
replayed with `old.attemptCount + 1`, which wraps where the attempt did not. -/
def EntryAgrees (log : LogStorage) (root : Hash) (old new : LeafPublicData) (code : Code) : Prop :=
  ∃ e, foundEntry log root = some e ∧ e.type = pwTryAuth ∧ e.label = old.label ∧
    e.timestamp = new.timestamp ∧
    (code = ecSuccess → e.returnCode = ecSuccess ∨ old.attemptCount = 0xffffffff) ∧
    (code ≠ ecSuccess → e.returnCode ≠ ecSuccess ∧ old.attemptCount ≠ 0xffffffff)

instance (log : LogStorage) (root : Hash) (old new : LeafPublicData) (code : Code) :
    Decidable (EntryAgrees log root old new code) :=
  match h : foundEntry log root with
  | none => isFalse fun ⟨_, hfound, _⟩ => by rw [h] at hfound; cases hfound
  | some e => decidable_of_iff
      (e.type = pwTryAuth ∧ e.label = old.label ∧ e.timestamp = new.timestamp ∧
        (code = ecSuccess → e.returnCode = ecSuccess ∨ old.attemptCount = 0xffffffff) ∧
        (code ≠ ecSuccess → e.returnCode ≠ ecSuccess ∧ old.attemptCount ≠ 0xffffffff))
      ⟨fun hagrees => ⟨e, h, hagrees⟩, fun ⟨e', hfound, hagrees⟩ => by
        rw [h] at hfound
        cases hfound
        exact hagrees⟩

/-- A leaf of version 0.0 has no PCR criteria behind its public data. -/
def NoStrayCriteria (head : LeafHeader) (pub : LeafPublicData) : Prop :=
  head.minor = 0 ∧ head.major = 0 →
    pub.validPcrCriteria = Arr.replicate 2 ⟨Arr.replicate 2 0, Arr.replicate 32 0⟩

section Updates

variable (env : Env B.cfg.bufferSize) (r : Request) (s : State B.cfg.bufferSize)

/-- What the upgrade of an old leaf leaves of the public data. -/
theorem upgradeLeaf_kept (head : LeafHeader) (leaf : LeafData) :
    (upgradeLeaf head leaf).pub.label = leaf.pub.label ∧
      (upgradeLeaf head leaf).pub.delaySchedule = leaf.pub.delaySchedule ∧
      (upgradeLeaf head leaf).pub.attemptCount = leaf.pub.attemptCount ∧
      (NoStrayCriteria head leaf.pub ↔
        leaf.pub.validPcrCriteria = (upgradeLeaf head leaf).pub.validPcrCriteria) := by
  unfold upgradeLeaf NoStrayCriteria
  split
  · rename_i hversion
    exact ⟨rfl, rfl, rfl, fun h => h hversion, fun h _ => h⟩
  · rename_i hversion
    exact ⟨rfl, rfl, rfl, fun _ => rfl, fun _ h => absurd h hversion⟩

/-- The replayed public data is that of the attempt, field by field. -/
theorem replayLeaf_pub_iff (e : LogEntry) :
    (replayLeaf e (decryptedLeaf B s.tree r.presented)).pub = authPub B env r s ↔
      NoStrayCriteria r.presented.head (decryptedLeaf B s.tree r.presented).pub ∧
        e.timestamp = (authPub B env r s).timestamp ∧
        (if e.returnCode = ecSuccess then 0
          else (presentedLeaf B r s.tree).pub.attemptCount + 1) =
            (authPub B env r s).attemptCount := by
  obtain ⟨hlabel, hschedule, hcriteria⟩ := authPub_kept B env r s
  obtain ⟨hlabel', hschedule', hattempts, hstray⟩ :=
    upgradeLeaf_kept r.presented.head (decryptedLeaf B s.tree r.presented)
  rw [← presentedLeaf] at hlabel' hschedule' hattempts hstray
  rw [hstray, hattempts, ← hcriteria]
  rw [hlabel'] at hlabel
  rw [hschedule'] at hschedule
  generalize authPub B env r s = pub at hlabel hschedule ⊢
  generalize decryptedLeaf B s.tree r.presented = leaf at hlabel hschedule ⊢
  cases pub
  simp only at hlabel hschedule
  simp only [replayLeaf, LeafPublicData.mk.injEq, hlabel, hschedule, true_and]
  constructor
  · rintro ⟨htime, hcount, hpcr⟩
    exact ⟨hpcr, htime, hcount⟩
  · rintro ⟨hpcr, htime, hcount⟩
    exact ⟨htime, hcount, hpcr⟩

end Updates

theorem handle_replayRequest {version : UInt8}
    (hversion : version = 0 ∨ version = pwProtocolVersion) (env : Env B.cfg.bufferSize)
    (r : Request) (root : Hash) (s : State B.cfg.bufferSize) :
    handle B env (replayRequest version r root) s =
      handleLogReplay B env r.dataLength (replayRequest version r root).body s := by
  have hcompat : makeCompatibleRequest s.tree (replayRequest version r root) =
      some (replayRequest version r root) := by
    rcases hversion with rfl | rfl
    · rfl
    · rfl
  unfold handle
  rw [hcompat]
  rfl

/-- What the checks of an authentication request say to a replay with the same leaf. -/
theorem validateTree_of_accepted {aesOk : Bool} {tree : MerkleTree} {payloadLen : UInt16}
    {unimported : Bytes} {leaf : LeafData}
    (h : LeafAccepted B aesOk tree payloadLen unimported leaf) : validateTree tree = ecSuccess := by
  have hpath := h.path
  unfold validateRequestWithPath at hpath
  split at hpath
  · exact hpath
  · rename_i htree
    exact not_not.mp htree

/-- **When a replay reproduces an authentication.**  For every authentication that took
effect, and every later state of the same tree in which the log can be loaded: the
replay of the presented leaf returns the leaf that the authentication returned, and
changes nothing, exactly if the first log entry with the root agrees with the attempt
(and the AES engine works, and a leaf of version 0.0 carries no criteria). -/
theorem logReplay_reproduces_iff {env env' : Env B.cfg.bufferSize} {r : Request}
    {s s' : State B.cfg.bufferSize} {version : UInt8} {log : LogStorage}
    (hversion : version = 0 ∨ version = pwProtocolVersion)
    (htype : r.type = pwTryAuth ∨ r.type = pwResetAuth)
    (heffect : AuthTookEffect r (handleRequest B env r s).1) (hsame : SameTree s.tree s'.tree)
    (hlog : (loadLogData B.cfg env'.io s'.vars).1 = .ok log) :
    ReplayReproduces B env' (replayRequest version r (handleRequest B env r s).1.root) s'
        ((handleRequest B env r s).1.leafBytes r) ↔
      env'.aesOk = true ∧
        NoStrayCriteria r.presented.head (decryptedLeaf B s.tree r.presented).pub ∧
        EntryAgrees log (handleRequest B env r s).1.root (presentedLeaf B r s.tree).pub
          (authPub B env r s) (handleRequest B env r s).1.resultCode := by
  obtain ⟨haccepted, hsize, hcode, hleaf, htree⟩ := handleRequest_auth B env r s htype heffect
  obtain ⟨-, hroot, hstate, -⟩ := handleRequest_response B env r s
  rw [← hstate, htree] at hroot
  obtain ⟨root', hsame⟩ := hsame
  set root := (handleRequest B env r s).1.root with hrootDef
  set replay := replayRequest version r root with hreplay
  obtain ⟨hcode', -, hstate', -, hleaf'⟩ := handleRequest_response B env' replay s'
  have hhandle := handle_replayRequest B hversion env' r root s'
  have hrequest : leafRequestLeaf replay.body = leafRequestLeaf r.body :=
    leafRequestLeaf_replay version r root
  have hhead : leafRequestHead replay.body = root := leafRequestHead_replay version r root
  have hpub := fun e => replayLeaf_pub_iff B env r s e
  have hattempts := fun e : LogEntry => replayed_attempts_iff e.returnCode
    (authPub_attemptCount B env r s).1 (authPub_attemptCount B env r s).2
  obtain ⟨hlabel, -⟩ := upgradeLeaf_kept r.presented.head (decryptedLeaf B s.tree r.presented)
  rw [← presentedLeaf] at hlabel
  -- The leaf that a replay computes from an entry, in the tree of the authentication.
  have houtcome : ∀ e, (replayOutcome B env' replay.body s' e).body =
      WrappedLeafData.codec.encode (rewrap B s.tree r.presented
        (replayLeaf e (decryptedLeaf B s.tree r.presented)).pub) := by
    intro e
    simp only [replayOutcome, hrequest, hsame, rewrap_root, decryptedLeaf_root]
    rw [Request.presented]
  unfold ReplayReproduces
  have hoffset : leafOffset pwProtocolVersion replay.type = 0 := rfl
  rw [hcode', hstate', hleaf', hhandle, hleaf, hcode, hoffset, List.drop_zero]
  constructor
  · rintro ⟨hok, hbytes, -, -⟩
    rcases handleLogReplay_cases B env' r.dataLength replay.body s' with hne | ⟨log', e, h, ho⟩
    · exact absurd hok hne
    · have hsameLog : log' = log := by
        have := h.log_ok
        rw [hlog] at this
        exact (Except.ok.inj this).symm
      subst hsameLog
      rw [ho, houtcome] at hbytes
      have hsamePub := congrArg WrappedLeafData.pub (WrappedLeafData.codec.encode_inj hbytes)
      rw [rewrap_pub, rewrap_pub] at hsamePub
      obtain ⟨hcriteria, htime, hcount⟩ := (hpub e).mp hsamePub
      have hfound := h.found
      have hentryLabel := h.label
      rw [hhead] at hfound
      rw [hrequest, hsame, decryptedLeaf_root] at hentryLabel
      exact ⟨h.aes, hcriteria, e, hfound, h.type_ok, (hlabel.trans hentryLabel).symm, htime,
        (hattempts e).mp hcount⟩
  · rintro ⟨haes, hcriteria, e, hfound, hentryType, hentryLabel, htime, hcount⟩
    have hsamePub := (hpub e).mpr ⟨hcriteria, htime, (hattempts e).mpr hcount⟩
    have hentryRoot : e.root = rewrapRoot B s.tree r.presented (authPub B env r s) :=
      (foundEntry_root hfound).trans hroot
    have h : ReplayAccepted B env' r.dataLength replay.body s' log e :=
      { size := hsize
        tree_ok := by
          have hvalid := validateTree_of_accepted B haccepted
          rw [hsame]
          exact hvalid
        header := by rw [hrequest, hsame]; exact haccepted.header
        log_ok := hlog
        found := by rw [hhead]; exact hfound
        type_ok := hentryType
        hmac := by rw [hrequest, hsame]; exact haccepted.hmac
        aes := haes
        label := by
          rw [hrequest, hsame, decryptedLeaf_root]
          exact hlabel.symm.trans hentryLabel.symm
        root := by
          rw [hrequest, hsame, rewrapRoot_root, decryptedLeaf_root, hentryRoot, ← hsamePub]
          rw [Request.presented] }
    rw [handleLogReplay_of_accepted B env' r.dataLength replay.body s' h, houtcome, hsamePub]
    refine ⟨rfl, rfl, rfl, ?_⟩
    simp only [replayOutcome, loadLogData_state, Vars.getLocalCopy_contents]

end Replay

/-! ## Two attempts on the small board -/

/-- Public data of a leaf in slot 0 that waits one second after five attempts. -/
def enrolledPub (attempts : UInt32) : LeafPublicData where
  label := 0
  delaySchedule := ⟨⟨5, 1⟩ :: List.replicate 15 ⟨0, 0⟩, rfl⟩
  timestamp := ⟨0, 0⟩
  attemptCount := attempts
  validPcrCriteria := Arr.replicate 2 ⟨Arr.replicate 2 0, Arr.replicate 32 0⟩

/-- That leaf, with secrets that encrypt to zeros. -/
def enrolledLeaf (attempts : UInt32) : WrappedLeafData :=
  sealLeaf testCrypto twoSlotTree (Arr.replicate 16 2) (enrolledPub attempts) (Arr.replicate 96 0)

/-- The tree with this leaf and an empty slot. -/
def enrolledTree (attempts : UInt32) : MerkleTree :=
  { twoSlotTree with root :=
      computeRootHash testCrypto twoSlotTree 0 emptyHash.val (enrolledLeaf attempts).hmac }

def enrolledState (attempts : UInt32) : State testBoard.cfg.bufferSize :=
  { blankState with
    tree := enrolledTree attempts
    vars := { blankState.vars with rbuf := some (Vars.encodeStore testBoard.cfg.size
      [treeTuple 0 twoSlotTree.storage, logTuple 0 (resetLog (enrolledTree attempts).root)]) } }

/-- A try with the given low entropy secret. -/
def tryRequest (secret : Secret) (attempts : UInt32) : Request where
  version := 1
  type := pwTryAuth
  dataLength := 436
  body := secret.val ++ WrappedLeafData.codec.encode (enrolledLeaf attempts) ++ emptyHash.val

/-- The response to that try and the device after it. -/
def tried (secret : Secret) (attempts : UInt32) : Response × State testBoard.cfg.bufferSize :=
  handleRequest testBoard testEnv (tryRequest secret attempts) (enrolledState attempts)

/-- The log after a failed try: its entry on top of the reset. -/
def triedLog (secret : Secret) (attempts : UInt32) : LogStorage :=
  (resetLog (enrolledTree attempts).root).append
    (authEntry 0 (tried secret attempts).1.root pwErrLowentAuthFailed
      (updateTimestamp testEnv.later 0))

/-- The request to replay it. -/
def retry (secret : Secret) (attempts : UInt32) : Request :=
  replayRequest 1 (tryRequest secret attempts) (tried secret attempts).1.root

def wrongSecret : Secret := Arr.replicate 32 9

/-- The log of a failed try, and that it took effect. -/
theorem tried_failed {secret : Secret} {attempts : UInt32}
    (hcode : (tried secret attempts).1.resultCode = pwErrLowentAuthFailed)
    (hbody : (tried secret attempts).1.body ≠ []) :
    AuthTookEffect (tryRequest secret attempts) (tried secret attempts).1 ∧
      SameTree (enrolledState attempts).tree (tried secret attempts).2.tree := by
  have heffect : AuthTookEffect (tryRequest secret attempts) (tried secret attempts).1 :=
    ⟨Or.inr ⟨rfl, hcode⟩, hbody⟩
  exact ⟨heffect,
    ⟨_, (handleRequest_auth testBoard testEnv _ _ (Or.inl rfl) heffect).2.2.2.2⟩⟩

/-- A fifth failed try and its replay. -/
theorem logReplay_reproduces_fifthTry :
    ReplayReproduces testBoard testEnv (retry wrongSecret 4) (tried wrongSecret 4).2
      ((tried wrongSecret 4).1.leafBytes (tryRequest wrongSecret 4)) := by
  have hrun :
      ((tried wrongSecret 4).1.resultCode = pwErrLowentAuthFailed ∧
        (tried wrongSecret 4).1.body ≠ []) ∧
      (loadLogData testBoard.cfg testEnv.io (tried wrongSecret 4).2.vars).1.toOption =
        some (triedLog wrongSecret 4) ∧
      (tryRequest wrongSecret 4).presented.head.minor ≠ 0 ∧
      EntryAgrees (triedLog wrongSecret 4) (tried wrongSecret 4).1.root
        (presentedLeaf testBoard (tryRequest wrongSecret 4) (enrolledState 4).tree).pub
        (authPub testBoard testEnv (tryRequest wrongSecret 4) (enrolledState 4))
        (tried wrongSecret 4).1.resultCode := by
    decide +kernel
  obtain ⟨⟨hcode, hbody⟩, hload, hminor, hagrees⟩ := hrun
  obtain ⟨heffect, hsame⟩ := tried_failed hcode hbody
  have hlog : (loadLogData testBoard.cfg testEnv.io (tried wrongSecret 4).2.vars).1 =
      .ok (triedLog wrongSecret 4) := by
    generalize (loadLogData testBoard.cfg testEnv.io (tried wrongSecret 4).2.vars).1 = loaded
      at hload
    cases loaded with
    | error code => cases hload
    | ok log => rw [Option.some.inj hload]
  exact (logReplay_reproduces_iff testBoard (Or.inr rfl) (Or.inl rfl) heffect hsame hlog).mpr
    ⟨rfl, fun h => absurd h.1 hminor, hagrees⟩

/-- A failed try on a leaf whose counter is at its end.  The entry is in the log, but the
replay counts on to 0 and computes another root. -/
theorem not_replayReproduces_saturated :
    AuthTookEffect (tryRequest wrongSecret 0xffffffff) (tried wrongSecret 0xffffffff).1 ∧
      (loadLogData testBoard.cfg testEnv.io (tried wrongSecret 0xffffffff).2.vars).1.toOption =
        some (triedLog wrongSecret 0xffffffff) ∧
      ¬ ReplayReproduces testBoard testEnv (retry wrongSecret 0xffffffff)
        (tried wrongSecret 0xffffffff).2
        ((tried wrongSecret 0xffffffff).1.leafBytes (tryRequest wrongSecret 0xffffffff)) := by
  have hrun :
      ((tried wrongSecret 0xffffffff).1.resultCode = pwErrLowentAuthFailed ∧
        (tried wrongSecret 0xffffffff).1.body ≠ []) ∧
      (loadLogData testBoard.cfg testEnv.io (tried wrongSecret 0xffffffff).2.vars).1.toOption =
        some (triedLog wrongSecret 0xffffffff) ∧
      (handleRequest testBoard testEnv (retry wrongSecret 0xffffffff)
        (tried wrongSecret 0xffffffff).2).1.resultCode = pwErrPathAuthFailed := by
    decide +kernel
  obtain ⟨⟨hcode, hbody⟩, hload, hreplay⟩ := hrun
  refine ⟨(tried_failed hcode hbody).1, hload, fun hreproduces => ?_⟩
  have hok := hreproduces.1
  rw [hreplay] at hok
  exact absurd hok (by decide)

end Pinweaver
end CrosEc
