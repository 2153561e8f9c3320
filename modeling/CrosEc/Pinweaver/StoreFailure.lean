import CrosEc.Nvmem.Vars.Persist
import CrosEc.Pinweaver.Boot
import CrosEc.Pinweaver.Cases

/-!
# Requests that cannot be stored

A request that passed its checks stores one or two variables.  If that fails it returns
the error and leaves the tree alone.  The log, however, was edited in the RAM copy of the
variables, and the next request loads it from there: the failure is harmless only if
nothing was changed there either.
-/

namespace CrosEc
namespace Pinweaver

open Lib

/-! ## Storing is a sequence of writes -/

section Storing

variable {cfg : Vars.Config} {P : Nvmem.Platform cfg.bufferSize} {io : Vars.Io cfg.bufferSize}
  {vars : Vars.State cfg.bufferSize}

theorem storeLogData_eq (log : LogStorage) :
    storeLogData cfg P io log vars = Vars.persist cfg P io [logTuple 0 log] vars := rfl

/-- What a reset stores. -/
def resetWrites (tree : MerkleTree) : List Vars.Tuple :=
  [treeTuple 0 tree.storage, logTuple 0 (resetLog tree.root)]

theorem storeMerkleTree_eq (cfg : Vars.Config) (P : Nvmem.Platform cfg.bufferSize)
    (io : Vars.Io cfg.bufferSize) (tree : MerkleTree) (restartCount : UInt32)
    (vars : Vars.State cfg.bufferSize) :
    (storeMerkleTree cfg P io tree restartCount vars).1 =
        (Vars.persist cfg P io (resetWrites tree) vars).1 ∧
      (storeMerkleTree cfg P io tree restartCount vars).2.2 =
        (Vars.persist cfg P io (resetWrites tree) vars).2 := by
  have hkey : ∀ flags data, (treeTuple flags data).key = pwTreeVar := fun _ _ => rfl
  have hval : (treeTuple 0 tree.storage).val = LongTermStorage.codec.encode tree.storage := rfl
  unfold storeMerkleTree resetWrites
  rw [Vars.persist, hkey, hval]
  simp only [storeLogData_eq]
  split
  · exact ⟨rfl, rfl⟩
  · exact ⟨rfl, rfl⟩

/-- It makes no difference whether the RAM copy is there already. -/
theorem persist_copy (hcopy : (Vars.getLocalCopy cfg io vars).1 = ecSuccess) (t : Vars.Tuple)
    (rest : List Vars.Tuple) :
    Vars.persist cfg P io (t :: rest) (Vars.getLocalCopy cfg io vars).2 =
      Vars.persist cfg P io (t :: rest) vars := by
  have hset : ∀ val, Vars.setvar cfg io t.key val (Vars.getLocalCopy cfg io vars).2 =
      Vars.setvar cfg io t.key val vars := by
    intro val
    rcases Vars.getLocalCopy_cases cfg io vars with
      ⟨-, hbuf, -⟩ | ⟨-, hne, heq⟩
    · have hkey : ¬ t.key.length = 0 := by have := t.key_pos; omega
      unfold Vars.setvar
      rw [if_neg hkey, if_neg hkey, Vars.getLocalCopy_of_some hbuf]
      simp [hcopy]
    · rw [heq] at hcopy
      exact absurd hcopy hne
  rw [Vars.persist, Vars.persist, hset]

theorem loadLogData_copy {log : LogStorage} (h : (loadLogData cfg io vars).1 = .ok log) :
    (Vars.getLocalCopy cfg io vars).1 = ecSuccess := by
  by_contra hne
  have hnone : (Vars.getvar cfg io pwLogVar0 vars).1 = none := by
    simp [Vars.getvar, hne, pwLogVar0]
  unfold loadLogData at h
  simp only [hnone] at h
  cases h

theorem logEntry_eq {log : LogStorage} (h : (loadLogData cfg io vars).1 = .ok log)
    (e : LogEntry) :
    logEntry cfg P io e vars = Vars.persist cfg P io [logTuple 0 (log.append e)] vars := by
  have hcopy := persist_copy (P := P) (loadLogData_copy h) (logTuple 0 (log.append e)) []
  rw [logEntry]
  simp only [h, loadLogData_state, storeLogData_eq]
  exact hcopy

end Storing

/-! ## What a request is about to store -/

section Requests

variable (B : Board) (env : Env B.cfg.bufferSize) (r : Request) (s : State B.cfg.bufferSize)

/-- The request, converted to the current protocol, passes all its checks and goes on to
store these variables. -/
inductive Stores : List Vars.Tuple → Prop
  | resetTree {tree : MerkleTree} (htype : r.type = pwResetTree)
      (haccepted : ResetAccepted B env r.dataLength r.body tree) : Stores (resetWrites tree)
  | insertLeaf {wrapped : WrappedLeafData} {newRoot : Hash} {log : LogStorage}
      (htype : r.type = pwInsertLeaf)
      (haccepted : InsertAccepted B env r.dataLength r.body s wrapped newRoot)
      (hlog : (loadLogData B.cfg env.io s.vars).1 = .ok log) :
      Stores [logTuple 0 (log.append (insertEntry (insertLeafLabel r.body) newRoot wrapped.hmac))]
  | removeLeaf {log : LogStorage} (htype : r.type = pwRemoveLeaf)
      (haccepted : RemoveAccepted B r.dataLength r.body s)
      (hlog : (loadLogData B.cfg env.io s.vars).1 = .ok log) :
      Stores [logTuple 0 (log.append (removeEntry (removeLeafLocation r.body)
        (removedRoot B r.body s)))]
  | tryAuth {leaf : LeafData} {log : LogStorage} (htype : r.type = pwTryAuth)
      (haccepted : TryAccepted B env r.dataLength r.body s leaf)
      (hrate : (testRateLimit env.now s.restartCount leaf.pub).1 = ecSuccess)
      (hlog : (loadLogData B.cfg env.io s.vars).1 = .ok log) :
      Stores [logTuple 0 (log.append (authEntry (tryAuthPub B env r.body s leaf).label
        (rewrapRoot B s.tree r.presented (tryAuthPub B env r.body s leaf))
        (tryAuthResult (leafRequestHead r.body) leaf).1
        (tryAuthPub B env r.body s leaf).timestamp))]
  | resetAuth {leaf : LeafData} {log : LogStorage} (htype : r.type = pwResetAuth)
      (haccepted : ResetAuthAccepted B env r.dataLength r.body s leaf)
      (hlog : (loadLogData B.cfg env.io s.vars).1 = .ok log) :
      Stores [logTuple 0 (log.append (authEntry leaf.pub.label
        (rewrapRoot B s.tree r.presented (resetAuthLeaf leaf).pub) ecSuccess
        leaf.pub.timestamp))]

/-- What the store operation of a request returns, and what it leaves. -/
abbrev stored (writes : List Vars.Tuple) : Code × Vars.State B.cfg.bufferSize :=
  Vars.persist B.cfg B.nvmem env.io writes s.vars

/-- **A request that cannot be stored** returns the error, keeps the tree and leaves the
variables as the failed sequence of writes did. -/
theorem dispatch_of_stores {writes : List Vars.Tuple} (hstores : Stores B env r s writes)
    (hfails : (stored B env s writes).1 ≠ ecSuccess) :
    dispatch B env r s =
      .fail (stored B env s writes).1 { s with vars := (stored B env s writes).2 } := by
  unfold stored at hfails ⊢
  cases hstores with
  | @resetTree tree htype haccepted =>
      obtain ⟨hcode, hvars⟩ := storeMerkleTree_eq B.cfg B.nvmem env.io tree s.restartCount s.vars
      unfold dispatch
      rw [if_pos htype]
      unfold handleResetTree
      simp only [haccepted.size, haccepted.params, haccepted.created, hcode, hvars, ne_eq,
        not_true_eq_false, if_false]
      rw [if_pos hfails]
  | @insertLeaf wrapped newRoot log htype haccepted hlog =>
      have hdispatch : dispatch B env r s = handleInsertLeaf B env r.dataLength r.body s := by
        simp only [dispatch, htype]
        rfl
      rw [hdispatch, handleInsertLeaf]
      simp only [haccepted.size, haccepted.path, haccepted.schedule, haccepted.update,
        logInsertLeaf, logEntry_eq hlog, ne_eq, not_true_eq_false, if_false]
      rw [if_pos hfails]
  | @removeLeaf log htype haccepted hlog =>
      have hdispatch : dispatch B env r s = handleRemoveLeaf B env r.dataLength r.body s := by
        simp only [dispatch, htype]
        rfl
      rw [hdispatch, handleRemoveLeaf]
      rw [removedRoot] at hfails ⊢
      simp only [haccepted.size, haccepted.path, logRemoveLeaf, logEntry_eq hlog, ne_eq,
        not_true_eq_false, if_false]
      rw [if_pos hfails]
  | @tryAuth leaf log htype haccepted hrate hlog =>
      have hdispatch : dispatch B env r s = handleTryAuth B env r.dataLength r.body s := by
        simp only [dispatch, htype]
        rfl
      rw [hdispatch, handleTryAuth]
      simp only [haccepted.size, validateRequestWithWrappedLeaf_of_accepted B haccepted.leaf_ok,
        haccepted.pcr, hrate, handleLeafUpdate_some, logAuth, logEntry_eq hlog, ne_eq,
        not_true_eq_false, if_false]
      exact if_pos hfails
  | @resetAuth leaf log htype haccepted hlog =>
      have hdispatch : dispatch B env r s = handleResetAuth B env r.dataLength r.body s := by
        simp only [dispatch, htype]
        rfl
      rw [hdispatch, handleResetAuth]
      simp only [haccepted.size, validateRequestWithWrappedLeaf_of_accepted B haccepted.leaf_ok,
        haccepted.secret, handleLeafUpdate_some, logAuth, logEntry_eq hlog, ne_eq,
        not_true_eq_false, if_false]
      exact if_pos hfails

end Requests

/-! ## What the next request loads -/

/-- The value that `getvar` finds under a key. -/
def storedValue (cfg : Vars.Config) {n : Nat} (vars : Vars.State n) (key : Bytes) : Option Bytes :=
  Vars.lookup cfg.size (Vars.contents cfg vars) key

section Loading

variable {cfg : Vars.Config} {n : Nat} {vars : Vars.State n} {ts : List Vars.Tuple}

theorem storedValue_eq (hholds : Vars.Holds cfg vars ts) {key : Bytes} (hkey : 0 < key.length) :
    storedValue cfg vars key = Vars.valueOf ts key := hholds.lookup hkey

/-- `load_log_data` loads the stored log, if it is one. -/
theorem loadLogData_iff {io : Vars.Io n} {log : LogStorage} (hholds : Vars.Holds cfg vars ts)
    (hcopy : (Vars.getLocalCopy cfg io vars).1 = ecSuccess) :
    (loadLogData cfg io vars).1 = .ok log ↔
      storedValue cfg vars pwLogVar0 = some (LogStorage.codec.encode log) ∧
        log.storageVersion = pwStorageVersion := by
  rw [storedValue_eq hholds (by decide)]
  obtain ⟨hbuf, hholds'⟩ := hholds.copy hcopy
  by_cases hmem : ∃ t ∈ ts, t.key = pwLogVar0
  · obtain ⟨t, ht, hkey⟩ := hmem
    obtain ⟨before, after, rfl⟩ := List.append_of_mem ht
    obtain ⟨hbefore, -⟩ := Vars.dropKey_append hholds.nodup
    have hfound := Vars.getvar_found hholds hcopy
    obtain ⟨hlen, hoff, rest, hrest⟩ := Vars.value_found before after t cfg.size
    have hvalue := Vars.valueOf_append_cons after hbefore
    rw [hkey] at hfound hvalue
    rw [hvalue, Option.some.injEq]
    unfold loadLogData
    simp only [hfound, hbuf, hlen, hoff, hrest]
    constructor
    · intro h
      split at h
      · cases h
      · rename_i hsize
        split at h
        · cases h
        · rename_i hversion
          have hlog := Except.ok.inj h
          rw [← hlog, LogStorage.codec.encode_decode, readBytes_append (not_not.mp hsize)]
          exact ⟨rfl, not_not.mp hversion⟩
    · rintro ⟨hval, hversion⟩
      have hsize : t.val.length = LogStorage.codec.size := by
        rw [hval, LogStorage.codec.length_encode]
      have hdecode : LogStorage.codec.decode (t.val ++ rest) = log := by
        rw [hval, LogStorage.codec.decode_encode]
      rw [if_neg (not_not.mpr hsize), hdecode, if_neg (not_not.mpr hversion)]
  · push Not at hmem
    have hsmall : cfg.size < 2 ^ 32 := by have := Vars.size_lt cfg; omega
    have hnone : (Vars.getvar cfg io pwLogVar0 vars).1 = none := by
      unfold Vars.getvar
      rw [if_neg (by decide)]
      simp [hcopy, hbuf, Vars.getvarIdx_absent hsmall hholds.fits (by decide) hmem]
    rw [Vars.valueOf_absent hmem]
    unfold loadLogData
    simp [hnone]

end Loading

/-! ## When a failure is harmless -/

/-- The root of the tree is the root of the newest log entry. -/
def LogAgrees (cfg : Vars.Config) {n : Nat} (s : State n) : Prop :=
  ∃ log, storedValue cfg s.vars pwLogVar0 = some (LogStorage.codec.encode log) ∧
    log.storageVersion = pwStorageVersion ∧
    s.tree.root = (log.entries.val.getD 0 (plainEntry pwMtInvalid 0 emptyHash)).root

/-- What a failed request is meant to leave: the tree, the log and the parameters of the
tree as they were, and the first two in agreement. -/
structure FailureHarmless (cfg : Vars.Config) {n : Nat} (s s' : State n) : Prop where
  tree : s'.tree = s.tree
  log : storedValue cfg s'.vars pwLogVar0 = storedValue cfg s.vars pwLogVar0
  params : storedValue cfg s'.vars pwTreeVar = storedValue cfg s.vars pwTreeVar
  agrees : LogAgrees cfg s'

theorem failureHarmless_iff {cfg : Vars.Config} {n : Nat} {s : State n} {vars' : Vars.State n}
    (hagrees : LogAgrees cfg s) :
    FailureHarmless cfg s { s with vars := vars' } ↔
      storedValue cfg vars' pwLogVar0 = storedValue cfg s.vars pwLogVar0 ∧
        storedValue cfg vars' pwTreeVar = storedValue cfg s.vars pwTreeVar := by
  constructor
  · exact fun h => ⟨h.log, h.params⟩
  · rintro ⟨hlog, hparams⟩
    obtain ⟨log, hstored, hversion, hroot⟩ := hagrees
    exact ⟨rfl, hlog, hparams, log, hlog.trans hstored, hversion, hroot⟩

section Failure

variable {B : Board} {env : Env B.cfg.bufferSize} {r r' : Request} {s : State B.cfg.bufferSize}
  {ts writes : List Vars.Tuple}

/-- A request stores the log alone, or the parameters of a new tree and its log. -/
theorem Stores.shape (h : Stores B env r s writes) :
    (∃ log, writes = [logTuple 0 log]) ∨ ∃ tree, writes = resetWrites tree := by
  cases h with
  | resetTree => exact Or.inr ⟨_, rfl⟩
  | insertLeaf => exact Or.inl ⟨_, rfl⟩
  | removeLeaf => exact Or.inl ⟨_, rfl⟩
  | tryAuth => exact Or.inl ⟨_, rfl⟩
  | resetAuth => exact Or.inl ⟨_, rfl⟩

theorem Stores.flags (h : Stores B env r s writes) : ∀ t ∈ writes, t.flags = 0 := by
  rcases h.shape with ⟨log, rfl⟩ | ⟨tree, rfl⟩
  · simp [logTuple]
  · simp [resetWrites, logTuple, treeTuple]

theorem Stores.keys (h : Stores B env r s writes) : (writes.map Vars.Tuple.key).Nodup := by
  rcases h.shape with ⟨log, rfl⟩ | ⟨tree, rfl⟩
  · simp
  · simp [resetWrites, logTuple, treeTuple, pwLogVar0, pwTreeVar]

theorem Stores.ne_nil (h : Stores B env r s writes) : ∃ t rest, writes = t :: rest := by
  rcases h.shape with ⟨log, rfl⟩ | ⟨tree, rfl⟩
  · exact ⟨_, _, rfl⟩
  · exact ⟨_, _, rfl⟩

/-- The two variables of PinWeaver are unchanged if those of the request are. -/
theorem Stores.unchanged_iff (h : Stores B env r s writes) {ts' : List Vars.Tuple}
    (hothers : ∀ key, (∀ t ∈ writes, key ≠ t.key) → Vars.valueOf ts' key = Vars.valueOf ts key) :
    (Vars.valueOf ts' pwLogVar0 = Vars.valueOf ts pwLogVar0 ∧
        Vars.valueOf ts' pwTreeVar = Vars.valueOf ts pwTreeVar) ↔
      ∀ t ∈ writes, Vars.valueOf ts' t.key = Vars.valueOf ts t.key := by
  rcases h.shape with ⟨log, rfl⟩ | ⟨tree, rfl⟩
  · have hparams := hothers pwTreeVar (by simp [logTuple, pwLogVar0, pwTreeVar])
    simp [hparams, logTuple]
  · simp [resetWrites, logTuple, treeTuple, and_comm]

/-- **When a failure to store is harmless.**  For every state whose log agrees with the
tree, and every request whose `setvar` or `writevars` fails: it returns that error, and
tree, log and parameters are as before, exactly if there was no RAM copy to edit, or what
was written there was stored already (and what did not fit was not). -/
theorem storeFailure_harmless_iff (hholds : Vars.Holds B.cfg s.vars ts)
    (hagrees : LogAgrees B.cfg s) (hcompat : makeCompatibleRequest s.tree r = some r')
    (hstores : Stores B env r' s writes)
    (hfails : (stored B env s writes).1 ≠ ecSuccess) :
    ((handleRequest B env r s).1.resultCode = (stored B env s writes).1 ∧
        FailureHarmless B.cfg s (handleRequest B env r s).2) ↔
      (s.vars.rbuf = none ∧ env.io.acquire ≠ ecSuccess) ∨
        Vars.Unnoticed B.cfg.size ts writes := by
  obtain ⟨hcode, -, hstate, -⟩ := handleRequest_response B env r s
  have hhandle : handle B env r s =
      .fail (stored B env s writes).1 { s with vars := (stored B env s writes).2 } := by
    unfold handle
    rw [hcompat]
    exact dispatch_of_stores B env r' s hstores hfails
  rw [hcode, hstate, hhandle]
  have hreturns : (Outcome.fail (stored B env s writes).1
      { s with vars := (stored B env s writes).2 }).code = (stored B env s writes).1 := rfl
  have hleaves : (Outcome.fail (stored B env s writes).1
      { s with vars := (stored B env s writes).2 }).state =
        { s with vars := (stored B env s writes).2 } := rfl
  rw [hreturns, hleaves, failureHarmless_iff hagrees, eq_self_iff_true, true_and]
  rcases Vars.getLocalCopy_cases B.cfg env.io s.vars with
    ⟨hcopy, hbuf, -⟩ | ⟨hbuf, hacquire, -⟩
  · have hcopied : ¬ (s.vars.rbuf = none ∧ env.io.acquire ≠ ecSuccess) := by
      rintro ⟨hnone, hacquire⟩
      rw [Vars.getLocalCopy, hnone] at hcopy
      simp only [if_pos hacquire] at hcopy
      exact hacquire hcopy
    obtain ⟨ts', hholds', hothers, hiff⟩ := Vars.persist_fails hholds hcopy hstores.flags
      hstores.keys hfails
    rw [storedValue_eq hholds' (by decide), storedValue_eq hholds (by decide),
      storedValue_eq hholds' (by decide), storedValue_eq hholds (by decide),
      hstores.unchanged_iff hothers, hiff]
    exact ⟨Or.inr, fun h => h.resolve_left hcopied⟩
  · obtain ⟨t, rest, rfl⟩ := hstores.ne_nil
    rw [stored, Vars.persist_noCopy hbuf hacquire]
    exact iff_of_true ⟨rfl, rfl⟩ (Or.inl ⟨hbuf, hacquire⟩)

/-- For a request that only logs, this means that the log is already full of its entry:
there is always room for a log in place of a log. -/
theorem unnoticed_append_iff {size : Nat} {log : LogStorage} {e : LogEntry}
    (hfits : Vars.Fits size ts) (hnodup : (ts.map Vars.Tuple.key).Nodup)
    (hlog : Vars.valueOf ts pwLogVar0 = some (LogStorage.codec.encode log)) :
    Vars.Unnoticed size ts [logTuple 0 (log.append e)] ↔ log.append e = log := by
  have hmem : ∃ t ∈ ts, t.key = pwLogVar0 := by
    by_contra hnone
    push Not at hnone
    rw [Vars.valueOf_absent hnone] at hlog
    cases hlog
  obtain ⟨t, ht, hkey⟩ := hmem
  obtain ⟨before, after, rfl⟩ := List.append_of_mem ht
  obtain ⟨hbefore, hdrop⟩ := Vars.dropKey_append hnodup
  have hval := Vars.valueOf_append_cons after hbefore
  rw [hkey, hlog] at hval
  rw [hkey] at hdrop
  have hlen : (logTuple 0 (log.append e)).encode.length = t.encode.length := by
    rw [Vars.Tuple.length_encode, Vars.Tuple.length_encode, length_logTuple, hkey,
      ← Option.some.inj hval, LogStorage.codec.length_encode]
    rfl
  have hput : Vars.Fits size (Vars.put (logTuple 0 (log.append e)) (before ++ t :: after)) := by
    have hshape : Vars.put (logTuple 0 (log.append e)) (before ++ t :: after) =
        before ++ after ++ [logTuple 0 (log.append e)] := congrArg (· ++ _) hdrop
    rw [hshape]
    unfold Vars.Fits at hfits ⊢
    simp only [Vars.encodeTuples_append, Vars.encodeTuples_cons, Vars.encodeTuples_nil,
      List.length_append, List.append_nil, hlen] at hfits ⊢
    omega
  have hkey' : ∀ log', (logTuple 0 log').key = pwLogVar0 := fun _ => rfl
  have hval' : (logTuple 0 (log.append e)).val = LogStorage.codec.encode (log.append e) := rfl
  rw [Vars.Unnoticed, if_pos hput, hkey', hlog, hval', Vars.Unnoticed, and_true, Option.some.injEq]
  exact ⟨fun h => (LogStorage.codec.encode_inj h).symm, fun h => by rw [h]⟩

end Failure

/-! ## Two failures on the small board -/

/-- A device with a tree of two slots, of which the first is empty. -/
def readyState (vars : Vars.State testBoard.cfg.bufferSize) : State testBoard.cfg.bufferSize :=
  { blankState with tree := twoSlotTree, vars := vars }

theorem readyState_vars (vars : Vars.State testBoard.cfg.bufferSize) :
    (readyState vars).vars = vars := rfl

/-- The device of a request for which there is no shared memory. -/
def noMemory : Env testBoard.cfg.bufferSize :=
  { testEnv with io := { testEnv.io with acquire := ecErrorBusy } }

theorem readyState_agrees {vars : Vars.State testBoard.cfg.bufferSize}
    (hholds : Vars.Holds testBoard.cfg vars (bootTuples [])) :
    LogAgrees testBoard.cfg (readyState vars) := by
  refine ⟨resetLog twoSlotTree.root, ?_, rfl, rfl⟩
  change storedValue testBoard.cfg vars pwLogVar0 = _
  rw [storedValue_eq hholds (by decide)]
  have hbefore : ∀ u ∈ [treeTuple 0 twoSlotTree.storage],
      u.key ≠ (logTuple 0 (resetLog twoSlotTree.root)).key := by
    decide
  exact Vars.valueOf_append_cons [] hbefore

/-- A reset that finds no memory for the RAM copy. -/
theorem storeFailure_harmless_noMemory :
    (handleRequest testBoard noMemory resetRequest (readyState (storedVars []))).1.resultCode =
        ecErrorBusy ∧
      FailureHarmless testBoard.cfg (readyState (storedVars []))
        (handleRequest testBoard noMemory resetRequest (readyState (storedVars []))).2 := by
  have hholds := storedVars_holds [] (by decide +kernel) (by decide +kernel)
  rw [bootState_vars] at hholds
  have hholds' : Vars.Holds testBoard.cfg (readyState (storedVars [])).vars (bootTuples []) := by
    rw [readyState_vars]
    exact hholds
  have hbuf : (readyState (storedVars [])).vars.rbuf = none := by
    rw [readyState_vars, storedVars]
    exact (Vars.writevars_contents testBoard_involutive rfl (by decide +kernel)
      (Vars.writevars_succeeds ⟨rfl, rfl, rfl, rfl⟩ rfl)).2
  have hstores : Stores testBoard noMemory resetRequest (readyState (storedVars []))
      (resetWrites (createMerkleTree testCrypto noMemory.keys 1 1 noMemory.nonce).2) :=
    .resetTree rfl ⟨rfl, rfl, rfl⟩
  have hstored : stored testBoard noMemory (readyState (storedVars []))
      (resetWrites (createMerkleTree testCrypto noMemory.keys 1 1 noMemory.nonce).2) =
        (ecErrorBusy, (readyState (storedVars [])).vars) :=
    Vars.persist_noCopy hbuf (by decide)
  have h := (storeFailure_harmless_iff (r := resetRequest) hholds' (readyState_agrees hholds) rfl
    hstores (by rw [hstored]; decide)).mpr (Or.inl ⟨hbuf, by decide⟩)
  rwa [hstored] at h

/-- A removal from the empty slot. -/
def removeRequest : Request where
  version := 1
  type := pwRemoveLeaf
  dataLength := 72
  body := List.replicate 8 0 ++ emptyHash.val ++ (twoSlots 1).val

/-- The device of a request during which the flash cannot be erased. -/
def failingErase : Env testBoard.cfg.bufferSize :=
  { testEnv with io := { testEnv.io with save := { testEnv.io.save with erase := ecErrorUnknown } } }

/-- The removal returns the error of the erase and leaves the root, but the next request
loads a log with the removal in it. -/
theorem not_failureHarmless_failingErase :
    Vars.Holds testBoard.cfg (readyState (bootVars [])).vars (bootTuples []) ∧
      LogAgrees testBoard.cfg (readyState (bootVars [])) ∧
      (handleRequest testBoard failingErase removeRequest (readyState (bootVars []))).1.resultCode =
        ecErrorUnknown ∧
      ¬ FailureHarmless testBoard.cfg (readyState (bootVars []))
        (handleRequest testBoard failingErase removeRequest (readyState (bootVars []))).2 := by
  have hholds : Vars.Holds testBoard.cfg (bootVars []) (bootTuples []) :=
    ⟨rfl, by decide +kernel, by decide +kernel⟩
  have hrun :
      (handleRequest testBoard failingErase removeRequest (readyState (bootVars []))).1.resultCode =
          ecErrorUnknown ∧
        storedValue testBoard.cfg (handleRequest testBoard failingErase removeRequest
            (readyState (bootVars []))).2.vars pwLogVar0 ≠
          storedValue testBoard.cfg (bootVars []) pwLogVar0 := by
    decide +kernel
  exact ⟨hholds, readyState_agrees hholds, hrun.1, fun h => hrun.2 h.log⟩

end Pinweaver
end CrosEc
