import CrosEc.Pinweaver.Handlers

/-!
# `load_merkle_tree`: the log at boot

Shortly after a reset `load_merkle_tree` counts the restart in the log.  It increments
the counter where it lies, in the RAM copy of the variables, and hands `setvar` a
pointer to it.  `setvar` first covers up the old tuple with the tuples behind it, so
what it then copies is the log only if there are none behind it.
-/

namespace CrosEc
namespace Pinweaver

open Lib

/-! ## The boot -/

/-- `RESTART_TIMER_THRESHOLD` -/
def restartTimerThreshold : UInt64 := 10 * second

/-- `log->restart_count` for a `log` at offset `off`. -/
def restartCountAt (buf : Bytes) (off : Nat) : UInt32 := Codec.uint32.decode (buf.drop (off + 2))

/-- `++log->restart_count` -/
def bumpRestartCount (buf : Bytes) (off : Nat) : Bytes :=
  writeAt buf (off + 2) (Codec.uint32.encode (restartCountAt buf off + 1))

section Boot

variable (B : Board) (env : Env B.cfg.bufferSize)

/-- The second half of `load_merkle_tree`: the root hash.  At the end the counter is
read through the pointer into the RAM copy, which has been released by then but still
holds what `setvar` left there. -/
def loadRootHash (s : State B.cfg.bufferSize) : Code × State B.cfg.bufferSize :=
  let found := Vars.getvar B.cfg env.io pwLogVar0 s.vars
  let s := { s with vars := found.2 }
  match found.1, found.2.rbuf with
  | some idx, some buf =>
      let off := Vars.tupleVal buf idx
      let log := LogStorage.codec.decode (buf.drop off)
      if Vars.valLen buf idx ≠ LogStorage.codec.size then (pwErrNvLengthMismatch, s)
      else if log.storageVersion ≠ pwStorageVersion then (pwErrNvVersionMismatch, s)
      else
        let root := (log.entries.val.getD 0 (plainEntry pwMtInvalid 0 emptyHash)).root
        let s := { s with tree := { s.tree with root := root } }
        if env.now < restartTimerThreshold then
          let set := Vars.setvar B.cfg env.io pwLogVar0 (.inside off LogStorage.codec.size)
            { s.vars with rbuf := some (bumpRestartCount buf off) }
          if set.1 ≠ ecSuccess then (set.1, { s with vars := set.2 })
          else
            let written := Vars.writevars B.cfg B.nvmem env.io set.2
            if written.1 ≠ ecSuccess then (written.1, { s with vars := written.2 })
            else
              (ecSuccess, { s with
                vars := written.2
                restartCount := restartCountAt (set.2.rbuf.getD []) off })
        else (ecSuccess, { s with restartCount := log.restartCount })
  | _, _ => (pwErrNvEmpty, s)

/-- `load_merkle_tree` -/
def loadMerkleTree (s : State B.cfg.bufferSize) : Code × State B.cfg.bufferSize :=
  let found := Vars.getvar B.cfg env.io pwTreeVar s.vars
  let s := { s with vars := found.2 }
  match found.1, found.2.rbuf with
  | some idx, some buf =>
      let tree := LongTermStorage.codec.decode (buf.drop (Vars.tupleVal buf idx))
      if Vars.valLen buf idx ≠ LongTermStorage.codec.size then (pwErrNvLengthMismatch, s)
      else if tree.storageVersion ≠ pwStorageVersion then (pwErrNvVersionMismatch, s)
      else
        let keys := deriveKeys B.crypto env.keys { s.tree with
          bitsPerLevel := tree.bitsPerLevel
          height := tree.height
          keyDerivationNonce := tree.keyDerivationNonce }
        let s := { s with tree := keys.2 }
        if keys.1 ≠ ecSuccess then (keys.1, s) else loadRootHash B env s
  | _, _ => (pwErrNvEmpty, s)

end Boot

/-! ## The counter in the buffer -/

/-- The log after one more restart. -/
def LogStorage.restarted (log : LogStorage) : LogStorage :=
  { log with restartCount := log.restartCount + 1 }

/-- The layout of the log around its counter. -/
theorem encode_logStorage (log : LogStorage) :
    LogStorage.codec.encode log = Codec.uint16.encode log.storageVersion ++
      (Codec.uint32.encode log.restartCount ++ (LogEntry.codec.array 2).encode log.entries) := rfl

theorem restartCountAt_log (pre rest : Bytes) (log : LogStorage) :
    restartCountAt (pre ++ (LogStorage.codec.encode log ++ rest)) pre.length = log.restartCount := by
  have hdrop : (pre ++ (LogStorage.codec.encode log ++ rest)).drop (pre.length + 2) =
      Codec.uint32.encode log.restartCount ++
        ((LogEntry.codec.array 2).encode log.entries ++ rest) := by
    rw [← List.drop_drop, List.drop_left, encode_logStorage, List.append_assoc]
    exact (List.drop_left' (Codec.uint16.length_encode _)).trans (List.append_assoc _ _ _)
  rw [restartCountAt, hdrop, Codec.uint32.decode_encode]

/-- The counter of the log that starts at an offset. -/
theorem restartCountAt_of_take {buf : Bytes} {off : Nat} {log : LogStorage}
    (h : (buf.drop off).take LogStorage.codec.size = LogStorage.codec.encode log) :
    restartCountAt buf off = log.restartCount := by
  have hlog := LogStorage.codec.length_encode log
  have hoff : off ≤ buf.length := by
    have hlen := congrArg List.length h
    rw [hlog, List.length_take, List.length_drop] at hlen
    have hsize : LogStorage.codec.size = 152 := rfl
    omega
  have hbuf : buf = buf.take off ++
      (LogStorage.codec.encode log ++ (buf.drop off).drop LogStorage.codec.size) := by
    rw [← h, List.take_append_drop, List.take_append_drop]
  have hpre : (buf.take off).length = off := by rw [List.length_take, Nat.min_eq_left hoff]
  have hcount := restartCountAt_log (buf.take off)
    ((buf.drop off).drop LogStorage.codec.size) log
  rwa [hpre, ← hbuf] at hcount

theorem bumpRestartCount_log (pre rest : Bytes) (log : LogStorage) :
    bumpRestartCount (pre ++ (LogStorage.codec.encode log ++ rest)) pre.length =
      pre ++ (LogStorage.codec.encode log.restarted ++ rest) := by
  have hend : (pre ++ Codec.uint16.encode log.storageVersion).length = pre.length + 2 := by
    rw [List.length_append, Codec.uint16.length_encode]
    rfl
  have hwrite := writeAt_append (pre ++ Codec.uint16.encode log.storageVersion)
    (Codec.uint32.encode log.restartCount) ((LogEntry.codec.array 2).encode log.entries ++ rest)
    (Codec.uint32.encode (log.restartCount + 1)) hend
    (by rw [Codec.uint32.length_encode, Codec.uint32.length_encode])
  rw [bumpRestartCount, restartCountAt_log, encode_logStorage, encode_logStorage]
  simpa [LogStorage.restarted] using hwrite

/-! ## The log in the store -/

theorem length_encode_logStorage (log : LogStorage) :
    (LogStorage.codec.encode log).length = 152 := LogStorage.codec.length_encode log

/-- The tuple that holds a log. -/
def logTuple (flags : UInt8) (log : LogStorage) : Vars.Tuple where
  key := pwLogVar0
  val := LogStorage.codec.encode log
  flags := flags
  key_pos := by decide
  key_lt := by decide
  val_pos := by rw [length_encode_logStorage]; decide
  val_lt := by rw [length_encode_logStorage]; decide

/-- The tuple that holds the parameters of a tree. -/
def treeTuple (flags : UInt8) (data : LongTermStorage) : Vars.Tuple where
  key := pwTreeVar
  val := LongTermStorage.codec.encode data
  flags := flags
  key_pos := by decide
  key_lt := by decide
  val_pos := by rw [LongTermStorage.codec.length_encode]; decide
  val_lt := by rw [LongTermStorage.codec.length_encode]; decide

/-- Where the value of the log tuple lies. -/
def logOffset (before : List Vars.Tuple) : Nat :=
  (Vars.encodeTuples before).length + Vars.tupleHeader + pwLogVar0.length

/-- The `setvar` of `load_merkle_tree`, on a store with these tuples in front of the log. -/
def setvarLog (size : Nat) (before : List Vars.Tuple) (buf : Bytes) : Code × Bytes :=
  Vars.setvarBuf size buf pwLogVar0 (.inside (logOffset before) LogStorage.codec.size)

section Store

variable {size : Nat} {before after : List Vars.Tuple} {flags : UInt8} {log : LogStorage}

/-- The bytes in front of the log and behind it do not depend on it. -/
theorem encodeStore_logTuple (size : Nat) (before after : List Vars.Tuple) (flags : UInt8) :
    ∃ pre rest : Bytes, pre.length = logOffset before ∧ ∀ log : LogStorage,
      Vars.encodeStore size (before ++ logTuple flags log :: after) =
        pre ++ (LogStorage.codec.encode log ++ rest) := by
  refine ⟨Vars.encodeTuples before ++ ([4, 152, flags] ++ pwLogVar0),
    Vars.encodeTuples after ++ 0 :: List.replicate
      (size - ((Vars.encodeTuples before).length + 159 + (Vars.encodeTuples after).length) - 1) 0xff,
    ?_, ?_⟩
  · simp [logOffset, Vars.tupleHeader, pwLogVar0]
  · intro log
    have hval : (logTuple flags log).val.length = 152 := length_encode_logStorage log
    have henc : (logTuple flags log).encode =
        [4, 152, flags] ++ pwLogVar0 ++ LogStorage.codec.encode log := by
      rw [Vars.Tuple.encode, hval]
      rfl
    have hlen : (Vars.encodeTuples (before ++ logTuple flags log :: after)).length =
        (Vars.encodeTuples before).length + 159 + (Vars.encodeTuples after).length := by
      have hsize : LogStorage.codec.size = 152 := rfl
      simp [henc, pwLogVar0]
      omega
    rw [Vars.encodeStore, hlen]
    simp [henc]

theorem bumpRestartCount_store :
    bumpRestartCount (Vars.encodeStore size (before ++ logTuple flags log :: after))
        (logOffset before) =
      Vars.encodeStore size (before ++ logTuple flags log.restarted :: after) := by
  obtain ⟨pre, rest, hpre, hstore⟩ := encodeStore_logTuple size before after flags
  rw [hstore, hstore, ← hpre, bumpRestartCount_log]

theorem restartCountAt_store :
    restartCountAt (Vars.encodeStore size (before ++ logTuple flags log :: after))
        (logOffset before) = log.restartCount := by
  obtain ⟨pre, rest, hpre, hstore⟩ := encodeStore_logTuple size before after flags
  rw [hstore, ← hpre, restartCountAt_log]

/-- All logs take the same space. -/
theorem fits_logTuple (flags' : UInt8) (log' : LogStorage)
    (h : Vars.Fits size (before ++ logTuple flags log :: after)) :
    Vars.Fits size (before ++ logTuple flags' log' :: after) := by
  have hlen : (logTuple flags' log').val.length = (logTuple flags log).val.length :=
    (length_encode_logStorage log').trans (length_encode_logStorage log).symm
  exact (Vars.fits_replace (t := logTuple flags log) (u := logTuple flags' log') rfl hlen).mpr h

theorem length_logTuple (flags : UInt8) (log : LogStorage) :
    (logTuple flags log).val.length = LogStorage.codec.size := LogStorage.codec.length_encode log

/-- `setvar` with the last log, in place. -/
theorem setvarBuf_log_last (hsmall : size < 2 ^ 32)
    (hfits : Vars.Fits size (before ++ [logTuple flags log]))
    (hbefore : ∀ u ∈ before, u.key ≠ pwLogVar0) :
    setvarLog size before (Vars.encodeStore size (before ++ [logTuple flags log])) =
      (ecSuccess, Vars.encodeStore size (before ++ [logTuple 0 log])) := by
  have hset := Vars.setvarBuf_inside_last hsmall hfits hbefore
  rwa [length_logTuple] at hset

/-- `setvar` with a log that has tuples behind it. -/
theorem setvarBuf_log_moved (hsmall : size < 2 ^ 32) (hafter : after ≠ [])
    (hfits : Vars.Fits size (before ++ logTuple flags log :: after))
    (hbefore : ∀ u ∈ before, u.key ≠ pwLogVar0) :
    setvarLog size before (Vars.encodeStore size (before ++ logTuple flags log :: after)) =
        (ecSuccess, Vars.encodeStore size
          (before ++ after ++ [(logTuple flags log).overwritten after])) ∧
      Vars.Fits size (before ++ after ++ [(logTuple flags log).overwritten after]) := by
  have hset := Vars.setvarBuf_inside_moved hsmall hafter hfits hbefore
  rw [length_logTuple] at hset
  refine ⟨hset, ?_⟩
  have henc : ((logTuple flags log).overwritten after).encode.length =
      (logTuple flags log).encode.length := by
    rw [Vars.Tuple.length_encode, Vars.Tuple.length_encode]
    exact congrArg _ (length_cyclic _ _)
  unfold Vars.Fits at hfits ⊢
  simp only [Vars.encodeTuples_append, Vars.encodeTuples_cons, Vars.encodeTuples_nil,
    List.length_append, List.append_nil, henc] at hfits ⊢
  omega

/-- What the walk finds at the log. -/
theorem decode_logTuple (size : Nat) (before after : List Vars.Tuple) (flags : UInt8)
    (log : LogStorage) :
    Vars.valLen (Vars.encodeStore size (before ++ logTuple flags log :: after))
        (Vars.encodeTuples before).length = LogStorage.codec.size ∧
      Vars.tupleVal (Vars.encodeStore size (before ++ logTuple flags log :: after))
        (Vars.encodeTuples before).length = logOffset before ∧
      LogStorage.codec.decode ((Vars.encodeStore size (before ++ logTuple flags log :: after)).drop
        (logOffset before)) = log := by
  obtain ⟨hval, hoff, rest, hrest⟩ := Vars.value_found before after (logTuple flags log) size
  refine ⟨hval.trans (length_encode_logStorage log), hoff, ?_⟩
  exact (congrArg LogStorage.codec.decode hrest).trans (LogStorage.codec.decode_encode _ _)

end Store

/-! ## A boot that succeeds -/

section Boot

variable {B : Board} {env : Env B.cfg.bufferSize} {s : State B.cfg.bufferSize}
  {before after : List Vars.Tuple} {flags : UInt8} {log : LogStorage}

/-- A boot that succeeds has set up the RAM copy and the keys, and goes on with the
root hash. -/
theorem loadMerkleTree_success {ts : List Vars.Tuple} (hholds : Vars.Holds B.cfg s.vars ts)
    (hok : (loadMerkleTree B env s).1 = ecSuccess) :
    ∃ s', loadMerkleTree B env s = loadRootHash B env s' ∧ Vars.Holds B.cfg s'.vars ts ∧
      (Vars.getLocalCopy B.cfg env.io s'.vars).1 = ecSuccess := by
  have hstate : (Vars.getvar B.cfg env.io pwTreeVar s.vars).2 =
      (Vars.getLocalCopy B.cfg env.io s.vars).2 :=
    Vars.getvar_state (by decide)
  have hcopy : (Vars.getvar B.cfg env.io pwTreeVar s.vars).1 ≠ none →
      (Vars.getLocalCopy B.cfg env.io s.vars).1 = ecSuccess := by
    intro hfound
    by_contra hne
    apply hfound
    simp [Vars.getvar, hne, pwTreeVar]
  unfold loadMerkleTree at hok ⊢
  simp only [hstate] at hok ⊢
  split at hok
  · rename_i idx buf hidx hbuf
    split at hok
    · cases hok
    · split at hok
      · cases hok
      · split at hok
        · exact absurd hok (by assumption)
        · rename_i hlen hversion hkeys
          simp only [hlen, hversion, hkeys, if_false]
          obtain ⟨hbuf', hholds'⟩ :=
            hholds.copy (hcopy (by rw [hidx]; exact Option.some_ne_none _))
          exact ⟨_, rfl, hholds', by rw [Vars.getLocalCopy_of_some hbuf']⟩
  · cases hok

/-- The rest of a boot early after a reset, once it is known what `setvar` makes of the
store. -/
theorem loadRootHash_early (hP : B.nvmem.Involutive) {ts : List Vars.Tuple}
    (hholds : Vars.Holds B.cfg s.vars (before ++ logTuple flags log :: after))
    (hcopy : (Vars.getLocalCopy B.cfg env.io s.vars).1 = ecSuccess)
    (hversion : log.storageVersion = pwStorageVersion)
    (hearly : env.now < restartTimerThreshold) (hfits : Vars.Fits B.cfg.size ts)
    (hset : setvarLog B.cfg.size before
        (Vars.encodeStore B.cfg.size (before ++ logTuple flags log.restarted :: after)) =
      (ecSuccess, Vars.encodeStore B.cfg.size ts))
    (hok : (loadRootHash B env s).1 = ecSuccess) :
    Vars.contents B.cfg (loadRootHash B env s).2.vars = Vars.encodeStore B.cfg.size ts ∧
      (loadRootHash B env s).2.tree.root =
        (log.entries.val.getD 0 (plainEntry pwMtInvalid 0 emptyHash)).root ∧
      (loadRootHash B env s).2.restartCount =
        restartCountAt (Vars.encodeStore B.cfg.size ts) (logOffset before) := by
  have hfound := Vars.getvar_found hholds hcopy
  obtain ⟨hbuf, -⟩ := hholds.copy hcopy
  obtain ⟨hlen, hoff, hdecode⟩ := decode_logTuple B.cfg.size before after flags log
  have hsetvar := fun vars : Vars.State B.cfg.bufferSize =>
    Vars.setvar_of_some B.cfg env.io
      (s := { vars with rbuf := some (Vars.encodeStore B.cfg.size
        (before ++ logTuple flags log.restarted :: after)) }) rfl
      (show 0 < pwLogVar0.length by decide) (.inside (logOffset before) LogStorage.codec.size)
  change Vars.getvar B.cfg env.io pwLogVar0 s.vars = _ at hfound
  unfold setvarLog at hset
  unfold loadRootHash at hok ⊢
  simp only [hfound, hbuf, hlen, hoff, hdecode, hversion, hearly, bumpRestartCount_store, hsetvar,
    hset, ne_eq, not_true_eq_false, if_false, if_true] at hok ⊢
  split at hok
  · exact absurd hok (by assumption)
  · rename_i hwritten
    simp only [hwritten, if_false]
    refine ⟨?_, trivial, rfl⟩
    exact (Vars.writevars_contents hP rfl (Vars.length_encodeStore hfits) (not_not.mp hwritten)).1

theorem deriveKeys_ok {C : Crypto} {o : KeyOutcome} (ho : o = ⟨true, true, true⟩)
    (tree : MerkleTree) : (deriveKeys C o tree).1 = ecSuccess := by
  subst ho
  rfl

/-- **A boot succeeds** on every well-formed store with the two variables in it, if
storage and key derivation do. -/
theorem loadMerkleTree_succeeds {before' after' : List Vars.Tuple} {flags' : UInt8}
    {data : LongTermStorage}
    (hholds : Vars.Holds B.cfg s.vars (before ++ logTuple flags log :: after))
    (htree : before ++ logTuple flags log :: after = before' ++ treeTuple flags' data :: after')
    (hdata : data.storageVersion = pwStorageVersion)
    (hversion : log.storageVersion = pwStorageVersion)
    (hcopy : (Vars.getLocalCopy B.cfg env.io s.vars).1 = ecSuccess)
    (hkeys : env.keys = ⟨true, true, true⟩) (hsave : env.io.save.Succeeds)
    (herr : s.vars.nvmem.writeError = false) : (loadMerkleTree B env s).1 = ecSuccess := by
  have hsmall : B.cfg.size < 2 ^ 32 := by have := Vars.size_lt B.cfg; omega
  obtain ⟨hbefore, -⟩ := Vars.dropKey_append hholds.nodup
  obtain ⟨hbuf, hholds'⟩ := hholds.copy hcopy
  have hcopy' : Vars.getLocalCopy B.cfg env.io (Vars.getLocalCopy B.cfg env.io s.vars).2 =
      (ecSuccess, (Vars.getLocalCopy B.cfg env.io s.vars).2) :=
    Vars.getLocalCopy_of_some hbuf
  have hset : (setvarLog B.cfg.size before (Vars.encodeStore B.cfg.size
      (before ++ logTuple flags log.restarted :: after))).1 = ecSuccess := by
    by_cases hafter : after = []
    · subst hafter
      rw [setvarBuf_log_last hsmall (fits_logTuple flags log.restarted hholds.fits) hbefore]
    · rw [(setvarBuf_log_moved hsmall hafter (fits_logTuple flags log.restarted hholds.fits)
        hbefore).1]
  -- The parameters of the tree.
  have hfound := Vars.getvar_found (htree ▸ hholds) hcopy
  obtain ⟨hlen, hoff, rest, hrest⟩ :=
    Vars.value_found before' after' (treeTuple flags' data) B.cfg.size
  rw [← htree] at hlen hoff hrest
  have hdecode : LongTermStorage.codec.decode ((treeTuple flags' data).val ++ rest) = data :=
    LongTermStorage.codec.decode_encode data rest
  have hsize : (treeTuple flags' data).val.length = LongTermStorage.codec.size :=
    LongTermStorage.codec.length_encode data
  change Vars.getvar B.cfg env.io pwTreeVar s.vars = _ at hfound
  -- The log.
  have hfoundLog := Vars.getvar_found hholds' (congrArg Prod.fst hcopy')
  obtain ⟨hlenLog, hoffLog, hdecodeLog⟩ := decode_logTuple B.cfg.size before after flags log
  have hsetvar := fun vars : Vars.State B.cfg.bufferSize =>
    Vars.setvar_of_some B.cfg env.io
      (s := { vars with rbuf := some (Vars.encodeStore B.cfg.size
        (before ++ logTuple flags log.restarted :: after)) }) rfl
      (show 0 < pwLogVar0.length by decide) (.inside (logOffset before) LogStorage.codec.size)
  change Vars.getvar B.cfg env.io pwLogVar0 _ = _ at hfoundLog
  rw [hcopy'] at hfoundLog
  unfold setvarLog at hset
  unfold loadMerkleTree loadRootHash
  simp only [hfound, hbuf, hlen, hoff, hrest, hdecode, hsize, hdata, deriveKeys_ok hkeys,
    hfoundLog, hlenLog, hoffLog, hdecodeLog, hversion, bumpRestartCount_store, hsetvar, hset,
    ne_eq, not_true_eq_false, if_false]
  split
  · rw [if_neg]
    exact not_not.mpr (Vars.writevars_succeeds hsave (by simpa using herr))
  · rfl

/-! ## When the log survives -/

/-- What a boot is meant to leave: a store in which only the restart counter of the log
has changed, with the tree and the counter in RAM to match. -/
def BootPreserves (cfg : Vars.Config) {n : Nat} (ts : List Vars.Tuple) (log : LogStorage)
    (s' : State n) : Prop :=
  ∃ ts', Vars.Holds cfg s'.vars ts' ∧
    Vars.valueOf ts' pwLogVar0 = some (LogStorage.codec.encode log.restarted) ∧
    (∀ key, key ≠ pwLogVar0 → Vars.valueOf ts' key = Vars.valueOf ts key) ∧
    s'.tree.root = (log.entries.val.getD 0 (plainEntry pwMtInvalid 0 emptyHash)).root ∧
    s'.restartCount = log.restartCount + 1

/-- The bytes that `setvar` stores as the log when there are tuples behind it: what they
leave at its old place, over and over. -/
def movedOver (log : LogStorage) (after : List Vars.Tuple) : Bytes :=
  cyclic (Vars.overlap (logTuple 0 log) after) LogStorage.codec.size

/-- The store that a boot leaves if the log is the last tuple. -/
theorem bootPreserves_last (hP : B.nvmem.Involutive)
    (hholds : Vars.Holds B.cfg s.vars (before ++ [logTuple flags log]))
    (hcopy : (Vars.getLocalCopy B.cfg env.io s.vars).1 = ecSuccess)
    (hversion : log.storageVersion = pwStorageVersion)
    (hearly : env.now < restartTimerThreshold) (hok : (loadRootHash B env s).1 = ecSuccess) :
    BootPreserves B.cfg (before ++ [logTuple flags log]) log (loadRootHash B env s).2 := by
  have hsmall : B.cfg.size < 2 ^ 32 := by have := Vars.size_lt B.cfg; omega
  obtain ⟨hbefore, -⟩ := Vars.dropKey_append hholds.nodup
  have hfits : Vars.Fits B.cfg.size (before ++ [logTuple 0 log.restarted]) :=
    fits_logTuple 0 log.restarted hholds.fits
  have hset := setvarBuf_log_last hsmall (fits_logTuple flags log.restarted hholds.fits) hbefore
  obtain ⟨hcontents, hroot, hcount⟩ := loadRootHash_early hP hholds hcopy hversion hearly hfits
    hset hok
  refine ⟨before ++ [logTuple 0 log.restarted], ⟨hcontents, hfits, ?_⟩, ?_, ?_, hroot, ?_⟩
  · have hnodup : ((before ++ [] ++ [logTuple 0 log.restarted]).map Vars.Tuple.key).Nodup :=
      Vars.nodup_moved (t := logTuple flags log) rfl hholds.nodup
    rwa [List.append_nil] at hnodup
  · exact Vars.valueOf_append_cons (t := logTuple 0 log.restarted) [] hbefore
  · intro key hne
    rw [Vars.valueOf_append_single hne, Vars.valueOf_append_single hne]
  · rw [hcount, restartCountAt_store]
    rfl

/-- The store that a boot leaves if there are tuples behind the log. -/
theorem loadRootHash_moved (hP : B.nvmem.Involutive) (hafter : after ≠ [])
    (hholds : Vars.Holds B.cfg s.vars (before ++ logTuple flags log :: after))
    (hcopy : (Vars.getLocalCopy B.cfg env.io s.vars).1 = ecSuccess)
    (hversion : log.storageVersion = pwStorageVersion)
    (hearly : env.now < restartTimerThreshold) (hok : (loadRootHash B env s).1 = ecSuccess) :
    ∃ u : Vars.Tuple, u.key = pwLogVar0 ∧ u.val = movedOver log.restarted after ∧
      Vars.Holds B.cfg (loadRootHash B env s).2.vars (before ++ after ++ [u]) ∧
      (loadRootHash B env s).2.tree.root =
        (log.entries.val.getD 0 (plainEntry pwMtInvalid 0 emptyHash)).root ∧
      (loadRootHash B env s).2.restartCount = (LogStorage.codec.decode u.val).restartCount := by
  have hsmall : B.cfg.size < 2 ^ 32 := by have := Vars.size_lt B.cfg; omega
  obtain ⟨hbefore, -⟩ := Vars.dropKey_append hholds.nodup
  set t := logTuple flags log.restarted with ht
  set u := t.overwritten after with hu
  have hlen : t.val.length = LogStorage.codec.size := length_logTuple _ _
  have hulen : u.val.length = LogStorage.codec.size := (length_cyclic _ _).trans hlen
  obtain ⟨hset, hfits⟩ := setvarBuf_log_moved hsmall hafter
    (fits_logTuple flags log.restarted hholds.fits) hbefore
  obtain ⟨hcontents, hroot, hcount⟩ := loadRootHash_early hP hholds hcopy hversion hearly hfits
    hset hok
  refine ⟨u, rfl, ?_, ⟨hcontents, hfits, Vars.nodup_moved (t := logTuple flags log)
    (u := u) rfl hholds.nodup⟩, hroot, ?_⟩
  · change cyclic (Vars.overlap t after) t.val.length = _
    rw [hlen]
    rfl
  · -- The old place of the log holds the bytes of the new tuple.
    have hstale := Vars.drop_encodeStore_overwritten B.cfg.size before (t := t) hafter
    rw [hlen] at hstale
    rw [hcount]
    apply restartCountAt_of_take
    rw [LogStorage.codec.encode_decode, readBytes_eq_take hulen.ge, List.take_of_length_le hulen.le]
    exact hstale

theorem bootPreserves_iff_moved (hP : B.nvmem.Involutive) (hafter : after ≠ [])
    (hholds : Vars.Holds B.cfg s.vars (before ++ logTuple flags log :: after))
    (hcopy : (Vars.getLocalCopy B.cfg env.io s.vars).1 = ecSuccess)
    (hversion : log.storageVersion = pwStorageVersion)
    (hearly : env.now < restartTimerThreshold) (hok : (loadRootHash B env s).1 = ecSuccess) :
    BootPreserves B.cfg (before ++ logTuple flags log :: after) log (loadRootHash B env s).2 ↔
      movedOver log.restarted after = LogStorage.codec.encode log.restarted := by
  obtain ⟨u, hkey, hval, hholds', hroot, hcount⟩ :=
    loadRootHash_moved hP hafter hholds hcopy hversion hearly hok
  have habsent : ∀ v ∈ before ++ after, v.key ≠ u.key := by
    have hdrop := (Vars.dropKey_append hholds'.nodup).1
    simpa using hdrop
  have hstored : Vars.valueOf (before ++ after ++ [u]) pwLogVar0 =
      some (movedOver log.restarted after) := by
    rw [← hkey, ← hval]
    exact Vars.valueOf_append_cons _ habsent
  constructor
  · rintro ⟨ts', hts', hlog, -⟩
    rw [← hholds'.valueOf_unique hts' (by decide), hstored] at hlog
    exact Option.some.inj hlog
  · intro heq
    refine ⟨_, hholds', by rw [hstored, heq], ?_, hroot, ?_⟩
    · intro key hne
      rw [Vars.valueOf_append_single (by rw [hkey]; exact hne),
        Vars.valueOf_dropKey (t := logTuple flags log) hne]
    · rw [hcount, hval, heq, Codec.decode_encode_self]
      rfl

/-- **When a boot preserves the log.**  For every well-formed store with a log in it, at
any place among any other tuples, a boot that counts the restart and succeeds leaves
what it is meant to leave exactly if the log is the last tuple, or if the tuples behind
it happen to hold the bytes of the new log at the right place. -/
theorem loadMerkleTree_preserves_iff (hP : B.nvmem.Involutive)
    (hholds : Vars.Holds B.cfg s.vars (before ++ logTuple flags log :: after))
    (hversion : log.storageVersion = pwStorageVersion)
    (hearly : env.now < restartTimerThreshold) (hok : (loadMerkleTree B env s).1 = ecSuccess) :
    BootPreserves B.cfg (before ++ logTuple flags log :: after) log (loadMerkleTree B env s).2 ↔
      after = [] ∨ movedOver log.restarted after = LogStorage.codec.encode log.restarted := by
  obtain ⟨s', heq, hholds', hcopy'⟩ := loadMerkleTree_success hholds hok
  rw [heq] at hok ⊢
  by_cases hafter : after = []
  · subst hafter
    exact iff_of_true (bootPreserves_last hP hholds' hcopy' hversion hearly hok) (Or.inl rfl)
  · rw [bootPreserves_iff_moved hP hafter hholds' hcopy' hversion hearly hok]
    constructor
    · exact Or.inr
    · rintro (hnil | hbytes)
      · exact absurd hnil hafter
      · exact hbytes

end Boot

/-! ## Two boots of the small board -/

/-- A variable of some other component. -/
def otherTuple : Vars.Tuple where
  key := [0x6b]
  val := [1]
  flags := 0
  key_pos := by decide
  key_lt := by decide
  val_pos := by decide
  val_lt := by decide

/-- The variables after a reset of the tree, and what was stored after it. -/
def bootTuples (after : List Vars.Tuple) : List Vars.Tuple :=
  [treeTuple 0 twoSlotTree.storage] ++ logTuple 0 (resetLog twoSlotTree.root) :: after

/-- The variables in RAM, about to be written. -/
def bootVars (after : List Vars.Tuple) : Vars.State testBoard.cfg.bufferSize :=
  { blankState.vars with rbuf := some (Vars.encodeStore testBoard.cfg.size (bootTuples after)) }

/-- These variables, written to flash. -/
def storedVars (after : List Vars.Tuple) : Vars.State testBoard.cfg.bufferSize :=
  (Vars.writevars testBoard.cfg testBoard.nvmem testEnv.io (bootVars after)).2

/-- A board that boots with the given variables. -/
def bootState (vars : Vars.State testBoard.cfg.bufferSize) : State testBoard.cfg.bufferSize :=
  { blankState with vars := vars }

theorem bootState_vars (vars : Vars.State testBoard.cfg.bufferSize) :
    (bootState vars).vars = vars := rfl

theorem testBoard_involutive : testBoard.nvmem.Involutive := Nvmem.xorPlatform_involutive _

theorem storedVars_holds (after : List Vars.Tuple)
    (hfits : Vars.Fits testBoard.cfg.size (bootTuples after))
    (hnodup : ((bootTuples after).map Vars.Tuple.key).Nodup) :
    Vars.Holds testBoard.cfg (bootState (storedVars after)).vars (bootTuples after) := by
  rw [bootState_vars, storedVars]
  exact Vars.writevars_holds testBoard_involutive hfits hnodup rfl
    (Vars.writevars_succeeds ⟨rfl, rfl, rfl, rfl⟩ rfl)

theorem storedVars_boot {after : List Vars.Tuple}
    (hholds : Vars.Holds testBoard.cfg (bootState (storedVars after)).vars (bootTuples after)) :
    (loadMerkleTree testBoard testEnv (bootState (storedVars after))).1 = ecSuccess := by
  have htree : [treeTuple 0 twoSlotTree.storage] ++
      logTuple 0 (resetLog twoSlotTree.root) :: after =
        [] ++ treeTuple 0 twoSlotTree.storage ::
          logTuple 0 (resetLog twoSlotTree.root) :: after := rfl
  refine loadMerkleTree_succeeds hholds htree rfl rfl (Vars.getLocalCopy_ok rfl) rfl
    ⟨rfl, rfl, rfl, rfl⟩ ?_
  rw [bootState_vars, storedVars]
  exact Vars.writevars_writeError rfl

theorem loadMerkleTree_preserves_lastTuple :
    BootPreserves testBoard.cfg (bootTuples []) (resetLog twoSlotTree.root)
      (loadMerkleTree testBoard testEnv (bootState (storedVars []))).2 := by
  have hholds := storedVars_holds [] (by decide +kernel) (by decide +kernel)
  have hearly : testEnv.now < restartTimerThreshold := by decide +kernel
  have hok := storedVars_boot hholds
  have hlast : Vars.Holds testBoard.cfg (bootState (storedVars [])).vars
      ([treeTuple 0 twoSlotTree.storage] ++ logTuple 0 (resetLog twoSlotTree.root) :: []) := hholds
  exact (loadMerkleTree_preserves_iff testBoard_involutive hlast rfl hearly hok).mpr (Or.inl rfl)

/-- One variable behind the log is enough to lose it. -/
theorem not_bootPreserves_otherTuple :
    Vars.Holds testBoard.cfg (bootState (storedVars [otherTuple])).vars
        (bootTuples [otherTuple]) ∧
      (loadMerkleTree testBoard testEnv (bootState (storedVars [otherTuple]))).1 = ecSuccess ∧
      ¬ BootPreserves testBoard.cfg (bootTuples [otherTuple]) (resetLog twoSlotTree.root)
        (loadMerkleTree testBoard testEnv (bootState (storedVars [otherTuple]))).2 := by
  have hholds := storedVars_holds [otherTuple] (by decide +kernel) (by decide +kernel)
  have hearly : testEnv.now < restartTimerThreshold := by decide +kernel
  have hok := storedVars_boot hholds
  have hbytes : ¬ movedOver (resetLog twoSlotTree.root).restarted [otherTuple] =
      LogStorage.codec.encode (resetLog twoSlotTree.root).restarted := by
    decide +kernel
  refine ⟨hholds, hok, fun hpreserves => hbytes ?_⟩
  obtain ⟨s', heq, hholds', hcopy⟩ := loadMerkleTree_success hholds hok
  rw [heq] at hok hpreserves
  have hbehind : Vars.Holds testBoard.cfg s'.vars
      ([treeTuple 0 twoSlotTree.storage] ++ logTuple 0 (resetLog twoSlotTree.root) ::
        [otherTuple]) := hholds'
  exact (bootPreserves_iff_moved testBoard_involutive (by simp) hbehind hcopy rfl hearly hok).mp
    hpreserves

end Pinweaver
end CrosEc
