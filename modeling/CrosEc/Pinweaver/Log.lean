import CrosEc.Nvmem.Vars.Access
import CrosEc.Pinweaver.Leaf

/-!
# The log and the tree in the variable store

PinWeaver keeps two variables: `pwT0` with the parameters of the tree and `pwL0` with
the last operations, the newest first.  The functions below are those of
`pinweaver.c` between the handlers and `nvmem_vars.c`.
-/

namespace CrosEc
namespace Pinweaver

open Lib

/-- The static variables of `pinweaver.c` and the variable store. -/
structure State (n : Nat) where
  tree : MerkleTree
  /-- `pw_restart_count` -/
  restartCount : UInt32
  vars : Vars.State n

/-- What the board is made of. -/
structure Board where
  cfg : Vars.Config
  crypto : Crypto
  nvmem : Nvmem.Platform cfg.bufferSize

/-- What one request meets outside: random bytes, the two readings of the clock, the
PCR values, the results of the cryptographic engine and of the storage. -/
structure Env (n : Nat) where
  nonce : Blob 16
  iv : Blob 16
  now : UInt64
  later : UInt64
  pcrDigest : Blob 2 → Option (Blob 32)
  keys : KeyOutcome
  aesOk : Bool
  io : Vars.Io n

/-! ## Log entries -/

/-- The log entry of a type that has no fields of its own, from a zeroed entry. -/
def plainEntry (type : UInt8) (label : UInt64) (root : Hash) : LogEntry where
  root := root
  label := label
  type := type
  data := Arr.replicate 32 0

/-- The entry that `log_insert_leaf` writes. -/
def insertEntry (label : UInt64) (root hmac : Hash) : LogEntry :=
  { plainEntry pwInsertLeaf label root with data := hmac }

/-- The entry that `log_remove_leaf` writes. -/
def removeEntry (label : UInt64) (root : Hash) : LogEntry := plainEntry pwRemoveLeaf label root

/-- The entry that `log_auth` writes. -/
def authEntry (label : UInt64) (root : Hash) (code : Code) (timestamp : Timestamp) : LogEntry :=
  { plainEntry pwTryAuth label root with data := readBlob 32 (authRecord.encode (timestamp, code)) }

/-- `entry->timestamp` -/
def LogEntry.timestamp (e : LogEntry) : Timestamp := (authRecord.decode e.data.val).1

/-- `entry->return_code` -/
def LogEntry.returnCode (e : LogEntry) : Code := (authRecord.decode e.data.val).2

/-- `log_roll_for_append` on a loaded log, and the new entry in front. -/
def LogStorage.append (log : LogStorage) (e : LogEntry) : LogStorage :=
  { log with entries :=
      ⟨[e, log.entries.val.getD 0 (plainEntry pwMtInvalid 0 emptyHash)], rfl⟩ }

/-- The log of a new tree, from a zeroed record. -/
def resetLog (root : Hash) : LogStorage where
  storageVersion := pwStorageVersion
  restartCount := 0
  entries := ⟨[plainEntry pwResetTree 0 root, plainEntry pwMtInvalid 0 emptyHash], rfl⟩

/-- `find_relevant_entry`: the first index with this root, or the index of the last
valid entry. -/
def findRelevantEntryFrom (root : Hash) : Nat → List LogEntry → Code × Int
  | x, [] => (pwErrRootNotFound, (x : Int) - 1)
  | x, e :: rest =>
      if e.type = pwMtInvalid then (pwErrRootNotFound, (x : Int) - 1)
      else if root = e.root then (ecSuccess, x)
      else findRelevantEntryFrom root (x + 1) rest

def findRelevantEntry (log : LogStorage) (root : Hash) : Code × Int :=
  findRelevantEntryFrom root 0 log.entries.val

/-- The entry it finds has the root it was looking for. -/
theorem findRelevantEntryFrom_found {root : Hash} {x : Nat} {entries : List LogEntry}
    (h : (findRelevantEntryFrom root x entries).1 = ecSuccess) :
    ∃ j e, (findRelevantEntryFrom root x entries).2 = ((x + j : Nat) : Int) ∧
      entries[j]? = some e ∧ e.root = root := by
  induction entries generalizing x with
  | nil => cases h
  | cons e rest ih =>
      unfold findRelevantEntryFrom at h ⊢
      split at h
      · cases h
      · rename_i htype
        rw [if_neg htype]
        split at h
        · rename_i hroot
          rw [if_pos hroot]
          exact ⟨0, e, by simp, rfl, hroot.symm⟩
        · rename_i hroot
          rw [if_neg hroot]
          obtain ⟨j, e', hindex, hentry, hfound⟩ := ih h
          exact ⟨j + 1, e', by rw [hindex]; push_cast; omega, by simpa using hentry, hfound⟩

/-! ## Access to the variables -/

section Storage

variable {n : Nat} (cfg : Vars.Config) (P : Nvmem.Platform n)

/-- `load_log_data` -/
def loadLogData (io : Vars.Io n) (vars : Vars.State n) : Except Code LogStorage × Vars.State n :=
  let found := Vars.getvar cfg io pwLogVar0 vars
  match found.1, found.2.rbuf with
  | some idx, some buf =>
      let view := LogStorage.codec.decode (buf.drop (Vars.tupleVal buf idx))
      if Vars.valLen buf idx ≠ LogStorage.codec.size then (.error pwErrNvLengthMismatch, found.2)
      else if view.storageVersion ≠ pwStorageVersion then (.error pwErrNvVersionMismatch, found.2)
      else (.ok view, found.2)
  | _, _ => (.error pwErrNvEmpty, found.2)

/-- Loading the log makes a RAM copy at most. -/
theorem loadLogData_state (io : Vars.Io n) (vars : Vars.State n) :
    (loadLogData cfg io vars).2 = (Vars.getLocalCopy cfg io vars).2 := by
  have hstate : (Vars.getvar cfg io pwLogVar0 vars).2 = (Vars.getLocalCopy cfg io vars).2 :=
    Vars.getvar_state (by decide)
  unfold loadLogData
  simp only
  repeat' split
  all_goals exact hstate

/-- `store_log_data` -/
def storeLogData (io : Vars.Io n) (log : LogStorage) (vars : Vars.State n) :
    Code × Vars.State n :=
  let set := Vars.setvar cfg io pwLogVar0 (.outside (LogStorage.codec.encode log)) vars
  if set.1 ≠ ecSuccess then set else Vars.writevars cfg P io set.2

/-- `log_insert_leaf`, `log_remove_leaf` and `log_auth`, for the entry they write. -/
def logEntry (io : Vars.Io n) (e : LogEntry) (vars : Vars.State n) : Code × Vars.State n :=
  let loaded := loadLogData cfg io vars
  match loaded.1 with
  | .error code => (code, loaded.2)
  | .ok log => storeLogData cfg P io (log.append e) loaded.2

/-- `log_insert_leaf` -/
def logInsertLeaf (io : Vars.Io n) (label : UInt64) (root hmac : Hash) (vars : Vars.State n) :
    Code × Vars.State n :=
  logEntry cfg P io (insertEntry label root hmac) vars

/-- `log_remove_leaf` -/
def logRemoveLeaf (io : Vars.Io n) (label : UInt64) (root : Hash) (vars : Vars.State n) :
    Code × Vars.State n :=
  logEntry cfg P io (removeEntry label root) vars

/-- `log_auth` -/
def logAuth (io : Vars.Io n) (label : UInt64) (root : Hash) (code : Code) (timestamp : Timestamp)
    (vars : Vars.State n) : Code × Vars.State n :=
  logEntry cfg P io (authEntry label root code timestamp) vars

/-- The parameters of a tree as they go to flash. -/
def MerkleTree.storage (tree : MerkleTree) : LongTermStorage where
  storageVersion := pwStorageVersion
  bitsPerLevel := tree.bitsPerLevel
  height := tree.height
  keyDerivationNonce := tree.keyDerivationNonce

/-- `store_merkle_tree`; on success `pw_restart_count` becomes 0. -/
def storeMerkleTree (io : Vars.Io n) (tree : MerkleTree) (restartCount : UInt32)
    (vars : Vars.State n) : Code × UInt32 × Vars.State n :=
  let set := Vars.setvar cfg io pwTreeVar (.outside (LongTermStorage.codec.encode tree.storage)) vars
  if set.1 ≠ ecSuccess then (set.1, restartCount, set.2)
  else
    let stored := storeLogData cfg P io (resetLog tree.root) set.2
    (stored.1, if stored.1 = ecSuccess then 0 else restartCount, stored.2)

end Storage

end Pinweaver
end CrosEc
