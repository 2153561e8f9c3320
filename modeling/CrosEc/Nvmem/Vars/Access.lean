import CrosEc.Nvmem.CommitFailure
import CrosEc.Nvmem.Vars.Store

/-!
# The variable store of a running device

`contents` is the variable region as the next access will see it: the RAM copy if
there is one, else the bytes of the NVMEM cache.  `Holds` says that it is a
well-formed store with the given tuples.  The lemmas say what `getvar` finds in such
a state and that a `writevars` that returns success makes the RAM copy the contents.
-/

namespace CrosEc
namespace Nvmem

open Lib

variable {n : Nat} {cfg : Config} {P : Platform n}

/-- A commit that returns success leaves the users' bytes in the cache. -/
theorem commit_success_buffer (hP : P.Involutive) {t : TaskId} {o : SaveOutcome n} {s : State n}
    (h : (commit P t o s).1 = ecSuccess) : (commit P t o s).2.cache.buffer = s.cache.buffer := by
  rcases commit_cases P t o s with ⟨-, hsave⟩ | ⟨-, hskip⟩ | ⟨herr, -⟩
  · rw [hsave] at h ⊢
    exact save_success_buffer hP h
  · rw [hskip]
  · exact absurd h herr

/-- With every flash and cipher operation a commit by the task that holds the lock
succeeds, if no write went wrong. -/
theorem commit_succeeds {t : TaskId} {o : SaveOutcome n} {s : State n} (ho : o.Succeeds)
    (hlock : s.mutexTask = some t) (herr : s.writeError = false) :
    (commit P t o s).1 = ecSuccess := by
  unfold commit
  rw [if_neg (by rw [hlock]; exact Option.some_ne_none _), if_neg (not_not.mpr hlock), herr]
  simp only [Bool.false_eq_true, if_false]
  split
  · rfl
  · exact save_succeeds ho s

theorem commit_writeError {t : TaskId} {o : SaveOutcome n} {s : State n}
    (herr : s.writeError = false) : (commit P t o s).2.writeError = false := by
  unfold commit
  split
  · exact herr
  · split
    · exact herr
    · split
      · rename_i h
        rw [herr] at h
        cases h
      · split
        · exact herr
        · rw [save_writeError, herr]

end Nvmem

namespace Vars

open Lib

variable (cfg : Config)

/-- Where the variable region starts in the cache. -/
def regionAddr : UInt32 := Nvmem.userStartOffset cfg.toConfig cfg.user + 0

/-- The variable region as the next access sees it. -/
def contents {n : Nat} (s : State n) : Bytes :=
  match s.rbuf with
  | some buf => buf
  | none => s.nvmem.cache.load (regionAddr cfg) (UInt32.ofNat cfg.size)

/-- The state holds a well-formed store with these tuples. -/
structure Holds {n : Nat} (s : State n) (ts : List Tuple) : Prop where
  contents_eq : contents cfg s = encodeStore cfg.size ts
  fits : Fits cfg.size ts
  nodup : (ts.map Tuple.key).Nodup

variable {cfg}

theorem size_lt (cfg : Config) : Nvmem.tagSize + cfg.size < 2 ^ 32 := by
  have := Nvmem.regionStart_add_le cfg.user_size
  have := cfg.partition_lt
  omega

/-- The whole region is a request that passes the range check without a wrap. -/
theorem getPartitionOff_region (cfg : Config) :
    Nvmem.getPartitionOff cfg.toConfig cfg.user 0 (UInt32.ofNat cfg.size) =
      .ok (regionAddr cfg) := by
  unfold Nvmem.getPartitionOff
  rw [cfg.user_size]
  simp [regionAddr]

theorem toNat_size : (UInt32.ofNat cfg.size).toNat = cfg.size := by
  have := size_lt cfg
  rw [UInt32.toNat_ofNat', Nat.mod_eq_of_lt (by omega)]

theorem regionAddr_bounds (cfg : Config) :
    Nvmem.tagSize ≤ (regionAddr cfg).toNat ∧
      (regionAddr cfg).toNat + cfg.size ≤ Nvmem.tagSize + cfg.bufferSize := by
  have hsize := size_lt cfg
  obtain ⟨len, -, haddr, -, htop⟩ := Nvmem.addr_bounds (getPartitionOff_region cfg)
    (by rw [toNat_size]; simp; omega)
  rw [toNat_size] at htop
  exact ⟨by omega, htop⟩

section Access

variable {n : Nat} {io : Io n} {s : State n} {key : Bytes}

/-- `get_local_copy` fails only if there is no RAM copy and no memory for one. -/
theorem getLocalCopy_cases (cfg : Config) (io : Io n) (s : State n) :
    ((getLocalCopy cfg io s).1 = ecSuccess ∧
        (getLocalCopy cfg io s).2.rbuf = some (contents cfg s) ∧
        (getLocalCopy cfg io s).2.nvmem.cache = s.nvmem.cache) ∨
      (s.rbuf = none ∧ io.acquire ≠ ecSuccess ∧ getLocalCopy cfg io s = (io.acquire, s)) := by
  unfold getLocalCopy contents
  cases hbuf : s.rbuf with
  | some buf => exact Or.inl ⟨rfl, hbuf, rfl⟩
  | none =>
      by_cases hacquire : io.acquire = ecSuccess
      · left
        have hread : Nvmem.read cfg.toConfig io.task 0 (UInt32.ofNat cfg.size) cfg.user s.nvmem =
            (ecSuccess, s.nvmem.cache.load (regionAddr cfg) (UInt32.ofNat cfg.size),
              Nvmem.releaseCache (Nvmem.lockCache io.task s.nvmem)) := by
          unfold Nvmem.read
          rw [getPartitionOff_region]
          simp
        simp [hacquire, hread]
      · right
        simp [hacquire]

theorem getLocalCopy_ok (hacquire : io.acquire = ecSuccess) :
    (getLocalCopy cfg io s).1 = ecSuccess := by
  rcases getLocalCopy_cases cfg io s with ⟨hok, -⟩ | ⟨-, hne, -⟩
  · exact hok
  · exact absurd hacquire hne

@[simp] theorem getLocalCopy_writeError :
    (getLocalCopy cfg io s).2.nvmem.writeError = s.nvmem.writeError := by
  unfold getLocalCopy
  cases s.rbuf with
  | some buf => rfl
  | none =>
      simp only [Nvmem.read, getPartitionOff_region]
      split
      · rfl
      · simp

/-- A RAM copy shows the contents as they are. -/
@[simp] theorem getLocalCopy_contents : contents cfg (getLocalCopy cfg io s).2 = contents cfg s := by
  rcases getLocalCopy_cases cfg io s with ⟨-, hbuf, -⟩ | ⟨-, -, heq⟩
  · rw [contents, hbuf]
  · rw [heq]

/-- The store survives the making of a RAM copy. -/
theorem Holds.copy {ts : List Tuple} (h : Holds cfg s ts)
    (hok : (getLocalCopy cfg io s).1 = ecSuccess) :
    (getLocalCopy cfg io s).2.rbuf = some (encodeStore cfg.size ts) ∧
      Holds cfg (getLocalCopy cfg io s).2 ts := by
  rcases getLocalCopy_cases cfg io s with ⟨-, hbuf, -⟩ | ⟨-, hne, heq⟩
  · rw [h.contents_eq] at hbuf
    exact ⟨hbuf, by rw [contents, hbuf], h.fits, h.nodup⟩
  · rw [heq] at hok
    exact absurd hok hne

/-- Whatever `getvar` finds, it leaves the state with a RAM copy. -/
theorem getvar_state (hkey : 0 < key.length) :
    (getvar cfg io key s).2 = (getLocalCopy cfg io s).2 := by
  unfold getvar
  rw [if_neg (by omega)]
  simp only
  split
  · rfl
  · split
    · rfl
    · rfl

theorem getLocalCopy_of_some {buf : Bytes} (hbuf : s.rbuf = some buf) :
    getLocalCopy cfg io s = (ecSuccess, s) := by
  rw [getLocalCopy, hbuf]

theorem setvar_of_some (cfg : Config) (io : Io n) {buf : Bytes} (hbuf : s.rbuf = some buf)
    (hkey : 0 < key.length) (val : Value) :
    setvar cfg io key val s =
      ((setvarBuf cfg.size buf key val).1,
        { s with rbuf := some (setvarBuf cfg.size buf key val).2 }) := by
  unfold setvar
  rw [if_neg (by omega), getLocalCopy_of_some hbuf]
  simp [hbuf]

/-- `getvar` on a key of the store. -/
theorem getvar_found {before after : List Tuple} {t : Tuple}
    (h : Holds cfg s (before ++ t :: after)) (hok : (getLocalCopy cfg io s).1 = ecSuccess) :
    getvar cfg io t.key s =
      (some (encodeTuples before).length, (getLocalCopy cfg io s).2) := by
  have hbefore := (dropKey_append h.nodup).1
  have hsmall : cfg.size < 2 ^ 32 := by have := size_lt cfg; omega
  have hkey := t.key_pos
  unfold getvar
  rw [if_neg (by omega)]
  simp only [hok, (h.copy hok).1, getvarIdx_found hsmall h.fits hbefore, ne_eq, not_true_eq_false,
    if_false, if_true]

/-- The value of the tuple that `getvar` found. -/
theorem value_found (before after : List Tuple) (t : Tuple) (size : Nat) :
    valLen (encodeStore size (before ++ t :: after)) (encodeTuples before).length = t.val.length ∧
      tupleVal (encodeStore size (before ++ t :: after)) (encodeTuples before).length =
        (encodeTuples before).length + tupleHeader + t.key.length ∧
      ∃ rest : Bytes, (encodeStore size (before ++ t :: after)).drop
        ((encodeTuples before).length + tupleHeader + t.key.length) = t.val ++ rest := by
  set tail := encodeTuples after ++ 0 :: List.replicate
    (size - (encodeTuples (before ++ t :: after)).length - 1) 0xff with htail
  have hshape : encodeStore size (before ++ t :: after) =
      encodeTuples before ++ (t.encode ++ tail) := by
    simp [encodeStore, htail]
  rw [hshape]
  refine ⟨valLen_tuple _ _ _, ?_, ⟨tail, ?_⟩⟩
  · rw [tupleVal, keyLen_tuple]
  · rw [Nat.add_assoc, ← List.drop_drop, List.drop_left, Tuple.encode, List.append_assoc,
      List.append_assoc, ← List.drop_drop]
    simp [tupleHeader]

end Access

section Write

variable {P : Nvmem.Platform cfg.bufferSize} {io : Io cfg.bufferSize} {s : State cfg.bufferSize}

theorem write_region (buf : Bytes) (s : Nvmem.State cfg.bufferSize) :
    Nvmem.write cfg.toConfig io.task 0 (UInt32.ofNat cfg.size) buf cfg.user s =
      (ecSuccess, { Nvmem.lockCache io.task s with
        writeInProgress := true
        cache := s.cache.store (regionAddr cfg) (UInt32.ofNat cfg.size) buf }) := by
  unfold Nvmem.write
  rw [getPartitionOff_region]
  simp

/-- With every flash and cipher operation `writevars` succeeds, unless an earlier write
of another user went wrong. -/
theorem writevars_succeeds (hsave : io.save.Succeeds) (herr : s.nvmem.writeError = false) :
    (writevars cfg P io s).1 = ecSuccess := by
  unfold writevars
  split
  · rfl
  · rename_i buf hbuf
    have hcommit := fun t => Nvmem.commit_succeeds (P := P) (t := io.task) (s := t) hsave
    simp only [write_region]
    rw [if_neg (by simp), if_neg]
    exact not_not.mpr (hcommit _ (Nvmem.lockCache_mutexTask _ _) (by simpa using herr))

theorem writevars_writeError (herr : s.nvmem.writeError = false) :
    (writevars cfg P io s).2.nvmem.writeError = false := by
  unfold writevars
  split
  · exact herr
  · simp only [write_region]
    have hcommit := fun t => Nvmem.commit_writeError (P := P) (t := io.task) (o := io.save) (s := t)
    repeat' split
    · simpa using herr
    · exact hcommit _ (by simpa using herr)
    · exact hcommit _ (by simpa using herr)

/-- A successful `writevars` makes the RAM copy the contents of the region. -/
theorem writevars_contents (hP : P.Involutive) {buf : Bytes} (hbuf : s.rbuf = some buf)
    (hlen : buf.length = cfg.size) (hok : (writevars cfg P io s).1 = ecSuccess) :
    contents cfg (writevars cfg P io s).2 = buf ∧ (writevars cfg P io s).2.rbuf = none := by
  obtain ⟨hlow, hhigh⟩ := regionAddr_bounds cfg
  have hpart := cfg.partition_lt
  unfold writevars at hok ⊢
  rw [hbuf] at hok ⊢
  simp only [write_region, ne_eq, not_true_eq_false, if_false] at hok ⊢
  split at hok
  · exact absurd hok (by assumption)
  · rename_i hcommit
    simp only [hcommit, if_false]
    refine ⟨?_, trivial⟩
    rw [not_not] at hcommit
    have hbuffer := Nvmem.commit_success_buffer hP hcommit
    simp only [contents]
    rw [Nvmem.load_congr hbuffer _ _ hlow (by rw [toNat_size]; omega)]
    exact Nvmem.load_store _ hlow (by rw [toNat_size]; exact hhigh) hpart
      (by rw [toNat_size]; exact hlen)

/-- The store that was in the RAM copy is then the store of the device. -/
theorem writevars_holds (hP : P.Involutive) {ts : List Tuple} (hfits : Fits cfg.size ts)
    (hnodup : (ts.map Tuple.key).Nodup) (hbuf : s.rbuf = some (encodeStore cfg.size ts))
    (hok : (writevars cfg P io s).1 = ecSuccess) : Holds cfg (writevars cfg P io s).2 ts :=
  ⟨(writevars_contents hP hbuf (length_encodeStore hfits) hok).1, hfits, hnodup⟩

end Write

/-- A lookup among the tuples. -/
def valueOf (ts : List Tuple) (key : Bytes) : Option Bytes :=
  (ts.find? fun t => t.key = key).map Tuple.val

/-- The value that a walk over the bytes of a region finds under a key. -/
def lookup (size : Nat) (buf key : Bytes) : Option Bytes :=
  let found := getvarIdx size buf key
  if found.2 then some ((buf.drop (tupleVal buf found.1)).take (valLen buf found.1)) else none

section Lookup

variable {before after ts ts' : List Tuple} {t u : Tuple} {key : Bytes}

theorem valueOf_absent (h : ∀ u ∈ ts, u.key ≠ key) : valueOf ts key = none := by
  rw [valueOf, List.find?_eq_none.mpr (by simpa using h), Option.map_none]

theorem valueOf_append_cons (after : List Tuple) (hbefore : ∀ u ∈ before, u.key ≠ t.key) :
    valueOf (before ++ t :: after) t.key = some t.val := by
  have hnone : before.find? (fun u => u.key = t.key) = none :=
    List.find?_eq_none.mpr (by simpa using hbefore)
  simp [valueOf, List.find?_append, hnone]

/-- Tuples with other keys do not matter. -/
theorem valueOf_dropKey (hne : key ≠ t.key) :
    valueOf (before ++ t :: after) key = valueOf (before ++ after) key := by
  have hmiss : decide (t.key = key) = false := by simpa using hne.symm
  simp [valueOf, List.find?_append, hmiss]

theorem valueOf_append_single (hne : key ≠ u.key) : valueOf (ts ++ [u]) key = valueOf ts key := by
  have hdrop : valueOf (ts ++ u :: []) key = valueOf (ts ++ []) key := valueOf_dropKey hne
  rwa [List.append_nil] at hdrop

/-- Moving a tuple to the end keeps the keys distinct. -/
theorem nodup_moved (hkey : u.key = t.key)
    (hnodup : ((before ++ t :: after).map Tuple.key).Nodup) :
    ((before ++ after ++ [u]).map Tuple.key).Nodup := by
  have hperm : ((before ++ after ++ [u]).map Tuple.key).Perm
      ((before ++ t :: after).map Tuple.key) := by
    simp only [List.map_append, List.map_cons, List.map_nil, hkey]
    exact (List.perm_append_singleton _ _).trans List.perm_middle.symm
  exact hperm.nodup_iff.mpr hnodup

theorem fits_replace (hkey : u.key = t.key) (hlen : u.val.length = t.val.length)
    {size : Nat} : Fits size (before ++ u :: after) ↔ Fits size (before ++ t :: after) := by
  have henc : u.encode.length = t.encode.length := by
    rw [u.length_encode, t.length_encode, hkey, hlen]
  simp [Fits, henc]

/-- What is stored under a key can be read off the bytes of the store. -/
theorem lookup_encodeStore {size : Nat} (hsmall : size < 2 ^ 32) (hkey : 0 < key.length)
    (hfits : Fits size ts) (hnodup : (ts.map Tuple.key).Nodup) :
    lookup size (encodeStore size ts) key = valueOf ts key := by
  unfold lookup
  by_cases hmem : ∃ u ∈ ts, u.key = key
  · obtain ⟨u, hu, rfl⟩ := hmem
    obtain ⟨before, after, rfl⟩ := List.append_of_mem hu
    obtain ⟨hbefore, -⟩ := dropKey_append hnodup
    obtain ⟨hval, hoff, rest, hrest⟩ := value_found before after u size
    rw [valueOf_append_cons after hbefore, getvarIdx_found hsmall hfits hbefore]
    simp only [if_true]
    rw [hoff, hval, hrest, List.take_left]
  · push Not at hmem
    rw [valueOf_absent hmem, getvarIdx_absent hsmall hfits hkey hmem]
    rfl

theorem Holds.lookup {n : Nat} {s : State n} (h : Holds cfg s ts) (hkey : 0 < key.length) :
    lookup cfg.size (contents cfg s) key = valueOf ts key := by
  have hsmall : cfg.size < 2 ^ 32 := by have := size_lt cfg; omega
  rw [h.contents_eq, lookup_encodeStore hsmall hkey h.fits h.nodup]

theorem Holds.valueOf_unique {n : Nat} {s : State n} (h : Holds cfg s ts) (h' : Holds cfg s ts')
    (hkey : 0 < key.length) : valueOf ts key = valueOf ts' key :=
  (h.lookup hkey).symm.trans (h'.lookup hkey)

end Lookup

end Vars
end CrosEc
