import CrosEc.Nvmem.Vars.Persist

/-!
# The variable store is a finite map

A run of `setvar` calls, seen through `getvar`, is a run of updates of a finite map
from keys to values.  The abstract map is the function `m` below, and `record` is what
one call does to it, told by its return code only: a successful call maps its key to
its value, or to nothing if the value is empty; a call that overflows unmaps its key.

The bytes behind it stay a well-formed store throughout, so that `initvars` finds
nothing to repair in them.
-/

namespace CrosEc
namespace Vars

open Lib

/-- One call of `setvar`: `val` is `none` for a null pointer. -/
structure SetCall (n : Nat) where
  io : Io n
  key : Bytes
  val : Option Bytes

namespace SetCall

variable {n : Nat}

def value (c : SetCall n) : Value :=
  match c.val with
  | none => .null
  | some data => .outside data

/-- The bytes to store; none of them for a deletion. -/
def bytes (c : SetCall n) : Bytes := c.val.getD []

/-- Lengths that fit their `uint8_t` parameters, a key that is not empty, and a memory
allocator that fails, if it does, with a code of its own. -/
structure Valid (c : SetCall n) : Prop where
  key_pos : 0 < c.key.length
  key_lt : c.key.length < 256
  val_lt : c.bytes.length < 256
  acquire : c.io.acquire ≠ ecErrorOverflow

end SetCall

section Map

variable {n : Nat} (cfg : Config)

/-- The map after a call that returned `code`. -/
def record (c : SetCall n) (code : Code) (m : Bytes → Option Bytes) : Bytes → Option Bytes :=
  if code = ecSuccess then
    Function.update m c.key (if c.bytes = [] then none else some c.bytes)
  else if code = ecErrorOverflow then Function.update m c.key none
  else m

/-- The value behind the tuple that `getvar` returns. -/
def getvarValue (io : Io n) (key : Bytes) (s : State n) : Option Bytes :=
  let r := getvar cfg io key s
  match r.1, r.2.rbuf with
  | some off, some buf => some ((buf.drop (tupleVal buf off)).take (valLen buf off))
  | _, _ => none

/-- The bytes that the tuples of the other keys take. -/
def otherBytes (key : Bytes) (ts : List Tuple) : Nat :=
  ((ts.filter fun u => u.key ≠ key).map fun u => tupleHeader + u.key.length + u.val.length).sum

/-- `initvars`, on any device that holds these bytes, finds nothing to repair: it writes
nothing to NVMEM, and what it has loaded from there stays. -/
def InitvarsKeeps (P : Nvmem.Platform n) (buf : Bytes) : Prop :=
  ∀ (io : Io n) (s : State n), io.acquire = ecSuccess → contents cfg s = buf →
    (initvars cfg P io s).1 = ecSuccess ∧
      (initvars cfg P io s).2.nvmem = (getLocalCopy cfg io s).2.nvmem ∧
      (s.rbuf = none → contents cfg (initvars cfg P io s).2 = buf)

/-- The state represents the map `m`. -/
structure Represents (P : Nvmem.Platform n) (s : State n) (m : Bytes → Option Bytes) : Prop where
  wellFormed : ∃ ts, Holds cfg s ts
  gets : ∀ (io : Io n) (key : Bytes), io.acquire = ecSuccess → 0 < key.length →
    getvarValue cfg io key s = m key
  keeps : InitvarsKeeps cfg P (contents cfg s)

/-- Along the calls, every state represents the map recorded so far; a call reports an
overflow exactly when the tuples of the other keys, its own and the end marker do not
fit; and it leaves every other key alone. -/
def MapRun (P : Nvmem.Platform n) :
    List (SetCall n) → State n → (Bytes → Option Bytes) → Prop
  | [], s, m => Represents cfg P s m
  | c :: calls, s, m =>
      let r := setvar cfg c.io c.key c.value s
      Represents cfg P s m ∧
        ((getLocalCopy cfg c.io s).1 = ecSuccess → ∀ ts, Holds cfg s ts →
          (r.1 = ecErrorOverflow ↔ c.bytes ≠ [] ∧
            cfg.size < otherBytes c.key ts +
              (tupleHeader + c.key.length + c.bytes.length) + 1)) ∧
        (∀ (io : Io n) (key : Bytes), io.acquire = ecSuccess → 0 < key.length → key ≠ c.key →
          getvarValue cfg io key r.2 = getvarValue cfg io key s) ∧
        MapRun P calls r.2 (record c r.1 m)

end Map

/-! ## What `initvars` finds in a store -/

section Init

variable {cfg : Config} {size : Nat}

/-- The scan walks over well-formed tuples up to the closing zero. -/
theorem scanTuplesFrom_encodeTuples (pre : Bytes) {ts : List Tuple} {rest : Bytes}
    (hsize : (pre ++ (encodeTuples ts ++ 0 :: rest)).length = size) {fuel : Nat}
    (hfuel : ts.length < fuel) :
    scanTuplesFrom size (pre ++ (encodeTuples ts ++ 0 :: rest)) fuel pre.length =
      some (pre ++ encodeTuples ts).length := by
  induction ts generalizing pre fuel with
  | nil =>
      obtain ⟨fuel, rfl⟩ := Nat.exists_eq_succ_of_ne_zero (by lia : fuel ≠ 0)
      have hzero := keyLen_zero pre rest
      simp only [encodeTuples_nil, List.nil_append, List.append_nil]
      rw [scanTuplesFrom, if_pos hzero]
  | cons u ts ih =>
      obtain ⟨fuel, rfl⟩ := Nat.exists_eq_succ_of_ne_zero (by lia : fuel ≠ 0)
      have hkey := u.key_pos
      have hval := u.val_pos
      have hlen := u.length_encode
      have hrest := ih (pre ++ u.encode) (by simpa using hsize) (by simpa using hfuel)
      rw [List.append_assoc] at hrest
      simp only [encodeTuples_cons, List.append_assoc] at hsize ⊢
      have hsizes := hsize
      simp only [List.length_append, List.length_cons] at hsizes
      have hnext : pre.length + (tupleHeader + (u.key.length + u.val.length)) =
          (pre ++ u.encode).length := by
        rw [List.length_append]
        lia
      rw [scanTuplesFrom, keyLen_tuple, valLen_tuple, if_neg (by lia), if_neg (by lia),
        if_neg (by lia)]
      simp only
      rw [if_neg (by lia), hnext, hrest, List.append_assoc]

theorem storeIsValid_encodeStore {ts : List Tuple} (hfits : Fits size ts) :
    storeIsValid size (encodeStore size ts) = true := by
  have hlen := length_encodeStore hfits
  have hcount := length_le_encodeTuples ts
  have hscan : scanTuplesFrom size (encodeStore size ts) (size + 1) 0 =
      some (encodeTuples ts).length := by
    have hfuel : ts.length < size + 1 := by
      unfold Fits at hfits
      omega
    have hall : (([] : Bytes) ++ encodeStore size ts).length = size := hlen
    have hwalk := scanTuplesFrom_encodeTuples [] hall hfuel
    simpa [encodeStore] using hwalk
  unfold storeIsValid
  rw [hscan]
  simp only [List.all_eq_true, decide_eq_true_eq]
  intro b hb
  -- Behind the closing zero there is nothing but the fill.
  rw [List.take_of_length_le (by omega), encodeStore, List.drop_append] at hb
  simp only [List.drop_eq_nil_of_le (show (encodeTuples ts).length ≤ (encodeTuples ts).length + 1
    by omega), List.nil_append, Nat.add_sub_cancel_left, List.drop_succ_cons, List.drop_zero,
    List.mem_replicate] at hb
  exact hb.2

variable {P : Nvmem.Platform cfg.bufferSize}

theorem initvarsKeeps_encodeStore {ts : List Tuple} (hfits : Fits cfg.size ts) :
    InitvarsKeeps cfg P (encodeStore cfg.size ts) := by
  intro io s hacquire hcontents
  have hok : (getLocalCopy cfg io s).1 = ecSuccess := getLocalCopy_ok hacquire
  rcases getLocalCopy_cases cfg io s with ⟨-, hbuf, hcache⟩ | ⟨-, hne, -⟩
  · rw [hcontents] at hbuf
    have hinit : initvars cfg P io s =
        (ecSuccess, { (getLocalCopy cfg io s).2 with rbuf := none }) := by
      unfold initvars
      simp [hok, hbuf, storeIsValid_encodeStore hfits]
    rw [hinit]
    refine ⟨rfl, rfl, ?_⟩
    intro hnone
    rw [contents, hnone] at hcontents
    rw [contents]
    simpa [hcache] using hcontents
  · exact absurd hacquire hne

end Init

/-! ## What one call does -/

section Step

variable {cfg : Config} {P : Nvmem.Platform cfg.bufferSize} {s : State cfg.bufferSize}
  {c : SetCall cfg.bufferSize} {ts : List Tuple} {m : Bytes → Option Bytes}

/-- `getvar` on a well-formed store returns the value of the tuple with this key. -/
theorem getvarValue_eq (hholds : Holds cfg s ts) {io : Io cfg.bufferSize} {key : Bytes}
    (hacquire : io.acquire = ecSuccess) (hkey : 0 < key.length) :
    getvarValue cfg io key s = valueOf ts key := by
  have hok : (getLocalCopy cfg io s).1 = ecSuccess := getLocalCopy_ok hacquire
  have hsmall : cfg.size < 2 ^ 32 := by have := size_lt cfg; omega
  obtain ⟨hbuf, -⟩ := hholds.copy hok
  have hfound : getvar cfg io key s =
      (if (getvarIdx cfg.size (encodeStore cfg.size ts) key).2 then
          some (getvarIdx cfg.size (encodeStore cfg.size ts) key).1 else none,
        (getLocalCopy cfg io s).2) := by
    unfold getvar
    rw [if_neg (by omega)]
    simp [hok, hbuf]
  rw [← lookup_encodeStore hsmall hkey hholds.fits hholds.nodup, lookup, getvarValue, hfound]
  simp only [hbuf]
  split <;> simp_all

/-- A well-formed store represents the map of its tuples. -/
theorem Holds.represents (hholds : Holds cfg s ts)
    (hmap : ∀ key, 0 < key.length → valueOf ts key = m key) : Represents cfg P s m := by
  constructor
  · exact ⟨ts, hholds⟩
  · intro io key hacquire hkey
    rw [getvarValue_eq hholds hacquire hkey, hmap key hkey]
  · rw [hholds.contents_eq]
    exact initvarsKeeps_encodeStore hholds.fits

/-- The tuple that a valid call with a value stores. -/
def SetCall.tuple (hc : c.Valid) (hval : c.bytes ≠ []) : Tuple where
  key := c.key
  val := c.bytes
  flags := 0
  key_pos := hc.key_pos
  key_lt := hc.key_lt
  val_pos := List.length_pos_iff.mpr hval
  val_lt := hc.val_lt

theorem SetCall.value_eq (hval : c.bytes ≠ []) : c.value = .outside c.bytes := by
  unfold SetCall.bytes at hval ⊢
  unfold SetCall.value
  cases hc : c.val with
  | none => rw [hc] at hval; exact absurd rfl hval
  | some data => rfl

theorem otherBytes_eq (key : Bytes) (ts : List Tuple) :
    otherBytes key ts = (encodeTuples (dropKey key ts)).length := by
  unfold otherBytes dropKey
  induction ts.filter fun u => u.key ≠ key with
  | nil => rfl
  | cons u us ih =>
      rw [List.map_cons, List.sum_cons, ih, encodeTuples_cons, List.length_append,
        u.length_encode]

/-- The new tuple fits, in the words of the source's comment. -/
theorem fits_put_iff {t : Tuple} {size : Nat} :
    Fits size (put t ts) ↔
      otherBytes t.key ts + (tupleHeader + t.key.length + t.val.length) + 1 ≤ size := by
  rw [otherBytes_eq]
  simp [Fits, put, t.length_encode]

/-- A deletion closes the store behind the other tuples. -/
theorem setvarBuf_delete {size : Nat} {key : Bytes} (hsmall : size < 2 ^ 32) (hfits : Fits size ts)
    (hkey : 0 < key.length) (hnodup : (ts.map Tuple.key).Nodup) {val : Value}
    (hval : val.length = 0) :
    setvarBuf size (encodeStore size ts) key val =
      (ecSuccess, encodeStore size (dropKey key ts)) := by
  obtain ⟨⟨rest, hbuf⟩, hlen, hindex⟩ := removeTuple_room hsmall hfits hkey hnodup
  unfold setvarBuf
  rw [if_pos hval, hindex, hbuf,
    markEnd_encodeTuples rest (fits_dropKey hfits) (by rw [← hbuf]; exact hlen)]

/-- **What `setvar` does to a well-formed store.**  Without memory for a RAM copy, nothing
but a return code.  Otherwise the tuple with its key goes, and a new one comes in at the
end if there is a value and it fits. -/
theorem setvar_cases (hholds : Holds cfg s ts) (hc : c.Valid) :
    ((getLocalCopy cfg c.io s).1 ≠ ecSuccess ∧ (setvar cfg c.io c.key c.value s).1 ≠ ecSuccess ∧
        (setvar cfg c.io c.key c.value s).1 ≠ ecErrorOverflow ∧
        Holds cfg (setvar cfg c.io c.key c.value s).2 ts) ∨
      (c.bytes = [] ∧ (setvar cfg c.io c.key c.value s).1 = ecSuccess ∧
        Holds cfg (setvar cfg c.io c.key c.value s).2 (dropKey c.key ts)) ∨
      (∃ t : Tuple, t.key = c.key ∧ t.val = c.bytes ∧ c.bytes ≠ [] ∧
        ((Fits cfg.size (put t ts) ∧ (setvar cfg c.io c.key c.value s).1 = ecSuccess ∧
            Holds cfg (setvar cfg c.io c.key c.value s).2 (put t ts)) ∨
          (¬ Fits cfg.size (put t ts) ∧
            (setvar cfg c.io c.key c.value s).1 = ecErrorOverflow ∧
            Holds cfg (setvar cfg c.io c.key c.value s).2 (dropKey c.key ts)))) := by
  have hkey := hc.key_pos
  by_cases hcopy : (getLocalCopy cfg c.io s).1 = ecSuccess
  · right
    by_cases hval : c.bytes = []
    · left
      have hsmall : cfg.size < 2 ^ 32 := by have := size_lt cfg; omega
      have hempty : c.value.length = 0 := by
        unfold SetCall.value
        unfold SetCall.bytes at hval
        cases hv : c.val with
        | none => rfl
        | some data =>
            rw [hv] at hval
            simpa [Value.length] using hval
      obtain ⟨hbuf, -⟩ := hholds.copy hcopy
      have hset : setvar cfg c.io c.key c.value s = (ecSuccess, { (getLocalCopy cfg c.io s).2 with
          rbuf := some (encodeStore cfg.size (dropKey c.key ts)) }) := by
        unfold setvar
        rw [if_neg (by omega)]
        simp [hcopy, hbuf, setvarBuf_delete hsmall hholds.fits hkey hholds.nodup hempty]
      rw [hset]
      exact ⟨hval, rfl, rfl, fits_dropKey hholds.fits, nodup_dropKey hholds.nodup⟩
    · right
      refine ⟨SetCall.tuple hc hval, rfl, rfl, hval, ?_⟩
      rw [SetCall.value_eq hval]
      exact (setvar_holds (t := SetCall.tuple hc hval) hholds rfl hcopy).2.2
  · left
    rcases getLocalCopy_cases cfg c.io s with ⟨hok, -, -⟩ | ⟨-, -, heq⟩
    · exact absurd hok hcopy
    · have hset : setvar cfg c.io c.key c.value s = (c.io.acquire, s) := by
        rw [heq] at hcopy
        unfold setvar
        rw [if_neg (by omega), heq]
        simp only at hcopy
        simp [hcopy]
      rw [heq] at hcopy
      rw [hset]
      refine ⟨?_, hcopy, hc.acquire, hholds⟩
      rw [heq]
      exact hcopy

/-- `ecErrorOverflow` is not `ecSuccess`. -/
theorem ecErrorOverflow_ne : ecErrorOverflow ≠ ecSuccess := by decide

/-- **Step lemma.**  After a call the tuples hold the recorded map. -/
theorem setvar_record (hholds : Holds cfg s ts) (hc : c.Valid)
    (hmap : ∀ key, 0 < key.length → valueOf ts key = m key) :
    ∃ ts', Holds cfg (setvar cfg c.io c.key c.value s).2 ts' ∧
      ∀ key, 0 < key.length →
        valueOf ts' key = record c (setvar cfg c.io c.key c.value s).1 m key := by
  -- Two lookups decide every case: the key of the call, and any other key.
  have hupdate : ∀ (ts' : List Tuple) (v : Option Bytes), valueOf ts' c.key = v →
      (∀ key, key ≠ c.key → valueOf ts' key = valueOf ts key) →
      ∀ key, 0 < key.length → valueOf ts' key = Function.update m c.key v key := by
    intro ts' v hself hother key hkey
    by_cases heq : key = c.key
    · rw [heq, Function.update_self, hself]
    · rw [Function.update_of_ne heq, hother key heq, hmap key hkey]
  rcases setvar_cases hholds hc with ⟨-, hne, hno, hsame⟩ | ⟨hval, hok, hdrop⟩ |
    ⟨t, hkey, hbytes, hval, ⟨-, hok, hput⟩ | ⟨-, hover, hdrop⟩⟩
  · refine ⟨ts, hsame, ?_⟩
    rw [record, if_neg hne, if_neg hno]
    exact hmap
  · refine ⟨_, hdrop, ?_⟩
    rw [record, if_pos hok, if_pos hval]
    exact hupdate _ _ valueOf_dropKey_self fun key => valueOf_dropKey_ne
  · refine ⟨_, hput, ?_⟩
    rw [record, if_pos hok, if_neg hval]
    apply hupdate
    · rw [← hkey, valueOf_put_self, hbytes]
    · intro key hne
      exact valueOf_put_ne (by rw [hkey]; exact hne)
  · refine ⟨_, hdrop, ?_⟩
    rw [record, hover, if_neg ecErrorOverflow_ne, if_pos rfl]
    exact hupdate _ _ valueOf_dropKey_self fun key => valueOf_dropKey_ne

/-- When a call overflows. -/
theorem setvar_overflow_iff (hholds : Holds cfg s ts) (hc : c.Valid)
    (hcopy : (getLocalCopy cfg c.io s).1 = ecSuccess) :
    (setvar cfg c.io c.key c.value s).1 = ecErrorOverflow ↔ c.bytes ≠ [] ∧
      cfg.size < otherBytes c.key ts + (tupleHeader + c.key.length + c.bytes.length) + 1 := by
  rcases setvar_cases hholds hc with ⟨hne, -, -, -⟩ | ⟨hval, hok, -⟩ |
    ⟨t, hkey, hbytes, hval, ⟨hfits, hok, -⟩ | ⟨hfits, hover, -⟩⟩
  · exact absurd hcopy hne
  · rw [hok]
    constructor
    · intro h
      exact absurd h.symm ecErrorOverflow_ne
    · intro h
      exact absurd hval h.1
  · rw [fits_put_iff, hkey, hbytes] at hfits
    rw [hok]
    constructor
    · intro h
      exact absurd h.symm ecErrorOverflow_ne
    · intro h
      omega
  · rw [fits_put_iff, hkey, hbytes] at hfits
    rw [hover]
    exact ⟨fun _ => ⟨hval, by omega⟩, fun _ => rfl⟩

/-- **Run lemma.** -/
theorem mapRun_of_holds {calls : List (SetCall cfg.bufferSize)} (hcalls : ∀ c ∈ calls, c.Valid)
    (hholds : Holds cfg s ts) (hmap : ∀ key, 0 < key.length → valueOf ts key = m key) :
    MapRun cfg P calls s m := by
  induction calls generalizing s ts m with
  | nil => exact hholds.represents hmap
  | cons c calls ih =>
      have hc : c.Valid := hcalls c (by simp)
      obtain ⟨ts', hholds', hmap'⟩ := setvar_record hholds hc hmap
      refine ⟨hholds.represents hmap, ?_, ?_, ?_⟩
      · intro hcopy ts₀ hts₀
        exact setvar_overflow_iff hts₀ hc hcopy
      · intro io key hacquire hkey hne
        rw [getvarValue_eq hholds' hacquire hkey, getvarValue_eq hholds hacquire hkey,
          hmap' key hkey, hmap key hkey, record]
        split
        · rw [Function.update_of_ne hne]
        · split
          · rw [Function.update_of_ne hne]
          · rfl
      · exact ih (fun c hmem => hcalls c (by simp [hmem])) hholds' hmap'

/-! ## From the reset on -/

/-- `initvars` resets what it cannot read to an empty store. -/
theorem initvars_reset (hP : P.Involutive) {io : Io cfg.bufferSize}
    (hlen : (contents cfg s).length = cfg.size)
    (hreset : storeIsValid cfg.size (contents cfg s) = false)
    (hok : (initvars cfg P io s).1 = ecSuccess) : Holds cfg (initvars cfg P io s).2 [] := by
  have hpos : 0 < cfg.size := by
    -- An empty region would pass the checks.
    by_contra hzero
    have hempty : cfg.size = 0 := by omega
    have hnil : contents cfg s = [] := List.length_eq_zero_iff.mp (by omega)
    rw [hempty, hnil] at hreset
    exact absurd hreset (by decide)
  have hfits : Fits cfg.size [] := by
    show 0 + 1 ≤ cfg.size
    omega
  rcases getLocalCopy_cases cfg io s with ⟨hcopy, hbuf, -⟩ | ⟨-, hne, heq⟩
  · have hinit : initvars cfg P io s = writevars cfg P io { (getLocalCopy cfg io s).2 with
        rbuf := some (encodeStore cfg.size []) } := by
      have hmark := markEnd_encodeTuples (contents cfg s) hfits (by simpa using hlen)
      unfold initvars
      simp only [encodeTuples_nil, List.nil_append, List.length_nil] at hmark
      simp [hcopy, hbuf, hreset, hmark]
    rw [hinit] at hok ⊢
    exact writevars_holds hP hfits List.nodup_nil rfl hok
  · have hinit : (initvars cfg P io s).1 = io.acquire := by
      unfold initvars
      simp [heq, hne]
    exact absurd (hinit.symm.trans hok) hne

/-- **The store is a finite map.**  On a store that `initvars` has reset to empty, every
sequence of `setvar` calls runs as updates of a map that starts empty. -/
theorem mapRun_initvars (cfg : Config) (P : Nvmem.Platform cfg.bufferSize) (hP : P.Involutive)
    (io : Io cfg.bufferSize) (s : State cfg.bufferSize)
    (hlen : (contents cfg s).length = cfg.size)
    (hreset : storeIsValid cfg.size (contents cfg s) = false)
    (hok : (initvars cfg P io s).1 = ecSuccess)
    (calls : List (SetCall cfg.bufferSize)) (hcalls : ∀ c ∈ calls, c.Valid) :
    MapRun cfg P calls (initvars cfg P io s).2 fun _ => none :=
  mapRun_of_holds hcalls (initvars_reset hP hlen hreset hok) fun _ _ => rfl

end Step

/-! ## A region of sixteen bytes -/

def smallConfig : Config where
  userSizes := [16]
  bufferSize := 16
  sizes_fit := by decide
  partition_lt := by decide
  user := 0
  size := 16
  user_size := rfl

/-- The only task, memory to spare, and flash operations that succeed. -/
def smallIo : Io 16 where
  task := 0
  acquire := ecSuccess
  save := Nvmem.SaveOutcome.ok 16

/-- A device that has booted from an erased flash. -/
def erasedDevice : State 16 where
  nvmem := (Nvmem.init (Nvmem.xorPlatform 16) 0 (Nvmem.InitOutcome.ok 16)
    (Nvmem.powerOn fun _ => Nvmem.Partition.erased 16)).2
  rbuf := none

/-- Two variables, a third one that does not fit, and a deletion. -/
def smallCalls : List (SetCall 16) :=
  [⟨smallIo, [0x41], some [0x61, 0x62]⟩, ⟨smallIo, [0x42], some [0x63, 0x64, 0x65]⟩,
    ⟨smallIo, [0x41], some [0x66, 0x67, 0x68, 0x69, 0x6a]⟩, ⟨smallIo, [0x42], none⟩]

theorem mapRun_smallCalls :
    storeIsValid smallConfig.size (contents smallConfig erasedDevice) = false ∧
      MapRun smallConfig (Nvmem.xorPlatform 16) smallCalls
        (initvars smallConfig (Nvmem.xorPlatform 16) smallIo erasedDevice).2 fun _ => none := by
  have hboot : (contents smallConfig erasedDevice).length = smallConfig.size ∧
      storeIsValid smallConfig.size (contents smallConfig erasedDevice) = false ∧
      (initvars smallConfig (Nvmem.xorPlatform 16) smallIo erasedDevice).1 = ecSuccess := by
    decide +kernel
  have hcalls : ∀ c ∈ smallCalls, c.Valid := by
    intro c hc
    simp only [smallCalls, List.mem_cons, List.not_mem_nil, or_false] at hc
    rcases hc with rfl | rfl | rfl | rfl
    all_goals exact ⟨by decide, by decide, by decide, by decide⟩
  exact ⟨hboot.2.1, mapRun_initvars smallConfig (Nvmem.xorPlatform 16)
    (Nvmem.xorPlatform_involutive 16) smallIo erasedDevice hboot.1 hboot.2.1 hboot.2.2 smallCalls
    hcalls⟩

end Vars
end CrosEc
