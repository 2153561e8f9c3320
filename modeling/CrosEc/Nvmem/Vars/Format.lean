import CrosEc.Nvmem.Vars.FiniteMap

/-!
# What `initvars` accepts

`initvars` parses the region byte by byte.  `Scans` are the runs of its loop over the tuples,
with the bytes that they read; a run exists from every index in the region and stays in it
(`exists_scans`).  A run that finds the end of the tuples has walked over encoded tuples
(`Scans.tuples`), so the checks accept the encoded stores and nothing else
(`storeIsValid_iff`).
-/

namespace CrosEc
namespace Vars

open Lib

variable {cfg : Config} {size : Nat} {buf : Bytes}

/-! ## The loops -/

/-- The runs of the first loop of `initvars` from index `i` on, one constructor for each way
through a round: the indices that are read, and the index of the closing zero, or `none` where
the loop jumps to `fixit`. -/
inductive Scans (size : Nat) (buf : Bytes) : Nat → List Nat → Option Nat → Prop
  | done (i : Nat) (hzero : keyLen buf i = 0) : Scans size buf i [i] (some i)
  | cut (i : Nat) (hkey : keyLen buf i ≠ 0) (hcut : size < i + tupleHeader) :
      Scans size buf i [i] none
  | noValue (i : Nat) (hkey : keyLen buf i ≠ 0) (hroom : i + tupleHeader ≤ size)
      (hval : valLen buf i = 0) : Scans size buf i [i, i + 1] none
  | tooLong (i : Nat) (hkey : keyLen buf i ≠ 0) (hroom : i + tupleHeader ≤ size)
      (hval : valLen buf i ≠ 0)
      (hlong : size ≤ i + (tupleHeader + (keyLen buf i + valLen buf i))) :
      Scans size buf i [i, i + 1, i, i + 1] none
  | next (i : Nat) (reads : List Nat) (r : Option Nat) (hkey : keyLen buf i ≠ 0)
      (hroom : i + tupleHeader ≤ size) (hval : valLen buf i ≠ 0)
      (hfits : i + (tupleHeader + (keyLen buf i + valLen buf i)) < size)
      (hrest : Scans size buf (i + (tupleHeader + (keyLen buf i + valLen buf i))) reads r) :
      Scans size buf i (i :: (i + 1) :: i :: (i + 1) :: reads) r

/-- What the second loop of `initvars` reads, with `n` bytes left from index `i` on. -/
def fillReads (buf : Bytes) : Nat → Nat → List Nat
  | 0, _ => []
  | n + 1, i => i :: if buf.getD i 0 = 0xff then fillReads buf n (i + 1) else []

/-- What `initvars` reads of the RAM copy. -/
inductive InitvarsReads (size : Nat) (buf : Bytes) : List Nat → Prop
  | fixit (reads : List Nat) (h : Scans size buf 0 reads none) : InitvarsReads size buf reads
  | checkFill (reads : List Nat) (i : Nat) (h : Scans size buf 0 reads (some i)) :
      InitvarsReads size buf (reads ++ fillReads buf (size - (i + 1)) (i + 1))

theorem fillReads_lt {n i : Nat} (h : i + n ≤ size) : ∀ a ∈ fillReads buf n i, a < size := by
  induction n generalizing i with
  | zero => simp [fillReads]
  | succ n ih =>
      intro a ha
      rw [fillReads, List.mem_cons] at ha
      rcases ha with rfl | ha
      · omega
      · split at ha
        · exact ih (by omega) a ha
        · cases ha

/-- **The scan comes to an end**, inside the region. -/
theorem exists_scans (buf : Bytes) {fuel i : Nat} (hi : i < size) (hfuel : size ≤ fuel + i) :
    ∃ reads, Scans size buf i reads (scanTuplesFrom size buf fuel i) ∧ ∀ a ∈ reads, a < size := by
  induction fuel generalizing i with
  | zero => lia
  | succ fuel ih =>
      rw [scanTuplesFrom]
      split
      · exact ⟨[i], .done i ‹_›, by simpa using hi⟩
      · rename_i hkey
        split
        · exact ⟨[i], .cut i hkey ‹_›, by simpa using hi⟩
        · rename_i hroom
          have hnext : i + 1 < size := by
            unfold tupleHeader at hroom
            lia
          have hheader : ∀ a ∈ [i, i + 1, i, i + 1], a < size := by
            intro a ha
            simp only [List.mem_cons, List.not_mem_nil, or_false] at ha
            lia
          split
          · exact ⟨_, .noValue i hkey (by lia) ‹_›, fun a ha => hheader a (by simp at ha ⊢; lia)⟩
          · rename_i hval
            dsimp only
            split
            · exact ⟨_, .tooLong i hkey (by lia) hval ‹_›, hheader⟩
            · rename_i hlong
              have hfuel' : size ≤ fuel + (i + (tupleHeader + (keyLen buf i + valLen buf i))) := by
                lia
              obtain ⟨reads, hscans, hlt⟩ := ih (by lia) hfuel'
              refine ⟨_, .next i reads _ hkey (by lia) hval (by lia) hscans, fun a ha => ?_⟩
              rcases List.mem_append.mp (show a ∈ [i, i + 1, i, i + 1] ++ reads from ha) with ha | ha
              · exact hheader a ha
              · exact hlt a ha

/-! ## From the checks to the tuples -/

theorem exists_header {rest : Bytes} (h : tupleHeader ≤ rest.length) :
    ∃ k v flags body, rest = k :: v :: flags :: body := by
  rcases rest with _ | ⟨k, _ | ⟨v, _ | ⟨flags, body⟩⟩⟩
  · simp [tupleHeader] at h
  · simp [tupleHeader] at h
  · simp [tupleHeader] at h
  · exact ⟨k, v, flags, body, rfl⟩

/-- Bytes with the lengths of a tuple in front are a tuple. -/
theorem exists_tuple {pre rest : Bytes} (hkey : keyLen (pre ++ rest) pre.length ≠ 0)
    (hval : valLen (pre ++ rest) pre.length ≠ 0)
    (hfits : tupleHeader + (keyLen (pre ++ rest) pre.length + valLen (pre ++ rest) pre.length) ≤
      rest.length) :
    ∃ (t : Tuple) (rest' : Bytes), rest = t.encode ++ rest' ∧
      t.encode.length =
        tupleHeader + (keyLen (pre ++ rest) pre.length + valLen (pre ++ rest) pre.length) := by
  have hkeyAt := getD_append_add pre rest 0
  have hvalAt := getD_append_add pre rest 1
  rw [Nat.add_zero] at hkeyAt
  unfold keyLen valLen at *
  rw [hkeyAt, hvalAt] at hfits
  rw [hkeyAt] at hkey ⊢
  rw [hvalAt] at hval ⊢
  obtain ⟨k, v, flags, body, rfl⟩ := exists_header (by lia : tupleHeader ≤ rest.length)
  simp only [List.getD_cons_zero, List.getD_cons_succ, List.length_cons, tupleHeader]
    at hkey hval hfits ⊢
  have hk := k.toNat_lt
  have hv := v.toNat_lt
  have hkeyLen : (body.take k.toNat).length = k.toNat := by
    rw [List.length_take]
    lia
  have hvalLen : ((body.drop k.toNat).take v.toNat).length = v.toNat := by
    rw [List.length_take, List.length_drop]
    lia
  refine ⟨⟨body.take k.toNat, (body.drop k.toNat).take v.toNat, flags, by lia, by lia,
    by lia, by lia⟩, (body.drop k.toNat).drop v.toNat, ?_, ?_⟩
  · simp only [Tuple.encode, hkeyLen, hvalLen, UInt8.ofNat_toNat, List.append_assoc,
      List.take_append_drop, List.cons_append, List.nil_append]
  · rw [Tuple.length_encode]
    show 3 + (body.take k.toNat).length + ((body.drop k.toNat).take v.toNat).length = _
    lia

/-- A run that finds the end has walked over tuples. -/
theorem Scans.tuples {reads : List Nat} {i e : Nat} (h : Scans size buf i reads (some e))
    (hi : i < size) {pre rest : Bytes} (hbuf : buf = pre ++ rest) (hpre : pre.length = i)
    (hlen : buf.length = size) :
    ∃ (ts : List Tuple) (tail : Bytes), rest = encodeTuples ts ++ 0 :: tail ∧
      e = (pre ++ encodeTuples ts).length := by
  generalize hr : some e = r at h
  induction h generalizing pre rest with
  | done i hzero =>
      obtain rfl := Option.some.inj hr
      have hget := getD_append_add pre rest 0
      rw [hbuf, List.length_append] at hlen
      rw [keyLen, hbuf, ← hpre, ← Nat.add_zero pre.length, hget] at hzero
      cases rest with
      | nil =>
          rw [List.length_nil] at hlen
          omega
      | cons b tail =>
          have hb : b = 0 := UInt8.toNat_inj.mp (by simpa using hzero)
          exact ⟨[], tail, by rw [hb]; rfl, by simpa using hpre.symm⟩
  | cut => cases hr
  | noValue => cases hr
  | tooLong => cases hr
  | next i reads r hkey hroom hval hfits hrest ih =>
      subst hbuf hpre
      rw [List.length_append] at hlen
      obtain ⟨t, rest', hrest', hlent⟩ := exists_tuple hkey hval (by omega)
      obtain ⟨ts, tail, htail, he⟩ := ih hfits
        (by rw [hrest', List.append_assoc] : _ = (pre ++ t.encode) ++ rest')
        (by rw [List.length_append, hlent]) hr
      refine ⟨t :: ts, tail, ?_, ?_⟩
      · rw [hrest', htail, encodeTuples_cons, List.append_assoc]
      · rw [he, encodeTuples_cons, List.append_assoc]

/-- **The checks of `initvars` accept the encoded stores**, and nothing else. -/
theorem storeIsValid_iff (hsize : 0 < size) (hlen : buf.length = size) :
    storeIsValid size buf = true ↔ ∃ ts, Fits size ts ∧ buf = encodeStore size ts := by
  constructor
  · intro hvalid
    obtain ⟨reads, hscans, -⟩ := exists_scans buf hsize (by lia : size ≤ size + 1 + 0)
    unfold storeIsValid at hvalid
    split at hvalid
    · cases hvalid
    · rename_i e hscan
      rw [hscan] at hscans
      obtain ⟨ts, tail, rfl, he⟩ := hscans.tuples hsize (List.nil_append buf).symm rfl hlen
      rw [List.nil_append] at he
      have hdrop : (encodeTuples ts ++ 0 :: tail).drop (e + 1) = tail := by
        rw [he, List.drop_append, List.drop_eq_nil_of_le (by lia), Nat.add_sub_cancel_left]
        rfl
      rw [List.take_of_length_le (by lia), hdrop, List.all_eq_true] at hvalid
      have htail : tail = List.replicate tail.length 0xff :=
        List.eq_replicate_of_mem fun b hb => of_decide_eq_true (hvalid b hb)
      rw [List.length_append, List.length_cons] at hlen
      refine ⟨ts, by unfold Fits; lia, ?_⟩
      rw [encodeStore, (by lia : size - (encodeTuples ts).length - 1 = tail.length), ← htail]
  · rintro ⟨ts, hfits, rfl⟩
    exact storeIsValid_encodeStore hfits

/-! ## The repair -/

section Repair

variable {P : Nvmem.Platform cfg.bufferSize} {io : Io cfg.bufferSize} {s : State cfg.bufferSize}

/-- The RAM copy is what the region holds next, whether or not it could be written back. -/
theorem writevars_keeps_contents (hP : P.Involutive) {buf : Bytes} (hbuf : s.rbuf = some buf)
    (hlen : buf.length = cfg.size) : contents cfg (writevars cfg P io s).2 = buf := by
  by_cases hok : (writevars cfg P io s).1 = ecSuccess
  · exact (writevars_contents hP hbuf hlen hok).1
  · have hkept : (writevars cfg P io s).2.rbuf = some buf := by
      unfold writevars at hok ⊢
      rw [hbuf] at hok ⊢
      dsimp only at hok ⊢
      split
      · rfl
      · rename_i hwritten
        rw [if_neg hwritten] at hok
        split
        · rfl
        · rename_i hcommitted
          exact absurd rfl (by rwa [if_neg hcommitted] at hok)
    rw [contents, hkept]

/-- What `initvars` does once it has a RAM copy. -/
theorem initvars_cases (hcopy : (getLocalCopy cfg io s).1 = ecSuccess) (hsize : 0 < cfg.size)
    (hlen : (contents cfg s).length = cfg.size) :
    initvars cfg P io s =
      if storeIsValid cfg.size (contents cfg s) then
        (ecSuccess, { (getLocalCopy cfg io s).2 with rbuf := none })
      else
        writevars cfg P io
          { (getLocalCopy cfg io s).2 with rbuf := some (encodeStore cfg.size []) } := by
  have hfits : Fits cfg.size [] := hsize
  have hmark := markEnd_encodeTuples (contents cfg s) hfits (by simpa using hlen)
  rw [encodeTuples_nil, List.nil_append, List.length_nil] at hmark
  rcases getLocalCopy_cases cfg io s with ⟨-, hbuf, -⟩ | ⟨-, hne, heq⟩
  · unfold initvars
    simp only [hcopy, hbuf, hmark, ne_eq, not_true_eq_false, if_false]
  · rw [heq] at hcopy
    exact absurd hcopy hne

/-- The RAM copy is given back, and the region still holds its bytes. -/
theorem contents_released (hfirst : s.rbuf = none) (hcopy : (getLocalCopy cfg io s).1 = ecSuccess) :
    contents cfg { (getLocalCopy cfg io s).2 with rbuf := none } = contents cfg s := by
  rcases getLocalCopy_cases cfg io s with ⟨-, -, hcache⟩ | ⟨-, hne, heq⟩
  · unfold contents
    rw [hfirst]
    dsimp only
    rw [hcache]
  · rw [heq] at hcopy
    exact absurd hcopy hne

theorem length_contents (hfirst : s.rbuf = none) : (contents cfg s).length = cfg.size := by
  unfold contents
  rw [hfirst]
  rw [Nvmem.Partition.load, List.length_map, List.length_range, toNat_size]

theorem exists_initvarsReads (hsize : 0 < size) (buf : Bytes) :
    ∃ reads, InitvarsReads size buf reads ∧ ∀ a ∈ reads, a < size := by
  obtain ⟨reads, hscans, hlt⟩ := exists_scans buf hsize (by omega : size ≤ size + 1 + 0)
  cases hscan : scanTuplesFrom size buf (size + 1) 0 with
  | none =>
      rw [hscan] at hscans
      exact ⟨reads, .fixit reads hscans, hlt⟩
  | some e =>
      rw [hscan] at hscans
      refine ⟨_, .checkFill reads e hscans, fun a ha => ?_⟩
      rcases List.mem_append.mp ha with ha | ha
      · exact hlt a ha
      · by_cases he : e + 1 ≤ size
        · exact fillReads_lt (by omega) a ha
        · rw [Nat.sub_eq_zero_of_le (by omega), fillReads] at ha
          cases ha

end Repair

/-- **`initvars` accepts exactly the store format.**  Called first, with memory for its copy, it
reads bytes of the region only and comes to an end.  It leaves the region as it is if that holds
tuples, a zero byte and `0xff` up to the end; else the region is replaced by the empty store,
which is written back. -/
theorem initvars_format (cfg : Config) (P : Nvmem.Platform cfg.bufferSize) (hP : P.Involutive)
    (io : Io cfg.bufferSize) (s : State cfg.bufferSize) (hsize : 0 < cfg.size)
    (hfirst : s.rbuf = none) (hacquire : io.acquire = ecSuccess) :
    (∃ reads, InitvarsReads cfg.size (contents cfg s) reads ∧ ∀ a ∈ reads, a < cfg.size) ∧
      (contents cfg (initvars cfg P io s).2 = contents cfg s ↔
        ∃ ts, Fits cfg.size ts ∧ contents cfg s = encodeStore cfg.size ts) ∧
      ((¬ ∃ ts, Fits cfg.size ts ∧ contents cfg s = encodeStore cfg.size ts) →
        contents cfg (initvars cfg P io s).2 = encodeStore cfg.size [] ∧
          initvars cfg P io s = writevars cfg P io
            { (getLocalCopy cfg io s).2 with rbuf := some (encodeStore cfg.size []) }) ∧
      ((initvars cfg P io s).1 = ecSuccess → (initvars cfg P io s).2.rbuf = none) := by
  have hcopy : (getLocalCopy cfg io s).1 = ecSuccess := getLocalCopy_ok hacquire
  have hlen : (contents cfg s).length = cfg.size := length_contents hfirst
  have hvalid := storeIsValid_iff hsize hlen
  have hempty : (encodeStore cfg.size []).length = cfg.size := length_encodeStore hsize
  refine ⟨exists_initvarsReads hsize _, ?_⟩
  rw [initvars_cases hcopy hsize hlen, ← hvalid]
  by_cases hok : storeIsValid cfg.size (contents cfg s) = true
  · rw [if_pos hok]
    exact ⟨iff_of_true (contents_released hfirst hcopy) hok, fun hbad => absurd hok hbad,
      fun _ => rfl⟩
  · rw [if_neg hok]
    set copy := { (getLocalCopy cfg io s).2 with rbuf := some (encodeStore cfg.size []) } with hset
    have hreset : contents cfg (writevars cfg P io copy).2 = encodeStore cfg.size [] :=
      writevars_keeps_contents hP rfl hempty
    refine ⟨iff_of_false (fun hsame => hok ?_) hok, fun _ => ⟨hreset, rfl⟩, fun hback => ?_⟩
    · rw [hvalid, ← hsame, hreset]
      exact ⟨[], hsize, rfl⟩
    · exact (writevars_contents hP rfl hempty hback).2

/-- A device that has booted from an erased flash, where all bytes are `0xff`. -/
theorem initvars_format_erasedDevice :
    0 < smallConfig.size ∧ erasedDevice.rbuf = none ∧ smallIo.acquire = ecSuccess ∧
      (∃ reads, InitvarsReads smallConfig.size (contents smallConfig erasedDevice) reads ∧
        ∀ a ∈ reads, a < smallConfig.size) ∧
      contents smallConfig (initvars smallConfig (Nvmem.xorPlatform 16) smallIo erasedDevice).2 =
        encodeStore smallConfig.size [] := by
  have hformat := initvars_format smallConfig (Nvmem.xorPlatform 16)
    (Nvmem.xorPlatform_involutive 16) smallIo erasedDevice (by decide) rfl rfl
  have hbad : storeIsValid smallConfig.size (contents smallConfig erasedDevice) = false := by
    decide +kernel
  refine ⟨by decide, rfl, rfl, hformat.1, (hformat.2.2.1 ?_).1⟩
  rintro ⟨ts, hfits, hstore⟩
  have hgood := congrArg (storeIsValid smallConfig.size) hstore
  rw [storeIsValid_encodeStore hfits] at hgood
  exact absurd (hbad.symm.trans hgood) (by decide)

end Vars
end CrosEc
