import CrosEc.Nvmem.Vars.Format

/-!
# Where the walks of the variable store look

The lists below are the indices of the RAM copy that a function reads or writes.  All of them
are in the region, but for the comparison of a key (`matchKeyAtReads`): the room it computes
is that behind the start of the tuple, and the key starts `tupleHeader` bytes further on.  So a
lookup stays in the region exactly if a key of this length, in the last tuple it looks at, would
(`KeyRoom`).
-/

namespace CrosEc
namespace Vars

open Lib

variable {size : Nat} {buf key : Bytes}

/-- All of the indices are in the region. -/
def InBounds (size : Nat) (accesses : List Nat) : Prop := ∀ a ∈ accesses, a < size

@[simp] theorem inBounds_nil : InBounds size [] := by simp [InBounds]

@[simp] theorem inBounds_cons {a : Nat} {l : List Nat} :
    InBounds size (a :: l) ↔ a < size ∧ InBounds size l := by simp [InBounds]

@[simp] theorem inBounds_append {l m : List Nat} :
    InBounds size (l ++ m) ↔ InBounds size l ∧ InBounds size m := by
  simp [InBounds, or_imp, forall_and]

@[simp] theorem inBounds_range' {start n : Nat} :
    InBounds size (List.range' start n) ↔ n = 0 ∨ start + n ≤ size := by
  constructor
  · intro h
    by_cases hn : n = 0
    · exact Or.inl hn
    · have hlast := h (start + (n - 1)) (List.mem_range'_1.mpr (by lia))
      lia
  · intro h a ha
    have hmem := List.mem_range'_1.mp ha
    lia

/-! ## What the functions access -/

/-- `match_key_at`: the length of the tuple's key, and as much of its data as is compared. -/
def matchKeyAtReads (size idx : Nat) (key : Bytes) : List Nat :=
  idx :: List.range' (idx + tupleHeader) (min key.length ((2 ^ 32 + size - idx - 1) % 2 ^ 32))

/-- `next_tuple` -/
def nextTupleReads (buf : Bytes) (idx : Nat) : List Nat :=
  if keyLen buf idx = 0 then [idx] else [idx, idx, idx + 1, (nextTuple buf idx).1]

/-- The loop of `getvar_idx`. -/
def getvarIdxReads (size : Nat) (buf key : Bytes) : Nat → Nat → List Nat
  | 0, _ => []
  | fuel + 1, i =>
      matchKeyAtReads size i key ++
        if matchKeyAt size buf i key then []
        else
          let next := nextTuple buf i
          nextTupleReads buf i ++ if next.2 then getvarIdxReads size buf key fuel next.1 else []

/-- `while (next_tuple(&i));` -/
def skipTuplesReads (buf : Bytes) : Nat → Nat → List Nat
  | 0, _ => []
  | fuel + 1, i =>
      let next := nextTuple buf i
      nextTupleReads buf i ++ if next.2 then skipTuplesReads buf fuel next.1 else []

/-- `memmove(rbuf + dst, rbuf + src, len)` -/
def memmoveAccesses (dst src len : Nat) : List Nat := List.range' src len ++ List.range' dst len

/-- The first half of `setvar`, behind `getvar_idx`. -/
def removeTupleAccesses (size : Nat) (buf key : Bytes) : List Nat :=
  let found := getvarIdx size buf key
  if found.2 then
    let next := nextTuple buf found.1
    nextTupleReads buf found.1 ++
      if next.2 then
        let moved := moveWithin buf found.1 next.1 (size - next.1)
        memmoveAccesses found.1 next.1 (size - next.1) ++
          skipTuplesReads moved (moved.length + 1) found.1
      else []
  else []

/-- The end mark at `i`, and the fill behind it. -/
def markEndWrites (size i : Nat) : List Nat := i :: List.range' (i + 1) (size - (i + 1))

/-- `memcpy` of the value to offset `dst`. -/
def copyValueAccesses (dst : Nat) : Value → List Nat
  | .null => []
  | .outside data => List.range' dst data.length
  | .inside off len => List.range' off len ++ List.range' dst len

/-- The second half of `setvar`, with the new tuple to go to index `i`. -/
def storeTupleAccesses (size : Nat) (buf key : Bytes) (i : Nat) (val : Value) : List Nat :=
  if val.length = 0 then markEndWrites size i
  else if size < i + tupleHeader + key.length + val.length + 1 then markEndWrites size i
  else
    let header := [UInt8.ofNat key.length, UInt8.ofNat val.length, 0]
    let keyed := writeAt (writeAt buf i header) (i + tupleHeader) key
    let written := copyValue keyed (i + tupleHeader + key.length) val
    List.range' i tupleHeader ++ List.range' (i + tupleHeader) key.length ++
      copyValueAccesses (i + tupleHeader + key.length) val ++ nextTupleReads written i ++
      markEndWrites size (nextTuple written i).1

/-- What `getvar` reads of the RAM copy. -/
def getvarReads (size : Nat) (buf key : Bytes) : List Nat :=
  getvarIdxReads size buf key (buf.length + 1) 0

/-- What `setvar` reads and writes of the RAM copy. -/
def setvarAccesses (size : Nat) (buf key : Bytes) (val : Value) : List Nat :=
  let removed := removeTuple size buf key
  getvarReads size buf key ++ removeTupleAccesses size buf key ++
    storeTupleAccesses size removed.1 key removed.2 val

/-! ## The walks over tuples -/

theorem length_encode_le {ts : List Tuple} {t : Tuple} (h : t ∈ ts) :
    t.encode.length ≤ (encodeTuples ts).length := by
  obtain ⟨before, after, rfl⟩ := List.append_of_mem h
  simp only [encodeTuples_append, encodeTuples_cons, List.length_append]
  omega

theorem inBounds_matchKeyAtReads (hsmall : size < 2 ^ 32) {idx : Nat} (hidx : idx < size)
    (hkey : 0 < key.length) :
    InBounds size (matchKeyAtReads size idx key) ↔
      size ≤ idx + 1 ∨ idx + tupleHeader + key.length ≤ size := by
  have hroom : (2 ^ 32 + size - idx - 1) % 2 ^ 32 = size - idx - 1 := by lia
  unfold matchKeyAtReads
  rw [hroom, inBounds_cons, inBounds_range', tupleHeader]
  lia

/-- Behind a tuple there is another one or the closing zero, in the region. -/
theorem inBounds_nextTupleReads {pre rest : Bytes} {t : Tuple} (ts : List Tuple)
    (hsize : (pre ++ (t.encode ++ (encodeTuples ts ++ 0 :: rest))).length = size) :
    InBounds size (nextTupleReads (pre ++ (t.encode ++ (encodeTuples ts ++ 0 :: rest)))
      pre.length) := by
  have hlen := t.length_encode
  have hkey := t.key_pos
  simp only [List.length_append, List.length_cons] at hsize
  unfold nextTupleReads
  rw [keyLen_tuple, if_neg (by lia), nextTuple_tuple]
  simp only [inBounds_cons, inBounds_nil, and_true, List.length_append]
  lia

theorem nextTuple_more (pre : Bytes) (t : Tuple) (ts : List Tuple) (rest : Bytes) :
    nextTuple (pre ++ (t.encode ++ (encodeTuples ts ++ 0 :: rest))) pre.length =
      ((pre ++ t.encode).length, decide (ts ≠ [])) := by
  have hmore := keyLen_encodeTuples (pre ++ t.encode) ts rest
  rw [List.append_assoc] at hmore
  rw [nextTuple_tuple, decide_eq_decide.mpr hmore]

theorem inBounds_skipTuplesReads (pre : Bytes) {ts : List Tuple} {rest : Bytes}
    (hsize : (pre ++ (encodeTuples ts ++ 0 :: rest)).length = size) (fuel : Nat) :
    InBounds size (skipTuplesReads (pre ++ (encodeTuples ts ++ 0 :: rest)) fuel pre.length) := by
  induction fuel generalizing pre ts with
  | zero => exact inBounds_nil
  | succ fuel ih =>
      rw [skipTuplesReads]
      cases ts with
      | nil =>
          have hzero := keyLen_zero pre rest
          simp only [encodeTuples_nil, List.nil_append, List.length_append, List.length_cons]
            at hsize ⊢
          simp only [nextTuple, nextTupleReads, hzero, if_true, Bool.false_eq_true, if_false,
            List.append_nil, inBounds_cons, inBounds_nil, and_true]
          omega
      | cons t ts =>
          simp only [encodeTuples_cons, List.append_assoc] at hsize ⊢
          rw [inBounds_append, nextTuple_more]
          refine ⟨inBounds_nextTupleReads ts hsize, ?_⟩
          have hrest := ih (pre ++ t.encode)
            (by simpa using hsize : (pre ++ t.encode ++ (encodeTuples ts ++ 0 :: rest)).length = size)
          rw [List.append_assoc] at hrest
          split
          · exact hrest
          · exact inBounds_nil

/-! ## A lookup -/

/-- There is room for the key behind the header of the last tuple that a lookup looks at: one
with this key, or else the last one of all. -/
def KeyRoom (size : Nat) (ts : List Tuple) (key : Bytes) : Prop :=
  (∃ u ∈ ts, u.key = key) ∨ size = 1 ∨
    (encodeTuples ts.dropLast).length + tupleHeader + key.length ≤ size

/-- The reads of a walk at a tuple: those of the comparison, and without the key those behind it. -/
theorem inBounds_getvarIdxReads_tuple (hsmall : size < 2 ^ 32) (pre : Bytes) {t : Tuple}
    (ts : List Tuple) {rest : Bytes}
    (hsize : (pre ++ (t.encode ++ (encodeTuples ts ++ 0 :: rest))).length = size)
    (hkey : 0 < key.length) (fuel : Nat) :
    InBounds size (getvarIdxReads size (pre ++ (t.encode ++ (encodeTuples ts ++ 0 :: rest))) key
        (fuel + 1) pre.length) ↔
      t.key = key ∨ pre.length + tupleHeader + key.length ≤ size ∧
        (ts ≠ [] → InBounds size (getvarIdxReads size
          (pre ++ (t.encode ++ (encodeTuples ts ++ 0 :: rest))) key fuel
          (pre ++ t.encode).length)) := by
  have hlen := t.length_encode
  have hpos := t.val_pos
  have hnext := inBounds_nextTupleReads ts hsize
  have hlens := hsize
  simp only [List.length_append, List.length_cons] at hlens
  rw [getvarIdxReads, matchKeyAt_tuple hsmall hsize, inBounds_append,
    inBounds_matchKeyAtReads hsmall (by lia) hkey, nextTuple_more]
  by_cases hmatch : t.key = key
  · have hroom : pre.length + tupleHeader + key.length ≤ size := by
      rw [← hmatch]
      lia
    simp [hmatch, hroom]
  · have hwide : ¬ size ≤ pre.length + 1 := by lia
    simp only [hmatch, hwide, decide_false, Bool.false_eq_true, if_false, false_or,
      inBounds_append, hnext, true_and]
    cases ts with
    | nil => simp
    | cons u ts => simp

/-- **A walk over tuples.**  The induction is on the tuples behind the first one; a tuple with
the key, and the room behind the last one, are also behind the tuples before. -/
theorem inBounds_getvarIdxReads (hsmall : size < 2 ^ 32) (pre : Bytes) {t : Tuple}
    {ts : List Tuple} {rest : Bytes}
    (hsize : (pre ++ (encodeTuples (t :: ts) ++ 0 :: rest)).length = size) (hkey : 0 < key.length)
    {fuel : Nat} (hfuel : ts.length < fuel) :
    InBounds size
        (getvarIdxReads size (pre ++ (encodeTuples (t :: ts) ++ 0 :: rest)) key fuel pre.length) ↔
      (∃ u ∈ t :: ts, u.key = key) ∨
        (pre ++ encodeTuples (t :: ts).dropLast).length + tupleHeader + key.length ≤ size := by
  induction ts generalizing pre t fuel with
  | nil =>
      obtain ⟨fuel, rfl⟩ := Nat.exists_eq_succ_of_ne_zero (by lia : fuel ≠ 0)
      have hlast : pre ++ encodeTuples [t].dropLast = pre := by simp
      simp only [encodeTuples_cons, List.append_assoc] at hsize ⊢
      rw [inBounds_getvarIdxReads_tuple hsmall pre [] hsize hkey, hlast]
      simp
  | cons u ts ih =>
      obtain ⟨fuel, rfl⟩ := Nat.exists_eq_succ_of_ne_zero (by lia : fuel ≠ 0)
      have hrest := ih (pre ++ t.encode) (t := u) (by simpa using hsize) (by simpa using hfuel)
      rw [List.append_assoc] at hrest
      rw [encodeTuples_cons t, List.append_assoc] at hsize ⊢
      have hlast : encodeTuples (t :: u :: ts).dropLast =
          t.encode ++ encodeTuples (u :: ts).dropLast := by
        rw [List.dropLast_cons_cons, encodeTuples_cons]
      have hsplit : (∃ v ∈ t :: u :: ts, v.key = key) ↔
          t.key = key ∨ ∃ v ∈ u :: ts, v.key = key := List.exists_mem_cons_iff ..
      rw [inBounds_getvarIdxReads_tuple hsmall pre (u :: ts) hsize hkey, hrest, hlast,
        ← List.append_assoc, hsplit, or_assoc]
      refine or_congr_right ?_
      simp only [ne_eq, reduceCtorEq, not_false_eq_true, true_imp_iff]
      refine and_iff_right_of_imp fun hlater => ?_
      have hlen := t.length_encode
      have hlens := hsize
      simp only [List.length_append, List.length_cons] at hlens
      rcases hlater with ⟨v, hv, hvkey⟩ | hroom
      · have hle := length_encode_le hv
        rw [v.length_encode, hvkey] at hle
        lia
      · simp only [List.length_append] at hroom
        lia

/-- A walk over an empty store. -/
theorem inBounds_getvarIdxReads_nil (hsmall : size < 2 ^ 32) (rest : Bytes)
    (hsize : (0 :: rest : Bytes).length = size) (hkey : 0 < key.length) (fuel : Nat) :
    InBounds size (getvarIdxReads size (0 :: rest) key (fuel + 1) 0) ↔
      size = 1 ∨ tupleHeader + key.length ≤ size := by
  rw [List.length_cons] at hsize
  have hzero : keyLen (0 :: rest) 0 = 0 := rfl
  rw [getvarIdxReads, inBounds_append, inBounds_matchKeyAtReads hsmall (by omega) hkey,
    matchKeyAt_zero hkey hzero]
  simp only [nextTuple, nextTupleReads, hzero, if_true, Bool.false_eq_true, if_false,
    List.append_nil, inBounds_cons, inBounds_nil, and_true]
  omega

theorem inBounds_getvarReads (hsmall : size < 2 ^ 32) {ts : List Tuple} (hfits : Fits size ts)
    (hkey : 0 < key.length) :
    InBounds size (getvarReads size (encodeStore size ts) key) ↔ KeyRoom size ts key := by
  have hlen := length_encodeStore hfits
  unfold getvarReads KeyRoom
  cases ts with
  | nil =>
      have hwalk := inBounds_getvarIdxReads_nil hsmall (List.replicate (size - 0 - 1) 0xff)
        (by simpa [encodeStore] using hlen) hkey size
      rw [hlen]
      simpa [encodeStore] using hwalk
  | cons t ts =>
      have hcount := length_le_encodeTuples (t :: ts)
      have hwide := t.length_encode
      have hpos := t.val_pos
      unfold Fits at hfits
      rw [encodeTuples_cons, List.length_append] at hfits
      rw [List.length_cons, encodeTuples_cons, List.length_append] at hcount
      have hwalk := inBounds_getvarIdxReads hsmall [] (by rw [List.nil_append]; exact hlen) hkey
        (by omega : ts.length < size + 1)
      have hnarrow : ¬ size = 1 := by
        unfold tupleHeader at hwide
        omega
      rw [hlen, or_iff_right_of_imp (fun h => absurd h hnarrow : size = 1 → _)]
      exact hwalk

/-! ## A change -/

/-- A tuple that has the key, with the tuples in front of the first of them. -/
theorem exists_first {ts : List Tuple} (h : ∃ u ∈ ts, u.key = key) :
    ∃ before t after, ts = before ++ t :: after ∧ t.key = key ∧ ∀ u ∈ before, u.key ≠ t.key := by
  obtain ⟨t, ht⟩ := Option.isSome_iff_exists.mp
    (List.find?_isSome.mpr (by simpa using h : ∃ u ∈ ts, decide (u.key = key) = true))
  obtain ⟨hkey, before, after, rfl, hbefore⟩ := List.find?_eq_some_iff_append.mp ht
  have hkey' : t.key = key := of_decide_eq_true hkey
  refine ⟨before, t, after, rfl, hkey', fun u hu => ?_⟩
  rw [hkey']
  simpa using hbefore u hu

theorem inBounds_removeTupleAccesses (hsmall : size < 2 ^ 32) {ts : List Tuple}
    (hfits : Fits size ts) (hkey : 0 < key.length) :
    InBounds size (removeTupleAccesses size (encodeStore size ts) key) := by
  unfold removeTupleAccesses
  by_cases hmem : ∃ u ∈ ts, u.key = key
  · obtain ⟨before, t, after, rfl, rfl, hbefore⟩ := exists_first hmem
    have hlen := length_encodeStore hfits
    obtain ⟨rest, hmoved, hmovedLen⟩ := moveWithin_encodeStore hfits
    have hstore : encodeStore size (before ++ t :: after) =
        encodeTuples before ++ (t.encode ++ (encodeTuples after ++ 0 :: List.replicate
          (size - (encodeTuples (before ++ t :: after)).length - 1) 0xff)) := by
      simp [encodeStore]
    rw [hstore] at hlen
    have hnext := inBounds_nextTupleReads _ hlen
    have hmore := nextTuple_more (encodeTuples before) t after
      (List.replicate (size - (encodeTuples (before ++ t :: after)).length - 1) 0xff)
    rw [← hstore] at hnext hmore
    simp only [List.length_append] at hlen
    simp only [getvarIdx_found hsmall hfits hbefore, hmore, hmoved, if_true, inBounds_append]
    refine ⟨hnext, ?_⟩
    split
    · rw [inBounds_append]
      refine ⟨?_, inBounds_skipTuplesReads _ hmovedLen _⟩
      rw [memmoveAccesses, inBounds_append, inBounds_range', inBounds_range', List.length_append]
      omega
    · exact inBounds_nil
  · push Not at hmem
    simp [getvarIdx_absent hsmall hfits hkey hmem]

/-- The new tuple goes to an index of the region. -/
theorem removeTuple_bounds (hsmall : size < 2 ^ 32) {ts : List Tuple} (hfits : Fits size ts)
    (hkey : 0 < key.length) :
    (removeTuple size (encodeStore size ts) key).1.length = size ∧
      (removeTuple size (encodeStore size ts) key).2 < size := by
  have hfits' := hfits
  unfold Fits at hfits'
  by_cases hmem : ∃ u ∈ ts, u.key = key
  · obtain ⟨before, t, after, rfl, rfl, hbefore⟩ := exists_first hmem
    simp only [encodeTuples_append, encodeTuples_cons, List.length_append] at hfits'
    by_cases hafter : after = []
    · subst hafter
      rw [removeTuple_last hsmall hfits hbefore]
      exact ⟨length_encodeStore hfits, by dsimp only; omega⟩
    · obtain ⟨rest, hremove, hlen⟩ := removeTuple_moved hsmall hafter hfits hbefore
      rw [hremove]
      refine ⟨hlen, ?_⟩
      rw [encodeTuples_append, List.length_append]
      omega
  · push Not at hmem
    have hroom := removeTuple_absent hsmall hfits hkey hmem
    rw [hroom.index_eq]
    exact ⟨hroom.buf_length, hfits'⟩

theorem getD_writeAt_of_lt {data : Bytes} {off j : Nat} (h : j < off) :
    (writeAt buf off data).getD j 0 = buf.getD j 0 := by
  rw [List.getD_eq_getElem?_getD, List.getD_eq_getElem?_getD]
  by_cases hj : j < buf.length
  · rw [writeAt, List.append_assoc, List.getElem?_append_left (by rw [List.length_take]; omega),
      List.getElem?_take_of_lt h]
  · rw [List.getElem?_eq_none (by rw [length_writeAt]; omega), List.getElem?_eq_none (by omega)]

theorem getD_copyForward_of_lt {dst src len j : Nat} (h : j < dst) :
    (copyForward buf dst src len).getD j 0 = buf.getD j 0 := by
  induction len generalizing buf dst src with
  | zero => rfl
  | succ len ih =>
      rw [copyForward, ih (by omega), List.getD_eq_getElem?_getD, List.getElem?_set_ne (by omega),
        ← List.getD_eq_getElem?_getD]

/-- The value stays behind the lengths. -/
theorem getD_copyValue_of_lt {dst j : Nat} (h : j < dst) (val : Value) :
    (copyValue buf dst val).getD j 0 = buf.getD j 0 := by
  cases val with
  | null => rfl
  | outside data => exact getD_writeAt_of_lt h
  | inside off len => exact getD_copyForward_of_lt h

/-- A value of at most 255 bytes; if it lies in the RAM copy, all of it does. -/
def Value.Valid (size : Nat) (val : Value) : Prop :=
  val.length < 256 ∧ ∀ off len, val = .inside off len → off + len ≤ size

theorem inBounds_markEndWrites {i : Nat} (hi : i < size) : InBounds size (markEndWrites size i) := by
  rw [markEndWrites, inBounds_cons, inBounds_range']
  omega

theorem inBounds_copyValueAccesses {val : Value} (hval : val.Valid size) {dst : Nat}
    (hroom : dst + val.length ≤ size) : InBounds size (copyValueAccesses dst val) := by
  cases val with
  | null => exact inBounds_nil
  | outside data => exact inBounds_range'.mpr (Or.inr hroom)
  | inside off len =>
      have hin := hval.2 off len rfl
      exact inBounds_append.mpr ⟨inBounds_range'.mpr (Or.inr hin), inBounds_range'.mpr (Or.inr hroom)⟩

theorem inBounds_storeTupleAccesses {i : Nat} (hlen : buf.length = size) (hi : i < size)
    (hkey : 0 < key.length) (hshort : key.length < 256) {val : Value} (hval : val.Valid size) :
    InBounds size (storeTupleAccesses size buf key i val) := by
  unfold storeTupleAccesses
  split
  · exact inBounds_markEndWrites hi
  · split
    · exact inBounds_markEndWrites hi
    · rename_i hroom
      have hend : i + tupleHeader + key.length + val.length < size := by lia
      simp only
      set keyed := writeAt (writeAt buf i [UInt8.ofNat key.length, UInt8.ofNat val.length, 0])
        (i + tupleHeader) key with hkeyed
      set written := copyValue keyed (i + tupleHeader + key.length) val with hwritten
      have hheader : ∀ j < 2, written.getD (i + j) 0 =
          [UInt8.ofNat key.length, UInt8.ofNat val.length, 0].getD j 0 := by
        intro j hj
        rw [hwritten, getD_copyValue_of_lt (by unfold tupleHeader; lia), hkeyed,
          getD_writeAt_of_lt (by unfold tupleHeader; lia), List.getD_eq_getElem?_getD,
          getElem?_writeAt (by unfold tupleHeader at hend; simp; lia), if_pos (by simp; lia),
          Nat.add_sub_cancel_left, ← List.getD_eq_getElem?_getD]
      have hkeyLen : keyLen written i = key.length := by
        have := hheader 0 (by decide)
        rw [keyLen, ← Nat.add_zero i, this]
        exact UInt8.toNat_ofNat_of_lt' hshort
      have hvalLen : valLen written i = val.length := by
        rw [valLen, hheader 1 (by decide)]
        exact UInt8.toNat_ofNat_of_lt' hval.1
      have hnext : (nextTuple written i).1 = i + tupleHeader + key.length + val.length := by
        unfold nextTuple
        rw [hkeyLen, hvalLen, if_neg (by lia)]
      have hreads : InBounds size (nextTupleReads written i) := by
        unfold nextTupleReads
        rw [hnext, hkeyLen, if_neg (by lia)]
        unfold tupleHeader at hend ⊢
        simp only [inBounds_cons, inBounds_nil, and_true]
        lia
      rw [hnext]
      simp only [inBounds_append, inBounds_range']
      exact ⟨⟨⟨⟨by lia, by lia⟩, inBounds_copyValueAccesses hval (by lia)⟩, hreads⟩,
        inBounds_markEndWrites hend⟩

/-- **A lookup and a change look at the same bytes outside of the region, or at none.**  For a
region that `initvars` accepts, and every key, the accesses stay inside exactly if there is room
for the key behind the header of the last tuple looked at. -/
theorem accesses_inBounds_iff (cfg : Config) (buf key : Bytes) (hsize : 0 < cfg.size)
    (hlen : buf.length = cfg.size) (hvalid : storeIsValid cfg.size buf = true)
    (hkey : 0 < key.length) (hshort : key.length < 256) :
    ∃ ts, Fits cfg.size ts ∧ buf = encodeStore cfg.size ts ∧
      (InBounds cfg.size (getvarReads cfg.size buf key) ↔ KeyRoom cfg.size ts key) ∧
      ∀ val, Value.Valid cfg.size val →
        (InBounds cfg.size (setvarAccesses cfg.size buf key val) ↔ KeyRoom cfg.size ts key) := by
  have hsmall : cfg.size < 2 ^ 32 := by
    have := size_lt cfg
    omega
  obtain ⟨ts, hfits, rfl⟩ := (storeIsValid_iff hsize hlen).mp hvalid
  have hget := inBounds_getvarReads hsmall hfits hkey
  refine ⟨ts, hfits, rfl, hget, fun val hval => ?_⟩
  obtain ⟨hbuf, hi⟩ := removeTuple_bounds hsmall hfits hkey
  unfold setvarAccesses
  rw [inBounds_append, inBounds_append, hget,
    and_iff_left (inBounds_removeTupleAccesses hsmall hfits hkey),
    and_iff_left (inBounds_storeTupleAccesses hbuf hi hkey hshort hval)]

/-- Two variables of one byte each in a region of sixteen bytes. -/
def twoVariables : Bytes :=
  [1, 1, 0, 0x41, 0x61, 1, 1, 0, 0x42, 0x62, 0, 0xff, 0xff, 0xff, 0xff, 0xff]

theorem accesses_inBounds_iff_twoVariables :
    ∃ ts, Fits smallConfig.size ts ∧ twoVariables = encodeStore smallConfig.size ts ∧
      (InBounds smallConfig.size (getvarReads smallConfig.size twoVariables [0x43]) ↔
        KeyRoom smallConfig.size ts [0x43]) ∧
      ∀ val, Value.Valid smallConfig.size val →
        (InBounds smallConfig.size (setvarAccesses smallConfig.size twoVariables [0x43] val) ↔
          KeyRoom smallConfig.size ts [0x43]) :=
  accesses_inBounds_iff smallConfig twoVariables [0x43] (by decide) rfl (by decide) (by decide)
    (by decide)

/-- Nine bytes of key against the second variable, which starts at index 5: the last byte
compared is the one behind the region. -/
theorem getvarReads_outside :
    storeIsValid smallConfig.size twoVariables = true ∧
      16 ∈ getvarReads smallConfig.size twoVariables (List.replicate 9 0x43) ∧
      ¬ InBounds smallConfig.size
        (getvarReads smallConfig.size twoVariables (List.replicate 9 0x43)) := by
  have hread : 16 ∈ getvarReads smallConfig.size twoVariables (List.replicate 9 0x43) := by decide
  exact ⟨by decide, hread, fun h => absurd (h 16 hread) (by decide)⟩

end Vars
end CrosEc
