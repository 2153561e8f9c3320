import CrosEc.Nvmem.Vars.Model

/-!
# The variable store as a list of tuples

`encodeStore size ts` is the RAM copy of a well-formed store that holds the tuples
`ts`.  The lemmas below say what the walks of `nvmem_vars.c` find in it
(`getvarIdx_found`, `getvarIdx_absent`) and what `setvar` makes of it: it drops the
tuple with its key and appends a new one (`setvarBuf_outside`).

For a value that points into the RAM copy itself, `setvarBuf_inside_last` and
`setvarBuf_inside_moved` give the bytes that end up in the new tuple.
-/

namespace CrosEc
namespace Vars

open Lib

/-- A tuple with the lengths the format allows. -/
structure Tuple where
  key : Bytes
  val : Bytes
  flags : UInt8
  key_pos : 0 < key.length
  key_lt : key.length < 256
  val_pos : 0 < val.length
  val_lt : val.length < 256

/-- `struct tuple` with its `data_`. -/
def Tuple.encode (t : Tuple) : Bytes :=
  [UInt8.ofNat t.key.length, UInt8.ofNat t.val.length, t.flags] ++ t.key ++ t.val

def encodeTuples (ts : List Tuple) : Bytes := ts.flatMap Tuple.encode

/-- Tuples, the closing zero byte, and `0xff` up to the end of the region. -/
def encodeStore (size : Nat) (ts : List Tuple) : Bytes :=
  encodeTuples ts ++ 0 :: List.replicate (size - (encodeTuples ts).length - 1) 0xff

/-- The tuples and the closing zero fit into the region. -/
def Fits (size : Nat) (ts : List Tuple) : Prop := (encodeTuples ts).length + 1 ≤ size

instance (size : Nat) (ts : List Tuple) : Decidable (Fits size ts) :=
  inferInstanceAs (Decidable (_ ≤ _))

@[simp] theorem encodeTuples_nil : encodeTuples [] = [] := rfl

@[simp] theorem encodeTuples_cons (t : Tuple) (ts : List Tuple) :
    encodeTuples (t :: ts) = t.encode ++ encodeTuples ts := rfl

@[simp] theorem encodeTuples_append (ts us : List Tuple) :
    encodeTuples (ts ++ us) = encodeTuples ts ++ encodeTuples us := by
  simp [encodeTuples]

theorem Tuple.length_encode (t : Tuple) :
    t.encode.length = tupleHeader + t.key.length + t.val.length := by
  simp [Tuple.encode, tupleHeader]
  omega

theorem length_encodeStore {size : Nat} {ts : List Tuple} (h : Fits size ts) :
    (encodeStore size ts).length = size := by
  unfold Fits at h
  simp only [encodeStore, List.length_append, List.length_cons, List.length_replicate]
  omega

theorem length_le_encodeTuples (ts : List Tuple) : ts.length ≤ (encodeTuples ts).length := by
  induction ts with
  | nil => simp
  | cons t ts ih =>
      have := t.length_encode
      have := t.key_pos
      simp only [encodeTuples_cons, List.length_append, List.length_cons]
      omega

/-! ## One tuple in its place -/

theorem getD_append_add (xs ys : Bytes) (i : Nat) :
    (xs ++ ys).getD (xs.length + i) 0 = ys.getD i 0 := by
  rw [List.getD_eq_getElem?_getD, List.getD_eq_getElem?_getD,
    List.getElem?_append_right (by omega), Nat.add_sub_cancel_left]

theorem keyLen_tuple (pre : Bytes) (t : Tuple) (rest : Bytes) :
    keyLen (pre ++ (t.encode ++ rest)) pre.length = t.key.length := by
  have hget := getD_append_add pre (t.encode ++ rest) 0
  rw [Nat.add_zero] at hget
  rw [keyLen, hget]
  simp [Tuple.encode, Nat.mod_eq_of_lt t.key_lt]

theorem valLen_tuple (pre : Bytes) (t : Tuple) (rest : Bytes) :
    valLen (pre ++ (t.encode ++ rest)) pre.length = t.val.length := by
  rw [valLen, getD_append_add pre (t.encode ++ rest) 1]
  simp [Tuple.encode, Nat.mod_eq_of_lt t.val_lt]

/-- At the closing zero, or wherever a zero stands, there is no tuple. -/
theorem keyLen_zero (pre rest : Bytes) : keyLen (pre ++ 0 :: rest) pre.length = 0 := by
  have hget := getD_append_add pre (0 :: rest) 0
  rw [Nat.add_zero] at hget
  rw [keyLen, hget]
  rfl

theorem nextTuple_tuple (pre : Bytes) (t : Tuple) (rest : Bytes) :
    nextTuple (pre ++ (t.encode ++ rest)) pre.length =
      ((pre ++ t.encode).length,
        decide (keyLen (pre ++ (t.encode ++ rest)) (pre ++ t.encode).length ≠ 0)) := by
  have hkey := t.key_pos
  unfold nextTuple
  rw [keyLen_tuple, valLen_tuple, if_neg (by omega)]
  simp only [List.length_append, t.length_encode, Nat.add_assoc]

theorem matchKeyAt_tuple {size : Nat} {pre : Bytes} {t : Tuple} {rest key : Bytes}
    (hsmall : size < 2 ^ 32) (hsize : (pre ++ (t.encode ++ rest)).length = size) :
    matchKeyAt size (pre ++ (t.encode ++ rest)) pre.length key = decide (t.key = key) := by
  have hlen := t.length_encode
  simp only [List.length_append] at hsize
  have hval := t.val_pos
  have hlt := t.key_lt
  unfold matchKeyAt
  rw [keyLen_tuple]
  by_cases hkeys : t.key.length = key.length
  · -- Enough room is left, so the whole key is compared.
    have hmin : min key.length ((2 ^ 32 + size - pre.length - 1) % 2 ^ 32) = key.length := by
      unfold tupleHeader at hlen
      lia
    have hread : readBytes key.length ((pre ++ (t.encode ++ rest)).drop
        (pre.length + tupleHeader)) = t.key := by
      have hdrop : (pre ++ (t.encode ++ rest)).drop (pre.length + tupleHeader) =
          t.key ++ (t.val ++ rest) := by
        rw [List.drop_append]
        simp [Tuple.encode, tupleHeader]
      rw [hdrop]
      exact readBytes_append hkeys _
    simp only [hmin, hread, hkeys, List.take_length]
    simp
  · have hne : t.key ≠ key := fun h => hkeys (by rw [h])
    simp [hkeys, hne]

theorem matchKeyAt_zero {size : Nat} {buf key : Bytes} {idx : Nat} (hkey : 0 < key.length)
    (hzero : keyLen buf idx = 0) : matchKeyAt size buf idx key = false := by
  have hne : ¬ 0 = key.length := by omega
  simp [matchKeyAt, hzero, hne]

/-! ## The walks -/

variable {size : Nat} {key : Bytes} (hsmall : size < 2 ^ 32)

/-- The tuple after this one, or the closing zero. -/
theorem keyLen_encodeTuples (pre : Bytes) (ts : List Tuple) (rest : Bytes) :
    keyLen (pre ++ (encodeTuples ts ++ 0 :: rest)) pre.length ≠ 0 ↔ ts ≠ [] := by
  cases ts with
  | nil => simp [keyLen_zero]
  | cons t ts =>
      have hkey := t.key_pos
      rw [encodeTuples_cons, List.append_assoc, keyLen_tuple]
      exact ⟨fun _ => List.cons_ne_nil t ts, fun _ => by omega⟩

include hsmall in
theorem getvarIdxFrom_found (pre : Bytes) {before after : List Tuple} {t : Tuple} {rest : Bytes}
    (hsize : (pre ++ (encodeTuples (before ++ t :: after) ++ 0 :: rest)).length = size)
    (hbefore : ∀ u ∈ before, u.key ≠ t.key) {fuel : Nat} (hfuel : before.length < fuel) :
    getvarIdxFrom size (pre ++ (encodeTuples (before ++ t :: after) ++ 0 :: rest)) t.key fuel
        pre.length = ((pre ++ encodeTuples before).length, true) := by
  induction before generalizing pre fuel with
  | nil =>
      obtain ⟨fuel, rfl⟩ := Nat.exists_eq_succ_of_ne_zero (by omega : fuel ≠ 0)
      simp only [List.nil_append, encodeTuples_cons, List.append_assoc] at hsize ⊢
      rw [getvarIdxFrom, matchKeyAt_tuple hsmall hsize]
      simp
  | cons u before ih =>
      obtain ⟨fuel, rfl⟩ := Nat.exists_eq_succ_of_ne_zero (by omega : fuel ≠ 0)
      simp only [List.cons_append, encodeTuples_cons, List.append_assoc] at hsize ⊢
      have hnext : keyLen (pre ++ (u.encode ++ (encodeTuples (before ++ t :: after) ++ 0 :: rest)))
          (pre ++ u.encode).length ≠ 0 := by
        rw [← List.append_assoc, keyLen_encodeTuples]
        simp
      have hless : before.length < fuel := by simpa using hfuel
      have hrest := ih (pre ++ u.encode) (by simpa using hsize)
        (fun v hv => hbefore v (by simp [hv])) hless
      rw [List.append_assoc] at hrest
      rw [getvarIdxFrom, matchKeyAt_tuple hsmall hsize, nextTuple_tuple,
        if_neg (by simpa using hbefore u (by simp))]
      simp only [hnext, ne_eq, not_false_eq_true, decide_true, if_true]
      rw [hrest]
      simp

include hsmall in
theorem getvarIdxFrom_absent (pre : Bytes) {ts : List Tuple} {rest : Bytes}
    (hsize : (pre ++ (encodeTuples ts ++ 0 :: rest)).length = size) (hkey : 0 < key.length)
    (habsent : ∀ u ∈ ts, u.key ≠ key) {fuel : Nat} (hfuel : ts.length < fuel) :
    getvarIdxFrom size (pre ++ (encodeTuples ts ++ 0 :: rest)) key fuel pre.length =
      ((pre ++ encodeTuples ts).length, false) := by
  induction ts generalizing pre fuel with
  | nil =>
      obtain ⟨fuel, rfl⟩ := Nat.exists_eq_succ_of_ne_zero (by omega : fuel ≠ 0)
      have hzero := keyLen_zero pre rest
      simp only [encodeTuples_nil, List.nil_append, List.append_nil]
      rw [getvarIdxFrom, matchKeyAt_zero hkey hzero]
      simp [nextTuple, hzero]
  | cons u ts ih =>
      obtain ⟨fuel, rfl⟩ := Nat.exists_eq_succ_of_ne_zero (by omega : fuel ≠ 0)
      simp only [encodeTuples_cons, List.append_assoc] at hsize ⊢
      have hless : ts.length < fuel := by simpa using hfuel
      have hrest := ih (pre ++ u.encode) (by simpa using hsize)
        (fun v hv => habsent v (by simp [hv])) hless
      rw [List.append_assoc] at hrest
      have hnext := keyLen_encodeTuples (pre ++ u.encode) ts rest
      rw [List.append_assoc] at hnext
      rw [getvarIdxFrom, matchKeyAt_tuple hsmall hsize, nextTuple_tuple,
        if_neg (by simpa using habsent u (by simp))]
      by_cases hts : ts = []
      · have hend : keyLen (pre ++ (u.encode ++ (encodeTuples ts ++ 0 :: rest)))
            (pre ++ u.encode).length = 0 := by
          by_contra hne
          exact (hnext.mp hne) hts
        simp only [hend, ne_eq, not_true_eq_false, decide_false, Bool.false_eq_true, if_false]
        simp [hts]
      · simp only [hnext.mpr hts, ne_eq, not_false_eq_true, decide_true, if_true]
        rw [hrest]
        simp

theorem skipTuplesFrom_end (pre : Bytes) {ts : List Tuple} {rest : Bytes} {fuel : Nat}
    (hfuel : ts.length < fuel) :
    skipTuplesFrom (pre ++ (encodeTuples ts ++ 0 :: rest)) fuel pre.length =
      (pre ++ encodeTuples ts).length := by
  induction ts generalizing pre fuel with
  | nil =>
      obtain ⟨fuel, rfl⟩ := Nat.exists_eq_succ_of_ne_zero (by omega : fuel ≠ 0)
      have hzero := keyLen_zero pre rest
      simp only [encodeTuples_nil, List.nil_append, List.append_nil]
      simp [skipTuplesFrom, nextTuple, hzero]
  | cons u ts ih =>
      obtain ⟨fuel, rfl⟩ := Nat.exists_eq_succ_of_ne_zero (by omega : fuel ≠ 0)
      have hless : ts.length < fuel := by simpa using hfuel
      have hrest := ih (pre ++ u.encode) hless
      have hnext := keyLen_encodeTuples (pre ++ u.encode) ts rest
      rw [List.append_assoc] at hrest hnext
      simp only [encodeTuples_cons, List.append_assoc]
      rw [skipTuplesFrom, nextTuple_tuple]
      by_cases hts : ts = []
      · have hend : keyLen (pre ++ (u.encode ++ (encodeTuples ts ++ 0 :: rest)))
            (pre ++ u.encode).length = 0 := by
          by_contra hne
          exact (hnext.mp hne) hts
        simp only [hend, ne_eq, not_true_eq_false, decide_false, Bool.false_eq_true, if_false]
        simp [hts]
      · simp only [hnext.mpr hts, ne_eq, not_false_eq_true, decide_true, if_true]
        rw [hrest]
        simp

/-! ## The walks over a whole store -/

include hsmall in
theorem getvarIdx_found {before after : List Tuple} {t : Tuple}
    (hfits : Fits size (before ++ t :: after)) (hbefore : ∀ u ∈ before, u.key ≠ t.key) :
    getvarIdx size (encodeStore size (before ++ t :: after)) t.key =
      ((encodeTuples before).length, true) := by
  have hlen := length_encodeStore hfits
  have hcount := length_le_encodeTuples (before ++ t :: after)
  have hfuel : before.length < size + 1 := by
    unfold Fits at hfits
    simp only [List.length_append] at hcount
    omega
  have hfound := getvarIdxFrom_found hsmall [] (by rw [List.nil_append]; exact hlen) hbefore hfuel
  rw [getvarIdx, hlen]
  simpa [encodeStore] using hfound

include hsmall in
theorem getvarIdx_absent {ts : List Tuple} (hfits : Fits size ts) (hkey : 0 < key.length)
    (habsent : ∀ u ∈ ts, u.key ≠ key) :
    getvarIdx size (encodeStore size ts) key = ((encodeTuples ts).length, false) := by
  have hlen := length_encodeStore hfits
  have hcount := length_le_encodeTuples ts
  have hfuel : ts.length < size + 1 := by
    unfold Fits at hfits
    omega
  have hwalk := getvarIdxFrom_absent hsmall [] (by rw [List.nil_append]; exact hlen) hkey habsent
    hfuel
  rw [getvarIdx, hlen]
  simpa [encodeStore] using hwalk

/-- Dropping the tuple from the middle moves the tuples behind it down; what the
buffer holds past the closing zero does not matter. -/
theorem moveWithin_encodeStore {before after : List Tuple} {t : Tuple}
    (hfits : Fits size (before ++ t :: after)) :
    ∃ rest : Bytes,
      moveWithin (encodeStore size (before ++ t :: after)) (encodeTuples before).length
          (encodeTuples before ++ t.encode).length
          (size - (encodeTuples before ++ t.encode).length) =
        encodeTuples before ++ (encodeTuples after ++ 0 :: rest) ∧
      (encodeTuples before ++ (encodeTuples after ++ 0 :: rest)).length = size := by
  have hlen := length_encodeStore hfits
  set fill : Bytes := List.replicate (size - (encodeTuples (before ++ t :: after)).length - 1) 0xff
    with hfill
  have hstore : encodeStore size (before ++ t :: after) =
      encodeTuples before ++ (t.encode ++ (encodeTuples after ++ 0 :: fill)) := by
    simp [encodeStore, hfill]
  have htail : (encodeStore size (before ++ t :: after)).drop
      (encodeTuples before ++ t.encode).length = encodeTuples after ++ 0 :: fill := by
    rw [hstore, ← List.append_assoc, List.drop_left]
  have hcount : (encodeTuples after ++ 0 :: fill).length =
      size - (encodeTuples before ++ t.encode).length := by
    rw [← htail, List.length_drop, hlen]
  rw [hstore] at hlen htail ⊢
  set buf := encodeTuples before ++ (t.encode ++ (encodeTuples after ++ 0 :: fill)) with hbuf
  have hlens : (encodeTuples before).length + (t.encode.length +
      (encodeTuples after ++ 0 :: fill).length) = size := by
    rw [← hlen, hbuf]
    simp only [List.length_append]
  have hread : readBytes (size - (encodeTuples before ++ t.encode).length)
      (buf.drop (encodeTuples before ++ t.encode).length) = encodeTuples after ++ 0 :: fill := by
    rw [htail, readBytes_eq_take (by lia), ← hcount, List.take_length]
  have hfit : (encodeTuples after ++ 0 :: fill).take (buf.length - (encodeTuples before).length) =
      encodeTuples after ++ 0 :: fill := List.take_of_length_le (by lia)
  have hfront : buf.take (encodeTuples before).length = encodeTuples before := by
    rw [hbuf, List.take_left]
  refine ⟨fill ++ buf.drop
    ((encodeTuples before).length + (encodeTuples after ++ 0 :: fill).length), ?_, ?_⟩
  · rw [moveWithin, hread, writeAt, hfit, hfront]
    simp
  · have hrest : (encodeTuples before ++ (encodeTuples after ++ 0 :: (fill ++ buf.drop
        ((encodeTuples before).length + (encodeTuples after ++ 0 :: fill).length)))).length =
        (encodeTuples before).length + (encodeTuples after ++ 0 :: fill).length +
          (buf.length - ((encodeTuples before).length +
            (encodeTuples after ++ 0 :: fill).length)) := by
      simp only [List.length_append, List.length_cons, List.length_drop]
      lia
    rw [hrest]
    lia

/-! ## What `setvar` does to a store -/

/-- After the first half of `setvar`: the tuples `ts` stand at the start of the
buffer, and the index points behind them. -/
structure Room (size : Nat) (ts : List Tuple) (r : Bytes × Nat) : Prop where
  buf_eq : ∃ rest : Bytes, r.1 = encodeTuples ts ++ rest
  buf_length : r.1.length = size
  index_eq : r.2 = (encodeTuples ts).length

include hsmall in
theorem removeTuple_absent {ts : List Tuple} (hfits : Fits size ts) (hkey : 0 < key.length)
    (habsent : ∀ u ∈ ts, u.key ≠ key) :
    Room size ts (removeTuple size (encodeStore size ts) key) := by
  have hremove : removeTuple size (encodeStore size ts) key =
      (encodeStore size ts, (encodeTuples ts).length) := by
    simp [removeTuple, getvarIdx_absent hsmall hfits hkey habsent]
  rw [hremove]
  exact ⟨⟨_, rfl⟩, length_encodeStore hfits, rfl⟩

include hsmall in
/-- The last tuple stays in the buffer; the new one will be written over it. -/
theorem removeTuple_last {before : List Tuple} {t : Tuple} (hfits : Fits size (before ++ [t]))
    (hbefore : ∀ u ∈ before, u.key ≠ t.key) :
    removeTuple size (encodeStore size (before ++ [t])) t.key =
      (encodeStore size (before ++ [t]), (encodeTuples before).length) := by
  have hnext : (nextTuple (encodeStore size (before ++ [t])) (encodeTuples before).length).2 =
      false := by
    have hstore : encodeStore size (before ++ [t]) = encodeTuples before ++ (t.encode ++
        0 :: List.replicate (size - (encodeTuples (before ++ [t])).length - 1) 0xff) := by
      simp [encodeStore]
    have hzero := keyLen_zero (encodeTuples before ++ t.encode)
      (List.replicate (size - (encodeTuples (before ++ [t])).length - 1) 0xff)
    rw [List.append_assoc] at hzero
    rw [hstore, nextTuple_tuple, hzero]
    rfl
  simp [removeTuple, getvarIdx_found hsmall hfits hbefore, hnext]

include hsmall in
/-- A tuple with others behind it is covered up by them. -/
theorem removeTuple_moved {before after : List Tuple} {t : Tuple} (hafter : after ≠ [])
    (hfits : Fits size (before ++ t :: after)) (hbefore : ∀ u ∈ before, u.key ≠ t.key) :
    ∃ rest : Bytes,
      removeTuple size (encodeStore size (before ++ t :: after)) t.key =
        (encodeTuples before ++ (encodeTuples after ++ 0 :: rest),
          (encodeTuples (before ++ after)).length) ∧
      (encodeTuples before ++ (encodeTuples after ++ 0 :: rest)).length = size := by
  obtain ⟨rest, hmoved, hlen⟩ := moveWithin_encodeStore hfits
  refine ⟨rest, ?_, hlen⟩
  set store := encodeStore size (before ++ t :: after) with hstore
  have hshape : store = encodeTuples before ++ (t.encode ++ (encodeTuples after ++
      0 :: List.replicate (size - (encodeTuples (before ++ t :: after)).length - 1) 0xff)) := by
    simp [hstore, encodeStore]
  have hnext : nextTuple store (encodeTuples before).length =
      ((encodeTuples before ++ t.encode).length, true) := by
    have hmore := keyLen_encodeTuples (encodeTuples before ++ t.encode) after
      (List.replicate (size - (encodeTuples (before ++ t :: after)).length - 1) 0xff)
    rw [List.append_assoc] at hmore
    rw [hshape, nextTuple_tuple, decide_eq_true (hmore.mpr hafter)]
  have hskip : skipTuples (encodeTuples before ++ (encodeTuples after ++ 0 :: rest))
      (encodeTuples before).length = (encodeTuples (before ++ after)).length := by
    have hcount := length_le_encodeTuples after
    rw [skipTuples, skipTuplesFrom_end _ (by simp only [List.length_append, List.length_cons]; omega)]
    simp
  have hfound := getvarIdx_found hsmall hfits hbefore
  rw [← hstore] at hfound
  unfold removeTuple
  simp only [hfound, hnext, hmoved, hskip, if_true]

/-- The tuples without the one that has this key. -/
def dropKey (key : Bytes) (ts : List Tuple) : List Tuple := ts.filter fun u => u.key ≠ key

theorem dropKey_of_absent {ts : List Tuple} (h : ∀ u ∈ ts, u.key ≠ key) : dropKey key ts = ts := by
  apply List.filter_eq_self.mpr
  intro u hu
  simpa using h u hu

theorem dropKey_append {before after : List Tuple} {t : Tuple}
    (hnodup : ((before ++ t :: after).map Tuple.key).Nodup) :
    (∀ u ∈ before, u.key ≠ t.key) ∧ dropKey t.key (before ++ t :: after) = before ++ after := by
  simp only [List.map_append, List.map_cons, List.nodup_append, List.nodup_cons, List.mem_map,
    List.mem_cons] at hnodup
  obtain ⟨-, ⟨hafter, -⟩, hbefore⟩ := hnodup
  have hb : ∀ u ∈ before, u.key ≠ t.key :=
    fun u hu heq => hbefore u.key ⟨u, hu, rfl⟩ t.key (Or.inl rfl) heq
  have ha : ∀ u ∈ after, u.key ≠ t.key := fun u hu heq => hafter ⟨u, hu, heq⟩
  refine ⟨hb, ?_⟩
  have hsplit : dropKey t.key (before ++ t :: after) = dropKey t.key before ++ dropKey t.key after := by
    simp [dropKey]
  rw [hsplit, dropKey_of_absent hb, dropKey_of_absent ha]

include hsmall in
/-- `setvar` makes room behind the other tuples. -/
theorem removeTuple_room {ts : List Tuple} (hfits : Fits size ts) (hkey : 0 < key.length)
    (hnodup : (ts.map Tuple.key).Nodup) :
    Room size (dropKey key ts) (removeTuple size (encodeStore size ts) key) := by
  by_cases hmem : ∃ t ∈ ts, t.key = key
  · obtain ⟨t, ht, rfl⟩ := hmem
    obtain ⟨before, after, rfl⟩ := List.append_of_mem ht
    obtain ⟨hbefore, hdrop⟩ := dropKey_append hnodup
    rw [hdrop]
    by_cases hafter : after = []
    · subst hafter
      rw [removeTuple_last hsmall hfits hbefore, List.append_nil]
      exact ⟨⟨t.encode ++ 0 :: List.replicate (size - (encodeTuples (before ++ [t])).length - 1) 0xff,
        by simp [encodeStore]⟩, length_encodeStore hfits, rfl⟩
    · obtain ⟨rest, hremove, hlen⟩ := removeTuple_moved hsmall hafter hfits hbefore
      rw [hremove]
      exact ⟨⟨0 :: rest, by simp⟩, hlen, rfl⟩
  · have habsent : ∀ u ∈ ts, u.key ≠ key := fun u hu heq => hmem ⟨u, hu, heq⟩
    rw [dropKey_of_absent habsent]
    exact removeTuple_absent hsmall hfits hkey habsent

/-- Closing the store behind the tuples `ts`. -/
theorem markEnd_encodeTuples {ts : List Tuple} (rest : Bytes) (hfits : Fits size ts)
    (hlen : (encodeTuples ts ++ rest).length = size) :
    markEnd size (encodeTuples ts ++ rest) (encodeTuples ts).length = encodeStore size ts := by
  unfold Fits at hfits
  rw [List.length_append] at hlen
  obtain ⟨b, rest, rfl⟩ := List.exists_cons_of_length_pos (l := rest) (by omega)
  rw [List.length_cons] at hlen
  have hzero : writeAt (encodeTuples ts ++ b :: rest) (encodeTuples ts).length [0] =
      encodeTuples ts ++ 0 :: rest := by
    have := writeAt_append (encodeTuples ts) [b] rest [0] rfl rfl
    simpa using this
  have hend : (encodeTuples ts ++ [0]).length = (encodeTuples ts).length + 1 := by simp
  have hfill := writeAt_append (encodeTuples ts ++ [0]) rest []
    (List.replicate (size - ((encodeTuples ts).length + 1)) 0xff) hend
    (by rw [List.length_replicate]; omega)
  have hcount : size - (encodeTuples ts).length - 1 = size - ((encodeTuples ts).length + 1) := by
    omega
  rw [markEnd, hzero, encodeStore, hcount]
  simpa using hfill

/-- Once the new tuple stands behind the others, `setvar` closes the store there. -/
theorem markEnd_written {ts : List Tuple} {t : Tuple} (rest : Bytes)
    (hfits : Fits size (ts ++ [t]))
    (hlen : (encodeTuples ts ++ (t.encode ++ rest)).length = size) :
    markEnd size (encodeTuples ts ++ (t.encode ++ rest))
        (nextTuple (encodeTuples ts ++ (t.encode ++ rest)) (encodeTuples ts).length).1 =
      encodeStore size (ts ++ [t]) := by
  have hmark := markEnd_encodeTuples rest hfits (by simpa using hlen)
  rw [nextTuple_tuple]
  simpa using hmark

/-- The header and the key of the new tuple go behind the others. -/
theorem write_header (ts : List Tuple) {t : Tuple} {rest : Bytes} (hflags : t.flags = 0)
    (hroom : tupleHeader + t.key.length ≤ rest.length) :
    writeAt (writeAt (encodeTuples ts ++ rest) (encodeTuples ts).length
        [UInt8.ofNat t.key.length, UInt8.ofNat t.val.length, 0])
        ((encodeTuples ts).length + tupleHeader) t.key =
      encodeTuples ts ++ ([UInt8.ofNat t.key.length, UInt8.ofNat t.val.length, t.flags] ++ t.key) ++
        rest.drop (tupleHeader + t.key.length) := by
  set header : Bytes := [UInt8.ofNat t.key.length, UInt8.ofNat t.val.length, 0] with hheader
  have hsplit : rest = rest.take tupleHeader ++ (rest.drop tupleHeader).take t.key.length ++
      rest.drop (tupleHeader + t.key.length) := by
    rw [List.append_assoc, ← List.drop_drop, List.take_append_drop, List.take_append_drop]
  have hfirst := writeAt_append (encodeTuples ts) (rest.take tupleHeader)
    ((rest.drop tupleHeader).take t.key.length ++ rest.drop (tupleHeader + t.key.length))
    header rfl (by rw [List.length_take]; simp [hheader]; unfold tupleHeader at *; omega)
  have hend : (encodeTuples ts ++ header).length = (encodeTuples ts).length + tupleHeader := by
    simp [hheader, tupleHeader]
  have hsecond := writeAt_append (encodeTuples ts ++ header)
    ((rest.drop tupleHeader).take t.key.length) (rest.drop (tupleHeader + t.key.length)) t.key hend
    (by rw [List.length_take, List.length_drop]; omega)
  have hrest : encodeTuples ts ++ rest = encodeTuples ts ++ rest.take tupleHeader ++
      ((rest.drop tupleHeader).take t.key.length ++ rest.drop (tupleHeader + t.key.length)) := by
    conv_lhs => rw [hsplit]
    simp only [List.append_assoc]
  rw [hrest, hfirst, ← List.append_assoc, hsecond, hflags, hheader]
  simp only [List.append_assoc]

/-- `setvar` once there is room: the value decides the bytes of the new tuple. -/
theorem setvarBuf_of_room {buf : Bytes} {ts : List Tuple} {t : Tuple} {val : Value}
    (hroom : Room size ts (removeTuple size buf t.key)) (hflags : t.flags = 0)
    (hval : val.length = t.val.length) (hfits : Fits size (ts ++ [t]))
    (hcopy : ∀ rest : Bytes, (removeTuple size buf t.key).1 = encodeTuples ts ++ rest →
      ∃ rest' : Bytes,
        copyValue (encodeTuples ts ++ ([UInt8.ofNat t.key.length, UInt8.ofNat t.val.length,
            t.flags] ++ t.key) ++ rest.drop (tupleHeader + t.key.length))
            ((encodeTuples ts).length + tupleHeader + t.key.length) val =
          encodeTuples ts ++ (t.encode ++ rest') ∧
        (encodeTuples ts ++ (t.encode ++ rest')).length = size) :
    setvarBuf size buf t.key val = (ecSuccess, encodeStore size (ts ++ [t])) := by
  obtain ⟨⟨rest, hbuf⟩, hlen, hindex⟩ := hroom
  obtain ⟨rest', hwritten, hlen'⟩ := hcopy rest hbuf
  have hpos := t.val_pos
  have hfits' := hfits
  unfold Fits at hfits'
  simp only [encodeTuples_append, encodeTuples_cons, encodeTuples_nil, List.append_nil,
    List.length_append, t.length_encode] at hfits'
  rw [hbuf, List.length_append] at hlen
  have hheaderRoom : tupleHeader + t.key.length ≤ rest.length := by lia
  have hheader := write_header ts hflags hheaderRoom
  unfold setvarBuf
  rw [if_neg (by lia), if_neg (by lia)]
  simp only [hbuf, hindex, hval, hheader, hwritten]
  rw [markEnd_written rest' hfits hlen']

/-- **`setvar` with a value of the caller**: the other tuples in their order, and the
new one behind them. -/
theorem setvarBuf_outside {buf : Bytes} {ts : List Tuple} {t : Tuple}
    (hroom : Room size ts (removeTuple size buf t.key)) (hflags : t.flags = 0)
    (hfits : Fits size (ts ++ [t])) :
    setvarBuf size buf t.key (.outside t.val) = (ecSuccess, encodeStore size (ts ++ [t])) := by
  refine setvarBuf_of_room hroom hflags rfl hfits ?_
  intro rest hbuf
  have hlen := hroom.buf_length
  rw [hbuf, List.length_append] at hlen
  unfold Fits at hfits
  simp only [encodeTuples_append, encodeTuples_cons, encodeTuples_nil, List.append_nil,
    List.length_append, t.length_encode] at hfits
  set front := encodeTuples ts ++ ([UInt8.ofNat t.key.length, UInt8.ofNat t.val.length, t.flags] ++
    t.key) with hfront
  set space := rest.drop (tupleHeader + t.key.length) with hspace
  have hspaceLen : space.length = rest.length - (tupleHeader + t.key.length) := by
    rw [hspace, List.length_drop]
  have hend : front.length = (encodeTuples ts).length + tupleHeader + t.key.length := by
    simp [hfront, tupleHeader]
    lia
  have hwrite := writeAt_append front (space.take t.val.length) (space.drop t.val.length) t.val hend
    (by rw [List.length_take]; lia)
  rw [List.append_assoc front, List.take_append_drop] at hwrite
  refine ⟨space.drop t.val.length, ?_, ?_⟩
  · rw [copyValue, hwrite, hfront]
    simp [Tuple.encode]
  · simp only [List.length_append, List.length_drop, t.length_encode]
    lia

/-! ## Values inside the RAM copy -/

/-- The tuple with its flags cleared, as `setvar` writes it. -/
def Tuple.fresh (t : Tuple) : Tuple := { t with flags := 0 }

theorem Tuple.length_encode_fresh (t : Tuple) : t.fresh.encode.length = t.encode.length := by
  rw [t.fresh.length_encode, t.length_encode]
  rfl

include hsmall in
/-- The value of the last tuple is copied onto itself. -/
theorem setvarBuf_inside_last {before : List Tuple} {t : Tuple} (hfits : Fits size (before ++ [t]))
    (hbefore : ∀ u ∈ before, u.key ≠ t.key) :
    setvarBuf size (encodeStore size (before ++ [t])) t.key
        (.inside ((encodeTuples before).length + tupleHeader + t.key.length) t.val.length) =
      (ecSuccess, encodeStore size (before ++ [t.fresh])) := by
  have hremove := removeTuple_last hsmall hfits hbefore
  set fill : Bytes := 0 :: List.replicate (size - (encodeTuples (before ++ [t])).length - 1) 0xff
    with hfill
  have hstore : encodeStore size (before ++ [t]) = encodeTuples before ++ (t.encode ++ fill) := by
    simp [encodeStore, hfill]
  have hlen := length_encodeStore hfits
  have hroom : Room size before (removeTuple size (encodeStore size (before ++ [t])) t.fresh.key) := by
    rw [show t.fresh.key = t.key from rfl, hremove]
    exact ⟨⟨_, hstore⟩, hlen, rfl⟩
  have hfits' : Fits size (before ++ [t.fresh]) := by
    unfold Fits at hfits ⊢
    simpa [t.length_encode_fresh] using hfits
  refine setvarBuf_of_room hroom rfl rfl hfits' ?_
  intro rest hbuf
  rw [show t.fresh.key = t.key from rfl, hremove, hstore] at hbuf
  have hrest : rest = t.encode ++ fill := (List.append_cancel_left hbuf).symm
  have hspace : rest.drop (tupleHeader + t.key.length) = t.val ++ fill := by
    rw [hrest, Tuple.encode, List.append_assoc, List.append_assoc, ← List.drop_drop]
    simp [tupleHeader]
  refine ⟨fill, ?_, ?_⟩
  · have hself := copyForward_self (encodeTuples before ++ (t.fresh.encode ++ fill))
      ((encodeTuples before).length + tupleHeader + t.key.length) t.val.length (by
        rw [List.length_append, List.length_append, t.fresh.length_encode]
        simp only [Tuple.fresh]
        omega)
    simp only [Tuple.fresh, copyValue] at hself ⊢
    rw [hspace]
    simpa [Tuple.encode] using hself
  · rw [hstore] at hlen
    simpa [t.length_encode_fresh] using hlen

/-- The bytes between the old place of the value and its new one. -/
def overlap (t : Tuple) (after : List Tuple) : Bytes :=
  (encodeTuples after ++ ([UInt8.ofNat t.key.length, UInt8.ofNat t.val.length, 0] ++ t.key)).drop
    (tupleHeader + t.key.length)

theorem length_overlap (t : Tuple) (after : List Tuple) :
    (overlap t after).length = (encodeTuples after).length := by
  simp [overlap, tupleHeader]
  omega

/-- The tuple that `setvar` writes when the tuples behind it have been moved over the
value it is asked to store. -/
def Tuple.overwritten (t : Tuple) (after : List Tuple) : Tuple where
  key := t.key
  val := cyclic (overlap t after) t.val.length
  flags := 0
  key_pos := t.key_pos
  key_lt := t.key_lt
  val_pos := by rw [length_cyclic]; exact t.val_pos
  val_lt := by rw [length_cyclic]; exact t.val_lt

include hsmall in
/-- The value of any other tuple is gone when it is copied: the new tuple repeats the
bytes that have been moved there. -/
theorem setvarBuf_inside_moved {before after : List Tuple} {t : Tuple} (hafter : after ≠ [])
    (hfits : Fits size (before ++ t :: after)) (hbefore : ∀ u ∈ before, u.key ≠ t.key) :
    setvarBuf size (encodeStore size (before ++ t :: after)) t.key
        (.inside ((encodeTuples before).length + tupleHeader + t.key.length) t.val.length) =
      (ecSuccess, encodeStore size (before ++ after ++ [t.overwritten after])) := by
  obtain ⟨tail, hremove, hlen⟩ := removeTuple_moved hsmall hafter hfits hbefore
  set u := t.overwritten after with hu
  have hukey : u.key = t.key := rfl
  have hulen : u.val.length = t.val.length := length_cyclic _ _
  have huenc : u.encode.length = t.encode.length := by
    rw [u.length_encode, t.length_encode, hukey, hulen]
  have hroom : Room size (before ++ after)
      (removeTuple size (encodeStore size (before ++ t :: after)) u.key) := by
    rw [hukey, hremove]
    exact ⟨⟨0 :: tail, by simp⟩, hlen, rfl⟩
  have hfits' : Fits size (before ++ after ++ [u]) := by
    unfold Fits at hfits ⊢
    simp only [encodeTuples_append, encodeTuples_cons, encodeTuples_nil, List.length_append,
      List.append_nil, huenc] at hfits ⊢
    lia
  rw [← hukey]
  refine setvarBuf_of_room hroom rfl hulen.symm hfits' ?_
  intro rest hbuf
  have hrestLen : (encodeTuples (before ++ after)).length + rest.length = size := by
    have := hroom.buf_length
    rw [hbuf, List.length_append] at this
    exact this
  unfold Fits at hfits'
  simp only [encodeTuples_append _ [u], encodeTuples_cons, encodeTuples_nil, List.append_nil,
    List.length_append, u.length_encode, hulen] at hfits' hrestLen
  set space := rest.drop (tupleHeader + u.key.length) with hspace
  have hspaceLen : space.length = rest.length - (tupleHeader + u.key.length) := by
    rw [hspace, List.length_drop]
  -- Before the copy: what stays in front of the source, then the overlap, then room.
  set moved := encodeTuples after ++ ([UInt8.ofNat t.key.length, UInt8.ofNat t.val.length, 0] ++
    t.key) with hmoved
  set front := encodeTuples before ++ moved.take (tupleHeader + t.key.length) with hfront
  have hmovedLen : moved.length = (encodeTuples after).length + (tupleHeader + t.key.length) := by
    simp [hmoved, tupleHeader]
    lia
  have hfrontLen : front.length = (encodeTuples before).length + tupleHeader + t.key.length := by
    rw [hfront, List.length_append, List.length_take]
    lia
  have hsplit : encodeTuples (before ++ after) ++ ([UInt8.ofNat u.key.length,
      UInt8.ofNat u.val.length, u.flags] ++ u.key) = front ++ overlap t after := by
    have hpieces : moved.take (tupleHeader + t.key.length) ++ overlap t after = moved := by
      rw [overlap, ← hmoved, List.take_append_drop]
    rw [hfront, List.append_assoc, hpieces, hmoved, hulen, hukey, encodeTuples_append,
      List.append_assoc]
    rfl
  have hne : overlap t after ≠ [] := by
    intro hnil
    have hzero := length_overlap t after
    have hcount := length_le_encodeTuples after
    rw [hnil] at hzero
    exact hafter (List.length_eq_zero_iff.mp (by simp at hzero; lia))
  have hspace : t.val.length ≤ space.length := by
    rw [hspaceLen]
    lia
  have hcyclic := copyForward_cyclic front (overlap t after) space hne hspace
  have hdst : (encodeTuples (before ++ after)).length + tupleHeader + u.key.length =
      front.length + (overlap t after).length := by
    rw [hfrontLen, length_overlap, hukey, encodeTuples_append, List.length_append]
    lia
  refine ⟨space.drop t.val.length, ?_, ?_⟩
  · rw [hsplit, hdst, copyValue, hukey, ← hfrontLen, hcyclic, ← hsplit]
    simp [Tuple.encode, hu, Tuple.overwritten]
  · rw [List.length_append, List.length_append, List.length_drop, hspaceLen, u.length_encode, hulen]
    lia

/-- The old place of the value then holds what the new tuple holds. -/
theorem drop_encodeStore_overwritten (size : Nat) (before : List Tuple) {after : List Tuple}
    {t : Tuple} (hafter : after ≠ []) :
    ((encodeStore size (before ++ after ++ [t.overwritten after])).drop
        ((encodeTuples before).length + tupleHeader + t.key.length)).take t.val.length =
      (t.overwritten after).val := by
  set u := t.overwritten after with hu
  have hlen : u.val.length = t.val.length := length_cyclic _ _
  have hne : overlap t after ≠ [] := by
    intro hnil
    have hzero := length_overlap t after
    have hcount := length_le_encodeTuples after
    rw [hnil] at hzero
    exact hafter (List.length_eq_zero_iff.mp (by simp at hzero; omega))
  have hshape : encodeStore size (before ++ after ++ [u]) =
      encodeTuples before ++ (encodeTuples after ++ ([UInt8.ofNat t.key.length,
        UInt8.ofNat t.val.length, 0] ++ t.key) ++ (u.val ++
          0 :: List.replicate (size - (encodeTuples (before ++ after ++ [u])).length - 1) 0xff)) := by
    have huenc : u.encode = [UInt8.ofNat t.key.length, UInt8.ofNat t.val.length, 0] ++ t.key ++
        u.val := by
      rw [Tuple.encode, hlen]
      rfl
    simp only [encodeStore, encodeTuples_append, encodeTuples_cons, encodeTuples_nil, huenc,
      List.append_assoc, List.append_nil]
  have hlong : tupleHeader + t.key.length ≤ (encodeTuples after ++ ([UInt8.ofNat t.key.length,
      UInt8.ofNat t.val.length, 0] ++ t.key)).length := by
    simp [tupleHeader]
    omega
  rw [hshape, Nat.add_assoc, ← List.drop_drop, List.drop_left,
    List.drop_append_of_le_length hlong, ← overlap, ← List.append_assoc,
    List.take_append_of_le_length (by rw [List.length_append, hlen]; omega)]
  exact take_append_cyclic _ _ hne

end Vars
end CrosEc
