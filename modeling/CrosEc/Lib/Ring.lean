import Mathlib.Tactic

/-!
# Ring buffers

A buffer of `N` cells is read and written in pieces that must lie inside it (`loadAt`,
`storeAt`).  As a ring it is indexed by positions that only grow; position `pos` is cell
`pos % N`.  `RingHas buf pos xs` says that `xs` lies in the ring from `pos` on.

Code copies into and out of a ring in two pieces, up to the end of the buffer and from its
start (`storeAt_ring`, `loadAt_ring`); `isGreatest_run_inRing` and `isGreatest_run_not_inRing`
say how long the first piece of the contents and of the room behind them can be.  The rules for
what is in the ring are those of a concatenation (`ringHas_append`), of another position for the
same cell (`RingHas.congr`) and of a write behind the contents (`RingHas.overlay`).  Positions may
be machine counters that wrap, as long as the buffer has a power of two units (`counter_add`).
`RingQueue` is for code that moves one element at a time.
-/

namespace CrosEc
namespace Lib

variable {α : Type}

/-- The cells from `off` on, if they exist. -/
def loadAt (buf : List α) (off len : Nat) : Option (List α) :=
  if off + len ≤ buf.length then some ((buf.drop off).take len) else none

/-- Overwrite the cells from `off` on, if they exist. -/
def storeAt (buf : List α) (off : Nat) (data : List α) : Option (List α) :=
  if off + data.length ≤ buf.length then
    some (buf.take off ++ data ++ buf.drop (off + data.length))
  else none

/-- Copy cells from one buffer to another. -/
def copyAt (dest : List α) (destOff : Nat) (src : List α) (srcOff len : Nat) : Option (List α) :=
  match loadAt src srcOff len with
  | none => none
  | some data => storeAt dest destOff data

/-- `xs` lies in the ring from `pos` on. -/
def RingHas (buf : List α) (pos : Nat) (xs : List α) : Prop :=
  ∀ i < xs.length, buf[(pos + i) % buf.length]? = xs[i]?

/-- The ring after `data` has been written to `pos`. -/
structure Overlay (buf : List α) (pos : Nat) (data buf' : List α) : Prop where
  length_eq : buf'.length = buf.length
  cell : ∀ i < buf.length, buf'[(pos + i) % buf.length]? =
    if i < data.length then data[i]? else buf[(pos + i) % buf.length]?

variable {buf buf' xs ys data : List α} {pos pos' off : Nat}

/-! ## Pieces -/

theorem loadAt_eq_some {len : Nat} (h : off + len ≤ buf.length) :
    loadAt buf off len = some ((buf.drop off).take len) := if_pos h

@[simp] theorem loadAt_zero (buf : List α) : loadAt buf 0 0 = some [] := by
  simp [loadAt]

/-- Cell by cell: the data where it was stored, the old contents elsewhere. -/
theorem storeAt_spec (h : off + data.length ≤ buf.length) :
    ∃ buf', storeAt buf off data = some buf' ∧ buf'.length = buf.length ∧
      ∀ i : Nat, buf'[i]? =
        if off ≤ i ∧ i < off + data.length then data[i - off]? else buf[i]? := by
  refine ⟨_, if_pos h, ?_, ?_⟩
  · simp only [List.length_append, List.length_take, List.length_drop]
    lia
  · intro i
    have hlen : (buf.take off).length = off := by
      rw [List.length_take]
      lia
    by_cases hlow : i < off
    · rw [if_neg (by lia), List.append_assoc, List.getElem?_append_left (by lia),
        List.getElem?_take_of_lt hlow]
    · by_cases hhigh : i < off + data.length
      · rw [if_pos (by lia), List.append_assoc, List.getElem?_append_right (by lia), hlen,
          List.getElem?_append_left (by lia)]
      · rw [if_neg (by lia), List.getElem?_append_right (by simp [hlen]; lia),
          List.getElem?_drop]
        congr 1
        simp only [List.length_append, hlen]
        lia

theorem storeAt_nil (h : off ≤ buf.length) : storeAt buf off [] = some buf := by
  simp [storeAt, h]

/-- A copy that goes on where the last one ended. -/
theorem storeAt_append (xs : List α) (h : data.length ≤ ys.length) :
    storeAt (xs ++ ys) xs.length data = some (xs ++ data ++ ys.drop data.length) := by
  have hdrop : (xs ++ ys).drop (xs.length + data.length) = ys.drop data.length := by
    rw [List.drop_append]
    simp
  rw [storeAt, if_pos (by simpa using h), List.take_left, hdrop]

/-- A piece of the buffer is replaced by one of the same length. -/
theorem storeAt_middle (pre old post : List α) (hoff : pre.length = off)
    (hlen : old.length = data.length) :
    storeAt (pre ++ old ++ post) off data = some (pre ++ data ++ post) := by
  have hroom : data.length ≤ (old ++ post).length := by
    rw [List.length_append]
    omega
  rw [← hoff, List.append_assoc, storeAt_append pre hroom, ← hlen, List.drop_left]

/-- A piece of the buffer is read. -/
theorem loadAt_middle {len : Nat} (pre post : List α) (hoff : pre.length = off)
    (hlen : xs.length = len) : loadAt (pre ++ xs ++ post) off len = some xs := by
  subst hoff hlen
  rw [loadAt_eq_some (by simp), List.append_assoc, List.drop_left, List.take_left]

/-- A read that succeeds is a piece of the buffer. -/
theorem loadAt_split {len : Nat} (h : loadAt buf off len = some xs) :
    ∃ pre post, buf = pre ++ xs ++ post ∧ pre.length = off ∧ xs.length = len := by
  unfold loadAt at h
  split at h
  case isTrue hfits =>
    cases h
    refine ⟨buf.take off, buf.drop (off + len), ?_, ?_, ?_⟩
    · rw [← List.take_add, List.take_append_drop]
    all_goals
      simp only [List.length_take, List.length_drop]
      omega
  case isFalse => cases h

/-- A write that succeeds is inside the buffer. -/
theorem storeAt_fits (h : storeAt buf off data = some buf') : off + data.length ≤ buf.length := by
  by_contra hno
  rw [storeAt, if_neg hno] at h
  cases h

/-- What was stored is read back. -/
theorem loadAt_storeAt (h : storeAt buf off data = some buf') :
    loadAt buf' off data.length = some data := by
  have hfits := storeAt_fits h
  rw [storeAt, if_pos hfits] at h
  obtain rfl := Option.some.inj h
  exact loadAt_middle _ _ (by rw [List.length_take]; omega) rfl

/-- Two copies that touch are one. -/
theorem storeAt_storeAt {buf₁ : List α} (h₁ : storeAt buf off xs = some buf₁)
    (h₂ : storeAt buf₁ (off + xs.length) ys = some buf') :
    storeAt buf off (xs ++ ys) = some buf' := by
  have hfit₁ := storeAt_fits h₁
  have heq₁ : buf₁ = buf.take off ++ xs ++ buf.drop (off + xs.length) := by
    rw [storeAt, if_pos hfit₁] at h₁
    exact (Option.some.inj h₁).symm
  have hlen : (buf.take off ++ xs).length = off + xs.length := by
    rw [List.length_append, List.length_take]
    lia
  have hfit₂ : ys.length ≤ (buf.drop (off + xs.length)).length := by
    have hfits := storeAt_fits h₂
    rw [heq₁, List.length_append, hlen] at hfits
    lia
  have hsplit := storeAt_append (buf.take off ++ xs) hfit₂
  rw [hlen, ← heq₁, h₂] at hsplit
  rw [Option.some.inj hsplit, storeAt, if_pos (by
    rw [List.length_drop] at hfit₂
    rw [List.length_append]
    lia)]
  simp [List.drop_drop, Nat.add_assoc]

theorem storeAt_isSome (h : off + data.length ≤ buf.length) :
    ∃ buf', storeAt buf off data = some buf' ∧ buf'.length = buf.length := by
  obtain ⟨buf', hstore, hlen, -⟩ := storeAt_spec h
  exact ⟨buf', hstore, hlen⟩

/-- And one copy may be made in two. -/
theorem storeAt_split (h : storeAt buf off (xs ++ ys) = some buf') :
    ∃ buf₁, storeAt buf off xs = some buf₁ ∧ storeAt buf₁ (off + xs.length) ys = some buf' := by
  have hfit := storeAt_fits h
  rw [List.length_append] at hfit
  obtain ⟨buf₁, h₁, hlen⟩ := storeAt_isSome (by omega : off + xs.length ≤ buf.length)
  obtain ⟨buf₂, h₂, -⟩ := storeAt_isSome (by omega : off + xs.length + ys.length ≤ buf₁.length)
  have hboth := storeAt_storeAt h₁ h₂
  rw [h] at hboth
  cases hboth
  exact ⟨buf₁, h₁, h₂⟩

/-! ## The contents of a ring -/

theorem ringHas_append :
    RingHas buf pos (xs ++ ys) ↔ RingHas buf pos xs ∧ RingHas buf (pos + xs.length) ys := by
  constructor
  · intro h
    refine ⟨?_, ?_⟩
    · intro i hi
      rw [h i (by simp; omega), List.getElem?_append_left hi]
    · intro i hi
      have hcell := h (xs.length + i) (by simp; omega)
      rw [List.getElem?_append_right (by omega), Nat.add_sub_cancel_left, ← Nat.add_assoc] at hcell
      exact hcell
  · rintro ⟨hxs, hys⟩ i hi
    by_cases hlow : i < xs.length
    · rw [List.getElem?_append_left hlow]
      exact hxs i hlow
    · have hcell := hys (i - xs.length) (by simp at hi; omega)
      rw [Nat.add_assoc, Nat.add_sub_cancel' (by omega)] at hcell
      rw [hcell, List.getElem?_append_right (by omega)]

/-- Something lies at every place of a ring. -/
theorem exists_ringHas (hpos : 0 < buf.length) (pos len : Nat) :
    ∃ xs, xs.length = len ∧ RingHas buf pos xs := by
  have hcell : ∀ i, (pos + i) % buf.length < buf.length := fun i => Nat.mod_lt _ hpos
  refine ⟨List.ofFn fun i : Fin len => buf.get ⟨(pos + i) % buf.length, hcell i⟩,
    List.length_ofFn, fun i hi => ?_⟩
  rw [List.length_ofFn] at hi
  rw [List.getElem?_eq_getElem (hcell i), List.getElem?_ofFn, dif_pos hi]
  rfl

/-- A position counts up to the length of the buffer. -/
theorem RingHas.congr (h : RingHas buf pos xs) (hpos : pos ≡ pos' [MOD buf.length]) :
    RingHas buf pos' xs := by
  intro i hi
  rw [← h i hi, (hpos.symm.add_right i : (pos' + i) % buf.length = _)]

theorem Overlay.congr (h : Overlay buf pos data buf') (hpos : pos ≡ pos' [MOD buf.length]) :
    Overlay buf pos' data buf' := by
  refine ⟨h.length_eq, ?_⟩
  intro i hi
  rw [(hpos.symm.add_right i : (pos' + i) % buf.length = _)]
  exact h.cell i hi

/-- What is written behind the contents does not touch them. -/
theorem RingHas.overlay (h : RingHas buf pos xs) (hnew : Overlay buf (pos + xs.length) data buf')
    (hfits : xs.length + data.length ≤ buf.length) : RingHas buf' pos (xs ++ data) := by
  refine ringHas_append.mpr ⟨?_, ?_⟩
  · intro i hi
    -- Seen from the end of the contents, cell `i` comes after the rest of the ring.
    have hcell := hnew.cell (buf.length - xs.length + i) (by lia)
    have hpos : (pos + xs.length + (buf.length - xs.length + i)) = pos + i + buf.length := by lia
    rw [hpos, Nat.add_mod_right, if_neg (by lia)] at hcell
    rw [hnew.length_eq, hcell]
    exact h i hi
  · intro i hi
    rw [hnew.length_eq, hnew.cell i (by lia), if_pos hi]

/-- One cell is written. -/
theorem overlay_set (buf : List α) (pos : Nat) (x : α) :
    Overlay buf pos [x] (buf.set (pos % buf.length) x) := by
  refine ⟨List.length_set, ?_⟩
  intro i hi
  cases i with
  | zero =>
      have hcell : pos % buf.length < buf.length := Nat.mod_lt _ hi
      simp [hcell]
  | succ i =>
      have hne : pos % buf.length ≠ (pos + (i + 1)) % buf.length := by
        intro heq
        have hmod : 0 ≡ i + 1 [MOD buf.length] := Nat.ModEq.add_left_cancel' pos heq
        have hzero : i + 1 = 0 := by
          rw [← Nat.mod_eq_of_lt hi, ← hmod, Nat.zero_mod]
        omega
      rw [List.getElem?_set_ne hne, if_neg (by simp)]

/-! ## Queues

Code keeps the cell of the first element and the cell behind the last one. -/

/-- The elements `xs` lie in the ring from cell `start` on, up to cell `stop`. -/
structure RingQueue (buf : List α) (start stop : Nat) (xs : List α) : Prop where
  start_lt : start < buf.length
  length_le : xs.length ≤ buf.length
  stop_eq : stop = (start + xs.length) % buf.length
  ring : RingHas buf start xs

namespace RingQueue

variable {start stop : Nat} {x : α}

theorem nil (h : start < buf.length) : RingQueue buf start start [] where
  start_lt := h
  length_le := Nat.zero_le _
  stop_eq := (Nat.mod_eq_of_lt h).symm
  ring := fun _ hi => absurd hi (Nat.not_lt_zero _)

theorem stop_lt (h : RingQueue buf start stop xs) : stop < buf.length := by
  rw [h.stop_eq]
  exact Nat.mod_lt _ (Nat.zero_lt_of_lt h.start_lt)

theorem ring_set (h : RingQueue buf start stop xs) (hroom : xs.length < buf.length) (x : α) :
    RingHas (buf.set stop x) start (xs ++ [x]) := by
  have hset := overlay_set buf (start + xs.length) x
  rw [← h.stop_eq] at hset
  exact h.ring.overlay hset hroom

/-- The cell behind the last element is free. -/
theorem overwrite (h : RingQueue buf start stop xs) (hroom : xs.length < buf.length) (x : α) :
    RingQueue (buf.set stop x) start stop xs := by
  refine ⟨?_, ?_, ?_, (ringHas_append.mp (h.ring_set hroom x)).1⟩
  all_goals rw [List.length_set]
  · exact h.start_lt
  · exact h.length_le
  · exact h.stop_eq

theorem push (h : RingQueue buf start stop xs) (hroom : xs.length < buf.length) (x : α) :
    RingQueue (buf.set stop x) start ((stop + 1) % buf.length) (xs ++ [x]) := by
  refine ⟨?_, ?_, ?_, h.ring_set hroom x⟩
  all_goals rw [List.length_set]
  · exact h.start_lt
  · rw [List.length_append, List.length_singleton]
    exact hroom
  · rw [h.stop_eq, Nat.mod_add_mod, List.length_append, List.length_singleton, Nat.add_assoc]

theorem pop (h : RingQueue buf start stop (x :: xs)) :
    RingQueue buf ((start + 1) % buf.length) stop xs := by
  refine ⟨Nat.mod_lt _ (Nat.zero_lt_of_lt h.start_lt), Nat.le_of_succ_le h.length_le, ?_, ?_⟩
  · rw [h.stop_eq, Nat.mod_add_mod, List.length_cons]
    congr 1
    omega
  · have hboth : RingHas buf start ([x] ++ xs) := h.ring
    exact (ringHas_append.mp hboth).2.congr (Nat.mod_modEq _ _).symm

theorem front (h : RingQueue buf start stop (x :: xs)) : buf[start]? = some x := by
  have hcell := h.ring 0 (Nat.succ_pos _)
  rw [Nat.add_zero, Nat.mod_eq_of_lt h.start_lt] at hcell
  exact hcell

/-- The elements, read from the first cell on. -/
theorem contents (h : RingQueue buf start stop xs) : (buf.rotate start).take xs.length = xs := by
  apply List.ext_getElem?
  intro i
  by_cases hi : i < xs.length
  · have hlen := h.length_le
    rw [List.getElem?_take_of_lt hi, List.getElem?_rotate (by omega), ← h.ring i hi, Nat.add_comm i]
  · rw [List.getElem?_take_eq_none (by omega), List.getElem?_eq_none (by omega)]

end RingQueue

/-! ## Two pieces -/

/-- Where a position is found, from another one less than a turn before it. -/
theorem ring_index {N i : Nat} (hi : i < N) (pos : Nat) :
    (pos + i) % N = if pos % N + i < N then pos % N + i else pos % N + i - N := by
  have hp := Nat.mod_lt pos (by omega : 0 < N)
  rw [← Nat.mod_add_mod]
  split
  · exact Nat.mod_eq_of_lt ‹_›
  · rw [Nat.mod_eq_sub_mod (by omega)]
    exact Nat.mod_eq_of_lt (by omega)

/-- **A write in two pieces.** -/
theorem storeAt_ring (hpos : 0 < buf.length) (hdata : data.length ≤ buf.length) (pos : Nat) {k : Nat}
    (hk : k = min data.length (buf.length - pos % buf.length)) :
    ∃ buf₁ buf', storeAt buf (pos % buf.length) (data.take k) = some buf₁ ∧
      storeAt buf₁ 0 (data.drop k) = some buf' ∧ Overlay buf pos data buf' := by
  have hp := Nat.mod_lt pos hpos
  have htake : (data.take k).length = k := by
    rw [List.length_take]
    lia
  have hdrop : (data.drop k).length = data.length - k := List.length_drop
  obtain ⟨buf₁, hstore₁, hlen₁, hcell₁⟩ :=
    storeAt_spec (by lia : pos % buf.length + (data.take k).length ≤ buf.length)
  obtain ⟨buf', hstore', hlen', hcell'⟩ :=
    storeAt_spec (by lia : 0 + (data.drop k).length ≤ buf₁.length)
  refine ⟨buf₁, buf', hstore₁, hstore', hlen'.trans hlen₁, ?_⟩
  intro i hi
  rw [ring_index hi, hcell', hcell₁, hdrop, htake]
  by_cases hturn : pos % buf.length + i < buf.length
  · -- Before the end of the buffer: the first piece, or not written.
    rw [if_pos hturn, if_neg (by lia)]
    by_cases hin : i < data.length
    · rw [if_pos (by lia), if_pos hin, Nat.add_sub_cancel_left,
        List.getElem?_take_of_lt (by lia)]
    · rw [if_neg (by lia), if_neg hin]
  · -- Behind it: the second piece, or not written.
    rw [if_neg hturn]
    by_cases hin : i < data.length
    · rw [if_pos (by lia), if_pos hin, List.getElem?_drop]
      congr 1
      lia
    · rw [if_neg (by lia), if_neg (by lia), if_neg hin]

/-- A write in one piece, if the end of the buffer is far enough. -/
theorem overlay_of_storeAt (hpos : 0 < buf.length)
    (h : storeAt buf (pos % buf.length) data = some buf') : Overlay buf pos data buf' := by
  have hfits := storeAt_fits h
  obtain ⟨buf₁, buf₂, hstore₁, hstore₂, hover⟩ :=
    storeAt_ring hpos (by omega) pos (by omega : data.length = min data.length _)
  rw [List.take_length, h] at hstore₁
  obtain rfl := Option.some.inj hstore₁
  rw [List.drop_length, storeAt_nil (Nat.zero_le _)] at hstore₂
  obtain rfl := Option.some.inj hstore₂
  exact hover

/-- **A read in two pieces.** -/
theorem loadAt_ring (h : RingHas buf pos xs) (hxs : xs.length ≤ buf.length) (hpos : 0 < buf.length)
    {k : Nat} (hk : k = min xs.length (buf.length - pos % buf.length)) :
    loadAt buf (pos % buf.length) k = some (xs.take k) ∧
      loadAt buf 0 (xs.length - k) = some (xs.drop k) := by
  have hp := Nat.mod_lt pos hpos
  refine ⟨?_, ?_⟩
  · rw [loadAt_eq_some (by lia)]
    congr 1
    apply List.ext_getElem?
    intro i
    by_cases hi : i < k
    · have hcell := h i (by lia)
      rw [ring_index (by lia), if_pos (by lia)] at hcell
      rw [List.getElem?_take_of_lt hi, List.getElem?_take_of_lt hi, List.getElem?_drop, hcell]
    · rw [List.getElem?_take_eq_none (by lia), List.getElem?_take_eq_none (by lia)]
  · rw [loadAt_eq_some (by lia)]
    congr 1
    apply List.ext_getElem?
    intro i
    by_cases hi : i < xs.length - k
    · have hcell := h (k + i) (by lia)
      rw [ring_index (by lia), if_neg (by lia)] at hcell
      rw [List.getElem?_take_of_lt hi, List.getElem?_drop, List.getElem?_drop, ← hcell]
      congr 1
      lia
    · rw [List.getElem?_take_eq_none (by lia),
        List.getElem?_eq_none (by rw [List.length_drop]; lia)]

/-! ## Rings of units

The buffer has `U` units of `b` cells, and positions count units. -/

variable {U b t f x : Nat}

theorem min_units (U b t x : Nat) :
    min t (U - x % U) * b = min (t * b) (U * b - x * b % (U * b)) := by
  rw [Nat.mul_mod_mul_right, ← Nat.sub_mul]
  exact (Nat.mul_min_mul_right t (U - x % U) b).symm

/-- Storing `t` units at unit `x` of the ring. -/
theorem storeAt_units (hbuf : buf.length = U * b) (hpos : 0 < U * b) (hdata : data.length = t * b)
    (ht : t ≤ U) (x : Nat) (hf : f = min t (U - x % U)) :
    ∃ buf₁ buf', storeAt buf (x % U * b) (data.take (f * b)) = some buf₁ ∧
      storeAt buf₁ 0 (data.drop (f * b)) = some buf' ∧ Overlay buf (x * b) data buf' := by
  have hle : t * b ≤ U * b := Nat.mul_le_mul_right b ht
  have hk : f * b = min data.length (buf.length - x * b % buf.length) := by
    rw [hf, hdata, hbuf]
    exact min_units U b t x
  have hring := storeAt_ring (by omega : 0 < buf.length) (by omega) (x * b) hk
  rw [hbuf, Nat.mul_mod_mul_right] at hring
  exact hring

/-- Loading `t` units from unit `x` of the ring. -/
theorem loadAt_units (hbuf : buf.length = U * b) (hpos : 0 < U * b) (h : RingHas buf (x * b) xs)
    (hxs : xs.length = t * b) (ht : t ≤ U) (hf : f = min t (U - x % U)) :
    loadAt buf (x % U * b) (f * b) = some (xs.take (f * b)) ∧
      loadAt buf 0 ((t - f) * b) = some (xs.drop (f * b)) := by
  have hle : t * b ≤ U * b := Nat.mul_le_mul_right b ht
  have hk : f * b = min xs.length (buf.length - x * b % buf.length) := by
    rw [hf, hxs, hbuf]
    exact min_units U b t x
  have hring := loadAt_ring h (by omega) (by omega) hk
  rw [hbuf, Nat.mul_mod_mul_right, hxs, ← Nat.sub_mul] at hring
  exact hring

/-- Copying `t` units from unit `x` of the ring to the start of `dest`. -/
theorem copyAt_units {dest : List α} (hbuf : buf.length = U * b) (hpos : 0 < U * b)
    (h : RingHas buf (x * b) xs) (hxs : xs.length = t * b) (ht : t ≤ U)
    (hf : f = min t (U - x % U)) (hdest : xs.length ≤ dest.length) :
    ∃ dest₁, copyAt dest 0 buf (x % U * b) (f * b) = some dest₁ ∧
      (if f < t then copyAt dest₁ (f * b) buf 0 ((t - f) * b) else some dest₁) =
        some (xs ++ dest.drop xs.length) := by
  have hle : f * b ≤ t * b := Nat.mul_le_mul_right b (by lia)
  have hlen : (xs.take (f * b)).length = f * b := by
    rw [List.length_take]
    lia
  obtain ⟨hload₁, hload₂⟩ := loadAt_units hbuf hpos h hxs ht hf
  have hroom₁ : (xs.take (f * b)).length ≤ dest.length := by lia
  have hroom₂ : (xs.drop (f * b)).length ≤ (dest.drop (f * b)).length := by
    rw [List.length_drop, List.length_drop]
    lia
  have hstore₁ := storeAt_append [] hroom₁
  have hstore₂ := storeAt_append (xs.take (f * b)) hroom₂
  rw [hlen] at hstore₁ hstore₂
  refine ⟨xs.take (f * b) ++ dest.drop (f * b), ?_, ?_⟩
  · simp only [copyAt, hload₁]
    exact hstore₁
  · by_cases hlt : f < t
    · simp only [if_pos hlt, copyAt, hload₂, hstore₂]
      rw [List.take_append_drop, List.drop_drop, List.length_drop, hxs, Nat.add_sub_cancel' hle]
    · have hall : f = t := by lia
      rw [if_neg hlt, hall, ← hxs, List.take_length]

/-! ## Runs of cells -/

section CellRuns

variable {N pos len n : Nat}

/-- Cell `p` is one of the `len` from position `pos` on. -/
def InRing (N pos len p : Nat) : Prop := ∃ i < len, p = (pos + i) % N

/-- The `n` cells from `start` on lie in the buffer, and all of them are `P`. -/
def IsRun (N start : Nat) (P : Nat → Prop) (n : Nat) : Prop :=
  start + n ≤ N ∧ ∀ p, start ≤ p → p < start + n → P p

theorem ring_index_of_lt {i : Nat} (hend : pos % N + i < N) : (pos + i) % N = pos % N + i := by
  rw [ring_index (by omega), if_pos hend]

/-- The contents of a ring in one piece: up to their end, or to that of the buffer. -/
theorem isGreatest_run_inRing (hpos : 0 < N) (hlen : len ≤ N) (pos : Nat) :
    IsGreatest {n | IsRun N (pos % N) (InRing N pos len) n} (min len (N - pos % N)) := by
  have hstart := Nat.mod_lt pos hpos
  constructor
  · refine ⟨by lia, fun p hlow hhigh => ⟨p - pos % N, by lia, ?_⟩⟩
    rw [ring_index_of_lt (by lia)]
    lia
  · rintro n ⟨hend, hrun⟩
    by_contra hlong
    obtain ⟨i, hi, hcell⟩ := hrun (pos % N + len) (by lia) (by lia)
    rw [ring_index (by lia)] at hcell
    split at hcell
    · lia
    · lia

/-- The room behind the contents in one piece. -/
theorem isGreatest_run_not_inRing (hpos : 0 < N) (hlen : len ≤ N) (pos : Nat) :
    IsGreatest {n | IsRun N ((pos + len) % N) (fun p => ¬ InRing N pos len p) n}
      (min (N - len) (N - (pos + len) % N)) := by
  have hstart := Nat.mod_lt (pos + len) hpos
  constructor
  · refine ⟨by lia, fun p hlow hhigh hin => ?_⟩
    obtain ⟨i, hi, hcell⟩ := hin
    have hfree : (pos + (len + (p - (pos + len) % N))) % N = p := by
      rw [← Nat.add_assoc, ring_index_of_lt (by lia)]
      lia
    have hmod : pos + i ≡ pos + (len + (p - (pos + len) % N)) [MOD N] := by
      rw [Nat.ModEq, hfree, hcell]
    have heq := (Nat.ModEq.add_left_cancel' pos hmod).eq_of_lt_of_lt (by lia) (by lia)
    lia
  · rintro n ⟨hend, hrun⟩
    by_contra hlong
    refine hrun ((pos + len) % N + (N - len)) (by lia) (by lia) ⟨0, by lia, ?_⟩
    rw [← ring_index_of_lt (by lia), Nat.add_assoc, Nat.add_sub_cancel' hlen,
      Nat.add_mod_right, Nat.add_zero]

end CellRuns

/-! ## Counters

Positions are counters of `w` bits that wrap; `U` is a power of two. -/

section Counters

variable {w : Nat} {U : BitVec w}

theorem counter_dvd (hU : ∃ k, U.toNat = 2 ^ k) : U.toNat ∣ 2 ^ w := by
  obtain ⟨k, hk⟩ := hU
  have hlt : U.toNat < 2 ^ w := U.isLt
  rw [hk] at hlt ⊢
  exact Nat.pow_dvd_pow 2 (le_of_lt ((Nat.pow_lt_pow_iff_right (by decide)).mp hlt))

theorem counter_pos (hU : ∃ k, U.toNat = 2 ^ k) : 0 < U.toNat := by
  obtain ⟨k, hk⟩ := hU
  rw [hk]
  exact Nat.two_pow_pos k

theorem counter_one (hU : ∃ k, U.toNat = 2 ^ k) : (1 : BitVec w).toNat = 1 := by
  have hlt : U.toNat < 2 ^ w := U.isLt
  have hpos := counter_pos hU
  show 1 % 2 ^ w = 1
  exact Nat.mod_eq_of_lt (by omega)

/-- The mask is a remainder. -/
theorem counter_mask (hU : ∃ k, U.toNat = 2 ^ k) (x : BitVec w) :
    (x &&& (U - 1)).toNat = x.toNat % U.toNat := by
  have hone := counter_one hU
  have hle : (1 : BitVec w) ≤ U := by
    rw [BitVec.le_def, hone]
    exact counter_pos hU
  obtain ⟨k, hk⟩ := hU
  rw [BitVec.toNat_and, BitVec.toNat_sub_of_le hle, hone, hk]
  exact Nat.and_two_pow_sub_one_eq_mod _ _

/-- A counter that wraps is still at the same place of the ring. -/
theorem counter_add (hU : ∃ k, U.toNat = 2 ^ k) (x : BitVec w) (n b : Nat) :
    (x + BitVec.ofNat w n).toNat * b ≡ x.toNat * b + n * b [MOD U.toNat * b] := by
  have hmod : (x + BitVec.ofNat w n).toNat ≡ x.toNat + n [MOD 2 ^ w] := by
    rw [BitVec.toNat_add, BitVec.toNat_ofNat]
    exact (Nat.mod_modEq _ _).trans ((Nat.mod_modEq n _).add_left _)
  rw [← Nat.add_mul]
  exact (hmod.of_dvd (counter_dvd hU)).mul_right' b

end Counters

end Lib
end CrosEc
