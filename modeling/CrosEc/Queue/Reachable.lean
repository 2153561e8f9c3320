import CrosEc.Queue.Chunks

/-!
# The states of a queue

`Reachable` collects the states that any calls lead to, the use of write chunks among them.  In
all of them the queue represents some list of units (`Reachable.holds`), whatever memory the
callers passed.  So chunk access is copy access in every state (`reachable_chunksAgree`), and
`queue_peek_units` reports what it copied unless its index lies behind the contents
(`queuePeekUnits_iff`).
-/

namespace CrosEc
namespace Queue

open Lib

variable {w : Nat} {q : Queue w} {s : QueueState w} {items : List Bytes}

/-- The states after `queue_init`, any calls, and any use of write chunks. -/
inductive Reachable (q : Queue w) : QueueState w → Prop
  | init (buffer : Bytes) (hbuffer : buffer.length = units q * bytes q) :
      Reachable q (queueInit w buffer)
  | call {s s' : QueueState w} (h : Reachable q s) (op : Op w) (dest : Bytes) (r : BitVec w)
      (hcall : step q s op = some (dest, r, s')) : Reachable q s'
  | writeChunk {s : QueueState w} (h : Reachable q s) (data buffer : Bytes)
      (hfits : data.length ≤ (queueGetWriteChunk q s).length.toNat)
      (hwrite : storeAt s.buffer (queueGetWriteChunk q s).buffer.toNat data = some buffer) :
      Reachable q { s with buffer := buffer }
  | advanceTail {s : QueueState w} (h : Reachable q s) (count : BitVec w) :
      Reachable q (queueAdvanceTail q count s).2

/-- A call that copies nothing outside of the caller's memory has enough of it. -/
theorem fits_of_memcpy {dest src buffer : Bytes} {destOff srcOff n : BitVec w}
    (h : memcpy dest destOff src srcOff n = some buffer) :
    srcOff.toNat + n.toNat ≤ src.length := by
  unfold memcpy copyAt at h
  cases hload : loadAt src srcOff.toNat n.toNat with
  | none =>
      rw [hload] at h
      cases h
  | some data =>
      unfold loadAt at hload
      rw [Option.ite_none_right_eq_some] at hload
      exact hload.1

theorem addUnit_fits (h : Holds q s items) {src : Bytes} {r : BitVec w × QueueState w}
    (hcall : queueAddUnit q src s = some r) : Fits q items (.addUnit src) := by
  have hone := counter_one q.powerOfTwo
  show min 1 (units q - items.length) * bytes q ≤ src.length
  unfold queueAddUnit at hcall
  dsimp only at hcall
  split at hcall
  · rename_i hfull
    have hspace := h.space
    rw [hfull] at hspace
    have hzero : units q - items.length = 0 := by simpa using hspace.symm
    simp [hzero]
  · split at hcall
    · cases hcall
    · rename_i buffer hstored
      have hlen : bytes q ≤ src.length := by
        split at hstored
        · rename_i hbyte
          have := fits_of_memcpy hstored
          rw [bytes, hbyte, hone]
          omega
        · have := fits_of_memcpy hstored
          simpa using this
      calc
        min 1 (units q - items.length) * bytes q ≤ 1 * bytes q :=
          Nat.mul_le_mul_right _ (Nat.min_le_left _ _)
        _ ≤ src.length := by rwa [Nat.one_mul]

theorem addUnits_fits (h : Holds q s items) {src : Bytes} {count : BitVec w}
    {r : BitVec w × QueueState w} (hcall : queueAddUnits q src count s = some r) :
    Fits q items (.addUnits src count) := by
  show min count.toNat (units q - items.length) * bytes q ≤ src.length
  rw [← h.space, ← toNat_cMin]
  unfold queueAddUnits at hcall
  dsimp only at hcall
  have hroom : (cMin count (queueSpace q s)).toNat ≤ units q := by
    rw [toNat_cMin, h.space]
    lia
  generalize cMin count (queueSpace q s) = transfer at hcall hroom ⊢
  have hfirst : (cMin transfer (q.bufferUnits - q.index s.tail)).toNat ≤ transfer.toNat := by
    rw [toNat_cMin]
    lia
  generalize cMin transfer (q.bufferUnits - q.index s.tail) = first at hcall hfirst
  split at hcall
  · cases hcall
  · rename_i buf₁ hcopy₁
    have hlen₁ := fits_of_memcpy hcopy₁
    rw [toNat_mul_unitBytes (by lia)] at hlen₁
    split at hcall
    · cases hcall
    · rename_i buf₂ hcopy₂
      split at hcopy₂
      · have hlen₂ := fits_of_memcpy hcopy₂
        have hrest : (transfer - first).toNat = transfer.toNat - first.toNat :=
          BitVec.toNat_sub_of_le (BitVec.le_def.mpr hfirst)
        rw [toNat_mul_unitBytes (by lia), toNat_mul_unitBytes (by lia), hrest,
          ← Nat.add_mul, Nat.add_sub_cancel' hfirst] at hlen₂
        exact hlen₂
      · rename_i hall
        rw [BitVec.lt_def] at hall
        have heq : first.toNat = transfer.toNat := by lia
        rw [heq] at hlen₁
        simpa using hlen₁

/-- Whatever the caller asks for, the tail does not pass the head. -/
theorem Holds.advanceTail_any (h : Holds q s items) (count : BitVec w) :
    ∃ items', Holds q (queueAdvanceTail q count s).2 items' := by
  have htransfer : (cMin count (queueSpace q s)).toNat = min count.toNat (units q - items.length) :=
    by rw [toNat_cMin, h.space]
  have hpos : 0 < s.buffer.length := by
    rw [h.buffer_length]
    exact size_pos q
  obtain ⟨data, hdata, hring⟩ := exists_ringHas hpos
    (s.head.toNat * bytes q + items.flatten.length)
    (min count.toNat (units q - items.length) * bytes q)
  obtain ⟨s', hadvance, hholds⟩ := h.advanceTail (Nat.min_le_right _ _) hdata.ge
    (ringHas_append.mpr ⟨h.ring, hring⟩) htransfer
  have hagain : cMin (cMin count (queueSpace q s)) (queueSpace q s) = cMin count (queueSpace q s) :=
    cMin_eq_left (by rw [toNat_cMin]; exact Nat.min_le_right _ _)
  unfold queueAdvanceTail at hadvance ⊢
  rw [hagain] at hadvance
  rw [hadvance]
  exact ⟨_, hholds⟩

/-- **Step lemma.**  A call that returns leaves units in the queue, whatever it was given. -/
theorem Holds.call (h : Holds q s items) {op : Op w} {dest : Bytes} {r : BitVec w}
    {s' : QueueState w} (hcall : step q s op = some (dest, r, s')) :
    ∃ items', Holds q s' items' := by
  have hfits : Fits q items op → ∃ items', Holds q s' items' := by
    intro hfits
    obtain ⟨dest', r', s'', hspec, -, hholds⟩ := step_spec h hfits
    rw [hcall] at hspec
    cases hspec
    exact ⟨_, hholds⟩
  have hhead : ∀ count, s' = (queueAdvanceHead count s).2 → ∃ items', Holds q s' items' := by
    rintro count rfl
    obtain ⟨r', s'', hspec, -, hholds⟩ := queueAdvanceHead_spec h (rfl : min count.toNat items.length = _)
    rw [hspec]
    exact ⟨_, hholds⟩
  cases op with
  | addUnit src =>
      obtain ⟨ret, hret, -⟩ := Option.map_eq_some_iff.mp hcall
      exact hfits (addUnit_fits h hret)
  | addUnits src count =>
      obtain ⟨ret, hret, -⟩ := Option.map_eq_some_iff.mp hcall
      exact hfits (addUnits_fits h hret)
  | removeUnit dest =>
      change queueRemoveUnit q dest s = _ at hcall
      unfold queueRemoveUnit at hcall
      dsimp only at hcall
      split at hcall
      · cases hcall
        exact ⟨items, h⟩
      · split at hcall
        · cases hcall
        · cases hcall
          exact hhead 1 rfl
  | removeUnits dest count =>
      change queueRemoveUnits q dest count s = _ at hcall
      unfold queueRemoveUnits at hcall
      dsimp only at hcall
      split at hcall
      · cases hcall
      · cases hcall
        exact hhead _ rfl
  | advanceHead count =>
      cases hcall
      exact hhead count rfl
  | peekUnits dest i count =>
      obtain ⟨ret, -, hret⟩ := Option.map_eq_some_iff.mp hcall
      cases hret
      exact ⟨items, h⟩

theorem Reachable.holds (h : Reachable q s) : ∃ items, Holds q s items := by
  induction h with
  | init buffer hbuffer => exact ⟨[], holds_queueInit hbuffer⟩
  | call _ op dest r hcall ih =>
      obtain ⟨items, hholds⟩ := ih
      exact hholds.call hcall
  | writeChunk _ data buffer hfits hwrite ih =>
      obtain ⟨items, hholds⟩ := ih
      have hover := hholds.overlay_writeChunk hwrite
      have hring := hholds.ring_overlay (hfits.trans hholds.writeChunk_le) hover
      exact ⟨items, hholds.withBuffer hover.length_eq (ringHas_append.mp hring).1⟩
  | advanceTail _ count ih =>
      obtain ⟨items, hholds⟩ := ih
      exact hholds.advanceTail_any count

/-- **Chunk access is copy access** in every state of a queue. -/
theorem reachable_chunksAgree (h : Reachable q s) :
    ∃ items, Holds q s items ∧ ChunksAgree q s items := by
  obtain ⟨items, hholds⟩ := h.holds
  exact ⟨items, hholds, hholds.chunksAgree⟩

/-- A queue of two units after the first one has been removed. -/
def oneRemoved : QueueState 3 := ⟨1, 2, [1, 2, 3, 4]⟩

theorem reachable_oneRemoved : Reachable pairQueue oneRemoved :=
  .call (.advanceTail (.init [1, 2, 3, 4] rfl) 2) (.advanceHead 1) [] 1 rfl

theorem reachable_chunksAgree_oneRemoved :
    ∃ items, Holds pairQueue oneRemoved items ∧ ChunksAgree pairQueue oneRemoved items :=
  reachable_chunksAgree reachable_oneRemoved

/-! ## Peeking -/

/-- `queue_peek_units` returns how many units it copied: those from the `i`th on, as many as
there are. -/
def PeekReports (q : Queue w) (s : QueueState w) (items : List Bytes) (dest : Bytes)
    (i count : BitVec w) : Prop :=
  ∃ r given, queuePeekUnits q dest i count s = some (given.flatten ++ dest.drop given.flatten.length, r) ∧
    given = (items.drop i.toNat).take r.toNat ∧
    r.toNat = min count.toNat (items.length - i.toNat)

/-- Behind the contents nothing is copied. -/
theorem Holds.peekUnits_behind (h : Holds q s items) (dest : Bytes) {i : BitVec w}
    (count : BitVec w) (hi : items.length ≤ i.toNat) :
    queuePeekUnits q dest i count s = some (dest, cMin count (queueCount s - i)) := by
  unfold queuePeekUnits
  dsimp only
  rw [if_neg]
  rw [BitVec.lt_def, h.count]
  omega

/-- An index behind the contents makes the difference wrap. -/
theorem Holds.toNat_count_sub (h : Holds q s items) {i : BitVec w} (hi : items.length < i.toNat) :
    0 < (queueCount s - i).toNat := by
  have hlt := i.isLt
  rw [BitVec.toNat_sub, h.count, Nat.mod_eq_of_lt (by omega)]
  omega

theorem Holds.peekReports_iff (h : Holds q s items) {dest : Bytes} {i count : BitVec w}
    (hdest : min count.toNat (items.length - i.toNat) * bytes q ≤ dest.length) :
    PeekReports q s items dest i count ↔ i.toNat ≤ items.length ∨ count = 0 := by
  rcases Nat.lt_or_ge i.toNat items.length with hin | hbehind
  · obtain ⟨r, hcall, hr⟩ := queuePeekUnits_spec h hin rfl hdest
    rw [← hr] at hcall
    exact iff_of_true ⟨r, _, hcall, rfl, hr⟩ (Or.inl hin.le)
  · have hcall := h.peekUnits_behind dest count hbehind
    have hnone : items.length - i.toNat = 0 := by omega
    unfold PeekReports
    rw [hcall, hnone, Nat.min_zero]
    constructor
    · rintro ⟨r, given, hret, -, hzero⟩
      rcases Nat.lt_or_ge items.length i.toNat with hwrap | hend
      · right
        have hpos := h.toNat_count_sub hwrap
        obtain ⟨-, rfl⟩ := Prod.mk.inj (Option.some.inj hret)
        rw [toNat_cMin] at hzero
        exact BitVec.eq_of_toNat_eq (by simp; omega)
      · exact Or.inl hend
    · intro hfew
      have hret : (cMin count (queueCount s - i)).toNat = 0 := by
        rw [toNat_cMin]
        rcases hfew with hend | rfl
        · rw [BitVec.toNat_sub_of_le (by rw [BitVec.le_def, h.count]; exact hend), h.count, hnone,
            Nat.min_zero]
        · simp
      exact ⟨_, [], by simp, by simp [hret], hret⟩

/-- **Peeking reports what it copied, except behind the contents.**  There the difference of
the count and the index wraps: nothing is copied, and what is asked for is reported. -/
theorem queuePeekUnits_iff (h : Reachable q s) (dest : Bytes) (i count : BitVec w)
    (hdest : min count.toNat ((queueCount s).toNat - i.toNat) * bytes q ≤ dest.length) :
    ∃ items, Holds q s items ∧
      (PeekReports q s items dest i count ↔ i.toNat ≤ (queueCount s).toNat ∨ count = 0) := by
  obtain ⟨items, hholds⟩ := h.holds
  rw [hholds.count] at hdest ⊢
  exact ⟨items, hholds, hholds.peekReports_iff hdest⟩

theorem queuePeekUnits_iff_oneRemoved :
    ∃ items, Holds pairQueue oneRemoved items ∧
      (PeekReports pairQueue oneRemoved items [0, 0] 1 1 ↔
        (1 : BitVec 3).toNat ≤ (queueCount oneRemoved).toNat ∨ (1 : BitVec 3) = 0) :=
  queuePeekUnits_iff reachable_oneRemoved [0, 0] 1 1 (by decide)

/-- One unit is there; a reader that asks for the unit at index 2 is told that it has got one. -/
theorem queuePeekUnits_behind :
    Reachable pairQueue oneRemoved ∧ Holds pairQueue oneRemoved [[3, 4]] ∧
      queuePeekUnits pairQueue [0, 0] 2 1 oneRemoved = some ([0, 0], 1) ∧
      ¬ PeekReports pairQueue oneRemoved [[3, 4]] [0, 0] 2 1 := by
  have hcall : queuePeekUnits pairQueue [0, 0] 2 1 oneRemoved = some ([0, 0], 1) := by decide
  refine ⟨reachable_oneRemoved, ⟨rfl, by decide, by decide, by decide, ?_⟩, hcall, ?_⟩
  · unfold RingHas
    decide
  · rintro ⟨r, given, hret, -, hzero⟩
    rw [hcall] at hret
    obtain ⟨-, rfl⟩ := Prod.mk.inj (Option.some.inj hret)
    exact absurd hzero (by decide)

end Queue
end CrosEc
