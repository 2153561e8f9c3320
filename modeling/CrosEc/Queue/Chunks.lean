import CrosEc.Queue.Fifo

/-!
# Chunks of the queue

Instead of copying, a caller can take a chunk, a contiguous region of the buffer, and advance
the head or the tail by itself.  `ChunksAgree` says that this is the same: the write chunk is
where `queue_add_units` would put the units, the read chunk holds the first stored units, and
neither could be longer.
-/

namespace CrosEc
namespace Queue

open Lib

variable {w : Nat} {q : Queue w} {s : QueueState w} {items : List Bytes}

/-! ## Where the chunks lie -/

/-- The tail is where the contents end. -/
theorem Holds.toNat_index_tail (h : Holds q s items) :
    (q.index s.tail).toNat = (s.head.toNat + items.length) % units q := by
  have hend := counter_add q.powerOfTwo s.head items.length 1
  rw [Nat.mul_one, Nat.mul_one, Nat.mul_one, Nat.mul_one, ← h.tail_eq] at hend
  rw [toNat_index]
  exact hend

theorem Holds.writeChunk_eq (h : Holds q s items) :
    (queueGetWriteChunk q s).buffer.toNat = (q.index s.tail).toNat * bytes q ∧
      (queueGetWriteChunk q s).length.toNat =
        min (units q - items.length) (units q - (q.index s.tail).toNat) * bytes q := by
  have htail := h.toNat_index_tail
  have hlen := h.length_le
  have hlt := Nat.mod_lt s.head.toNat (units_pos q)
  have hindex := toNat_index q s.head
  refine ⟨toNat_mul_unitBytes (toNat_index_le q _), ?_⟩
  unfold queueGetWriteChunk
  dsimp only
  split
  · rename_i hfull
    rw [h.isFull_iff] at hfull
    simp [hfull]
  · rename_i hfull
    rw [h.isFull_iff] at hfull
    rw [ring_index (by lia)] at htail
    split
    · rename_i hwrapped
      rw [BitVec.lt_def] at hwrapped
      have hsub := BitVec.toNat_sub_of_le (BitVec.le_def.mpr (le_of_lt hwrapped))
      rw [toNat_mul_unitBytes (by rw [hsub]; lia), hsub]
      congr 1
      split at htail
      · lia
      · lia
    · rename_i hnormal
      rw [BitVec.lt_def] at hnormal
      have hsub : (q.bufferUnits - q.index s.tail).toNat = units q - (q.index s.tail).toNat :=
        BitVec.toNat_sub_of_le (BitVec.le_def.mpr (toNat_index_le q s.tail))
      rw [toNat_mul_unitBytes (by rw [hsub]; lia), hsub]
      congr 1
      split at htail
      · lia
      · lia

theorem Holds.readChunk_eq (h : Holds q s items) :
    (queueGetReadChunk q s).buffer.toNat = (q.index s.head).toNat * bytes q ∧
      (queueGetReadChunk q s).length.toNat =
        min items.length (units q - (q.index s.head).toNat) * bytes q := by
  have htail := h.toNat_index_tail
  have hlen := h.length_le
  have hlt := Nat.mod_lt s.head.toNat (units_pos q)
  have hindex := toNat_index q s.head
  refine ⟨toNat_mul_unitBytes (toNat_index_le q _), ?_⟩
  unfold queueGetReadChunk
  dsimp only
  split
  · rename_i hempty
    rw [h.isEmpty_iff] at hempty
    simp [hempty]
  · rename_i hempty
    rw [h.isEmpty_iff, ← List.length_eq_zero_iff] at hempty
    have htail' : (q.index s.tail).toNat = (q.index s.head).toNat + items.length ∨
        (q.index s.tail).toNat + units q = (q.index s.head).toNat + items.length := by
      rcases Nat.lt_or_ge items.length (units q) with hless | hfull
      · rw [ring_index hless] at htail
        split at htail
        · lia
        · lia
      · rw [Nat.le_antisymm hlen hfull, Nat.add_mod_right] at htail
        lia
    have htail_le := toNat_index_le q s.tail
    split
    · rename_i hnormal
      rw [BitVec.lt_def] at hnormal
      have hsub := BitVec.toNat_sub_of_le (BitVec.le_def.mpr (le_of_lt hnormal))
      rw [toNat_mul_unitBytes (by rw [hsub]; lia), hsub]
      congr 1
      lia
    · rename_i hwrapped
      rw [BitVec.lt_def] at hwrapped
      have hsub : (q.bufferUnits - q.index s.head).toNat = units q - (q.index s.head).toNat :=
        BitVec.toNat_sub_of_le (BitVec.le_def.mpr (toNat_index_le q s.head))
      rw [toNat_mul_unitBytes (by rw [hsub]; lia), hsub]
      congr 1
      have hlt_tail := Nat.mod_lt (s.head.toNat + items.length) (units_pos q)
      lia

/-- A byte of the buffer that belongs to a stored unit. -/
def StoredByte (q : Queue w) (s : QueueState w) (items : List Bytes) (p : Nat) : Prop :=
  InRing (units q * bytes q) (s.head.toNat * bytes q) items.flatten.length p

/-- Chunk access is copy access to the queue that holds `items`. -/
structure ChunksAgree (q : Queue w) (s : QueueState w) (items : List Bytes) : Prop where
  /-- Units that are written to the chunk, and passed by the tail, are units that were added. -/
  write_eq : ∀ (src : Bytes) (n : BitVec w), n.toNat * bytes q = src.length →
    src.length ≤ (queueGetWriteChunk q s).length.toNat →
    ∃ buffer, storeAt s.buffer (queueGetWriteChunk q s).buffer.toNat src = some buffer ∧
      queueAddUnits q src n s = some (queueAdvanceTail q n { s with buffer := buffer })
  /-- The tail may stop before the end of what was written. -/
  write_part : ∀ (src buffer : Bytes) (n : BitVec w), n.toNat * bytes q ≤ src.length →
    src.length ≤ (queueGetWriteChunk q s).length.toNat →
    storeAt s.buffer (queueGetWriteChunk q s).buffer.toNat src = some buffer →
    ∃ s', queueAdvanceTail q n { s with buffer := buffer } = (n, s') ∧
      Holds q s' (items ++ toUnits (bytes q) n.toNat src)
  read_eq : ∃ m ≤ items.length, (queueGetReadChunk q s).length.toNat = m * bytes q ∧
    loadAt s.buffer (queueGetReadChunk q s).buffer.toNat (queueGetReadChunk q s).length.toNat =
      some (items.take m).flatten
  write_greatest : IsGreatest {n | IsRun (units q * bytes q)
    (queueGetWriteChunk q s).buffer.toNat (fun p => ¬ StoredByte q s items p) n}
    (queueGetWriteChunk q s).length.toNat
  read_greatest : IsGreatest {n | IsRun (units q * bytes q)
    (queueGetReadChunk q s).buffer.toNat (StoredByte q s items) n}
    (queueGetReadChunk q s).length.toNat
  write_empty_iff : (queueGetWriteChunk q s).length = 0 ↔ queueIsFull q s
  read_empty_iff : (queueGetReadChunk q s).length = 0 ↔ queueIsEmpty s

/-! ## What the chunks hold -/

/-- What is written to the chunk lies behind the contents. -/
theorem Holds.overlay_writeChunk (h : Holds q s items) {src buffer : Bytes}
    (hwrite : storeAt s.buffer (queueGetWriteChunk q s).buffer.toNat src = some buffer) :
    Overlay s.buffer (s.tail.toNat * bytes q) src buffer := by
  have hpos : 0 < s.buffer.length := by
    rw [h.buffer_length]
    exact size_pos q
  refine overlay_of_storeAt hpos ?_
  rw [h.buffer_length, Nat.mul_mod_mul_right, ← toNat_index, ← h.writeChunk_eq.1]
  exact hwrite

theorem Holds.writeChunk_le (h : Holds q s items) :
    (queueGetWriteChunk q s).length.toNat ≤ (units q - items.length) * bytes q := by
  rw [h.writeChunk_eq.2]
  exact Nat.mul_le_mul_right _ (Nat.min_le_left _ _)

/-- Units for the chunk are copied in one piece. -/
theorem Holds.addUnits_writeChunk (h : Holds q s items) {src : Bytes} {n : BitVec w}
    (hsrc : n.toNat * bytes q = src.length)
    (hfits : src.length ≤ (queueGetWriteChunk q s).length.toNat) :
    ∃ buffer, storeAt s.buffer (queueGetWriteChunk q s).buffer.toNat src = some buffer ∧
      queueAddUnits q src n s = some (queueAdvanceTail q n { s with buffer := buffer }) := by
  obtain ⟨hoff, hlen⟩ := h.writeChunk_eq
  have hn : n.toNat ≤ min (units q - items.length) (units q - (q.index s.tail).toNat) := by
    rw [← hsrc, hlen] at hfits
    exact Nat.le_of_mul_le_mul_right hfits q.unitBytes_pos
  have htail := toNat_index_le q s.tail
  have hend : (q.index s.tail).toNat * bytes q + src.length ≤ s.buffer.length := by
    rw [h.buffer_length, ← hsrc, ← Nat.add_mul]
    exact Nat.mul_le_mul_right _ (by lia)
  obtain ⟨buffer, hstore, -⟩ := storeAt_isSome hend
  refine ⟨buffer, by rw [hoff]; exact hstore, ?_⟩
  have hall : cMin n (queueSpace q s) = n := cMin_eq_left (by rw [h.space]; lia)
  have hfirst : cMin n (q.bufferUnits - q.index s.tail) = n := by
    refine cMin_eq_left ?_
    rw [toNat_units_sub_index, ← toNat_index]
    lia
  have hbytes : (n * q.unitBytes).toNat = src.length := by
    rw [toNat_mul_unitBytes (by lia), hsrc]
  have hzero : (0 : BitVec w).toNat = 0 := by simp
  have hcopy : memcpy s.buffer (q.index s.tail * q.unitBytes) src 0 (n * q.unitBytes) =
      some buffer := by
    rw [memcpy_eq (by rw [hbytes, hzero]; lia), hbytes, hzero, List.drop_zero, List.take_length,
      toNat_mul_unitBytes htail, hstore]
  unfold queueAddUnits
  simp only [hall, hfirst, hcopy, if_neg (BitVec.lt_irrefl n)]

theorem flatten_take_units {b m : Nat} {us : List Bytes} (h : ∀ u ∈ us, u.length = b)
    (hm : m ≤ us.length) : (us.take m).flatten = us.flatten.take (m * b) := by
  have hlen : (us.take m).flatten.length = m * b := by
    rw [length_flatten_units fun u hu => h u (List.mem_of_mem_take hu), List.length_take,
      Nat.min_eq_left hm]
  conv => rhs; rw [← List.take_append_drop m us, List.flatten_append]
  rw [List.take_left' hlen]

/-- The bytes of the read chunk are those of the first units. -/
theorem Holds.loadAt_readChunk (h : Holds q s items) :
    loadAt s.buffer (queueGetReadChunk q s).buffer.toNat (queueGetReadChunk q s).length.toNat =
      some (items.take (min items.length (units q - (q.index s.head).toNat))).flatten := by
  obtain ⟨hoff, hlen⟩ := h.readChunk_eq
  have hbytes : items.flatten.length = items.length * bytes q :=
    length_flatten_units h.unit_length
  rw [hoff, hlen, flatten_take_units h.unit_length (Nat.min_le_left _ _), toNat_index]
  exact (loadAt_units h.buffer_length (size_pos q) h.ring hbytes h.length_le rfl).1

/-! ## How long the chunks are -/

/-- The ring of the contents, in bytes. -/
theorem Holds.flatten_le (h : Holds q s items) : items.flatten.length ≤ units q * bytes q := by
  rw [length_flatten_units h.unit_length]
  exact Nat.mul_le_mul_right _ h.length_le

theorem Holds.writeChunk_greatest (h : Holds q s items) :
    IsGreatest {n | IsRun (units q * bytes q) (queueGetWriteChunk q s).buffer.toNat
      (fun p => ¬ StoredByte q s items p) n} (queueGetWriteChunk q s).length.toNat := by
  obtain ⟨hoff, hlen⟩ := h.writeChunk_eq
  have hbytes : items.flatten.length = items.length * bytes q :=
    length_flatten_units h.unit_length
  have hgreatest := isGreatest_run_not_inRing (size_pos q) h.flatten_le (s.head.toNat * bytes q)
  have hstart : (s.head.toNat * bytes q + items.flatten.length) % (units q * bytes q) =
      (q.index s.tail).toNat * bytes q := by
    rw [hbytes, ← Nat.add_mul, Nat.mul_mod_mul_right, h.toNat_index_tail]
  rw [hstart, hbytes, ← Nat.sub_mul, ← Nat.sub_mul, Nat.mul_min_mul_right, ← hoff, ← hlen]
    at hgreatest
  rw [← hbytes] at hgreatest
  exact hgreatest

theorem Holds.readChunk_greatest (h : Holds q s items) :
    IsGreatest {n | IsRun (units q * bytes q) (queueGetReadChunk q s).buffer.toNat
      (StoredByte q s items) n} (queueGetReadChunk q s).length.toNat := by
  obtain ⟨hoff, hlen⟩ := h.readChunk_eq
  have hbytes : items.flatten.length = items.length * bytes q :=
    length_flatten_units h.unit_length
  have hgreatest := isGreatest_run_inRing (size_pos q) h.flatten_le (s.head.toNat * bytes q)
  have hsum : min items.flatten.length (units q * bytes q - (q.index s.head).toNat * bytes q) =
      (queueGetReadChunk q s).length.toNat := by
    rw [hlen, hbytes, ← Nat.sub_mul, Nat.mul_min_mul_right]
  rw [Nat.mul_mod_mul_right, ← toNat_index, hsum, ← hoff] at hgreatest
  exact hgreatest

theorem Holds.writeChunk_empty_iff (h : Holds q s items) :
    (queueGetWriteChunk q s).length = 0 ↔ queueIsFull q s := by
  have hle := h.length_le
  have hindex := Nat.mod_lt s.tail.toNat (units_pos q)
  have hroom := toNat_index q s.tail
  have hzero : (0 : BitVec w).toNat = 0 := by simp
  rw [← BitVec.toNat_inj, hzero, h.writeChunk_eq.2, h.isFull_iff,
    Nat.mul_eq_zero,
    or_iff_left (Nat.ne_of_gt q.unitBytes_pos)]
  lia

theorem Holds.readChunk_empty_iff (h : Holds q s items) :
    (queueGetReadChunk q s).length = 0 ↔ queueIsEmpty s := by
  have hindex := Nat.mod_lt s.head.toNat (units_pos q)
  have hroom := toNat_index q s.head
  have hzero : (0 : BitVec w).toNat = 0 := by simp
  rw [← BitVec.toNat_inj, hzero, h.readChunk_eq.2, h.isEmpty_iff,
    Nat.mul_eq_zero,
    or_iff_left (Nat.ne_of_gt q.unitBytes_pos), ← List.length_eq_zero_iff]
  omega

/-- **Chunk access is copy access**, as long as the queue holds units. -/
theorem Holds.chunksAgree (h : Holds q s items) : ChunksAgree q s items where
  write_eq _ _ hsrc hfits := h.addUnits_writeChunk hsrc hfits
  write_part src buffer n hsrc hfits hwrite := by
    have hroom := hfits.trans h.writeChunk_le
    have hn : n.toNat ≤ units q - items.length :=
      Nat.le_of_mul_le_mul_right (hsrc.trans hroom) q.unitBytes_pos
    exact h.add hn hsrc hroom (h.overlay_writeChunk hwrite) rfl
  read_eq := ⟨_, Nat.min_le_left _ _, h.readChunk_eq.2, h.loadAt_readChunk⟩
  write_greatest := h.writeChunk_greatest
  read_greatest := h.readChunk_greatest
  write_empty_iff := h.writeChunk_empty_iff
  read_empty_iff := h.readChunk_empty_iff

end Queue
end CrosEc
