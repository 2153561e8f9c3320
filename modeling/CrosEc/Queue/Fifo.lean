import CrosEc.Queue.Model

/-!
# The queue is a bounded FIFO

The abstract queue is a list of units, the oldest first.  `fifoEffect` says what a call
does to it, and what it returns.  `Holds q s items` relates the counters and the buffer to
such a list; every call keeps the relation and has the effect of the abstract one
(`step_spec`), so this is true of every sequence of calls (`queue_fifo`), however often
the counters wrap.
-/

namespace CrosEc
namespace Queue

open Lib

variable {w : Nat} {q : Queue w} {s : QueueState w} {items : List Bytes}

abbrev units (q : Queue w) : Nat := q.bufferUnits.toNat

abbrev bytes (q : Queue w) : Nat := q.unitBytes.toNat

/-! ## The abstract queue -/

/-- A call, with the memory that the caller passes. -/
inductive Op (w : Nat) where
  | addUnit (src : Bytes)
  | addUnits (src : Bytes) (count : BitVec w)
  | removeUnit (dest : Bytes)
  | removeUnits (dest : Bytes) (count : BitVec w)
  | advanceHead (count : BitVec w)
  | peekUnits (dest : Bytes) (i count : BitVec w)

/-- The destination of a call. -/
def Op.dest : Op w → Bytes
  | .removeUnit dest | .removeUnits dest _ | .peekUnits dest _ _ => dest
  | .addUnit _ | .addUnits _ _ | .advanceHead _ => []

/-- The first `n` units of `b` bytes. -/
def toUnits (b : Nat) : Nat → Bytes → List Bytes
  | 0, _ => []
  | n + 1, src => src.take b :: toUnits b n (src.drop b)

/-- What a call does: how many units it reports, the units that enter the queue, those that
leave it, and those that the caller gets. -/
structure Effect where
  ret : Nat
  added : List Bytes
  removed : List Bytes
  given : List Bytes

def fifoEffect (q : Queue w) (items : List Bytes) : Op w → Effect
  | .addUnit src =>
      let n := min 1 (units q - items.length)
      ⟨n, toUnits (bytes q) n src, [], []⟩
  | .addUnits src count =>
      let n := min count.toNat (units q - items.length)
      ⟨n, toUnits (bytes q) n src, [], []⟩
  | .removeUnit _ =>
      let n := min 1 items.length
      ⟨n, [], items.take n, items.take n⟩
  | .removeUnits _ count =>
      let n := min count.toNat items.length
      ⟨n, [], items.take n, items.take n⟩
  | .advanceHead count =>
      let n := min count.toNat items.length
      ⟨n, [], items.take n, []⟩
  | .peekUnits _ i count =>
      let n := min count.toNat (items.length - i.toNat)
      ⟨n, [], [], (items.drop i.toNat).take n⟩

/-- The queue after the call. -/
def Effect.next (e : Effect) (items : List Bytes) : List Bytes :=
  items.drop e.removed.length ++ e.added

/-- The caller's memory holds what the call copies, and an index is one of a unit. -/
def Fits (q : Queue w) (items : List Bytes) (op : Op w) : Prop :=
  match op with
  | .addUnit src | .addUnits src _ => (fifoEffect q items op).ret * bytes q ≤ src.length
  | .removeUnit dest | .removeUnits dest _ => (fifoEffect q items op).ret * bytes q ≤ dest.length
  | .advanceHead _ => True
  | .peekUnits dest i _ =>
      (fifoEffect q items op).ret * bytes q ≤ dest.length ∧ i.toNat < items.length

/-! ## The calls -/

/-- A call of the program: the destination, the return value, the state. -/
def step (q : Queue w) (s : QueueState w) : Op w → Option (Bytes × BitVec w × QueueState w)
  | .addUnit src => (queueAddUnit q src s).map fun r => ([], r)
  | .addUnits src count => (queueAddUnits q src count s).map fun r => ([], r)
  | .removeUnit dest => queueRemoveUnit q dest s
  | .removeUnits dest count => queueRemoveUnits q dest count s
  | .advanceHead count => some ([], queueAdvanceHead count s)
  | .peekUnits dest i count => (queuePeekUnits q dest i count s).map fun r => (r.1, r.2, s)

/-- The counters and the buffer represent the units `items`. -/
structure Holds (q : Queue w) (s : QueueState w) (items : List Bytes) : Prop where
  buffer_length : s.buffer.length = units q * bytes q
  length_le : items.length ≤ units q
  tail_eq : s.tail = s.head + BitVec.ofNat w items.length
  unit_length : ∀ u ∈ items, u.length = bytes q
  ring : RingHas s.buffer (s.head.toNat * bytes q) items.flatten

/-! ## The arithmetic of the counters -/

theorem units_pos (q : Queue w) : 0 < units q := counter_pos q.powerOfTwo

theorem size_pos (q : Queue w) : 0 < units q * bytes q :=
  Nat.mul_pos (units_pos q) q.unitBytes_pos

theorem toNat_index (q : Queue w) (x : BitVec w) : (q.index x).toNat = x.toNat % units q :=
  counter_mask q.powerOfTwo x

/-- A number of units, in bytes, does not overflow. -/
theorem toNat_mul_unitBytes {x : BitVec w} (hx : x.toNat ≤ units q) :
    (x * q.unitBytes).toNat = x.toNat * bytes q := by
  refine BitVec.toNat_mul_of_lt ?_
  exact lt_of_le_of_lt (Nat.mul_le_mul_right _ hx) q.size_lt

theorem Holds.count (h : Holds q s items) : (queueCount s).toNat = items.length := by
  have hlt : items.length < 2 ^ w := lt_of_le_of_lt h.length_le q.bufferUnits.isLt
  unfold queueCount
  rw [h.tail_eq, BitVec.add_comm, BitVec.add_sub_cancel, BitVec.toNat_ofNat, Nat.mod_eq_of_lt hlt]

theorem Holds.space (h : Holds q s items) : (queueSpace q s).toNat = units q - items.length := by
  unfold queueSpace
  rw [BitVec.toNat_sub_of_le, h.count]
  rw [BitVec.le_def, h.count]
  exact h.length_le

/-- The counters tell an empty queue from a full one. -/
theorem Holds.isEmpty_iff (h : Holds q s items) : queueIsEmpty s = true ↔ items = [] := by
  rw [queueIsEmpty, decide_eq_true_iff, ← List.length_eq_zero_iff, ← h.count]
  unfold queueCount
  constructor
  · intro heq
    rw [heq]
    simp
  · intro hzero
    have hsub : s.tail - s.head = 0 := BitVec.eq_of_toNat_eq (by simp [hzero])
    rw [← BitVec.sub_add_cancel s.tail s.head, hsub]
    simp

theorem Holds.isFull_iff (h : Holds q s items) :
    queueIsFull q s = true ↔ items.length = units q := by
  have hspace := h.space
  have hle := h.length_le
  rw [queueIsFull, decide_eq_true_iff]
  constructor
  · intro hfull
    rw [hfull] at hspace
    simp at hspace
    omega
  · intro hfull
    exact BitVec.eq_of_toNat_eq (by simp [hspace, hfull])

/-! ## Units and bytes -/

theorem length_toUnits (b n : Nat) (src : Bytes) : (toUnits b n src).length = n := by
  induction n generalizing src with
  | zero => rfl
  | succ n ih => simp [toUnits, ih]

theorem toUnits_unit_length {b n : Nat} {src : Bytes} (h : n * b ≤ src.length) :
    ∀ u ∈ toUnits b n src, u.length = b := by
  induction n generalizing src with
  | zero => simp [toUnits]
  | succ n ih =>
      rw [Nat.succ_mul] at h
      intro u hu
      rcases List.mem_cons.mp hu with rfl | hu
      · rw [List.length_take]
        omega
      · exact ih (by rw [List.length_drop]; omega) u hu

theorem flatten_toUnits (b n : Nat) (src : Bytes) :
    (toUnits b n src).flatten = src.take (n * b) := by
  induction n generalizing src with
  | zero => simp [toUnits]
  | succ n ih =>
      rw [toUnits, List.flatten_cons, ih, Nat.succ_mul, Nat.add_comm, List.take_add]

theorem length_flatten_units {b : Nat} {us : List Bytes} (h : ∀ u ∈ us, u.length = b) :
    us.flatten.length = us.length * b := by
  induction us with
  | nil => simp
  | cons u us ih =>
      rw [List.flatten_cons, List.length_append, h u (by simp),
        ih fun v hv => h v (by simp [hv]), List.length_cons, Nat.succ_mul, Nat.add_comm]

/-! ## Adding -/

theorem cMin_eq_left {a b : BitVec w} (h : a.toNat ≤ b.toNat) : cMin a b = a :=
  BitVec.eq_of_toNat_eq (by rw [toNat_cMin, Nat.min_eq_left h])

theorem toUnits_take {b n m : Nat} (h : n * b ≤ m) (src : Bytes) :
    toUnits b n (src.take m) = toUnits b n src := by
  induction n generalizing m src with
  | zero => rfl
  | succ n ih =>
      rw [Nat.succ_mul] at h
      rw [toUnits, toUnits, List.take_take, Nat.min_eq_left (by omega), List.drop_take,
        ih (by omega)]

/-- A write behind the contents leaves them as they are. -/
theorem Holds.ring_overlay (h : Holds q s items) {data buffer : Bytes}
    (hroom : data.length ≤ (units q - items.length) * bytes q)
    (hnew : Overlay s.buffer (s.tail.toNat * bytes q) data buffer) :
    RingHas buffer (s.head.toNat * bytes q) (items.flatten ++ data) := by
  have hbytes : items.flatten.length = items.length * bytes q :=
    length_flatten_units h.unit_length
  have hlen : items.length * bytes q ≤ units q * bytes q := Nat.mul_le_mul_right _ h.length_le
  -- The tail is where the contents end.
  have hend := counter_add q.powerOfTwo s.head items.length (bytes q)
  rw [← h.tail_eq, ← hbytes, ← h.buffer_length] at hend
  refine h.ring.overlay (hnew.congr hend) ?_
  rw [Nat.sub_mul] at hroom
  rw [h.buffer_length, hbytes]
  omega

/-- The contents stay if the ring has them. -/
theorem Holds.withBuffer (h : Holds q s items) {buffer : Bytes}
    (hlen : buffer.length = s.buffer.length)
    (hring : RingHas buffer (s.head.toNat * bytes q) items.flatten) :
    Holds q { s with buffer := buffer } items :=
  ⟨hlen.trans h.buffer_length, h.length_le, h.tail_eq, h.unit_length, hring⟩

/-- The tail passes the bytes that lie behind the contents, which become part of them. -/
theorem Holds.advanceTail {data : Bytes} {n : Nat} {count : BitVec w} (h : Holds q s items)
    (hn : n ≤ units q - items.length) (hdata : n * bytes q ≤ data.length)
    (hring : RingHas s.buffer (s.head.toNat * bytes q) (items.flatten ++ data))
    (hcount : count.toNat = n) :
    ∃ s', queueAdvanceTail q count s = (count, s') ∧
      Holds q s' (items ++ toUnits (bytes q) n data) := by
  have hlen := h.length_le
  have hfew : cMin count (queueSpace q s) = count :=
    cMin_eq_left (by rw [hcount]; exact hn.trans_eq h.space.symm)
  have hofNat : count = BitVec.ofNat w n := by rw [← hcount, BitVec.ofNat_toNat, BitVec.setWidth_eq]
  refine ⟨{ s with tail := s.tail + count }, ?_, h.buffer_length, ?_, ?_, ?_, ?_⟩
  · unfold queueAdvanceTail
    rw [hfew]
  · rw [List.length_append, length_toUnits]
    omega
  · show s.tail + count = s.head + BitVec.ofNat w (items ++ toUnits (bytes q) n data).length
    rw [List.length_append, length_toUnits, BitVec.ofNat_add, ← BitVec.add_assoc, ← h.tail_eq,
      hofNat]
  · intro u hu
    rcases List.mem_append.mp hu with hu | hu
    · exact h.unit_length u hu
    · exact toUnits_unit_length hdata u hu
  · rw [List.flatten_append, flatten_toUnits]
    rw [← List.take_append_drop (n * bytes q) data, ← List.append_assoc, ringHas_append] at hring
    exact hring.1

/-- Units that have been written behind the contents become part of them. -/
theorem Holds.add {data buffer : Bytes} {n : Nat} {count : BitVec w} (h : Holds q s items)
    (hn : n ≤ units q - items.length) (hdata : n * bytes q ≤ data.length)
    (hroom : data.length ≤ (units q - items.length) * bytes q)
    (hnew : Overlay s.buffer (s.tail.toNat * bytes q) data buffer)
    (hcount : count.toNat = n) :
    ∃ s', queueAdvanceTail q count { s with buffer := buffer } = (count, s') ∧
      Holds q s' (items ++ toUnits (bytes q) n data) := by
  have hring := h.ring_overlay hroom hnew
  exact (h.withBuffer hnew.length_eq (ringHas_append.mp hring).1).advanceTail hn hdata hring hcount

theorem Holds.add_take {src buffer : Bytes} {n : Nat} {count : BitVec w} (h : Holds q s items)
    (hn : n ≤ units q - items.length) (hsrc : n * bytes q ≤ src.length)
    (hnew : Overlay s.buffer (s.tail.toNat * bytes q) (src.take (n * bytes q)) buffer)
    (hcount : count.toNat = n) :
    ∃ s', queueAdvanceTail q count { s with buffer := buffer } = (count, s') ∧
      Holds q s' (items ++ toUnits (bytes q) n src) := by
  have hlen : (src.take (n * bytes q)).length = n * bytes q := by
    rw [List.length_take]
    omega
  rw [← toUnits_take (Nat.le_refl (n * bytes q)) src]
  exact h.add hn hlen.ge (hlen.trans_le (Nat.mul_le_mul_right _ hn)) hnew hcount

theorem memcpy_eq {dest src : Bytes} {destOff srcOff n : BitVec w}
    (h : srcOff.toNat + n.toNat ≤ src.length) :
    memcpy dest destOff src srcOff n =
      storeAt dest destOff.toNat ((src.drop srcOff.toNat).take n.toNat) := by
  unfold memcpy copyAt
  rw [loadAt_eq_some h]

/-- The room up to the end of the buffer. -/
theorem toNat_units_sub_index (q : Queue w) (x : BitVec w) :
    (q.bufferUnits - q.index x).toNat = units q - x.toNat % units q := by
  have hlt := Nat.mod_lt x.toNat (units_pos q)
  rw [BitVec.toNat_sub_of_le, toNat_index]
  rw [BitVec.le_def, toNat_index]
  exact le_of_lt hlt

theorem toNat_index_le (q : Queue w) (x : BitVec w) : (q.index x).toNat ≤ units q := by
  rw [toNat_index]
  exact le_of_lt (Nat.mod_lt _ (units_pos q))

/-- The two copies of `queue_add_memcpy`. -/
theorem copyIn_spec {buffer src : Bytes} {x transfer first : BitVec w}
    (hbuf : buffer.length = units q * bytes q) (htransfer : transfer.toNat ≤ units q)
    (hfirst : first = cMin transfer (q.bufferUnits - q.index x))
    (hsrc : transfer.toNat * bytes q ≤ src.length) :
    ∃ buf₁ buf', memcpy buffer (q.index x * q.unitBytes) src 0 (first * q.unitBytes) = some buf₁ ∧
      (if first < transfer then
        memcpy buf₁ 0 src (first * q.unitBytes) ((transfer - first) * q.unitBytes)
        else some buf₁) = some buf' ∧
      Overlay buffer (x.toNat * bytes q) (src.take (transfer.toNat * bytes q)) buf' := by
  have hmin : first.toNat = min transfer.toNat (units q - x.toNat % units q) := by
    rw [hfirst, toNat_cMin, toNat_units_sub_index]
  have hfirst_le : first.toNat ≤ transfer.toNat := by lia
  have hbytes : first.toNat * bytes q ≤ transfer.toNat * bytes q :=
    Nat.mul_le_mul_right _ hfirst_le
  have hmul : (first * q.unitBytes).toNat = first.toNat * bytes q :=
    toNat_mul_unitBytes (by lia)
  have hdata : (src.take (transfer.toNat * bytes q)).length = transfer.toNat * bytes q := by
    rw [List.length_take]
    lia
  obtain ⟨buf₁, buf', hstore₁, hstore', hover⟩ :=
    storeAt_units hbuf (size_pos q) hdata htransfer x.toNat hmin
  refine ⟨buf₁, buf', ?_, ?_, hover⟩
  · rw [memcpy_eq (by rw [hmul]; simp; lia), toNat_mul_unitBytes (toNat_index_le q _),
      toNat_index, hmul, ← hstore₁, List.take_take, Nat.min_eq_left hbytes]
    simp
  · by_cases hlt : first < transfer
    · have hrest : (transfer - first).toNat = transfer.toNat - first.toNat :=
        BitVec.toNat_sub_of_le (BitVec.le_def.mpr hfirst_le)
      have hmul' : ((transfer - first) * q.unitBytes).toNat =
          (transfer.toNat - first.toNat) * bytes q := by
        rw [toNat_mul_unitBytes (by lia), hrest]
      rw [if_pos hlt, memcpy_eq (by rw [hmul, hmul', Nat.sub_mul]; lia), hmul, hmul',
        ← hstore', List.drop_take, Nat.sub_mul]
      simp
    · -- All units fit in front of the end of the buffer.
      have hall : first.toNat = transfer.toNat := by
        rw [BitVec.lt_def] at hlt
        lia
      rw [if_neg hlt, ← hstore', hall, List.drop_take, Nat.sub_self, List.take_zero,
        storeAt_nil (Nat.zero_le _)]

theorem queueAddUnits_spec (h : Holds q s items) {src : Bytes} {count : BitVec w} {n : Nat}
    (hn : n = min count.toNat (units q - items.length)) (hsrc : n * bytes q ≤ src.length) :
    ∃ r s', queueAddUnits q src count s = some (r, s') ∧ r.toNat = n ∧
      Holds q s' (items ++ toUnits (bytes q) n src) := by
  have htransfer : (cMin count (queueSpace q s)).toNat = n := by rw [toNat_cMin, h.space, hn]
  have hroom : (cMin count (queueSpace q s)).toNat ≤ units q := by lia
  obtain ⟨buf₁, buf', hcopy₁, hcopy₂, hover⟩ :=
    copyIn_spec (x := s.tail) h.buffer_length hroom rfl (by rw [htransfer]; exact hsrc)
  rw [htransfer] at hover
  obtain ⟨s', hadvance, hholds⟩ := h.add_take (by lia) hsrc hover htransfer
  refine ⟨_, s', ?_, htransfer, hholds⟩
  unfold queueAddUnits
  dsimp only
  rw [hcopy₁]
  dsimp only
  rw [hcopy₂]
  exact congrArg some hadvance

theorem queueAddUnit_spec (h : Holds q s items) {src : Bytes} {n : Nat}
    (hn : n = min 1 (units q - items.length)) (hsrc : n * bytes q ≤ src.length) :
    ∃ r s', queueAddUnit q src s = some (r, s') ∧ r.toNat = n ∧
      Holds q s' (items ++ toUnits (bytes q) n src) := by
  have hone := counter_one q.powerOfTwo
  unfold queueAddUnit
  by_cases hfull : queueSpace q s = 0
  · have hspace := h.space
    rw [hfull] at hspace
    have hn0 : n = 0 := by simp at hspace; lia
    subst hn0
    refine ⟨0, s, if_pos hfull, rfl, ?_⟩
    simpa [toUnits] using h
  · have hn1 : n = 1 := by
      have hne : (queueSpace q s).toNat ≠ 0 := fun h0 => hfull (BitVec.eq_of_toNat_eq (by simp [h0]))
      rw [h.space] at hne
      lia
    subst hn1
    -- One unit is copied in one piece: it is in front of the end of the buffer.
    have hfirst : (1 : BitVec w) = cMin 1 (q.bufferUnits - q.index s.tail) := by
      refine (cMin_eq_left ?_).symm
      rw [hone, toNat_units_sub_index]
      have := Nat.mod_lt s.tail.toNat (units_pos q)
      lia
    obtain ⟨buf₁, buf', hcopy₁, hcopy₂, hover⟩ :=
      copyIn_spec h.buffer_length (by rw [hone]; exact units_pos q) hfirst
        (by rw [hone]; exact hsrc)
    rw [if_neg (BitVec.lt_irrefl _)] at hcopy₂
    cases hcopy₂
    rw [hone] at hover
    obtain ⟨s', hadvance, hholds⟩ := h.add_take (by lia) hsrc hover hone
    refine ⟨1, s', ?_, hone, hholds⟩
    have hstored : (if q.unitBytes = 1 then memcpy s.buffer (q.index s.tail) src 0 1
        else memcpy s.buffer (q.index s.tail * q.unitBytes) src 0 q.unitBytes) = some buf₁ := by
      have hunit : (1 : BitVec w) * q.unitBytes = q.unitBytes := BitVec.one_mul _
      have hoff : q.index s.tail * (1 : BitVec w) = q.index s.tail := BitVec.mul_one _
      rw [hunit] at hcopy₁
      split
      · rename_i hbyte
        rwa [hbyte, hoff] at hcopy₁
      · exact hcopy₁
    rw [if_neg hfull]
    dsimp only
    rw [hstored]
    exact congrArg some hadvance

/-! ## Reading and removing -/

/-- `queue_read_safe` copies units that are in the ring. -/
theorem queueReadSafe_spec {buffer dest xs : Bytes} {x transfer : BitVec w}
    (hbuf : buffer.length = units q * bytes q) (htransfer : transfer.toNat ≤ units q)
    (hring : RingHas buffer (x.toNat * bytes q) xs) (hxs : xs.length = transfer.toNat * bytes q)
    (hdest : xs.length ≤ dest.length) :
    queueReadSafe q buffer dest (q.index x) transfer = some (xs ++ dest.drop xs.length) := by
  have hmin : (cMin transfer (q.bufferUnits - q.index x)).toNat =
      min transfer.toNat (units q - x.toNat % units q) := by
    rw [toNat_cMin, toNat_units_sub_index]
  unfold queueReadSafe
  dsimp only
  generalize cMin transfer (q.bufferUnits - q.index x) = first at hmin ⊢
  have hfirst_le : first.toNat ≤ transfer.toNat := by lia
  have hmul : (first * q.unitBytes).toNat = first.toNat * bytes q :=
    toNat_mul_unitBytes (by lia)
  have hrest : (transfer - first).toNat = transfer.toNat - first.toNat :=
    BitVec.toNat_sub_of_le (BitVec.le_def.mpr hfirst_le)
  have hmul' : ((transfer - first) * q.unitBytes).toNat =
      (transfer.toNat - first.toNat) * bytes q := by
    rw [toNat_mul_unitBytes (by lia), hrest]
  have hzero : (0 : BitVec w).toNat = 0 := by simp
  obtain ⟨dest₁, hcopy₁, hcopy₂⟩ :=
    copyAt_units hbuf (size_pos q) hring hxs htransfer hmin hdest
  simp only [memcpy, hzero, hmul, hmul', toNat_mul_unitBytes (toNat_index_le q x), toNat_index,
    hcopy₁]
  exact hcopy₂

/-- The units that a read returns are in the ring. -/
theorem Holds.ring_drop (h : Holds q s items) {i n : Nat} (hi : i ≤ items.length) {x : BitVec w}
    (hx : x = s.head + BitVec.ofNat w i) :
    RingHas s.buffer (x.toNat * bytes q) ((items.drop i).take n).flatten := by
  have hsplit : items = items.take i ++ ((items.drop i).take n ++ (items.drop i).drop n) := by
    rw [List.take_append_drop, List.take_append_drop]
  have hring := h.ring
  rw [hsplit, List.flatten_append, List.flatten_append, ringHas_append, ringHas_append] at hring
  have hlen : (items.take i).flatten.length = i * bytes q := by
    rw [length_flatten_units fun u hu => h.unit_length u (List.mem_of_mem_take hu),
      List.length_take, Nat.min_eq_left hi]
  rw [hlen] at hring
  refine hring.2.1.congr ?_
  rw [h.buffer_length, hx]
  exact (counter_add q.powerOfTwo s.head i (bytes q)).symm

/-- Reading `n` units from the `i`th on. -/
theorem Holds.read (h : Holds q s items) {dest : Bytes} {i n : Nat} {x transfer : BitVec w}
    (hx : x = s.head + BitVec.ofNat w i) (htransfer : transfer.toNat = n)
    (hn : i + n ≤ items.length) (hdest : n * bytes q ≤ dest.length) :
    queueReadSafe q s.buffer dest (q.index x) transfer =
      some (((items.drop i).take n).flatten ++
        dest.drop ((items.drop i).take n).flatten.length) := by
  have hle := h.length_le
  have hlen : ((items.drop i).take n).flatten.length = n * bytes q := by
    rw [length_flatten_units fun u hu =>
        h.unit_length u (List.mem_of_mem_drop (List.mem_of_mem_take hu)),
      List.length_take, List.length_drop, Nat.min_eq_left (by omega)]
  have hring := h.ring_drop (n := n) (by omega : i ≤ items.length) hx
  have hroom : ((items.drop i).take n).flatten.length ≤ dest.length := by
    rw [hlen]
    exact hdest
  exact queueReadSafe_spec h.buffer_length (by omega) hring (by rw [hlen, htransfer]) hroom

/-- Units leave at the head. -/
theorem Holds.remove {n : Nat} {count : BitVec w} (h : Holds q s items) (hn : n ≤ items.length)
    (hcount : count.toNat = n) :
    ∃ s', queueAdvanceHead count s = (count, s') ∧ Holds q s' (items.drop n) := by
  have hofNat : count = BitVec.ofNat w n := by rw [← hcount, BitVec.ofNat_toNat, BitVec.setWidth_eq]
  have hall : cMin count (queueCount s) = count :=
    cMin_eq_left (by rw [hcount, h.count]; exact hn)
  refine ⟨{ s with head := s.head + count }, ?_, h.buffer_length, ?_, ?_, ?_, ?_⟩
  · unfold queueAdvanceHead
    rw [hall]
  · have := h.length_le
    rw [List.length_drop]
    omega
  · show s.tail = s.head + count + _
    rw [h.tail_eq, hofNat, BitVec.add_assoc, ← BitVec.ofNat_add, List.length_drop,
      Nat.add_sub_cancel' hn]
  · exact fun u hu => h.unit_length u (List.mem_of_mem_drop hu)
  · have hring := h.ring_drop (n := items.length - n) hn (by rw [← hofNat] : s.head + count = _)
    rwa [List.take_of_length_le (by rw [List.length_drop])] at hring

theorem queueAdvanceHead_spec (h : Holds q s items) {count : BitVec w} {n : Nat}
    (hn : n = min count.toNat items.length) :
    ∃ r s', queueAdvanceHead count s = (r, s') ∧ r.toNat = n ∧ Holds q s' (items.drop n) := by
  have htransfer : (cMin count (queueCount s)).toNat = n := by rw [toNat_cMin, h.count, hn]
  obtain ⟨s', hadvance, hholds⟩ := h.remove (by omega : n ≤ items.length) htransfer
  refine ⟨_, s', ?_, htransfer, hholds⟩
  -- Advancing by what is there, or by more, is the same.
  have hagain : cMin (cMin count (queueCount s)) (queueCount s) = cMin count (queueCount s) :=
    cMin_eq_left (by rw [htransfer, h.count]; omega)
  unfold queueAdvanceHead at hadvance ⊢
  rw [hagain] at hadvance
  exact hadvance

theorem queueRemoveUnits_spec (h : Holds q s items) {dest : Bytes} {count : BitVec w} {n : Nat}
    (hn : n = min count.toNat items.length) (hdest : n * bytes q ≤ dest.length) :
    ∃ r s', queueRemoveUnits q dest count s =
        some ((items.take n).flatten ++ dest.drop (items.take n).flatten.length, r, s') ∧
      r.toNat = n ∧ Holds q s' (items.drop n) := by
  have htransfer : (cMin count (queueCount s)).toNat = n := by rw [toNat_cMin, h.count, hn]
  have hread := h.read (by simp : s.head = s.head + BitVec.ofNat w 0) htransfer (by omega) hdest
  obtain ⟨s', hadvance, hholds⟩ := h.remove (by omega : n ≤ items.length) htransfer
  refine ⟨_, s', ?_, htransfer, hholds⟩
  unfold queueRemoveUnits
  dsimp only
  rw [hread, List.drop_zero]
  show some (_, queueAdvanceHead _ s) = _
  rw [hadvance]

theorem queueRemoveUnit_spec (h : Holds q s items) {dest : Bytes} {n : Nat}
    (hn : n = min 1 items.length) (hdest : n * bytes q ≤ dest.length) :
    ∃ r s', queueRemoveUnit q dest s =
        some ((items.take n).flatten ++ dest.drop (items.take n).flatten.length, r, s') ∧
      r.toNat = n ∧ Holds q s' (items.drop n) := by
  have hone := counter_one q.powerOfTwo
  unfold queueRemoveUnit
  by_cases hempty : queueCount s = 0
  · have hcount := h.count
    rw [hempty] at hcount
    have hn0 : n = 0 := by simp at hcount; lia
    subst hn0
    refine ⟨0, s, ?_, by simp, by simpa using h⟩
    rw [if_pos hempty]
    simp
  · have hn1 : n = 1 := by
      have hne : (queueCount s).toNat ≠ 0 := fun h0 => hempty (BitVec.eq_of_toNat_eq (by simp [h0]))
      rw [h.count] at hne
      lia
    subst hn1
    have hread := h.read (by simp : s.head = s.head + BitVec.ofNat w 0) hone (by lia) hdest
    -- One unit is read in one piece.
    have hfirst : cMin 1 (q.bufferUnits - q.index s.head) = 1 := by
      refine cMin_eq_left ?_
      rw [hone, toNat_units_sub_index]
      have := Nat.mod_lt s.head.toNat (units_pos q)
      lia
    have hunit : (1 : BitVec w) * q.unitBytes = q.unitBytes := BitVec.one_mul _
    have hoff : q.index s.head * (1 : BitVec w) = q.index s.head := BitVec.mul_one _
    unfold queueReadSafe at hread
    dsimp only at hread
    rw [hfirst, hunit, List.drop_zero] at hread
    have hcopy : memcpy dest 0 s.buffer (q.index s.head * q.unitBytes) q.unitBytes =
        some ((items.take 1).flatten ++ dest.drop (items.take 1).flatten.length) := by
      cases hmem : memcpy dest 0 s.buffer (q.index s.head * q.unitBytes) q.unitBytes with
      | none =>
          rw [hmem] at hread
          cases hread
      | some dest₁ =>
          rw [hmem] at hread
          dsimp only at hread
          rwa [if_neg (BitVec.lt_irrefl _)] at hread
    have hread' : (if q.unitBytes = 1 then memcpy dest 0 s.buffer (q.index s.head) 1
        else memcpy dest 0 s.buffer (q.index s.head * q.unitBytes) q.unitBytes) =
        some ((items.take 1).flatten ++ dest.drop (items.take 1).flatten.length) := by
      split
      · rename_i hbyte
        rwa [hbyte, hoff] at hcopy
      · exact hcopy
    obtain ⟨s', hadvance, hholds⟩ := h.remove (by lia : 1 ≤ items.length) hone
    refine ⟨1, s', ?_, hone, hholds⟩
    rw [if_neg hempty]
    dsimp only
    rw [hread']
    show some (_, queueAdvanceHead 1 s) = _
    rw [hadvance]

theorem queuePeekUnits_spec (h : Holds q s items) {dest : Bytes} {i count : BitVec w} {n : Nat}
    (hi : i.toNat < items.length) (hn : n = min count.toNat (items.length - i.toNat))
    (hdest : n * bytes q ≤ dest.length) :
    ∃ r, queuePeekUnits q dest i count s =
        some (((items.drop i.toNat).take n).flatten ++
          dest.drop ((items.drop i.toNat).take n).flatten.length, r) ∧ r.toNat = n := by
  have hlt : i < queueCount s := by
    rw [BitVec.lt_def, h.count]
    exact hi
  have htransfer : (cMin count (queueCount s - i)).toNat = n := by
    rw [toNat_cMin, BitVec.toNat_sub_of_le (BitVec.le_def.mpr (Nat.le_of_lt hlt)), h.count, hn]
  have hread := h.read (by rw [BitVec.ofNat_toNat, BitVec.setWidth_eq] : s.head + i = _) htransfer
    (by omega) hdest
  refine ⟨_, ?_, htransfer⟩
  unfold queuePeekUnits
  dsimp only
  rw [if_pos hlt, hread]

/-! ## Every sequence of calls -/

/-- What the program returns when a call has the effect `e`: the units that the caller gets
are at the start of the destination. -/
def Effect.Returned (e : Effect) (op : Op w) (dest : Bytes) (r : BitVec w) : Prop :=
  r.toNat = e.ret ∧ dest = e.given.flatten ++ op.dest.drop e.given.flatten.length

/-- **Step lemma.**  Every call has its effect, and stays inside the buffers. -/
theorem step_spec (h : Holds q s items) {op : Op w} (hfits : Fits q items op) :
    ∃ dest r s', step q s op = some (dest, r, s') ∧
      (fifoEffect q items op).Returned op dest r ∧
      Holds q s' ((fifoEffect q items op).next items) := by
  cases op with
  | addUnit src =>
      obtain ⟨r, s', hcall, hr, hholds⟩ := queueAddUnit_spec h rfl hfits
      exact ⟨[], r, s', by simp [step, hcall], ⟨hr, rfl⟩, hholds⟩
  | addUnits src count =>
      obtain ⟨r, s', hcall, hr, hholds⟩ := queueAddUnits_spec h rfl hfits
      exact ⟨[], r, s', by simp [step, hcall], ⟨hr, rfl⟩, hholds⟩
  | removeUnit dest =>
      obtain ⟨r, s', hcall, hr, hholds⟩ := queueRemoveUnit_spec h rfl hfits
      refine ⟨_, r, s', hcall, ⟨hr, rfl⟩, ?_⟩
      simpa [Effect.next, fifoEffect] using hholds
  | removeUnits dest count =>
      obtain ⟨r, s', hcall, hr, hholds⟩ := queueRemoveUnits_spec h rfl hfits
      refine ⟨_, r, s', hcall, ⟨hr, rfl⟩, ?_⟩
      simpa [Effect.next, fifoEffect] using hholds
  | advanceHead count =>
      obtain ⟨r, s', hcall, hr, hholds⟩ := queueAdvanceHead_spec h rfl
      refine ⟨[], r, s', congrArg (fun r => some ([], r)) hcall, ⟨hr, rfl⟩, ?_⟩
      simpa [Effect.next, fifoEffect] using hholds
  | peekUnits dest i count =>
      obtain ⟨r, hcall, hr⟩ := queuePeekUnits_spec h hfits.2 rfl hfits.1
      refine ⟨_, r, s, by simp only [step, hcall]; rfl, ⟨hr, rfl⟩, ?_⟩
      simpa [Effect.next, fifoEffect] using h

/-- The program over a sequence of calls: the destinations and return values, and the last
state. -/
def run (q : Queue w) : List (Op w) → QueueState w → Option (List (Bytes × BitVec w) × QueueState w)
  | [], s => some ([], s)
  | op :: ops, s =>
      match step q s op with
      | none => none
      | some (dest, r, s₁) =>
          match run q ops s₁ with
          | none => none
          | some (outs, s₂) => some ((dest, r) :: outs, s₂)

/-- The abstract queue over a sequence of calls: each call with its effect, and the units
that are left. -/
def fifoRun (q : Queue w) : List (Op w) → List Bytes → List (Op w × Effect) × List Bytes
  | [], items => ([], items)
  | op :: ops, items =>
      let e := fifoEffect q items op
      let rest := fifoRun q ops (e.next items)
      ((op, e) :: rest.1, rest.2)

/-- Every caller passes enough memory. -/
def AllFit (q : Queue w) : List (Op w) → List Bytes → Prop
  | [], _ => True
  | op :: ops, items => Fits q items op ∧ AllFit q ops ((fifoEffect q items op).next items)

/-- All units that entered the queue, and all that left it. -/
def entered (calls : List (Op w × Effect)) : List Bytes := calls.flatMap fun call => call.2.added

def left (calls : List (Op w × Effect)) : List Bytes := calls.flatMap fun call => call.2.removed

theorem holds_queueInit {buffer : Bytes} (hbuffer : buffer.length = units q * bytes q) :
    Holds q (queueInit w buffer) [] := by
  refine ⟨hbuffer, Nat.zero_le _, by simp [queueInit], by simp, ?_⟩
  intro i hi
  simp at hi

/-- What a call removes is what was there first. -/
theorem removed_append (q : Queue w) (items : List Bytes) (op : Op w) :
    (fifoEffect q items op).removed ++ items.drop (fifoEffect q items op).removed.length =
      items := by
  cases op <;> simp [fifoEffect]

/-- Nothing is lost and nothing comes twice. -/
theorem entered_eq (q : Queue w) (ops : List (Op w)) (items : List Bytes) :
    items ++ entered (fifoRun q ops items).1 =
      left (fifoRun q ops items).1 ++ (fifoRun q ops items).2 := by
  induction ops generalizing items with
  | nil => simp [fifoRun, entered, left]
  | cons op ops ih =>
      have hstep := ih ((fifoEffect q items op).next items)
      have hremoved := removed_append q items op
      simp only [fifoRun, entered, left, List.flatMap_cons, List.append_assoc] at hstep ⊢
      rw [← hstep]
      unfold Effect.next
      rw [← List.append_assoc, ← List.append_assoc, ← List.append_assoc, hremoved,
        List.append_assoc]

/-- **Run lemma.** -/
theorem run_of_holds (h : Holds q s items) {ops : List (Op w)} (hfit : AllFit q ops items) :
    ∃ outs s', run q ops s = some (outs, s') ∧
      List.Forall₂ (fun out call => call.2.Returned call.1 out.1 out.2) outs
        (fifoRun q ops items).1 ∧
      Holds q s' (fifoRun q ops items).2 := by
  induction ops generalizing s items with
  | nil => exact ⟨[], s, rfl, List.Forall₂.nil, h⟩
  | cons op ops ih =>
      obtain ⟨dest, r, s₁, hstep, hret, hholds⟩ := step_spec h hfit.1
      obtain ⟨outs, s', hrun, hrets, hholds'⟩ := ih hholds hfit.2
      refine ⟨(dest, r) :: outs, s', ?_, List.Forall₂.cons hret hrets, hholds'⟩
      simp only [run, hstep, hrun]

/-- **The queue is a bounded FIFO.**  From `queue_init` on, every sequence of calls has the
effects of the abstract queue and accesses no byte outside of the buffer.  The units that
entered are those that left, in order, and those that are still there; count and space
add up to the capacity. -/
theorem queue_fifo (q : Queue w) (buffer : Bytes) (hbuffer : buffer.length = units q * bytes q)
    (ops : List (Op w)) (hfit : AllFit q ops []) :
    ∃ outs s', run q ops (queueInit w buffer) = some (outs, s') ∧
      List.Forall₂ (fun out call => call.2.Returned call.1 out.1 out.2) outs
        (fifoRun q ops []).1 ∧
      entered (fifoRun q ops []).1 = left (fifoRun q ops []).1 ++ (fifoRun q ops []).2 ∧
      (queueCount s').toNat = (fifoRun q ops []).2.length ∧
      (queueCount s').toNat + (queueSpace q s').toNat = units q := by
  obtain ⟨outs, s', hrun, hrets, hholds⟩ := run_of_holds (holds_queueInit hbuffer) hfit
  have hle := hholds.length_le
  refine ⟨outs, s', hrun, hrets, ?_, hholds.count, ?_⟩
  · simpa using entered_eq q ops []
  · rw [hholds.count, hholds.space]
    omega

/-- Two units of two bytes, with counters of three bits. -/
def pairQueue : Queue 3 := ⟨2, 2, ⟨1, rfl⟩, by decide, by decide⟩

/-- Calls that take the counters of `pairQueue` around. -/
def pairCalls : List (Op 3) :=
  [.addUnits [1, 2, 3, 4] 5, .removeUnit [0, 0], .addUnit [5, 6], .peekUnits [0, 0] 1 1,
    .removeUnits [0, 0, 0, 0] 7, .addUnits [1, 2, 3, 4] 2, .advanceHead 2,
    .addUnits [5, 6, 7, 8] 2, .removeUnits [0, 0, 0, 0] 2, .addUnits [9, 9] 1,
    .addUnits [1, 2] 1, .removeUnits [0, 0, 0, 0] 3]

theorem queue_fifo_pairCalls :
    AllFit pairQueue pairCalls [] ∧
      ∃ outs s', run pairQueue pairCalls (queueInit 3 [0, 0, 0, 0]) = some (outs, s') ∧
        List.Forall₂ (fun out call => call.2.Returned call.1 out.1 out.2) outs
          (fifoRun pairQueue pairCalls []).1 ∧
        entered (fifoRun pairQueue pairCalls []).1 =
          left (fifoRun pairQueue pairCalls []).1 ++ (fifoRun pairQueue pairCalls []).2 ∧
        (queueCount s').toNat = (fifoRun pairQueue pairCalls []).2.length ∧
        (queueCount s').toNat + (queueSpace pairQueue s').toNat = units pairQueue := by
  have hfit : AllFit pairQueue pairCalls [] := by
    simp only [pairCalls, AllFit, Fits]
    decide
  exact ⟨hfit, queue_fifo pairQueue [0, 0, 0, 0] rfl pairCalls hfit⟩

end Queue
end CrosEc
