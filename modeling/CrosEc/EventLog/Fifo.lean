import CrosEc.Common
import CrosEc.Lib.Ring

/-!
# `common/event_log.c`: the event log

The log is a ring of `UNIT_COUNT` units of eight bytes.  An entry is a header, which is
one unit, and the units of its payload.  `log_head` and `log_tail` are `size_t` counters of
units, of any width `w`; they are reduced to an index only where the ring is accessed.

Calls come one after the other: `log_tail_next` is ahead of `log_tail` only inside of
`log_add_event`, and nobody else throws an entry away while `log_dequeue_event` copies it.
An access outside of the ring has the result `none`.
-/

namespace CrosEc

/-- `sizeof(struct event_log_entry)` -/
def EventLog.unitSize : Nat := 8

/-- The size of the log.  It is a power of two by a `BUILD_ASSERT`, has room for the largest
entry, and is an object in memory. -/
structure EventLog (w : Nat) where
  unitCount : BitVec w
  powerOfTwo : ∃ k, unitCount.toNat = 2 ^ k
  largest_le : 5 ≤ unitCount.toNat
  size_lt : unitCount.toNat * EventLog.unitSize < 2 ^ w

namespace EventLog

open Lib Codec

/-- `struct event_log_entry`, without the payload. -/
structure Header where
  timestamp : UInt32
  type : UInt8
  size : UInt8
  data : UInt16
  deriving DecidableEq

def Header.codec : Codec Header :=
  (uint32.prod (uint8.prod (uint8.prod uint16))).ofEquiv
    { toFun := fun h => (h.timestamp, h.type, h.size, h.data)
      invFun := fun t => ⟨t.1, t.2.1, t.2.2.1, t.2.2.2⟩
      left_inv := fun _ => rfl
      right_inv := fun _ => rfl }

/-- `EVENT_LOG_SIZE` -/
def eventLogSize (size : UInt8) : Nat := (size &&& 0x1f).toNat

/-- `ENTRY_SIZE`, in units. -/
def entrySize (payloadSz : Nat) : Nat := 1 + (payloadSz + (unitSize - 1)) / unitSize

/-- `EVENT_LOG_NO_ENTRY`, in a header that is zero otherwise. -/
def noEntry : Header := ⟨0, 0xff, 0, 0⟩

/-- The static variables. -/
structure State (w : Nat) where
  logEvents : Bytes
  logHead : BitVec w
  logTail : BitVec w
  logTailNext : BitVec w

variable {w : Nat}

/-- The variables after reset. -/
def State.init (log : EventLog w) : State w :=
  ⟨List.replicate (log.unitCount.toNat * unitSize) 0, 0, 0, 0⟩

/-- `x & UNIT_COUNT_MASK` -/
def index (log : EventLog w) (x : BitVec w) : BitVec w := x &&& (log.unitCount - 1)

/-- The header at a unit of the log, or at the start of the caller's memory. -/
def readHeader (events : Bytes) (unit : Nat) : Option Header :=
  match loadAt events (unit * unitSize) unitSize with
  | none => none
  | some bytes => some (Header.codec.decode bytes)

/-- `len` bytes of the caller's memory, from `off` bytes behind the payload pointer on.
Whole units are copied, so they may include bytes behind the payload. -/
def payloadBytes (payload : Nat → UInt8) (off len : Nat) : Bytes :=
  (List.range len).map fun i => payload (off + i)

/-- Out of space: discard the oldest entry, until there is enough.  `fuel` bounds the number
of entries that there can be. -/
def discardOldest (log : EventLog w) (totalSize currentTail : BitVec w) :
    Nat → State w → Option (State w)
  | 0, _ => none
  | fuel + 1, s =>
      if log.unitCount - (currentTail - s.logHead) < totalSize then
        match readHeader s.logEvents (log.index s.logHead).toNat with
        | none => none
        | some oldest =>
            discardOldest log totalSize currentTail fuel
              { s with
                logHead := s.logHead + BitVec.ofNat w (entrySize (eventLogSize oldest.size)) }
      else some s

/-- `log_add_event` -/
def logAddEvent (log : EventLog w) (type size : UInt8) (data : UInt16) (payload : Nat → UInt8)
    (timestamp : UInt32) (s : State w) : Option (State w) :=
  let payloadSize := eventLogSize size
  let totalSize := BitVec.ofNat w (entrySize payloadSize)
  let currentTail := s.logTailNext
  let reserved := { s with logTailNext := currentTail + totalSize }
  match discardOldest log totalSize currentTail (log.unitCount.toNat + 1) reserved with
  | none => none
  | some s₁ =>
      let unit := log.index currentTail
      match storeAt s₁.logEvents (unit.toNat * unitSize)
          (Header.codec.encode ⟨timestamp, type, size, data⟩) with
      | none => none
      | some events₁ =>
          -- copy the payload into the FIFO
          let first := cMin (totalSize - 1) (log.unitCount - unit - 1)
          let upToEnd :=
            if first ≠ 0 then
              storeAt events₁ ((unit.toNat + 1) * unitSize)
                (payloadBytes payload 0 (first.toNat * unitSize))
            else some events₁
          match upToEnd with
          | none => none
          | some events₂ =>
              let fromStart :=
                if first < totalSize - 1 then
                  storeAt events₂ 0
                    (payloadBytes payload (first.toNat * unitSize)
                      ((totalSize - first).toNat * unitSize))
                else some events₂
              match fromStart with
              | none => none
              | some events₃ =>
                  let s₂ := { s₁ with logEvents := events₃ }
                  some (if currentTail = s₂.logTail then { s₂ with logTail := s₂.logTailNext }
                    else s₂)

/-- `log_dequeue_event`, with the time in units of the timestamp: the memory of the caller,
the return value, the state. -/
def logDequeueEvent (log : EventLog w) (now : UInt32) (r : Bytes) (s : State w) :
    Option (Bytes × Nat × State w) :=
  if s.logTail = s.logHead then
    match storeAt r 0 (Header.codec.encode noEntry) with
    | none => none
    | some r' => some (r', unitSize, s)
  else
    let unit := log.index s.logHead
    match readHeader s.logEvents unit.toNat with
    | none => none
    | some entry =>
        let totalSize := BitVec.ofNat w (entrySize (eventLogSize entry.size))
        let first := cMin totalSize (log.unitCount - unit)
        match copyAt r 0 s.logEvents (unit.toNat * unitSize) (first.toNat * unitSize) with
        | none => none
        | some r₁ =>
            let copied :=
              if first < totalSize then
                copyAt r₁ (first.toNat * unitSize) s.logEvents 0
                  ((totalSize - first).toNat * unitSize)
              else some r₁
            match copied with
            | none => none
            | some r₂ =>
                -- fixup the timestamp
                match readHeader r₂ 0 with
                | none => none
                | some h =>
                    match storeAt r₂ 0
                        (Header.codec.encode { h with timestamp := now - h.timestamp }) with
                    | none => none
                    | some r₃ =>
                        some (r₃, totalSize.toNat * unitSize,
                          { s with logHead := s.logHead + totalSize })

end EventLog

/-!
## The event log as a FIFO that drops its oldest entries

The abstract log is a list of entries, the oldest first.  `Op.next` says what a call does
to it: an entry is added behind those that are left after `makeRoom` has dropped the oldest
ones, and the oldest entry is the one that is dequeued.  `Stored` relates such a list to
the ring, byte by byte.

The second copy of `log_add_event` is one unit longer than the payload.  This unit is free
space, unless the log is full after the call: then it is the header of the oldest entry.
`Op.Spares` is the condition under which this does not happen.  Every call that meets it
behaves like the abstract one (`eventLog_fifo`), and there are calls that do not
(`eventLog_overwrites_oldest`).
-/

namespace EventLog

open Lib

variable {w : Nat} {log : EventLog w} {s : State w}

/-- `UNIT_COUNT` -/
abbrev capacity (log : EventLog w) : Nat := log.unitCount.toNat

/-! ### The abstract log -/

/-- An entry: its header, and the units of its payload. -/
structure Entry where
  header : Header
  body : Bytes
  body_length : body.length = (entrySize (eventLogSize header.size) - 1) * unitSize

namespace Entry

/-- The length in units. -/
def units (e : Entry) : Nat := entrySize (eventLogSize e.header.size)

/-- The bytes in memory. -/
def image (e : Entry) : Bytes := Header.codec.encode e.header ++ e.body

/-- The entry as it is handed out: the timestamp is relative to the time of the call. -/
def aged (e : Entry) (now : UInt32) : Entry :=
  { e with header := { e.header with timestamp := now - e.header.timestamp } }

end Entry

def usedUnits (es : List Entry) : Nat := (es.map Entry.units).sum

/-- The oldest entries are dropped, one after the other, as long as there is no room for
`total` units. -/
def makeRoom (capacity total : Nat) : List Entry → List Entry
  | [] => []
  | e :: es =>
      if capacity - usedUnits (e :: es) < total then makeRoom capacity total es else e :: es

/-- A call. -/
inductive Op where
  | add (type size : UInt8) (data : UInt16) (payload : Nat → UInt8) (timestamp : UInt32)
  | dequeue (now : UInt32) (r : Bytes)

/-- The entry that is added: its payload is what the pointer points to. -/
def newEntry (type size : UInt8) (data : UInt16) (payload : Nat → UInt8) (timestamp : UInt32) :
    Entry where
  header := ⟨timestamp, type, size, data⟩
  body := payloadBytes payload 0 ((entrySize (eventLogSize size) - 1) * unitSize)
  body_length := by simp [payloadBytes]

/-- The log after a call. -/
def Op.next (log : EventLog w) (es : List Entry) : Op → List Entry
  | .add type size data payload timestamp =>
      makeRoom (capacity log) (entrySize (eventLogSize size)) es ++
        [newEntry type size data payload timestamp]
  | .dequeue _ _ => es.tail

/-- What a call returns: a dequeue gives out the oldest entry, or an empty one. -/
def Op.Returned (es : List Entry) (op : Op) (r : Bytes) (ret : Nat) : Prop :=
  match op, es with
  | .add _ _ _ _ _, _ => True
  | .dequeue _ r₀, [] => r = Header.codec.encode noEntry ++ r₀.drop unitSize ∧ ret = unitSize
  | .dequeue now r₀, e :: _ =>
      r = (e.aged now).image ++ r₀.drop (e.units * unitSize) ∧ ret = e.units * unitSize

/-- The caller's memory has room for the largest entry. -/
def Op.HasRoom : Op → Prop
  | .add _ _ _ _ _ => True
  | .dequeue _ r => 5 * unitSize ≤ r.length

/-- The call does not write over the oldest entry: the new one ends before the end of the
ring, or does not fill the log. -/
def Op.Spares (log : EventLog w) (s : State w) (es : List Entry) : Op → Prop
  | .add _ size _ _ _ =>
      let total := entrySize (eventLogSize size)
      s.logTail.toNat % capacity log + total ≤ capacity log ∨
        usedUnits (makeRoom (capacity log) total es) + total < capacity log
  | .dequeue _ _ => True

/-! ### The ring -/

/-- A call of the program. -/
def step (log : EventLog w) (s : State w) : Op → Option (Bytes × Nat × State w)
  | .add type size data payload timestamp =>
      (logAddEvent log type size data payload timestamp s).map fun s' => ([], 0, s')
  | .dequeue now r => logDequeueEvent log now r s

/-- The entries are in the ring, byte by byte. -/
structure Stored (log : EventLog w) (s : State w) (es : List Entry) : Prop where
  length_eq : s.logEvents.length = capacity log * unitSize
  used_le : usedUnits es ≤ capacity log
  tail_eq : s.logTail = s.logHead + BitVec.ofNat w (usedUnits es)
  tailNext_eq : s.logTailNext = s.logTail
  ring : RingHas s.logEvents (s.logHead.toNat * unitSize) (es.flatMap Entry.image)

/-- In a run from a log that holds `es`, as long as the calls meet a condition, every call
returns what it should, and leaves exactly the entries in the ring that should be there. -/
def FifoRun (log : EventLog w) (condition : State w → List Entry → Op → Prop) :
    List Op → State w → List Entry → Prop
  | [], _, _ => True
  | op :: ops, s, es =>
      op.HasRoom → condition s es op →
        ∃ r ret s', step log s op = some (r, ret, s') ∧ op.Returned es r ret ∧
          Stored log s' (op.next log es) ∧ FifoRun log condition ops s' (op.next log es)

/-! ### Sizes -/

theorem entrySize_pos (n : Nat) : 1 ≤ entrySize n := Nat.le_add_right 1 _

theorem entrySize_le (size : UInt8) : entrySize (eventLogSize size) ≤ 5 := by
  have hle : (size &&& 0x1f).toNat ≤ 31 := by
    rw [UInt8.toNat_and]
    exact Nat.and_le_right
  unfold entrySize eventLogSize unitSize
  omega

@[simp] theorem size_header : Header.codec.size = unitSize := rfl

@[simp] theorem length_payloadBytes (payload : Nat → UInt8) (off len : Nat) :
    (payloadBytes payload off len).length = len := by
  simp [payloadBytes]

theorem payloadBytes_add (payload : Nat → UInt8) (off m n : Nat) :
    payloadBytes payload off (m + n) =
      payloadBytes payload off m ++ payloadBytes payload (off + m) n := by
  simp [payloadBytes, List.range_add, Nat.add_assoc]

theorem Entry.length_image (e : Entry) : e.image.length = e.units * unitSize := by
  have hpos : 1 ≤ e.units := entrySize_pos _
  have hbody : e.body.length = (e.units - 1) * unitSize := e.body_length
  rw [Entry.image, List.length_append, hbody, Header.codec.length_encode,
    size_header, Nat.sub_mul]
  have : 1 * unitSize ≤ e.units * unitSize := Nat.mul_le_mul_right _ hpos
  omega

theorem length_images (es : List Entry) :
    (es.flatMap Entry.image).length = usedUnits es * unitSize := by
  induction es with
  | nil => simp [usedUnits]
  | cons e es ih =>
      rw [List.flatMap_cons, List.length_append, ih, e.length_image]
      simp [usedUnits, Nat.add_mul]

/-- Every entry has at least one unit. -/
theorem length_le_usedUnits (es : List Entry) : es.length ≤ usedUnits es := by
  induction es with
  | nil => simp
  | cons e es ih =>
      have hpos : 1 ≤ e.units := entrySize_pos _
      simp only [usedUnits, List.map_cons, List.sum_cons, List.length_cons] at ih ⊢
      omega

theorem capacity_pos (log : EventLog w) : 0 < capacity log := counter_pos log.powerOfTwo

/-- A power of two that is not less than the largest entry is larger. -/
theorem entrySize_lt (log : EventLog w) (size : UInt8) :
    entrySize (eventLogSize size) < capacity log := by
  have hle := entrySize_le size
  obtain ⟨k, hk⟩ := log.powerOfTwo
  have hlarge := log.largest_le
  rw [hk] at hlarge
  have hk3 : 3 ≤ k := by
    by_contra hsmall
    have hpow : 2 ^ k ≤ 2 ^ 2 := Nat.pow_le_pow_right (by decide) (by omega)
    omega
  have hpow : 2 ^ 3 ≤ 2 ^ k := Nat.pow_le_pow_right (by decide) hk3
  show _ < log.unitCount.toNat
  omega

theorem size_pos (log : EventLog w) : 0 < capacity log * unitSize :=
  Nat.mul_pos (capacity_pos log) (by decide)

theorem toNat_index (log : EventLog w) (x : BitVec w) :
    (log.index x).toNat = x.toNat % capacity log :=
  counter_mask log.powerOfTwo x

/-- A number of units up to the capacity is a `size_t`. -/
theorem toNat_ofNat_units {n : Nat} (h : n ≤ capacity log) : (BitVec.ofNat w n).toNat = n := by
  rw [BitVec.toNat_ofNat]
  exact Nat.mod_eq_of_lt (lt_of_le_of_lt h log.unitCount.isLt)

/-! ### Discarding -/

/-- The header of the entry at the head. -/
theorem readHeader_ring {events rest : Bytes} {x : BitVec w} {e : Entry}
    (hlen : events.length = capacity log * unitSize)
    (h : RingHas events (x.toNat * unitSize) (e.image ++ rest)) :
    readHeader events (log.index x).toNat = some e.header := by
  have hpos := capacity_pos log
  have hlt := Nat.mod_lt x.toNat hpos
  have hheader : RingHas events (x.toNat * unitSize) (Header.codec.encode e.header) := by
    rw [Entry.image, List.append_assoc, ringHas_append] at h
    exact h.1
  -- A header is one unit, so it is in one piece.
  have hone : 1 = min 1 (capacity log - x.toNat % capacity log) := by omega
  have hload := (loadAt_units hlen (size_pos log) hheader (by simp) hpos hone).1
  rw [Nat.one_mul, List.take_of_length_le (by simp)] at hload
  unfold readHeader
  rw [toNat_index, hload]
  simp

theorem usedUnits_cons (e : Entry) (es : List Entry) :
    usedUnits (e :: es) = e.units + usedUnits es := by
  simp [usedUnits]

/-- The free space that the loop computes. -/
theorem toNat_free {x y : BitVec w} {used : Nat} (hused : used ≤ capacity log)
    (hxy : x = y + BitVec.ofNat w used) : (log.unitCount - (x - y)).toNat = capacity log - used := by
  have hsub : x - y = BitVec.ofNat w used := by
    rw [hxy, BitVec.add_comm, BitVec.add_sub_cancel]
  have hnat := toNat_ofNat_units hused
  rw [hsub, BitVec.toNat_sub_of_le, hnat]
  rw [BitVec.le_def, hnat]
  exact hused

/-- The loop drops what `makeRoom` drops. -/
theorem discardOldest_spec {es : List Entry} {total : Nat} {currentTail : BitVec w}
    (hlen : s.logEvents.length = capacity log * unitSize) (hused : usedUnits es ≤ capacity log)
    (htail : currentTail = s.logHead + BitVec.ofNat w (usedUnits es))
    (hring : RingHas s.logEvents (s.logHead.toNat * unitSize) (es.flatMap Entry.image))
    (htotal : total ≤ capacity log) {fuel : Nat} (hfuel : es.length < fuel) :
    ∃ head', discardOldest log (BitVec.ofNat w total) currentTail fuel s =
        some { s with logHead := head' } ∧
      currentTail = head' + BitVec.ofNat w (usedUnits (makeRoom (capacity log) total es)) ∧
      RingHas s.logEvents (head'.toNat * unitSize)
        ((makeRoom (capacity log) total es).flatMap Entry.image) ∧
      usedUnits (makeRoom (capacity log) total es) + total ≤ capacity log := by
  have hcond : log.unitCount - (currentTail - s.logHead) < BitVec.ofNat w total ↔
      capacity log - usedUnits es < total := by
    rw [BitVec.lt_def, toNat_free hused htail, toNat_ofNat_units htotal]
  induction es generalizing s fuel with
  | nil =>
      obtain ⟨fuel, rfl⟩ := Nat.exists_eq_succ_of_ne_zero (by simp at hfuel; omega : fuel ≠ 0)
      have hroom : ¬ (log.unitCount - (currentTail - s.logHead) < BitVec.ofNat w total) := by
        rw [hcond]
        simp [usedUnits]
        omega
      refine ⟨s.logHead, ?_, htail, hring, ?_⟩
      · rw [discardOldest, if_neg hroom]
      · simp [makeRoom, usedUnits]
        omega
  | cons e es ih =>
      obtain ⟨fuel, rfl⟩ := Nat.exists_eq_succ_of_ne_zero (by omega : fuel ≠ 0)
      by_cases hfull : capacity log - usedUnits (e :: es) < total
      · rw [List.flatMap_cons] at hring
        have hread := readHeader_ring hlen hring
        rw [usedUnits_cons] at hused htail
        -- The next entry is at the head now.
        have hnext : currentTail =
            s.logHead + BitVec.ofNat w e.units + BitVec.ofNat w (usedUnits es) := by
          rw [htail, BitVec.ofNat_add, BitVec.add_assoc]
        have hring' : RingHas s.logEvents ((s.logHead + BitVec.ofNat w e.units).toNat * unitSize)
            (es.flatMap Entry.image) := by
          refine (ringHas_append.mp hring).2.congr ?_
          rw [hlen, e.length_image]
          exact (counter_add log.powerOfTwo s.logHead e.units unitSize).symm
        have hroom : makeRoom (capacity log) total (e :: es) = makeRoom (capacity log) total es :=
          if_pos hfull
        rw [hroom, discardOldest, if_pos (hcond.mpr hfull), hread]
        exact ih (s := { s with logHead := s.logHead + BitVec.ofNat w e.units }) hlen
          (by omega) hnext hring' (by simpa using hfuel)
          (by rw [BitVec.lt_def, toNat_free (by omega) hnext, toNat_ofNat_units htotal])
      · have hroom : makeRoom (capacity log) total (e :: es) = e :: es := if_neg hfull
        rw [hroom, discardOldest, if_neg fun h => hfull (hcond.mp h)]
        exact ⟨s.logHead, rfl, htail, hring, by omega⟩

/-! ### Adding -/

/-- The room behind the header, up to the end of the ring. -/
theorem toNat_first {total : Nat} (hpos : 1 ≤ total) (htotal : total ≤ capacity log)
    (x : BitVec w) :
    (BitVec.ofNat w total - 1).toNat = total - 1 ∧
      (cMin (BitVec.ofNat w total - 1) (log.unitCount - log.index x - 1)).toNat =
        min (total - 1) (capacity log - x.toNat % capacity log - 1) := by
  have hone := counter_one log.powerOfTwo
  have hnat := toNat_ofNat_units htotal
  have hlt := Nat.mod_lt x.toNat (capacity_pos log)
  have hindex := toNat_index log x
  have hroom : (log.unitCount - log.index x).toNat = capacity log - x.toNat % capacity log := by
    rw [BitVec.toNat_sub_of_le, hindex]
    rw [BitVec.le_def, hindex]
    exact le_of_lt hlt
  have hpred : (BitVec.ofNat w total - 1).toNat = total - 1 := by
    rw [BitVec.toNat_sub_of_le, hnat, hone]
    rw [BitVec.le_def, hnat, hone]
    exact hpos
  refine ⟨hpred, ?_⟩
  rw [toNat_cMin, hpred, BitVec.toNat_sub_of_le, hroom, hone]
  rw [BitVec.le_def, hroom, hone]
  omega

/-- **The three writes of `log_add_event`.**  Up to the end of the ring they write the entry.
Around it they write the entry and one unit more. -/
theorem storeEntry_spec {events hdr : Bytes} {total : Nat} {x first : BitVec w}
    (hlen : events.length = capacity log * unitSize) (hhdr : hdr.length = unitSize)
    (payload : Nat → UInt8) (hpos : 1 ≤ total) (htotal : total < capacity log)
    (hfirst : first = cMin (BitVec.ofNat w total - 1) (log.unitCount - log.index x - 1)) :
    ∃ events₁ events₂ events₃ n,
      storeAt events ((log.index x).toNat * unitSize) hdr = some events₁ ∧
      (if first ≠ 0 then
        storeAt events₁ (((log.index x).toNat + 1) * unitSize)
          (payloadBytes payload 0 (first.toNat * unitSize))
        else some events₁) = some events₂ ∧
      (if first < BitVec.ofNat w total - 1 then
        storeAt events₂ 0 (payloadBytes payload (first.toNat * unitSize)
          ((BitVec.ofNat w total - first).toNat * unitSize))
        else some events₂) = some events₃ ∧
      Overlay events (x.toNat * unitSize) (hdr ++ payloadBytes payload 0 (n * unitSize)) events₃ ∧
      (n = total - 1 ∨ n = total ∧ capacity log < x.toNat % capacity log + total) := by
  obtain ⟨hpred, hmin⟩ := toNat_first hpos (le_of_lt htotal) x
  rw [← hfirst] at hmin
  have hlt := Nat.mod_lt x.toNat (capacity_pos log)
  have hcond : first < BitVec.ofNat w total - 1 ↔
      capacity log < x.toNat % capacity log + total := by
    rw [BitVec.lt_def, hpred, hmin]
    lia
  obtain ⟨n, hn, hwrap⟩ : ∃ n, (n = total - 1 ∨
      n = total ∧ capacity log < x.toNat % capacity log + total) ∧
      (first < BitVec.ofNat w total - 1 → n = total) ∧
      (¬ first < BitVec.ofNat w total - 1 → n = first.toNat) := by
    by_cases hw : capacity log < x.toNat % capacity log + total
    · exact ⟨total, Or.inr ⟨rfl, hw⟩, fun _ => rfl, fun h => absurd (hcond.mpr hw) h⟩
    · exact ⟨total - 1, Or.inl rfl, fun h => absurd (hcond.mp h) hw, fun _ => by lia⟩
  have hle : first.toNat ≤ n := by lia
  have hf : first.toNat + 1 = min (n + 1) (capacity log - x.toNat % capacity log) := by lia
  -- The header and the first piece of the payload reach up to unit `first + 1`.
  have hdata : hdr ++ payloadBytes payload 0 (n * unitSize) =
      (hdr ++ payloadBytes payload 0 (first.toNat * unitSize)) ++
        payloadBytes payload (first.toNat * unitSize) ((n - first.toNat) * unitSize) := by
    have hsum : n * unitSize = first.toNat * unitSize + (n - first.toNat) * unitSize := by
      rw [← Nat.add_mul, Nat.add_sub_cancel' hle]
    rw [hsum, payloadBytes_add, Nat.zero_add, List.append_assoc]
  have hpiece : (hdr ++ payloadBytes payload 0 (first.toNat * unitSize)).length =
      (first.toNat + 1) * unitSize := by
    rw [List.length_append, hhdr, length_payloadBytes, Nat.add_mul]
    lia
  have hwhole : (hdr ++ payloadBytes payload 0 (n * unitSize)).length = (n + 1) * unitSize := by
    rw [List.length_append, hhdr, length_payloadBytes, Nat.add_mul]
    lia
  obtain ⟨events₂, events₃, hstore, hstore₃, hover⟩ :=
    storeAt_units hlen (size_pos log) hwhole (by lia) x.toNat hf
  rw [hdata, List.take_left' hpiece] at hstore
  rw [hdata, List.drop_left' hpiece] at hstore₃
  obtain ⟨events₁, hstore₁, hstore₂⟩ := storeAt_split hstore
  refine ⟨events₁, events₂, events₃, n, ?_, ?_, ?_, hover, hn⟩
  · rw [toNat_index]
    exact hstore₁
  · rw [hhdr] at hstore₂
    by_cases hzero : first = 0
    · have hfits := storeAt_fits hstore₂
      have hempty : payloadBytes payload 0 (first.toNat * unitSize) = [] := by
        rw [hzero]
        simp [payloadBytes]
      rw [hempty] at hstore₂ hfits
      rw [if_neg (by simp [hzero]), ← hstore₂, storeAt_nil (by simpa using hfits)]
    · rw [if_pos hzero, toNat_index, Nat.add_mul, Nat.one_mul]
      exact hstore₂
  · by_cases hw : first < BitVec.ofNat w total - 1
    · have hnat := toNat_ofNat_units (le_of_lt htotal)
      have hrest : (BitVec.ofNat w total - first).toNat = n - first.toNat := by
        rw [BitVec.toNat_sub_of_le, hnat, hwrap.1 hw]
        rw [BitVec.le_def, hnat]
        lia
      rw [if_pos hw, hrest]
      exact hstore₃
    · rw [hwrap.2 hw, Nat.sub_self, Nat.zero_mul] at hstore₃
      rw [if_neg hw, ← hstore₃]
      exact (storeAt_nil (Nat.zero_le _)).symm

theorem usedUnits_concat (es : List Entry) (e : Entry) :
    usedUnits (es ++ [e]) = usedUnits es + e.units := by
  simp [usedUnits]

/-- An entry that has been written behind the others is in the ring with them, if the unit
that may have been written behind it is not one of theirs. -/
theorem ring_add {events events' : Bytes} {es : List Entry} {e : Entry} {head tail : BitVec w}
    {payload : Nat → UInt8} {n : Nat} (hlen : events.length = capacity log * unitSize)
    (hring : RingHas events (head.toNat * unitSize) (es.flatMap Entry.image))
    (htail : tail = head + BitVec.ofNat w (usedUnits es))
    (hbody : e.body = payloadBytes payload 0 ((e.units - 1) * unitSize))
    (hover : Overlay events (tail.toNat * unitSize)
      (Header.codec.encode e.header ++ payloadBytes payload 0 (n * unitSize)) events')
    (hn : e.units - 1 ≤ n) (hroom : usedUnits es + (n + 1) ≤ capacity log) :
    RingHas events' (head.toNat * unitSize) ((es ++ [e]).flatMap Entry.image) := by
  have hplace := counter_add log.powerOfTwo head (usedUnits es) unitSize
  rw [← htail, ← length_images es, ← hlen] at hplace
  have hroom' : (usedUnits es + (n + 1)) * unitSize ≤ capacity log * unitSize :=
    Nat.mul_le_mul_right _ hroom
  rw [Nat.add_mul, Nat.add_mul, Nat.one_mul] at hroom'
  have hall := hring.overlay (hover.congr hplace) (by
    rw [hlen, length_images, List.length_append, Header.codec.length_encode, size_header,
      length_payloadBytes]
    omega)
  -- What follows the entry does not matter.
  have hsplit : n * unitSize =
      (e.units - 1) * unitSize + (n - (e.units - 1)) * unitSize := by
    rw [← Nat.add_mul, Nat.add_sub_cancel' hn]
  rw [hsplit, payloadBytes_add, ← hbody, ← List.append_assoc, ← List.append_assoc,
    ringHas_append] at hall
  simpa [Entry.image] using hall.1

/-- **Step lemma**: adding. -/
theorem logAddEvent_spec {es : List Entry} (h : Stored log s es) {type size : UInt8}
    {data : UInt16} {payload : Nat → UInt8} {timestamp : UInt32}
    (hspares : (Op.add type size data payload timestamp).Spares log s es) :
    ∃ s', logAddEvent log type size data payload timestamp s = some s' ∧
      Stored log s' (makeRoom (capacity log) (entrySize (eventLogSize size)) es ++
        [newEntry type size data payload timestamp]) := by
  have htotal := entrySize_lt log size
  have hpos : 1 ≤ entrySize (eventLogSize size) := entrySize_pos _
  have hunits : (newEntry type size data payload timestamp).units =
    entrySize (eventLogSize size) := rfl
  have hfuel : es.length < capacity log + 1 := by
    have := length_le_usedUnits es
    have := h.used_le
    lia
  have htail : s.logTailNext = s.logHead + BitVec.ofNat w (usedUnits es) :=
    h.tailNext_eq.trans h.tail_eq
  generalize htot : entrySize (eventLogSize size) = total at *
  obtain ⟨head', hdiscard, htail', hring', hroom⟩ := discardOldest_spec
    (s := { s with logTailNext := s.logTailNext + BitVec.ofNat w total })
    h.length_eq h.used_le htail h.ring (le_of_lt htotal) hfuel
  obtain ⟨events₁, events₂, events₃, n, hstore₁, hstore₂, hstore₃, hover, hn⟩ :=
    storeEntry_spec (x := s.logTailNext) h.length_eq
      (Header.codec.length_encode ⟨timestamp, type, size, data⟩) payload hpos htotal rfl
  have hfit : usedUnits (makeRoom (capacity log) total es) + (n + 1) ≤ capacity log := by
    rcases hn with rfl | ⟨rfl, hwrap⟩
    · lia
    · -- The entry goes around the end, so the condition leaves a unit behind it.
      simp only [Op.Spares, htot, ← h.tailNext_eq] at hspares
      lia
  refine ⟨{ s with
    logEvents := events₃
    logHead := head'
    logTail := s.logTailNext + BitVec.ofNat w total
    logTailNext := s.logTailNext + BitVec.ofNat w total }, ?_, ?_, ?_, ?_, rfl, ?_⟩
  · unfold logAddEvent
    dsimp only
    rw [htot, hdiscard]
    dsimp only
    rw [hstore₁]
    dsimp only
    rw [hstore₂]
    dsimp only
    rw [hstore₃]
    simp [h.tailNext_eq]
  · exact hover.length_eq.trans h.length_eq
  · rw [usedUnits_concat, hunits]
    exact hroom
  · show s.logTailNext + BitVec.ofNat w total = head' + _
    rw [usedUnits_concat, hunits, BitVec.ofNat_add, ← BitVec.add_assoc, ← htail']
  · refine ring_add h.length_eq hring' htail' ?_ hover (by rw [hunits]; lia) hfit
    rw [hunits, ← htot]
    rfl

/-! ### Dequeueing -/

theorem logDequeueEvent_nil (h : Stored log s []) {now : UInt32} {r : Bytes}
    (hr : 5 * unitSize ≤ r.length) :
    logDequeueEvent log now r s =
      some (Header.codec.encode noEntry ++ r.drop unitSize, unitSize, s) := by
  have hempty : s.logTail = s.logHead := by
    rw [h.tail_eq]
    simp [usedUnits]
  have hroom : (Header.codec.encode noEntry).length ≤ r.length := by
    rw [Header.codec.length_encode, size_header]
    omega
  have hstore : storeAt r 0 (Header.codec.encode noEntry) =
      some (Header.codec.encode noEntry ++ r.drop unitSize) := storeAt_append [] hroom
  rw [logDequeueEvent, if_pos hempty, hstore]

/-- The timestamp is fixed up in the caller's copy. -/
theorem storeAt_aged (e : Entry) (now : UInt32) (rest : Bytes) :
    storeAt (e.image ++ rest) 0
        (Header.codec.encode { e.header with timestamp := now - e.header.timestamp }) =
      some ((e.aged now).image ++ rest) := by
  have hroom : (Header.codec.encode
      { e.header with timestamp := now - e.header.timestamp }).length ≤ (e.image ++ rest).length := by
    simp [Entry.image]
  have hdrop : (e.image ++ rest).drop unitSize = e.body ++ rest := by
    rw [Entry.image, List.append_assoc]
    exact List.drop_left' (Header.codec.length_encode _)
  have hstore := storeAt_append [] hroom
  rw [Header.codec.length_encode, size_header, hdrop] at hstore
  refine hstore.trans ?_
  simp [Entry.image, Entry.aged]

theorem readHeader_image (e : Entry) (rest : Bytes) :
    readHeader (e.image ++ rest) 0 = some e.header := by
  have hfits : 0 * unitSize + unitSize ≤ (e.image ++ rest).length := by
    simp [Entry.image]
  have htake : ((e.image ++ rest).drop (0 * unitSize)).take unitSize =
      Header.codec.encode e.header := by
    rw [Nat.zero_mul, List.drop_zero, Entry.image, List.append_assoc]
    exact List.take_left' (Header.codec.length_encode _)
  unfold readHeader
  rw [loadAt_eq_some hfits, htake]
  simp

/-- The two copies of `log_dequeue_event`. -/
theorem copyOut_spec {events r rest : Bytes} {e : Entry} {x total first : BitVec w}
    (hlen : events.length = capacity log * unitSize)
    (hring : RingHas events (x.toNat * unitSize) (e.image ++ rest))
    (hunits : e.units ≤ capacity log) (hr : e.image.length ≤ r.length)
    (htotal : total = BitVec.ofNat w e.units)
    (hfirst : first = cMin total (log.unitCount - log.index x)) :
    ∃ r₁, copyAt r 0 events ((log.index x).toNat * unitSize) (first.toNat * unitSize) = some r₁ ∧
      (if first < total then
        copyAt r₁ (first.toNat * unitSize) events 0 ((total - first).toNat * unitSize)
        else some r₁) = some (e.image ++ r.drop e.image.length) := by
  have hindex := toNat_index log x
  have hlt := Nat.mod_lt x.toNat (capacity_pos log)
  have hnat : total.toNat = e.units := by
    rw [htotal]
    exact toNat_ofNat_units hunits
  have hmin : first.toNat = min e.units (capacity log - x.toNat % capacity log) := by
    rw [hfirst, toNat_cMin, hnat, BitVec.toNat_sub_of_le, hindex]
    rw [BitVec.le_def, hindex]
    exact le_of_lt hlt
  have hrest : (total - first).toNat = e.units - first.toNat := by
    rw [BitVec.toNat_sub_of_le, hnat]
    rw [BitVec.le_def, hnat]
    omega
  obtain ⟨r₁, hcopy₁, hcopy₂⟩ := copyAt_units hlen (size_pos log)
    (ringHas_append.mp hring).1 e.length_image hunits hmin hr
  refine ⟨r₁, ?_, ?_⟩
  · rw [hindex]
    exact hcopy₁
  · rw [hrest]
    simp only [BitVec.lt_def, hnat]
    exact hcopy₂

/-- **Step lemma**: dequeueing. -/
theorem logDequeueEvent_cons {e : Entry} {es : List Entry} (h : Stored log s (e :: es))
    {now : UInt32} {r : Bytes} (hr : 5 * unitSize ≤ r.length) :
    ∃ s', logDequeueEvent log now r s =
        some ((e.aged now).image ++ r.drop (e.units * unitSize), e.units * unitSize, s') ∧
      Stored log s' es := by
  have hle := h.used_le
  rw [usedUnits_cons] at hle
  have hpos : 1 ≤ e.units := entrySize_pos _
  have hunits : e.units ≤ capacity log := by omega
  have hring := h.ring
  rw [List.flatMap_cons] at hring
  have hread := readHeader_ring h.length_eq hring
  have hne : s.logTail ≠ s.logHead := by
    intro heq
    have hsub : s.logTail - s.logHead = BitVec.ofNat w (e.units + usedUnits es) := by
      rw [h.tail_eq, usedUnits_cons, BitVec.add_comm, BitVec.add_sub_cancel]
    have hzero := congrArg BitVec.toNat hsub
    rw [heq, BitVec.sub_self, toNat_ofNat_units hle] at hzero
    simp at hzero
    omega
  have hroom : e.image.length ≤ r.length := by
    have : e.units * unitSize ≤ 5 * unitSize := Nat.mul_le_mul_right _ (entrySize_le _)
    rw [e.length_image]
    omega
  obtain ⟨r₁, hcopy₁, hcopy₂⟩ := copyOut_spec h.length_eq hring hunits hroom rfl rfl
  refine ⟨{ s with logHead := s.logHead + BitVec.ofNat w e.units }, ?_, h.length_eq, ?_, ?_,
    h.tailNext_eq, ?_⟩
  · unfold logDequeueEvent
    rw [if_neg hne]
    dsimp only
    rw [hread]
    dsimp only
    rw [show entrySize (eventLogSize e.header.size) = e.units from rfl, hcopy₁]
    dsimp only
    rw [hcopy₂]
    dsimp only
    rw [readHeader_image]
    dsimp only
    rw [storeAt_aged, toNat_ofNat_units hunits, e.length_image]
  · omega
  · show s.logTail = s.logHead + BitVec.ofNat w e.units + _
    rw [h.tail_eq, usedUnits_cons, BitVec.ofNat_add, BitVec.add_assoc]
  · refine (ringHas_append.mp hring).2.congr ?_
    rw [h.length_eq, e.length_image]
    exact (counter_add log.powerOfTwo s.logHead e.units unitSize).symm

/-! ### Every sequence of calls -/

theorem stored_init (log : EventLog w) : Stored log (State.init log) [] := by
  refine ⟨by simp [State.init], Nat.zero_le _, by simp [State.init, usedUnits], rfl, ?_⟩
  intro i hi
  simp at hi

/-- **Run lemma.** -/
theorem fifoRun_of_stored {ops : List Op} {es : List Entry} (h : Stored log s es) :
    FifoRun log (fun s es op => op.Spares log s es) ops s es := by
  induction ops generalizing s es with
  | nil => trivial
  | cons op ops ih =>
      intro hroom hspares
      cases op with
      | add type size data payload timestamp =>
          obtain ⟨s', hcall, hstored⟩ := logAddEvent_spec h hspares
          exact ⟨[], 0, s', by simp [step, hcall], trivial, hstored, ih hstored⟩
      | dequeue now r =>
          cases es with
          | nil => exact ⟨_, _, s, logDequeueEvent_nil h hroom, ⟨rfl, rfl⟩, h, ih h⟩
          | cons e es =>
              obtain ⟨s', hcall, hstored⟩ := logDequeueEvent_cons h hroom
              exact ⟨_, _, s', hcall, ⟨rfl, rfl⟩, hstored, ih hstored⟩

/-- **A FIFO that drops its oldest entries.**  From reset on, in every run of calls that do
not write around the end of the ring into a full log, every dequeue returns the oldest
entry as it was added, and the entries in the ring are exactly those that should be there,
byte by byte. -/
theorem eventLog_fifo (log : EventLog w) (ops : List Op) :
    FifoRun log (fun s es op => op.Spares log s es) ops (State.init log) [] :=
  fifoRun_of_stored (stored_init log)

/-! ### The unit too many -/

/-- The state after a sequence of calls. -/
def stateAfter (log : EventLog w) : List Op → State w → Option (State w)
  | [], s => some s
  | op :: ops, s =>
      match step log s op with
      | none => none
      | some (_, _, s') => stateAfter log ops s'

/-- The entries after it. -/
def entriesAfter (log : EventLog w) : List Op → List Entry → List Entry
  | [], es => es
  | op :: ops, es => entriesAfter log ops (op.next log es)

theorem FifoRun.stored {ops : List Op} {es : List Entry} (hrooms : ∀ op ∈ ops, op.HasRoom)
    (hs : Stored log s es) (h : FifoRun log (fun _ _ _ => True) ops s es) :
    ∃ s', stateAfter log ops s = some s' ∧ Stored log s' (entriesAfter log ops es) := by
  induction ops generalizing s es with
  | nil => exact ⟨s, rfl, hs⟩
  | cons op ops ih =>
      obtain ⟨r, ret, s₁, hstep, -, hs₁, hrest⟩ := h (hrooms op (by simp)) trivial
      obtain ⟨s', hafter, hs'⟩ := ih (fun op' hop' => hrooms op' (by simp [hop'])) hs₁ hrest
      refine ⟨s', ?_, hs'⟩
      rw [stateAfter, hstep]
      exact hafter

/-- A log of eight units. -/
def smallLog : EventLog 32 := ⟨8, ⟨3, rfl⟩, by decide, by decide⟩

/-- The head is moved on by one unit.  Then an entry of three units is added, and one of
five units, which fills the log and goes around its end. -/
def fillingCalls : List Op :=
  [.add 1 0 7 (fun _ => 0) 100, .dequeue 200 (List.replicate 40 0),
    .add 2 16 8 (fun i => UInt8.ofNat i) 101, .add 3 31 9 (fun i => UInt8.ofNat i) 102]

/-- Without the condition, the oldest entry loses its header. -/
theorem eventLog_overwrites_oldest :
    ¬ FifoRun smallLog (fun _ _ _ => True) fillingCalls (State.init smallLog) [] := by
  intro h
  have hrooms : ∀ op ∈ fillingCalls, op.HasRoom := by
    simp [fillingCalls, Op.HasRoom, unitSize]
  obtain ⟨s', hafter, hstored⟩ := h.stored hrooms (stored_init smallLog)
  -- The first byte of the oldest entry is that of its timestamp, 101; it is 32 now.
  have hbyte : (stateAfter smallLog fillingCalls (State.init smallLog)).map
      (fun s => (s.logHead.toNat, s.logEvents[8]?)) = some (1, some 32) := by
    decide +kernel
  have hentries : ((entriesAfter smallLog fillingCalls []).flatMap Entry.image)[0]? = some 101 := by
    decide +kernel
  rw [hafter] at hbyte
  obtain ⟨hhead, hcell⟩ := Prod.mk.inj (Option.some.inj hbyte)
  have hlen : 0 < ((entriesAfter smallLog fillingCalls []).flatMap Entry.image).length := by
    decide +kernel
  have hring := hstored.ring 0 hlen
  rw [hstored.length_eq, hhead, hentries] at hring
  have hwrong : some (32 : UInt8) = some 101 := hcell.symm.trans hring
  exact absurd hwrong (by decide)

end EventLog
end CrosEc
