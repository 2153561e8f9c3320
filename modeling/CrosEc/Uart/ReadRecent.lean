import CrosEc.Lib.Interleaving
import CrosEc.Uart.Model

/-!
# Reading the console's new output

The characters are counted from the first one on.  A snapshot is a position, and what is new in it
goes from the snapshot before it to there.  The buffer still has the last characters, as many as it
has places; the writer keeps the place that is read next ahead of the one that it will write next,
so that the oldest one of these is given up.
-/

namespace CrosEc
namespace Uart

open Lib Util

variable {k : Nat}

/-! ## Histories -/

/-- The buffer, with all characters queued so far, their number at the last two snapshots and what
has been read since the last one. -/
structure History (k : Nat) where
  uart : TxState k
  queued : Bytes
  previous : Nat
  mark : Nat
  recent : Bytes

namespace History

/-- A history that starts at boot. -/
def init (k : Nat) : History k := ⟨TxState.init k, [], 0, 0, []⟩

/-- A character is queued. -/
def txPut (h : History k) (c : BitVec 32) : Option (History k) :=
  (h.uart.txPut c).map fun uart => { h with uart := uart, queued := h.queued ++ [⟨c.setWidth 8⟩] }

/-- `__tx_char` -/
def txChar (h : History k) (c : BitVec 32) : History k :=
  match if c = charInt '\n'.toUInt8 then h.txPut (charInt '\r'.toUInt8) else some h with
  | none => h
  | some h => (h.txPut c).getD h

/-- `uart_console_read_buffer_init` -/
def snapshot (h : History k) : History k :=
  ⟨h.uart.uartConsoleReadBufferInit, h.queued, h.mark, h.queued.length, []⟩

/-- `uart_console_read_buffer`; the data is what is written before the NUL. -/
def read (h : History k) (type : ConsoleRead) (destSize : BitVec 16) : History k :=
  let (dest, uart) := h.uart.uartConsoleReadBuffer type destSize
  match type with
  | .next => { h with uart := uart }
  | .recent => { h with uart := uart, recent := h.recent ++ dest.dropLast }

/-- The calls. -/
inductive Event where
  | txChar (c : BitVec 32)
  | processOutput (ready : Nat)
  | snapshot
  | read (type : ConsoleRead) (destSize : BitVec 16)

/-- One whole call. -/
def step (h : History k) : Event → Option (History k)
  | .txChar c => some (h.txChar c)
  | .processOutput ready => some { h with uart := h.uart.uartProcessOutput ready }
  | .snapshot => some h.snapshot
  | .read type destSize => some (h.read type destSize)

/-- Every order of whole calls. -/
abbrev Reachable (h : History k) : Prop := Lib.Reachable step anyEvent (init k) h

theorem txPut_uart (h : History k) (c : BitVec 32) :
    (h.txPut c).map History.uart = h.uart.txPut c := by
  rw [txPut, Option.map_map]
  exact congrFun Option.map_id _

/-- The buffer of a history is the one that the calls change. -/
theorem txChar_uart (h : History k) (c : BitVec 32) :
    (h.txChar c).uart = (h.uart.txChar c).2 := by
  rw [txChar, TxState.txChar]
  split_ifs with hnewline
  · rw [← txPut_uart]
    cases h.txPut (charInt '\r'.toUInt8) with
    | none => rfl
    | some h₁ =>
        dsimp only [Option.map_some]
        rw [← txPut_uart]
        cases h₁.txPut c <;> rfl
  · dsimp only
    rw [← txPut_uart]
    cases h.txPut c <;> rfl

end History

/-! ## The invariant -/

open History

variable {h h' : History k} {pos : Nat} {seen : List Nat}

/-- What the data read since the last snapshot is: the characters at the positions `seen`, in order
and without the NULs.  They are new in the snapshot, and reading goes on at `pos`.  A position before
that which is not seen has been passed by the writer, and the ones from there on are still in the
buffer. -/
structure NewOutput (h : History k) (seen : List Nat) (pos : Nat) : Prop where
  sorted : seen.Pairwise (· < ·)
  mem_seen : ∀ i ∈ seen, h.previous ≤ i ∧ i < pos
  previous_le : h.previous ≤ pos
  pos_le : pos ≤ h.mark
  recent_eq : h.recent = (seen.map fun i => h.queued.getD i 0).filter (· ≠ 0)
  passed : ∀ i, h.previous ≤ i → i < pos → i ∉ seen → i + 2 ^ k ≤ h.queued.length
  ahead : pos < h.mark → h.queued.length < pos + 2 ^ k

/-- It is about what was queued and read, not about the buffer. -/
theorem NewOutput.withUart (hnew : NewOutput h seen pos) (uart : TxState k) :
    NewOutput { h with uart := uart } seen pos :=
  ⟨hnew.sorted, hnew.mem_seen, hnew.previous_le, hnew.pos_le, hnew.recent_eq, hnew.passed,
    hnew.ahead⟩

/-- The indices, as positions. -/
structure Coherent (h : History k) : Prop where
  head_eq : h.uart.txBufHead = slot k h.queued.length
  previous_le : h.previous ≤ h.mark
  mark_le : h.mark ≤ h.queued.length
  contents : ∀ p < h.queued.length, h.queued.length ≤ p + 2 ^ k →
    h.uart.txBuf (slot k p) = h.queued.getD p 0
  snapshotHead_eq : h.uart.txSnapshotHead = slot k h.mark
  nextSnapshotHead_eq :
    h.uart.txNextSnapshotHead = slot k (max h.mark (h.queued.length + 1 - 2 ^ k))
  recent : ∃ seen pos, NewOutput h seen pos ∧ h.uart.txLastSnapshotHead = slot k pos

theorem coherent_init (k : Nat) : Coherent (History.init k) := by
  have hpow := Nat.two_pow_pos k
  have hzero : slot k 0 = ⟨0, hpow⟩ := Fin.ext (Nat.zero_mod _)
  refine ⟨hzero.symm, le_rfl, le_rfl, fun p hp => absurd hp (Nat.not_lt_zero _), hzero.symm, ?_,
    [], 0, ⟨.nil, fun i hi => absurd hi List.not_mem_nil, le_rfl, le_rfl, rfl, ?_, ?_⟩, hzero.symm⟩
  · show _ = slot k (max 0 (0 + 1 - 2 ^ k))
    rw [show max 0 (0 + 1 - 2 ^ k) = 0 by omega, hzero]
    rfl
  · exact fun i _ hi => absurd hi (Nat.not_lt_zero _)
  · exact fun h => absurd h (Nat.lt_irrefl _)

/-- The writer comes to an index `pos` when the buffer is a turn ahead of it. -/
theorem next_eq_slot_iff (pos len : Nat) (hle : pos ≤ len) (hlt : len < pos + 2 ^ k) :
    slot k (len + 1) = slot k pos ↔ len + 1 = pos + 2 ^ k := by
  constructor
  · intro heq
    by_contra hne
    have heq := (slot_eq_iff (by omega) (by omega)).mp heq.symm
    omega
  · intro heq
    rw [heq, slot_add_pow]

/-- The last output with one more character. -/
theorem getD_concat {xs : Bytes} {x : UInt8} {i : Nat} (hi : i < xs.length) :
    (xs ++ [x]).getD i 0 = xs.getD i 0 := by
  rw [List.getD_eq_getElem?_getD, List.getElem?_append_left hi, List.getD_eq_getElem?_getD]

/-- What has been read is the same with one more character queued. -/
theorem NewOutput.recent_concat (hnew : NewOutput h seen pos) (hmark : h.mark ≤ h.queued.length)
    (x : UInt8) :
    h.recent = (seen.map fun i => (h.queued ++ [x]).getD i 0).filter (· ≠ 0) := by
  have hpos := hnew.pos_le
  rw [hnew.recent_eq]
  congr 1
  apply List.map_congr_left
  intro i hi
  have hlt := (hnew.mem_seen i hi).2
  exact (getD_concat (by omega)).symm

/-- One more character is queued, and the writer does not come to the place that is read next. -/
theorem NewOutput.concat (hnew : NewOutput h seen pos) (hmark : h.mark ≤ h.queued.length) (x : UInt8)
    (hstay : ¬ (pos < h.mark ∧ h.queued.length + 1 = pos + 2 ^ k)) :
    NewOutput { h with queued := h.queued ++ [x] } seen pos := by
  have hlen : (h.queued ++ [x]).length = h.queued.length + 1 := by
    rw [List.length_append, List.length_singleton]
  refine ⟨hnew.sorted, hnew.mem_seen, hnew.previous_le, hnew.pos_le, hnew.recent_concat hmark x, ?_,
    ?_⟩
  · intro i hi hlt hunseen
    have hle := hnew.passed i hi hlt hunseen
    dsimp only
    omega
  · intro hunread
    have hahead := hnew.ahead hunread
    have hnot : h.queued.length + 1 ≠ pos + 2 ^ k := fun heq => hstay ⟨hunread, heq⟩
    dsimp only
    omega

/-- The writer comes to the oldest character that has not been read, and passes it. -/
theorem NewOutput.overtaken (hnew : NewOutput h seen pos) (hmark : h.mark ≤ h.queued.length)
    (x : UInt8) (hunread : pos < h.mark) (hturn : h.queued.length + 1 = pos + 2 ^ k) :
    NewOutput { h with queued := h.queued ++ [x] } seen (pos + 1) := by
  have hpow := Nat.two_pow_pos k
  have hlen : (h.queued ++ [x]).length = h.queued.length + 1 := by
    rw [List.length_append, List.length_singleton]
  refine ⟨hnew.sorted, fun i hi => ?_, hnew.previous_le.trans (Nat.le_succ pos), hunread,
    hnew.recent_concat hmark x, ?_, ?_⟩
  · exact ⟨(hnew.mem_seen i hi).1, (hnew.mem_seen i hi).2.trans (Nat.lt_succ_self pos)⟩
  · intro i hi hlt hunseen
    dsimp only
    rcases Nat.lt_or_ge i pos with hbefore | hafter
    · have hle := hnew.passed i hi hbefore hunseen
      omega
    · omega
  · intro _
    dsimp only
    omega

/-- **A character is queued.** -/
theorem Coherent.txPut (hcoh : Coherent h) {c : BitVec 32} (hput : h.txPut c = some h') :
    Coherent h' := by
  obtain ⟨u', hu', rfl⟩ := Option.map_eq_some_iff.mp hput
  obtain ⟨seen, pos, hnew, hlast⟩ := hcoh.recent
  have hpow := Nat.two_pow_pos k
  have hmark := hcoh.mark_le
  have hpos := hnew.pos_le
  rw [TxState.txPut] at hu'
  dsimp only at hu'
  rw [hcoh.head_eq, txBufNext_slot, txBufNext_slot] at hu'
  split at hu'
  · cases hu'
  obtain rfl := (Option.some.inj hu').symm
  have hlen : (h.queued ++ [(⟨c.setWidth 8⟩ : UInt8)]).length = h.queued.length + 1 := by
    rw [List.length_append, List.length_singleton]
  refine ⟨?_, hcoh.previous_le, ?_, ?_, hcoh.snapshotHead_eq, ?_, ?_⟩
  · rw [hlen]
  · rw [hlen]
    exact hmark.trans (Nat.le_succ _)
  · intro p hp hnear
    rw [hlen] at hp hnear
    dsimp only
    rcases Nat.lt_or_ge p h.queued.length with hlt | hge
    · have hne : slot k p ≠ slot k h.queued.length := by
        intro heq
        have heq := (slot_eq_iff hlt.le (by omega)).mp heq
        omega
      rw [Function.update_of_ne hne, getD_concat hlt, hcoh.contents p hlt (by omega)]
    · obtain rfl : p = h.queued.length := by omega
      rw [Function.update_self, List.getD_eq_getElem?_getD, List.getElem?_concat_length]
      rfl
  · -- the place that the next snapshot reads from
    rw [hlen, hcoh.nextSnapshotHead_eq]
    dsimp only
    have hiff := next_eq_slot_iff (k := k) (max h.mark (h.queued.length + 1 - 2 ^ k))
      h.queued.length (by omega) (by omega)
    split
    · rename_i heq
      have heq := hiff.mp heq
      rw [← slot_add_pow k (max h.mark _)]
      congr 1
      omega
    · rename_i hne
      have hne := mt hiff.mpr hne
      congr 1
      omega
  · -- the place that is read next
    dsimp only
    rw [hlast, hcoh.snapshotHead_eq]
    by_cases hovertakes : pos < h.mark ∧ h.queued.length + 1 = pos + 2 ^ k
    · obtain ⟨hunread, hturn⟩ := hovertakes
      have hne : slot k pos ≠ slot k h.mark := by
        intro heq
        have heq := (slot_eq_iff hpos (by omega)).mp heq
        omega
      refine ⟨seen, pos + 1, (hnew.overtaken hmark _ hunread hturn).withUart _, ?_⟩
      rw [if_pos ⟨(next_eq_slot_iff pos _ (by omega) (by omega)).mpr hturn, hne⟩, hturn,
        Nat.add_right_comm, slot_add_pow]
    · have hstay : ¬ (slot k (h.queued.length + 1) = slot k pos ∧ slot k pos ≠ slot k h.mark) := by
        rintro ⟨heq, hne⟩
        have hunread : pos < h.mark := lt_of_le_of_ne hpos fun hp => hne (hp ▸ rfl)
        have hahead := hnew.ahead hunread
        exact hovertakes ⟨hunread, (next_eq_slot_iff pos _ (by omega) hahead).mp heq⟩
      rw [if_neg hstay]
      exact ⟨seen, pos, (hnew.concat hmark _ hovertakes).withUart _, rfl⟩

/-- **`__tx_char`** -/
theorem Coherent.txChar (hcoh : Coherent h) (c : BitVec 32) : Coherent (h.txChar c) := by
  have hlast : ∀ {h : History k}, Coherent h → Coherent ((h.txPut c).getD h) := by
    intro h hcoh
    cases hput : h.txPut c with
    | none => exact hcoh
    | some h' => exact hcoh.txPut hput
  rw [History.txChar]
  split
  · exact hcoh
  · rename_i h' hreturn
    split at hreturn
    · exact hlast (hcoh.txPut hreturn)
    · cases hreturn
      exact hlast hcoh

/-- The transmitter takes characters: nothing but the tail changes. -/
theorem uartProcessOutput_eq (ready : Nat) (u : TxState k) :
    ∃ tail, u.uartProcessOutput ready = { u with txBufTail := tail } := by
  induction ready generalizing u with
  | zero => exact ⟨u.txBufTail, rfl⟩
  | succ ready ih =>
      rw [TxState.uartProcessOutput]
      split
      · obtain ⟨tail, htail⟩ := ih { u with txBufTail := txBufNext u.txBufTail }
        exact ⟨tail, htail⟩
      · exact ⟨u.txBufTail, rfl⟩

theorem Coherent.processOutput (hcoh : Coherent h) (ready : Nat) :
    Coherent { h with uart := h.uart.uartProcessOutput ready } := by
  obtain ⟨tail, htail⟩ := uartProcessOutput_eq ready h.uart
  rw [htail]
  obtain ⟨seen, pos, hnew, hlast⟩ := hcoh.recent
  exact ⟨hcoh.head_eq, hcoh.previous_le, hcoh.mark_le, hcoh.contents, hcoh.snapshotHead_eq,
    hcoh.nextSnapshotHead_eq, seen, pos, hnew.withUart _, hlast⟩

/-- **A snapshot.**  Reading starts where the writer has kept the place for it. -/
theorem Coherent.snapshot (hcoh : Coherent h) : Coherent h.snapshot := by
  have hpow := Nat.two_pow_pos k
  have hmark := hcoh.mark_le
  refine ⟨hcoh.head_eq, hmark, le_rfl, hcoh.contents, hcoh.head_eq, ?_, [],
    max h.mark (h.queued.length + 1 - 2 ^ k), ⟨.nil, ?_, le_max_left _ _, ?_, rfl, ?_, ?_⟩,
    hcoh.nextSnapshotHead_eq⟩
  · rw [History.snapshot, max_eq_left (by dsimp only; omega)]
    exact hcoh.head_eq
  · exact fun i hi => absurd hi List.not_mem_nil
  · show max h.mark (h.queued.length + 1 - 2 ^ k) ≤ h.queued.length
    omega
  · intro i hi hlt _
    show i + 2 ^ k ≤ h.queued.length
    have hi : h.mark ≤ i := hi
    omega
  · intro _
    show h.queued.length < max h.mark (h.queued.length + 1 - 2 ^ k) + 2 ^ k
    omega

/-- The characters at some positions, without the NULs. -/
def copied (u : TxState k) (pos count : Nat) : Bytes :=
  ((List.range' pos count).map fun i => u.txBuf (slot k i)).filter (· ≠ 0)

theorem append_copied_zero (u : TxState k) (pos : Nat) (dest : Bytes) :
    dest ++ copied u pos 0 = dest := List.append_nil dest

/-- The first of them. -/
theorem append_copied_succ (u : TxState k) (pos count : Nat) (dest : Bytes) :
    dest ++ copied u pos (count + 1) =
      (if u.txBuf (slot k pos) ≠ 0 then dest ++ [u.txBuf (slot k pos)] else dest) ++
        copied u (pos + 1) count := by
  rw [copied, List.range'_succ, List.map_cons, List.filter_cons]
  simp only [decide_eq_true_eq]
  split
  · rw [List.append_assoc]
    rfl
  · rfl

/-- **The copying loop** copies the characters of some positions, up to the snapshot or to the end
of the response. -/
theorem copyLoop_spec (u : TxState k) (room : Int) {mark : Nat}
    (hhead : u.txSnapshotHead = slot k mark) (rounds : Nat) (hle : pos ≤ mark)
    (hlt : mark < pos + 2 ^ k) (hrounds : mark - pos ≤ rounds) (dest : Bytes) :
    ∃ count, pos + count ≤ mark ∧
      TxState.copyLoop u room rounds (slot k pos) dest =
        (slot k (pos + count), dest ++ copied u pos count) ∧
      (pos + count = mark ∨ room ≤ (dest ++ copied u pos count).length) := by
  induction rounds generalizing pos dest with
  | zero =>
      refine ⟨0, hle, ?_, .inl (by lia)⟩
      rw [append_copied_zero]
      rfl
  | succ rounds ih =>
      rw [TxState.copyLoop]
      by_cases hgo : slot k pos ≠ u.txSnapshotHead ∧ (dest.length : Int) < room
      · have hne : pos ≠ mark := fun h => hgo.1 (h ▸ hhead.symm)
        rw [if_pos hgo, txBufNext_slot]
        obtain ⟨count, hcount, hloop, hend⟩ := ih (show pos + 1 ≤ mark by lia) (by lia)
          (by lia) (if u.txBuf (slot k pos) ≠ 0 then dest ++ [u.txBuf (slot k pos)] else dest)
        rw [← append_copied_succ, Nat.add_right_comm] at hloop
        rw [← append_copied_succ] at hend
        exact ⟨count + 1, by lia, hloop, hend.imp_left fun h => by lia⟩
      · rw [if_neg hgo]
        refine ⟨0, hle, ?_, ?_⟩
        · rw [append_copied_zero]
          rfl
        · rw [append_copied_zero]
          rcases not_and_or.mp hgo with hend | hfull
          · rw [hhead] at hend
            exact .inl ((slot_eq_iff hle hlt).mp (not_not.mp hend))
          · exact .inr (not_lt.mp hfull)

/-- What is copied has been queued. -/
theorem Coherent.copied_eq (hcoh : Coherent h) {count : Nat} (hend : pos + count ≤ h.mark)
    (hahead : h.queued.length < pos + 2 ^ k) :
    copied h.uart pos count =
      ((List.range' pos count).map fun i => h.queued.getD i 0).filter (· ≠ 0) := by
  rw [copied]
  congr 1
  apply List.map_congr_left
  intro i hi
  have hrange := List.mem_range'_1.mp hi
  have hmark := hcoh.mark_le
  exact hcoh.contents i (by omega) (by omega)

/-- Some more positions are read. -/
theorem NewOutput.extend (hnew : NewOutput h seen pos) {count : Nat} (hend : pos + count ≤ h.mark)
    (hahead : h.queued.length < pos + 2 ^ k) (uart : TxState k) (data : Bytes)
    (hdata : data = ((List.range' pos count).map fun i => h.queued.getD i 0).filter (· ≠ 0)) :
    NewOutput { h with uart := uart, recent := h.recent ++ data } (seen ++ List.range' pos count)
      (pos + count) where
  sorted := by
    refine List.pairwise_append.mpr ⟨hnew.sorted, List.pairwise_lt_range', fun i hi j hj => ?_⟩
    exact (hnew.mem_seen i hi).2.trans_le (List.mem_range'_1.mp hj).1
  mem_seen := by
    intro i hi
    rcases List.mem_append.mp hi with hi | hi
    · exact ⟨(hnew.mem_seen i hi).1, (hnew.mem_seen i hi).2.trans_le (Nat.le_add_right _ _)⟩
    · have hrange := List.mem_range'_1.mp hi
      exact ⟨hnew.previous_le.trans hrange.1, hrange.2⟩
  previous_le := hnew.previous_le.trans (Nat.le_add_right _ _)
  pos_le := hend
  recent_eq := by
    rw [List.map_append, List.filter_append, ← hdata, ← hnew.recent_eq]
  passed := by
    intro i hi hlt hunseen
    obtain ⟨hunseen, hrange⟩ := not_or.mp (List.mem_append.not.mp hunseen)
    refine hnew.passed i hi ?_ hunseen
    by_contra hge
    exact hrange (List.mem_range'_1.mpr ⟨by omega, hlt⟩)
  ahead := by
    intro _
    show h.queued.length < pos + count + 2 ^ k
    omega

/-- **A response.**  Reading goes on behind what was read. -/
theorem Coherent.read (hcoh : Coherent h) (type : ConsoleRead) (destSize : BitVec 16) :
    Coherent (h.read type destSize) := by
  obtain ⟨seen, pos, hnew, hlast⟩ := hcoh.recent
  unfold History.read TxState.uartConsoleReadBuffer
  cases type with
  | next =>
      dsimp only
      split <;>
        exact ⟨hcoh.head_eq, hcoh.previous_le, hcoh.mark_le, hcoh.contents, hcoh.snapshotHead_eq,
          hcoh.nextSnapshotHead_eq, seen, pos, hnew.withUart _, hlast⟩
  | recent =>
      dsimp only
      split
      · dsimp only
        rw [List.dropLast_nil, List.append_nil]
        exact ⟨hcoh.head_eq, hcoh.previous_le, hcoh.mark_le, hcoh.contents, hcoh.snapshotHead_eq,
          hcoh.nextSnapshotHead_eq, seen, pos, hnew.withUart _, hlast⟩
      rename_i hdata
      have hunread : pos < h.mark := lt_of_le_of_ne hnew.pos_le fun hp =>
        hdata (by rw [hlast, hp, hcoh.snapshotHead_eq])
      have hahead := hnew.ahead hunread
      have hmark := hcoh.mark_le
      obtain ⟨count, hcount, hloop, -⟩ := copyLoop_spec h.uart ((destSize.toNat : Int) - 1)
        hcoh.snapshotHead_eq (2 ^ k) hnew.pos_le (by omega) (by omega) []
      rw [hlast, hloop]
      dsimp only
      rw [List.nil_append, List.dropLast_concat]
      exact ⟨hcoh.head_eq, hcoh.previous_le, hcoh.mark_le, hcoh.contents, hcoh.snapshotHead_eq,
        hcoh.nextSnapshotHead_eq, seen ++ List.range' pos count, pos + count,
        hnew.extend hcount hahead _ _ (hcoh.copied_eq hcount hahead), rfl⟩

/-- The response is not overrun. -/
theorem copyLoop_length_le (u : TxState k) {room : Int} (rounds : Nat) (tail : Index k)
    {dest : Bytes} (hdest : (dest.length : Int) ≤ room) :
    ((TxState.copyLoop u room rounds tail dest).2.length : Int) ≤ room := by
  induction rounds generalizing tail dest with
  | zero => exact hdest
  | succ rounds ih =>
      rw [TxState.copyLoop]
      split
      case isTrue hgo =>
        refine ih _ ?_
        split
        · rw [List.length_append, List.length_singleton]
          have hroom := hgo.2
          omega
        · exact hdest
      case isFalse => exact hdest

/-- **A response is full or goes up to the snapshot.** -/
theorem Coherent.read_full (hcoh : Coherent h) {destSize : BitVec 16} (hsize : 0 < destSize.toNat) :
    (h.read .recent destSize).uart.txLastSnapshotHead = h.uart.txSnapshotHead ∨
      (h.uart.uartConsoleReadBuffer .recent destSize).1.length = destSize.toNat := by
  obtain ⟨seen, pos, hnew, hlast⟩ := hcoh.recent
  unfold History.read TxState.uartConsoleReadBuffer
  dsimp only
  split
  case isTrue hdone => exact Or.inl hdone.symm
  case isFalse hdata =>
    have hunread : pos < h.mark := lt_of_le_of_ne hnew.pos_le fun hp =>
      hdata (by rw [hlast, hp, hcoh.snapshotHead_eq])
    have hahead := hnew.ahead hunread
    have hmark := hcoh.mark_le
    obtain ⟨count, hcount, hloop, hend⟩ := copyLoop_spec h.uart ((destSize.toNat : Int) - 1)
      hcoh.snapshotHead_eq (2 ^ k) hnew.pos_le (by omega) (by omega) []
    have hroom := @copyLoop_length_le k h.uart ((destSize.toNat : Int) - 1) (2 ^ k) (slot k pos) []
      (by rw [List.length_nil]; omega)
    rw [hloop] at hroom
    rw [hlast, hloop]
    dsimp only at hroom ⊢
    rcases hend with hend | hfull
    · exact Or.inl (by rw [hcoh.snapshotHead_eq, ← hend])
    · refine Or.inr ?_
      rw [List.length_append, List.length_singleton]
      omega

/-- **Run lemma.**  The indices are coherent after every order of calls. -/
theorem coherent_of_reachable (hreach : History.Reachable h) : Coherent h := by
  refine hreach.invariant Coherent (coherent_init k) fun h event h' hcoh _ hstep => ?_
  cases event with
  | txChar c => exact Option.some.inj hstep ▸ hcoh.txChar c
  | processOutput ready => exact Option.some.inj hstep ▸ hcoh.processOutput ready
  | snapshot => exact Option.some.inj hstep ▸ hcoh.snapshot
  | read type destSize => exact Option.some.inj hstep ▸ hcoh.read type destSize

/-! ## What is read -/

/-- **New output.**  After every order of calls the data read since the last snapshot is new in it,
in order and without repetition.  Of what comes before the place where reading goes on, only
characters are missing that the writer passed: since then there has been a whole buffer of output,
but for the one place that stays free.  And reading goes on up to the snapshot: a call with room for
a character either comes to the snapshot or fills the response, with its NUL.  The buffer of the
history is the one that `__tx_char` changes. -/
theorem read_recent_new (hreach : History.Reachable h) :
    (∃ seen pos, NewOutput h seen pos ∧ h.uart.txLastSnapshotHead = slot k pos ∧
      (h.uart.txLastSnapshotHead = h.uart.txSnapshotHead → pos = h.mark)) ∧
    (∀ destSize : BitVec 16, 2 ≤ destSize.toNat →
      (h.read .recent destSize).uart.txLastSnapshotHead = h.uart.txSnapshotHead ∨
        (h.read .recent destSize).recent.length = h.recent.length + (destSize.toNat - 1)) ∧
    ∀ c, (h.txChar c).uart = (h.uart.txChar c).2 := by
  have hcoh := coherent_of_reachable hreach
  obtain ⟨seen, pos, hnew, hlast⟩ := hcoh.recent
  refine ⟨⟨seen, pos, hnew, hlast, fun hdone => ?_⟩, fun destSize hsize => ?_, h.txChar_uart⟩
  · by_contra hne
    have hunread := lt_of_le_of_ne hnew.pos_le hne
    have hahead := hnew.ahead hunread
    have hmark := hcoh.mark_le
    rw [hlast, hcoh.snapshotHead_eq] at hdone
    exact hne ((slot_eq_iff hnew.pos_le (by omega)).mp hdone)
  · refine (hcoh.read_full (by omega)).imp_right fun hfull => ?_
    rw [← hfull, History.read, List.length_append, List.length_dropLast]

/-- Four characters for a buffer of four places, each of them transmitted, and a snapshot that is
read. -/
def fourRead : List Event :=
  let put (c : Char) : List Event := [.txChar (charInt c.toUInt8), .processOutput 1]
  put 'a' ++ put 'b' ++ put 'c' ++ put 'd' ++ [.snapshot, .read .recent 64#16]

theorem read_recent_new_four :
    ∃ h : History 2, h.recent = ['b'.toUInt8, 'c'.toUInt8, 'd'.toUInt8] ∧
      (∃ seen pos, NewOutput h seen pos ∧ h.uart.txLastSnapshotHead = slot 2 pos ∧
        (h.uart.txLastSnapshotHead = h.uart.txSnapshotHead → pos = h.mark)) ∧
      (∀ destSize : BitVec 16, 2 ≤ destSize.toNat →
        (h.read .recent destSize).uart.txLastSnapshotHead = h.uart.txSnapshotHead ∨
          (h.read .recent destSize).recent.length = h.recent.length + (destSize.toNat - 1)) ∧
      ∀ c, (h.txChar c).uart = (h.uart.txChar c).2 := by
  obtain ⟨h, hreach, hrecent⟩ : ∃ h : History 2, History.Reachable h ∧
      h.recent = ['b'.toUInt8, 'c'.toUInt8, 'd'.toUInt8] :=
    Lib.Reachable.exists_of_runEvents fourRead (by decide)
  exact ⟨h, hrecent, read_recent_new hreach⟩

/-- All of the new output has been read but for its start, and the writer has overwritten that. -/
def MissesOverwritten (h : History k) : Prop :=
  ∃ start, h.previous ≤ start ∧ start ≤ h.mark ∧
    h.recent = ((List.range' start (h.mark - start)).map fun i => h.queued.getD i 0).filter (· ≠ 0) ∧
      ∀ i, h.previous ≤ i → i < start → i + 2 ^ k < h.queued.length

/-- The first of the four characters is still in the buffer, and is not read. -/
theorem not_missesOverwritten :
    ¬ ∀ h : History 2, History.Reachable h →
      h.uart.txLastSnapshotHead = h.uart.txSnapshotHead → MissesOverwritten h := by
  intro hmisses
  obtain ⟨h, hreach, hdone, hrecent, hqueued, hprevious, hmark⟩ : ∃ h : History 2, History.Reachable h ∧
      h.uart.txLastSnapshotHead = h.uart.txSnapshotHead ∧
      h.recent = ['b'.toUInt8, 'c'.toUInt8, 'd'.toUInt8] ∧
      h.queued = ['a'.toUInt8, 'b'.toUInt8, 'c'.toUInt8, 'd'.toUInt8] ∧ h.previous = 0 ∧
      h.mark = 4 := Lib.Reachable.exists_of_runEvents fourRead (by decide)
  obtain ⟨start, -, -, hread, hoverwritten⟩ := hmisses h hreach hdone
  rw [hrecent, hqueued, hmark] at hread
  rw [hprevious, hqueued] at hoverwritten
  rcases Nat.eq_zero_or_pos start with rfl | hpos
  · exact absurd hread (by decide)
  · exact absurd (hoverwritten 0 le_rfl hpos) (by decide)

end Uart
end CrosEc
