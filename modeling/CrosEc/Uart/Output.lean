import CrosEc.Uart.Model

/-!
# What the output functions report

A character is dropped when the buffer is full, and the output ends there: what has been queued is
as much of it as there is room for.  The functions tell a drop by what is left of their argument,
which they have moved past the character already.
-/

namespace CrosEc
namespace Uart

open Lib Util

variable {k : Nat} {u u' : TxState k} {c : BitVec 32} {s out : Bytes}

/-! ## The queue -/

/-- How many characters wait for the transmitter. -/
def pendingCount (u : TxState k) : Nat := (u.txBufHead.val + (2 ^ k - u.txBufTail.val)) % 2 ^ k

/-- The characters that wait for the transmitter, the oldest one first. -/
def pending (u : TxState k) : Bytes :=
  (List.range (pendingCount u)).map fun i => u.txBuf (slot k (u.txBufTail.val + i))

theorem pendingCount_lt (u : TxState k) : pendingCount u < 2 ^ k := Nat.mod_lt _ (Nat.two_pow_pos k)

/-- How many characters fit: one place stays free. -/
def room (u : TxState k) : Nat := 2 ^ k - 1 - pendingCount u

/-- The head lies behind the last character. -/
theorem txBufHead_eq (u : TxState k) : u.txBufHead = slot k (u.txBufTail.val + pendingCount u) := by
  apply Fin.ext
  have htail := u.txBufTail.isLt
  show u.txBufHead.val = (u.txBufTail.val + pendingCount u) % 2 ^ k
  rw [pendingCount, Nat.add_mod_mod, show u.txBufTail.val + (u.txBufHead.val +
    (2 ^ k - u.txBufTail.val)) = u.txBufHead.val + 2 ^ k by omega, Nat.add_mod_right,
    Nat.mod_eq_of_lt u.txBufHead.isLt]

/-- The number of characters between two places. -/
theorem pendingCount_eq {n : Nat} (hn : n < 2 ^ k)
    (hhead : u.txBufHead = slot k (u.txBufTail.val + n)) : pendingCount u = n := by
  have hslot : slot k (u.txBufTail.val + pendingCount u) = slot k (u.txBufTail.val + n) := by
    rw [← txBufHead_eq, hhead]
  have hlt := pendingCount_lt u
  rcases Nat.le_total (pendingCount u) n with hle | hle
  · have heq := (slot_eq_iff (by lia) (by lia)).mp hslot
    lia
  · have heq := (slot_eq_iff (by lia) (by lia)).mp hslot.symm
    lia

/-- The test for a full buffer. -/
theorem next_eq_tail_iff (u : TxState k) :
    txBufNext u.txBufHead = u.txBufTail ↔ room u = 0 := by
  have hlt := pendingCount_lt u
  have htail := slot_val u.txBufTail
  rw [txBufHead_eq, txBufNext_slot, room]
  constructor
  · intro h
    by_contra hroom
    have heq := (slot_eq_iff (by lia) (by lia)).mp (htail.trans h.symm)
    lia
  · intro hroom
    rw [show u.txBufTail.val + pendingCount u + 1 = u.txBufTail.val + 2 ^ k by lia, slot_add_pow,
      htail]

/-- A character is queued if there is room for it. -/
theorem txPut_spec (u : TxState k) (c : BitVec 32) :
    (room u = 0 ∧ u.txPut c = none) ∨
      (0 < room u ∧ ∃ u', u.txPut c = some u' ∧ pending u' = pending u ++ [⟨c.setWidth 8⟩] ∧
        room u' = room u - 1) := by
  rcases Nat.eq_zero_or_pos (room u) with hfull | hpos
  · exact .inl ⟨hfull, if_pos ((next_eq_tail_iff u).mpr hfull)⟩
  refine .inr ⟨hpos, _, if_neg (mt (next_eq_tail_iff u).mp (by lia)), ?_⟩
  have hlt := pendingCount_lt u
  have hroom : room u = 2 ^ k - 1 - pendingCount u := rfl
  generalize hu' : TxState.mk _ _ _ _ _ _ _ = u'
  have htail : u'.txBufTail = u.txBufTail := by rw [← hu']
  have hbuf : u'.txBuf = Function.update u.txBuf u.txBufHead ⟨c.setWidth 8⟩ := by rw [← hu']
  have hhead : u'.txBufHead = slot k (u'.txBufTail.val + (pendingCount u + 1)) := by
    rw [htail, ← Nat.add_assoc, ← txBufNext_slot, ← txBufHead_eq, ← hu']
  have hcount : pendingCount u' = pendingCount u + 1 := pendingCount_eq (by lia) hhead
  refine ⟨?_, by rw [room, hcount]; lia⟩
  rw [pending, hcount, List.range_succ, List.map_append, List.map_singleton, pending]
  congr 1
  · apply List.map_congr_left
    intro i hi
    have hi := List.mem_range.mp hi
    have hne : slot k (u.txBufTail.val + i) ≠ u.txBufHead := by
      rw [txBufHead_eq]
      intro heq
      have heq := (slot_eq_iff (by lia) (by lia)).mp heq
      lia
    rw [htail, hbuf, Function.update_of_ne hne]
  · rw [htail, hbuf, ← txBufHead_eq, Function.update_self]

/-! ## Characters and strings -/

/-- The characters that some output is on the line: a carriage return before each newline. -/
def crlf (cs : List (BitVec 32)) : Bytes :=
  cs.flatMap fun c => if c = charInt '\n'.toUInt8 then ['\r'.toUInt8, '\n'.toUInt8]
    else [⟨c.setWidth 8⟩]

theorem crlf_cons (c : BitVec 32) (cs : List (BitVec 32)) : crlf (c :: cs) = crlf [c] ++ crlf cs := by
  rw [crlf, crlf, crlf, List.flatMap_cons, List.flatMap_singleton]

theorem crlf_append (cs ds : List (BitVec 32)) : crlf (cs ++ ds) = crlf cs ++ crlf ds :=
  List.flatMap_append

/-- As much of some output as there is room for has been queued. -/
structure Queues (u : TxState k) (output : Bytes) (u' : TxState k) : Prop where
  pending_eq : pending u' = pending u ++ output.take (room u)
  room_eq : room u' = room u - output.length

theorem queues_nil (u : TxState k) : Queues u [] u := ⟨by rw [List.take_nil, List.append_nil], rfl⟩

/-- More output after some that fits. -/
theorem Queues.trans {u'' : TxState k} {first second : Bytes} (h : Queues u first u')
    (hfits : first.length ≤ room u) (h' : Queues u' second u'') :
    Queues u (first ++ second) u'' where
  pending_eq := by
    rw [h'.pending_eq, h.pending_eq, h.room_eq, List.take_of_length_le hfits, List.take_append,
      List.take_of_length_le hfits, List.append_assoc]
  room_eq := by
    rw [h'.room_eq, h.room_eq, List.length_append]
    omega

/-- Nothing is queued behind a character that was dropped. -/
theorem Queues.dropped {first : Bytes} (h : Queues u first u') (hfull : room u < first.length)
    (second : Bytes) : Queues u (first ++ second) u' where
  pending_eq := by
    rw [h.pending_eq, List.take_append_of_le_length hfull.le]
  room_eq := by
    rw [h.room_eq, List.length_append]
    omega

theorem queues_txPut (u : TxState k) (c : BitVec 32) :
    (room u = 0 ∧ u.txPut c = none) ∨
      (0 < room u ∧ ∃ u', u.txPut c = some u' ∧ Queues u [⟨c.setWidth 8⟩] u') := by
  rcases txPut_spec u c with hfull | ⟨hpos, u', hput, hpending, hroom⟩
  · exact .inl hfull
  · refine .inr ⟨hpos, u', hput, ?_, hroom⟩
    rw [hpending, List.take_of_length_le]
    exact hpos

/-- **`__tx_char`** queues what it can of the character's output, and tells whether that was all. -/
theorem txChar_spec (u : TxState k) (c : BitVec 32) :
    (u.txChar c).1 = decide (room u < (crlf [c]).length) ∧ Queues u (crlf [c]) (u.txChar c).2 := by
  rw [TxState.txChar, crlf, List.flatMap_singleton]
  by_cases hnewline : c = charInt '\n'.toUInt8
  · rw [if_pos hnewline, if_pos hnewline]
    rcases queues_txPut u (charInt '\r'.toUInt8) with ⟨hfull, hput⟩ | ⟨hpos, u₁, hput, hqueues⟩
    · rw [hput]
      refine ⟨(decide_eq_true ?_).symm, ⟨?_, ?_⟩⟩
      · rw [hfull]
        exact Nat.succ_pos 1
      · rw [hfull, List.take_zero, List.append_nil]
      · rw [hfull, Nat.zero_sub]
    · rw [hput]
      dsimp only
      have hroom₁ : room u₁ = room u - 1 := hqueues.room_eq
      rcases queues_txPut u₁ c with ⟨hfull, hput'⟩ | ⟨hpos', u₂, hput', hqueues'⟩
      · rw [hput']
        refine ⟨(decide_eq_true ?_).symm, ?_⟩
        · show room u < 2
          lia
        · refine ⟨?_, ?_⟩
          · rw [hqueues.pending_eq, show room u = 1 by lia]
            rfl
          · show room u₁ = room u - 2
            lia
      · rw [hput']
        refine ⟨(decide_eq_false ?_).symm, ?_⟩
        · show ¬ room u < 2
          lia
        · rw [hnewline] at hqueues'
          exact hqueues.trans hpos hqueues'
  · rw [if_neg hnewline, if_neg hnewline]
    dsimp only
    rcases queues_txPut u c with ⟨hfull, hput⟩ | ⟨hpos, u₁, hput, hqueues⟩
    · rw [hput]
      refine ⟨(decide_eq_true ?_).symm, ⟨?_, ?_⟩⟩
      · rw [hfull]
        exact Nat.one_pos
      · rw [hfull, List.take_zero, List.append_nil]
      · rw [hfull, Nat.zero_sub]
    · rw [hput]
      exact ⟨(decide_eq_false (Nat.not_lt.mpr hpos)).symm, hqueues⟩

/-- A string's output. -/
def stringOutput (s : Bytes) : Bytes := crlf (s.map charInt)

theorem stringOutput_cons (c : UInt8) (s : Bytes) :
    stringOutput (c :: s) = crlf [charInt c] ++ stringOutput s := by
  rw [stringOutput, List.map_cons, crlf_cons, stringOutput]

/-- The output before the last character is no longer than all of it. -/
theorem length_dropLast_le (s : Bytes) :
    (stringOutput s.dropLast).length ≤ (stringOutput s).length := by
  rcases List.eq_nil_or_concat s with rfl | ⟨init, c, rfl⟩
  · exact le_rfl
  · rw [List.concat_eq_append, List.dropLast_concat, stringOutput, stringOutput, List.map_append,
      crlf_append, List.length_append]
    exact Nat.le_add_right _ _

/-- Whether the output before the last character fits: its first character has to fit, unless it is
the last one, and then the rest has to. -/
theorem dropLast_fits_cons (c : UInt8) (s : Bytes) (r : Nat) :
    (stringOutput (c :: s).dropLast).length ≤ r ↔
      s = [] ∨ (crlf [charInt c]).length ≤ r ∧
        (stringOutput s.dropLast).length ≤ r - (crlf [charInt c]).length := by
  cases s with
  | nil => exact iff_of_true (Nat.zero_le r) (.inl rfl)
  | cons d s =>
      rw [List.dropLast_cons_cons, stringOutput_cons, List.length_append]
      constructor
      · exact fun h => .inr ⟨by omega, by omega⟩
      · rintro (hnil | h)
        · cases hnil
        · omega

/-- **The loop of `uart_puts`**: it comes to the NUL when the output before the last character
fits. -/
theorem putsLoop_spec (hs : 0 ∉ s) (u : TxState k) :
    Queues u (stringOutput s) (TxState.putsLoop s u).2 ∧
      ((TxState.putsLoop s u).1.headD 0 = 0 ↔ (stringOutput s.dropLast).length ≤ room u) := by
  induction s generalizing u with
  | nil => exact ⟨queues_nil u, iff_of_true rfl (Nat.zero_le _)⟩
  | cons c s ih =>
      obtain ⟨hc, hs⟩ := not_or.mp (List.mem_cons.not.mp hs)
      obtain ⟨hdrop, hqueues⟩ := txChar_spec u (charInt c)
      rw [TxState.putsLoop, if_neg (Ne.symm hc), stringOutput_cons, dropLast_fits_cons]
      rcases hchar : u.txChar (charInt c) with ⟨dropped, u₁⟩
      rw [hchar] at hdrop hqueues
      cases dropped with
      | true =>
          have hfull : room u < (crlf [charInt c]).length := of_decide_eq_true hdrop.symm
          refine ⟨hqueues.dropped hfull _, ?_⟩
          -- the pointer is behind the character already
          cases s with
          | nil => exact iff_of_true rfl (.inl rfl)
          | cons d s =>
              have hd : d ≠ 0 := fun hzero => hs (hzero ▸ List.mem_cons_self)
              refine iff_of_false hd ?_
              rintro (hnil | ⟨hfits, -⟩)
              · cases hnil
              · exact absurd hfits (Nat.not_le.mpr hfull)
      | false =>
          have hfits : (crlf [charInt c]).length ≤ room u :=
            Nat.le_of_not_lt (of_decide_eq_false hdrop.symm)
          obtain ⟨hrest, hnul⟩ := ih hs u₁
          refine ⟨hqueues.trans hfits hrest, hnul.trans ?_⟩
          rw [hqueues.room_eq]
          constructor
          · exact fun h => .inr ⟨hfits, h⟩
          · rintro (rfl | ⟨-, h⟩)
            · exact Nat.zero_le _
            · exact h

/-- **The loop of `uart_put`**: `len` ends at zero when the drop is at the last character. -/
theorem putLoop_spec (s : Bytes) (u : TxState k) :
    Queues u (stringOutput s) (TxState.putLoop s s.length u).2 ∧
      ((TxState.putLoop s s.length u).1 = 0 ↔
        room u < (stringOutput s).length ∧ (stringOutput s.dropLast).length ≤ room u) := by
  induction s generalizing u with
  | nil =>
      have hrun : (0 : Int) - 1 ≠ 0 := by decide
      refine ⟨queues_nil u, iff_of_false hrun ?_⟩
      exact fun h => absurd h.1 (Nat.not_lt_zero _)
  | cons c s ih =>
      obtain ⟨hdrop, hqueues⟩ := txChar_spec u (charInt c)
      have hlen : ((c :: s).length : Int) - 1 = s.length := by
        rw [List.length_cons]
        push_cast
        lia
      rw [TxState.putLoop, hlen, dropLast_fits_cons, stringOutput_cons, List.length_append]
      rcases hchar : u.txChar (charInt c) with ⟨dropped, u₁⟩
      rw [hchar] at hdrop hqueues
      cases dropped with
      | true =>
          have hfull : room u < (crlf [charInt c]).length := of_decide_eq_true hdrop.symm
          refine ⟨hqueues.dropped hfull _, ?_⟩
          show (s.length : Int) = 0 ↔ _
          rw [Int.natCast_eq_zero, List.length_eq_zero_iff]
          constructor
          · exact fun hnil => ⟨by lia, .inl hnil⟩
          · rintro ⟨-, hnil | ⟨hfits, -⟩⟩
            · exact hnil
            · exact absurd hfits (Nat.not_le.mpr hfull)
      | false =>
          have hfits : (crlf [charInt c]).length ≤ room u :=
            Nat.le_of_not_lt (of_decide_eq_false hdrop.symm)
          obtain ⟨hrest, hzero⟩ := ih u₁
          refine ⟨hqueues.trans hfits hrest, hzero.trans ?_⟩
          rw [hqueues.room_eq]
          constructor
          · exact fun ⟨hlt, hle⟩ => ⟨by lia, .inr ⟨hfits, hle⟩⟩
          · rintro ⟨hlt, rfl | ⟨-, hle⟩⟩
            · have hnil : (stringOutput []).length = 0 := rfl
              lia
            · exact ⟨by lia, hle⟩

/-! ## The reports -/

/-- A function's report is true: it is successful and all its output is queued, or it is an overflow
and only a part of it is, from its start on. -/
def Truthful (u : TxState k) (output : Bytes) (result : Code × TxState k) : Prop :=
  result.1 = ecSuccess ∧ pending result.2 = pending u ++ output ∨
    result.1 = ecErrorOverflow ∧ ∃ queued, queued <+: output ∧ queued ≠ output ∧
      pending result.2 = pending u ++ queued

/-- A report is true when it is a success for the output that fits, and for no other. -/
theorem truthful_iff {output : Bytes} {rv : Code} (hrv : rv = ecSuccess ∨ rv = ecErrorOverflow)
    (h : Queues u output u') :
    Truthful u output (rv, u') ↔ (rv = ecSuccess ↔ output.length ≤ room u) := by
  have hcodes : ecErrorOverflow ≠ ecSuccess := by decide
  have hpending : ∀ queued, pending u' = pending u ++ queued ↔ queued = output.take (room u) := by
    intro queued
    rw [h.pending_eq, List.append_cancel_left_eq]
    exact eq_comm
  rw [Truthful]
  simp only [hpending]
  constructor
  · rintro (⟨hsuccess, htake⟩ | ⟨hoverflow, queued, -, hne, rfl⟩)
    · exact iff_of_true hsuccess ((List.take_eq_self_iff _).mp htake.symm)
    · refine iff_of_false (fun hsuccess => hcodes (hoverflow.symm.trans hsuccess)) ?_
      exact fun hfits => hne (List.take_of_length_le hfits)
  · intro hiff
    by_cases hfits : output.length ≤ room u
    · exact .inl ⟨hiff.mpr hfits, (List.take_of_length_le hfits).symm⟩
    · refine .inr ⟨hrv.resolve_left fun hsuccess => hfits (hiff.mp hsuccess), _,
        List.take_prefix _ _, fun htake => hfits ((List.take_eq_self_iff _).mp htake), rfl⟩

/-- The code of a condition. -/
theorem ite_code_eq {p : Prop} [Decidable p] :
    ((if p then ecErrorOverflow else ecSuccess) = ecSuccess ↔ ¬ p) ∧
      ((if p then ecErrorOverflow else ecSuccess) = ecSuccess ∨
        (if p then ecErrorOverflow else ecSuccess) = ecErrorOverflow) := by
  split
  · rename_i hp
    exact ⟨iff_of_false (by decide) (not_not.mpr hp), .inr rfl⟩
  · rename_i hp
    exact ⟨iff_of_true rfl hp, .inl rfl⟩

/-- The characters of a string: none of them is the NUL. -/
abbrev CString := { s : Bytes // 0 ∉ s }

/-- **The console's reports.**  `uart_putc` reports a drop, and nothing else.  `uart_puts` does but
for a drop at the last character, and `uart_put` only for a drop before the last character. -/
theorem output_truthful_iff (u : TxState k) (c : BitVec 32) (outstr : CString) (out : Bytes) :
    Truthful u (crlf [c]) (u.uartPutc c) ∧
      (Truthful u (stringOutput outstr.val) (u.uartPuts outstr.val) ↔
        ¬ (room u < (stringOutput outstr.val).length ∧
          (stringOutput outstr.val.dropLast).length ≤ room u)) ∧
      (Truthful u (stringOutput out) (u.uartPut out) ↔
        room u < (stringOutput out.dropLast).length) := by
  refine ⟨?_, ?_, ?_⟩
  · obtain ⟨hdrop, hqueues⟩ := txChar_spec u c
    have hfits : ¬ (u.txChar c).1 = true ↔ (crlf [c]).length ≤ room u := by
      rw [hdrop, decide_eq_true_iff]
      exact Nat.not_lt
    exact (truthful_iff ite_code_eq.2 hqueues).mpr (ite_code_eq.1.trans hfits)
  · obtain ⟨hqueues, hnul⟩ := putsLoop_spec outstr.property u
    have hle := length_dropLast_le outstr.val
    refine (truthful_iff ite_code_eq.2 hqueues).trans ?_
    rw [ite_code_eq.1, not_not, hnul]
    omega
  · obtain ⟨hqueues, hzero⟩ := putLoop_spec out u
    have hle := length_dropLast_le out
    refine (truthful_iff ite_code_eq.2 hqueues).trans ?_
    rw [ite_code_eq.1, not_not, hzero]
    omega

/-- One character for an empty buffer of two, and two characters. -/
theorem not_output_truthful :
    ¬ (∀ (u : TxState 1) (outstr : CString),
        Truthful u (stringOutput outstr.val) (u.uartPuts outstr.val)) ∧
      ¬ ∀ (u : TxState 1) (out : Bytes), Truthful u (stringOutput out) (u.uartPut out) := by
  constructor
  · intro htruthful
    rcases htruthful (TxState.init 1) ⟨['a'.toUInt8, 'b'.toUInt8], by decide⟩ with
      ⟨-, hpending⟩ | ⟨hoverflow, -⟩
    · exact absurd hpending (by decide)
    · exact absurd hoverflow (by decide)
  · intro htruthful
    rcases htruthful (TxState.init 1) ['a'.toUInt8] with ⟨hsuccess, -⟩ | ⟨-, queued, -, hne, hpending⟩
    · exact absurd hsuccess (by decide)
    · have hall : pending ((TxState.init 1).uartPut ['a'.toUInt8]).2 = ['a'.toUInt8] := by decide
      rw [hall] at hpending
      exact hne hpending.symm

end Uart
end CrosEc
