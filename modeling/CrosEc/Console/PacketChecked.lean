import CrosEc.Console.Packet

/-!
# What the packet console executes

The CRC-8 of a packet is compared before its words are executed, on a part of the line.  The words
are those of all the rest of the line.
-/

namespace CrosEc
namespace Console

open Lib Util

variable {η : Type} {cmds : List (ConsoleCommand η)} {line body rest : Bytes}

/-! ## The words -/

theorem mem_countedWords {word : Nat × Bytes} (h : word ∈ countedWords line) :
    word.2 <:+: line := by
  have hmem : word ∈ lineWords line := by
    rw [countedWords] at h
    split at h
    · exact List.mem_of_mem_dropLast h
    · exact h
  obtain ⟨i, -, rfl⟩ := List.mem_map.mp hmem
  have hrun : runAt isspace (uncommented line) i <:+: uncommented line :=
    (List.takeWhile_prefix _).isInfix.trans (List.drop_suffix i _).isInfix
  exact hrun.trans (List.takeWhile_prefix _).isInfix

theorem stringAt_eq {mem text : Bytes} {i : Nat} (h : IsString mem i text) (htext : 0 ∉ text) :
    stringAt mem i = text := by
  obtain ⟨rest, hrest⟩ := h
  rw [stringAt, hrest, List.takeWhile_append_of_pos, List.takeWhile_cons_of_neg (by simp),
    List.append_nil]
  exact fun c hc => decide_eq_true fun hzero => htext (hzero ▸ hc)

/-- **The words of a command.**  They are those that are counted, and the command is run on them if
the first one names it. -/
theorem runWords_spec (cmds : List (ConsoleCommand η)) (hbody : 0 ∉ body) (front rest : Bytes) :
    ∃ input ran, runWords cmds (front ++ (body ++ 0 :: rest)) front.length = some (input, ran) ∧
      input.length = (front ++ (body ++ 0 :: rest)).length ∧
      ∀ n, (∀ cmd argv, ran = some (cmd, argv) → ∀ i ∈ argv,
          front.length ≤ i ∧ i + (stringAt input i).length ≤ front.length + n) ↔
        ¬ (NamesCommand cmds body ∧ ∃ word ∈ countedWords body, n < word.1 + word.2.length) := by
  obtain ⟨w, hw, hsplits, hlen⟩ := splitWords_spec hbody rest
  have hword : ∀ word ∈ countedWords body, stringAt w.input word.1 = word.2 := fun word hmem =>
    stringAt_eq (hsplits.strings word hmem) fun hzero =>
      hbody ((mem_countedWords hmem).subset hzero)
  have hfull : ∀ p, stringAt (front ++ w.input) (front.length + p) = stringAt w.input p := by
    intro p
    rw [stringAt, List.drop_append, List.drop_eq_nil_of_le (by omega), List.nil_append,
      Nat.add_sub_cancel_left]
    rfl
  have hrun : runWords cmds (front ++ (body ++ 0 :: rest)) front.length =
      some (front ++ w.input, (countedWords body).head?.bind fun first =>
        (findCommand cmds first.2).map fun cmd =>
          (cmd, (countedWords body).map fun word => front.length + word.1)) := by
    rw [runWords, List.drop_left, hw, Option.map_some, List.take_left, hsplits.argv_eq]
    cases hwords : countedWords body with
    | nil => rfl
    | cons first words =>
        have hfirst := hword first (by rw [hwords]; exact List.mem_cons_self)
        simp [hfirst]
        rfl
  refine ⟨_, _, hrun, by simp [hlen], fun n => ⟨?_, ?_⟩⟩
  · rintro hall ⟨⟨first, hfirst, hfound⟩, word, hmem, hlt⟩
    obtain ⟨cmd, hcmd⟩ := Option.isSome_iff_exists.mp hfound
    have hinside := hall cmd _ (by rw [hfirst, Option.bind_some, hcmd]; rfl)
      (front.length + word.1) (List.mem_map.mpr ⟨word, hmem, rfl⟩)
    rw [hfull, hword word hmem] at hinside
    omega
  · intro hnot cmd argv hran i hi
    obtain ⟨first, hfirst, hmap⟩ := Option.bind_eq_some_iff.mp hran
    obtain ⟨cmd', hcmd, heq⟩ := Option.map_eq_some_iff.mp hmap
    cases heq
    obtain ⟨word, hmem, rfl⟩ := List.mem_map.mp hi
    rw [hfull, hword word hmem]
    refine ⟨Nat.le_add_right _ _, ?_⟩
    by_contra hgt
    exact hnot ⟨⟨first, hfirst, by rw [hcmd]; rfl⟩, word, hmem, by omega⟩

/-! ## The packet -/

/-- The parts of a line that is long enough. -/
theorem exists_packet (hline : commandStart line ≤ line.length) :
    ∃ front field sep body, line = front ++ field ++ sep :: body ∧
      front.length = commandStart line - 5 ∧ field.length = 4 := by
  have hstart : 6 ≤ commandStart line := by
    rw [commandStart]
    split <;> decide
  have hlt : commandStart line - 1 < line.length := by lia
  refine ⟨line.take (commandStart line - 5), (line.drop (commandStart line - 5)).take 4,
    line.get ⟨commandStart line - 1, hlt⟩, line.drop (commandStart line), ?_, ?_, ?_⟩
  · have hsep : line.get ⟨commandStart line - 1, hlt⟩ :: line.drop (commandStart line) =
        line.drop (commandStart line - 1) := by
      rw [List.drop_eq_getElem_cons hlt, Nat.sub_add_cancel (by lia)]
      rfl
    have hfield : (line.drop (commandStart line - 5)).take 4 ++ line.drop (commandStart line - 1) =
        line.drop (commandStart line - 5) := by
      have hsum : commandStart line - 1 = commandStart line - 5 + 4 := by lia
      rw [hsum, ← List.drop_drop, List.take_append_drop]
    rw [hsep, List.append_assoc, hfield, List.take_append_drop]
  · simp
    lia
  · simp
    lia

/-- The number in the header of a packet: `j >> 8` and `(uint8_t)j`. -/
theorem toInt_sshiftRight_eight {j : BitVec 32} (hj : j.toNat < 2 ^ 16) :
    (j.sshiftRight 8).toInt = (j.toNat / 256 : Nat) := by
  rw [BitVec.toInt_sshiftRight, BitVec.toInt_eq_toNat_of_lt (by omega), Int.shiftRight_eq_div_pow]
  norm_cast

theorem ofBitVec_setWidth_eight (j : BitVec 32) :
    UInt8.ofBitVec (j.setWidth 8) = UInt8.ofNat j.toNat := by
  apply UInt8.toNat_inj.mp
  rw [UInt8.toNat_ofBitVec, BitVec.toNat_setWidth, UInt8.toNat_ofNat']

/-- What is done with a line is right unless unchecked words are executed. -/
def HandlesLine (cmds : List (ConsoleCommand η)) (line : Bytes) (size : Nat) (h : Handled η) :
    Prop :=
  h.inputLen = line.length ∧ h.input.length = size ∧ h.CrcInside ∧
    (h.ExecutesChecked ↔ ¬ RunsUnchecked cmds line)

/-- No command is run. -/
theorem HandlesLine.of_rejected {size : Nat} {input : Bytes} {crc : Option (Nat × Int)}
    (hline : ¬ RunsUnchecked cmds line) (hsize : input.length = size)
    (hcrc : (⟨line.length, crc, none, input⟩ : Handled η).CrcInside) :
    HandlesLine cmds line size (⟨line.length, crc, none, input⟩ : Handled η) :=
  ⟨rfl, hsize, hcrc, iff_of_true (fun _ _ hran => by cases hran) hline⟩

theorem not_runsUnchecked_of_none (h : packetHeader line = none) : ¬ RunsUnchecked cmds line := by
  rintro ⟨x, hx, -⟩
  rw [h] at hx
  cases hx

theorem crcInside_none {size : Nat} {ran : Option (ConsoleCommand η × List Nat)} {input : Bytes} :
    (⟨size, none, ran, input⟩ : Handled η).CrcInside :=
  fun _ _ hcrc => by cases hcrc

/-- A line with its parts. -/
structure PacketParts (line front field : Bytes) (sep : UInt8) (body : Bytes) : Prop where
  line_eq : line = front ++ field ++ sep :: body
  length_front : front.length = commandStart line - 5
  length_field : field.length = 4
  start_le : commandStart line ≤ line.length
  ampersand : line.getD 0 0 = '&'.toUInt8 ∨ line.getD 1 0 = '&'.toUInt8

variable {front field : Bytes} {sep : UInt8}

theorem six_le_commandStart (line : Bytes) : 6 ≤ commandStart line := by
  rw [commandStart]
  split <;> decide

theorem PacketParts.length_eq (h : PacketParts line front field sep body) :
    line.length = commandStart line + body.length := by
  have hlen := congrArg List.length h.line_eq
  have hstart := six_le_commandStart line
  simp only [List.length_append, List.length_cons, h.length_front, h.length_field] at hlen
  omega

theorem PacketParts.drop_eq (h : PacketParts line front field sep body) :
    line.drop (commandStart line) = body := by
  have hstart := six_le_commandStart line
  have hlen : (front ++ field ++ [sep]).length = commandStart line := by
    simp only [List.length_append, List.length_singleton, h.length_front, h.length_field]
    omega
  have hsplit : line = front ++ field ++ [sep] ++ body := h.line_eq.trans (by simp)
  nth_rewrite 2 [hsplit]
  rw [← hlen, List.drop_left]

theorem PacketParts.packetHeader_eq (h : PacketParts line front field sep body) {v : BitVec 32}
    {e : Bytes} (hv : strtoi (field ++ [0]) 16#32 = some (v, e)) :
    packetHeader line = if e.head? = some 0 then some v.toNat else none := by
  have htake : (line.drop (commandStart line - 5)).take 4 = field := by
    nth_rewrite 2 [h.line_eq]
    rw [← h.length_front, List.append_assoc, List.drop_left, ← h.length_field, List.take_left]
  have hstart := six_le_commandStart line
  have hle := h.start_le
  rw [packetHeader, if_pos ⟨by omega, h.ampersand, hle⟩, htake, hv, Option.bind_some]

theorem runsUnchecked_iff (cmds : List (ConsoleCommand η)) {x : Nat}
    (h : PacketParts line front field sep body) (hheader : packetHeader line = some x) :
    RunsUnchecked cmds line ↔
      (x / 256 ≤ body.length ∧ Cbi.crc8Arg (body.take (x / 256)) 0 = UInt8.ofNat x) ∧
        NamesCommand cmds body ∧
        ∃ word ∈ countedWords body, x / 256 < word.1 + word.2.length := by
  rw [RunsUnchecked, h.drop_eq, h.length_eq]
  constructor
  · rintro ⟨y, hy, hfits, hcrc, hnames, hword⟩
    obtain rfl := Option.some.inj (hheader.symm.trans hy)
    exact ⟨⟨by omega, hcrc⟩, hnames, hword⟩
  · rintro ⟨⟨hfits, hcrc⟩, hnames, hword⟩
    exact ⟨x, hheader, by omega, hcrc, hnames, hword⟩

/-- **A packet.** -/
theorem handlePacket_spec (h : PacketParts line front field sep body) (hbody : 0 ∉ body)
    (rest : Bytes) :
    ∃ r, handlePacket cmds line.length (line ++ 0 :: rest) (commandStart line - 5) = some r ∧
      HandlesLine cmds line (line ++ 0 :: rest).length r := by
  obtain ⟨v, e, hv, hlt, he⟩ := strtoi_string field [] (by rw [h.length_field]; decide)
  rw [h.length_field] at hlt
  have hstart := six_le_commandStart line
  have hpoke : poke (line ++ 0 :: rest) (commandStart line - 5 + 4) 0 =
      some (front ++ field ++ 0 :: (body ++ 0 :: rest)) := by
    have hbuf : line ++ 0 :: rest = front ++ field ++ sep :: (body ++ 0 :: rest) := by
      nth_rewrite 1 [h.line_eq]
      simp
    rw [hbuf]
    apply poke_append
    rw [List.length_append, h.length_front, h.length_field]
  -- what stands before the command, with the NUL in it
  obtain ⟨front', hfront'⟩ : ∃ front', front' = front ++ field ++ [0] := ⟨_, rfl⟩
  have hbuf : front ++ field ++ 0 :: (body ++ 0 :: rest) = front' ++ (body ++ 0 :: rest) := by
    simp [hfront']
  have hlen : front'.length = commandStart line := by
    rw [hfront', List.length_append, List.length_append, h.length_front, h.length_field,
      List.length_singleton]
    lia
  have hsize : (front' ++ (body ++ 0 :: rest)).length = (line ++ 0 :: rest).length := by
    simp only [List.length_append, List.length_cons, hlen, h.length_eq]
    lia
  have hread : (front' ++ (body ++ 0 :: rest)).drop (commandStart line - 5) =
      field ++ [0] ++ (body ++ 0 :: rest) := by
    rw [hfront', ← h.length_front, List.append_assoc, List.append_assoc, List.drop_left,
      List.append_assoc]
  have hcmd : (front' ++ (body ++ 0 :: rest)).drop (commandStart line) = body ++ 0 :: rest := by
    rw [← hlen, List.drop_left]
  have hheader := h.packetHeader_eq hv
  have hsum : commandStart line - 5 + 5 = commandStart line := Nat.sub_add_cancel (by lia)
  obtain ⟨last, more, rfl⟩ := List.exists_cons_of_ne_nil he
  rw [handlePacket, hpoke, hbuf, Option.bind_eq_bind, Option.bind_some, hread,
    strtoi_append hv (by decide)]
  simp only [Option.bind_eq_bind, Option.bind_some, List.cons_append, List.head?_cons, hsum,
    toInt_sshiftRight_eight hlt, ofBitVec_setWidth_eight, Int.toNat_natCast, hcmd]
  by_cases hlast : last = 0
  · subst hlast
    rw [List.head?_cons, if_pos rfl] at hheader
    rw [if_neg (not_not.mpr rfl)]
    have hunchecked := runsUnchecked_iff cmds h hheader
    by_cases hfits : v.toNat / 256 ≤ body.length
    · rw [if_neg (by rw [h.length_eq]; lia)]
      have htake : (body ++ 0 :: rest).take (v.toNat / 256) = body.take (v.toNat / 256) :=
        List.take_append_of_le_length hfits
      have hinside : ∀ (ran : Option (ConsoleCommand η × List Nat)) (input : Bytes),
          (⟨line.length, some (commandStart line, (v.toNat / 256 : Nat)), ran, input⟩ :
            Handled η).CrcInside := by
        intro ran input start len hcrc
        cases hcrc
        dsimp only
        rw [h.length_eq]
        lia
      rw [htake]
      by_cases hcrc : Cbi.crc8Arg (body.take (v.toNat / 256)) 0 = UInt8.ofNat v.toNat
      · rw [if_neg (not_not.mpr hcrc.symm)]
        obtain ⟨input, ran, hrun, hran, hwords⟩ := runWords_spec cmds hbody front' rest
        rw [hlen] at hrun hwords
        rw [hrun]
        refine ⟨_, rfl, rfl, hran.trans hsize, hinside ran input, ?_⟩
        rw [hunchecked, and_iff_right ⟨hfits, hcrc⟩, ← hwords (v.toNat / 256)]
        constructor
        · intro hchecked cmd argv hcmd i hi
          obtain ⟨start, len, heq, hall⟩ := hchecked cmd argv hcmd
          cases heq
          have := hall i hi
          dsimp only at this
          lia
        · intro hall cmd argv hcmd
          refine ⟨_, _, rfl, fun i hi => ?_⟩
          have := hall cmd argv hcmd i hi
          dsimp only
          lia
      · rw [if_pos (Ne.symm hcrc)]
        exact ⟨_, rfl, .of_rejected (fun hrun => hcrc (hunchecked.mp hrun).1.2) hsize
          (hinside none _)⟩
    · rw [if_pos (by rw [h.length_eq]; lia)]
      exact ⟨_, rfl, .of_rejected (fun hrun => hfits (hunchecked.mp hrun).1.1) hsize crcInside_none⟩
  · rw [List.head?_cons, if_neg (mt Option.some.inj hlast)] at hheader
    rw [if_pos hlast]
    exact ⟨_, rfl, .of_rejected (not_runsUnchecked_of_none hheader) hsize crcInside_none⟩

/-- **One line.** -/
theorem handleCommand_spec (cmds : List (ConsoleCommand η)) (hline : 0 ∉ line) (rest : Bytes) :
    ∃ h, handleCommand cmds line.length (line ++ 0 :: rest) = some h ∧
      HandlesLine cmds line (line ++ 0 :: rest).length h := by
  have hnone : ∀ {input : Bytes}, packetHeader line = none →
      input.length = (line ++ 0 :: rest).length →
      HandlesLine cmds line (line ++ 0 :: rest).length
        (⟨line.length, none, none, input⟩ : Handled η) := fun hheader hsize =>
    .of_rejected (not_runsUnchecked_of_none hheader) hsize crcInside_none
  have hget : ∀ k < line.length, (line ++ 0 :: rest).getD k 0 = line.getD k 0 := fun k hk => by
    rw [List.getD_eq_getElem?_getD, List.getElem?_append_left hk, ← List.getD_eq_getElem?_getD]
  rw [handleCommand]
  by_cases hempty : line.length = 0
  · rw [if_pos hempty]
    exact ⟨_, rfl, hnone (if_neg fun h => by omega) rfl⟩
  rw [if_neg hempty]
  by_cases hshort : line.length < 2
  · rw [if_pos (Or.inl hshort)]
    exact ⟨_, rfl, hnone (if_neg fun h => by omega) rfl⟩
  rw [hget 0 (by omega), hget 1 (by omega)]
  by_cases hamp : line.getD 0 0 ≠ '&'.toUInt8 ∧ line.getD 1 0 ≠ '&'.toUInt8
  · rw [if_pos (Or.inr hamp)]
    exact ⟨_, rfl, hnone (if_neg fun h => h.2.1.elim hamp.1 hamp.2) rfl⟩
  rw [if_neg (not_or.mpr ⟨hshort, hamp⟩)]
  have hi : (if line.getD 1 0 = '&'.toUInt8 then 2 else 1) = commandStart line - 5 := by
    rw [commandStart]
    split <;> rfl
  have hstart : 6 ≤ commandStart line := by
    rw [commandStart]
    split <;> decide
  rw [hi]
  dsimp only
  have hsum : commandStart line - 5 + 5 = commandStart line := Nat.sub_add_cancel (by omega)
  rw [hsum]
  by_cases hfits : line.length < commandStart line
  · rw [if_pos hfits]
    exact ⟨_, rfl, hnone (if_neg fun h => by omega) rfl⟩
  rw [if_neg hfits]
  obtain ⟨front, field, sep, body, hsplit, hfront, hfield⟩ := exists_packet (not_lt.mp hfits)
  have hparts : PacketParts line front field sep body :=
    ⟨hsplit, hfront, hfield, not_lt.mp hfits, by tauto⟩
  refine handlePacket_spec hparts (fun hzero => hline ?_) rest
  rw [hsplit]
  simp [hzero]

/-! ## Every run -/

/-- The variables hold the line that is received. -/
structure PacketState.Receives (s : PacketState) (cfg : PacketConfig η) (t : Received) : Prop where
  length_buf : s.inputBuf.length = cfg.lineSize
  line_ne_zero : 0 ∉ t.line
  buf_eq : ∃ rest, s.inputBuf = t.line ++ 0 :: rest
  len_eq : s.inputLen = t.line.length
  pos_eq : s.inputPos = t.line.length
  cr_eq : s.lastRxWasCr = t.lastWasCr

/-- A line with its NUL is in the buffer. -/
def Received.Fits (cfg : PacketConfig η) (t : Received) : Prop :=
  (∀ line ∈ t.lines, line.length < cfg.lineSize) ∧ t.line.length < cfg.lineSize

variable {cfg : PacketConfig η} {s : PacketState} {t : Received}

theorem PacketState.Receives.init (cfg : PacketConfig η) :
    (PacketState.init cfg).Receives cfg .init where
  length_buf := List.length_replicate
  line_ne_zero := List.not_mem_nil
  buf_eq := ⟨List.replicate (cfg.lineSize - 1) 0, by
    rw [Received.init, List.nil_append, ← List.replicate_succ,
      Nat.sub_add_cancel cfg.lineSize_pos]
    rfl⟩
  len_eq := rfl
  pos_eq := rfl
  cr_eq := rfl

theorem PacketState.Receives.length_lt (h : s.Receives cfg t) : t.line.length < cfg.lineSize := by
  obtain ⟨rest, hrest⟩ := h.buf_eq
  have hlen := h.length_buf
  rw [hrest, List.length_append, List.length_cons] at hlen
  omega

/-- **A newline.** -/
theorem PacketState.Receives.newline (h : s.Receives cfg t) (cr : Bool) :
    ∃ s' r, { s with lastRxWasCr := cr }.handleKey cfg '\n'.toUInt8 = some (s', some r) ∧
      HandlesLine cfg.cmds t.line cfg.lineSize r ∧
      s'.Receives cfg ⟨t.lines ++ [t.line], [], cr⟩ := by
  obtain ⟨rest, hrest⟩ := h.buf_eq
  obtain ⟨r, hr, hhandled⟩ := handleCommand_spec cfg.cmds h.line_ne_zero rest
  rw [← hrest, h.length_buf] at hhandled
  rw [← hrest, ← h.len_eq] at hr
  obtain ⟨c, more, hmore⟩ : ∃ c more, r.input = c :: more := by
    refine List.exists_cons_of_ne_nil fun hnil => ?_
    have hsize := hhandled.2.1
    have := cfg.lineSize_pos
    rw [hnil, List.length_nil] at hsize
    omega
  have hpoked : poke r.input 0 0 = some (0 :: more) := by
    rw [hmore]
    exact poke_append [] more c 0 rfl
  refine ⟨⟨0 :: more, 0, 0, cr⟩, r, ?_, hhandled, ?_⟩
  · rw [PacketState.handleKey, if_pos rfl, hr, Option.bind_eq_bind, Option.bind_some, hpoked]
    rfl
  · refine ⟨?_, List.not_mem_nil, ⟨more, rfl⟩, rfl, rfl, rfl⟩
    rw [← hhandled.2.1, hmore]
    rfl

/-- **A printing character.**  It goes into the buffer if there is room for it and the NUL. -/
theorem PacketState.Receives.char (h : s.Receives cfg t) {c : UInt8}
    (hc : 0x20 ≤ c ∧ c ≤ 0x7e) :
    (t.line.length + 1 < cfg.lineSize → ∃ s',
        { s with lastRxWasCr := false }.handleKey cfg c = some (s', none) ∧
          s'.Receives cfg ⟨t.lines, t.line ++ [c], false⟩) ∧
      (cfg.lineSize ≤ t.line.length + 1 →
        { s with lastRxWasCr := false }.handleKey cfg c = none) := by
  obtain ⟨rest, hrest⟩ := h.buf_eq
  have hsize := h.length_buf
  have hne : c ≠ '\n'.toUInt8 := by
    rintro rfl
    exact absurd hc.1 (by decide)
  have hkey : { s with lastRxWasCr := false }.handleKey cfg c =
      (poke (t.line ++ c :: rest) (t.line.length + 1) 0).map fun buf =>
        (⟨buf, t.line.length + 1, t.line.length + 1, false⟩, none) := by
    rw [PacketState.handleKey, if_neg hne, if_neg (by simp [(isprint_iff c).mpr hc]), insertAt,
      moveRestDown, h.len_eq, h.pos_eq, if_neg (not_not.mpr rfl), hrest, Option.bind_eq_bind,
      Option.bind_some, poke_append t.line rest 0 c rfl, Option.bind_some]
  rw [hkey]
  constructor
  · intro hroom
    obtain ⟨x, more, rfl⟩ : ∃ x more, rest = x :: more := by
      refine List.exists_cons_of_ne_nil fun hnil => ?_
      simp [hrest, hnil] at hsize
      omega
    have hended := poke_append (t.line ++ [c]) more x 0
      (show t.line.length + 1 = (t.line ++ [c]).length by simp)
    rw [List.append_assoc, List.singleton_append] at hended
    refine ⟨_, by rw [hended]; rfl, ?_⟩
    refine ⟨?_, ?_, ⟨more, rfl⟩, by simp, by simp, rfl⟩
    · rw [← hsize, hrest]
      simp
    · intro hzero
      rcases List.mem_append.mp hzero with hline | hchar
      · exact h.line_ne_zero hline
      · rw [List.mem_singleton] at hchar
        exact absurd (hchar ▸ hc.1) (by decide)
  · intro hfull
    rw [poke, if_neg, Option.map_none]
    rw [hrest] at hsize
    simp only [List.length_append, List.length_cons] at hsize ⊢
    omega

theorem PacketState.Receives.setCr (h : s.Receives cfg t) (cr : Bool) :
    { s with lastRxWasCr := cr }.Receives cfg { t with lastWasCr := cr } :=
  ⟨h.length_buf, h.line_ne_zero, h.buf_eq, h.len_eq, h.pos_eq, rfl⟩

/-- What is done with some lines. -/
abbrev HandlesLines (cfg : PacketConfig η) (hs : List (Handled η)) (lines : List Bytes) : Prop :=
  List.Forall₂ (fun h line => HandlesLine cfg.cmds line cfg.lineSize h) hs lines

/-- **One character**, if there is room for it. -/
theorem PacketState.Receives.handleChar (h : s.Receives cfg t) (c : UInt8) :
    (cfg.lineSize ≤ (t.next c).line.length → s.handleChar cfg c = none) ∧
      ((t.next c).line.length < cfg.lineSize →
        ∃ s' r lines, s.handleChar cfg c = some (s', r) ∧ s'.Receives cfg (t.next c) ∧
          (t.next c).lines = t.lines ++ lines ∧ HandlesLines cfg r.toList lines) := by
  have hlt := h.length_lt
  have hnewline : ∀ cr, ∃ s' r lines,
      { s with lastRxWasCr := cr }.handleKey cfg '\n'.toUInt8 = some (s', r) ∧
        s'.Receives cfg ⟨t.lines ++ [t.line], [], cr⟩ ∧ t.lines ++ [t.line] = t.lines ++ lines ∧
        HandlesLines cfg r.toList lines := by
    intro cr
    obtain ⟨s', r, hs', hhandled, hnext⟩ := h.newline cr
    exact ⟨s', some r, [t.line], hs', hnext, rfl, List.Forall₂.cons hhandled List.Forall₂.nil⟩
  have hsame : ∀ {t' : Received} {s' : PacketState}, s'.Receives cfg t' → t'.lines = t.lines →
      ∃ s'' r lines, some (s', none) = some (s'', r) ∧ s''.Receives cfg t' ∧
        t'.lines = t.lines ++ lines ∧ HandlesLines cfg r.toList lines := by
    intro t' s' hreceives hlines
    exact ⟨s', none, [], rfl, hreceives, by rw [hlines, List.append_nil], List.Forall₂.nil⟩
  rw [PacketState.handleChar, Received.next]
  by_cases hsyn : c = ecSyn
  · rw [if_pos hsyn, if_pos hsyn]
    exact ⟨fun hlong => absurd hlong (not_le.mpr hlt), fun _ => hsame h rfl⟩
  rw [if_neg hsyn, if_neg hsyn]
  by_cases hcr : c = 0x0d
  · rw [if_pos hcr, if_pos (show c = '\r'.toUInt8 from hcr)]
    exact ⟨fun hlong => absurd hlong (not_le.mpr cfg.lineSize_pos), fun _ => hnewline true⟩
  rw [if_neg hcr, if_neg (show ¬ c = '\r'.toUInt8 from hcr)]
  by_cases hskip : c = 0x0a ∧ t.lastWasCr = true
  · rw [if_pos hskip, if_pos (show c = '\n'.toUInt8 ∧ s.lastRxWasCr = true from
      ⟨hskip.1, h.cr_eq.trans hskip.2⟩)]
    exact ⟨fun hlong => absurd hlong (not_le.mpr hlt), fun _ => hsame (h.setCr false) rfl⟩
  rw [if_neg hskip, if_neg (show ¬ (c = '\n'.toUInt8 ∧ s.lastRxWasCr = true) from
    fun hboth => hskip ⟨hboth.1, h.cr_eq.symm.trans hboth.2⟩)]
  by_cases hline : c = 0x0a
  · rw [if_pos hline, hline]
    exact ⟨fun hlong => absurd hlong (not_le.mpr cfg.lineSize_pos), fun _ => hnewline false⟩
  rw [if_neg hline]
  by_cases hprint : 0x20 ≤ c ∧ c ≤ 0x7e
  · rw [if_pos hprint]
    obtain ⟨hroom, hfull⟩ := h.char hprint
    simp only [List.length_append, List.length_singleton]
    refine ⟨hfull, fun hlt' => ?_⟩
    obtain ⟨s', hs', hnext⟩ := hroom hlt'
    rw [hs']
    exact hsame hnext rfl
  · rw [if_neg hprint]
    have hkey : { s with lastRxWasCr := false }.handleKey cfg c =
        some ({ s with lastRxWasCr := false }, none) := by
      rw [PacketState.handleKey, if_neg (show ¬ c = '\n'.toUInt8 from hline),
        if_pos (by simpa using mt (isprint_iff c).mp hprint)]
    rw [hkey]
    exact ⟨fun hlong => absurd hlong (not_le.mpr hlt), fun _ => hsame (h.setCr false) rfl⟩

/-- A line that does not fit will not fit when there is more of it. -/
theorem Received.Fits.of_next {c : UInt8} (h : (t.next c).Fits cfg) : t.Fits cfg := by
  have hended : ∀ {cr : Bool}, (⟨t.lines ++ [t.line], [], cr⟩ : Received).Fits cfg → t.Fits cfg :=
    fun hfits => ⟨fun line hline => hfits.1 line (List.mem_append_left _ hline),
      hfits.1 t.line (List.mem_append_right _ List.mem_cons_self)⟩
  rw [Received.next] at h
  split_ifs at h
  · exact h
  · exact hended h
  · exact ⟨h.1, h.2⟩
  · exact hended h
  · refine ⟨h.1, lt_of_le_of_lt ?_ h.2⟩
    rw [List.length_append]
    exact Nat.le_add_right _ _
  · exact ⟨h.1, h.2⟩

theorem Received.Fits.next {c : UInt8} (h : t.Fits cfg)
    (hlt : (t.next c).line.length < cfg.lineSize) : (t.next c).Fits cfg := by
  have hended : ∀ line ∈ t.lines ++ [t.line], line.length < cfg.lineSize := by
    intro line hline
    rcases List.mem_append.mp hline with hold | hnew
    · exact h.1 line hold
    · rw [List.mem_singleton.mp hnew]
      exact h.2
  refine ⟨?_, hlt⟩
  rw [Received.next]
  split_ifs
  · exact h.1
  · exact hended
  · exact h.1
  · exact hended
  · exact h.1
  · exact h.1

theorem Received.Fits.of_foldl {cs : Bytes} (h : (cs.foldl Received.next t).Fits cfg) :
    t.Fits cfg := by
  induction cs generalizing t with
  | nil => exact h
  | cons c cs ih => exact (ih h).of_next

/-- **Every sequence of characters.** -/
theorem PacketState.Receives.handleChars (h : s.Receives cfg t) (hfits : t.Fits cfg) (cs : Bytes) :
    (¬ (cs.foldl Received.next t).Fits cfg → s.handleChars cfg cs = none) ∧
      ((cs.foldl Received.next t).Fits cfg →
        ∃ s' hs lines, s.handleChars cfg cs = some (s', hs) ∧
          (cs.foldl Received.next t).lines = t.lines ++ lines ∧ HandlesLines cfg hs lines) := by
  induction cs generalizing s t with
  | nil =>
      exact ⟨fun hnot => absurd hfits hnot, fun _ =>
        ⟨s, [], [], rfl, (List.append_nil _).symm, List.Forall₂.nil⟩⟩
  | cons c cs ih =>
      rw [List.foldl_cons, PacketState.handleChars]
      obtain ⟨hnone, hsome⟩ := h.handleChar c
      rcases Nat.lt_or_ge (t.next c).line.length cfg.lineSize with hlt | hlong
      · obtain ⟨s', r, lines, hs', hnext, hlines, hhandles⟩ := hsome hlt
        obtain ⟨hnone', hsome'⟩ := ih hnext (hfits.next hlt)
        rw [hs']
        constructor
        · intro hnot
          simp only [Option.bind_eq_bind, Option.bind_some, hnone' hnot, Option.bind_none]
        · intro hall
          obtain ⟨s'', hs, lines', hs'', hlines', hhandles'⟩ := hsome' hall
          refine ⟨s'', r.toList ++ hs, lines ++ lines', ?_, ?_, List.rel_append hhandles hhandles'⟩
          · simp only [Option.bind_eq_bind, Option.bind_some, hs'']
          · rw [hlines', hlines, List.append_assoc]
      · rw [hnone hlong]
        refine ⟨fun _ => rfl, fun hall => ?_⟩
        exact absurd hall.of_foldl.2 (not_lt.mpr hlong)

/-- What the characters are received as. -/
def received (cs : Bytes) : Received := cs.foldl Received.next .init

/-- The packet console stays in its buffer, and executes only checked bytes. -/
def RunsSafely (cfg : PacketConfig η) (cs : Bytes) : Prop :=
  ∃ s hs, (PacketState.init cfg).handleChars cfg cs = some (s, hs) ∧
    hs.map Handled.inputLen = (received cs).lines.map List.length ∧
    ∀ h ∈ hs, h.CrcInside ∧ h.ExecutesChecked

theorem HandlesLines.map_inputLen {hs : List (Handled η)} {lines : List Bytes}
    (h : HandlesLines cfg hs lines) : hs.map Handled.inputLen = lines.map List.length := by
  induction h with
  | nil => rfl
  | cons hhandles _ ih => rw [List.map_cons, List.map_cons, ih, hhandles.1]

theorem HandlesLines.executesChecked_iff {hs : List (Handled η)} {lines : List Bytes}
    (h : HandlesLines cfg hs lines) :
    (∀ r ∈ hs, r.CrcInside ∧ r.ExecutesChecked) ↔
      ∀ line ∈ lines, ¬ RunsUnchecked cfg.cmds line := by
  induction h with
  | nil => simp
  | cons hhandles _ ih =>
      obtain ⟨-, -, hcrc, hchecked⟩ := hhandles
      rw [List.forall_mem_cons, List.forall_mem_cons, ih, hchecked, and_iff_right hcrc]

theorem handleChars_spec (cfg : PacketConfig η) (cs : Bytes) :
    RunsSafely cfg cs ↔
      (received cs).Fits cfg ∧ ∀ line ∈ (received cs).lines, ¬ RunsUnchecked cfg.cmds line := by
  have hfits : Received.init.Fits cfg := ⟨by simp [Received.init], cfg.lineSize_pos⟩
  obtain ⟨hnone, hsome⟩ := (PacketState.Receives.init cfg).handleChars hfits cs
  constructor
  · rintro ⟨s, hs, hrun, -, hall⟩
    have hfit : (received cs).Fits cfg := by
      by_contra hnot
      rw [hnone hnot] at hrun
      cases hrun
    obtain ⟨s', hs', lines, hrun', hlines, hhandles⟩ := hsome hfit
    rw [hrun] at hrun'
    cases hrun'
    refine ⟨hfit, ?_⟩
    rw [received, hlines]
    exact hhandles.executesChecked_iff.mp hall
  · rintro ⟨hfit, hall⟩
    obtain ⟨s', hs', lines, hrun, hlines, hhandles⟩ := hsome hfit
    rw [received, hlines] at hall
    refine ⟨s', hs', hrun, ?_, hhandles.executesChecked_iff.mpr hall⟩
    rw [received, hlines]
    exact hhandles.map_inputLen

/-- **The packet console.**  Exactly when every line fits into the buffer and no packet has words
that its CRC is not of, all writes are inside the buffer, `crc8` is called on bytes of the line, and
commands get checked bytes only. -/
theorem runsSafely_iff (cfg : PacketConfig η) (cs : Bytes) :
    RunsSafely cfg cs ↔
      ((∀ line ∈ (received cs).lines, line.length < cfg.lineSize) ∧
        (received cs).line.length < cfg.lineSize) ∧
      ∀ line ∈ (received cs).lines, ¬ RunsUnchecked cfg.cmds line :=
  handleChars_spec cfg cs

/-- Lines of at most 15 characters, and two commands. -/
def testPackets : PacketConfig Unit := ⟨16, by decide, twoCommands⟩

/-- The empty command with its CRC, and behind it a command that is executed; and 16 characters. -/
theorem not_runsSafely_trailing :
    ¬ RunsSafely testPackets (chars ['&', '&', '0', '0', '0', '0', '&', 'h', 'i', '\n']) ∧
      ¬ RunsSafely testPackets (List.replicate 16 0x61) := by
  refine ⟨fun hsafe => ?_, fun hsafe => ?_⟩
  · have hline := ((handleChars_spec _ _).mp hsafe).2
      (chars ['&', '&', '0', '0', '0', '0', '&', 'h', 'i']) (by decide)
    refine hline ⟨0, by decide, by decide, by decide, ⟨(0, chars ['h', 'i']), ?_, ?_⟩,
      (0, chars ['h', 'i']), ?_, by decide⟩
    · decide
    · decide
    · decide
  · exact absurd ((handleChars_spec _ _).mp hsafe).1.2 (by decide)

end Console
end CrosEc
