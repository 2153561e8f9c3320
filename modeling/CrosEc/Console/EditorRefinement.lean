import CrosEc.Console.AbstractEditor

/-!
# The line editor keeps its line

The buffer of the editor holds the text of the abstract line with a null behind it, the slots of the
history hold the abstract history in the same way, and every key keeps this.  So what is executed is
what has been edited.
-/

namespace CrosEc
namespace Console

open Lib Util

/-! ## Strings in buffers -/

/-- A buffer of `size` bytes holds a string. -/
structure Holds (size : Nat) (buf text : Bytes) : Prop where
  length_buf : buf.length = size
  text_ne_zero : 0 ∉ text
  buf_eq : ∃ rest, buf = text ++ 0 :: rest

namespace Holds

variable {size : Nat} {buf text : Bytes}

theorem length_lt (h : Holds size buf text) : text.length < size := by
  obtain ⟨rest, hrest⟩ := h.buf_eq
  have hlen := h.length_buf
  rw [hrest, List.length_append, List.length_cons] at hlen
  omega

theorem takeWhile_eq (h : Holds size buf text) : (buf.takeWhile fun c => c ≠ 0) = text := by
  obtain ⟨rest, rfl⟩ := h.buf_eq
  rw [List.takeWhile_append_of_pos, List.takeWhile_cons_of_neg (by simp), List.append_nil]
  intro c hc
  exact decide_eq_true fun hzero => h.text_ne_zero (hzero ▸ hc)

theorem strlen_eq (h : Holds size buf text) : strlen buf = some text.length := by
  obtain ⟨rest, hrest⟩ := h.buf_eq
  rw [strlen, if_pos (by simp [hrest]), h.takeWhile_eq]

theorem replicate (hsize : 0 < size) : Holds size (List.replicate size 0) [] where
  length_buf := List.length_replicate
  text_ne_zero := List.not_mem_nil
  buf_eq := ⟨List.replicate (size - 1) 0, by
    rw [List.nil_append, ← List.replicate_succ, Nat.sub_add_cancel hsize]⟩

end Holds

theorem strzcpyText_eq {text : Bytes} (htext : 0 ∉ text) (rest : Bytes) {len : Nat}
    (hlen : text.length < len) : strzcpyText (text ++ 0 :: rest) len = some text := by
  induction text generalizing len with
  | nil =>
      match len, hlen with
      | 1, _ => rfl
      | len + 2, _ => rw [List.nil_append, strzcpyText, if_pos rfl]
  | cons c text ih =>
      have hc : c ≠ 0 := fun hzero => htext (hzero ▸ List.mem_cons_self)
      match len, hlen with
      | len + 2, hlen =>
          rw [List.cons_append, strzcpyText, if_neg hc,
            ih (fun hmem => htext (List.mem_cons_of_mem c hmem)) (Nat.lt_of_succ_lt_succ hlen)]
          rfl

/-- A copy of a string into a buffer of the same size. -/
theorem Holds.strzcpy {size : Nat} {src dest text : Bytes} (h : Holds size src text)
    (hdest : dest.length = size) :
    ∃ buf, strzcpy dest src size = some buf ∧ Holds size buf text := by
  have hlt := h.length_lt
  obtain ⟨rest, hrest⟩ := h.buf_eq
  refine ⟨writeAt dest 0 (text ++ [0]), ?_, by simpa using hdest, h.text_ne_zero, ?_⟩
  · rw [Console.strzcpy, if_neg (by omega), hrest, strzcpyText_eq h.text_ne_zero rest hlt,
      Option.bind_some, if_pos (by omega)]
  · refine ⟨dest.drop (text.length + 1), ?_⟩
    rw [writeAt, List.take_zero, List.nil_append, List.take_of_length_le (by simp; omega)]
    simp

/-! ## Moving the end of a line -/

theorem memmove_eq {buf mid : Bytes} (pre post : Bytes) (hbuf : buf = pre ++ mid ++ post)
    {dst : Nat} (hdst : dst + mid.length ≤ buf.length) :
    memmove buf dst pre.length mid.length = some (writeAt buf dst mid) := by
  have hread : readBytes mid.length (buf.drop pre.length) = mid := by
    rw [hbuf, List.append_assoc, List.drop_left, readBytes_append rfl]
  rw [memmove, if_pos ⟨by simp [hbuf], hdst⟩, moveWithin, hread]

/-- The end of a line moves down by one place, over `x`. -/
theorem memmove_left (pre mid post : Bytes) (x : UInt8) :
    ∃ last, memmove (pre ++ x :: mid ++ post) pre.length (pre.length + 1) mid.length =
      some (pre ++ mid ++ last :: post) := by
  obtain ⟨last, init, hlast⟩ : ∃ last init, x :: mid = init ++ [last] :=
    ⟨_, _, (List.dropLast_append_getLast (List.cons_ne_nil x mid)).symm⟩
  have hlen : init.length = mid.length := by
    have := congrArg List.length hlast
    simpa using this.symm
  have hsrc : pre.length + 1 = (pre ++ [x]).length := by simp
  refine ⟨last, ?_⟩
  rw [hsrc, memmove_eq (pre ++ [x]) post (by simp) (by simp; omega), hlast]
  have hbuf : pre ++ (init ++ [last]) ++ post = pre ++ init ++ ([last] ++ post) := by simp
  rw [hbuf, writeAt_append pre init ([last] ++ post) mid rfl hlen]
  rfl

/-- The end of a line moves up by one place, over `x`. -/
theorem memmove_right (pre mid post : Bytes) (x : UInt8) :
    ∃ first, memmove (pre ++ mid ++ x :: post) (pre.length + 1) pre.length mid.length =
      some (pre ++ first :: mid ++ post) := by
  obtain ⟨first, tail, hfirst⟩ : ∃ first tail, mid ++ [x] = first :: tail :=
    List.exists_cons_of_ne_nil (by simp)
  have hlen : tail.length = mid.length := by
    have := congrArg List.length hfirst
    simpa using this.symm
  have hbuf : pre ++ mid ++ x :: post = (pre ++ [first]) ++ tail ++ post := by
    calc pre ++ mid ++ x :: post = pre ++ (mid ++ [x]) ++ post := by simp
      _ = (pre ++ [first]) ++ tail ++ post := by rw [hfirst]; simp
  refine ⟨first, ?_⟩
  rw [memmove_eq _ _ rfl (by simp; omega), hbuf,
    writeAt_append (pre ++ [first]) tail post mid (by simp) hlen]
  simp

/-! ## The line -/

/-- The variables of the line show a line. -/
structure Shows (cfg : EditorConfig) (buf : Bytes) (len pos : Nat) (l : Line) : Prop where
  holds : Holds cfg.lineSize buf l.text
  len_eq : len = l.text.length
  pos_eq : pos = l.before.length

variable {cfg : EditorConfig} {s : EditorState} {l : Line}

/-- The line of a state. -/
abbrev EditorState.Shows (s : EditorState) (cfg : EditorConfig) (l : Line) : Prop :=
  Console.Shows cfg s.inputBuf s.inputLen s.inputPos l

/-- The cursor is at the end of the line if nothing stands behind it. -/
theorem EditorState.Shows.pos_eq_len_iff (h : s.Shows cfg l) :
    s.inputPos = s.inputLen ↔ l.after = [] := by
  rw [h.pos_eq, h.len_eq, Line.text, List.length_append]
  constructor
  · intro hlen
    exact List.length_eq_zero_iff.mp (by omega)
  · intro hafter
    simp [hafter]

theorem EditorState.Shows.pos_eq_zero_iff (h : s.Shows cfg l) :
    s.inputPos = 0 ↔ l.before = [] := by
  rw [h.pos_eq, List.length_eq_zero_iff]

theorem Shows.empty {buf : Bytes} (hbuf : Holds cfg.lineSize buf []) :
    Console.Shows cfg buf 0 0 .empty :=
  ⟨hbuf, rfl, rfl⟩

/-- Only the cursor moves. -/
theorem EditorState.Shows.move (h : s.Shows cfg l) {l' : Line} (htext : l'.text = l.text)
    {pos : Nat} (hpos : pos = l'.before.length) : { s with inputPos := pos }.Shows cfg l' :=
  ⟨htext ▸ h.holds, htext ▸ h.len_eq, hpos⟩

theorem EditorState.Shows.moveCursorBegin (h : s.Shows cfg l) :
    ∃ pos, s.moveCursorBegin = { s with inputPos := pos } ∧
      { s with inputPos := pos }.Shows cfg l.home := by
  have hmoved : { s with inputPos := 0 }.Shows cfg l.home := 
    h.move (show l.home.text = l.text from List.nil_append _) rfl
  rw [EditorState.moveCursorBegin]
  split
  · rename_i hzero
    refine ⟨s.inputPos, rfl, ?_⟩
    rwa [hzero]
  · exact ⟨0, rfl, hmoved⟩

theorem EditorState.Shows.moveCursorEnd (h : s.Shows cfg l) :
    ∃ pos, s.moveCursorEnd = { s with inputPos := pos } ∧
      { s with inputPos := pos }.Shows cfg l.endOfLine := by
  have hmoved : { s with inputPos := s.inputLen }.Shows cfg l.endOfLine :=
    h.move (show l.endOfLine.text = l.text from List.append_nil _) h.len_eq
  rw [EditorState.moveCursorEnd]
  split
  · rename_i hend
    refine ⟨s.inputPos, rfl, ?_⟩
    rwa [hend]
  · exact ⟨s.inputLen, rfl, hmoved⟩

theorem EditorState.Shows.moveCursorLeft (h : s.Shows cfg l) :
    ∃ pos, s.moveCursorLeft = { s with inputPos := pos } ∧
      { s with inputPos := pos }.Shows cfg l.left := by
  rw [EditorState.moveCursorLeft]
  obtain ⟨before, after⟩ := l
  rcases List.eq_nil_or_concat before with rfl | ⟨before, c, rfl⟩
  · rw [if_pos (h.pos_eq_zero_iff.mpr rfl)]
    exact ⟨s.inputPos, rfl, h⟩
  · rw [if_neg (mt h.pos_eq_zero_iff.mp (by simp))]
    refine ⟨s.inputPos - 1, rfl, h.move (by simp [Line.text, Line.left]) ?_⟩
    simp [h.pos_eq, Line.left]

theorem EditorState.Shows.moveCursorRight (h : s.Shows cfg l) :
    ∃ pos, s.moveCursorRight = { s with inputPos := pos } ∧
      { s with inputPos := pos }.Shows cfg l.right := by
  rw [EditorState.moveCursorRight]
  obtain ⟨before, after⟩ := l
  cases after with
  | nil =>
      rw [if_pos (h.pos_eq_len_iff.mpr rfl)]
      refine ⟨s.inputPos, rfl, ?_⟩
      simpa [Line.right] using h
  | cons c after =>
      rw [if_neg (mt h.pos_eq_len_iff.mp (List.cons_ne_nil c after))]
      refine ⟨s.inputPos + 1, rfl, h.move (by simp [Line.text, Line.right]) ?_⟩
      simp [h.pos_eq, Line.right]

/-- Another line in the buffer. -/
theorem EditorState.Shows.edit (h : s.Shows cfg l) {l' : Line} {rest : Bytes} {len pos : Nat}
    (htext : 0 ∉ l'.text) (hbuf : (l'.text ++ 0 :: rest).length = s.inputBuf.length)
    (hlen : len = l'.text.length) (hpos : pos = l'.before.length) :
    Console.Shows cfg (l'.text ++ 0 :: rest) len pos l' :=
  ⟨⟨hbuf.trans h.holds.length_buf, htext, rest, rfl⟩, hlen, hpos⟩

/-- **Backspace.** -/
theorem EditorState.Shows.handleBackspace (h : s.Shows cfg l) :
    ∃ buf len pos,
      s.handleBackspace = some { s with inputBuf := buf, inputLen := len, inputPos := pos } ∧
        Console.Shows cfg buf len pos l.backspace := by
  rw [EditorState.handleBackspace]
  obtain ⟨before, after⟩ := l
  rcases List.eq_nil_or_concat before with rfl | ⟨before, c, rfl⟩
  · rw [if_pos (h.pos_eq_zero_iff.mpr rfl)]
    exact ⟨s.inputBuf, s.inputLen, s.inputPos, rfl, h⟩
  · rw [if_neg (mt h.pos_eq_zero_iff.mp (by simp))]
    obtain ⟨rest, hrest⟩ := h.holds.buf_eq
    have htext := h.holds.text_ne_zero
    have hbuf : s.inputBuf = before ++ c :: (after ++ [0]) ++ rest := by
      simp [hrest, Line.text]
    have hpos : s.inputPos = before.length + 1 := by simp [h.pos_eq]
    have hlen : s.inputLen = s.inputPos + after.length := by
      simp [h.len_eq, h.pos_eq, Line.text]
      lia
    have hmoved : ∃ last,
        (if s.inputPos ≠ s.inputLen then
          memmove s.inputBuf (s.inputPos - 1) s.inputPos (s.inputLen - s.inputPos + 1)
        else poke s.inputBuf (s.inputLen - 1) 0) = some (before ++ after ++ 0 :: last :: rest) := by
      by_cases hafter : after = []
      · subst hafter
        refine ⟨0, ?_⟩
        rw [if_neg (by simp [hlen]), hbuf, hlen, hpos, List.append_assoc]
        exact (poke_append before _ c 0 (by simp)).trans (by simp)
      · obtain ⟨last, hlast⟩ := memmove_left before (after ++ [0]) rest c
        refine ⟨last, ?_⟩
        have hne := List.length_pos_of_ne_nil hafter
        have hmid : s.inputLen - s.inputPos + 1 = (after ++ [0]).length := by
          simp [hlen]
        rw [if_pos (by lia), hmid, hpos, Nat.add_sub_cancel, hbuf, hlast]
        simp
    obtain ⟨last, hmoved⟩ := hmoved
    have hline : (Line.backspace ⟨before.concat c, after⟩).text = before ++ after := by
      simp [Line.text, Line.backspace]
    refine ⟨before ++ after ++ 0 :: last :: rest, s.inputLen - 1, s.inputPos - 1, ?_, ?_⟩
    · simp only [hmoved, Option.map_some]
    · rw [← hline]
      apply h.edit
      · rw [hline]
        simp only [Line.text, List.concat_eq_append, List.mem_append, not_or] at htext ⊢
        exact ⟨htext.1.1, htext.2⟩
      · rw [hline, hbuf]
        simp
        lia
      · rw [hline, hlen, hpos, List.length_append]
        lia
      · simp [hpos, Line.backspace]

/-- **A character** goes in before the cursor. -/
theorem EditorState.Shows.insertChar (h : s.Shows cfg l) {c : UInt8} (hc : c ≠ 0)
    (hroom : s.inputLen < cfg.lineSize - 1) :
    ∃ buf len pos,
      s.insertChar c = some { s with inputBuf := buf, inputLen := len, inputPos := pos } ∧
        Console.Shows cfg buf len pos (l.insert c) := by
  obtain ⟨before, after⟩ := l
  obtain ⟨rest, hrest⟩ := h.holds.buf_eq
  have htext := h.holds.text_ne_zero
  have hsize := h.holds.length_buf
  have hpos : s.inputPos = before.length := h.pos_eq
  have hlen : s.inputLen = before.length + after.length := by simp [h.len_eq, Line.text]
  obtain ⟨x, rest, rfl⟩ : ∃ x more, rest = x :: more := by
    refine List.exists_cons_of_ne_nil fun hnil => ?_
    simp [hrest, hnil, Line.text] at hsize
    lia
  have hbuf : s.inputBuf = before ++ (after ++ [0]) ++ x :: rest := by
    simp [hrest, Line.text]
  have hmoved : ∃ first last,
      moveRestDown s.inputBuf s.inputLen s.inputPos =
        some (before ++ first :: (after ++ last :: rest)) := by
    rw [moveRestDown]
    by_cases hafter : after = []
    · subst hafter
      rw [if_neg (by simp [hpos, hlen])]
      exact ⟨0, x, by rw [hbuf]; simp⟩
    · obtain ⟨first, hfirst⟩ := memmove_right before (after ++ [0]) rest x
      have hne := List.length_pos_of_ne_nil hafter
      have hmid : s.inputLen - s.inputPos + 1 = (after ++ [0]).length := by
        simp [hpos, hlen]
      rw [if_pos (by lia), hmid, hpos, hbuf, hfirst]
      exact ⟨first, 0, by simp⟩
  obtain ⟨first, last, hmoved⟩ := hmoved
  have hline : (Line.insert c ⟨before, after⟩).text = before ++ c :: after := by
    simp [Line.text, Line.insert]
  have hend : s.inputLen + 1 = (before ++ c :: after).length := by
    simp [hlen]
    lia
  have hpoked := poke_append before (after ++ last :: rest) first c hpos
  have hended := poke_append (before ++ c :: after) rest last 0 hend
  rw [List.append_assoc, List.cons_append] at hended
  refine ⟨before ++ c :: after ++ 0 :: rest, s.inputLen + 1, s.inputPos + 1, ?_, ?_⟩
  · rw [EditorState.insertChar, insertAt, hmoved, Option.bind_eq_bind, Option.bind_some, hpoked,
      Option.bind_some, hended]
    rfl
  · rw [← hline]
    apply h.edit
    · rw [hline]
      simp only [Line.text, List.mem_append, List.mem_cons, not_or] at htext ⊢
      exact ⟨htext.1, hc.symm, htext.2⟩
    · rw [hline, hbuf]
      simp
      lia
    · rw [hline, hend]
    · simp [hpos, Line.insert]

/-- **Kill to end of line.** -/
theorem EditorState.Shows.killToEnd (h : s.Shows cfg l) :
    ∃ buf len pos,
      s.killToEnd = some { s with inputBuf := buf, inputLen := len, inputPos := pos } ∧
        Console.Shows cfg buf len pos l.kill := by
  rw [EditorState.killToEnd]
  obtain ⟨before, after⟩ := l
  cases after with
  | nil =>
      rw [if_pos (h.pos_eq_len_iff.mpr rfl)]
      exact ⟨s.inputBuf, s.inputLen, s.inputPos, rfl, h⟩
  | cons c after =>
      rw [if_neg (mt h.pos_eq_len_iff.mp (List.cons_ne_nil c after))]
      obtain ⟨rest, hrest⟩ := h.holds.buf_eq
      have htext := h.holds.text_ne_zero
      have hbuf : s.inputBuf = before ++ c :: (after ++ 0 :: rest) := by
        simp [hrest, Line.text]
      have hkilled := poke_append before (after ++ 0 :: rest) c 0 h.pos_eq
      have hline : (Line.kill ⟨before, c :: after⟩).text = before := by
        simp [Line.text, Line.kill]
      refine ⟨before ++ 0 :: (after ++ 0 :: rest), s.inputPos, s.inputPos, ?_, ?_⟩
      · simp only [hbuf, hkilled]
        rfl
      · nth_rewrite 1 [← hline]
        apply h.edit
        · rw [hline]
          simp only [Line.text, List.mem_append, not_or] at htext
          exact htext.1
        · rw [hline, hbuf]
          simp
        · rw [hline, h.pos_eq]
        · exact h.pos_eq

/-! ## The history -/

theorem forall₂_set {α β : Type} {R : α → β → Prop} {as : List α} {bs : List β} {a : α} {b : β}
    (h : List.Forall₂ R as bs) (hab : R a b) (i : Nat) :
    List.Forall₂ R (as.set i a) (bs.set i b) := by
  induction h generalizing i with
  | nil => exact List.Forall₂.nil
  | cons hhead htail ih =>
      cases i with
      | zero => exact List.Forall₂.cons hab htail
      | succ i => exact List.Forall₂.cons hhead (ih i)

/-- The state shows the line of the editor and has its history. -/
structure EditorState.Keeps (s : EditorState) (cfg : EditorConfig) (e : Editor) : Prop where
  line : s.Shows cfg e.line
  history : List.Forall₂ (Holds cfg.lineSize) s.history e.history
  length_history : e.history.length = cfg.history
  next_eq : s.historyNext = e.next
  next_lt : e.next < cfg.history
  pos_eq : s.historyPos = e.pos
  pos_lt : e.pos < cfg.history

variable {e : Editor}

theorem EditorState.Keeps.init (cfg : EditorConfig) :
    (EditorState.init cfg).Keeps cfg (Editor.init cfg) where
  line := Shows.empty (Holds.replicate cfg.lineSize_pos)
  history := by
    rw [EditorState.init, Editor.init]
    exact List.forall₂_iff_get.mpr ⟨by simp, fun i _ _ => by
      simpa using Holds.replicate cfg.lineSize_pos⟩
  length_history := List.length_replicate
  next_eq := rfl
  next_lt := cfg.history_pos
  pos_eq := rfl
  pos_lt := cfg.history_pos

/-- A slot of the history. -/
theorem EditorState.Keeps.slot (h : s.Keeps cfg e) {i : Nat} (hi : i < cfg.history) :
    ∃ slot, s.history[i]? = some slot ∧ Holds cfg.lineSize slot (e.history.getD i []) := by
  have hlen := h.history.length_eq
  have hi' : i < e.history.length := h.length_history.symm ▸ hi
  refine ⟨s.history[i], List.getElem?_eq_getElem (by omega), ?_⟩
  have hslot := h.history.get (hlen ▸ hi') hi'
  rw [List.getD_eq_getElem?_getD, List.getElem?_eq_getElem hi', Option.getD_some]
  exact hslot

/-- `save_history` -/
theorem EditorState.Keeps.saveHistory (h : s.Keeps cfg e) :
    ∃ history, s.saveHistory cfg = some { s with history } ∧
      { s with history }.Keeps cfg { e with history := e.history.set e.next e.line.text } := by
  obtain ⟨slot, hslot, hholds⟩ := h.slot h.next_lt
  obtain ⟨buf, hbuf, hsaved⟩ := h.line.holds.strzcpy hholds.length_buf
  refine ⟨s.history.set s.historyNext buf, ?_, ?_⟩
  · rw [EditorState.saveHistory, h.next_eq, hslot, Option.bind_eq_bind, Option.bind_some, hbuf]
    rfl
  · refine ⟨h.line, ?_, ?_, h.next_eq, h.next_lt, h.pos_eq, h.pos_lt⟩
    · rw [h.next_eq]
      exact forall₂_set h.history hsaved e.next
    · rw [List.length_set]
      exact h.length_history

theorem EditorState.Keeps.saveUnfinished (h : s.Keeps cfg e) :
    ∃ history, s.saveUnfinished cfg = some { s with history } ∧
      { s with history }.Keeps cfg e.keep := by
  rw [EditorState.saveUnfinished, Editor.keep]
  by_cases hpos : e.pos = e.next
  · rw [if_pos (by rw [h.pos_eq, h.next_eq, hpos]), if_pos hpos]
    exact h.saveHistory
  · rw [if_neg (by rwa [h.pos_eq, h.next_eq]), if_neg hpos]
    exact ⟨s.history, rfl, h⟩

/-- `load_history` -/
theorem EditorState.Keeps.loadHistory (h : s.Keeps cfg e) {pos : Nat} (hpos : pos < cfg.history) :
    ∃ buf len, { s with historyPos := pos }.loadHistory cfg pos =
        some { s with historyPos := pos, inputBuf := buf, inputLen := len, inputPos := len } ∧
      { s with historyPos := pos, inputBuf := buf, inputLen := len, inputPos := len }.Keeps cfg
        (e.showEntry pos) := by
  obtain ⟨slot, hslot, hholds⟩ := h.slot hpos
  obtain ⟨buf, hbuf, hloaded⟩ := hholds.strzcpy h.line.holds.length_buf
  refine ⟨buf, (e.history.getD pos []).length, ?_, ?_⟩
  · rw [EditorState.loadHistory, hslot, Option.bind_eq_bind, Option.bind_some, hbuf,
      Option.bind_some, hloaded.strlen_eq]
    rw [EditorState.moveCursorBegin]
    split <;> rfl
  · refine ⟨⟨?_, ?_, rfl⟩, h.history, h.length_history, h.next_eq, h.next_lt, rfl, hpos⟩
    · rw [Editor.showEntry, Line.text, List.append_nil]
      exact hloaded
    · rw [Editor.showEntry, Line.text, List.append_nil]

/-! ## Keys -/

/-- What `switch (c)` does for a key. -/
def EditorState.press (cfg : EditorConfig) (s : EditorState) :
    Key → Option (EditorState × Option Bytes)
  | .char c =>
      if cfg.lineSize - 1 ≤ s.inputLen then some (s, none)
      else (s.insertChar c).map fun s => (s, none)
  | .enter => s.newline cfg
  | .backspace => s.handleBackspace.map fun s => (s, none)
  | .delete =>
      if s.inputPos = s.inputLen then some (s, none)
      else s.moveCursorRight.handleBackspace.map fun s => (s, none)
  | .home => some (s.moveCursorBegin, none)
  | .left => some (s.moveCursorLeft, none)
  | .endOfLine => some (s.moveCursorEnd, none)
  | .right => some (s.moveCursorRight, none)
  | .kill => s.killToEnd.map fun s => (s, none)
  | .up => (s.historyPrevious cfg).map fun s => (s, none)
  | .down => (s.historyForward cfg).map fun s => (s, none)
  | .ignored => some (s, none)

/-- The key codes of `handle_esc`; what it has eaten is -1. -/
def keyCode : Key → Int
  | .up => keyUpArrow
  | .down => keyDownArrow
  | .right => keyRightArrow
  | .left => keyLeftArrow
  | .endOfLine => keyEnd
  | .home => keyHome
  | .delete => keyDel
  | _ => -1

/-- The keys that an escape sequence may stand for. -/
def EscKey (k : Key) : Prop :=
  k ∈ [Key.up, .down, .right, .left, .endOfLine, .home, .delete, .ignored]

theorem EditorState.handleKey_keyCode (s : EditorState) {k : Key} (hk : EscKey k) :
    s.handleKey cfg (keyCode k) = s.press cfg k := by
  simp only [EscKey, List.mem_cons, List.not_mem_nil, or_false] at hk
  rcases hk with rfl | rfl | rfl | rfl | rfl | rfl | rfl | rfl <;> rfl

/-- The characters that `switch (c)` names. -/
def namedChars : Bytes := [0x08, 0x7f, 0x0a, 0x01, 0x02, 0x05, 0x06, 0x0b, 0x0c, 0x10, 0x0e]

theorem keyOfChar_of_notMem {c : UInt8} (hnamed : c ∉ namedChars) :
    keyOfChar c = if 0x20 ≤ c ∧ c ≤ 0x7e then .char c else .ignored := by
  have hne : ∀ d ∈ namedChars, c ≠ d := fun d hd heq => hnamed (heq ▸ hd)
  rw [keyOfChar, if_neg (not_or.mpr ⟨hne 0x08 (by decide), hne 0x7f (by decide)⟩),
    if_neg (hne 0x0a (by decide)), if_neg (hne 0x01 (by decide)), if_neg (hne 0x02 (by decide)),
    if_neg (hne 0x05 (by decide)), if_neg (hne 0x06 (by decide)), if_neg (hne 0x0b (by decide)),
    if_neg (hne 0x10 (by decide)), if_neg (hne 0x0e (by decide))]

theorem keyOfChar_ne (c : UInt8) : keyOfChar c ≠ .char 0 := by
  by_cases hnamed : c ∈ namedChars
  · have hall : ∀ d ∈ namedChars, keyOfChar d ≠ .char 0 := by decide +kernel
    exact hall c hnamed
  · rw [keyOfChar_of_notMem hnamed]
    intro heq
    by_cases hprint : 0x20 ≤ c ∧ c ≤ 0x7e
    · rw [if_pos hprint] at heq
      obtain rfl := Key.char.inj heq
      exact absurd hprint.1 (by decide)
    · rw [if_neg hprint] at heq
      cases heq

theorem EditorState.handleKey_char (s : EditorState) (c : UInt8) :
    s.handleKey cfg c.toNat = s.press cfg (keyOfChar c) := by
  by_cases hnamed : c ∈ namedChars
  · simp only [namedChars, List.mem_cons, List.not_mem_nil, or_false] at hnamed
    rcases hnamed with rfl | rfl | rfl | rfl | rfl | rfl | rfl | rfl | rfl | rfl | rfl <;> rfl
  · have hne : ∀ d ∈ namedChars, c ≠ d := fun d hd heq => hnamed (heq ▸ hd)
    have hkey : ∀ k : Int, 256 ≤ k → (c.toNat : Int) ≠ k := fun k hk heq => by
      have := UInt8.toNat_lt c
      omega
    have hcode : ∀ d ∈ namedChars, (c.toNat : Int) ≠ d.toNat := fun d hd => toNat_ne (hne d hd)
    have hctrl : ∀ (ch : Char) (key : Int), ctrl ch ∈ namedChars.map (fun d => (d.toNat : Int)) →
        256 ≤ key → ¬ ((c.toNat : Int) = ctrl ch ∨ (c.toNat : Int) = key) := by
      intro ch key hch hk
      obtain ⟨d, hd, heq⟩ := List.mem_map.mp hch
      exact not_or.mpr ⟨heq ▸ hcode d hd, hkey key hk⟩
    have hback : ¬ ((c.toNat : Int) = 0x08 ∨ (c.toNat : Int) = 0x7f) :=
      not_or.mpr ⟨hcode 0x08 (by decide), hcode 0x7f (by decide)⟩
    have hnewline : (c.toNat : Int) ≠ charCode '\n' := hcode 0x0a (by decide)
    have hkill : (c.toNat : Int) ≠ ctrl 'K' := hcode 0x0b (by decide)
    have hreprint : (c.toNat : Int) ≠ ctrl 'L' := hcode 0x0c (by decide)
    rw [EditorState.handleKey, if_neg (hkey keyDel (by decide)),
      if_neg hback, if_neg hnewline, if_neg (hctrl 'A' keyHome (by decide) (by decide)),
      if_neg (hctrl 'B' keyLeftArrow (by decide) (by decide)),
      if_neg (hctrl 'E' keyEnd (by decide) (by decide)),
      if_neg (hctrl 'F' keyRightArrow (by decide) (by decide)),
      if_neg hkill, if_neg hreprint,
      if_neg (hctrl 'P' keyUpArrow (by decide) (by decide)),
      if_neg (hctrl 'N' keyDownArrow (by decide) (by decide))]
    rw [keyOfChar_of_notMem hnamed]
    by_cases hprint : isprint c.toNat = true
    · rw [if_neg (by simp [hprint]), if_pos ((isprint_iff c).mp hprint), Int.toNat_natCast,
        UInt8.ofNat_toNat]
      rfl
    · rw [if_pos (by simpa using hprint), if_neg (mt (isprint_iff c).mpr hprint)]
      rfl

/-! ## One key -/

/-- A step of the code and one of the editor: the same line is executed, and afterwards the state
keeps the editor.  The automaton for the escape sequences is left alone. -/
def KeepsStep (cfg : EditorConfig) (s : EditorState) (e : Editor) (k : Key) : Prop :=
  ∃ s', s.press cfg k = some (s', e.executed k) ∧ s'.Keeps cfg (e.press cfg k) ∧
    s'.escState = s.escState ∧ s'.lastRxWasCr = s.lastRxWasCr

/-- Only the line changes. -/
theorem EditorState.Keeps.editLine (h : s.Keeps cfg e) {buf : Bytes} {len pos : Nat}
    (hline : Console.Shows cfg buf len pos l) :
    { s with inputBuf := buf, inputLen := len, inputPos := pos }.Keeps cfg { e with line := l } :=
  ⟨hline, h.history, h.length_history, h.next_eq, h.next_lt, h.pos_eq, h.pos_lt⟩

/-- A key that edits the line. -/
theorem EditorState.Keeps.edits (h : s.Keeps cfg e) {k : Key} {op : Option EditorState}
    (hpress : s.press cfg k = op.map fun s => (s, none)) (hexecuted : e.executed k = none)
    (hedit : e.press cfg k = { e with line := l })
    (hop : ∃ buf len pos,
      op = some { s with inputBuf := buf, inputLen := len, inputPos := pos } ∧
        Console.Shows cfg buf len pos l) :
    KeepsStep cfg s e k := by
  obtain ⟨buf, len, pos, rfl, hline⟩ := hop
  refine ⟨{ s with inputBuf := buf, inputLen := len, inputPos := pos }, ?_, ?_, rfl, rfl⟩
  · rw [hpress, hexecuted]
    rfl
  · rw [hedit]
    exact h.editLine hline

/-- A key that moves the cursor. -/
theorem EditorState.Keeps.moves (h : s.Keeps cfg e) {k : Key} {s' : EditorState}
    (hpress : s.press cfg k = some (s', none)) (hexecuted : e.executed k = none)
    (hedit : e.press cfg k = { e with line := l })
    (hmove : ∃ pos, s' = { s with inputPos := pos } ∧ { s with inputPos := pos }.Shows cfg l) :
    KeepsStep cfg s e k := by
  obtain ⟨pos, rfl, hline⟩ := hmove
  have hop : s.press cfg k = (some { s with inputPos := pos }).map fun s => (s, none) := hpress
  exact h.edits hop hexecuted hedit ⟨s.inputBuf, s.inputLen, pos, rfl, hline⟩

/-- **Delete.**  A step to the right and a backspace, unless the cursor is at the end. -/
theorem EditorState.Shows.delete (h : s.Shows cfg l) (hafter : l.after ≠ []) :
    ∃ buf len pos,
      s.moveCursorRight.handleBackspace =
          some { s with inputBuf := buf, inputLen := len, inputPos := pos } ∧
        Console.Shows cfg buf len pos l.delete := by
  obtain ⟨pos, hright, hmoved⟩ := h.moveCursorRight
  have hline : l.right.backspace = l.delete := by
    obtain ⟨before, c, after⟩ := l
    · exact absurd rfl hafter
    · simp [Line.right, Line.backspace, Line.delete]
  rw [hright, ← hline]
  exact hmoved.handleBackspace

theorem EditorState.Keeps.delete (h : s.Keeps cfg e) : KeepsStep cfg s e .delete := by
  by_cases hend : s.inputPos = s.inputLen
  · have hafter := h.line.pos_eq_len_iff.mp hend
    have hsame : e.press cfg .delete = e := by
      rw [Editor.press, Line.delete, hafter, List.tail_nil, ← hafter]
    exact ⟨s, if_pos hend, hsame.symm ▸ h, rfl, rfl⟩
  · exact h.edits (if_neg hend) rfl rfl (h.line.delete (mt h.line.pos_eq_len_iff.mpr hend))

theorem EditorState.Keeps.char (h : s.Keeps cfg e) {c : UInt8} (hc : c ≠ 0) :
    KeepsStep cfg s e (.char c) := by
  by_cases hfull : cfg.lineSize - 1 ≤ s.inputLen
  · have hsame : e.press cfg (.char c) = e := by
      rw [Editor.press, if_neg (by rw [← h.line.len_eq]; omega)]
    exact ⟨s, if_pos hfull, hsame.symm ▸ h, rfl, rfl⟩
  · have hroom := not_le.mp hfull
    refine h.edits (if_neg hfull) rfl ?_ (h.line.insertChar hc hroom)
    rw [Editor.press, if_pos (by rw [← h.line.len_eq]; exact hroom)]

/-- The line is kept if it is unfinished, and an entry is shown. -/
theorem EditorState.Keeps.shows (h : s.Keeps cfg e) {f : Nat → Nat} (hf : f e.pos < cfg.history) :
    ∃ s' : EditorState,
      ((s.saveUnfinished cfg).bind fun s =>
        { s with historyPos := f s.historyPos }.loadHistory cfg (f s.historyPos)) = some s' ∧
      s'.Keeps cfg (e.keep.showEntry (f e.pos)) ∧
      s'.escState = s.escState ∧ s'.lastRxWasCr = s.lastRxWasCr := by
  obtain ⟨history, hsaved, hkept⟩ := h.saveUnfinished
  obtain ⟨buf, len, hloaded, hshown⟩ := hkept.loadHistory hf
  refine ⟨_, ?_, hshown, rfl, rfl⟩
  rw [hsaved, Option.bind_some, h.pos_eq, hloaded]

theorem EditorState.historyPrevious_eq (s : EditorState) :
    s.historyPrevious cfg = (s.saveUnfinished cfg).bind fun s =>
      { s with historyPos := Editor.previousPos cfg s.historyPos }.loadHistory cfg
        (Editor.previousPos cfg s.historyPos) := by
  have hpos : ∀ pos : Nat,
      (if (pos : Int) - 1 < 0 then cfg.history - 1 else ((pos : Int) - 1).toNat) =
        Editor.previousPos cfg pos := by
    intro pos
    rw [Editor.previousPos]
    split <;> split <;> lia
  simp only [EditorState.historyPrevious, hpos, Option.bind_eq_bind]

theorem EditorState.historyForward_eq (s : EditorState) :
    s.historyForward cfg = (s.saveUnfinished cfg).bind fun s =>
      { s with historyPos := Editor.nextPos cfg s.historyPos }.loadHistory cfg
        (Editor.nextPos cfg s.historyPos) := by
  have hpos : ∀ pos : Nat, (if cfg.history ≤ pos + 1 then 0 else pos + 1) =
      Editor.nextPos cfg pos := by
    intro pos
    rw [Editor.nextPos]
    split <;> split <;> omega
  simp only [EditorState.historyForward, hpos, Option.bind_eq_bind]

theorem EditorState.Keeps.up (h : s.Keeps cfg e) : KeepsStep cfg s e .up := by
  have hpos : Editor.previousPos cfg e.pos < cfg.history := by
    have := h.pos_lt
    rw [Editor.previousPos]
    split <;> omega
  obtain ⟨s', hs', hshown, hesc, hcr⟩ := h.shows hpos
  refine ⟨s', ?_, hshown, hesc, hcr⟩
  rw [EditorState.press, s.historyPrevious_eq, hs']
  rfl

theorem EditorState.Keeps.down (h : s.Keeps cfg e) : KeepsStep cfg s e .down := by
  have hpos : Editor.nextPos cfg e.pos < cfg.history := by
    have := h.pos_lt
    rw [Editor.nextPos]
    split <;> omega
  obtain ⟨s', hs', hshown, hesc, hcr⟩ := h.shows hpos
  refine ⟨s', ?_, hshown, hesc, hcr⟩
  rw [EditorState.press, s.historyForward_eq, hs']
  rfl

/-- The line goes into the history if it is not empty. -/
theorem EditorState.Keeps.saveCommand (h : s.Keeps cfg e) :
    ∃ history next pos,
      s.saveCommand cfg = some { s with history, historyNext := next, historyPos := pos } ∧
        ∀ buf, Holds cfg.lineSize buf [] →
          { s with history, historyNext := next, historyPos := pos, inputBuf := buf, inputLen := 0,
                   inputPos := 0 }.Keeps cfg (e.endLine cfg) := by
  rw [EditorState.saveCommand, Editor.endLine]
  by_cases hempty : e.line.text = []
  · rw [if_neg (by simp [h.line.len_eq, hempty]), if_pos hempty]
    exact ⟨s.history, s.historyNext, s.historyPos, rfl, fun buf hbuf =>
      ⟨Shows.empty hbuf, h.history, h.length_history, h.next_eq, h.next_lt, h.pos_eq, h.pos_lt⟩⟩
  · rw [if_pos (by simp [h.line.len_eq, hempty]), if_neg hempty]
    obtain ⟨history, hsaved, hkept⟩ := h.saveHistory
    have hnext : (e.next + 1) % cfg.history < cfg.history := Nat.mod_lt _ cfg.history_pos
    refine ⟨history, (e.next + 1) % cfg.history, (e.next + 1) % cfg.history, ?_, fun buf hbuf =>
      ⟨Shows.empty hbuf, hkept.history, hkept.length_history, rfl, hnext, rfl, hnext⟩⟩
    rw [hsaved, Option.map_some, h.next_eq]

/-- **Newline.** -/
theorem EditorState.Keeps.enter (h : s.Keeps cfg e) : KeepsStep cfg s e .enter := by
  obtain ⟨history, next, pos, hsaved, hended⟩ := h.saveCommand
  obtain ⟨rest, hrest⟩ := h.line.holds.buf_eq
  obtain ⟨w, hw, -, hlen⟩ := splitWords_spec h.line.holds.text_ne_zero rest
  rw [← hrest, h.line.holds.length_buf] at hlen
  rw [← hrest] at hw
  obtain ⟨c, more, hmore⟩ : ∃ c more, w.input = c :: more := by
    refine List.exists_cons_of_ne_nil fun hnil => ?_
    have := cfg.lineSize_pos
    rw [hnil, List.length_nil] at hlen
    omega
  have hpoked : poke w.input 0 0 = some (0 :: more) := by
    rw [hmore]
    exact poke_append [] more c 0 rfl
  have hempty : Holds cfg.lineSize (0 :: more) [] :=
    ⟨by rw [← hlen, hmore]; rfl, List.not_mem_nil, more, rfl⟩
  refine ⟨_, ?_, hended _ hempty, rfl, rfl⟩
  simp only [EditorState.press, EditorState.newline, hsaved, Option.bind_eq_bind, Option.bind_some,
    hw, hpoked, h.line.holds.takeWhile_eq]
  rfl

/-- **One key.** -/
theorem EditorState.Keeps.press (h : s.Keeps cfg e) {k : Key} (hk : k ≠ .char 0) :
    KeepsStep cfg s e k := by
  cases k with
  | char c => exact h.char fun hc => hk (hc ▸ rfl)
  | enter => exact h.enter
  | backspace => exact h.edits rfl rfl rfl h.line.handleBackspace
  | delete => exact h.delete
  | home => exact h.moves rfl rfl rfl h.line.moveCursorBegin
  | left => exact h.moves rfl rfl rfl h.line.moveCursorLeft
  | endOfLine => exact h.moves rfl rfl rfl h.line.moveCursorEnd
  | right => exact h.moves rfl rfl rfl h.line.moveCursorRight
  | kill => exact h.edits rfl rfl rfl h.line.killToEnd
  | up => exact h.up
  | down => exact h.down
  | ignored => exact ⟨s, rfl, h, rfl, rfl⟩

/-! ## Escape sequences -/

/-- What the automaton has read. -/
def EscState.pending : EscState → Pending
  | .outside => .nothing
  | .start => .known []
  | .bad => .unknown
  | .bracket => .known [0x5b]
  | .bracket1 => .known [0x5b, 0x31]
  | .bracket3 => .known [0x5b, 0x33]
  | .o => .known [0x4f]

/-- The automaton and what is pending agree on a character: they go on to the same, and the key
code is that of the key. -/
def EscAgrees (s : EditorState) (c : UInt8) : Prop :=
  ∃ (state : EscState) (k : Key), s.escState.pending.next c = (state.pending, k) ∧ EscKey k ∧
    (s.handleEsc c.toNat).1 = keyCode k ∧
      (if keyCode k ≠ -1 then { (s.handleEsc c.toNat).2 with escState := .outside }
        else (s.handleEsc c.toNat).2) = { s with escState := state }

theorem isalpha_or_tilde_iff (c : UInt8) :
    (isalpha c.toNat || decide ((c.toNat : Int) = charCode '~')) = true ↔
      (0x41 ≤ c ∧ c ≤ 0x5a) ∨ (0x61 ≤ c ∧ c ≤ 0x7a) ∨ c = 0x7e := by
  have hA : charCode 'A' = 65 := rfl
  have hZ : charCode 'Z' = 90 := rfl
  have ha : charCode 'a' = 97 := rfl
  have hz : charCode 'z' = 122 := rfl
  have htilde : charCode '~' = 126 := rfl
  have h41 : (0x41 : UInt8).toNat = 65 := rfl
  have h5a : (0x5a : UInt8).toNat = 90 := rfl
  have h61 : (0x61 : UInt8).toNat = 97 := rfl
  have h7a : (0x7a : UInt8).toNat = 122 := rfl
  have h7e : (0x7e : UInt8).toNat = 126 := rfl
  simp only [isalpha, Bool.or_eq_true, Bool.and_eq_true, decide_eq_true_eq, UInt8.le_iff_toNat_le,
    ← UInt8.toNat_inj]
  lia

/-- A character that does not go on with a known sequence. -/
theorem EscAgrees.done {s : EditorState} {c : UInt8}
    (hnext : s.escState.pending.next c = (Pending.unknownAfter c, .ignored))
    (hesc : s.handleEsc c.toNat = s.escDone c.toNat) : EscAgrees s c := by
  by_cases hend : (isalpha c.toNat || decide ((c.toNat : Int) = charCode '~')) = true
  · refine ⟨.outside, .ignored, ?_, by simp [EscKey], by rw [hesc]; rfl, ?_⟩
    · rw [hnext, Pending.unknownAfter, if_pos ((isalpha_or_tilde_iff c).mp hend)]
      rfl
    · rw [if_neg (by decide), hesc, EditorState.escDone, if_pos hend]
  · refine ⟨.bad, .ignored, ?_, by simp [EscKey], by rw [hesc]; rfl, ?_⟩
    · rw [hnext, Pending.unknownAfter, if_neg (mt (isalpha_or_tilde_iff c).mpr hend)]
      rfl
    · rw [if_neg (by decide), hesc, EditorState.escDone, if_neg hend]

/-- A character with which no known sequence goes on. -/
theorem Pending.next_unknown {read : Bytes} {c : UInt8}
    (h : ∀ seq ∈ escSequences, ¬ (read ++ [c]) <+: seq.1) :
    (Pending.known read).next c = (Pending.unknownAfter c, .ignored) := by
  have hall : ¬ (escSequences.any fun seq => seq.1 = read ++ [c]) = true := by
    rw [List.any_eq_true]
    rintro ⟨seq, hseq, heq⟩
    exact h seq hseq (of_decide_eq_true heq ▸ List.prefix_rfl)
  have hbegins : ¬ (escSequences.any fun seq => (read ++ [c]).isPrefixOf seq.1) = true := by
    rw [List.any_eq_true]
    rintro ⟨seq, hseq, hgoes⟩
    exact h seq hseq (List.isPrefixOf_iff_prefix.mp hgoes)
  rw [Pending.next, if_neg hall, if_neg hbegins]

theorem EditorState.handleEsc_agrees (h : s.escState ≠ .outside) (c : UInt8) : EscAgrees s c := by
  obtain ⟨history, historyNext, historyPos, inputBuf, inputLen, inputPos, cr, state⟩ := s
  cases state with
  | outside => exact absurd rfl h
  | start =>
      by_cases hbracket : c = 0x5b
      · subst hbracket
        exact ⟨.bracket, .ignored, rfl, by simp [EscKey], rfl, rfl⟩
      by_cases ho : c = 0x4f
      · subst ho
        exact ⟨.o, .ignored, rfl, by simp [EscKey], rfl, rfl⟩
      apply EscAgrees.done
      · apply Pending.next_unknown
        simp [escSequences, hbracket, ho]
      · have hbracket : (c.toNat : Int) ≠ charCode '[' := toNat_ne hbracket
        have ho : (c.toNat : Int) ≠ charCode 'O' := toNat_ne ho
        simp [EditorState.handleEsc, hbracket, ho]
  | bracket =>
      by_cases hknown : c ∈ ([0x31, 0x33, 0x41, 0x42, 0x43, 0x44] : Bytes)
      · simp only [List.mem_cons, List.not_mem_nil, or_false] at hknown
        rcases hknown with rfl | rfl | rfl | rfl | rfl | rfl
        · exact ⟨.bracket1, .ignored, rfl, by simp [EscKey], rfl, rfl⟩
        · exact ⟨.bracket3, .ignored, rfl, by simp [EscKey], rfl, rfl⟩
        · exact ⟨.outside, .up, rfl, by simp [EscKey], rfl, rfl⟩
        · exact ⟨.outside, .down, rfl, by simp [EscKey], rfl, rfl⟩
        · exact ⟨.outside, .right, rfl, by simp [EscKey], rfl, rfl⟩
        · exact ⟨.outside, .left, rfl, by simp [EscKey], rfl, rfl⟩
      · simp only [List.mem_cons, List.not_mem_nil, or_false, not_or] at hknown
        obtain ⟨h1, h3, hup, hdown, hright, hleft⟩ := hknown
        apply EscAgrees.done
        · apply Pending.next_unknown
          simp [escSequences, h1, h3, hup, hdown, hright, hleft]
        · have h1 : (c.toNat : Int) ≠ charCode '1' := toNat_ne h1
          have h3 : (c.toNat : Int) ≠ charCode '3' := toNat_ne h3
          have hup : (c.toNat : Int) ≠ charCode 'A' := toNat_ne hup
          have hdown : (c.toNat : Int) ≠ charCode 'B' := toNat_ne hdown
          have hright : (c.toNat : Int) ≠ charCode 'C' := toNat_ne hright
          have hleft : (c.toNat : Int) ≠ charCode 'D' := toNat_ne hleft
          simp [EditorState.handleEsc, h1, h3, hup, hdown, hright, hleft]
  | o =>
      by_cases hend : c = 0x46
      · subst hend
        exact ⟨.outside, .endOfLine, rfl, by simp [EscKey], rfl, rfl⟩
      apply EscAgrees.done
      · apply Pending.next_unknown
        simp [escSequences, hend]
      · have hend : (c.toNat : Int) ≠ charCode 'F' := toNat_ne hend
        simp [EditorState.handleEsc, hend]
  | bracket1 =>
      by_cases hhome : c = 0x7e
      · subst hhome
        exact ⟨.outside, .home, rfl, by simp [EscKey], rfl, rfl⟩
      apply EscAgrees.done
      · apply Pending.next_unknown
        simp [escSequences, hhome]
      · have hhome : (c.toNat : Int) ≠ charCode '~' := toNat_ne hhome
        simp [EditorState.handleEsc, hhome]
  | bracket3 =>
      by_cases hdelete : c = 0x7e
      · subst hdelete
        exact ⟨.outside, .delete, rfl, by simp [EscKey], rfl, rfl⟩
      apply EscAgrees.done
      · apply Pending.next_unknown
        simp [escSequences, hdelete]
      · have hdelete : (c.toNat : Int) ≠ charCode '~' := toNat_ne hdelete
        simp [EditorState.handleEsc, hdelete]
  | bad => exact EscAgrees.done rfl rfl

/-- Only the automaton has changed. -/
theorem EditorState.Keeps.setEsc (h : s.Keeps cfg e) (cr : Bool) (state : EscState) :
    { s with lastRxWasCr := cr, escState := state }.Keeps cfg e :=
  ⟨h.line, h.history, h.length_history, h.next_eq, h.next_lt, h.pos_eq, h.pos_lt⟩

theorem EscKey.ne_char {k : Key} (hk : EscKey k) (c : UInt8) : k ≠ .char c := by
  rintro rfl
  simp [EscKey] at hk

/-- **One character**, behind the translation of newlines. -/
theorem EditorState.Keeps.handleEscOrKey (h : s.Keeps cfg e) (c : UInt8) :
    ∃ s', s.handleEscOrKey cfg c.toNat =
        some (s', e.executed (s.escState.pending.read c).2) ∧
      s'.Keeps cfg (e.press cfg (s.escState.pending.read c).2) ∧
      s'.escState.pending = (s.escState.pending.read c).1 ∧ s'.lastRxWasCr = s.lastRxWasCr := by
  by_cases hesc : c = 0x1b
  · subst hesc
    exact ⟨{ s with escState := .start }, rfl, h.setEsc s.lastRxWasCr .start, rfl, rfl⟩
  have hne : (c.toNat : Int) ≠ 0x1b := toNat_ne hesc
  rw [Pending.read, if_neg hesc, EditorState.handleEscOrKey, if_neg hne]
  by_cases hout : s.escState = .outside
  · rw [if_neg (not_not.mpr hout), s.handleKey_char, hout]
    obtain ⟨s', hs', hkeeps, hstate, hcr⟩ := h.press (keyOfChar_ne c)
    exact ⟨s', hs', hkeeps, by rw [hstate, hout]; rfl, hcr⟩
  · rw [if_pos hout]
    obtain ⟨state, k, hnext, hk, hcode, hstate⟩ := s.handleEsc_agrees hout c
    obtain ⟨s', hs', hkeeps, hstate', hcr⟩ :=
      (h.setEsc s.lastRxWasCr state).press (hk.ne_char 0)
    refine ⟨s', ?_, by rwa [hnext], by rw [hstate', hnext], hcr⟩
    rw [hnext]
    simp only
    rw [hcode, hstate, EditorState.handleKey_keyCode _ hk, hs']

/-! ## Every run -/

/-- The variables of the code stand for a session. -/
structure EditorState.Represents (s : EditorState) (cfg : EditorConfig) (t : Session) : Prop where
  keeps : s.Keeps cfg t.editor
  pending_eq : s.escState.pending = t.decoder.pending
  cr_eq : s.lastRxWasCr = t.decoder.lastWasCr

variable {t : Session}

theorem EditorState.Represents.init (cfg : EditorConfig) :
    (EditorState.init cfg).Represents cfg (Session.init cfg) :=
  ⟨EditorState.Keeps.init cfg, rfl, rfl⟩

/-- **One character.** -/
theorem EditorState.Represents.handleChar (h : s.Represents cfg t) (c : UInt8) :
    ∃ s', s.handleChar cfg c = some (s', (t.type cfg c).2) ∧
      s'.Represents cfg (t.type cfg c).1 := by
  have hcr : ∀ (cr : Bool) (c : UInt8), ∃ s',
      { s with lastRxWasCr := cr }.handleEscOrKey cfg c.toNat =
          some (s', t.editor.executed (t.decoder.pending.read c).2) ∧
        s'.Represents cfg ⟨⟨(t.decoder.pending.read c).1, cr⟩,
          t.editor.press cfg (t.decoder.pending.read c).2⟩ := by
    intro cr c
    obtain ⟨s', hs', hkeeps, hpending, hcr⟩ := (h.keeps.setEsc cr s.escState).handleEscOrKey c
    rw [h.pending_eq] at hs' hkeeps hpending
    exact ⟨s', hs', hkeeps, hpending, hcr⟩
  rw [EditorState.handleChar, Session.type, Decoder.read]
  by_cases hreturn : c = 0x0d
  · subst hreturn
    rw [if_pos rfl, if_pos (show ((0x0d : UInt8).toNat : Int) = charCode '\r' from rfl)]
    exact hcr true 0x0a
  have hne : (c.toNat : Int) ≠ charCode '\r' := toNat_ne hreturn
  rw [if_neg hreturn, if_neg hne]
  by_cases hline : c = 0x0a ∧ t.decoder.lastWasCr
  · obtain ⟨rfl, hlast⟩ := hline
    rw [if_pos ⟨rfl, by rw [h.cr_eq]; exact hlast⟩, if_pos ⟨rfl, hlast⟩]
    exact ⟨_, rfl, h.keeps.setEsc false s.escState, h.pending_eq, rfl⟩
  · have hline' : ¬ ((c.toNat : Int) = charCode '\n' ∧ s.lastRxWasCr = true) := by
      rintro ⟨heq, hlast⟩
      by_cases hc : c = 0x0a
      · exact hline ⟨hc, by rw [← h.cr_eq]; exact hlast⟩
      · exact toNat_ne hc heq
    rw [if_neg hline, if_neg hline']
    exact hcr false c

/-- **Every sequence of characters.** -/
theorem EditorState.Represents.handleChars (h : s.Represents cfg t) (cs : Bytes) :
    ∃ s', s.handleChars cfg cs = some (s', (t.typeAll cfg cs).2) ∧
      s'.Represents cfg (t.typeAll cfg cs).1 := by
  induction cs generalizing s t with
  | nil => exact ⟨s, rfl, h⟩
  | cons c cs ih =>
      obtain ⟨s', hs', hnext⟩ := h.handleChar c
      obtain ⟨s'', hs'', hlast⟩ := ih hnext
      refine ⟨s'', ?_, hlast⟩
      simp only [EditorState.handleChars, hs', hs'', Option.bind_eq_bind, Option.bind_some]
      rfl

/-- The line in the buffer. -/
def EditorState.text (s : EditorState) : Bytes := s.inputBuf.take s.inputLen

theorem EditorState.Keeps.text_eq (h : s.Keeps cfg e) : s.text = e.line.text := by
  obtain ⟨rest, hrest⟩ := h.line.holds.buf_eq
  rw [EditorState.text, hrest, h.line.len_eq, List.take_left]

/-- An `Up` that is directly followed by a `Down` restores the line. -/
def EditorState.Restores (cfg : EditorConfig) (s : EditorState) : Prop :=
  ∃ s', s.handleChars cfg (upKey ++ downKey) = some (s', []) ∧ s'.text = s.text

theorem Session.typeAll_up_down (t : Session) :
    t.typeAll cfg (upKey ++ downKey) =
      (⟨⟨.nothing, false⟩, (t.editor.press cfg .up).press cfg .down⟩, []) :=
  rfl

/-- The line is the one that was shown before, or it is kept. -/
def Editor.ComesBack (e : Editor) : Prop :=
  e.pos = e.next ∨ e.history[e.pos]? = some e.line.text

theorem EditorState.Represents.restores_iff (h : s.Represents cfg t) :
    s.Restores cfg ↔ t.editor.ComesBack := by
  obtain ⟨s', hs', hrep⟩ := h.handleChars (upKey ++ downKey)
  rw [t.typeAll_up_down] at hs' hrep
  have hback : s.Restores cfg ↔ s'.text = s.text := by
    constructor
    · rintro ⟨s'', hs'', htext⟩
      obtain rfl := congrArg Prod.fst (Option.some.inj (hs'.symm.trans hs''))
      exact htext
    · exact fun htext => ⟨s', hs', htext⟩
  rw [hback, hrep.keeps.text_eq, h.keeps.text_eq]
  exact Editor.up_down_text h.keeps.pos_lt h.keeps.length_history

/-- **The line editor.**  For every sequence of characters the state stands for the session that
types them, the same lines are executed, and `Up` and `Down` restore the current line exactly if
it is kept or is already in the entry that is shown. -/
theorem handleChars_represents (cfg : EditorConfig) (cs : Bytes) :
    ∃ s, (EditorState.init cfg).handleChars cfg cs =
        some (s, ((Session.init cfg).typeAll cfg cs).2) ∧
      s.Represents cfg ((Session.init cfg).typeAll cfg cs).1 ∧
      (s.inputPos ≤ s.inputLen ∧ s.inputLen ≤ cfg.lineSize - 1) ∧
      ((((Session.init cfg).typeAll cfg cs).1.editor.recalled = false → s.Restores cfg) ↔
        (((Session.init cfg).typeAll cfg cs).1.editor.recalled = false →
          ((Session.init cfg).typeAll cfg cs).1.editor.ComesBack)) := by
  obtain ⟨s, hs, hrep⟩ := (EditorState.Represents.init cfg).handleChars cs
  have hline := hrep.keeps.line
  have hlt := hline.holds.length_lt
  refine ⟨s, hs, hrep, ⟨?_, ?_⟩, by rw [hrep.restores_iff]⟩
  · rw [hline.pos_eq, hline.len_eq, Line.text, List.length_append]
    exact Nat.le_add_right _ _
  · rw [hline.len_eq]
    omega

/-- A console with two lines of history. -/
def twoLines : EditorConfig := ⟨2, 8, by decide, by decide⟩

/-- `Up`, an empty line, and then `a`: nothing has been recalled since the line was begun, and
`Up` and `Down` lose it. -/
theorem not_restores_afterEmptyLine :
    ∃ s, (EditorState.init twoLines).handleChars twoLines (upKey ++ [0x0d, 0x61]) =
        some (s, [[]]) ∧ s.text = [0x61] ∧
      ((Session.init twoLines).typeAll twoLines (upKey ++ [0x0d, 0x61])).1.editor.recalled = false ∧
      ¬ s.Restores twoLines := by
  obtain ⟨s, hs, hrep⟩ :=
    (EditorState.Represents.init twoLines).handleChars (upKey ++ [0x0d, 0x61])
  refine ⟨s, hs, hrep.keeps.text_eq, rfl, ?_⟩
  rw [hrep.restores_iff]
  rintro (hpos | hentry)
  · cases hpos
  · cases hentry

end Console
end CrosEc
