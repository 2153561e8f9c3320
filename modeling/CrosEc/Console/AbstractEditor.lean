import CrosEc.Console.Editor

/-!
# What the line editor is for

A line is edited at a cursor.  Lines that have been ended are kept in a ring of lines, and so is the
unfinished line while another one is recalled.  A terminal sends keys as single characters or as
escape sequences, and everything else that it sends is ignored.
-/

namespace CrosEc
namespace Console

open Lib Util

/-! ## Keys -/

inductive Key where
  | char (c : UInt8)
  | enter
  | backspace
  | delete
  | home
  | left
  | endOfLine
  | right
  | kill
  | up
  | down
  | ignored
  deriving DecidableEq

/-- The key of a single character. -/
def keyOfChar (c : UInt8) : Key :=
  if c = 0x08 ∨ c = 0x7f then .backspace
  else if c = 0x0a then .enter
  else if c = 0x01 then .home
  else if c = 0x02 then .left
  else if c = 0x05 then .endOfLine
  else if c = 0x06 then .right
  else if c = 0x0b then .kill
  else if c = 0x10 then .up
  else if c = 0x0e then .down
  else if 0x20 ≤ c ∧ c ≤ 0x7e then .char c
  else .ignored

/-- The escape sequences, without the escape: `[A` to `[D`, `OF`, `[1~` and `[3~`. -/
def escSequences : List (Bytes × Key) :=
  [([0x5b, 0x41], .up), ([0x5b, 0x42], .down), ([0x5b, 0x43], .right), ([0x5b, 0x44], .left),
    ([0x4f, 0x46], .endOfLine), ([0x5b, 0x31, 0x7e], .home), ([0x5b, 0x33, 0x7e], .delete)]

/-- An escape sequence that has begun. -/
inductive Pending where
  | nothing
  /-- what may become one of the known sequences -/
  | known (read : Bytes)
  | unknown
  deriving DecidableEq

/-- An unknown sequence goes on to a letter or a tilde. -/
def Pending.unknownAfter (c : UInt8) : Pending :=
  if (0x41 ≤ c ∧ c ≤ 0x5a) ∨ (0x61 ≤ c ∧ c ≤ 0x7a) ∨ c = 0x7e then .nothing else .unknown

/-- A character that is not the escape, behind what is pending. -/
def Pending.next (c : UInt8) : Pending → Pending × Key
  | .nothing => (.nothing, keyOfChar c)
  | .known read =>
      if escSequences.any fun seq => seq.1 = read ++ [c] then
        (.nothing, (escSequences.lookup (read ++ [c])).getD .ignored)
      else if escSequences.any fun seq => (read ++ [c]).isPrefixOf seq.1 then
        (.known (read ++ [c]), .ignored)
      else (unknownAfter c, .ignored)
  | .unknown => (unknownAfter c, .ignored)

/-- A character.  The escape begins a sequence anew. -/
def Pending.read (c : UInt8) (p : Pending) : Pending × Key :=
  if c = 0x1b then (.known [], .ignored) else p.next c

/-- The terminal: a line ends at a carriage return, at a line feed, or at both in this order. -/
structure Decoder where
  pending : Pending
  lastWasCr : Bool

def Decoder.read (c : UInt8) (d : Decoder) : Decoder × Key :=
  if c = 0x0d then (⟨(d.pending.read 0x0a).1, true⟩, (d.pending.read 0x0a).2)
  else if c = 0x0a ∧ d.lastWasCr then (⟨d.pending, false⟩, .ignored)
  else (⟨(d.pending.read c).1, false⟩, (d.pending.read c).2)

/-! ## Lines -/

/-- A line with a cursor: what stands before it and what stands behind it. -/
structure Line where
  before : Bytes
  after : Bytes

namespace Line

def empty : Line := ⟨[], []⟩

def text (l : Line) : Bytes := l.before ++ l.after

def insert (c : UInt8) (l : Line) : Line := ⟨l.before ++ [c], l.after⟩

def backspace (l : Line) : Line := ⟨l.before.dropLast, l.after⟩

def delete (l : Line) : Line := ⟨l.before, l.after.tail⟩

def kill (l : Line) : Line := ⟨l.before, []⟩

def home (l : Line) : Line := ⟨[], l.text⟩

def endOfLine (l : Line) : Line := ⟨l.text, []⟩

def left (l : Line) : Line := ⟨l.before.dropLast, l.before.getLast?.toList ++ l.after⟩

def right (l : Line) : Line := ⟨l.before ++ l.after.head?.toList, l.after.tail⟩

end Line

/-! ## The editor -/

structure Editor where
  line : Line
  history : List Bytes
  /-- where the line will be kept when it has ended -/
  next : Nat
  /-- the entry that is shown; `next` stands for the unfinished line -/
  pos : Nat
  /-- whether an entry has been recalled since the line was begun -/
  recalled : Bool

namespace Editor

def init (cfg : EditorConfig) : Editor := ⟨.empty, List.replicate cfg.history [], 0, 0, false⟩

/-- The unfinished line is kept while an entry is shown. -/
def keep (e : Editor) : Editor :=
  if e.pos = e.next then { e with history := e.history.set e.next e.line.text } else e

def showEntry (pos : Nat) (e : Editor) : Editor :=
  { e with line := ⟨e.history.getD pos [], []⟩, pos, recalled := true }

/-- The line has ended. -/
def endLine (cfg : EditorConfig) (e : Editor) : Editor :=
  if e.line.text = [] then { e with line := .empty, recalled := false }
  else
    let next := (e.next + 1) % cfg.history
    ⟨.empty, e.history.set e.next e.line.text, next, next, false⟩

/-- The entry before `pos`, and the one behind it. -/
def previousPos (cfg : EditorConfig) (pos : Nat) : Nat :=
  if pos = 0 then cfg.history - 1 else pos - 1

def nextPos (cfg : EditorConfig) (pos : Nat) : Nat := if pos + 1 < cfg.history then pos + 1 else 0

def press (cfg : EditorConfig) (e : Editor) : Key → Editor
  | .char c =>
      if e.line.text.length < cfg.lineSize - 1 then { e with line := e.line.insert c } else e
  | .enter => e.endLine cfg
  | .backspace => { e with line := e.line.backspace }
  | .delete => { e with line := e.line.delete }
  | .home => { e with line := e.line.home }
  | .left => { e with line := e.line.left }
  | .endOfLine => { e with line := e.line.endOfLine }
  | .right => { e with line := e.line.right }
  | .kill => { e with line := e.line.kill }
  | .up => e.keep.showEntry (previousPos cfg e.pos)
  | .down => e.keep.showEntry (nextPos cfg e.pos)
  | .ignored => e

/-- The line that a key hands over for execution. -/
def executed (e : Editor) : Key → Option Bytes
  | .enter => some e.line.text
  | _ => none

end Editor

/-- The terminal and the editor. -/
structure Session where
  decoder : Decoder
  editor : Editor

namespace Session

def init (cfg : EditorConfig) : Session := ⟨⟨.nothing, false⟩, .init cfg⟩

/-- One character, with the line that is executed. -/
def type (cfg : EditorConfig) (c : UInt8) (t : Session) : Session × Option Bytes :=
  (⟨(t.decoder.read c).1, t.editor.press cfg (t.decoder.read c).2⟩,
    t.editor.executed (t.decoder.read c).2)

/-- Characters one after the other, and the lines that are executed. -/
def typeAll (cfg : EditorConfig) : Bytes → Session → Session × List Bytes
  | [], t => (t, [])
  | c :: cs, t =>
      let (t', lines) := typeAll cfg cs (t.type cfg c).1
      (t', (t.type cfg c).2.toList ++ lines)

end Session

/-- The characters of `Up` and `Down`. -/
def upKey : Bytes := [0x1b, 0x5b, 0x41]
def downKey : Bytes := [0x1b, 0x5b, 0x42]

/-! ## Up and down -/

variable {cfg : EditorConfig} {e : Editor}

theorem Editor.nextPos_previousPos {pos : Nat} (hpos : pos < cfg.history) :
    nextPos cfg (previousPos cfg pos) = pos := by
  unfold nextPos previousPos
  split <;> split <;> lia

theorem Editor.keep_history_of_ne (h : e.pos ≠ e.next) : e.keep = e := by
  rw [keep, if_neg h]

theorem Editor.keep_history_of_eq (h : e.pos = e.next) :
    e.keep.history = e.history.set e.next e.line.text := by
  rw [keep, if_pos h]

/-- An entry that is shown is kept as it is. -/
theorem Editor.getElem?_keep_showEntry {pos : Nat} (hpos : pos < e.history.length) (i : Nat) :
    (e.showEntry pos).keep.history[i]? = e.history[i]? := by
  by_cases h : pos = e.next
  · have hkept : (e.showEntry pos).keep.history = e.history.set pos e.history[pos] := by
      rw [keep_history_of_eq h, showEntry]
      simp [Line.text, h ▸ hpos, h]
    rw [hkept, List.set_getElem_self]
  · rw [keep_history_of_ne (show (e.showEntry pos).pos ≠ (e.showEntry pos).next from h)]
    rfl

@[simp] theorem Editor.length_keep_history (e : Editor) :
    e.keep.history.length = e.history.length := by
  rw [keep]
  split
  · exact List.length_set
  · rfl

/-- What is shown after both. -/
theorem Editor.up_down_line (hpos : e.pos < cfg.history) (hlen : e.history.length = cfg.history) :
    ((e.press cfg .up).press cfg .down).line = ⟨e.keep.history.getD e.pos [], []⟩ := by
  have hprev : previousPos cfg e.pos < e.keep.history.length := by
    rw [length_keep_history, hlen, previousPos]
    split <;> omega
  have hback : nextPos cfg (e.keep.showEntry (previousPos cfg e.pos)).pos = e.pos :=
    nextPos_previousPos hpos
  rw [press, press, hback, showEntry, List.getD_eq_getElem?_getD, getElem?_keep_showEntry hprev,
    ← List.getD_eq_getElem?_getD]

/-- **Up and then down.**  The line is back if it was kept, or if it is what the entry held that
was shown before. -/
theorem Editor.up_down_text (hpos : e.pos < cfg.history) (hlen : e.history.length = cfg.history) :
    ((e.press cfg .up).press cfg .down).line.text = e.line.text ↔
      e.pos = e.next ∨ e.history[e.pos]? = some e.line.text := by
  have hlt : e.pos < e.history.length := hlen.symm ▸ hpos
  rw [up_down_line hpos hlen, Line.text, List.append_nil]
  by_cases h : e.pos = e.next
  · refine iff_of_true ?_ (Or.inl h)
    rw [keep_history_of_eq h, ← h, List.getD_eq_getElem?_getD, List.getElem?_set_self hlt,
      Option.getD_some]
  · rw [keep_history_of_ne h, List.getD_eq_getElem?_getD, List.getElem?_eq_getElem hlt]
    simp [h]

end Console
end CrosEc
