import CrosEc.Console.Words

/-!
# `common/console.c`: the line editor

`console_handle_char` without `CONFIG_EXPERIMENTAL_CONSOLE` and with `CONFIG_CONSOLE_HISTORY`, and
the functions it calls, on the static variables of the file.  What is printed is left out.

An access outside of its buffer has no result.  A step also says which line is handed to
`handle_command`, if it is the end of one; `split_words` changes the buffer there.
-/

namespace CrosEc
namespace Console

open Lib Util

/-- `CONFIG_CONSOLE_HISTORY` and `CONFIG_CONSOLE_INPUT_LINE_SIZE` -/
structure EditorConfig where
  history : Nat
  lineSize : Nat
  history_pos : 0 < history
  lineSize_pos : 0 < lineSize

/-- State of input escape code -/
inductive EscState where
  | outside
  /-- Got ESC -/
  | start
  /-- Bad escape sequence -/
  | bad
  /-- Got ESC [ -/
  | bracket
  /-- Got ESC [ 1 -/
  | bracket1
  /-- Got ESC [ 3 -/
  | bracket3
  /-- Got ESC O -/
  | o
  deriving DecidableEq

/-- The static variables. -/
structure EditorState where
  history : List Bytes
  historyNext : Nat
  historyPos : Nat
  inputBuf : Bytes
  inputLen : Nat
  inputPos : Nat
  lastRxWasCr : Bool
  escState : EscState

/-- The state after `console_init`. -/
def EditorState.init (cfg : EditorConfig) : EditorState where
  history := List.replicate cfg.history (List.replicate cfg.lineSize 0)
  historyNext := 0
  historyPos := 0
  inputBuf := List.replicate cfg.lineSize 0
  inputLen := 0
  inputPos := 0
  lastRxWasCr := false
  escState := .outside

/-! ## Characters -/

/-- Extended key code values, from multi-byte escape sequences -/
def keyUpArrow : Int := 0x100
def keyDownArrow : Int := 0x101
def keyRightArrow : Int := 0x102
def keyLeftArrow : Int := 0x103
def keyEnd : Int := 0x104
def keyHome : Int := 0x105
def keyDel : Int := 0x106

/-- A character constant. -/
def charCode (c : Char) : Int := c.toNat

/-- `CTRL(c)` -/
def ctrl (c : Char) : Int := charCode c - charCode '@'

def isalpha (c : Int) : Bool :=
  (charCode 'A' ≤ c && c ≤ charCode 'Z') || (charCode 'a' ≤ c && c ≤ charCode 'z')

def isprint (c : Int) : Bool := charCode ' ' ≤ c && c ≤ charCode '~'

theorem toNat_ne {c d : UInt8} (h : c ≠ d) : (c.toNat : Int) ≠ d.toNat := fun heq =>
  h (UInt8.toNat_inj.mp (Int.ofNat_inj.mp heq))

theorem isprint_iff (c : UInt8) : isprint c.toNat = true ↔ 0x20 ≤ c ∧ c ≤ 0x7e := by
  have hlow : charCode ' ' = 32 := rfl
  have hhigh : charCode '~' = 126 := rfl
  rw [isprint, hlow, hhigh, UInt8.le_iff_toNat_le, UInt8.le_iff_toNat_le, Bool.and_eq_true,
    decide_eq_true_eq, decide_eq_true_eq]
  have h20 : (0x20 : UInt8).toNat = 32 := rfl
  have h7e : (0x7e : UInt8).toNat = 126 := rfl
  omega

/-! ## Memory -/

/-- `buf[i] = c` -/
def poke (buf : Bytes) (i : Nat) (c : UInt8) : Option Bytes :=
  if i < buf.length then some (buf.set i c) else none

/-- `memmove(buf + dst, buf + src, len)` -/
def memmove (buf : Bytes) (dst src len : Nat) : Option Bytes :=
  if src + len ≤ buf.length ∧ dst + len ≤ buf.length then some (moveWithin buf dst src len)
  else none

/-- The characters that the loop of `strzcpy` copies. -/
def strzcpyText : Bytes → Nat → Option Bytes
  | _, 0 => some []
  | _, 1 => some []
  | [], _ + 2 => none
  | c :: src, len + 2 => if c = 0 then some [] else (strzcpyText src (len + 1)).map (c :: ·)

/-- `strzcpy(dest, src, len)` of `common/util.c` -/
def strzcpy (dest src : Bytes) (len : Nat) : Option Bytes :=
  if len = 0 then some dest
  else
    (strzcpyText src len).bind fun text =>
      if text.length < dest.length then some (writeAt dest 0 (text ++ [0])) else none

/-- `strlen` -/
def strlen (buf : Bytes) : Option Nat :=
  if 0 ∈ buf then some (buf.takeWhile fun c => c ≠ 0).length else none

theorem poke_append (pre post : Bytes) (x c : UInt8) {i : Nat} (hi : i = pre.length) :
    poke (pre ++ x :: post) i c = some (pre ++ c :: post) := by
  subst hi
  rw [poke, if_pos (by simp), List.set_append_right _ _ (le_refl _), Nat.sub_self,
    List.set_cons_zero]

/-- If not at end of line, move the rest down. -/
def moveRestDown (buf : Bytes) (inputLen inputPos : Nat) : Option Bytes :=
  if inputPos ≠ inputLen then memmove buf (inputPos + 1) inputPos (inputLen - inputPos + 1)
  else some buf

/-- Add character to buffer and terminate it. -/
def insertAt (buf : Bytes) (inputLen inputPos : Nat) (c : UInt8) : Option Bytes := do
  let buf ← moveRestDown buf inputLen inputPos
  let buf ← poke buf inputPos c
  poke buf (inputLen + 1) 0

/-! ## Moving and editing -/

namespace EditorState

/-- `move_cursor_right` -/
def moveCursorRight (s : EditorState) : EditorState :=
  if s.inputPos = s.inputLen then s else { s with inputPos := s.inputPos + 1 }

/-- `move_cursor_end` -/
def moveCursorEnd (s : EditorState) : EditorState :=
  if s.inputPos = s.inputLen then s else { s with inputPos := s.inputLen }

/-- `move_cursor_left` -/
def moveCursorLeft (s : EditorState) : EditorState :=
  if s.inputPos = 0 then s else { s with inputPos := s.inputPos - 1 }

/-- `move_cursor_begin` -/
def moveCursorBegin (s : EditorState) : EditorState :=
  if s.inputPos = 0 then s else { s with inputPos := 0 }

/-- `load_history` -/
def loadHistory (cfg : EditorConfig) (idx : Nat) (s : EditorState) : Option EditorState := do
  let line ← s.history[idx]?
  let buf ← strzcpy s.inputBuf line cfg.lineSize
  let s := { s with inputBuf := buf }.moveCursorBegin
  let pos ← strlen buf
  some { s with inputPos := pos, inputLen := pos }

/-- `save_history` -/
def saveHistory (cfg : EditorConfig) (s : EditorState) : Option EditorState := do
  let slot ← s.history[s.historyNext]?
  let slot ← strzcpy slot s.inputBuf cfg.lineSize
  some { s with history := s.history.set s.historyNext slot }

/-- `handle_backspace` -/
def handleBackspace (s : EditorState) : Option EditorState :=
  if s.inputPos = 0 then some s
  else
    let buf :=
      if s.inputPos ≠ s.inputLen then
        memmove s.inputBuf (s.inputPos - 1) s.inputPos (s.inputLen - s.inputPos + 1)
      else poke s.inputBuf (s.inputLen - 1) 0
    buf.map fun buf =>
      { s with inputBuf := buf, inputLen := s.inputLen - 1, inputPos := s.inputPos - 1 }

/-- The end of `handle_esc`: check if the escape code is done. -/
def escDone (c : Int) (s : EditorState) : Int × EditorState :=
  (-1, { s with escState := if isalpha c || c = charCode '~' then .outside else .bad })

/-- `handle_esc`: the key code, or -1 if the character was eaten -/
def handleEsc (c : Int) (s : EditorState) : Int × EditorState :=
  match s.escState with
  | .start =>
      if c = charCode '[' then (-1, { s with escState := .bracket })
      else if c = charCode 'O' then (-1, { s with escState := .o })
      else s.escDone c
  | .bracket =>
      if c = charCode '1' then (-1, { s with escState := .bracket1 })
      else if c = charCode '3' then (-1, { s with escState := .bracket3 })
      else if c = charCode 'A' then (keyUpArrow, s)
      else if c = charCode 'B' then (keyDownArrow, s)
      else if c = charCode 'C' then (keyRightArrow, s)
      else if c = charCode 'D' then (keyLeftArrow, s)
      else s.escDone c
  | .o => if c = charCode 'F' then (keyEnd, s) else s.escDone c
  | .bracket1 => if c = charCode '~' then (keyHome, s) else s.escDone c
  | .bracket3 => if c = charCode '~' then (keyDel, s) else s.escDone c
  | _ => s.escDone c

/-- Save command in history buffer. -/
def saveCommand (cfg : EditorConfig) (s : EditorState) : Option EditorState :=
  if s.inputLen ≠ 0 then
    (s.saveHistory cfg).map fun s =>
      let next := (s.historyNext + 1) % cfg.history
      { s with historyNext := next, historyPos := next }
  else some s

/-- `case '\n'`, with the line for `handle_command` -/
def newline (cfg : EditorConfig) (s : EditorState) : Option (EditorState × Option Bytes) := do
  let s ← s.saveCommand cfg
  -- Handle command.
  let w ← splitWords s.inputBuf
  -- Start new line.
  let buf ← poke w.input 0 0
  some ({ s with inputPos := 0, inputLen := 0, inputBuf := buf },
    some (s.inputBuf.takeWhile fun c => c ≠ 0))

/-- `if (history_pos == history_next) save_history();` -/
def saveUnfinished (cfg : EditorConfig) (s : EditorState) : Option EditorState :=
  if s.historyPos = s.historyNext then s.saveHistory cfg else some s

/-- `case KEY_UP_ARROW` -/
def historyPrevious (cfg : EditorConfig) (s : EditorState) : Option EditorState := do
  let s ← s.saveUnfinished cfg
  let pos : Int := s.historyPos - 1
  let pos := if pos < 0 then cfg.history - 1 else pos.toNat
  { s with historyPos := pos }.loadHistory cfg pos

/-- `case KEY_DOWN_ARROW` -/
def historyForward (cfg : EditorConfig) (s : EditorState) : Option EditorState := do
  let s ← s.saveUnfinished cfg
  let pos := if cfg.history ≤ s.historyPos + 1 then 0 else s.historyPos + 1
  { s with historyPos := pos }.loadHistory cfg pos

/-- The end of `default`: a printing character and a line that is not full -/
def insertChar (c : UInt8) (s : EditorState) : Option EditorState :=
  (insertAt s.inputBuf s.inputLen s.inputPos c).map fun buf =>
    { s with inputBuf := buf, inputPos := s.inputPos + 1, inputLen := s.inputLen + 1 }

/-- Kill to end of line. -/
def killToEnd (s : EditorState) : Option EditorState :=
  if s.inputPos = s.inputLen then some s
  else do
    let buf ← poke s.inputBuf s.inputPos 0
    some { s with inputBuf := buf, inputLen := s.inputPos }

/-- `switch (c)` -/
def handleKey (cfg : EditorConfig) (c : Int) (s : EditorState) :
    Option (EditorState × Option Bytes) :=
  if c = keyDel then
    if s.inputPos = s.inputLen then some (s, none)
    else s.moveCursorRight.handleBackspace.map fun s => (s, none)
  else if c = 0x08 ∨ c = 0x7f then s.handleBackspace.map fun s => (s, none)
  else if c = charCode '\n' then s.newline cfg
  else if c = ctrl 'A' ∨ c = keyHome then some (s.moveCursorBegin, none)
  else if c = ctrl 'B' ∨ c = keyLeftArrow then some (s.moveCursorLeft, none)
  else if c = ctrl 'E' ∨ c = keyEnd then some (s.moveCursorEnd, none)
  else if c = ctrl 'F' ∨ c = keyRightArrow then some (s.moveCursorRight, none)
  else if c = ctrl 'K' then s.killToEnd.map fun s => (s, none)
  -- Reprint current
  else if c = ctrl 'L' then some (s, none)
  else if c = ctrl 'P' ∨ c = keyUpArrow then (s.historyPrevious cfg).map fun s => (s, none)
  else if c = ctrl 'N' ∨ c = keyDownArrow then (s.historyForward cfg).map fun s => (s, none)
  -- Ignore non-printing characters
  else if isprint c = false then some (s, none)
  -- Ignore if line is full (leaving room for terminating null)
  else if cfg.lineSize - 1 ≤ s.inputLen then some (s, none)
  else (s.insertChar (UInt8.ofNat c.toNat)).map fun s => (s, none)

/-- Terminal escape sequences, and then the key. -/
def handleEscOrKey (cfg : EditorConfig) (c : Int) (s : EditorState) :
    Option (EditorState × Option Bytes) :=
  if c = 0x1b then some ({ s with escState := .start }, none)
  else if s.escState ≠ .outside then
    let (c, s) := s.handleEsc c
    let s := if c ≠ -1 then { s with escState := .outside } else s
    s.handleKey cfg c
  else s.handleKey cfg c

/-- `console_handle_char` -/
def handleChar (cfg : EditorConfig) (c : UInt8) (s : EditorState) :
    Option (EditorState × Option Bytes) :=
  let c : Int := c.toNat
  -- Translate CR and CRLF to LF (newline).
  if c = charCode '\r' then { s with lastRxWasCr := true }.handleEscOrKey cfg (charCode '\n')
  else if c = charCode '\n' ∧ s.lastRxWasCr then some ({ s with lastRxWasCr := false }, none)
  else { s with lastRxWasCr := false }.handleEscOrKey cfg c

/-- Characters one after the other, and the lines for `handle_command` in their order. -/
def handleChars (cfg : EditorConfig) : Bytes → EditorState → Option (EditorState × List Bytes)
  | [], s => some (s, [])
  | c :: cs, s => do
      let (s, line) ← s.handleChar cfg c
      let (s, lines) ← s.handleChars cfg cs
      some (s, line.toList ++ lines)

end EditorState

end Console
end CrosEc
