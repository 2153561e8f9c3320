import CrosEc.Cbi.Model
import CrosEc.Console.Commands
import CrosEc.Console.Editor

/-!
# `common/console.c`: the packet console

`handle_command` and `console_handle_char` with `CONFIG_EXPERIMENTAL_CONSOLE`.  A line is a packet:
one or two ampersands, four hexadecimal digits with the length and the CRC-8 of the command, one
more character, and the command.  There is no line editor and no history, so the cursor is always
at the end of the line.

An access outside of `input_buf` has no result.  What `crc8` is called on is recorded.
-/

namespace CrosEc
namespace Console

open Lib Util

variable {η : Type}

/-! ## The code -/

/-- `EC_SYN` -/
def ecSyn : UInt8 := 0xEC

/-- `CONFIG_CONSOLE_INPUT_LINE_SIZE` and the command table -/
structure PacketConfig (η : Type) where
  lineSize : Nat
  lineSize_pos : 0 < lineSize
  cmds : List (ConsoleCommand η)

/-- A string in memory. -/
def stringAt (mem : Bytes) (i : Nat) : Bytes := (mem.drop i).takeWhile fun c => c ≠ 0

/-- What `handle_command` has done with a line. -/
structure Handled (η : Type) where
  /-- `input_len` -/
  inputLen : Nat
  /-- the first place and the number of bytes that `crc8` is called on -/
  crc : Option (Nat × Int)
  /-- the command that is run, and `argv` -/
  ran : Option (ConsoleCommand η × List Nat)
  input : Bytes

/-- The words from `i` on, and the command that they name. -/
def runWords (cmds : List (ConsoleCommand η)) (input : Bytes) (i : Nat) :
    Option (Bytes × Option (ConsoleCommand η × List Nat)) :=
  (splitWords (input.drop i)).map fun w =>
    let argv := w.argv.take w.argc
    -- If no command, nothing to do.
    (input.take i ++ w.input, argv.head?.bind fun first =>
      (findCommand cmds (stringAt w.input first)).map fun cmd => (cmd, argv.map fun p => i + p))

/-- `handle_command` from the digits on, which start at `i` -/
def handlePacket (cmds : List (ConsoleCommand η)) (inputLen : Nat) (input : Bytes) (i : Nat) :
    Option (Handled η) := do
  -- Replace the '&' with null so we can call strtoi().
  let input ← poke input (i + 4) 0
  let (j, e) ← strtoi (input.drop i) 16#32
  let last ← e.head?
  if last ≠ 0 then some ⟨inputLen, none, none, input⟩
  else
    -- command length = XX, CRC8 = YY
    let commandLen : Int := (j.sshiftRight 8).toInt
    let packedCrc8 := UInt8.ofBitVec (j.setWidth 8)
    let i := i + 5
    -- Lastly, verify the CRC8 of the command.
    if inputLen < i + commandLen then some ⟨inputLen, none, none, input⟩
    else if packedCrc8 ≠ Cbi.crc8Arg ((input.drop i).take commandLen.toNat) 0 then
      some ⟨inputLen, some (i, commandLen), none, input⟩
    else do
      let (input, ran) ← runWords cmds input i
      some ⟨inputLen, some (i, commandLen), ran, input⟩

/-- `handle_command` -/
def handleCommand (cmds : List (ConsoleCommand η)) (inputLen : Nat) (input : Bytes) :
    Option (Handled η) :=
  -- There's nothing to do if the buffer is empty.
  if inputLen = 0 then some ⟨inputLen, none, none, input⟩
  else if inputLen < 2 ∨
      (input.getD 0 0 ≠ '&'.toUInt8 ∧ input.getD 1 0 ≠ '&'.toUInt8) then
    some ⟨inputLen, none, none, input⟩
  else
    let i := if input.getD 1 0 = '&'.toUInt8 then 2 else 1
    -- Next, there should be 4 hex digits: XXYY + '&'
    if inputLen < i + 5 then some ⟨inputLen, none, none, input⟩
    else handlePacket cmds inputLen input i

/-- The static variables. -/
structure PacketState where
  inputBuf : Bytes
  inputLen : Nat
  inputPos : Nat
  lastRxWasCr : Bool

namespace PacketState

def init (cfg : PacketConfig η) : PacketState := ⟨List.replicate cfg.lineSize 0, 0, 0, false⟩

/-- `switch (c)` -/
def handleKey (cfg : PacketConfig η) (c : UInt8) (s : PacketState) :
    Option (PacketState × Option (Handled η)) :=
  if c = '\n'.toUInt8 then do
    let h ← handleCommand cfg.cmds s.inputLen s.inputBuf
    -- Start new line.
    let buf ← poke h.input 0 0
    some ({ s with inputPos := 0, inputLen := 0, inputBuf := buf }, some h)
  -- Ignore non-printing characters.
  else if isprint c.toNat = false then some (s, none)
  else
    (insertAt s.inputBuf s.inputLen s.inputPos c).map fun buf =>
      ({ s with inputBuf := buf, inputPos := s.inputPos + 1, inputLen := s.inputLen + 1 }, none)

/-- `console_handle_char` -/
def handleChar (cfg : PacketConfig η) (c : UInt8) (s : PacketState) :
    Option (PacketState × Option (Handled η)) :=
  if c = ecSyn then some (s, none)
  -- Translate CR and CRLF to LF (newline).
  else if c = '\r'.toUInt8 then { s with lastRxWasCr := true }.handleKey cfg '\n'.toUInt8
  else if c = '\n'.toUInt8 ∧ s.lastRxWasCr then some ({ s with lastRxWasCr := false }, none)
  else { s with lastRxWasCr := false }.handleKey cfg c

/-- Characters one after the other, and what is done with the lines. -/
def handleChars (cfg : PacketConfig η) :
    Bytes → PacketState → Option (PacketState × List (Handled η))
  | [], s => some (s, [])
  | c :: cs, s => do
      let (s, h) ← s.handleChar cfg c
      let (s, hs) ← s.handleChars cfg cs
      some (s, h.toList ++ hs)

end PacketState

/-! ## What it is for -/

/-- `crc8` is called on bytes of the line only. -/
def Handled.CrcInside (h : Handled η) : Prop :=
  ∀ start len, h.crc = some (start, len) → 0 ≤ len ∧ start + len ≤ h.inputLen

/-- A command gets words of the bytes that `crc8` has been called on, and of no others. -/
def Handled.ExecutesChecked (h : Handled η) : Prop :=
  ∀ cmd argv, h.ran = some (cmd, argv) → ∃ start len, h.crc = some (start, len) ∧
    ∀ i ∈ argv, start ≤ i ∧ i + (stringAt h.input i).length ≤ start + len

/-- The characters received so far: the lines that have ended, and the one that has not. -/
structure Received where
  lines : List Bytes
  line : Bytes
  lastWasCr : Bool

def Received.init : Received := ⟨[], [], false⟩

/-- One more character.  A line ends at a carriage return, at a line feed, or at both in this order;
the handshake and what does not print are no part of it. -/
def Received.next (t : Received) (c : UInt8) : Received :=
  if c = ecSyn then t
  else if c = 0x0d then ⟨t.lines ++ [t.line], [], true⟩
  else if c = 0x0a ∧ t.lastWasCr then { t with lastWasCr := false }
  else if c = 0x0a then ⟨t.lines ++ [t.line], [], false⟩
  else if 0x20 ≤ c ∧ c ≤ 0x7e then ⟨t.lines, t.line ++ [c], false⟩
  else { t with lastWasCr := false }

/-- Where the command of a packet starts. -/
def commandStart (line : Bytes) : Nat := if line.getD 1 0 = '&'.toUInt8 then 7 else 6

/-- The length and the CRC-8 of a packet as one number: what `strtoi` reads from its four digits,
if it reads all of them. -/
def packetHeader (line : Bytes) : Option Nat :=
  if 2 ≤ line.length ∧ (line.getD 0 0 = '&'.toUInt8 ∨ line.getD 1 0 = '&'.toUInt8) ∧
      commandStart line ≤ line.length then
    (strtoi ((line.drop (commandStart line - 5)).take 4 ++ [0]) 16#32).bind fun r =>
      if r.2.head? = some 0 then some r.1.toNat else none
  else none

/-- The words name a command. -/
def NamesCommand (cmds : List (ConsoleCommand η)) (body : Bytes) : Prop :=
  ∃ first, (countedWords body).head? = some first ∧ (findCommand cmds first.2).isSome = true

/-- A line with the right CRC that names a command and has a word, one of those that are counted,
behind or across the end of the bytes that the CRC is of. -/
def RunsUnchecked (cmds : List (ConsoleCommand η)) (line : Bytes) : Prop :=
  ∃ x, packetHeader line = some x ∧ commandStart line + x / 256 ≤ line.length ∧
    Cbi.crc8Arg ((line.drop (commandStart line)).take (x / 256)) 0 = UInt8.ofNat x ∧
    NamesCommand cmds (line.drop (commandStart line)) ∧
    ∃ word ∈ countedWords (line.drop (commandStart line)), x / 256 < word.1 + word.2.length

end Console
end CrosEc
