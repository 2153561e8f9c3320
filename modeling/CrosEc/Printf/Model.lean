import CrosEc.Common
import CrosEc.Util.Divmod
import CrosEc.Util.Strtoi

/-!
# `common/printf.c`

`vfnprintf` goes through its format one directive at a time: an ordinary character, or a `%` with
flags, widths and a conversion.  All it reads of the format and of its arguments for a directive it
reads before the first character of it is put out, so that a directive is scanned first (`scan`) and
its characters follow (`Directive.output`).

A format is a list of bytes up to its terminating NUL, and there is nothing behind it: to read on
has no result.  Numbers are converted backwards into `intbuf`, of 34 bytes; the model keeps the
offset of every byte that is written through `vstr`, and lets a conversion that leaves the buffer
go on.

This is the code as it is built without `CONFIG_DEBUG_PRINTF`, and for a `char` without sign.
-/

namespace CrosEc
namespace Printf

open Lib Util

/-! ## What a call is given -/

/-- The build's options. -/
structure Config where
  printfLegacyLiFormat : Bool
  consoleVerbose : Bool

/-- The arguments of a call, and the clock: `va_arg` of each type takes the next one.  `%s` is given
the bytes before the NUL of a string, or the null pointer, and `%h` is given memory. -/
structure VaList (α : Type) where
  int : α → BitVec 32 × α
  uint32 : α → BitVec 32 × α
  uint64 : α → BitVec 64 × α
  string : α → Option Bytes × α
  data : α → (Nat → UInt8) × α
  getTime : α → BitVec 64 × α

variable {α γ : Type}

def errorStr : Bytes :=
  ['E'.toUInt8, 'R'.toUInt8, 'R'.toUInt8, 'O'.toUInt8, 'R'.toUInt8, 0]

/-- `MAX_FORMAT` -/
def maxFormat : Int := 1024

structure Flags where
  left : Bool
  padzero : Bool
  sign : Bool
  is64bit : Bool

/-! ## Numbers -/

/-- What `switch (c)` makes of a number.  No sign is 0. -/
structure Number where
  sign : UInt8
  base : BitVec 32
  v : BitVec 64

/-- `case 'd'` -/
def signed (flags : Flags) (v : BitVec 64) : Number :=
  let plus : UInt8 := if flags.sign then '+'.toUInt8 else 0
  if flags.is64bit then
    if v.toInt < 0 then ⟨'-'.toUInt8, 10#32, if v ≠ 1#64 <<< 63 then -v else v⟩
    else ⟨plus, 10#32, v⟩
  else
    let int := v.setWidth 32
    if int.toInt < 0 then
      ⟨'-'.toUInt8, 10#32, if v ≠ 1#64 <<< 31 then (-int).signExtend 64 else v⟩
    else ⟨plus, 10#32, v⟩

/-- `switch (c)`, with nothing for `default` -/
def convert (config : Config) (c : UInt8) (flags : Flags) (v : BitVec 64) : Option Number :=
  if config.printfLegacyLiFormat ∧ c = 'i'.toUInt8 then
    -- force 32-bit for compatibility
    some (signed { flags with is64bit := false } v)
  else if c = 'd'.toUInt8 then some (signed flags v)
  else if c = 'u'.toUInt8 ∨ c = 'T'.toUInt8 then some ⟨0, 10#32, v⟩
  else if c = 'X'.toUInt8 ∨ c = 'x'.toUInt8 ∨ c = 'p'.toUInt8 then some ⟨0, 16#32, v⟩
  else if c = 'b'.toUInt8 then some ⟨0, 2#32, v⟩
  else none

/-- `intbuf`: the offset of `vstr`, the text from there to the NUL, and the offsets written. -/
structure IntBuf where
  vstr : Int
  text : Bytes
  writes : List Int

/-- `sizeof(intbuf)` -/
def intbufSize : Int := 34

/-- `vstr = intbuf + sizeof(intbuf) - 1; *(vstr) = '\0';` -/
def IntBuf.init : IntBuf := ⟨intbufSize - 1, [], [intbufSize - 1]⟩

/-- `*(--vstr) = c` -/
def IntBuf.push (b : IntBuf) (c : UInt8) : IntBuf :=
  ⟨b.vstr - 1, c :: b.text, (b.vstr - 1) :: b.writes⟩

/-- The character of a digit. -/
def digitChar (upper : Bool) (digit : BitVec 32) : UInt8 :=
  if digit.toInt < 10 then ⟨(charInt '0'.toUInt8 + digit).setWidth 8⟩
  else if upper then ⟨(charInt 'A'.toUInt8 + digit - 10#32).setWidth 8⟩
  else ⟨(charInt 'a'.toUInt8 + digit - 10#32).setWidth 8⟩

/-- The digits to the right of the point. -/
def fractionDigits : Nat → BitVec 64 → IntBuf → BitVec 64 × IntBuf
  | 0, v, b => (v, b)
  | precision + 1, v, b =>
      let (v, digit) := uint64divmod v 10#32
      fractionDigits precision v (b.push ⟨(charInt '0'.toUInt8 + digit).setWidth 8⟩)

/-- `while (v)`, with a bound on its rounds. -/
def digits (upper : Bool) (base : BitVec 32) : Nat → BitVec 64 → IntBuf → IntBuf
  | 0, _, b => b
  | rounds + 1, v, b =>
      if v = 0#64 then b
      else
        let (v, digit) := uint64divmod v base
        digits upper base rounds v (b.push (digitChar upper digit))

/-- The number as it stands in `intbuf`. -/
def Number.write (n : Number) (upper : Bool) (precision : Nat) : IntBuf :=
  -- leave space for "0." and the terminating null
  let precision := if 34 - 3 < precision then 34 - 3 else precision
  let (v, b) := fractionDigits precision n.v IntBuf.init
  let b := if precision ≠ 0 then b.push '.'.toUInt8 else b
  let b := if v = 0#64 then b.push '0'.toUInt8 else b
  -- a number of 64 bits has no more than 64 digits
  let b := digits upper n.base 64 v b
  if n.sign ≠ 0 then b.push n.sign else b

/-! ## Directives -/

inductive Directive where
  /-- one character: of the format, `%%` or `%c` -/
  | plain (c : BitVec 32)
  | string (flags : Flags) (padWidth precision : Nat) (vstr : Bytes)
  | hexDump (precision : Nat) (data : Nat → UInt8)
  | number (flags : Flags) (padWidth precision : Nat) (upper : Bool) (n : Number)
  /-- `format = error_str` -/
  | error

/-- `c = *format++` -/
def next : Bytes → Option (UInt8 × Bytes)
  | [] => none
  | c :: format => some (c, format)

/-- A flag, if it is there. -/
def scanFlag (flag c : UInt8) (format : Bytes) : Option (Bool × UInt8 × Bytes) :=
  if c = flag then do
    let (c, format) ← next format
    return (true, c, format)
  else some (false, c, format)

/-- `c >= '0' && c <= '9'` -/
def isDigit (c : UInt8) : Bool := '0'.toUInt8 ≤ c && c ≤ '9'.toUInt8

/-- `while (c >= '0' && c <= '9')` -/
def scanDigits (width : BitVec 32) : UInt8 → Bytes → Option (BitVec 32 × UInt8 × Bytes)
  | c, [] => if isDigit c then none else some (width, c, [])
  | c, c' :: format =>
      if isDigit c then scanDigits (10#32 * width + charInt c - charInt '0'.toUInt8) c' format
      else some (width, c, c' :: format)

/-- A width: `*` or digits. -/
def scanWidth (va : VaList α) (c : UInt8) (format : Bytes) (args : α) :
    Option (BitVec 32 × UInt8 × Bytes × α) :=
  if c = '*'.toUInt8 then do
    let (width, args) := va.int args
    let (c, format) ← next format
    return (width, c, format, args)
  else do
    let (width, c, format) ← scanDigits 0#32 c format
    return (width, c, format, args)

/-- A precision: `.` and a width. -/
def scanPrecision (va : VaList α) (c : UInt8) (format : Bytes) (args : α) :
    Option (BitVec 32 × UInt8 × Bytes × α) :=
  if c = '.'.toUInt8 then do
    let (c, format) ← next format
    scanWidth va c format args
  else some (0#32, c, format, args)

/-- The sanity check of a width or a precision. -/
def insane (width : BitVec 32) : Bool := width.toInt < 0 || maxFormat < width.toInt

/-- The value of a number, with its flags and its precision. -/
def numberArg (config : Config) (va : VaList α) (flags : Flags) (precision : Nat) (c : UInt8)
    (args : α) : Flags × Nat × BitVec 64 × α :=
  -- special case: %T = current time
  if c = 'T'.toUInt8 then
    let (v, args) := va.getTime args
    let flags := { flags with is64bit := true }
    if config.consoleVerbose then (flags, 6, v, args) else (flags, 3, v / 1000#64, args)
  else if flags.is64bit then
    let (v, args) := va.uint64 args
    (flags, precision, v, args)
  else
    let (v, args) := va.uint32 args
    (flags, precision, v.setWidth 64, args)

/-- A number, from its length on. -/
def scanNumber (config : Config) (va : VaList α) (flags : Flags) (padWidth precision : Nat)
    (c : UInt8) (format : Bytes) (args : α) : Option (Directive × Bytes × α) := do
  let (is64bit, c, format) ← scanFlag 'l'.toUInt8 c format
  let (flags, precision, v, args) :=
    numberArg config va { flags with is64bit := is64bit } precision c args
  match convert config c flags v with
  | some n => return (.number flags padWidth precision (c = 'X'.toUInt8) n, format, args)
  | none => return (.error, errorStr, args)

/-- The conversion, after widths and flags. -/
def scanConversion (config : Config) (va : VaList α) (flags : Flags) (padWidth precision : Nat)
    (c : UInt8) (format : Bytes) (args : α) : Option (Directive × Bytes × α) :=
  if c = 's'.toUInt8 then
    let (vstr, args) := va.string args
    let vstr := vstr.getD ("(NULL)".toList.map Char.toUInt8)
    some (.string flags padWidth precision vstr, format, args)
  else if c = 'h'.toUInt8 then
    let (data, args) := va.data args
    -- a hex dump requires precision
    if precision = 0 then some (.error, errorStr, args)
    else some (.hexDump precision data, format, args)
  else scanNumber config va flags padWidth precision c format args

/-- A format, after its flags. -/
def scanWidths (config : Config) (va : VaList α) (flags : Flags) (c : UInt8) (format : Bytes)
    (args : α) : Option (Directive × Bytes × α) := do
  let (padWidth, c, format, args) ← scanWidth va c format args
  if insane padWidth then return (.error, errorStr, args)
  else
    let (precision, c, format, args) ← scanPrecision va c format args
    if insane precision then return (.error, errorStr, args)
    else scanConversion config va flags padWidth.toNat precision.toNat c format args

/-- The flags, in the order in which they may stand. -/
def scanFlags (config : Config) (va : VaList α) (c : UInt8) (format : Bytes) (args : α) :
    Option (Directive × Bytes × α) := do
  let (left, c, format) ← scanFlag '-'.toUInt8 c format
  let (sign, c, format) ← scanFlag '+'.toUInt8 c format
  let (padzero, c, format) ← scanFlag '0'.toUInt8 c format
  scanWidths config va ⟨left, padzero, sign, false⟩ c format args

/-- One directive, whose first character is `c`: what it is, and what is left of the format and of
the arguments. -/
def scan (config : Config) (va : VaList α) (c : UInt8) (format : Bytes) (args : α) :
    Option (Directive × Bytes × α) :=
  if c ≠ '%'.toUInt8 then some (.plain (charInt c), format, args)
  else do
    let (c, format) ← next format
    if c = '%'.toUInt8 ∨ c = 0 then return (.plain (charInt '%'.toUInt8), format, args)
    else if c = 'c'.toUInt8 then
      let (c, args) := va.int args
      return (.plain c, format, args)
    else scanFlags config va c format args

/-! ## Output -/

def hexdigit (c : BitVec 32) : BitVec 32 :=
  let c := c &&& 0x0f#32
  if 9 < c.toInt then c + charInt 'a'.toUInt8 - 10#32 else c + charInt '0'.toUInt8

def strlen (s : Bytes) : Nat := (s.takeWhile (· ≠ 0)).length

/-- `vstr` with its padding. -/
def copyString (flags : Flags) (padWidth precision : Nat) (vstr : Bytes) : List (BitVec 32) :=
  let vlen := (BitVec.ofNat 32 (strlen vstr)).toInt
  -- no padding to wider than the precision
  let padWidth : Int := if 0 < precision ∧ precision < padWidth then precision else padWidth
  -- if precision is zero, everything is printed
  let precision : Int := if precision = 0 then max vlen padWidth else precision
  let text := ((vstr.takeWhile (· ≠ 0)).take precision.toNat).map charInt
  let padding := (padWidth - vlen).toNat
  if flags.left then text ++ List.replicate padding (charInt ' '.toUInt8)
  else List.replicate padding (charInt (if flags.padzero then '0' else ' ').toUInt8) ++ text

namespace Directive

/-- The characters of a directive. -/
def output : Directive → List (BitVec 32)
  | plain c => [c]
  | string flags padWidth precision vstr => copyString flags padWidth precision vstr
  | hexDump precision data =>
      (List.range precision).flatMap fun i =>
        [hexdigit (charInt (data i) >>> 4), hexdigit (charInt (data i))]
  -- the precision was that of the fraction, so it is cleared
  | number flags padWidth precision upper n =>
      copyString flags padWidth 0 (n.write upper precision).text
  | error => []

/-- The offsets in `intbuf` that it writes. -/
def writes : Directive → List Int
  | number _ _ precision upper n => (n.write upper precision).writes
  | _ => []

end Directive

/-- The calls of `addchar` for some characters: whether one is dropped, and the context. -/
def addAll (addchar : γ → BitVec 32 → Bool × γ) : List (BitVec 32) → γ → Bool × γ
  | [], context => (false, context)
  | c :: cs, context =>
      let (dropped, context) := addchar context c
      if dropped then (true, context) else addAll addchar cs context

inductive Ending where
  | returned (rv : Code)
  /-- a byte after the format was to be read -/
  | pastFormat
  /-- the bound on the rounds was too small -/
  | unfinished
  deriving DecidableEq

structure Outcome (γ : Type) where
  ending : Ending
  context : γ
  writes : List Int

/-- `vfnprintf`, with a bound on the directives. -/
def vfnprintf (config : Config) (va : VaList α) (addchar : γ → BitVec 32 → Bool × γ) :
    Nat → γ → Bytes → α → Outcome γ
  | 0, context, _, _ => ⟨.unfinished, context, []⟩
  | _ + 1, context, [], _ => ⟨.pastFormat, context, []⟩
  | fuel + 1, context, c :: format, args =>
      if c = 0 then ⟨.returned ecSuccess, context, []⟩
      else
        match scan config va c format args with
        | none => ⟨.pastFormat, context, []⟩
        | some (directive, format, args) =>
            match addAll addchar directive.output context with
            | (true, context) => ⟨.returned ecErrorOverflow, context, directive.writes⟩
            | (false, context) =>
                let rest := vfnprintf config va addchar fuel context format args
                { rest with writes := directive.writes ++ rest.writes }

/-! ## To a string -/

/-- `struct snprintf_context`, with the memory from the start of the string on. -/
structure SnprintfContext where
  mem : Nat → UInt8
  str : Nat
  size : BitVec 32

def snprintfAddchar (context : SnprintfContext) (c : BitVec 32) : Bool × SnprintfContext :=
  if context.size = 0#32 then (true, context)
  else (false, ⟨Function.update context.mem context.str ⟨c.setWidth 8⟩, context.str + 1,
    context.size - 1#32⟩)

/-- `vsnprintf` to a string that is not null; the results are the value returned and the memory. -/
def vsnprintf (config : Config) (va : VaList α) (fuel : Nat) (mem : Nat → UInt8)
    (size : BitVec 32) (format : Bytes) (args : α) : Option (Code × (Nat → UInt8)) :=
  if size = 0#32 then some (ecErrorInval, mem)
  else
    -- reserve space for the terminating '\0'
    let out := vfnprintf config va snprintfAddchar fuel ⟨mem, 0, size - 1#32⟩ format args
    match out.ending with
    | .returned rv =>
        let mem := Function.update out.context.mem out.context.str 0
        some (if rv = ecSuccess then UInt32.ofNat out.context.str else -rv, mem)
    | _ => none

end Printf
end CrosEc
