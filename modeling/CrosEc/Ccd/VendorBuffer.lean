import CrosEc.Ccd.Model
import CrosEc.Lib.Ring

/-!
# `common/ccd_config.c`: the buffer of a vendor command

The command and its response lie in one buffer.  `ccd_vendor` takes the subcommand off and gives
the rest to a handler, whose response it moves up by one byte; `ccd_open` and `ccd_unlock`
terminate the password where it lies.

A cell of the buffer that is neither input nor written by the command is stale.  A function is
`none` where the source reads a stale cell, or reads or writes outside of the buffer.
-/

namespace CrosEc
namespace Ccd

open Lib Codec

/-! ## Responses as bytes -/

def CcdState.toByte : CcdState → UInt8
  | .locked => 0
  | .unlocked => 1
  | .opened => 2

def PpState.toByte : PpState → UInt8
  | .closed => 0
  | .awaitingPress => 1
  | .betweenPresses => 2
  | .done => 3

/-- The bytes of `htobe32` -/
def htobe32 (x : BitVec 32) : Bytes := (encodeLE 4 x.toNat).reverse

/-- A word of `ccd_caps_current` or `ccd_caps_defaults`: each capability takes 2 bits. -/
def capsWord (caps : Capability → CapState) (index : Nat) : BitVec 32 :=
  Capability.all.foldl
    (fun word cap =>
      if cap.number / 16 = index then
        word ||| (caps cap).toBits.setWidth 32 <<< (cap.number % 16 * 2)
      else word) 0

/-- `ccd_indicator_bitmap` -/
def InfoResponse.indicatorBitmap (info : InfoResponse) : UInt8 :=
  (if info.hasPassword then 1 else 0) ||| (if info.allCapsDefault then 2 else 0)

/-- The bytes of `struct ccd_info_response` -/
def InfoResponse.bytes (info : InfoResponse) : Bytes :=
  htobe32 (capsWord info.ccdCapsCurrent 0) ++ htobe32 (capsWord info.ccdCapsCurrent 1) ++
    htobe32 (capsWord info.ccdCapsDefaults 0) ++ htobe32 (capsWord info.ccdCapsDefaults 1) ++
    htobe32 (info.ccdFlags.setWidth 32) ++
    [info.ccdState.toByte, if info.ccdForceDisabled then 1 else 0, info.indicatorBitmap]

/-- The bytes of a response; an error code is cut to one. -/
def Response.bytes : Response → Bytes
  | .empty => []
  | .code rv => [rv.toUInt8]
  | .pp state => [state.toByte]
  | .info response => response.bytes

/-! ## The buffer -/

/-- A byte of the buffer; `known` if it is input or was written. -/
structure Cell where
  byte : UInt8
  known : Bool

namespace Cell

def fresh (byte : UInt8) : Cell := ⟨byte, true⟩
def stale (byte : UInt8) : Cell := ⟨byte, false⟩

/-- Known bytes are read. -/
def load (buffer : List Cell) (off len : Nat) : Option Bytes :=
  (loadAt buffer off len).bind fun cells =>
    if cells.all known then some (cells.map byte) else none

/-- Bytes are written. -/
def store (buffer : List Cell) (off : Nat) (data : Bytes) : Option (List Cell) :=
  storeAt buffer off (data.map fresh)

/-- The string that starts at a pointer is read, with its terminator. -/
def string : List Cell → Option Bytes
  | [] => none
  | c :: buffer =>
      if c.known = false then none
      else if c.byte = 0 then some []
      else (string buffer).map (c.byte :: ·)

end Cell

/-- The characters of a string. -/
def chars (bytes : Bytes) : List Char := bytes.map fun c => Char.ofNat c.toNat

/-- `struct vendor_cmd_params`, with the buffer from the pointer on. -/
structure VendorCmdParams where
  buffer : List Cell
  inSize : UInt32
  outSize : UInt32
  flags : UInt32

/-- What a handler does: the return code, the parameters and the state. -/
abbrev Served := Option (VendorRc × VendorCmdParams × State)

variable (b : Build)

namespace VendorCmdParams

/-- `VENDOR_CMD_FROM_USB` -/
def fromUsb (p : VendorCmdParams) : Bool := p.flags &&& 1 ≠ 0

/-- The response is put to the start of the buffer. -/
def respond (p : VendorCmdParams) (r : VendorRc × Response × State) : Served :=
  (Cell.store p.buffer 0 r.2.1.bytes).map fun buffer =>
    (r.1, { p with buffer := buffer, outSize := UInt32.ofNat r.2.1.bytes.length }, r.2.2)

/-- `raw_check_password(buffer)` -/
def checkPassword (env : Env) (p : VendorCmdParams) (s : State) : Option (Code × State) :=
  if s.config.rawHasPassword = false then
    (Cell.load p.buffer 0 1).map fun c =>
      (if c = [0] then ecSuccess else ecErrorAccessDenied, s)
  else
    let t := UInt32.ofNat env.now
    if t - s.lastPasswordTime < passwordRateLimitUs then some (ecErrorBusy, s)
    else
      (Cell.string p.buffer).map fun password =>
        (if b.digest s.config.passwordSalt (chars password) = s.config.passwordDigest then ecSuccess
          else ecErrorAccessDenied,
         { s with lastPasswordTime := t })

/-- The password is terminated in place, and checked. -/
def terminateAndCheck (env : Env) (p : VendorCmdParams) (s : State) :
    Option (Code × VendorCmdParams × State) :=
  (Cell.store p.buffer p.inSize.toNat [0]).bind fun buffer =>
    let p := { p with buffer := buffer }
    (p.checkPassword b env s).map fun (rv, s) => (rv, p, s)

/-- `ccd_open` -/
def ccdOpen (env : Env) (p : VendorCmdParams) (s : State) : Served :=
  if s.forceDisabled then p.respond (.notAllowed, .code ecErrorAccessDenied, s)
  else if s.ccdState = .opened then p.respond (.success, .empty, s)
  else if env.fwmpAllowsUnlock = false then p.respond (.notAllowed, .code ecErrorAccessDenied, s)
  else if s.config.rawHasPassword then
    if p.inSize = 0 then p.respond (.passwordRequired, .code ecErrorParamCount, s)
    else
      (p.terminateAndCheck b env s).bind fun (rv, p, s) =>
        if rv ≠ ecSuccess then p.respond (.internalError, .code rv, s)
        else p.respond (s.openChecked b env)
  else if s.openAllowed b env p.fromUsb then p.respond (s.openChecked b env)
  else p.respond (.notAllowed, .code ecErrorAccessDenied, s)

/-- `ccd_unlock` after the password. -/
def unlockChecked (env : Env) (s : State) : VendorRc × Response × State :=
  if s.detect.busy then s.abortDetect env
  else if s.unlockNeedsPp b env then s.startDetect b env false .unlockDone
  else (.success, .empty, s.unlockDone)

/-- `ccd_unlock` -/
def ccdUnlock (env : Env) (p : VendorCmdParams) (s : State) : Served :=
  if s.forceDisabled then p.respond (.notAllowed, .code ecErrorAccessDenied, s)
  else if s.ccdState = .unlocked then p.respond (.success, .empty, s)
  else if s.ccdState = .opened then p.respond (.success, .empty, s.unlockDone)
  else if s.config.rawHasPassword = false ∨ env.fwmpAllowsUnlock = false then
    p.respond (.notAllowed, .code ecErrorAccessDenied, s)
  else if p.inSize = 0 then p.respond (.passwordRequired, .code ecErrorParamCount, s)
  else
    (p.terminateAndCheck b env s).bind fun (rv, p, s) =>
      if rv ≠ ecSuccess then p.respond (.internalError, .code rv, s)
      else p.respond (unlockChecked b env s)

/-- `ccd_password`: the password is copied, and terminated in the copy. -/
def ccdPassword (env : Env) (p : VendorCmdParams) (s : State) : Served :=
  if p.fromUsb then p.respond (.notAllowed, .code ecErrorAccessDenied, s)
  else if p.inSize = 0 ∨ ccdMaxPasswordSize < p.inSize.toNat then
    p.respond (.internalError, .code ecErrorParam1, s)
  else
    (Cell.load p.buffer 0 p.inSize.toNat).bind fun password =>
      let (rv, s) := s.doCcdPassword b env (State.cString (chars password))
      if rv ≠ ecSuccess then p.respond (.internalError, .code rv, s)
      else p.respond (.success, .empty, s)

/-- The handler of a subcommand. -/
def handler (env : Env) (subcommand : UInt8) : Option (VendorCmdParams → State → Served) :=
  if subcommand = 0 then some (ccdPassword b env)
  else if subcommand = 1 then some (ccdOpen b env)
  else if subcommand = 2 then some (ccdUnlock b env)
  else if subcommand = 3 then some fun p s => p.respond s.ccdLock
  else if subcommand = 4 then some fun p s => p.respond s.ccdPpPollUnlock
  else if subcommand = 5 then some fun p s => p.respond s.ccdPpPollOpen
  else if subcommand = 6 then some fun p s => p.respond (s.ccdGetInfo b)
  else none

/-- The handler is called with the buffer behind the subcommand, and its response is moved up. -/
def callHandler (handler : VendorCmdParams → State → Served) (p : VendorCmdParams) (s : State) :
    Served :=
  (handler { p with buffer := p.buffer.drop 1, inSize := p.inSize - 1 } s).bind fun (rc, q, s) =>
    let buffer := p.buffer.take 1 ++ q.buffer
    (Cell.load buffer 1 q.outSize.toNat).bind fun response =>
      (Cell.store buffer 0 response).map fun buffer =>
        (rc, { q with buffer := buffer, inSize := q.inSize + 1 }, s)

/-- `ccd_vendor` -/
def ccdVendor (env : Env) (p : VendorCmdParams) (s : State) : Served :=
  if p.outSize.toNat < ccdInfoResponseSize + 1 then
    some (.responseTooBig, { p with outSize := 0 }, s)
  else
    (Cell.load p.buffer 0 1).bind fun subcommand =>
      -- No output data unless proven otherwise.
      match handler b env (subcommand.headD 0) with
      | none => some (.noSuchSubcommand, { p with outSize := 0 }, s)
      | some handler => { p with outSize := 0 }.callHandler handler s

end VendorCmdParams

end Ccd
end CrosEc
