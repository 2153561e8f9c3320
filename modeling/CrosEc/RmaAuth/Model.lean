import CrosEc.Base32.Model
import CrosEc.Lib.Interleaving

/-!
# `common/rma_auth.c`: the RMA challenge and its auth code

`rma_create_challenge` encodes a challenge for the server, computes the auth code that the server
would answer with, and allows a few tries; `rma_try_authcode` compares one code.

The board id, the chip's id, the key pair and the outcome of the encoder come from outside, for
each call anew.  An encoder that fails leaves an empty string, as `base32_encode` does.  Times are
microseconds since boot, and so unsigned.
-/

namespace CrosEc
namespace RmaAuth

open Lib

def ecErrorTimeout : Code := 4
def ecErrorAccessDenied : Code := 7

def challengeInterval : Nat := 10000000
def maxAuthcodeTries : Nat := 3
def rmaChallengeVersion : UInt8 := 0
def rmaChallengeBufSize : Nat := 81
def rmaAuthcodeChars : Nat := 8
def rmaAuthcodeBufSize : Nat := rmaAuthcodeChars + 1

/-- `RMA_CHALLENGE_VKID_BYTE` -/
def vkidByte (version keyid : UInt8) : UInt8 := (version <<< 6) ||| (keyid &&& 0x3f)

/-- The server's key id and HMAC-SHA256 with its key. -/
structure Server where
  serverKeyId : UInt8
  hmacSha256 : Bytes → Bytes → Blob 32

/-- `base32_encode(dest, destlen_chars, srcbits, srclen_bits, add_crc_every)`: the string, or an
error. -/
abbrev Encoder := Nat → Bytes → Nat → Nat → Option Bytes

/-- What `rma_create_challenge` finds. -/
structure Request where
  /-- the type field of `read_board_id`, unless that fails -/
  boardId : Option (Blob 4)
  /-- `system_get_chip_unique_id` -/
  uniqueDeviceId : Bytes
  /-- the ephemeral public key, and the secret shared with the server -/
  devicePubKey : Blob 32
  secret : Blob 32
  base32Encode : Encoder

/-- The encoder of the repository. -/
def base32Encoder : Encoder := fun destlenChars src srclenBits addCrcEvery =>
  let r := Base32.base32Encode destlenChars (src.getD · 0) srclenBits addCrcEvery
  if r.1 = ecSuccess then some (r.2.map Char.toUInt8) else none

/-- `hash_buffer` -/
def hashBuffer (k : Server) (destSize : Nat) (buffer : Bytes) : Bytes :=
  (k.hmacSha256 buffer buffer).1.take destSize

/-- `device_id` of `struct rma_challenge`, after a `memset` with zeros -/
def deviceId (k : Server) (r : Request) : Bytes :=
  if r.uniqueDeviceId.length ≤ 8 then readBytes 8 r.uniqueDeviceId
  else hashBuffer k 8 r.uniqueDeviceId

/-- `struct rma_challenge` without its first byte -/
def challengeBody (k : Server) (boardId : Blob 4) (r : Request) : Bytes :=
  r.devicePubKey.1 ++ boardId.1 ++ deviceId k r

/-- `struct rma_challenge` -/
def challengeBytes (k : Server) (boardId : Blob 4) (r : Request) : Bytes :=
  vkidByte rmaChallengeVersion k.serverKeyId :: challengeBody k boardId r

/-- The challenge string. -/
def encodedChallenge (k : Server) (r : Request) : Option Bytes :=
  r.boardId.bind fun boardId =>
    r.base32Encode rmaChallengeBufSize (challengeBytes k boardId r) (8 * 45) 9

/-- The auth code: a truncated HMAC of the public key, the board id and the device id. -/
def computedAuthcode (k : Server) (r : Request) : Option Bytes :=
  r.boardId.bind fun boardId =>
    r.base32Encode rmaAuthcodeBufSize (k.hmacSha256 r.secret.1 (challengeBody k boardId r)).1
      (rmaAuthcodeChars * 5) 0

/-- A cleared buffer that a string has been written to. -/
def stringBuffer (size : Nat) (text : Bytes) : Bytes := readBytes size text

/-- A buffer after `memset(buf, 0, size)` -/
def cleared (size : Nat) : Bytes := List.replicate size 0

/-- The static variables. -/
structure State where
  challenge : Bytes
  authcode : Bytes
  triesLeft : Nat
  lastChallengeTime : Nat

def State.init : State where
  challenge := cleared rmaChallengeBufSize
  authcode := cleared rmaAuthcodeBufSize
  triesLeft := 0
  lastChallengeTime := 0

/-- `memset` of both strings -/
def State.clear (s : State) : State :=
  { s with challenge := cleared rmaChallengeBufSize, authcode := cleared rmaAuthcodeBufSize }

/-- `rma_create_challenge` at time `t` -/
def State.createChallenge (k : Server) (t : Nat) (r : Request) (s : State) : Code × State :=
  -- Clear the current challenge and authcode, if any
  let s := s.clear
  -- Rate limit challenges
  if t - s.lastChallengeTime < challengeInterval then (ecErrorTimeout, s)
  else
    let s := { s with lastChallengeTime := t }
    match encodedChallenge k r with
    -- the board id cannot be read, or the challenge cannot be encoded
    | none => (ecErrorUnknown, s)
    | some text =>
        let s := { s with challenge := stringBuffer rmaChallengeBufSize text }
        match computedAuthcode k r with
        | none => (ecErrorUnknown, s)
        | some text =>
            (ecSuccess, { s with
              authcode := stringBuffer rmaAuthcodeBufSize text
              triesLeft := maxAuthcodeTries })

/-- `safe_memcmp`: not zero if some bytes differ -/
def safeMemcmp (s1 s2 : Bytes) (size : Nat) : Bool :=
  (List.zipWith (· ^^^ ·) (readBytes size s1) (readBytes size s2)).foldl (· ||| ·) 0 != 0

/-- `rma_try_authcode` compares the code. -/
def State.compares (s : State) : Bool := s.triesLeft ≠ 0 && s.authcode.headD 0 ≠ 0

/-- `rma_try_authcode` -/
def State.tryAuthcode (code : Bytes) (s : State) : Code × State :=
  -- Fail if out of tries, or if auth code has not been calculated yet
  if !s.compares then (ecErrorAccessDenied, s)
  else
    let mismatch := safeMemcmp s.authcode code rmaAuthcodeChars
    let s := { s with triesLeft := if mismatch then s.triesLeft - 1 else 0 }
    -- Clear challenge and response if out of tries
    (if mismatch then ecErrorInval else ecSuccess, if s.triesLeft = 0 then s.clear else s)

/-! ## Runs -/

/-- A call with its outcome. -/
inductive Entry where
  | create (time : Nat) (request : Request) (rv : Code)
  /-- a try, and whether the code was compared -/
  | tried (code : Bytes) (compared : Bool) (rv : Code)

/-- The module, the time, and the calls so far, the last one first. -/
structure System where
  rma : State
  clock : Nat
  log : List Entry

inductive Event where
  | elapse (us : Nat)
  | create (request : Request)
  | tryCode (code : Bytes)

def System.boot : System := ⟨.init, 0, []⟩

def step (k : Server) (s : System) : Event → Option System
  | .elapse us => some { s with clock := s.clock + us }
  | .create request =>
      let (rv, rma) := s.rma.createChallenge k s.clock request
      some { s with rma := rma, log := .create s.clock request rv :: s.log }
  | .tryCode code =>
      let (rv, rma) := s.rma.tryAuthcode code
      some { s with rma := rma, log := .tried code s.rma.compares rv :: s.log }

end RmaAuth
end CrosEc
