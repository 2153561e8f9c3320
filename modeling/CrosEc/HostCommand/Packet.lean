import Mathlib.Data.UInt
import CrosEc.HostCommand.Model
import CrosEc.Lib.Ring

/-!
# Host command packets of version 3

The slave takes a request packet apart and builds the response packet in
`common/host_command.c`; the master builds the request packet and takes the response packet
apart in `common/host_command_master.c`.  Between them is an I2C bus: the request goes out
behind a protocol byte, the response comes back behind the result and its length.

Buffers are accessed inside their bounds or not at all: a function is `none` where the source
reads or writes outside of one, or where an assertion fails.  Only the low byte of the sums is
used, in both files.
-/

namespace CrosEc
namespace HostCommand

open Lib Codec

def ecResInvalidResponse : UInt16 := 5
def ecResInvalidChecksum : UInt16 := 7
def ecResInvalidHeader : UInt16 := 12
def ecResRequestTruncated : UInt16 := 13
def ecResResponseTooBig : UInt16 := 14
def ecResBusError : UInt16 := 15

/-- `EC_COMMAND_PROTOCOL_3` -/
def ecCommandProtocol3 : UInt8 := 0xda
/-- `EC_HOST_REQUEST_VERSION` -/
def ecHostRequestVersion : UInt8 := 3
/-- `EC_HOST_RESPONSE_VERSION` -/
def ecHostResponseVersion : UInt8 := 3
/-- `EC_LPC_HOST_PACKET_SIZE` -/
def ecLpcHostPacketSize : Nat := 0x100

/-- `struct ec_host_request` -/
structure Request where
  structVersion : UInt8
  checksum : UInt8
  command : UInt16
  commandVersion : UInt8
  reserved : UInt8
  dataLen : UInt16

def Request.codec : Codec Request :=
  (uint8.prod (uint8.prod (uint16.prod (uint8.prod (uint8.prod uint16))))).ofEquiv
    { toFun := fun r =>
        (r.structVersion, r.checksum, r.command, r.commandVersion, r.reserved, r.dataLen)
      invFun := fun t => ⟨t.1, t.2.1, t.2.2.1, t.2.2.2.1, t.2.2.2.2.1, t.2.2.2.2.2⟩
      left_inv := fun _ => rfl
      right_inv := fun _ => rfl }

/-- `struct ec_host_response` -/
structure Response where
  structVersion : UInt8
  checksum : UInt8
  result : UInt16
  dataLen : UInt16
  reserved : UInt16

def Response.codec : Codec Response :=
  (uint8.prod (uint8.prod (uint16.prod (uint16.prod uint16)))).ofEquiv
    { toFun := fun r => (r.structVersion, r.checksum, r.result, r.dataLen, r.reserved)
      invFun := fun t => ⟨t.1, t.2.1, t.2.2.1, t.2.2.2.1, t.2.2.2.2⟩
      left_inv := fun _ => rfl
      right_inv := fun _ => rfl }

/-- The size of both headers. -/
def headerSize : Nat := 8

/-! ## The slave -/

/-- `struct host_packet`, with the memory that it points to. -/
structure HostPacket where
  request : Bytes
  requestTemp : Option Bytes
  requestMax : UInt16
  requestSize : UInt16
  response : Bytes
  responseMax : UInt16
  responseSize : UInt16
  driverResult : UInt16

/-- `struct host_cmd_handler_args`, with the parameters that it points to. -/
structure HandlerArgs where
  command : UInt16
  version : UInt8
  params : Bytes
  paramsSize : UInt16
  responseMax : UInt16
  responseSize : UInt16
  result : UInt16

/-- The result and the data size of a response, clipped to what we can accept. -/
def clip (pkt : HostPacket) (args : HandlerArgs) : UInt16 × UInt16 :=
  if args.result ≠ 0 then (args.result, 0)
  else if args.responseSize.toUInt32 > pkt.responseMax.toUInt32 - 8 then (ecResResponseTooBig, 0)
  else (args.result, args.responseSize)

/-- `host_packet_respond`, up to the call of `send_response`. -/
def hostPacketRespond (pkt : HostPacket) (args : HandlerArgs) : Option HostPacket := do
  let (result, size) := clip pkt args
  let r : Response := ⟨ecHostResponseVersion, 0, result, size, 0⟩
  let response ← storeAt pkt.response 0 (Response.codec.encode r)
  let bytes ← loadAt response 0 (headerSize + size.toNat)
  -- the entire packet sums to 0
  let response ← storeAt response 0 (Response.codec.encode { r with checksum := -bytes.sum })
  return { pkt with
    response := response
    responseSize := 8 + size
    driverResult := result }

/-- `host_request_expected_size` -/
def hostRequestExpectedSize (r : Request) : Nat :=
  if r.structVersion ≠ ecHostRequestVersion then 0
  else if r.reserved ≠ 0 then 0
  else headerSize + r.dataLen.toNat

namespace HostPacket

/-- Bytes of the request are read, and copied to the temp buffer if there is one. -/
def fetch (pkt : HostPacket) (off len : Nat) : Option (HostPacket × Bytes) := do
  let bytes ← loadAt pkt.request off len
  match pkt.requestTemp with
  | none => return (pkt, bytes)
  | some temp =>
      let temp ← storeAt temp off bytes
      return ({ pkt with requestTemp := some temp }, bytes)

/-- Where the request is found after that. -/
def fetched (pkt : HostPacket) : Bytes := pkt.requestTemp.getD pkt.request

end HostPacket

/-- How `host_packet_receive` ends. -/
inductive Outcome where
  /-- in `host_command_received` -/
  | received (pkt : HostPacket) (args : HandlerArgs)
  /-- with an error response -/
  | responded (pkt : HostPacket)

/-- `host_packet_bad` -/
def hostPacketBad (pkt : HostPacket) (args0 : HandlerArgs) (result : UInt16) : Option Outcome :=
  (hostPacketRespond pkt { args0 with result := result }).map .responded

/-- `host_packet_receive` -/
def hostPacketReceive (pkt : HostPacket) (args0 : HandlerArgs) : Option Outcome :=
  if pkt.driverResult ≠ 0 then
    hostPacketBad pkt args0 pkt.driverResult
  else if pkt.requestSize.toNat < headerSize then
    hostPacketBad pkt args0 ecResRequestTruncated
  else if pkt.requestSize > pkt.requestMax then
    hostPacketBad pkt args0 ecResRequestTruncated
  else if pkt.responseMax.toNat < headerSize then
    -- the assertion fails
    none
  else do
    let (pkt, header) ← pkt.fetch 0 headerSize
    let r := Request.codec.decode pkt.fetched
    if r.structVersion ≠ ecHostRequestVersion then
      hostPacketBad pkt args0 ecResInvalidHeader
    else if pkt.requestSize.toNat < headerSize + r.dataLen.toNat then
      -- it is ok if the packet is too big: some interfaces pad the data
      hostPacketBad pkt args0 ecResRequestTruncated
    else
      let (pkt, data) ← pkt.fetch headerSize r.dataLen.toNat
      let params ← loadAt pkt.fetched headerSize r.dataLen.toNat
      if header.sum + data.sum ≠ 0 then
        hostPacketBad pkt { args0 with params := params } ecResInvalidChecksum
      else
        return .received pkt
          { command := r.command
            version := r.commandVersion
            params := params
            paramsSize := r.dataLen
            responseMax := pkt.responseMax - 8
            responseSize := 0
            result := ecResSuccess }

/-- The bytes of `i2c_send_response_packet` in `chip/stm32/i2c-stm32f0.c`, which it makes for
every result but `EC_RES_IN_PROGRESS`. -/
def i2cResponse (pkt : HostPacket) : Bytes :=
  pkt.driverResult.toUInt8 :: pkt.responseSize.toUInt8 :: pkt.response.take pkt.responseSize.toNat

/-! ## The master -/

/-- The static buffers of `pd_host_command_internal`. -/
structure Buffers where
  reqBuf : Blob ecLpcHostPacketSize
  respBuf : Blob ecLpcHostPacketSize

/-- The slave as the master sees it: whether the two transfers fail, and the bytes that come
back for what was sent. -/
structure Bus where
  fails₁ : Bool
  fails₂ : Bool
  reply : Bytes → Nat → UInt8

/-- Fill in the request packet in `req_buf`; what is transmitted of it. -/
def fillRequest (reqBuf : Bytes) (command version : UInt32) (outdata : Bytes) : Option Bytes := do
  let rq : Request :=
    ⟨ecHostRequestVersion, 0, command.toUInt16, version.toUInt8, 0, UInt16.ofNat outdata.length⟩
  let reqBuf ← storeAt reqBuf (headerSize + 1) outdata
  let sum := outdata.sum + (Request.codec.encode rq).sum
  let reqBuf ← storeAt reqBuf 1 (Request.codec.encode { rq with checksum := -sum })
  let reqBuf ← storeAt reqBuf 0 [ecCommandProtocol3]
  loadAt reqBuf 0 (outdata.length + headerSize + 1)

/-- `len` bytes that come back, from byte `off` on. -/
def receiveBytes (reply : Nat → UInt8) (off len : Nat) : Bytes :=
  (List.range len).map fun i => reply (off + i)

/-- The rest of `pd_host_command_internal`, when the response is in `resp_buf`. -/
def parseResponse (respBuf : Bytes) (respLen : Nat) (indata : Bytes) : Option (Int × Bytes) := do
  let header ← loadAt respBuf 2 headerSize
  let rs := Response.codec.decode header
  if rs.structVersion ≠ ecHostResponseVersion then
    return (-ecResInvalidResponse.toNat, indata)
  else if rs.reserved ≠ 0 then
    return (-ecResInvalidResponse.toNat, indata)
  else if rs.dataLen.toNat > indata.length then
    return (-ecResResponseTooBig.toNat, indata)
  else
    let data ← loadAt respBuf (headerSize + 2) (respLen - headerSize)
    let indata ← storeAt indata 0 data
    if header.sum + data.sum ≠ 0 then
      return (-ecResInvalidChecksum.toNat, indata)
    else
      return (respLen - headerSize, indata)

/-- `pd_host_command_internal`, with `insize` bytes of `indata`: the return value, and `indata`. -/
def pdHostCommandInternal (bus : Bus) (bufs : Buffers) (command version : UInt32)
    (outdata indata : Bytes) : Option (Int × Bytes) :=
  if outdata.length + headerSize > ecLpcHostPacketSize then
    some (-ecResRequestTruncated.toNat, indata)
  else do
    let request ← fillRequest bufs.reqBuf.val command version outdata
    if bus.fails₁ then
      return (-ecResBusError.toNat, indata)
    else
      let reply := bus.reply request
      let respBuf ← storeAt bufs.respBuf.val 0 (receiveBytes reply 0 2)
      let respLen := (reply 1).toNat
      if respLen > indata.length + headerSize then
        return (-ecResResponseTooBig.toNat, indata)
      else
        let respBuf ← storeAt respBuf 2 (receiveBytes reply 2 respLen)
        if bus.fails₂ then
          return (-ecResBusError.toNat, indata)
        else if reply 0 ≠ 0 then
          return (-(reply 0).toNat, indata)
        else
          parseResponse respBuf respLen indata

end HostCommand
end CrosEc
