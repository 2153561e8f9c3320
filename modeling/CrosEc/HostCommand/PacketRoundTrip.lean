import CrosEc.HostCommand.Packet

/-!
# Packets between master and slave

The packet that the master builds for a request is accepted by the slave, with the same
command, version and parameters; the packet that the slave builds for a response is accepted by
the master, with the same data.

The master sends one protocol byte before the packet, and gets two bytes before the response
packet, but has buffers of the size of a packet.  So there is a longest request that the check
of `outsize` lets through and `req_buf` does not hold, and a longest response that fits its
length byte and `resp_buf` does not hold.
-/

namespace CrosEc
namespace HostCommand

open Lib Codec

/-! ## Headers -/

@[simp] theorem size_request : Request.codec.size = headerSize := rfl

@[simp] theorem size_response : Response.codec.size = headerSize := rfl

/-- A record is read where its bytes are. -/
theorem decode_of_loadAt {α : Type} (c : Codec α) {buf : Bytes} {a : α}
    (h : loadAt buf 0 c.size = some (c.encode a)) : c.decode buf = a := by
  obtain ⟨pre, post, rfl, hpre, -⟩ := loadAt_split h
  obtain rfl := List.length_eq_zero_iff.mp hpre
  exact c.decode_encode a post

theorem sum_append (as bs : Bytes) : (as ++ bs).sum = as.sum + bs.sum := List.sum_append

theorem Request.sum_encode (r : Request) (c : UInt8) :
    (Request.codec.encode { r with checksum := c }).sum =
      c + (Request.codec.encode { r with checksum := 0 }).sum := by
  simp [Request.codec, ofEquiv, Codec.prod, uint8, Codec.ofNat, encodeLE]
  grind

theorem Response.sum_encode (r : Response) (c : UInt8) :
    (Response.codec.encode { r with checksum := c }).sum =
      c + (Response.codec.encode { r with checksum := 0 }).sum := by
  simp [Response.codec, ofEquiv, Codec.prod, uint8, Codec.ofNat, encodeLE]
  grind

/-! ## The request -/

/-- The header of a request. -/
def requestHeader (command : UInt16) (version : UInt8) (outdata : Bytes) : Request :=
  let rq : Request := ⟨ecHostRequestVersion, 0, command, version, 0, UInt16.ofNat outdata.length⟩
  { rq with checksum := -(outdata.sum + (Request.codec.encode rq).sum) }

/-- The packet of a request. -/
def requestPacket (command : UInt16) (version : UInt8) (outdata : Bytes) : Bytes :=
  Request.codec.encode (requestHeader command version outdata) ++ outdata

theorem sum_requestPacket (command : UInt16) (version : UInt8) (outdata : Bytes) :
    (requestPacket command version outdata).sum = 0 := by
  rw [requestPacket, sum_append, requestHeader, Request.sum_encode]
  grind

theorem fillRequest_steps (reqBuf : Bytes) (command : UInt16) (version : UInt8) (outdata : Bytes) :
    fillRequest reqBuf command.toUInt32 version.toUInt32 outdata =
      (storeAt reqBuf (headerSize + 1) outdata).bind fun buf =>
        (storeAt buf 1 (Request.codec.encode (requestHeader command version outdata))).bind fun buf =>
          (storeAt buf 0 [ecCommandProtocol3]).bind fun buf =>
            loadAt buf 0 (outdata.length + headerSize + 1) := by
  simp [fillRequest, requestHeader]

/-- The data has to end inside `req_buf`, behind the protocol byte and the header. -/
theorem fillRequest_eq {reqBuf : Bytes} (hbuf : reqBuf.length = ecLpcHostPacketSize)
    (command : UInt16) (version : UInt8) {outdata : Bytes}
    (hfits : headerSize + 1 + outdata.length ≤ ecLpcHostPacketSize) :
    fillRequest reqBuf command.toUInt32 version.toUInt32 outdata =
      some (ecCommandProtocol3 :: requestPacket command version outdata) := by
  obtain ⟨protocol, header, data, post, rfl, hprotocol, hheader, hdata⟩ :
      ∃ protocol header data post : Bytes, reqBuf = protocol ++ header ++ data ++ post ∧
        protocol.length = 1 ∧ header.length = headerSize ∧ data.length = outdata.length := by
    refine ⟨reqBuf.take 1, (reqBuf.drop 1).take headerSize,
      (reqBuf.drop (headerSize + 1)).take outdata.length,
      reqBuf.drop (headerSize + 1 + outdata.length), ?_, ?_, ?_, ?_⟩
    · rw [← List.take_add, Nat.add_comm 1, ← List.take_add, List.take_append_drop]
    all_goals
      simp only [List.length_take, List.length_drop]
      lia
  have hlen : (Request.codec.encode (requestHeader command version outdata)).length = headerSize :=
    Request.codec.length_encode _
  have hstore₁ := storeAt_middle (protocol ++ header) data post
    (by simp [hprotocol, hheader, Nat.add_comm] : _ = headerSize + 1) hdata
  have hstore₂ := storeAt_middle protocol header (outdata ++ post) hprotocol (hheader.trans hlen.symm)
  have hstore₃ := storeAt_middle [] protocol (requestPacket command version outdata ++ post) rfl
    (show protocol.length = [ecCommandProtocol3].length from hprotocol)
  have hload := loadAt_middle [] post rfl
    (by simp [requestPacket, hlen, Nat.add_comm] :
      (ecCommandProtocol3 :: requestPacket command version outdata).length =
        outdata.length + headerSize + 1)
  simp only [requestPacket, List.append_assoc, List.nil_append] at hstore₁ hstore₂ hstore₃ hload ⊢
  rw [fillRequest_steps, hstore₁, Option.bind_some, hstore₂, Option.bind_some]
  exact (congrArg (Option.bind · _) hstore₃).trans hload

theorem fillRequest_eq_none {reqBuf : Bytes} (hbuf : reqBuf.length = ecLpcHostPacketSize)
    (command version : UInt32) {outdata : Bytes}
    (hlong : ecLpcHostPacketSize < headerSize + 1 + outdata.length) :
    fillRequest reqBuf command version outdata = none := by
  rw [fillRequest, storeAt, if_neg (by omega)]
  rfl

/-- A piece of the request is read, and is then found where the request is. -/
theorem fetch_spec (pkt : HostPacket) {off len : Nat} (pre data post : Bytes)
    (hrequest : pkt.request = pre ++ data ++ post) (hoff : pre.length = off)
    (hlen : data.length = len) (htemp : ∀ temp ∈ pkt.requestTemp, off + len ≤ temp.length) :
    ∃ requestTemp, pkt.fetch off len = some ({ pkt with requestTemp := requestTemp }, data) ∧
      loadAt (requestTemp.getD pkt.request) off len = some data ∧
      ∀ temp' ∈ requestTemp, ∃ temp ∈ pkt.requestTemp, temp'.length = temp.length := by
  have hload : loadAt pkt.request off len = some data := by
    rw [hrequest]
    exact loadAt_middle pre post hoff hlen
  cases htempEq : pkt.requestTemp with
  | none =>
      refine ⟨none, ?_, hload, ?_⟩
      · have hpkt : { pkt with requestTemp := none } = pkt := by rw [← htempEq]
        rw [hpkt, HostPacket.fetch, hload, htempEq]
        rfl
      · rintro temp ⟨⟩
  | some temp =>
      have hfits : off + data.length ≤ temp.length := hlen ▸ htemp temp htempEq
      obtain ⟨temp', hstore, hlength⟩ := storeAt_isSome hfits
      refine ⟨some temp', ?_, ?_, ?_⟩
      · rw [HostPacket.fetch, hload, htempEq]
        show (storeAt temp off data).bind _ = _
        rw [hstore]
        rfl
      · exact hlen ▸ loadAt_storeAt hstore
      · rintro _ ⟨⟩
        exact ⟨temp, rfl, hlength⟩

/-- **The slave accepts the packet**, in place or through the temp buffer, with anything behind
it. -/
theorem hostPacketReceive_requestPacket (command : UInt16) (version : UInt8) {outdata : Bytes}
    (hsmall : outdata.length < 2 ^ 16) (pkt : HostPacket) (args0 : HandlerArgs) {padding : Bytes}
    (hrequest : pkt.request = requestPacket command version outdata ++ padding)
    (hsize : (requestPacket command version outdata).length ≤ pkt.requestSize.toNat)
    (hmax : pkt.requestSize ≤ pkt.requestMax)
    (htemp : ∀ temp ∈ pkt.requestTemp, pkt.requestMax.toNat ≤ temp.length)
    (hresponse : headerSize ≤ pkt.responseMax.toNat) (hdriver : pkt.driverResult = 0) :
    ∃ pkt', hostPacketReceive pkt args0 = some (.received pkt'
      { command := command
        version := version
        params := outdata
        paramsSize := UInt16.ofNat outdata.length
        responseMax := pkt.responseMax - 8
        responseSize := 0
        result := ecResSuccess }) := by
  have hlen : (Request.codec.encode (requestHeader command version outdata)).length = headerSize :=
    Request.codec.length_encode _
  have hdataLen : (UInt16.ofNat outdata.length).toNat = outdata.length := by
    rw [UInt16.toNat_ofNat']
    exact Nat.mod_eq_of_lt hsmall
  have hpacket : (requestPacket command version outdata).length = headerSize + outdata.length := by
    rw [requestPacket, List.length_append, hlen]
  have hmaxNat : pkt.requestSize.toNat ≤ pkt.requestMax.toNat := hmax
  -- The header is fetched, then the data.
  obtain ⟨temp₁, hfetch₁, hload₁, hlength₁⟩ := fetch_spec pkt []
    (Request.codec.encode (requestHeader command version outdata)) (outdata ++ padding)
    (hrequest.trans (List.append_assoc _ _ _)) List.length_nil hlen (by
      intro temp hmem
      have hroom := htemp temp hmem
      lia)
  obtain ⟨temp₂, hfetch₂, hload₂, -⟩ := fetch_spec { pkt with requestTemp := temp₁ } _ outdata
    padding hrequest hlen rfl (by
      intro temp' hmem
      obtain ⟨temp, hmem', hlength⟩ := hlength₁ temp' hmem
      have hroom := htemp temp hmem'
      lia)
  have hheader : Request.codec.decode (HostPacket.fetched { pkt with requestTemp := temp₁ }) =
      requestHeader command version outdata := decode_of_loadAt Request.codec hload₁
  have hsum : (Request.codec.encode (requestHeader command version outdata)).sum + outdata.sum = 0 := by
    rw [← sum_append]
    exact sum_requestPacket command version outdata
  refine ⟨{ pkt with requestTemp := temp₂ }, ?_⟩
  rw [hostPacketReceive, if_neg (by simp [hdriver]), if_neg (by lia), if_neg (by simpa using hmax),
    if_neg (by lia), hfetch₁]
  simp only [Option.bind_eq_bind, Option.bind_some, hheader]
  rw [if_neg (by simp [requestHeader]), if_neg (by
    show ¬ pkt.requestSize.toNat < headerSize + (UInt16.ofNat outdata.length).toNat
    lia)]
  have hfetch₂' : HostPacket.fetch { pkt with requestTemp := temp₁ } headerSize
      (requestHeader command version outdata).dataLen.toNat =
        some ({ pkt with requestTemp := temp₂ }, outdata) := by
    show HostPacket.fetch _ _ (UInt16.ofNat outdata.length).toNat = _
    rw [hdataLen]
    exact hfetch₂
  have hload₂' : loadAt (HostPacket.fetched { pkt with requestTemp := temp₂ }) headerSize
      (requestHeader command version outdata).dataLen.toNat = some outdata := by
    show loadAt _ _ (UInt16.ofNat outdata.length).toNat = _
    rw [hdataLen]
    exact hload₂
  rw [hfetch₂', Option.bind_some, hload₂', Option.bind_some, if_neg (by simp [hsum])]
  rfl

/-! ## The response -/

/-- The header of a response. -/
def responseHeader (result size : UInt16) (data : Bytes) : Response :=
  let r : Response := ⟨ecHostResponseVersion, 0, result, size, 0⟩
  { r with checksum := -(Response.codec.encode r ++ data).sum }

/-- The packet of a response. -/
def responsePacket (result size : UInt16) (data : Bytes) : Bytes :=
  Response.codec.encode (responseHeader result size data) ++ data

@[simp] theorem length_responsePacket (result size : UInt16) (data : Bytes) :
    (responsePacket result size data).length = headerSize + data.length := by
  simp [responsePacket]

theorem sum_responsePacket (result size : UInt16) (data : Bytes) :
    (responsePacket result size data).sum = 0 := by
  rw [responsePacket, sum_append, responseHeader, Response.sum_encode, sum_append]
  grind

/-- An error has no data, and is an error of its own if there is too much of it. -/
theorem clip_cases {pkt : HostPacket} (hmax : headerSize ≤ pkt.responseMax.toNat)
    (args : HandlerArgs) :
    (args.result ≠ 0 ∧ clip pkt args = (args.result, 0)) ∨
      (args.result = 0 ∧ pkt.responseMax.toNat < headerSize + args.responseSize.toNat ∧
        clip pkt args = (ecResResponseTooBig, 0)) ∨
      (args.result = 0 ∧ headerSize + args.responseSize.toNat ≤ pkt.responseMax.toNat ∧
        clip pkt args = (0, args.responseSize)) := by
  have hsub : (pkt.responseMax.toUInt32 - 8).toNat = pkt.responseMax.toNat - headerSize := by
    have hle : (8 : UInt32) ≤ pkt.responseMax.toUInt32 := by
      rw [UInt32.le_iff_toNat_le]
      have height : 8 ≤ pkt.responseMax.toNat := hmax
      simpa using height
    rw [UInt32.toNat_sub_of_le _ _ hle]
    simp [headerSize]
  have hlt : args.responseSize.toUInt32 > pkt.responseMax.toUInt32 - 8 ↔
      pkt.responseMax.toNat < headerSize + args.responseSize.toNat := by
    rw [gt_iff_lt, UInt32.lt_iff_toNat_lt, hsub, UInt16.toNat_toUInt32]
    omega
  by_cases hresult : args.result = 0
  · by_cases hlong : pkt.responseMax.toNat < headerSize + args.responseSize.toNat
    · refine Or.inr (Or.inl ⟨hresult, hlong, ?_⟩)
      rw [clip, if_neg (by simp [hresult]), if_pos (hlt.mpr hlong)]
    · refine Or.inr (Or.inr ⟨hresult, by omega, ?_⟩)
      rw [clip, if_neg (by simp [hresult]), if_neg (fun h => hlong (hlt.mp h)), hresult]
  · exact Or.inl ⟨hresult, if_pos hresult⟩

/-- What the clipping leaves fits behind the header; it makes neither a packet of 255 bytes nor a
long result code that the handler did not ask for. -/
theorem clip_spec {pkt : HostPacket} (hmax : headerSize ≤ pkt.responseMax.toNat)
    {args : HandlerArgs} {result size : UInt16} (hclip : clip pkt args = (result, size)) :
    headerSize + size.toNat ≤ pkt.responseMax.toNat ∧ (result ≠ 0 → size = 0) ∧
      ((headerSize + size.toNat ≤ 255 → result.toNat < 256 ∧ size.toNat ≠ 247) ↔
        args.result.toNat < 256 ∧
          ¬ (args.result = 0 ∧ args.responseSize = 247 ∧ 255 ≤ pkt.responseMax)) := by
  have hheader : headerSize = 8 := rfl
  have hlong : args.responseSize = 247 ↔ args.responseSize.toNat = 247 := by
    rw [← UInt16.toNat_inj]
    rfl
  have hroom : 255 ≤ pkt.responseMax ↔ 255 ≤ pkt.responseMax.toNat := UInt16.le_iff_toNat_le
  have hzero : (0 : UInt16).toNat = 0 := rfl
  rw [hlong, hroom]
  rcases clip_cases hmax args with ⟨hresult, heq⟩ | ⟨hresult, hbig, heq⟩ | ⟨hresult, hsmall, heq⟩
  · obtain ⟨rfl, rfl⟩ := Prod.mk.inj (heq.symm.trans hclip)
    refine ⟨by lia, fun _ => rfl, ?_⟩
    simp [hheader, hresult]
  · obtain ⟨rfl, rfl⟩ := Prod.mk.inj (heq.symm.trans hclip)
    refine ⟨by lia, fun _ => rfl, ?_⟩
    have hcode : ecResResponseTooBig.toNat = 14 := rfl
    rw [hcode, hresult, hzero]
    simp only [true_and]
    lia
  · obtain ⟨rfl, rfl⟩ := Prod.mk.inj (heq.symm.trans hclip)
    refine ⟨hsmall, fun h => absurd rfl h, ?_⟩
    rw [hresult, hzero]
    simp only [true_and]
    lia

/-- **The slave builds the packet** in place, around the data of the handler. -/
theorem hostPacketRespond_eq {pkt : HostPacket} {args : HandlerArgs} {result size : UInt16}
    (hclip : clip pkt args = (result, size)) {data : Bytes}
    (hdata : loadAt pkt.response headerSize size.toNat = some data) :
    ∃ post, hostPacketRespond pkt args = some
      { pkt with
        response := responsePacket result size data ++ post
        responseSize := 8 + size
        driverResult := result } := by
  obtain ⟨header, post, hresponse, hheader, hlen⟩ := loadAt_split hdata
  have hsize (r : Response) : (Response.codec.encode r).length = headerSize :=
    Response.codec.length_encode r
  have hstore (r : Response) {old : Bytes} (hold : old.length = headerSize) :
      storeAt (old ++ (data ++ post)) 0 (Response.codec.encode r) =
        some (Response.codec.encode r ++ (data ++ post)) :=
    storeAt_middle [] old (data ++ post) List.length_nil (hold.trans (hsize r).symm)
  have hload (r : Response) : loadAt (Response.codec.encode r ++ (data ++ post)) 0
      (headerSize + size.toNat) = some (Response.codec.encode r ++ data) := by
    have hboth : (Response.codec.encode r ++ data).length = headerSize + size.toNat := by
      rw [List.length_append, hsize, hlen]
    rw [← List.append_assoc]
    exact loadAt_middle [] post List.length_nil hboth
  refine ⟨post, ?_⟩
  rw [hostPacketRespond, hclip, hresponse, List.append_assoc]
  simp only [Option.bind_eq_bind, hstore _ hheader, Option.bind_some, hload, hstore _ (hsize _)]
  rw [responsePacket, List.append_assoc]
  rfl

/-! ## The master takes the response apart -/

/-- The bytes of the slave on the bus; it goes on with `0xec`. -/
def slaveReply (bytes : Bytes) (i : Nat) : UInt8 := bytes[i]?.getD 0xec

theorem receiveBytes_slaveReply {pre xs post : Bytes} {off len : Nat} (hoff : pre.length = off)
    (hlen : xs.length = len) : receiveBytes (slaveReply (pre ++ xs ++ post)) off len = xs := by
  subst hoff hlen
  apply List.ext_getElem
  · simp [receiveBytes]
  · intro i _ hi
    have hcell : (pre ++ xs ++ post)[pre.length + i]? = some xs[i] := by
      rw [List.append_assoc, List.getElem?_append_right (by omega), Nat.add_sub_cancel_left,
        List.getElem?_append_left hi, List.getElem?_eq_getElem hi]
    simp only [receiveBytes, List.getElem_map, List.getElem_range, slaveReply, hcell,
      Option.getD_some]

/-- **The master accepts the packet.** -/
theorem parseResponse_responsePacket (result size : UInt16) {data indata : Bytes}
    (hlen : data.length = size.toNat) (hin : data.length ≤ indata.length) {pre : Bytes}
    (hpre : pre.length = 2) (post : Bytes) :
    parseResponse (pre ++ responsePacket result size data ++ post) (headerSize + size.toNat) indata =
      some ((size.toNat : Int), data ++ indata.drop data.length) := by
  have hsize : (Response.codec.encode (responseHeader result size data)).length = headerSize :=
    Response.codec.length_encode _
  have hheader : loadAt (pre ++ responsePacket result size data ++ post) 2 headerSize =
      some (Response.codec.encode (responseHeader result size data)) := by
    rw [responsePacket, List.append_assoc, List.append_assoc, ← List.append_assoc]
    exact loadAt_middle pre (data ++ post) hpre hsize
  have hdata : loadAt (pre ++ responsePacket result size data ++ post) (headerSize + 2)
      (headerSize + size.toNat - headerSize) = some data := by
    rw [responsePacket, ← List.append_assoc, Nat.add_sub_cancel_left]
    refine loadAt_middle _ post ?_ hlen
    rw [List.length_append, hpre, hsize, Nat.add_comm]
  have hstore : storeAt indata 0 data = some (data ++ indata.drop data.length) :=
    storeAt_append [] hin
  have hsum : (Response.codec.encode (responseHeader result size data)).sum + data.sum = 0 := by
    rw [← sum_append]
    exact sum_responsePacket result size data
  simp only [parseResponse, Option.bind_eq_bind, hheader, Option.bind_some, decode_encode_self]
  rw [if_neg (by simp [responseHeader]), if_neg (by simp [responseHeader]), if_neg (by
    show ¬ size.toNat > indata.length
    omega)]
  rw [hdata, Option.bind_some, hstore, Option.bind_some, if_neg (by simp [hsum])]
  simp

/-- What the slave answered with `result` and the data has to become at the master. -/
def expectedReturn (result : UInt16) (data indata : Bytes) : Int × Bytes :=
  if result = 0 then (data.length, data ++ indata.drop data.length)
  else (-result.toNat, indata)

/-- What the master makes of the bytes on the bus: `resp_buf` is too short by one byte for the
longest packet, and only the low byte of the result is in front of the packet. -/
theorem pdHostCommandInternal_eq {bus : Bus} (hfails₁ : bus.fails₁ = false)
    (hfails₂ : bus.fails₂ = false) (bufs : Buffers) (command : UInt16) (version : UInt8)
    {outdata indata : Bytes} (hout : headerSize + 1 + outdata.length ≤ ecLpcHostPacketSize)
    {result size : UInt16} {data : Bytes} (hlen : data.length = size.toNat)
    (hshort : headerSize + size.toNat ≤ 255) (hin : data.length ≤ indata.length)
    (hreply : ∀ request, bus.reply request = slaveReply
      (result.toUInt8 :: (8 + size).toUInt8 :: responsePacket result size data)) :
    pdHostCommandInternal bus bufs command.toUInt32 version.toUInt32 outdata indata =
      if headerSize + size.toNat = 255 then none
      else if result.toUInt8 = 0 then some ((size.toNat : Int), data ++ indata.drop data.length)
      else some (-(result.toUInt8.toNat : Int), indata) := by
  have hlength : ((8 : UInt16) + size).toUInt8.toNat = headerSize + size.toNat := by
    rw [UInt16.toNat_toUInt8, UInt16.toNat_add]
    show (8 + size.toNat) % 2 ^ 16 % 2 ^ 8 = 8 + size.toNat
    have hsmall : 8 + size.toNat ≤ 255 := hshort
    lia
  have hpacket : (responsePacket result size data).length = headerSize + size.toNat := by
    rw [length_responsePacket, hlen]
  -- The two transfers into `resp_buf`.
  have hhead : ∀ reply, reply = slaveReply
      (result.toUInt8 :: (8 + size).toUInt8 :: responsePacket result size data) →
      receiveBytes reply 0 2 = [result.toUInt8, (8 + size).toUInt8] ∧
        receiveBytes reply 2 (headerSize + size.toNat) = responsePacket result size data := by
    rintro reply rfl
    refine ⟨rfl, ?_⟩
    rw [← List.append_nil (_ :: _)]
    exact receiveBytes_slaveReply (rfl : [result.toUInt8, (8 + size).toUInt8].length = 2) hpacket
  have hbuf : bufs.respBuf.val.length = ecLpcHostPacketSize := bufs.respBuf.property
  have hrest : (bufs.respBuf.val.drop 2).length = 254 := by
    rw [List.length_drop, hbuf]
    rfl
  have hstore₁ : storeAt bufs.respBuf.val 0 [result.toUInt8, (8 + size).toUInt8] =
      some ([result.toUInt8, (8 + size).toUInt8] ++ bufs.respBuf.val.drop 2) :=
    storeAt_append [] (by
      rw [hbuf]
      show 2 ≤ 256
      decide)
  rw [pdHostCommandInternal, if_neg (by lia), fillRequest_eq bufs.reqBuf.property command version hout]
  simp only [Option.bind_eq_bind, Option.bind_some, hfails₁, hfails₂, Bool.false_eq_true, if_false]
  generalize hreq : bus.reply (ecCommandProtocol3 :: requestPacket command version outdata) = reply
  obtain ⟨hrecv₁, hrecv₂⟩ := hhead reply (hreq.symm.trans (hreply _))
  have hzero : reply 0 = result.toUInt8 := by rw [← hreq, hreply]; rfl
  have hone : (reply 1).toNat = headerSize + size.toNat := by
    rw [← hlength, ← hreq, hreply]
    rfl
  rw [hrecv₁, hstore₁, Option.bind_some, hone, if_neg (by lia), hrecv₂, hzero]
  by_cases hlong : headerSize + size.toNat = 255
  · rw [if_pos hlong, storeAt, if_neg (by
      simp only [List.length_append, hrest, hpacket, hlong]
      show ¬ 2 + 255 ≤ 2 + 254
      decide)]
    rfl
  · have hroom : (responsePacket result size data).length ≤ (bufs.respBuf.val.drop 2).length := by
      lia
    have hstore₂ : storeAt ([result.toUInt8, (8 + size).toUInt8] ++ bufs.respBuf.val.drop 2) 2
        (responsePacket result size data) = some ([result.toUInt8, (8 + size).toUInt8] ++
          responsePacket result size data ++ _) := storeAt_append _ hroom
    rw [if_neg hlong, hstore₂, Option.bind_some]
    by_cases hresult : result.toUInt8 = 0
    · rw [if_neg (by simpa using hresult), if_pos hresult]
      exact parseResponse_responsePacket result size hlen hin rfl _
    · rw [if_pos hresult, if_neg hresult]
      rfl

/-! ## Both directions -/

/-- The request of `command`, `version` and `outdata` goes out and is accepted by the slave, which
may read the packet where it is or through a temp buffer, and may have more bytes than the
packet has. -/
def RequestArrives (command : UInt16) (version : UInt8) (outdata : Bytes) : Prop :=
  ∀ reqBuf : Blob ecLpcHostPacketSize, ∃ packet,
    fillRequest reqBuf.val command.toUInt32 version.toUInt32 outdata =
        some (ecCommandProtocol3 :: packet) ∧
      hostRequestExpectedSize (Request.codec.decode packet) = packet.length ∧
      ∀ (pkt : HostPacket) (args0 : HandlerArgs) (padding : Bytes),
        pkt.request = packet ++ padding → packet.length ≤ pkt.requestSize.toNat →
        pkt.requestSize ≤ pkt.requestMax →
        (∀ temp ∈ pkt.requestTemp, pkt.requestMax.toNat ≤ temp.length) →
        headerSize ≤ pkt.responseMax.toNat → pkt.driverResult = 0 →
        ∃ pkt', hostPacketReceive pkt args0 = some (.received pkt'
          { command := command
            version := version
            params := outdata
            paramsSize := UInt16.ofNat outdata.length
            responseMax := pkt.responseMax - 8
            responseSize := 0
            result := ecResSuccess })

/-- The response packet `pkt` that was built for `result` and `data` makes the master return
them. -/
def ResponseArrives (pkt : HostPacket) (result : UInt16) (data : Bytes) : Prop :=
  ∀ (bus : Bus) (bufs : Buffers) (command : UInt16) (version : UInt8) (outdata indata : Bytes),
    bus.fails₁ = false → bus.fails₂ = false →
    (∀ request, bus.reply request = slaveReply (i2cResponse pkt)) →
    headerSize + 1 + outdata.length ≤ ecLpcHostPacketSize → data.length ≤ indata.length →
    pdHostCommandInternal bus bufs command.toUInt32 version.toUInt32 outdata indata =
      some (expectedReturn result data indata)

/-- `req_buf` is one byte too short for the longest request that is not refused. -/
theorem requestArrives_iff (command : UInt16) (version : UInt8) (outdata : Bytes) :
    (outdata.length + headerSize ≤ ecLpcHostPacketSize → RequestArrives command version outdata) ↔
      outdata.length ≠ 248 := by
  constructor
  · intro h hlong
    obtain ⟨packet, hfill, -⟩ := h (by rw [hlong]; decide) (Arr.replicate _ 0)
    rw [fillRequest_eq_none (Arr.replicate _ 0).property _ _ (by rw [hlong]; decide)] at hfill
    cases hfill
  · intro hne hle reqBuf
    have hout : outdata.length ≤ 247 := by
      have hle' : outdata.length + 8 ≤ 256 := hle
      omega
    refine ⟨requestPacket command version outdata, ?_, ?_, ?_⟩
    · refine fillRequest_eq reqBuf.property command version ?_
      show 9 + outdata.length ≤ 256
      omega
    · have hsize : (UInt16.ofNat outdata.length).toNat = outdata.length := by
        rw [UInt16.toNat_ofNat']
        exact Nat.mod_eq_of_lt (by omega)
      rw [requestPacket, Request.codec.decode_encode, hostRequestExpectedSize,
        if_neg (by simp [requestHeader]), if_neg (by simp [requestHeader]), List.length_append,
        Request.codec.length_encode]
      show headerSize + (UInt16.ofNat outdata.length).toNat = _
      rw [hsize]
      rfl
    · intro pkt args0 padding hrequest hsize hmax htemp hresponse hdriver
      exact hostPacketReceive_requestPacket command version (by omega) pkt args0 hrequest hsize hmax
        htemp hresponse hdriver

/-- What the slave sends for the packet. -/
theorem i2cResponse_eq {pkt : HostPacket} {result size : UInt16} {data post : Bytes}
    (hlen : data.length = size.toNat) (hfits : headerSize + size.toNat < 2 ^ 16) :
    i2cResponse { pkt with
      response := responsePacket result size data ++ post
      responseSize := 8 + size
      driverResult := result } =
        result.toUInt8 :: (8 + size).toUInt8 :: responsePacket result size data := by
  have hsize : ((8 : UInt16) + size).toNat = (responsePacket result size data).length := by
    rw [length_responsePacket, hlen, UInt16.toNat_add]
    exact Nat.mod_eq_of_lt hfits
  simp only [i2cResponse, hsize, List.take_left]

/-- What the master returns is what it should return, if the packet is shorter than the longest
one and the result is in its low byte. -/
theorem return_eq_iff {result size : UInt16} {data : Bytes} (hlen : data.length = size.toNat)
    (herror : result ≠ 0 → size = 0) (indata : Bytes) :
    ((if headerSize + size.toNat = 255 then none
      else if result.toUInt8 = 0 then some ((size.toNat : Int), data ++ indata.drop data.length)
      else some (-(result.toUInt8.toNat : Int), indata)) = some (expectedReturn result data indata)) ↔
      result.toNat < 256 ∧ size.toNat ≠ 247 := by
  have hlow : result.toUInt8.toNat = result.toNat % 256 := UInt16.toNat_toUInt8 result
  have hlowZero : result.toUInt8 = 0 ↔ result.toNat % 256 = 0 := by
    rw [← hlow, ← UInt8.toNat_inj]
    rfl
  have hzero : result = 0 ↔ result.toNat = 0 := by
    rw [← UInt16.toNat_inj]
    rfl
  by_cases hlong : headerSize + size.toNat = 255
  · rw [if_pos hlong]
    have hsize : size.toNat = 247 := Nat.add_left_cancel (hlong : 8 + size.toNat = 8 + 247)
    simp [hsize]
  · have hsize : size.toNat ≠ 247 := fun h => hlong (by rw [h]; rfl)
    rw [if_neg hlong]
    by_cases hresult : result = 0
    · subst hresult
      simp [expectedReturn, hlen, hsize]
    · have hpos : result.toNat ≠ 0 := fun h => hresult (hzero.mpr h)
      by_cases hlowByte : result.toUInt8 = 0
      · have hmod := hlowZero.mp hlowByte
        rw [if_pos hlowByte]
        simp only [expectedReturn, if_neg hresult, Option.some.injEq, Prod.mk.injEq, hsize, ne_eq,
          not_false_eq_true, and_true]
        constructor
        · rintro ⟨hret, -⟩
          lia
        · intro hsmall
          lia
      · rw [if_neg hlowByte]
        simp only [expectedReturn, if_neg hresult, Option.some.injEq, Prod.mk.injEq, hsize, ne_eq,
          not_false_eq_true, and_true, hlow]
        lia

/-- `resp_buf` is one byte too short for the longest response, and the result has one byte. -/
theorem responseArrives_iff {pkt : HostPacket} {result size : UInt16} {data : Bytes}
    (hlen : data.length = size.toNat) (hshort : headerSize + size.toNat ≤ 255)
    (herror : result ≠ 0 → size = 0)
    (hresponse : i2cResponse pkt =
      result.toUInt8 :: (8 + size).toUInt8 :: responsePacket result size data) :
    ResponseArrives pkt result data ↔ result.toNat < 256 ∧ size.toNat ≠ 247 := by
  constructor
  · intro h
    -- A request without data and a buffer that has just room for the response.
    have hret := h ⟨false, false, fun _ => slaveReply (i2cResponse pkt)⟩
      ⟨Arr.replicate _ 0, Arr.replicate _ 0⟩ 0 0 [] data rfl rfl (fun _ => rfl) (by decide) le_rfl
    rw [pdHostCommandInternal_eq rfl rfl _ 0 0 (by decide) hlen hshort le_rfl
      (fun _ => congrArg slaveReply hresponse)] at hret
    exact (return_eq_iff hlen herror data).mp hret
  · intro h bus bufs command version outdata indata hfails₁ hfails₂ hreply hout hin
    rw [pdHostCommandInternal_eq hfails₁ hfails₂ bufs command version hout hlen hshort hin
      (fun request => (hreply request).trans (congrArg slaveReply hresponse))]
    exact (return_eq_iff hlen herror indata).mpr h

/-- **Host command packets.** A request that is not refused arrives at the slave, unless it has
the greatest size that is not refused: then it is written past the end of `req_buf`.  The packet of
a response sums to zero, fits, and makes the master return the result or the data, unless it
has the greatest length that fits the length byte: then it is written past the end of
`resp_buf`; and unless the result code has more than one byte. -/
theorem host_packet_round_trip_iff (command : UInt16) (version : UInt8) (outdata : Bytes)
    (pkt : HostPacket) (args : HandlerArgs) (hmax : headerSize ≤ pkt.responseMax.toNat)
    (hbuf : pkt.responseMax.toNat ≤ pkt.response.length) :
    ((outdata.length + headerSize ≤ ecLpcHostPacketSize → RequestArrives command version outdata) ↔
      outdata.length ≠ 248) ∧
    ∃ pkt' data, hostPacketRespond pkt args = some pkt' ∧
      loadAt pkt.response headerSize (clip pkt args).2.toNat = some data ∧
      pkt'.responseSize.toNat = headerSize + data.length ∧ pkt'.responseSize ≤ pkt.responseMax ∧
      (pkt'.response.take pkt'.responseSize.toNat).sum = 0 ∧
      ((pkt'.responseSize.toNat ≤ 255 → ResponseArrives pkt' (clip pkt args).1 data) ↔
        args.result.toNat < 256 ∧
          ¬ (args.result = 0 ∧ args.responseSize = 247 ∧ 255 ≤ pkt.responseMax)) := by
  refine ⟨requestArrives_iff command version outdata, ?_⟩
  obtain ⟨result, size, hclip⟩ : ∃ result size, clip pkt args = (result, size) := ⟨_, _, rfl⟩
  have hmax16 : pkt.responseMax.toNat < 2 ^ 16 := pkt.responseMax.toNat_lt
  obtain ⟨hfits, herror, hcondition⟩ := clip_spec hmax hclip
  obtain ⟨data, hdata⟩ : ∃ data, loadAt pkt.response headerSize size.toNat = some data :=
    ⟨_, loadAt_eq_some (by omega)⟩
  obtain ⟨-, -, -, -, hlen⟩ := loadAt_split hdata
  have hsize : ((8 : UInt16) + size).toNat = headerSize + size.toNat := by
    rw [UInt16.toNat_add]
    exact Nat.mod_eq_of_lt (by show headerSize + size.toNat < 2 ^ 16; omega)
  obtain ⟨post, hrespond⟩ := hostPacketRespond_eq hclip hdata
  rw [hclip]
  refine ⟨_, _, hrespond, hdata, ?_, ?_, ?_, ?_⟩
  · rw [hlen]
    exact hsize
  · rw [UInt16.le_iff_toNat_le]
    show ((8 : UInt16) + size).toNat ≤ _
    rw [hsize]
    exact hfits
  · show ((responsePacket result size _ ++ post).take ((8 : UInt16) + size).toNat).sum = 0
    rw [hsize, ← hlen, ← length_responsePacket result size, List.take_left]
    exact sum_responsePacket result size _
  · rw [← hcondition]
    show (((8 : UInt16) + size).toNat ≤ 255 → _) ↔ _
    rw [hsize]
    refine forall_congr' fun hshort => ?_
    exact responseArrives_iff hlen hshort herror (i2cResponse_eq hlen (by omega))

/-- A response of four bytes in a buffer of 16. -/
theorem host_packet_round_trip_iff_small :
    ∃ pkt' data, hostPacketRespond
        ⟨[], none, 0, 0, List.replicate 16 1, 16, 0, 0⟩ ⟨1, 0, [], 0, 8, 4, 0⟩ = some pkt' ∧
      data = [1, 1, 1, 1] ∧ ResponseArrives pkt' 0 data := by
  obtain ⟨-, pkt', data, hrespond, hload, hsize, -, -, hiff⟩ := host_packet_round_trip_iff 1 0 []
    ⟨[], none, 0, 0, List.replicate 16 1, 16, 0, 0⟩ ⟨1, 0, [], 0, 8, 4, 0⟩ (by decide) (by decide)
  have hdata : data = [1, 1, 1, 1] := by
    have hfour : loadAt (List.replicate 16 (1 : UInt8)) 8 4 = some [1, 1, 1, 1] := by decide
    exact Option.some.inj (hload.symm.trans hfour)
  subst hdata
  exact ⟨pkt', _, hrespond, rfl, hiff.mpr (by decide) (by rw [hsize]; decide)⟩

/-- **A request of 248 bytes.** It is not refused, and its last byte does not fit `req_buf`. -/
theorem host_request_overflows :
    (List.replicate 248 (0 : UInt8)).length + headerSize ≤ ecLpcHostPacketSize ∧
      ¬ RequestArrives 1 0 (List.replicate 248 0) := by
  refine ⟨by rw [List.length_replicate]; decide, ?_⟩
  intro h
  exact (requestArrives_iff 1 0 (List.replicate 248 0)).mp (fun _ => h) List.length_replicate

end HostCommand
end CrosEc
