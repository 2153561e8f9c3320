import CrosEc.HostCommand.PacketRoundTrip

/-!
# The master and any slave

Whatever bytes come back, the master should stay inside its buffers, and should return an error
or the length of data that the header of the response announces and the checksum covers.  There
are three lengths: `outsize` with what is sent in front of the data, the length byte behind the
result, and `data_len` in the header.  Each is checked against a limit, but not against another
one, and two of the limits leave out the bytes in front of a packet.
-/

namespace CrosEc
namespace HostCommand

open Lib Codec

/-! ## The bytes of the slave -/

@[simp] theorem length_receiveBytes (reply : Nat → UInt8) (off len : Nat) :
    (receiveBytes reply off len).length = len := by
  simp [receiveBytes]

theorem receiveBytes_add (reply : Nat → UInt8) (off len more : Nat) :
    receiveBytes reply off (len + more) =
      receiveBytes reply off len ++ receiveBytes reply (off + len) more := by
  simp only [receiveBytes, List.range_add, List.map_append, List.map_map, Nat.add_assoc]
  rfl

/-- The bytes of the header and of the data. -/
def headerBytes (reply : Nat → UInt8) : Bytes := receiveBytes reply 2 headerSize

def dataBytes (reply : Nat → UInt8) (len : Nat) : Bytes := receiveBytes reply (2 + headerSize) len

/-- The header of the response. -/
def replyHeader (reply : Nat → UInt8) : Response := Response.codec.decode (headerBytes reply)

/-- The answer to the request, as it is sent. -/
def answer (bus : Bus) (command version : UInt32) (outdata : Bytes) : Nat → UInt8 :=
  bus.reply (ecCommandProtocol3 :: requestPacket command.toUInt16 version.toUInt8 outdata)

/-- `pd_host_command_internal` survives: it stays inside the buffers, and returns an error or a
length `len` that fits `indata` and is the length in the header; the checksum is over the header
and `len` bytes of `indata`. -/
def Survives (bus : Bus) (bufs : Buffers) (command version : UInt32) (outdata indata : Bytes) :
    Prop :=
  ∃ ret indata', pdHostCommandInternal bus bufs command version outdata indata =
      some (ret, indata') ∧
    (ret < 0 ∨ ∃ len : Nat, ret = len ∧ len ≤ indata.length ∧
      (replyHeader (answer bus command version outdata)).dataLen.toNat = len ∧
      (headerBytes (answer bus command version outdata) ++ indata'.take len).sum = 0)

/-- A response without an error that passes every check of the master. -/
structure PassesChecks (reply : Nat → UInt8) (insize : Nat) : Prop where
  result_eq : reply 0 = 0
  header_le : headerSize ≤ (reply 1).toNat
  length_le : (reply 1).toNat ≤ insize + headerSize
  version_eq : (replyHeader reply).structVersion = ecHostResponseVersion
  reserved_eq : (replyHeader reply).reserved = 0
  dataLen_le : (replyHeader reply).dataLen.toNat ≤ insize
  sum_eq : (headerBytes reply ++ dataBytes reply ((reply 1).toNat - headerSize)).sum = 0

/-! ## The request -/

theorem fillRequest_of_lt (bufs : Buffers) (command version : UInt32) {outdata : Bytes}
    (hshort : outdata.length + headerSize < ecLpcHostPacketSize) :
    fillRequest bufs.reqBuf.val command version outdata =
      some (ecCommandProtocol3 :: requestPacket command.toUInt16 version.toUInt8 outdata) := by
  have htruncates : fillRequest bufs.reqBuf.val command version outdata =
      fillRequest bufs.reqBuf.val command.toUInt16.toUInt32 version.toUInt8.toUInt32 outdata := by
    rw [fillRequest, fillRequest, UInt16.toUInt16_toUInt32, UInt8.toUInt8_toUInt32]
  rw [htruncates]
  exact fillRequest_eq bufs.reqBuf.property _ _ (by omega)

/-- The check of `outsize` leaves out the protocol byte. -/
theorem pdHostCommandInternal_full (bus : Bus) (bufs : Buffers) (command version : UInt32)
    {outdata : Bytes} (hfull : outdata.length + headerSize = ecLpcHostPacketSize)
    (indata : Bytes) :
    pdHostCommandInternal bus bufs command version outdata indata = none := by
  rw [pdHostCommandInternal, if_neg (by omega),
    fillRequest_eq_none bufs.reqBuf.property command version (by omega)]
  rfl

/-! ## The response -/

/-- What the master makes of a `resp_buf` that holds the response. -/
theorem parseResponse_cases {respBuf : Bytes} (hbuf : respBuf.length = ecLpcHostPacketSize)
    {respLen : Nat} (hlen : respLen ≤ 254) (indata : Bytes)
    (hin : respLen ≤ indata.length + headerSize) :
    ∃ header data indata', loadAt respBuf 2 headerSize = some header ∧
      loadAt respBuf (headerSize + 2) (respLen - headerSize) = some data ∧
      storeAt indata 0 data = some indata' ∧
      parseResponse respBuf respLen indata =
        if (Response.codec.decode header).structVersion ≠ ecHostResponseVersion then
          some (-(ecResInvalidResponse.toNat : Int), indata)
        else if (Response.codec.decode header).reserved ≠ 0 then
          some (-(ecResInvalidResponse.toNat : Int), indata)
        else if (Response.codec.decode header).dataLen.toNat > indata.length then
          some (-(ecResResponseTooBig.toNat : Int), indata)
        else if header.sum + data.sum ≠ 0 then
          some (-(ecResInvalidChecksum.toNat : Int), indata')
        else some ((respLen : Int) - headerSize, indata') := by
  have hsize : headerSize = 8 := rfl
  have htotal : ecLpcHostPacketSize = 256 := rfl
  have hheader : loadAt respBuf 2 headerSize = some _ := loadAt_eq_some (by lia)
  have hdata : loadAt respBuf (headerSize + 2) (respLen - headerSize) = some _ :=
    loadAt_eq_some (by lia)
  generalize (respBuf.drop 2).take headerSize = header at hheader
  generalize (respBuf.drop (headerSize + 2)).take (respLen - headerSize) = data at hdata
  obtain ⟨-, -, -, -, hdataLen⟩ := loadAt_split hdata
  have hroom : 0 + data.length ≤ indata.length := by lia
  obtain ⟨indata', hstore, -⟩ := storeAt_isSome hroom
  refine ⟨header, data, indata', hheader, hdata, hstore, ?_⟩
  simp only [parseResponse, hheader, hdata, hstore, Option.bind_eq_bind, Option.bind_some]
  rfl

/-- The two bytes in front of the packet, and then the packet, if it fits. -/
theorem storeAt_response {respBuf : Bytes} (hbuf : respBuf.length = ecLpcHostPacketSize)
    (reply : Nat → UInt8) (respLen : Nat) :
    ∃ respBuf₁, storeAt respBuf 0 (receiveBytes reply 0 2) = some respBuf₁ ∧
      (254 < respLen → storeAt respBuf₁ 2 (receiveBytes reply 2 respLen) = none) ∧
      (respLen ≤ 254 → ∃ post, storeAt respBuf₁ 2 (receiveBytes reply 2 respLen) =
          some (receiveBytes reply 0 2 ++ receiveBytes reply 2 respLen ++ post) ∧
        (receiveBytes reply 0 2 ++ receiveBytes reply 2 respLen ++ post).length =
          ecLpcHostPacketSize) := by
  have htotal : ecLpcHostPacketSize = 256 := rfl
  have hstore₁ : storeAt ([] ++ respBuf) ([] : Bytes).length (receiveBytes reply 0 2) = some _ :=
    storeAt_append [] (by simp [hbuf, htotal])
  refine ⟨_, hstore₁, ?_, ?_⟩
  · intro hlong
    rw [storeAt, if_neg]
    simp only [List.length_append, List.length_drop, length_receiveBytes, hbuf, List.length_nil]
    lia
  · intro hfits
    refine ⟨_, storeAt_append (receiveBytes reply 0 2) ?_, ?_⟩
    · simp only [List.length_drop, length_receiveBytes]
      lia
    · simp only [List.length_append, List.length_drop, length_receiveBytes, hbuf]
      lia

/-- The master after a request that fits. -/
theorem pdHostCommandInternal_answer {bus : Bus} (bufs : Buffers) {command version : UInt32}
    {outdata : Bytes} (hshort : outdata.length + headerSize < ecLpcHostPacketSize)
    {reply : Nat → UInt8} (hreply : answer bus command version outdata = reply) (indata : Bytes) :
    (bus.fails₁ = true ∧ pdHostCommandInternal bus bufs command version outdata indata =
      some (-(ecResBusError.toNat : Int), indata)) ∨
    (bus.fails₁ = false ∧ indata.length + headerSize < (reply 1).toNat ∧
      pdHostCommandInternal bus bufs command version outdata indata =
        some (-(ecResResponseTooBig.toNat : Int), indata)) ∨
    (bus.fails₁ = false ∧ (reply 1).toNat ≤ indata.length + headerSize ∧ 254 < (reply 1).toNat ∧
      pdHostCommandInternal bus bufs command version outdata indata = none) ∨
    (bus.fails₁ = false ∧ (reply 1).toNat ≤ indata.length + headerSize ∧ (reply 1).toNat ≤ 254 ∧
      ∃ post : Bytes,
        (receiveBytes reply 0 2 ++ receiveBytes reply 2 (reply 1).toNat ++ post).length =
          ecLpcHostPacketSize ∧
        pdHostCommandInternal bus bufs command version outdata indata =
          if bus.fails₂ then some (-(ecResBusError.toNat : Int), indata)
          else if reply 0 ≠ 0 then some (-((reply 0).toNat : Int), indata)
          else parseResponse (receiveBytes reply 0 2 ++ receiveBytes reply 2 (reply 1).toNat ++ post)
            (reply 1).toNat indata) := by
  obtain ⟨respBuf₁, hstore₁, hnone, hsome⟩ :=
    storeAt_response bufs.respBuf.property reply (reply 1).toNat
  rw [answer] at hreply
  have hsteps : pdHostCommandInternal bus bufs command version outdata indata =
      if bus.fails₁ then some (-(ecResBusError.toNat : Int), indata)
      else if (reply 1).toNat > indata.length + headerSize then
        some (-(ecResResponseTooBig.toNat : Int), indata)
      else (storeAt respBuf₁ 2 (receiveBytes reply 2 (reply 1).toNat)).bind fun respBuf =>
        if bus.fails₂ then some (-(ecResBusError.toNat : Int), indata)
        else if reply 0 ≠ 0 then some (-((reply 0).toNat : Int), indata)
        else parseResponse respBuf (reply 1).toNat indata := by
    rw [pdHostCommandInternal, if_neg (by omega), fillRequest_of_lt bufs command version hshort]
    simp only [Option.bind_eq_bind, Option.bind_some, hreply, hstore₁]
    rfl
  rw [hsteps]
  cases hfails₁ : bus.fails₁ with
  | true => exact Or.inl ⟨rfl, if_pos rfl⟩
  | false =>
      refine Or.inr ?_
      simp only [Bool.false_eq_true, if_false, true_and]
      by_cases hbig : (reply 1).toNat > indata.length + headerSize
      · exact Or.inl ⟨hbig, if_pos hbig⟩
      rw [if_neg hbig]
      by_cases hlong : 254 < (reply 1).toNat
      · exact Or.inr (Or.inl ⟨by omega, hlong, by rw [hnone hlong]; rfl⟩)
      · obtain ⟨post, hstore₂, hlength⟩ := hsome (by omega)
        exact Or.inr (Or.inr ⟨by omega, by omega, post, hlength, by rw [hstore₂]; rfl⟩)

/-- Where the header and the data are in `resp_buf`. -/
theorem loadAt_response (reply : Nat → UInt8) {respLen : Nat} (hheader : headerSize ≤ respLen)
    (post : Bytes) :
    loadAt (receiveBytes reply 0 2 ++ receiveBytes reply 2 respLen ++ post) 2 headerSize =
        some (headerBytes reply) ∧
      loadAt (receiveBytes reply 0 2 ++ receiveBytes reply 2 respLen ++ post) (headerSize + 2)
        (respLen - headerSize) = some (dataBytes reply (respLen - headerSize)) := by
  have hsplit : receiveBytes reply 2 respLen =
      headerBytes reply ++ dataBytes reply (respLen - headerSize) := by
    conv_lhs => rw [← Nat.add_sub_cancel' hheader]
    exact receiveBytes_add reply 2 headerSize _
  constructor
  · rw [hsplit, ← List.append_assoc, List.append_assoc]
    exact loadAt_middle _ _ (length_receiveBytes _ _ _) (length_receiveBytes _ _ _)
  · rw [hsplit, ← List.append_assoc]
    refine loadAt_middle _ _ ?_ (length_receiveBytes _ _ _)
    rw [List.length_append, length_receiveBytes, headerBytes, length_receiveBytes, Nat.add_comm]

/-- A response that arrives makes the master return an error, or passes its checks. -/
theorem parseResponse_answer (reply : Nat → UInt8) (hlen : (reply 1).toNat ≤ 254) {indata : Bytes}
    (hin : (reply 1).toNat ≤ indata.length + headerSize) (hresult : reply 0 = 0) {post : Bytes}
    (hbuf : (receiveBytes reply 0 2 ++ receiveBytes reply 2 (reply 1).toNat ++ post).length =
      ecLpcHostPacketSize) :
    ∃ ret indata', parseResponse
        (receiveBytes reply 0 2 ++ receiveBytes reply 2 (reply 1).toNat ++ post) (reply 1).toNat
        indata = some (ret, indata') ∧
      ((ret < 0 ∧ ¬ PassesChecks reply indata.length) ∨
        (PassesChecks reply indata.length ∧ ret = ((reply 1).toNat - headerSize : Nat) ∧
          indata'.take ((reply 1).toNat - headerSize) =
            dataBytes reply ((reply 1).toNat - headerSize))) := by
  obtain ⟨header, data, indata', hloadHeader, hloadData, hstore, heq⟩ :=
    parseResponse_cases hbuf hlen indata hin
  by_cases hheader : headerSize ≤ (reply 1).toNat
  · obtain ⟨hloadHeader', hloadData'⟩ := loadAt_response reply hheader post
    obtain rfl := Option.some.inj (hloadHeader.symm.trans hloadHeader')
    obtain rfl := Option.some.inj (hloadData.symm.trans hloadData')
    rw [heq]
    split_ifs with hversion hreserved hdataLen hsum
    · exact ⟨_, _, rfl, Or.inl ⟨by decide, fun h => hversion h.version_eq⟩⟩
    · exact ⟨_, _, rfl, Or.inl ⟨by decide, fun h => hreserved h.reserved_eq⟩⟩
    · exact ⟨_, _, rfl, Or.inl ⟨by decide, fun h => absurd h.dataLen_le (Nat.not_le.mpr hdataLen)⟩⟩
    · refine ⟨_, _, rfl, Or.inl ⟨by decide, fun h => hsum ?_⟩⟩
      rw [← sum_append]
      exact h.sum_eq
    · refine ⟨_, _, rfl, Or.inr ⟨⟨hresult, hheader, hin, not_not.mp hversion,
        not_not.mp hreserved, Nat.le_of_not_lt hdataLen, ?_⟩, ?_, ?_⟩⟩
      · rw [sum_append]
        exact not_not.mp hsum
      · omega
      · obtain ⟨pre, post', rfl, hpre, hlength⟩ := loadAt_split (loadAt_storeAt hstore)
        obtain rfl := List.length_eq_zero_iff.mp hpre
        rw [List.nil_append]
        exact List.take_left' (length_receiveBytes _ _ _)
  · -- The length byte is less than a header: what is left of it is negative.
    have hnot : ¬ PassesChecks reply indata.length := fun h => hheader h.header_le
    rw [heq]
    split_ifs
    · exact ⟨_, _, rfl, Or.inl ⟨by decide, hnot⟩⟩
    · exact ⟨_, _, rfl, Or.inl ⟨by decide, hnot⟩⟩
    · exact ⟨_, _, rfl, Or.inl ⟨by decide, hnot⟩⟩
    · exact ⟨_, _, rfl, Or.inl ⟨by decide, hnot⟩⟩
    · exact ⟨_, _, rfl, Or.inl ⟨by omega, hnot⟩⟩

/-! ## Survival -/

/-- What is returned for a response that passes the checks is as long as the length byte says. -/
theorem length_iff_of_passesChecks {reply : Nat → UInt8} {indata indata' : Bytes}
    (hpasses : PassesChecks reply indata.length)
    (hdata : indata'.take ((reply 1).toNat - headerSize) =
      dataBytes reply ((reply 1).toNat - headerSize)) :
    (∃ len : Nat, (((reply 1).toNat - headerSize : Nat) : Int) = len ∧ len ≤ indata.length ∧
        (replyHeader reply).dataLen.toNat = len ∧
        (headerBytes reply ++ indata'.take len).sum = 0) ↔
      (reply 1).toNat = headerSize + (replyHeader reply).dataLen.toNat := by
  have hheader := hpasses.header_le
  have hfits := hpasses.length_le
  constructor
  · rintro ⟨len, hlen, -, hdataLen, -⟩
    have hnat := Int.ofNat.inj hlen
    lia
  · intro hlen
    refine ⟨(reply 1).toNat - headerSize, rfl, by lia, by lia, ?_⟩
    rw [hdata]
    exact hpasses.sum_eq

section Survives

variable {bus : Bus} {bufs : Buffers} {command version : UInt32} {outdata indata indata' : Bytes}

theorem survives_of_error {ret : Int}
    (h : pdHostCommandInternal bus bufs command version outdata indata = some (ret, indata'))
    (hneg : ret < 0) : Survives bus bufs command version outdata indata :=
  ⟨ret, indata', h, Or.inl hneg⟩

theorem not_survives_of_none
    (h : pdHostCommandInternal bus bufs command version outdata indata = none) :
    ¬ Survives bus bufs command version outdata indata := by
  rintro ⟨ret, indata', hsome, -⟩
  rw [h] at hsome
  cases hsome

/-- When both transfers stay inside the buffers, only the length in the header can be wrong. -/
theorem survives_answer_iff {reply : Nat → UInt8}
    (hreply : answer bus command version outdata = reply) (hlen : (reply 1).toNat ≤ 254)
    (hin : (reply 1).toNat ≤ indata.length + headerSize) {post : Bytes}
    (hbuf : (receiveBytes reply 0 2 ++ receiveBytes reply 2 (reply 1).toNat ++ post).length =
      ecLpcHostPacketSize)
    (heq : pdHostCommandInternal bus bufs command version outdata indata =
      if bus.fails₂ then some (-(ecResBusError.toNat : Int), indata)
      else if reply 0 ≠ 0 then some (-((reply 0).toNat : Int), indata)
      else parseResponse (receiveBytes reply 0 2 ++ receiveBytes reply 2 (reply 1).toNat ++ post)
        (reply 1).toNat indata) :
    Survives bus bufs command version outdata indata ↔
      (bus.fails₂ = false → PassesChecks reply indata.length →
        (reply 1).toNat = headerSize + (replyHeader reply).dataLen.toNat) := by
  cases hfails₂ : bus.fails₂ with
  | true =>
      rw [hfails₂, if_pos rfl] at heq
      refine iff_of_true (survives_of_error heq (by decide)) ?_
      rintro ⟨⟩
  | false =>
      rw [hfails₂, if_neg Bool.false_ne_true] at heq
      by_cases hresult : reply 0 = 0
      · rw [if_neg (not_not.mpr hresult)] at heq
        obtain ⟨ret, indata', hparse, ⟨hneg, hnot⟩ | ⟨hpasses, rfl, hdata⟩⟩ :=
          parseResponse_answer reply hlen hin hresult hbuf
        · exact iff_of_true (survives_of_error (heq.trans hparse) hneg) fun _ h => absurd h hnot
        · rw [← length_iff_of_passesChecks hpasses hdata]
          rw [hparse] at heq
          simp only [Survives, heq, hreply, forall_const, hpasses]
          constructor
          · rintro ⟨_, _, hsome, hneg | hlength⟩
            · cases hsome
              omega
            · cases hsome
              exact hlength
          · exact fun hlength => ⟨_, _, rfl, Or.inr hlength⟩
      · rw [if_pos hresult] at heq
        have hpos : 0 < (reply 0).toNat := Nat.pos_of_ne_zero fun h => hresult (UInt8.toNat_inj.mp h)
        refine iff_of_true (survives_of_error heq (by omega)) fun _ h => ?_
        exact absurd h.result_eq hresult

end Survives

/-- **The master survives all but three kinds of calls.** The request must not fill a packet to
its last byte.  If it is sent, the length byte must not be the one value that is too long for
`resp_buf`, and a response that passes the checks must announce in its header the length that the
length byte gives it. -/
theorem survives_iff (bus : Bus) (bufs : Buffers) (command version : UInt32)
    (outdata indata : Bytes) :
    Survives bus bufs command version outdata indata ↔
      outdata.length + headerSize ≠ ecLpcHostPacketSize ∧
      (outdata.length + headerSize < ecLpcHostPacketSize → bus.fails₁ = false →
        ¬ (answer bus command version outdata 1 = 255 ∧ 255 ≤ indata.length + headerSize) ∧
        (bus.fails₂ = false →
          PassesChecks (answer bus command version outdata) indata.length →
          (answer bus command version outdata 1).toNat =
            headerSize + (replyHeader (answer bus command version outdata)).dataLen.toNat)) := by
  generalize hreply : answer bus command version outdata = reply
  have hlt := (reply 1).toNat_lt
  have hbyte : reply 1 = 255 ↔ 254 < (reply 1).toNat := by
    rw [← UInt8.toNat_inj]
    show (reply 1).toNat = 255 ↔ _
    omega
  rcases Nat.lt_trichotomy (outdata.length + headerSize) ecLpcHostPacketSize with
    hshort | hfull | hlong
  · simp only [Nat.ne_of_lt hshort, ne_eq, not_false_eq_true, hshort, forall_const, true_and, hbyte]
    rcases pdHostCommandInternal_answer bufs hshort hreply indata with
      ⟨hfails, heq⟩ | ⟨hfails, hbig, heq⟩ | ⟨hfails, hin, hlong, heq⟩ |
      ⟨hfails, hin, hlen, post, hbuf, heq⟩
    · refine iff_of_true (survives_of_error heq (by decide)) ?_
      simp [hfails]
    · refine iff_of_true (survives_of_error heq (by decide)) fun _ => ⟨by omega, fun _ h => ?_⟩
      exact absurd h.length_le (by omega)
    · refine iff_of_false (not_survives_of_none heq) fun h => (h hfails).1 ⟨hlong, by omega⟩
    · rw [survives_answer_iff hreply hlen hin hbuf heq]
      simp only [hfails, forall_const]
      refine (and_iff_right ?_).symm
      omega
  · refine iff_of_false (not_survives_of_none ?_) fun h => h.1 hfull
    exact pdHostCommandInternal_full bus bufs command version hfull indata
  · refine iff_of_true (survives_of_error (if_pos hlong) (by decide)) ⟨by omega, fun h => ?_⟩
    omega

/-- **A response of nine bytes whose header announces no data.** The master returns the length 1.
Also, a request of 248 bytes is not refused, and does not fit `req_buf`. -/
theorem not_survives_misannounced :
    ¬ Survives ⟨false, false, fun _ => slaveReply [0, 9, 3, 252, 0, 0, 0, 0, 0, 0, 1]⟩
        ⟨readBlob _ [], readBlob _ []⟩ 0 0 [] [0] ∧
      ¬ Survives ⟨true, true, fun _ => slaveReply []⟩ ⟨readBlob _ [], readBlob _ []⟩ 0 0
        (List.replicate 248 0) [] := by
  constructor
  · have hreply : answer ⟨false, false, fun _ => slaveReply [0, 9, 3, 252, 0, 0, 0, 0, 0, 0, 1]⟩
        0 0 [] = slaveReply [0, 9, 3, 252, 0, 0, 0, 0, 0, 0, 1] := rfl
    obtain ⟨hfails, -⟩ | ⟨-, hbig, -⟩ | ⟨-, -, hlong, -⟩ | ⟨-, hin, hlen, post, hbuf, heq⟩ :=
      pdHostCommandInternal_answer ⟨readBlob _ [], readBlob _ []⟩ (by decide) hreply [0]
    · cases hfails
    · exact absurd hbig (by decide)
    · exact absurd hlong (by decide)
    · rw [survives_answer_iff hreply hlen hin hbuf heq]
      intro h
      have hlength := h rfl ⟨rfl, by decide, by decide, by decide, by decide, by decide, by decide⟩
      exact absurd hlength (by decide)
  · refine not_survives_of_none (pdHostCommandInternal_full _ _ _ _ ?_ _)
    rw [List.length_replicate]
    rfl

end HostCommand
end CrosEc
