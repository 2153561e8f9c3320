import CrosEc.Common

/-!
# `common/usb_pd_policy.c`: alternate modes

The policy of a port that drives alternate modes: it collects the SVIDs of the partner and their
modes from the answers to its discovery, and enters and exits modes of the table
`supported_modes`.  Everything is about one port.

The model keeps a record of the accesses that it must not make: `strays` is not in the source.
An index outside its array is recorded, and the model goes on as if the array did.  What a null
pointer shows is a parameter, since on these chips the address zero can be read.  The routines of
the board, behind the function pointers, see a state `ω` of the rest of the system; those that
only act on the board (`post_config`, `exit`) are left out, and so are the calls for VCONN and the
charge manager after an identity.
-/

namespace CrosEc
namespace PdPolicy

/-- `SVID_DISCOVERY_MAX` -/
def svidDiscoveryMax : Nat := 16
/-- `PDO_MODES` -/
def pdoModes : Nat := 6
/-- `PD_AMODE_COUNT` -/
def pdAmodeCount : Nat := 2
/-- `USB_SID_PD` -/
def usbSidPd : BitVec 16 := 0xff00#16
/-- `USB_SID_DISPLAYPORT` -/
def usbSidDisplayport : BitVec 16 := 0xff01#16

/-- `CMD_DISCOVER_IDENT` -/
def cmdDiscoverIdent : Nat := 1
/-- `CMD_DISCOVER_SVID` -/
def cmdDiscoverSvid : Nat := 2
/-- `CMD_DISCOVER_MODES` -/
def cmdDiscoverModes : Nat := 3
/-- `CMD_ENTER_MODE` -/
def cmdEnterMode : Nat := 4
/-- `CMD_EXIT_MODE` -/
def cmdExitMode : Nat := 5
/-- `CMD_ATTENTION` -/
def cmdAttention : Nat := 6
/-- `CMD_DP_STATUS` -/
def cmdDpStatus : Nat := 16
/-- `CMD_DP_CONFIG` -/
def cmdDpConfig : Nat := 17

/-! ## Messages -/

/-- A message: the VDM header and the objects behind it. -/
abbrev Payload := Nat → BitVec 32

/-- `payload[0] |= bits` -/
def orHeader (payload : Payload) (bits : BitVec 32) : Payload :=
  Function.update payload 0 (payload 0 ||| bits)

/-- `PD_VDO_VID` -/
def pdVdoVid (vdo : BitVec 32) : BitVec 16 := (vdo >>> 16).setWidth 16
/-- `PD_VDO_OPOS` -/
def pdVdoOpos (vdo : BitVec 32) : Nat := ((vdo >>> 8) &&& 7#32).toNat
/-- `PD_VDO_CMD` -/
def pdVdoCmd (vdo : BitVec 32) : Nat := (vdo &&& 0x1f#32).toNat
/-- `PD_VDO_CMDT` -/
def pdVdoCmdt (vdo : BitVec 32) : Nat := ((vdo >>> 6) &&& 3#32).toNat
/-- `PD_VDO_SVID_SVID0` -/
def pdVdoSvid0 (vdo : BitVec 32) : BitVec 16 := (vdo >>> 16).setWidth 16
/-- `PD_VDO_SVID_SVID1` -/
def pdVdoSvid1 (vdo : BitVec 32) : BitVec 16 := vdo.setWidth 16

/-- `VDO` -/
def vdo (vid : BitVec 16) (type custom : Nat) : BitVec 32 :=
  (vid.setWidth 32 <<< 16) ||| (BitVec.ofNat 32 type <<< 15) |||
    (BitVec.ofNat 32 custom &&& 0x7FFF#32)

/-- `VDO_CMDT` -/
def vdoCmdt (x : Nat) : BitVec 32 := BitVec.ofNat 32 x <<< 6

/-! ## The policy -/

variable {ω : Type}

/-- `struct svdm_amode_fx` -/
structure SvdmAmodeFx (ω : Type) where
  svid : BitVec 16
  enter : ω → BitVec 32 → Int
  status : ω → Payload → Int × Payload
  config : ω → Payload → Int × Payload
  attention : Option (ω → Payload → Payload)

/-- `struct svdm_svid_data` -/
structure SvidData where
  svid : BitVec 16
  modeCnt : Int
  modeVdo : Nat → BitVec 32

/-- `struct svdm_amode_data`; `data` is an index of `svids`. -/
structure AmodeData (ω : Type) where
  fx : Option (SvdmAmodeFx ω)
  opos : Nat
  data : Option Nat

/-- An access that goes wrong: outside one of the arrays, or through a null pointer. -/
inductive Stray where
  | svids
  | modeVdo
  | amodes
  | nullFx
  | nullData
  deriving DecidableEq

/-- `struct pd_policy`, and the record of the stray accesses. -/
structure Policy (ω : Type) where
  svidIdx : Nat
  svidCnt : Nat
  identity : Nat → BitVec 32
  svids : Nat → SvidData
  amodes : Nat → AmodeData ω
  amodeIdx : Nat
  strays : List Stray

/-- `struct svdm_response` -/
structure SvdmResponse (ω : Type) where
  identity : Option (ω → Payload → Int × Payload)
  svids : Option (ω → Payload → Int × Payload)
  modes : Option (ω → Payload → Int × Payload)
  enterMode : Option (ω → Payload → Int × Payload)
  exitMode : Option (ω → Payload → Int × Payload)
  amodeStatus : Option (ω → Payload → Int × Payload)
  amodeConfig : Option (ω → Payload → Int × Payload)

/-- What the board brings along, and what is at the address zero. -/
structure AltModes (ω : Type) where
  supportedModes : List (SvdmAmodeFx ω)
  svdmRsp : SvdmResponse ω
  vdoVer : ω → BitVec 32
  fxAtZero : SvdmAmodeFx ω
  svidDataAtZero : SvidData

namespace Policy

def stray (p : Policy ω) (f : Stray) : Policy ω := { p with strays := f :: p.strays }

/-- The access `svids[i]`. -/
def touchSvids (p : Policy ω) (i : Nat) : Policy ω :=
  if i < svidDiscoveryMax then p else p.stray .svids

/-- The access `mode_vdo[i]`. -/
def touchModeVdo (p : Policy ω) (i : Int) : Policy ω :=
  if 0 ≤ i ∧ i < pdoModes then p else p.stray .modeVdo

/-- The access `amodes[i]`. -/
def touchAmodes (p : Policy ω) (i : Nat) : Policy ω :=
  if i < pdAmodeCount then p else p.stray .amodes

/-- `*amodes[i].fx` -/
def derefFx (p : Policy ω) (env : AltModes ω) (i : Nat) : SvdmAmodeFx ω × Policy ω :=
  let p := p.touchAmodes i
  match (p.amodes i).fx with
  | some fx => (fx, p)
  | none => (env.fxAtZero, p.stray .nullFx)

/-- `*amodes[i].data` -/
def derefData (p : Policy ω) (env : AltModes ω) (i : Nat) : SvidData × Policy ω :=
  let p := p.touchAmodes i
  match (p.amodes i).data with
  | some j => (p.svids j, p.touchSvids j)
  | none => (env.svidDataAtZero, p.stray .nullData)

def setOpos (p : Policy ω) (i opos : Nat) : Policy ω :=
  { p with amodes := Function.update p.amodes i { p.amodes i with opos := opos } }

/-- `svids[i].svid = svid; svid_cnt++;` -/
def addSvid (p : Policy ω) (i : Nat) (svid : BitVec 16) : Policy ω :=
  let p := p.touchSvids i
  { p with
    svids := Function.update p.svids i { p.svids i with svid := svid }
    svidCnt := p.svidCnt + 1 }

/-! ## Discovery -/

/-- `pd_dfp_pe_init` -/
def pdDfpPeInit (p : Policy ω) : Policy ω where
  svidIdx := 0
  svidCnt := 0
  identity := fun _ => 0
  svids := fun _ => ⟨0, 0, fun _ => 0⟩
  amodes := fun _ => ⟨none, 0, none⟩
  amodeIdx := 0
  strays := p.strays

/-- `dfp_consume_identity` -/
def dfpConsumeIdentity (p : Policy ω) (cnt : Nat) (payload : Payload) : Policy ω :=
  { p.pdDfpPeInit with
    identity := fun i => if i < min 6 (cnt - 1) then payload (i + 1) else 0 }

/-- `dfp_discover_svids` -/
def dfpDiscoverSvids (payload : Payload) : Payload :=
  Function.update payload 0 (vdo usbSidPd 1 cmdDiscoverSvid)

/-- The loop of `dfp_consume_svids`, which ends at the last word of the message at the
latest. -/
def consumeSvidsFrom (cnt : Nat) (payload : Payload) : Nat → Nat → Nat → Policy ω → Policy ω
  | 0, _, _, p => p
  | fuel + 1, i, vdo, p =>
      if p.svidCnt + 12 ≤ i then p
      else if i = svidDiscoveryMax then p
      else if cnt ≤ vdo then p
      else if pdVdoSvid0 (payload vdo) = 0 then p
      else
        let p := p.addSvid i (pdVdoSvid0 (payload vdo))
        if pdVdoSvid1 (payload vdo) = 0 then p
        else
          let p := p.addSvid (i + 1) (pdVdoSvid1 (payload vdo))
          consumeSvidsFrom cnt payload fuel (i + 2) (vdo + 1) p

/-- `dfp_consume_svids` -/
def dfpConsumeSvids (p : Policy ω) (cnt : Nat) (payload : Payload) : Policy ω :=
  consumeSvidsFrom cnt payload cnt p.svidCnt 1 p

/-- `dfp_discover_modes` -/
def dfpDiscoverModes (p : Policy ω) (payload : Payload) : (Int × Payload) × Policy ω :=
  let svid := (p.svids p.svidIdx).svid
  let p := p.touchSvids p.svidIdx
  if p.svidCnt ≤ p.svidIdx then ((0, payload), p)
  else ((1, Function.update payload 0 (vdo svid 1 cmdDiscoverModes)), p)

/-- `dfp_consume_modes`.  A message has a header, so the count of its modes is not negative. -/
def dfpConsumeModes (p : Policy ω) (cnt : Nat) (payload : Payload) : Policy ω :=
  let idx := p.svidIdx
  let p := p.touchSvids idx
  let modeVdo := fun k => if k < cnt - 1 then payload (k + 1) else (p.svids idx).modeVdo k
  let p := if cnt - 1 = 0 then p else p.touchModeVdo (cnt - 2)
  { p with
    svids := Function.update p.svids idx
      { p.svids idx with modeCnt := (cnt : Int) - 1, modeVdo := modeVdo }
    svidIdx := p.svidIdx + 1 }

/-! ## Modes -/

/-- The loop of `get_mode_idx`. -/
def getModeIdxFrom (env : AltModes ω) (svid : BitVec 16) :
    Nat → Nat → Policy ω → Option Nat × Policy ω
  | 0, _, p => (none, p)
  | n + 1, i, p =>
      let (fx, p) := p.derefFx env i
      if fx.svid = svid then (some i, p) else getModeIdxFrom env svid n (i + 1) p

/-- `get_mode_idx`, and `get_modep`, whose pointer is given by the index. -/
def getModeIdx (p : Policy ω) (env : AltModes ω) (svid : BitVec 16) : Option Nat × Policy ω :=
  getModeIdxFrom env svid pdAmodeCount 0 p

/-- `pd_alt_mode` -/
def pdAltMode (p : Policy ω) (env : AltModes ω) (svid : BitVec 16) : Int × Policy ω :=
  match p.getModeIdx env svid with
  | (some i, p) => ((p.amodes i).opos, p.touchAmodes i)
  | (none, p) => (-1, p)

/-- The inner loop of `allocate_mode`, over the SVIDs of the partner. -/
def findSvidFrom (fx : SvdmAmodeFx ω) (svid : BitVec 16) :
    Nat → Nat → Policy ω → Option Nat × Policy ω
  | 0, _, p => (none, p)
  | n + 1, j, p =>
      let p := p.touchSvids j
      if (p.svids j).svid ≠ fx.svid ∨ svid ≠ 0 ∧ (p.svids j).svid ≠ svid then
        findSvidFrom fx svid n (j + 1) p
      else (some j, p)

/-- The outer loop of `allocate_mode`, over the supported modes. -/
def findModeFrom (svid : BitVec 16) :
    List (SvdmAmodeFx ω) → Policy ω → Option (SvdmAmodeFx ω × Nat) × Policy ω
  | [], p => (none, p)
  | fx :: modes, p =>
      match findSvidFrom fx svid p.svidCnt 0 p with
      | (some j, p) => (some (fx, j), p)
      | (none, p) => findModeFrom svid modes p

/-- `allocate_mode` -/
def allocateMode (p : Policy ω) (env : AltModes ω) (svid : BitVec 16) : Option Nat × Policy ω :=
  match p.getModeIdx env svid with
  | (some i, p) => (some i, p)
  | (none, p) =>
      if p.amodeIdx = pdAmodeCount then (none, p)
      else
        match findModeFrom svid env.supportedModes p with
        | (none, p) => (none, p)
        | (some (fx, j), p) =>
            let p := p.touchAmodes p.amodeIdx
            let modep := { p.amodes p.amodeIdx with fx := some fx, data := some j }
            (some p.amodeIdx,
              { p with
                amodes := Function.update p.amodes p.amodeIdx modep
                amodeIdx := p.amodeIdx + 1 })

/-- `pd_dfp_enter_mode` from `mode_caps` on. -/
def enterAt (p : Policy ω) (env : AltModes ω) (w : ω) (i : Nat) : BitVec 32 × Policy ω :=
  let opos := (p.amodes i).opos
  let (data, p) := p.derefData env i
  let p := p.touchModeVdo ((opos : Int) - 1)
  let (fx, p) := p.derefFx env i
  if fx.enter w (data.modeVdo (opos - 1)) = -1 then (0, p)
  else (vdo fx.svid 1 (cmdEnterMode ||| opos <<< 8), p)

/-- `pd_dfp_enter_mode` -/
def pdDfpEnterMode (p : Policy ω) (env : AltModes ω) (w : ω) (svid : BitVec 16) (opos : Nat) :
    BitVec 32 × Policy ω :=
  match p.allocateMode env svid with
  | (none, p) => (0, p)
  | (some i, p) =>
      let p := p.touchAmodes i
      if opos = 0 then (p.setOpos i 1).enterAt env w i
      else
        let (data, p) := p.derefData env i
        if (opos : Int) ≤ data.modeCnt then (p.setOpos i opos).enterAt env w i
        else (0, p)

/-- `validate_mode_request` -/
def validateModeRequest (p : Policy ω) (i : Nat) (svid : BitVec 16) (opos : Nat) : Bool :=
  match (p.amodes i).fx with
  | none => false
  | some fx => svid = fx.svid ∧ opos = (p.amodes i).opos

/-- `dfp_consume_attention` -/
def dfpConsumeAttention (p : Policy ω) (env : AltModes ω) (w : ω) (payload : Payload) :
    Payload × Policy ω :=
  let svid := pdVdoVid (payload 0)
  let opos := pdVdoOpos (payload 0)
  match p.getModeIdx env svid with
  | (none, p) => (payload, p)
  | (some i, p) =>
      let p := p.touchAmodes i
      if p.validateModeRequest i svid opos then
        let (fx, p) := p.derefFx env i
        match fx.attention with
        | some attention => (attention w payload, p)
        | none => (payload, p)
      else (payload, p)

/-- `PD_DP_PIN_CAPS` -/
def pdDpPinCaps (x : BitVec 32) : BitVec 32 :=
  if (x >>> 6) &&& 1#32 ≠ 0 then (x >>> 16) &&& 0x3f#32 else (x >>> 8) &&& 0x3f#32

/-- The choice of a pin configuration from `mode_caps` and `status`. -/
def pinMode (modeCaps status : BitVec 32) : Int :=
  let pinCaps := pdDpPinCaps modeCaps
  let pinCaps := if (status >>> 4) &&& 1#32 = 0 then pinCaps &&& ~~~0x2a#32 else pinCaps
  let pinCaps := pinCaps &&& ~~~0x3#32
  let pinCaps :=
    if pinCaps &&& (0x04#32 ||| 0x08#32) ≠ 0 then pinCaps &&& ~~~(0x10#32 ||| 0x20#32)
    else pinCaps
  if pinCaps = 0 then 0 else 2 ^ pinCaps.toNat.log2

/-- `pd_dfp_dp_get_pin_mode` -/
def pdDfpDpGetPinMode (p : Policy ω) (env : AltModes ω) (status : BitVec 32) : Int × Policy ω :=
  match p.getModeIdx env usbSidDisplayport with
  | (none, p) => (0, p)
  | (some i, p) =>
      let opos := (p.amodes i).opos
      let (data, p) := p.derefData env i
      let p := p.touchModeVdo ((opos : Int) - 1)
      (pinMode (data.modeVdo (opos - 1)) status, p)

/-- The loop of `pd_dfp_exit_mode` over all the modes. -/
def exitModesFrom : Nat → Nat → Policy ω → Policy ω
  | 0, _, p => p
  | n + 1, idx, p => exitModesFrom n (idx + 1) (p.touchAmodes idx)

/-- `pd_dfp_exit_mode` -/
def pdDfpExitMode (p : Policy ω) (env : AltModes ω) (svid : BitVec 16) (opos : Nat) :
    Int × Policy ω :=
  if svid = 0 then (0, (exitModesFrom pdAmodeCount 0 p).pdDfpPeInit)
  else
    match p.getModeIdx env svid with
    | (none, p) => (0, p)
    | (some i, p) =>
        let p := p.touchAmodes i
        if p.validateModeRequest i svid opos then
          let (_, p) := p.derefFx env i
          (1, p.setOpos i 0)
        else (0, p)

/-! ## Structured messages -/

/-- `CMDT_INIT` of `pd_svdm`, and the response. -/
def svdmInit (p : Policy ω) (env : AltModes ω) (w : ω) (cmd : Nat) (payload : Payload) :
    (Int × Payload) × Policy ω :=
  if cmd = cmdAttention then
    let (payload, p) := p.dfpConsumeAttention env w payload
    ((0, payload), p)
  else
    let func :=
      if cmd = cmdDiscoverIdent then env.svdmRsp.identity
      else if cmd = cmdDiscoverSvid then env.svdmRsp.svids
      else if cmd = cmdDiscoverModes then env.svdmRsp.modes
      else if cmd = cmdEnterMode then env.svdmRsp.enterMode
      else if cmd = cmdDpStatus then env.svdmRsp.amodeStatus
      else if cmd = cmdDpConfig then env.svdmRsp.amodeConfig
      else if cmd = cmdExitMode then env.svdmRsp.exitMode
      else none
    let (rsize, payload) :=
      match func with
      | some func => func w payload
      | none => (0, payload)
    let (rsize, payload) :=
      if 1 ≤ rsize then (rsize, orHeader payload (vdoCmdt 1))
      else if rsize = 0 then (1, orHeader payload (vdoCmdt 2))
      else (1, orHeader payload (vdoCmdt 3))
    ((rsize, orHeader payload (env.vdoVer w <<< 13)), p)

/-- An answer to `CMD_DISCOVER_MODES`.  After the last SVID the default mode is entered. -/
def ackDiscoverModes (p : Policy ω) (env : AltModes ω) (w : ω) (cnt : Nat) (payload : Payload) :
    (Int × Payload) × Policy ω :=
  match (p.dfpConsumeModes cnt payload).dfpDiscoverModes payload with
  | ((rsize, payload), p) =>
      if rsize = 0 then
        let (header, p) := p.pdDfpEnterMode env w 0 0
        ((if header = 0 then 0 else 1, Function.update payload 0 header), p)
      else ((rsize, payload), p)

/-- An answer to `CMD_ENTER_MODE`, with the slot `i` of its SVID. -/
def ackEnterMode (p : Policy ω) (env : AltModes ω) (w : ω) (payload : Payload) (i : Nat) :
    (Int × Payload) × Policy ω :=
  let p := p.touchAmodes i
  let p := if (p.amodes i).opos = 0 then (p.pdDfpEnterMode env w 0 0).2 else p
  if (p.amodes i).opos = 0 then ((1, payload), p)
  else
    let (fx, p) := p.derefFx env i
    let (rsize, payload) := fx.status w payload
    ((rsize, orHeader payload (BitVec.ofNat 32
      (pdVdoOpos (BitVec.ofNat 32 (p.amodes i).opos)))), p)

/-- An answer to `CMD_DP_STATUS`. -/
def ackDpStatus (p : Policy ω) (env : AltModes ω) (w : ω) (payload : Payload)
    (modep : Option Nat) : (Int × Payload) × Policy ω :=
  match p.dfpConsumeAttention env w payload with
  | (payload, p) =>
      match modep with
      | none => ((0, payload), p)
      | some i =>
          let p := p.touchAmodes i
          if (p.amodes i).opos = 0 then ((0, payload), p)
          else
            let (fx, p) := p.derefFx env i
            (fx.config w payload, p)

/-- An answer to `CMD_DP_CONFIG`, with the slot `i` of its SVID. -/
def ackDpConfig (p : Policy ω) (env : AltModes ω) (payload : Payload) (i : Nat) :
    (Int × Payload) × Policy ω :=
  let p := p.touchAmodes i
  if (p.amodes i).opos = 0 then ((0, payload), p) else ((0, payload), (p.derefFx env i).2)

/-- The `switch` for `CMDT_RSP_ACK` of `pd_svdm`; `modep` is what `get_modep` has found. -/
def svdmAckCmd (p : Policy ω) (env : AltModes ω) (w : ω) (cmd cnt : Nat) (payload : Payload)
    (modep : Option Nat) : (Int × Payload) × Policy ω :=
  if cmd = cmdDiscoverIdent then
    ((1, dfpDiscoverSvids payload), p.dfpConsumeIdentity cnt payload)
  else if cmd = cmdDiscoverSvid then
    (p.dfpConsumeSvids cnt payload).dfpDiscoverModes payload
  else if cmd = cmdDiscoverModes then p.ackDiscoverModes env w cnt payload
  else if cmd = cmdEnterMode then
    match modep with
    | none => ((0, payload), p)
    | some i => p.ackEnterMode env w payload i
  else if cmd = cmdDpStatus then p.ackDpStatus env w payload modep
  else if cmd = cmdDpConfig then
    match modep with
    | none => ((0, payload), p)
    | some i => p.ackDpConfig env payload i
  else ((0, payload), p)

/-- `CMDT_RSP_ACK` of `pd_svdm` -/
def svdmAck (p : Policy ω) (env : AltModes ω) (w : ω) (cmd cnt : Nat) (payload : Payload) :
    (Int × Payload) × Policy ω :=
  let (modep, p) := p.getModeIdx env (pdVdoVid (payload 0))
  match p.svdmAckCmd env w cmd cnt payload modep with
  | ((rsize, payload), p) =>
      ((rsize, orHeader (orHeader payload (vdoCmdt 0)) (env.vdoVer w <<< 13)), p)

/-- `payload[0] &= ~VDO_CMDT_MASK` -/
def clearCmdt (payload : Payload) : Payload :=
  Function.update payload 0 (payload 0 &&& ~~~(vdoCmdt 3))

/-- `pd_svdm` -/
def pdSvdm (p : Policy ω) (env : AltModes ω) (w : ω) (cnt : Nat) (payload : Payload) :
    (Int × Payload) × Policy ω :=
  let cmd := pdVdoCmd (payload 0)
  let cmdType := pdVdoCmdt (payload 0)
  let payload := clearCmdt payload
  if cmdType = 0 then p.svdmInit env w cmd payload
  else if cmdType = 1 then p.svdmAck env w cmd cnt payload
  else if cmdType = 3 then
    ((if cmd = cmdDiscoverIdent ∨ cmd = cmdDiscoverSvid ∨ cmd = cmdDiscoverModes then 1 else 0,
      payload), p)
  else ((0, payload), p)

end Policy

/-! ## Runs -/

/-- A call from the rest of the system. -/
inductive Call (ω : Type) where
  | svdm (w : ω) (cnt : Nat) (payload : Payload)
  | enterMode (w : ω) (svid : BitVec 16) (opos : Nat)
  | exitMode (svid : BitVec 16) (opos : Nat)
  | altMode (svid : BitVec 16)
  | getPinMode (status : BitVec 32)

/-- The policy after a call. -/
def Call.run (env : AltModes ω) (p : Policy ω) : Call ω → Policy ω
  | .svdm w cnt payload => (p.pdSvdm env w cnt payload).2
  | .enterMode w svid opos => (p.pdDfpEnterMode env w svid opos).2
  | .exitMode svid opos => (p.pdDfpExitMode env svid opos).2
  | .altMode svid => (p.pdAltMode env svid).2
  | .getPinMode status => (p.pdDfpDpGetPinMode env status).2

/-- The number of words of a message, and the object positions. -/
def Call.wellFormed : Call ω → Bool
  | .svdm _ cnt _ => 1 ≤ cnt ∧ cnt ≤ 7
  | .enterMode _ _ opos => opos ≤ 7
  | .exitMode _ opos => opos ≤ 7
  | .altMode _ => true
  | .getPinMode _ => true

/-- The policy after `pd_dfp_pe_init`. -/
def Policy.init : Policy ω where
  svidIdx := 0
  svidCnt := 0
  identity := fun _ => 0
  svids := fun _ => ⟨0, 0, fun _ => 0⟩
  amodes := fun _ => ⟨none, 0, none⟩
  amodeIdx := 0
  strays := []

end PdPolicy
end CrosEc
