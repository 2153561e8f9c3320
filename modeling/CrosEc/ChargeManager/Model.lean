import CrosEc.Common

/-!
# `common/charge_manager.c`: the charge manager

The charge manager keeps a table of the current and voltage that every supplier offers on
every port, and `charge_manager_refresh` selects from it the port to charge from.  A supplier
or a port that is `CHARGE_SUPPLIER_NONE` or `CHARGE_PORT_NONE` is `none` here.  The numbers
are C `int`s.  The firmware is built with `-fno-strict-overflow`, so the product of `POWER`
wraps.

The calls come one after the other.  What a call reads from the rest of the system is its
`Env`; what it does to the rest of the system is its list of `Event`s.  The board's answers
to `board_set_active_charge_port` are a parameter of the refresh, by the number of the call.
The records for the PD log (`CONFIG_USB_PD_LOGGING`) are left out.
-/

namespace CrosEc

/-- `enum charge_supplier` -/
inductive ChargeSupplier where
  | pd
  | typec
  | typecDts
  | bc12Dcp
  | bc12Cdp
  | bc12Sdp
  | proprietary
  | other
  | vbus
  | dedicated
  deriving DecidableEq

/-- `supplier_priority`: a lower number is a higher priority. -/
def supplierPriority : ChargeSupplier → Int
  | .dedicated => 0
  | .pd => 1
  | .typec => 2
  | .typecDts => 2
  | .proprietary => 2
  | .bc12Dcp => 3
  | .bc12Cdp => 4
  | .bc12Sdp => 5
  | .other => 6
  | .vbus => 7

/-- Who ramps the input current: nobody, the charger (`CONFIG_CHARGE_RAMP_HW`) or a task
(`HAS_TASK_CHG_RAMP`). -/
inductive ChargeRamp where
  | none
  | hw
  | task
  deriving DecidableEq

/-- The configuration of a board.  The priorities are `supplier_priority`, unless a test
has its own table; the ramp limits for BC1.2 suppliers are those of the board's detect
module. -/
structure ChargeManager where
  usbPdPortCount : Nat
  dedicatedChargePortCount : Nat
  bc12 : Bool
  drpCharging : Bool
  safeMode : Bool
  ramp : ChargeRamp
  priority : ChargeSupplier → Int
  usbChargerRampAllowed : Option ChargeSupplier → Bool
  usbChargerRampMax : ChargeSupplier → Int → Int

namespace ChargeManager

/-- `CHARGE_PORT_COUNT` -/
def chargePortCount (cfg : ChargeManager) : Nat :=
  cfg.usbPdPortCount + cfg.dedicatedChargePortCount

/-- A number of a charge port. -/
abbrev Port (cfg : ChargeManager) := Fin cfg.chargePortCount

def ports (cfg : ChargeManager) : List cfg.Port := List.finRange cfg.chargePortCount

/-- The suppliers that the board has, in the order of the enumeration. -/
def suppliers (cfg : ChargeManager) : List ChargeSupplier :=
  [.pd, .typec, .typecDts] ++
    (if cfg.bc12 then [.bc12Dcp, .bc12Cdp, .bc12Sdp, .proprietary, .other, .vbus] else []) ++
    if 0 < cfg.dedicatedChargePortCount then [.dedicated] else []

/-- `struct charge_port_info` -/
structure ChargePortInfo where
  current : Int
  voltage : Int
  deriving DecidableEq

/-- `POWER` -/
def ChargePortInfo.power (charge : ChargePortInfo) : Int :=
  (charge.current * charge.voltage).bmod (2 ^ 32)

/-- `enum dualrole_capabilities` -/
inductive DualroleCapability where
  | unknown
  | dualrole
  | dedicated
  deriving DecidableEq

/-- `enum ceil_requestor` -/
inductive CeilRequestor where
  | pd
  | host
  deriving DecidableEq

def CeilRequestor.all : List CeilRequestor := [.pd, .host]

/-- A value of `override_port`: `OVERRIDE_OFF`, `OVERRIDE_DONT_CHARGE` or a port. -/
inductive Override (cfg : ChargeManager) where
  | off
  | dontCharge
  | port (p : cfg.Port)
  deriving DecidableEq

/-- The routines that are called through `hook_call_deferred`. -/
inductive Deferred where
  | refresh
  | overrideTimeout
  | detectDebounced
  deriving DecidableEq

/-- What `system_get_image_copy`, `system_is_in_rw` and `system_is_locked` say. -/
structure System where
  imageIsRo : Bool
  isInRw : Bool
  isLocked : Bool

/-- What a call reads from the rest of the system. -/
structure Env (cfg : ChargeManager) where
  system : System
  pdRoleIsSink : cfg.Port → Bool
  time : Nat

/-- What a call does to the rest of the system. -/
inductive Event (cfg : ChargeManager) where
  | setActiveChargePort (port : Option cfg.Port) (accepted : Bool)
  | setHwRamp (enable : Bool)
  | setChargeLimit (port : Option cfg.Port) (supplier : Option ChargeSupplier)
      (chargeMa maxMa chargeMv : Int)
  | chgRampChargeSupplierChange (port : Option cfg.Port) (supplier : Option ChargeSupplier)
      (current : Int) (registrationTime : Option Nat) (voltage : Int)
  | requestPowerSwap (port : cfg.Port)
  | setNewPowerRequest (port : cfg.Port)
  | sendHostEvent
  deriving DecidableEq

/-- `CHARGE_CURRENT_UNINITIALIZED`, `CHARGE_VOLTAGE_UNINITIALIZED` -/
def uninitialized : Int := -1

/-- `CHARGE_CEIL_NONE` -/
def ceilNone : Int := -1

/-- `POWER_SWAP_TIMEOUT`, in microseconds. -/
def powerSwapTimeout : Nat := 1000000 + 275000 + 650000 + 500000

/-- The static variables, and the deferred calls that are due. -/
structure State (cfg : ChargeManager) where
  availableCharge : ChargeSupplier → cfg.Port → ChargePortInfo
  registrationTime : cfg.Port → Nat
  chargeCeil : cfg.Port → CeilRequestor → Int
  dualroleCapability : cfg.Port → DualroleCapability
  chargePort : Option cfg.Port
  chargeCurrent : Int
  chargeCurrentUncapped : Int
  chargeVoltage : Int
  chargeSupplier : Option ChargeSupplier
  overridePort : Override cfg
  delayedOverridePort : Option cfg.Port
  delayedOverrideDeadline : Nat
  leftSafeMode : Bool
  isSeeded : Bool
  activeChargePortInitialized : Bool
  deferred : Deferred → Bool

variable {cfg : ChargeManager}

/-- `is_pd_port` -/
def isPdPort (cfg : ChargeManager) (port : cfg.Port) : Bool := port.val < cfg.usbPdPortCount

/-- `is_sink`.  A dedicated port is sink-only. -/
def isSink (env : Env cfg) (port : cfg.Port) : Bool :=
  if isPdPort cfg port then env.pdRoleIsSink port else true

/-- The variables after `charge_manager_init`. -/
def State.init (cfg : ChargeManager) : State cfg where
  availableCharge := fun _ _ => ⟨uninitialized, uninitialized⟩
  registrationTime := fun _ => 0
  chargeCeil := fun _ _ => ceilNone
  dualroleCapability := fun port => if isPdPort cfg port then .unknown else .dedicated
  chargePort := none
  chargeCurrent := uninitialized
  chargeCurrentUncapped := uninitialized
  chargeVoltage := 0
  chargeSupplier := none
  overridePort := .off
  delayedOverridePort := none
  delayedOverrideDeadline := 0
  leftSafeMode := !cfg.safeMode
  isSeeded := false
  activeChargePortInitialized := false
  deferred := fun _ => false

/-- `hook_call_deferred`, or its cancellation. -/
def State.setDeferred (s : State cfg) (routine : Deferred) (due : Bool) : State cfg :=
  { s with deferred := Function.update s.deferred routine due }

/-! ## Selecting a port -/

/-- `charge_manager_spoof_dualrole_capability` -/
def spoofDualroleCapability (sys : System) (s : State cfg) : Bool :=
  sys.imageIsRo && sys.isLocked || !s.leftSafeMode

/-- The local variables of the selection. -/
structure Best (cfg : ChargeManager) where
  supplier : ChargeSupplier
  port : cfg.Port
  power : Int

/-- The body of the loop in `charge_manager_get_best_charge_port`. -/
def considerCharge (sys : System) (s : State cfg) (best : Option (Best cfg))
    (i : ChargeSupplier) (j : cfg.Port) : Option (Best cfg) :=
  let charge := s.availableCharge i j
  -- skip this supplier if there is no available charge
  if charge.current = 0 ∨ charge.voltage = 0 then best
  -- don't select this port if we have a charge on another override port
  else if s.overridePort ≠ .off ∧ (∃ b ∈ best, s.overridePort = .port b.port) ∧
      s.overridePort ≠ .port j then best
  -- don't charge from a dual-role port unless it is our override port
  else if cfg.drpCharging = false ∧ s.dualroleCapability j ≠ .dedicated ∧
      s.overridePort ≠ .port j ∧ spoofDualroleCapability sys s = false then best
  else
    match best with
    | none => some ⟨i, j, charge.power⟩
    | some b =>
        if cfg.priority i < cfg.priority b.supplier ∨
            (s.overridePort = .port j ∧ s.overridePort ≠ .port b.port) ∨
            (cfg.priority i = cfg.priority b.supplier ∧
              (b.power < charge.power ∨ charge.power = b.power ∧ s.chargePort = some j)) then
          some ⟨i, j, charge.power⟩
        else some b

/-- `charge_manager_get_best_charge_port` -/
def getBestChargePort (sys : System) (s : State cfg) : Option (ChargeSupplier × cfg.Port) :=
  if s.overridePort = .dontCharge then none
  else
    let best := cfg.suppliers.foldl
      (fun best i => cfg.ports.foldl (fun best j => considerCharge sys s best i j) best) none
    best.map fun b => (b.supplier, b.port)

/-- `charge_manager_get_ceil` -/
def getCeil (s : State cfg) (port : cfg.Port) : Int :=
  CeilRequestor.all.foldl
    (fun ceil i =>
      let val := s.chargeCeil port i
      if val ≠ ceilNone ∧ (ceil = ceilNone ∨ val < ceil) then val else ceil)
    ceilNone

/-! ## The refresh -/

/-- Zero the available charge on a port. -/
def State.zeroPort (s : State cfg) (port : cfg.Port) : State cfg :=
  { s with
    availableCharge := fun i j =>
      if i ∈ cfg.suppliers ∧ j = port then ⟨0, 0⟩ else s.availableCharge i j }

/-- How the hunt for an acceptable port ends: safe mode does not select `CHARGE_PORT_NONE`,
or there is a selection. -/
inductive HuntExit (cfg : ChargeManager) where
  | stay
  | select (best : Option (ChargeSupplier × cfg.Port))

/-- The loop of `charge_manager_refresh`.  `board n port` is the answer to the `n`-th call of
`board_set_active_charge_port`.  A failed assertion has the result `none`. -/
def hunt (sys : System) (board : Nat → Option cfg.Port → Bool) :
    Nat → Nat → State cfg → Option (State cfg × List (Event cfg) × HuntExit cfg)
  | 0, _, _ => none
  | fuel + 1, n, s =>
      let best := getBestChargePort sys s
      let newPort := best.map Prod.snd
      if s.leftSafeMode = false ∧ newPort = none then some (s, [], .stay)
      else if s.activeChargePortInitialized ∧ newPort = s.chargePort ∧
          best.map Prod.fst = s.chargeSupplier then
        some (s, [], .select best)
      else if board n newPort then
        some (s, [.setActiveChargePort newPort true], .select best)
      else
        match newPort with
        -- 'dont charge' request must be accepted
        | none => none
        | some port =>
            match hunt sys board fuel (n + 1) (s.zeroPort port) with
            | none => none
            | some (s', events, exit) =>
                some (s', .setActiveChargePort newPort false :: events, exit)

/-- `chg_ramp_allowed` -/
def chgRampAllowed (cfg : ChargeManager) (sys : System) (supplier : Option ChargeSupplier) :
    Bool :=
  if !sys.isInRw && sys.isLocked then false
  else
    match supplier with
    | some .typecDts => true
    | some .pd => if cfg.ramp = .hw then true else cfg.usbChargerRampAllowed (some .pd)
    | some .typec => if cfg.ramp = .hw then true else cfg.usbChargerRampAllowed (some .typec)
    | sup => cfg.usbChargerRampAllowed sup

/-- `chg_ramp_max` -/
def chgRampMax (cfg : ChargeManager) (supplier : ChargeSupplier) (supCurr : Int) : Int :=
  match supplier with
  | .typecDts => max 2400 supCurr
  | .pd => if cfg.ramp = .hw then supCurr else cfg.usbChargerRampMax .pd supCurr
  | .typec => if cfg.ramp = .hw then supCurr else cfg.usbChargerRampMax .typec supCurr
  | sup => cfg.usbChargerRampMax sup supCurr

/-- `new_charge_current_uncapped` -/
def newChargeCurrentUncapped (sys : System) (s : State cfg) :
    Option (ChargeSupplier × cfg.Port) → Int
  | none => 0
  | some (supplier, port) =>
      let current := (s.availableCharge supplier port).current
      if cfg.ramp = .hw ∧ chgRampAllowed cfg sys (some supplier) then
        chgRampMax cfg supplier current
      else current

/-- `new_charge_current` -/
def newChargeCurrent (sys : System) (s : State cfg) :
    Option (ChargeSupplier × cfg.Port) → Int
  | none => 0
  | some (supplier, port) =>
      let uncapped := newChargeCurrentUncapped sys s (some (supplier, port))
      let ceil := getCeil s port
      if s.leftSafeMode ∧ ceil ≠ ceilNone then min ceil uncapped else uncapped

/-- `new_charge_voltage` -/
def newChargeVoltage (s : State cfg) : Option (ChargeSupplier × cfg.Port) → Int
  | none => 0
  | some (supplier, port) => (s.availableCharge supplier port).voltage

/-- Clear the override if it wasn't selected as the best port. -/
def clearedOverride (s : State cfg) (newPort : Option cfg.Port) : Override cfg :=
  match s.overridePort with
  | .port p => if newPort = some p then .port p else .off
  | unset => unset

/-- `charge_manager_switch_to_source` -/
def switchToSource (env : Env cfg) (s : State cfg) (port : cfg.Port) : List (Event cfg) :=
  if isPdPort cfg port ∧ s.dualroleCapability port = .dualrole ∧ isSink env port then
    [.requestPowerSwap port]
  else []

/-- `pd_set_new_power_request`, if there is an updated port and it is a PD port. -/
def newPowerRequest (updated : Option cfg.Port) : List (Event cfg) :=
  match updated with
  | some port => if isPdPort cfg port then [.setNewPowerRequest port] else []
  | none => []

/-- The new limit goes to the ramp task or to the board. -/
def changeLimit (env : Env cfg) (s : State cfg) (best : Option (ChargeSupplier × cfg.Port)) :
    List (Event cfg) :=
  let newPort := best.map Prod.snd
  let newSupplier := best.map Prod.fst
  let limit := .setChargeLimit newPort newSupplier (newChargeCurrent env.system s best)
    (newChargeCurrentUncapped env.system s best) (newChargeVoltage s best)
  match cfg.ramp with
  | .task =>
      [.chgRampChargeSupplierChange newPort newSupplier (newChargeCurrent env.system s best)
        (newPort.map s.registrationTime) (newChargeVoltage s best)]
  | .hw => [.setHwRamp (chgRampAllowed cfg env.system newSupplier), limit]
  | .none => [limit]

/-- `charge_manager_refresh` from the end of the hunt on. -/
def applySelection (env : Env cfg) (best : Option (ChargeSupplier × cfg.Port)) (s : State cfg) :
    State cfg × List (Event cfg) :=
  let newPort := best.map Prod.snd
  let newSupplier := best.map Prod.fst
  let current := newChargeCurrent env.system s best
  let uncapped := newChargeCurrentUncapped env.system s best
  let voltage := newChargeVoltage s best
  let powerChanged := newPort ≠ s.chargePort ∨ current ≠ s.chargeCurrent ∨
    newSupplier ≠ s.chargeSupplier
  let updatedNewPort :=
    if newPort ≠ s.chargePort ∨ uncapped ≠ s.chargeCurrentUncapped ∨ voltage ≠ s.chargeVoltage
    then newPort else none
  let updatedOldPort := if s.chargePort ≠ newPort then s.chargePort else none
  ({ s with
      activeChargePortInitialized := true
      overridePort := clearedOverride s newPort
      chargeCurrent := current
      chargeCurrentUncapped := uncapped
      chargeVoltage := voltage
      chargeSupplier := newSupplier
      chargePort := newPort },
    (if powerChanged then changeLimit env s best else []) ++
      (match updatedOldPort with
        | some old => switchToSource env s old
        | none => []) ++
      newPowerRequest updatedNewPort ++ newPowerRequest updatedOldPort ++
      if powerChanged then [.sendHostEvent] else [])

/-- `charge_manager_refresh` -/
def refresh (env : Env cfg) (board : Nat → Option cfg.Port → Bool) (s : State cfg) :
    Option (State cfg × List (Event cfg)) :=
  match hunt env.system board (cfg.chargePortCount + 1) 0 s with
  | none => none
  | some (s₁, calls, .stay) => some (s₁, calls)
  | some (s₁, calls, .select best) =>
      let (s₂, events) := applySelection env best s₁
      some (s₂, calls ++ events)

/-! ## The other calls -/

/-- `charge_manager_is_seeded` -/
def chargeManagerIsSeeded (s : State cfg) : Bool :=
  s.isSeeded || cfg.suppliers.all fun i => cfg.ports.all fun j =>
    (s.availableCharge i j).current ≠ uninitialized &&
      (s.availableCharge i j).voltage ≠ uninitialized

/-- Call the refresh if all the ports and suppliers have reported in. -/
def refreshIfSeeded (s : State cfg) : State cfg :=
  if chargeManagerIsSeeded s then { s with isSeeded := true }.setDeferred .refresh true else s

/-- `charge_manager_set_override`, with the code that it returns. -/
def setOverride (env : Env cfg) (port : Override cfg) (s : State cfg) :
    State cfg × List (Event cfg) × Code :=
  let select : State cfg :=
    if s.overridePort ≠ port then refreshIfSeeded { s with overridePort := port } else s
  if s.delayedOverridePort ≠ none then (s, [], ecErrorBusy)
  else
    match port with
    | .port p =>
        if isSink env p then (select, [], ecSuccess)
        else if s.dualroleCapability p = .dualrole then
          -- set the delayed override for swap completion
          ({ s with
              delayedOverrideDeadline := env.time + powerSwapTimeout
              delayedOverridePort := some p }.setDeferred .overrideTimeout true,
            [.requestPowerSwap p], ecSuccess)
        else (s, [], ecErrorInval)
    | .off => (select, [], ecSuccess)
    | .dontCharge => (select, [], ecSuccess)

/-- `charge_override_timeout` -/
def overrideTimeout (s : State cfg) : State cfg × List (Event cfg) :=
  ({ s with delayedOverridePort := none }, [.sendHostEvent])

/-- The change of `charge_manager_make_change`, with what the caller hands over. -/
inductive Change where
  | charge (supplier : ChargeSupplier) (charge : ChargePortInfo)
  | dualrole

/-- Whether the change can affect the charge status, and whether it clears the override. -/
def changeEffect (s : State cfg) (port : cfg.Port) : Change → Option Bool
  | .charge supplier charge =>
      -- ignore changes where charge is identical
      if s.availableCharge supplier port = charge then none
      else some (0 < charge.current ∧ (s.availableCharge supplier port).current = 0)
  | .dualrole =>
      -- with `CONFIG_CHARGE_MANAGER_DRP_CHARGING` the return is unconditional
      if cfg.drpCharging ∨ s.dualroleCapability port ≠ .dedicated then none
      -- without a charge on the port, the dualrole change is meaningless
      else if cfg.suppliers.any fun i => 0 < (s.availableCharge i port).current then some true
      else none

/-- Remove the override when a charger is plugged. -/
def removeOverride (s : State cfg) (port : cfg.Port) (clearOverride : Bool) : State cfg :=
  if clearOverride ∧ s.overridePort ≠ .port port ∧
      (cfg.drpCharging ∨ s.dualroleCapability port = .dedicated) then
    let s₁ := { s with overridePort := .off }
    if s.delayedOverridePort ≠ none then
      { s₁ with delayedOverridePort := none }.setDeferred .overrideTimeout false
    else s₁
  else s

/-- Store the charge of a port. -/
def storeCharge (env : Env cfg) (s : State cfg) (supplier : ChargeSupplier) (port : cfg.Port)
    (charge : ChargePortInfo) : State cfg :=
  let s₁ := { s with
    availableCharge := fun i j =>
      if i = supplier ∧ j = port then charge else s.availableCharge i j
    registrationTime := Function.update s.registrationTime port env.time }
  if 0 < charge.current then s₁.setDeferred .detectDebounced true else s₁

/-- `charge_manager_make_change` -/
def makeChange (env : Env cfg) (change : Change) (port : cfg.Port) (s : State cfg) :
    State cfg × List (Event cfg) :=
  match changeEffect s port change with
  | none => (s, [])
  | some clearOverride =>
      let s₁ := removeOverride s port clearOverride
      match change with
      | .dualrole => (refreshIfSeeded s₁, [])
      | .charge supplier charge =>
          let s₂ := storeCharge env s₁ supplier port charge
          -- a charge on our delayed override port makes it our override port
          if s₂.delayedOverridePort = some port ∧ 0 < charge.current ∧ isSink env port ∧
              env.time < s₂.delayedOverrideDeadline then
            let s₃ := { s₂ with delayedOverridePort := none }.setDeferred .overrideTimeout false
            let (s₄, events, _) := setOverride env (.port port) s₃
            (refreshIfSeeded s₄, events)
          else (refreshIfSeeded s₂, [])

/-- `charge_manager_update_charge`; without a charge, zero is used. -/
def updateCharge (env : Env cfg) (supplier : ChargeSupplier) (port : cfg.Port)
    (charge : Option ChargePortInfo) (s : State cfg) : State cfg × List (Event cfg) :=
  makeChange env (.charge supplier (charge.getD ⟨0, 0⟩)) port s

/-- `charge_manager_update_dualrole` -/
def updateDualrole (env : Env cfg) (port : cfg.Port) (cap : DualroleCapability)
    (s : State cfg) : State cfg × List (Event cfg) :=
  if cap ≠ s.dualroleCapability port then
    makeChange env .dualrole port
      { s with dualroleCapability := Function.update s.dualroleCapability port cap }
  else (s, [])

/-- `charge_manager_leave_safe_mode` -/
def leaveSafeMode (s : State cfg) : State cfg :=
  if s.leftSafeMode then s else refreshIfSeeded { s with leftSafeMode := true }

/-- `charge_manager_set_ceil` -/
def setCeil (port : cfg.Port) (requestor : CeilRequestor) (ceil : Int) (s : State cfg) :
    State cfg :=
  if s.chargeCeil port requestor ≠ ceil then
    let s₁ := { s with
      chargeCeil := Function.update s.chargeCeil port
        (Function.update (s.chargeCeil port) requestor ceil) }
    if s.chargePort = some port then refreshIfSeeded s₁ else s₁
  else s

/-- `charge_manager_force_ceil` -/
def forceCeil (port : cfg.Port) (ceil : Int) (s : State cfg) : State cfg × List (Event cfg) :=
  (setCeil port .pd ceil s,
    if s.leftSafeMode ∧ s.chargePort = some port ∧ ceil < s.chargeCurrent then
      [.setChargeLimit (some port) (some .pd) ceil s.chargeCurrentUncapped s.chargeVoltage]
    else [])

/-! ## Runs -/

/-- One call of the charge manager, or one deferred call that is due.  `accepts` says which
ports the board takes. -/
inductive Step (accepts : Option cfg.Port → Bool) : State cfg → State cfg → Prop
  | updateCharge (env : Env cfg) (supplier : ChargeSupplier) (port : cfg.Port)
      (charge : Option ChargePortInfo) (s : State cfg) (h : supplier ∈ cfg.suppliers) :
      Step accepts s (updateCharge env supplier port charge s).1
  | updateDualrole (env : Env cfg) (port : cfg.Port) (cap : DualroleCapability) (s : State cfg) :
      Step accepts s (updateDualrole env port cap s).1
  | leaveSafeMode (s : State cfg) (h : cfg.safeMode) : Step accepts s (leaveSafeMode s)
  | setCeil (port : cfg.Port) (requestor : CeilRequestor) (ceil : Int) (s : State cfg) :
      Step accepts s (setCeil port requestor ceil s)
  | forceCeil (port : cfg.Port) (ceil : Int) (s : State cfg) :
      Step accepts s (forceCeil port ceil s).1
  | setOverride (env : Env cfg) (port : Override cfg) (s : State cfg) :
      Step accepts s (setOverride env port s).1
  | overrideTimeout (s : State cfg) (h : s.deferred .overrideTimeout) :
      Step accepts s (overrideTimeout (s.setDeferred .overrideTimeout false)).1
  | chargerDetectDebounced (s : State cfg) (h : s.deferred .detectDebounced) :
      Step accepts s (s.setDeferred .detectDebounced false)
  | refresh (env : Env cfg) (s s' : State cfg) (events : List (Event cfg))
      (h : s.deferred .refresh)
      (hrun : refresh env (fun _ => accepts) (s.setDeferred .refresh false) = some (s', events)) :
      Step accepts s s'

/-- The states that the charge manager can be in after `charge_manager_init`. -/
def Reachable (accepts : Option cfg.Port → Bool) (s : State cfg) : Prop :=
  Relation.ReflTransGen (Step accepts) (State.init cfg) s

end ChargeManager
end CrosEc
