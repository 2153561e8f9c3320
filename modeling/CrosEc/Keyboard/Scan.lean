import Mathlib.Data.Fintype.Basic
import CrosEc.Lib.Bits
import CrosEc.Lib.Recent
import CrosEc.Mkbp.Model

/-!
# `common/keyboard_scan.c`: scanning the matrix

A scan reads every column of the keyboard.  A key whose state differs from the last scan starts to
debounce; when it has done so for long enough, the change goes to the debounced state and is
reported.  The time at which a key started is not kept, only the index of the scan in a ring of
scan times.

Scanning stays enabled here.  The host sets the configuration with `EC_CMD_MKBP_SET_CONFIG`
(`common/keyboard_mkbp.c`).
-/

namespace CrosEc
namespace Keyboard

open Lib

/-- `SCAN_TIME_COUNT` -/
abbrev scanTimeCount : Nat := 32

/-- The columns of a matrix, with a bit for each row. -/
abbrev Matrix (cols : Nat) := Fin cols → BitVec 8

/-- `struct keyboard_scan_config` -/
structure ScanConfig (cols : Nat) where
  outputSettleUs : UInt16
  debounceDownUs : UInt16
  debounceUpUs : UInt16
  scanPeriodUs : UInt16
  minPostScanDelayUs : UInt16
  pollTimeoutUs : UInt32
  actualKeyMask : Matrix cols

variable {cols : Nat}

/-! ## The configuration -/

def ecMkbpValidScanPeriod : UInt32 := (1 : UInt32) <<< 0
def ecMkbpValidPollTimeout : UInt32 := (1 : UInt32) <<< 1
def ecMkbpValidMinPostScanDelay : UInt32 := (1 : UInt32) <<< 3
def ecMkbpValidOutputSettle : UInt32 := (1 : UInt32) <<< 4
def ecMkbpValidDebounceDown : UInt32 := (1 : UInt32) <<< 5
def ecMkbpValidDebounceUp : UInt32 := (1 : UInt32) <<< 6
def ecMkbpValidFifoMaxDepth : UInt32 := (1 : UInt32) <<< 7

/-- `EC_MKBP_FLAGS_ENABLE` -/
def ecMkbpFlagsEnable : UInt8 := 1

/-- `struct ec_mkbp_config` -/
structure MkbpConfig where
  validMask : UInt32
  flags : UInt8
  validFlags : UInt8
  scanPeriodUs : UInt16
  pollTimeoutUs : UInt32
  minPostScanDelayUs : UInt16
  outputSettleUs : UInt16
  debounceDownUs : UInt16
  debounceUpUs : UInt16
  fifoMaxDepth : UInt8

/-- `struct ec_mkbp_protocol_config` -/
structure MkbpProtocolConfig where
  validMask : UInt32
  flags : UInt8
  validFlags : UInt8
  fifoMaxDepth : UInt8

/-- `config` as it is initialised -/
def MkbpProtocolConfig.initial : MkbpProtocolConfig where
  validMask := ecMkbpValidScanPeriod ||| ecMkbpValidPollTimeout ||| ecMkbpValidMinPostScanDelay |||
    ecMkbpValidOutputSettle ||| ecMkbpValidDebounceDown ||| ecMkbpValidDebounceUp |||
    ecMkbpValidFifoMaxDepth
  flags := ecMkbpFlagsEnable
  validFlags := ecMkbpFlagsEnable
  fifoMaxDepth := UInt8.ofNat Mkbp.fifoDepth

/-- `set_keyscan_config`, without the wake-up of the task -/
def setKeyscanConfig (src : MkbpConfig) (validMask : UInt32) (ksc : ScanConfig cols) :
    ScanConfig cols :=
  let valid (bit : UInt32) : Bool := validMask &&& bit ≠ 0
  { ksc with
    scanPeriodUs := if valid ecMkbpValidScanPeriod then src.scanPeriodUs else ksc.scanPeriodUs
    pollTimeoutUs := if valid ecMkbpValidPollTimeout then src.pollTimeoutUs else ksc.pollTimeoutUs
    -- Setting this to 0 will cause watchdog events.
    minPostScanDelayUs :=
      if valid ecMkbpValidMinPostScanDelay then max src.minPostScanDelayUs 200
      else ksc.minPostScanDelayUs
    outputSettleUs :=
      if valid ecMkbpValidOutputSettle then src.outputSettleUs else ksc.outputSettleUs
    debounceDownUs :=
      if valid ecMkbpValidDebounceDown then src.debounceDownUs else ksc.debounceDownUs
    debounceUpUs := if valid ecMkbpValidDebounceUp then src.debounceUpUs else ksc.debounceUpUs }

/-- `keyscan_copy_config` -/
def keyscanCopyConfig (src : MkbpConfig) (validMask : UInt32) (validFlags : UInt8)
    (ksc : ScanConfig cols) (dst : MkbpProtocolConfig) : ScanConfig cols × MkbpProtocolConfig :=
  (setKeyscanConfig src validMask ksc,
   { dst with
    fifoMaxDepth :=
      if validMask &&& ecMkbpValidFifoMaxDepth ≠ 0 then
        min src.fifoMaxDepth (UInt8.ofNat Mkbp.fifoDepth)
      else dst.fifoMaxDepth
    flags := (dst.flags &&& ~~~validFlags) ||| (src.flags &&& validFlags) })

/-- `host_command_mkbp_set_config` -/
def hostCommandMkbpSetConfig (req : MkbpConfig) (ksc : ScanConfig cols)
    (config : MkbpProtocolConfig) : ScanConfig cols × MkbpProtocolConfig :=
  keyscanCopyConfig req (config.validMask &&& req.validMask) (config.validFlags &&& req.validFlags)
    ksc config

/-- The debounce time of a press or a release. -/
def ScanConfig.debounceUs (cfg : ScanConfig cols) (pressed : Bool) : UInt16 :=
  if pressed then cfg.debounceDownUs else cfg.debounceUpUs

/-- The host can set any pair of debounce times. -/
theorem exists_debounceUs (ksc : ScanConfig cols) (down up : UInt16) :
    ∃ req, (hostCommandMkbpSetConfig req ksc .initial).1.debounceUs true = down ∧
      (hostCommandMkbpSetConfig req ksc .initial).1.debounceUs false = up := by
  refine ⟨⟨ecMkbpValidDebounceDown ||| ecMkbpValidDebounceUp, 0, 0, 0, 0, 0, 0, down, up, 0⟩, ?_, ?_⟩
  · simp only [ScanConfig.debounceUs, hostCommandMkbpSetConfig, keyscanCopyConfig, setKeyscanConfig,
      if_true]
    exact if_pos (decide_eq_true (by decide))
  · simp only [ScanConfig.debounceUs, hostCommandMkbpSetConfig, keyscanCopyConfig, setKeyscanConfig,
      Bool.false_eq_true, if_false]
    exact if_pos (decide_eq_true (by decide))

/-! ## The matrix -/

/-- `read_matrix`, with what the rows of the columns read, simulated keys included: the masked
state, and whether a key is pressed. -/
def readMatrix (cfg : ScanConfig cols) (rows : Matrix cols) : Matrix cols × Bool :=
  (fun c => rows c &&& cfg.actualKeyMask c, (List.finRange cols).any fun c => rows c ≠ 0)

/-- `has_ghosting`: two columns share at least two keys. -/
def hasGhosting (state : Matrix cols) : Bool :=
  (List.finRange cols).any fun c =>
    state c ≠ 0 && (List.finRange cols).any fun c2 =>
      let common := state c &&& state c2
      c < c2 && common &&& (common - 1) ≠ 0

/-! ## Debouncing -/

/-- The static variables. -/
structure ScanState (cols : Nat) where
  debouncedState : Matrix cols
  prevState : Matrix cols
  debouncing : Matrix cols
  scanTime : Fin scanTimeCount → UInt32
  scanTimeIndex : Fin scanTimeCount
  scanEdgeIndex : Fin cols → Fin 8 → Fin scanTimeCount

/-- `keyboard_scan_init`, with the matrix that it reads -/
def keyboardScanInit (cfg : ScanConfig cols) (rows : Matrix cols) : ScanState cols where
  debouncedState := (readMatrix cfg rows).1
  prevState := (readMatrix cfg rows).1
  debouncing := fun _ => 0
  scanTime := fun _ => 0
  scanTimeIndex := 0
  scanEdgeIndex := fun _ _ => 0

/-- A call of `keyboard_state_changed`. -/
structure Report (cols : Nat) where
  row : Fin 8
  col : Fin cols
  isPressed : Bool
  deriving DecidableEq

/-- What the loop over the rows of a column changes. -/
structure Column (cols : Nat) where
  debouncing : BitVec 8
  state : BitVec 8
  anyChange : Bool
  reports : List (Report cols)

namespace ScanState

/-- Save the current scan time. -/
def saveScanTime (tnow : UInt32) (s : ScanState cols) : ScanState cols :=
  { s with
    scanTimeIndex := s.scanTimeIndex + 1
    scanTime := Function.update s.scanTime (s.scanTimeIndex + 1) tnow }

/-- Check for changes between the previous scan and this one. -/
def detectEdges (newState : Matrix cols) (s : ScanState cols) : ScanState cols :=
  { s with
    scanEdgeIndex := fun c i =>
      if (newState c ^^^ s.prevState c) &&& (1#8 <<< i.val) ≠ 0#8 then s.scanTimeIndex
      else s.scanEdgeIndex c i
    debouncing := fun c => s.debouncing c ||| (newState c ^^^ s.prevState c)
    prevState := newState }

/-- A row of a column: is this key done debouncing, and did it change? -/
def checkRow (cfg : ScanConfig cols) (tnow : UInt32) (newState : Matrix cols) (s : ScanState cols)
    (c : Fin cols) (column : Column cols) (i : Fin 8) : Column cols :=
  let mask := 1#8 <<< i.val
  let newMask := newState c &&& mask
  -- not debouncing this key
  if s.debouncing c &&& mask = 0#8 then column
  else if tnow - s.scanTime (s.scanEdgeIndex c i) < (cfg.debounceUs (newMask ≠ 0#8)).toUInt32 then
    column
  else
    let column := { column with debouncing := column.debouncing &&& ~~~mask }
    if column.state &&& mask = newMask then column
    else
      { column with
        state := column.state ^^^ mask
        anyChange := true
        reports := column.reports ++ [⟨i, c, newMask ≠ 0#8⟩] }

def checkColumn (cfg : ScanConfig cols) (tnow : UInt32) (newState : Matrix cols)
    (s : ScanState cols) (c : Fin cols) : Column cols :=
  (List.finRange 8).foldl (s.checkRow cfg tnow newState c)
    ⟨s.debouncing c, s.debouncedState c, false, []⟩

end ScanState

/-- A scan: its time, and what the rows read. -/
structure Scan (cols : Nat) where
  now : Nat
  rows : Matrix cols

/-- What `check_keys_changed` does: the state, the return value, the reports, and the matrix for
`keyboard_fifo_add`. -/
structure Checked (cols : Nat) where
  state : ScanState cols
  anyPressed : Bool
  reports : List (Report cols)
  fifo : Option (Matrix cols)

/-- `check_keys_changed`; `runtimeKeys` is `check_runtime_keys` of the board. -/
def checkKeysChanged (cfg : ScanConfig cols) (runtimeKeys : Matrix cols → Bool) (scan : Scan cols)
    (s : ScanState cols) : Checked cols :=
  let tnow := UInt32.ofNat scan.now
  let s := s.saveScanTime tnow
  let (newState, anyPressed) := readMatrix cfg scan.rows
  -- Ignore if so many keys are pressed that we're ghosting.
  if hasGhosting newState then ⟨s, anyPressed, [], none⟩
  else
    let s := s.detectEdges newState
    let column := s.checkColumn cfg tnow newState
    let state : ScanState cols := { s with
      debouncing := fun c => (column c).debouncing
      debouncedState := fun c => (column c).state }
    let reports := (List.finRange cols).flatMap fun c => (column c).reports
    if (List.finRange cols).any fun c => (column c).anyChange then
      -- Swallow special keys.
      if runtimeKeys state.debouncedState then ⟨state, false, reports, none⟩
      else ⟨state, anyPressed, reports, some state.debouncedState⟩
    else ⟨state, anyPressed, reports, none⟩

end Keyboard
end CrosEc
