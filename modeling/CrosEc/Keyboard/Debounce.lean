import CrosEc.Keyboard.Scan

/-!
# What a scan does to a key

The loops over columns and rows look at each key once and independently of the others.  So a scan
is described key by key: which keys have an edge, which of them are done debouncing, and what
becomes of the debounced bit and of the reports.
-/

namespace CrosEc
namespace Keyboard

open Lib

variable {cols : Nat}

/-- A key: its column and its row. -/
abbrev Key (cols : Nat) := Fin cols × Fin 8

/-- The bit of a key in a matrix. -/
def bit (state : Matrix cols) (key : Key cols) : Bool := (state key.1).getLsbD key.2

theorem matrix_ext {state state' : Matrix cols} (h : ∀ key, bit state key = bit state' key) :
    state = state' := by
  funext c
  apply BitVec.eq_of_getLsbD_eq
  intro i hi
  exact h (c, ⟨i, hi⟩)

/-! ## Masks -/

section Mask

variable (x y : BitVec 8) (i j : Fin 8)

theorem and_mask_eq_zero_iff : x &&& 1#8 <<< i.val = 0#8 ↔ x.getLsbD i = false := by
  rw [← not_iff_not, ← ne_eq, and_bit_ne_zero_iff x i.isLt, Bool.not_eq_false]

theorem and_mask_ne_zero : decide (x &&& 1#8 <<< i.val ≠ 0#8) = x.getLsbD i := by
  rw [Bool.eq_iff_iff, decide_eq_true_iff, and_bit_ne_zero_iff x i.isLt]

theorem and_mask_eq_and_mask_iff :
    x &&& 1#8 <<< i.val = y &&& 1#8 <<< i.val ↔ x.getLsbD i = y.getLsbD i := by
  rw [← BitVec.twoPow_eq, BitVec.and_twoPow, BitVec.and_twoPow]
  have hne : BitVec.twoPow 8 i ≠ 0#8 := by
    revert i
    decide
  cases x.getLsbD i <;> cases y.getLsbD i <;> simp [hne, hne.symm]

theorem getLsbD_xor_mask :
    (x ^^^ 1#8 <<< i.val).getLsbD j = if j = i then !x.getLsbD i else x.getLsbD j := by
  rw [← BitVec.twoPow_eq, BitVec.getLsbD_xor, BitVec.getLsbD_twoPow]
  by_cases h : j = i
  · subst h
    simp
  · simp [h, Fin.val_ne_of_ne (Ne.symm h)]

end Mask

/-! ## The loop over the rows -/

namespace ScanState

variable (cfg : ScanConfig cols) (tnow : UInt32) (newState : Matrix cols) (s : ScanState cols)

/-- The key has been debouncing for long enough, as far as its time in the ring goes. -/
def Done (key : Key cols) : Prop :=
  bit s.debouncing key = true ∧
    (cfg.debounceUs (bit newState key)).toUInt32 ≤ tnow - s.scanTime (s.scanEdgeIndex key.1 key.2)

instance (key : Key cols) : Decidable (s.Done cfg tnow newState key) :=
  inferInstanceAs (Decidable (_ ∧ _))

/-- The key is done, and its debounced bit is going to change. -/
def Flips (state : BitVec 8) (key : Key cols) : Prop :=
  s.Done cfg tnow newState key ∧ state.getLsbD key.2 ≠ bit newState key

instance (state : BitVec 8) (key : Key cols) :
    Decidable (s.Flips cfg tnow newState state key) :=
  inferInstanceAs (Decidable (_ ∧ _))

/-- The report about a change. -/
def report (key : Key cols) : Report cols := ⟨key.2, key.1, bit newState key⟩

/-- One round of the loop over the rows. -/
theorem checkRow_eq (c : Fin cols) (column : Column cols) (i : Fin 8) :
    s.checkRow cfg tnow newState c column i =
      { debouncing :=
          if s.Done cfg tnow newState (c, i) then column.debouncing &&& ~~~(1#8 <<< i.val)
          else column.debouncing
        state :=
          if s.Flips cfg tnow newState column.state (c, i) then column.state ^^^ 1#8 <<< i.val
          else column.state
        anyChange := column.anyChange || s.Flips cfg tnow newState column.state (c, i)
        reports := column.reports ++
          if s.Flips cfg tnow newState column.state (c, i) then [report newState (c, i)] else [] } := by
  unfold checkRow
  simp only [and_mask_eq_zero_iff, and_mask_ne_zero, and_mask_eq_and_mask_iff]
  by_cases hdebouncing : (s.debouncing c).getLsbD i = false
  · have hdone : ¬ s.Done cfg tnow newState (c, i) := fun h =>
      Bool.false_ne_true (hdebouncing.symm.trans h.1)
    have hflips : ¬ s.Flips cfg tnow newState column.state (c, i) := fun h => hdone h.1
    simp only [if_pos hdebouncing, hdone, hflips, if_false, decide_false, Bool.or_false,
      List.append_nil]
  rw [if_neg hdebouncing]
  by_cases hearly : tnow - s.scanTime (s.scanEdgeIndex c i) <
      (cfg.debounceUs ((newState c).getLsbD i)).toUInt32
  · have hdone : ¬ s.Done cfg tnow newState (c, i) := fun h => UInt32.not_le.mpr hearly h.2
    have hflips : ¬ s.Flips cfg tnow newState column.state (c, i) := fun h => hdone h.1
    simp only [if_pos hearly, hdone, hflips, if_false, decide_false, Bool.or_false, List.append_nil]
  rw [if_neg hearly]
  have hdone : s.Done cfg tnow newState (c, i) :=
    ⟨Bool.eq_true_of_not_eq_false hdebouncing, UInt32.not_lt.mp hearly⟩
  by_cases hsame : column.state.getLsbD i = (newState c).getLsbD i
  · have hflips : ¬ s.Flips cfg tnow newState column.state (c, i) := fun h => h.2 hsame
    simp only [if_pos hsame, hdone, hflips, if_true, if_false, decide_false, Bool.or_false,
      List.append_nil]
  · have hflips : s.Flips cfg tnow newState column.state (c, i) := ⟨hdone, hsame⟩
    simp only [if_neg hsame, hdone, hflips, if_true, decide_true, Bool.or_true]
    rfl

section Row

variable (c : Fin cols) (column : Column cols) (i j : Fin 8)

theorem checkRow_debouncing : (s.checkRow cfg tnow newState c column i).debouncing.getLsbD j =
    (column.debouncing.getLsbD j && !(i = j && s.Done cfg tnow newState (c, i))) := by
  rw [checkRow_eq]
  by_cases hdone : s.Done cfg tnow newState (c, i)
  · simp only [hdone, if_true, decide_true, Bool.and_true]
    rw [getLsbD_and_not_bit _ j.isLt]
    simp only [Fin.ext_iff]
  · simp only [hdone, if_false, decide_false, Bool.and_false, Bool.not_false, Bool.and_true]

/-- A key that is done gets the new bit. -/
theorem checkRow_state : (s.checkRow cfg tnow newState c column i).state.getLsbD j =
    if j = i ∧ s.Done cfg tnow newState (c, i) then bit newState (c, i)
    else column.state.getLsbD j := by
  rw [checkRow_eq]
  by_cases hflips : s.Flips cfg tnow newState column.state (c, i)
  · have hnew : (!column.state.getLsbD i) = bit newState (c, i) :=
      Bool.not_eq.mpr hflips.2
    simp only [if_pos hflips, getLsbD_xor_mask, hnew, hflips.1, and_true]
  · simp only [if_neg hflips]
    split
    case isTrue h =>
      obtain ⟨rfl, hdone⟩ := h
      by_contra hne
      exact hflips ⟨hdone, hne⟩
    case isFalse => rfl

/-- A round leaves alone what other rows look at. -/
theorem flips_checkRow (hne : j ≠ i) :
    s.Flips cfg tnow newState (s.checkRow cfg tnow newState c column i).state (c, j) ↔
      s.Flips cfg tnow newState column.state (c, j) := by
  rw [Flips, Flips, checkRow_state, if_neg (fun h => hne h.1)]

end Row

/-! The rounds for some of the rows -/

section Rows

variable (c : Fin cols) (rows : List (Fin 8)) (column : Column cols)

theorem foldl_debouncing (j : Fin 8) :
    (rows.foldl (s.checkRow cfg tnow newState c) column).debouncing.getLsbD j =
      (column.debouncing.getLsbD j && !(j ∈ rows && s.Done cfg tnow newState (c, j))) := by
  induction rows generalizing column with
  | nil => simp
  | cons i rows ih =>
      rw [List.foldl_cons, ih, checkRow_debouncing]
      by_cases hij : i = j
      · subst hij
        by_cases hdone : s.Done cfg tnow newState (c, i) <;> simp [hdone]
      · simp [hij, Ne.symm hij]

theorem foldl_state (j : Fin 8) :
    (rows.foldl (s.checkRow cfg tnow newState c) column).state.getLsbD j =
      if j ∈ rows ∧ s.Done cfg tnow newState (c, j) then bit newState (c, j)
      else column.state.getLsbD j := by
  induction rows generalizing column with
  | nil => simp
  | cons i rows ih =>
      rw [List.foldl_cons, ih, checkRow_state]
      by_cases hij : j = i
      · subst hij
        by_cases hdone : s.Done cfg tnow newState (c, j) <;> simp [hdone]
      · simp [hij]

theorem foldl_reports (hnodup : rows.Nodup) :
    (rows.foldl (s.checkRow cfg tnow newState c) column).reports = column.reports ++
      (rows.filter fun i => s.Flips cfg tnow newState column.state (c, i)).map
        fun i => report newState (c, i) := by
  induction rows generalizing column with
  | nil => simp
  | cons i rows ih =>
      obtain ⟨hi, hrows⟩ := List.nodup_cons.mp hnodup
      have hfilter : rows.filter (fun j => s.Flips cfg tnow newState
            (s.checkRow cfg tnow newState c column i).state (c, j)) =
          rows.filter fun j => s.Flips cfg tnow newState column.state (c, j) := by
        refine List.filter_congr fun j hj => ?_
        have hne : j ≠ i := fun h => hi (h ▸ hj)
        simp only [flips_checkRow cfg tnow newState s c column i j hne]
      rw [List.foldl_cons, ih _ hrows, hfilter, checkRow_eq, List.filter_cons]
      by_cases hflips : s.Flips cfg tnow newState column.state (c, i) <;> simp [hflips]

/-- A change is a report. -/
theorem foldl_anyChange (h : column.anyChange = !column.reports.isEmpty) :
    (rows.foldl (s.checkRow cfg tnow newState c) column).anyChange =
      !(rows.foldl (s.checkRow cfg tnow newState c) column).reports.isEmpty := by
  induction rows generalizing column with
  | nil => exact h
  | cons i rows ih =>
      rw [List.foldl_cons]
      apply ih
      rw [checkRow_eq]
      by_cases hflips : s.Flips cfg tnow newState column.state (c, i) <;> simp [hflips, h]

end Rows

/-! ## The loop over the columns -/

theorem checkColumn_reports (c : Fin cols) : (s.checkColumn cfg tnow newState c).reports =
    ((List.finRange 8).filter fun i => s.Flips cfg tnow newState (s.debouncedState c) (c, i)).map
      fun i => report newState (c, i) := by
  rw [checkColumn, foldl_reports _ _ _ _ _ _ _ (List.nodup_finRange 8)]
  rfl

/-- What all columns report. -/
def reports : List (Report cols) :=
  (List.finRange cols).flatMap fun c => (s.checkColumn cfg tnow newState c).reports

theorem mem_reports {r : Report cols} : r ∈ s.reports cfg tnow newState ↔
    ∃ key : Key cols, s.Flips cfg tnow newState (s.debouncedState key.1) key ∧
      r = report newState key := by
  simp only [reports, List.mem_flatMap, List.mem_finRange, true_and, checkColumn_reports,
    List.mem_map, List.mem_filter, decide_eq_true_eq]
  constructor
  · rintro ⟨c, i, hflips, rfl⟩
    exact ⟨(c, i), hflips, rfl⟩
  · rintro ⟨⟨c, i⟩, hflips, rfl⟩
    exact ⟨c, i, hflips, rfl⟩

theorem nodup_reports : (s.reports cfg tnow newState).Nodup := by
  refine List.nodup_flatMap.mpr ⟨fun c _ => ?_, ?_⟩
  · rw [checkColumn_reports]
    refine ((List.nodup_finRange 8).filter _).map fun i i' h => ?_
    exact congrArg Report.row h
  · refine (List.nodup_finRange cols).imp fun hne => ?_
    rw [Function.onFun, checkColumn_reports, checkColumn_reports, List.disjoint_left]
    rintro r hr hr'
    obtain ⟨i, -, rfl⟩ := List.mem_map.mp hr
    obtain ⟨i', -, h⟩ := List.mem_map.mp hr'
    exact hne (congrArg Report.col h).symm

theorem any_anyChange : ((List.finRange cols).any fun c =>
    (s.checkColumn cfg tnow newState c).anyChange) = !(s.reports cfg tnow newState).isEmpty := by
  have hcolumn (c : Fin cols) : (s.checkColumn cfg tnow newState c).anyChange =
      !(s.checkColumn cfg tnow newState c).reports.isEmpty :=
    foldl_anyChange cfg tnow newState s c _ _ rfl
  rw [Bool.eq_iff_iff]
  simp [hcolumn, reports]

end ScanState

/-! ## A scan -/

section Check

variable (cfg : ScanConfig cols) (runtimeKeys : Matrix cols → Bool) (scan : Scan cols)
  (s : ScanState cols)

/-- The state in which the keys are checked: the time is saved, and the edges are detected. -/
def ScanState.edged : ScanState cols :=
  (s.saveScanTime (UInt32.ofNat scan.now)).detectEdges (readMatrix cfg scan.rows).1

/-- The key is done with this scan. -/
def ScanState.DoneAt (key : Key cols) : Prop :=
  (s.edged cfg scan).Done cfg (UInt32.ofNat scan.now) (readMatrix cfg scan.rows).1 key

instance (key : Key cols) : Decidable (s.DoneAt cfg scan key) :=
  inferInstanceAs (Decidable (ScanState.Done ..))

/-- The state when the keys have been checked. -/
def ScanState.finished : ScanState cols :=
  { s.edged cfg scan with
    debouncing := fun c => ((s.edged cfg scan).checkColumn cfg (UInt32.ofNat scan.now)
      (readMatrix cfg scan.rows).1 c).debouncing
    debouncedState := fun c => ((s.edged cfg scan).checkColumn cfg (UInt32.ofNat scan.now)
      (readMatrix cfg scan.rows).1 c).state }

/-- **What a scan does to a key** if no keys are ghosting. -/
structure ScanSpec (r : Checked cols) : Prop where
  scanTime_eq : r.state.scanTime = (s.edged cfg scan).scanTime
  scanTimeIndex_eq : r.state.scanTimeIndex = (s.edged cfg scan).scanTimeIndex
  scanEdgeIndex_eq : r.state.scanEdgeIndex = (s.edged cfg scan).scanEdgeIndex
  prevState_eq : r.state.prevState = (readMatrix cfg scan.rows).1
  debouncing_eq : ∀ key, bit r.state.debouncing key =
    (bit (s.edged cfg scan).debouncing key && !s.DoneAt cfg scan key)
  debounced_eq : ∀ key, bit r.state.debouncedState key =
    if s.DoneAt cfg scan key then bit (readMatrix cfg scan.rows).1 key
    else bit s.debouncedState key

/-- **What a scan reports**: every change, once, and the whole matrix unless there is none or a
special key is swallowed. -/
structure ReportSpec (r : Checked cols) : Prop where
  nodup : r.reports.Nodup
  mem_iff : ∀ report : Report cols, report ∈ r.reports ↔
    bit r.state.debouncedState (report.col, report.row) ≠
        bit s.debouncedState (report.col, report.row) ∧
      report.isPressed = bit r.state.debouncedState (report.col, report.row)
  fifo_eq : r.fifo =
    if r.state.debouncedState ≠ s.debouncedState ∧ runtimeKeys r.state.debouncedState = false then
      some r.state.debouncedState
    else none

variable {cfg} {runtimeKeys} {scan} {s}

theorem checkKeysChanged_of_ghosting (h : hasGhosting (readMatrix cfg scan.rows).1 = true) :
    (checkKeysChanged cfg runtimeKeys scan s).state = s.saveScanTime (UInt32.ofNat scan.now) ∧
      ReportSpec runtimeKeys s (checkKeysChanged cfg runtimeKeys scan s) := by
  have hcheck : checkKeysChanged cfg runtimeKeys scan s =
      ⟨s.saveScanTime (UInt32.ofNat scan.now), (readMatrix cfg scan.rows).2, [], none⟩ := if_pos h
  rw [hcheck]
  refine ⟨rfl, List.nodup_nil, fun report => ?_, ?_⟩
  · simp [ScanState.saveScanTime]
  · simp [ScanState.saveScanTime]

theorem checkKeysChanged_of_not_ghosting (runtimeKeys : Matrix cols → Bool) (s : ScanState cols)
    (h : hasGhosting (readMatrix cfg scan.rows).1 = false) :
    (checkKeysChanged cfg runtimeKeys scan s).state = s.finished cfg scan ∧
      (checkKeysChanged cfg runtimeKeys scan s).reports =
        (s.edged cfg scan).reports cfg (UInt32.ofNat scan.now) (readMatrix cfg scan.rows).1 ∧
      (checkKeysChanged cfg runtimeKeys scan s).fifo =
        if (checkKeysChanged cfg runtimeKeys scan s).reports ≠ [] ∧
            runtimeKeys (s.finished cfg scan).debouncedState = false then
          some (s.finished cfg scan).debouncedState
        else none := by
  have hany := (s.edged cfg scan).any_anyChange cfg (UInt32.ofNat scan.now)
    (readMatrix cfg scan.rows).1
  have hcheck : checkKeysChanged cfg runtimeKeys scan s =
      if (!((s.edged cfg scan).reports cfg (UInt32.ofNat scan.now)
          (readMatrix cfg scan.rows).1).isEmpty) = true then
        if runtimeKeys (s.finished cfg scan).debouncedState = true then
          ⟨s.finished cfg scan, false, (s.edged cfg scan).reports cfg (UInt32.ofNat scan.now)
            (readMatrix cfg scan.rows).1, none⟩
        else
          ⟨s.finished cfg scan, (readMatrix cfg scan.rows).2, (s.edged cfg scan).reports cfg
            (UInt32.ofNat scan.now) (readMatrix cfg scan.rows).1,
            some (s.finished cfg scan).debouncedState⟩
      else
        ⟨s.finished cfg scan, (readMatrix cfg scan.rows).2, (s.edged cfg scan).reports cfg
          (UInt32.ofNat scan.now) (readMatrix cfg scan.rows).1, none⟩ := by
    rw [← hany, checkKeysChanged]
    simp only [h, Bool.false_eq_true, if_false]
    rfl
  rw [hcheck]
  split_ifs <;> simp_all

theorem finished_debouncing (key : Key cols) : bit (s.finished cfg scan).debouncing key =
    (bit (s.edged cfg scan).debouncing key && !s.DoneAt cfg scan key) := by
  refine (ScanState.foldl_debouncing _ _ _ _ key.1 _ _ key.2).trans ?_
  simp only [List.mem_finRange, decide_true, Bool.true_and]
  rfl

theorem finished_debouncedState (key : Key cols) : bit (s.finished cfg scan).debouncedState key =
    if s.DoneAt cfg scan key then bit (readMatrix cfg scan.rows).1 key
    else bit s.debouncedState key := by
  refine (ScanState.foldl_state _ _ _ _ key.1 _ _ key.2).trans ?_
  simp only [List.mem_finRange, true_and]
  rfl

theorem scanSpec_of_not_ghosting (h : hasGhosting (readMatrix cfg scan.rows).1 = false) :
    ScanSpec cfg scan s (checkKeysChanged cfg runtimeKeys scan s) := by
  obtain ⟨hstate, -, -⟩ := checkKeysChanged_of_not_ghosting runtimeKeys s h
  constructor <;> rw [hstate]
  case scanTime_eq => rfl
  case scanTimeIndex_eq => rfl
  case scanEdgeIndex_eq => rfl
  case prevState_eq => rfl
  case debouncing_eq => exact finished_debouncing
  case debounced_eq => exact finished_debouncedState

/-- A key is reported if it is done and its bit was another one. -/
theorem flips_iff (key : Key cols) :
    (s.edged cfg scan).Flips cfg (UInt32.ofNat scan.now) (readMatrix cfg scan.rows).1
        (s.debouncedState key.1) key ↔
      bit (s.finished cfg scan).debouncedState key ≠ bit s.debouncedState key := by
  rw [finished_debouncedState, ScanState.Flips]
  by_cases hdone : s.DoneAt cfg scan key
  · rw [if_pos hdone]
    exact ⟨fun h => h.2.symm, fun h => ⟨hdone, h.symm⟩⟩
  · rw [if_neg hdone]
    exact ⟨fun h => absurd h.1 hdone, fun h => absurd rfl h⟩

theorem reports_eq_nil_iff : (s.edged cfg scan).reports cfg (UInt32.ofNat scan.now)
      (readMatrix cfg scan.rows).1 = [] ↔
    (s.finished cfg scan).debouncedState = s.debouncedState := by
  rw [List.eq_nil_iff_forall_not_mem]
  constructor
  · intro h
    refine matrix_ext fun key => ?_
    by_contra hne
    exact h _ ((ScanState.mem_reports ..).mpr ⟨key, flips_iff key |>.mpr hne, rfl⟩)
  · rintro h r hr
    obtain ⟨key, hflips, -⟩ := (ScanState.mem_reports ..).mp hr
    exact (flips_iff key).mp hflips (by rw [h])

theorem checkKeysChanged_reports :
    ReportSpec runtimeKeys s (checkKeysChanged cfg runtimeKeys scan s) := by
  cases h : hasGhosting (readMatrix cfg scan.rows).1 with
  | true => exact (checkKeysChanged_of_ghosting h).2
  | false =>
      obtain ⟨hstate, hreports, hfifo⟩ :=
        checkKeysChanged_of_not_ghosting runtimeKeys s h
      refine ⟨?_, fun report => ?_, ?_⟩
      · rw [hreports]
        exact ScanState.nodup_reports ..
      · rw [hreports, hstate, ScanState.mem_reports]
        constructor
        · rintro ⟨⟨c, i⟩, hflips, rfl⟩
          have hdone : s.DoneAt cfg scan (c, i) := hflips.1
          refine ⟨(flips_iff _).mp hflips, ?_⟩
          show _ = bit (s.finished cfg scan).debouncedState (c, i)
          rw [finished_debouncedState, if_pos hdone]
          rfl
        · rintro ⟨hchange, hpressed⟩
          refine ⟨(report.col, report.row), (flips_iff _).mpr hchange, ?_⟩
          have hdone : s.DoneAt cfg scan (report.col, report.row) := ((flips_iff _).mpr hchange).1
          rw [finished_debouncedState, if_pos hdone] at hpressed
          cases report
          simp only [ScanState.report, Report.mk.injEq, true_and]
          exact hpressed
      · rw [hfifo, hreports, hstate]
        exact if_congr (and_congr (not_congr reports_eq_nil_iff) Iff.rfl) rfl rfl

end Check

end Keyboard
end CrosEc
