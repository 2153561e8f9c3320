import CrosEc.Keyboard.Debounce

/-!
# Is debouncing exact?

A key is settled if its bit has not changed since its last edge, for at least the debounce time.
The debounced bit of a key that is not settled never changes.  That of a settled key is its bit, as
long as the ring of scan times still has the time of the edge: after `SCAN_TIME_COUNT` scans there
is a later one in its place, and the key may wait for ever.
-/

namespace CrosEc
namespace Keyboard

open Lib

variable {cols : Nat}

/-- A run from `keyboard_scan_init` on, with the configuration at every scan. -/
structure Run (cols : Nat) where
  initConfig : ScanConfig cols
  initRows : Matrix cols
  config : Nat → ScanConfig cols
  runtimeKeys : Matrix cols → Bool
  scan : Nat → Scan cols
  increasing : StrictMono fun n => (scan n).now

namespace Run

variable (run : Run cols)

def time (n : Nat) : Nat := (run.scan n).now

/-- The raw state of a scan. -/
def raw (n : Nat) : Matrix cols := (readMatrix (run.config n) (run.scan n).rows).1

/-- The static variables before scan `n`. -/
def stateAt : Nat → ScanState cols
  | 0 => keyboardScanInit run.initConfig run.initRows
  | n + 1 => (checkKeysChanged (run.config n) run.runtimeKeys (run.scan n) (stateAt n)).state

def checked (n : Nat) : Checked cols :=
  checkKeysChanged (run.config n) run.runtimeKeys (run.scan n) (run.stateAt n)

/-! ## Settled keys -/

/-- What the last scan before scan `n` read, if no keys were ghosting. -/
def seen : Nat → Matrix cols
  | 0 => (readMatrix run.initConfig run.initRows).1
  | n + 1 => if hasGhosting (run.raw n) then seen n else run.raw n

/-- The key has an edge at scan `n`. -/
def IsEdge (key : Key cols) (n : Nat) : Prop :=
  hasGhosting (run.raw n) = false ∧ bit (run.raw n) key ≠ bit (run.seen n) key

/-- The debounce time of the key at scan `n`. -/
def debounceUs (key : Key cols) (n : Nat) : Nat :=
  ((run.config n).debounceUs (bit (run.raw n) key)).toNat

/-- The key is settled at scan `n`; its last edge was at scan `e`. -/
structure Settled (key : Key cols) (n e : Nat) : Prop where
  le : e ≤ n
  edge : run.IsEdge key e
  same : ∀ m, e ≤ m → m ≤ n → hasGhosting (run.raw m) = false →
    bit (run.raw m) key = bit (run.raw n) key
  long : run.debounceUs key n ≤ run.time n - run.time e

variable {run} {key : Key cols} {n m e : Nat}

theorem seen_succ_of_not_ghosting (h : hasGhosting (run.raw n) = false) :
    run.seen (n + 1) = run.raw n := by
  rw [seen, if_neg (by simp [h])]

theorem seen_succ_of_ghosting (h : hasGhosting (run.raw n) = true) :
    run.seen (n + 1) = run.seen n := by
  rw [seen, if_pos h]

/-- After the last edge of a key, its bit stays as it is. -/
theorem bit_seen_of_isLast (h : IsLast (run.IsEdge key) n e) (hem : e < m) (hmn : m ≤ n) :
    bit (run.seen m) key = bit (run.raw e) key := by
  induction m with
  | zero => exact absurd hem (Nat.not_lt_zero e)
  | succ m ih =>
      rcases Nat.lt_succ_iff_lt_or_eq.mp hem with hlt | rfl
      · cases hghost : hasGhosting (run.raw m) with
        | true =>
            rw [seen_succ_of_ghosting hghost]
            exact ih hlt (by omega)
        | false =>
            have hno := h.none_after m hlt (by omega)
            rw [seen_succ_of_not_ghosting hghost, ← ih hlt (by omega)]
            by_contra hne
            exact hno ⟨hghost, hne⟩
      · rw [seen_succ_of_not_ghosting h.holds.1]

/-- As long as a key keeps its bit, it has no edge. -/
theorem Settled.isLast (h : run.Settled key n e) : IsLast (run.IsEdge key) (n + 1) e := by
  refine ⟨Nat.lt_succ_of_le h.le, h.edge, fun m hem hmn hedge => ?_⟩
  have hseen : ∀ m, e < m → m ≤ n → bit (run.seen m) key = bit (run.raw n) key := by
    intro m
    induction m with
    | zero => exact fun hlt => absurd hlt (Nat.not_lt_zero e)
    | succ m ih =>
        intro hlt hle
        cases hghost : hasGhosting (run.raw m) with
        | true =>
            rw [seen_succ_of_ghosting hghost]
            refine ih ?_ (by omega)
            rcases Nat.lt_succ_iff_lt_or_eq.mp hlt with hbelow | rfl
            · exact hbelow
            · exact absurd (h.edge.1.symm.trans hghost) Bool.false_ne_true
        | false =>
            rw [seen_succ_of_not_ghosting hghost]
            exact h.same m (by omega) (by omega) hghost
  apply hedge.2
  rw [hseen m hem (by omega)]
  exact h.same m (by omega) (by omega) hedge.1

theorem settled_of_isLast (hghost : hasGhosting (run.raw n) = false)
    (h : IsLast (run.IsEdge key) (n + 1) e)
    (hlong : run.debounceUs key n ≤ run.time n - run.time e) : run.Settled key n e := by
  have hsame : ∀ m, e ≤ m → m ≤ n → hasGhosting (run.raw m) = false →
      bit (run.raw m) key = bit (run.raw e) key := by
    intro m hem hmn hm
    rw [← seen_succ_of_not_ghosting hm]
    exact bit_seen_of_isLast h (by omega) (by omega)
  have hle : e ≤ n := Nat.le_of_lt_succ h.lt
  refine ⟨hle, h.holds, fun m hem hmn hm => ?_, hlong⟩
  rw [hsame m hem hmn hm, hsame n hle le_rfl hghost]

/-! ## The invariant -/

/-- What is in the ring for scan `n`, counted from 1. -/
def stamp (run : Run cols) : Nat → UInt32
  | 0 => 0
  | n + 1 => UInt32.ofNat (run.time n)

/-- The static variables before scan `n`. -/
structure Inv (run : Run cols) (n : Nat) : Prop where
  prevState_eq : (run.stateAt n).prevState = run.seen n
  index_eq : (run.stateAt n).scanTimeIndex = Fin.ofNat scanTimeCount n
  stamped : Stamped (run.stateAt n).scanTime run.stamp n
  edgeIndex_eq : ∀ key e, IsLast (run.IsEdge key) n e →
    (run.stateAt n).scanEdgeIndex key.1 key.2 = Fin.ofNat scanTimeCount (e + 1)
  exists_edge : ∀ key, bit (run.stateAt n).debouncing key = true →
    ∃ e, IsLast (run.IsEdge key) n e
  debounced_eq : ∀ key, bit (run.stateAt n).debouncing key = false →
    bit (run.stateAt n).debouncedState key = bit (run.seen n) key

theorem inv_zero (run : Run cols) : run.Inv 0 where
  prevState_eq := rfl
  index_eq := rfl
  stamped := stamped_zero rfl
  edgeIndex_eq := fun _ _ h => absurd h.lt (Nat.not_lt_zero _)
  exists_edge := fun key h => by
    have hzero : bit (run.stateAt 0).debouncing key = false := BitVec.getLsbD_zero
    rw [hzero] at h
    cases h
  debounced_eq := fun _ _ => rfl

theorem Inv.saveScanTime (h : run.Inv n) :
    ((run.stateAt n).saveScanTime (UInt32.ofNat (run.time n))).scanTimeIndex =
        Fin.ofNat scanTimeCount (n + 1) ∧
      Stamped ((run.stateAt n).saveScanTime (UInt32.ofNat (run.time n))).scanTime run.stamp
        (n + 1) := by
  have hindex : (run.stateAt n).scanTimeIndex + 1 = Fin.ofNat scanTimeCount (n + 1) := by
    rw [h.index_eq]
    apply Fin.ext
    simp [Fin.val_add]
  refine ⟨hindex, ?_⟩
  show Stamped (Function.update (run.stateAt n).scanTime ((run.stateAt n).scanTimeIndex + 1) _) _ _
  rw [hindex]
  exact h.stamped.push

/-- A ghosting scan only saves its time. -/
theorem Inv.succ_of_ghosting (h : run.Inv n) (hghost : hasGhosting (run.raw n) = true) :
    run.Inv (n + 1) := by
  have hstate : run.stateAt (n + 1) =
      (run.stateAt n).saveScanTime (UInt32.ofNat (run.time n)) :=
    (checkKeysChanged_of_ghosting hghost).1
  have hno : ∀ key, ¬ run.IsEdge key n := fun key hedge =>
    Bool.false_ne_true (hedge.1.symm.trans hghost)
  obtain ⟨hindex, hstamped⟩ := h.saveScanTime
  constructor
  case prevState_eq =>
    rw [hstate, seen_succ_of_ghosting hghost]
    exact h.prevState_eq
  case index_eq =>
    rw [hstate]
    exact hindex
  case stamped =>
    rw [hstate]
    exact hstamped
  case edgeIndex_eq =>
    intro key e hlast
    rcases isLast_succ_iff.mp hlast with ⟨hedge, -⟩ | ⟨-, hbefore⟩
    · exact absurd hedge (hno key)
    · rw [hstate]
      exact h.edgeIndex_eq key e hbefore
  case exists_edge =>
    intro key hdebouncing
    rw [hstate] at hdebouncing
    obtain ⟨e, hlast⟩ := h.exists_edge key hdebouncing
    exact ⟨e, hlast.succ (hno key)⟩
  case debounced_eq =>
    intro key hdebouncing
    rw [hstate] at hdebouncing ⊢
    rw [seen_succ_of_ghosting hghost]
    exact h.debounced_eq key hdebouncing

/-! The edges of a scan -/

/-- The state of scan `n` in which the keys are checked. -/
def edgedAt (run : Run cols) (n : Nat) : ScanState cols :=
  (run.stateAt n).edged (run.config n) (run.scan n)

theorem Inv.edged_debouncing (h : run.Inv n) (key : Key cols) :
    bit (run.edgedAt n).debouncing key =
      (bit (run.stateAt n).debouncing key || (bit (run.raw n) key ^^ bit (run.seen n) key)) := by
  show ((run.stateAt n).debouncing key.1 ||| _ ^^^ (run.stateAt n).prevState key.1).getLsbD key.2 = _
  rw [BitVec.getLsbD_or, BitVec.getLsbD_xor, h.prevState_eq]
  rfl

theorem Inv.edged_edgeIndex (h : run.Inv n) (hghost : hasGhosting (run.raw n) = false)
    (hlast : IsLast (run.IsEdge key) (n + 1) e) :
    (run.edgedAt n).scanEdgeIndex key.1 key.2 = Fin.ofNat scanTimeCount (e + 1) := by
  have hdiff : (run.raw n key.1 ^^^ (run.stateAt n).prevState key.1) &&& (1#8 <<< key.2.val) ≠ 0#8 ↔
      run.IsEdge key n := by
    rw [and_bit_ne_zero_iff _ key.2.isLt, BitVec.getLsbD_xor, h.prevState_eq, IsEdge, hghost]
    simp [bit]
  have hindex : (run.edgedAt n).scanEdgeIndex key.1 key.2 =
      if (run.raw n key.1 ^^^ (run.stateAt n).prevState key.1) &&& (1#8 <<< key.2.val) ≠ 0#8 then
        ((run.stateAt n).saveScanTime (UInt32.ofNat (run.time n))).scanTimeIndex
      else (run.stateAt n).scanEdgeIndex key.1 key.2 := rfl
  rw [hindex]
  rcases isLast_succ_iff.mp hlast with ⟨hedge, rfl⟩ | ⟨hno, hbefore⟩
  · rw [if_pos (hdiff.mpr hedge), h.saveScanTime.1]
  · rw [if_neg (mt hdiff.mp hno), h.edgeIndex_eq key e hbefore]

/-- A key that debounces at scan `n` has a last edge. -/
theorem Inv.edged_exists_edge (h : run.Inv n) (hghost : hasGhosting (run.raw n) = false)
    (hdebouncing : bit (run.edgedAt n).debouncing key = true) :
    ∃ e, IsLast (run.IsEdge key) (n + 1) e := by
  by_cases hedge : run.IsEdge key n
  · exact ⟨n, isLast_self hedge⟩
  · have hsame : bit (run.raw n) key = bit (run.seen n) key := by
      by_contra hne
      exact hedge ⟨hghost, hne⟩
    rw [h.edged_debouncing, hsame, Bool.xor_self, Bool.or_false] at hdebouncing
    obtain ⟨e, hlast⟩ := h.exists_edge key hdebouncing
    exact ⟨e, hlast.succ hedge⟩

theorem Inv.succ_of_not_ghosting (h : run.Inv n) (hghost : hasGhosting (run.raw n) = false) :
    run.Inv (n + 1) := by
  have hspec : ScanSpec (run.config n) (run.scan n) (run.stateAt n) (run.checked n) :=
    scanSpec_of_not_ghosting hghost
  have hseen := seen_succ_of_not_ghosting hghost
  obtain ⟨hindex, hstamped⟩ := h.saveScanTime
  constructor
  case prevState_eq => exact hspec.prevState_eq.trans hseen.symm
  case index_eq => exact hspec.scanTimeIndex_eq.trans hindex
  case stamped =>
    show Stamped (run.checked n).state.scanTime _ _
    rw [hspec.scanTime_eq]
    exact hstamped
  case edgeIndex_eq =>
    intro key e hlast
    show (run.checked n).state.scanEdgeIndex key.1 key.2 = _
    rw [hspec.scanEdgeIndex_eq]
    exact h.edged_edgeIndex hghost hlast
  case exists_edge =>
    intro key hdebouncing
    have hboth := (hspec.debouncing_eq key).symm.trans hdebouncing
    exact h.edged_exists_edge hghost (Bool.and_eq_true_iff.mp hboth).1
  case debounced_eq =>
    intro key hdebouncing
    have hboth := (hspec.debouncing_eq key).symm.trans hdebouncing
    have hdebounced := hspec.debounced_eq key
    rw [hseen]
    refine hdebounced.trans ?_
    split
    case isTrue => rfl
    case isFalse hdone =>
      -- A key that is not done and does not debounce has no edge either.
      have hedged : bit (run.edgedAt n).debouncing key = false := by
        rw [decide_eq_false hdone, Bool.not_false, Bool.and_true] at hboth
        exact hboth
      rw [h.edged_debouncing, Bool.or_eq_false_iff] at hedged
      rw [h.debounced_eq key hedged.1, ← bne_eq_false_iff_eq.mp hedged.2]

theorem inv (run : Run cols) (n : Nat) : run.Inv n := by
  induction n with
  | zero => exact inv_zero run
  | succ n ih =>
      cases hghost : hasGhosting (run.raw n) with
      | true => exact ih.succ_of_ghosting hghost
      | false => exact ih.succ_of_not_ghosting hghost

/-! ## The time of an edge -/

/-- How long ago the edge at scan `e` was, as far as the ring goes. -/
def elapsed (run : Run cols) (e n : Nat) : Nat :=
  (run.time n - run.time (latest scanTimeCount e n)) % 2 ^ 32

theorem elapsed_le (run : Run cols) (h : e ≤ n) : run.elapsed e n ≤ run.time n - run.time e := by
  have hmono := run.increasing.monotone (le_latest scanTimeCount h)
  refine (Nat.mod_le _ _).trans (Nat.sub_le_sub_left hmono _)

theorem stamp_sub (run : Run cols) (h : e ≤ n) :
    (UInt32.ofNat (run.time n) - (run.edgedAt n).scanTime (Fin.ofNat scanTimeCount (e + 1))).toNat =
      run.elapsed e n := by
  have hlookup : (run.edgedAt n).scanTime (Fin.ofNat scanTimeCount (e + 1)) =
      run.stamp (latest scanTimeCount (e + 1) (n + 1)) :=
    (run.inv n).saveScanTime.2.lookup (by lia)
  have hlatest : latest scanTimeCount (e + 1) (n + 1) = latest scanTimeCount e n + 1 := by
    have hmod := Nat.mod_le (n - e) scanTimeCount
    rw [latest, latest, Nat.add_sub_add_right]
    lia
  have hmono := run.increasing.monotone (latest_le scanTimeCount e n)
  rw [hlookup, hlatest]
  show (UInt32.ofNat (run.time n) - UInt32.ofNat (run.time (latest scanTimeCount e n))).toNat = _
  rw [UInt32.toNat_sub, UInt32.toNat_ofNat', UInt32.toNat_ofNat', elapsed]
  have hle : run.time (latest scanTimeCount e n) ≤ run.time n := hmono
  omega

/-- A key that debounces is done when its time in the ring is long enough ago. -/
theorem doneAt_iff (hghost : hasGhosting (run.raw n) = false)
    (hlast : IsLast (run.IsEdge key) (n + 1) e) :
    (run.stateAt n).DoneAt (run.config n) (run.scan n) key ↔
      bit (run.edgedAt n).debouncing key = true ∧ run.debounceUs key n ≤ run.elapsed e n := by
  rw [← stamp_sub run (Nat.le_of_lt_succ hlast.lt), ← (run.inv n).edged_edgeIndex hghost hlast]
  show _ ∧ _ ↔ _
  rw [UInt32.le_iff_toNat_le, UInt16.toNat_toUInt32]
  rfl

/-! ## Exactness -/

/-- Debouncing is exact at scan `n`. -/
structure ExactAt (run : Run cols) (n : Nat) : Prop where
  settled_eq : hasGhosting (run.raw n) = false → ∀ key e, run.Settled key n e →
    bit (run.stateAt (n + 1)).debouncedState key = bit (run.raw n) key
  change_settled : ∀ key, bit (run.stateAt (n + 1)).debouncedState key ≠
      bit (run.stateAt n).debouncedState key →
    hasGhosting (run.raw n) = false ∧ ∃ e, run.Settled key n e
  ghosting_eq : hasGhosting (run.raw n) = true →
    (run.stateAt (n + 1)).debouncedState = (run.stateAt n).debouncedState
  reported : ReportSpec run.runtimeKeys (run.stateAt n) (run.checked n)

/-- For every settled key that still has its old debounced bit, the time of its edge, or that of
a scan in its place, is long enough ago. -/
def TimeKept (run : Run cols) (n : Nat) : Prop :=
  hasGhosting (run.raw n) = false → ∀ key e, run.Settled key n e →
    bit (run.stateAt n).debouncedState key ≠ bit (run.raw n) key →
    run.debounceUs key n ≤ run.elapsed e n

theorem debounced_of_ghosting (hghost : hasGhosting (run.raw n) = true) :
    (run.stateAt (n + 1)).debouncedState = (run.stateAt n).debouncedState := by
  have hstate : run.stateAt (n + 1) =
      (run.stateAt n).saveScanTime (UInt32.ofNat (run.time n)) :=
    (checkKeysChanged_of_ghosting hghost).1
  rw [hstate]
  rfl

theorem debounced_of_not_ghosting (hghost : hasGhosting (run.raw n) = false) (key : Key cols) :
    bit (run.stateAt (n + 1)).debouncedState key =
      if (run.stateAt n).DoneAt (run.config n) (run.scan n) key then bit (run.raw n) key
      else bit (run.stateAt n).debouncedState key :=
  (scanSpec_of_not_ghosting hghost).debounced_eq key

/-- A key with another debounced bit than its own debounces. -/
theorem debouncing_of_ne (hne : bit (run.stateAt n).debouncedState key ≠ bit (run.raw n) key) :
    bit (run.edgedAt n).debouncing key = true := by
  by_contra hno
  have hfalse := Bool.eq_false_of_not_eq_true hno
  rw [(run.inv n).edged_debouncing, Bool.or_eq_false_iff] at hfalse
  apply hne
  rw [(run.inv n).debounced_eq key hfalse.1]
  exact (bne_eq_false_iff_eq.mp hfalse.2).symm

/-- **A debounced bit never changes too early**: what is in the ring is not before the edge. -/
theorem settled_of_change (hghost : hasGhosting (run.raw n) = false)
    (hchange : bit (run.stateAt (n + 1)).debouncedState key ≠
      bit (run.stateAt n).debouncedState key) : ∃ e, run.Settled key n e := by
  rw [debounced_of_not_ghosting hghost] at hchange
  have hdone : (run.stateAt n).DoneAt (run.config n) (run.scan n) key := by
    by_contra hno
    exact hchange (if_neg hno)
  obtain ⟨e, hlast⟩ := (run.inv n).edged_exists_edge hghost hdone.1
  have hlong := ((doneAt_iff hghost hlast).mp hdone).2
  have hle := run.elapsed_le (Nat.le_of_lt_succ hlast.lt)
  exact ⟨e, settled_of_isLast hghost hlast (hlong.trans hle)⟩

/-- A settled key gets its bit if it has it already or its time is kept. -/
theorem settled_eq_iff (hghost : hasGhosting (run.raw n) = false) (h : run.Settled key n e) :
    bit (run.stateAt (n + 1)).debouncedState key = bit (run.raw n) key ↔
      (bit (run.stateAt n).debouncedState key ≠ bit (run.raw n) key →
        run.debounceUs key n ≤ run.elapsed e n) := by
  rw [debounced_of_not_ghosting hghost]
  by_cases hdone : (run.stateAt n).DoneAt (run.config n) (run.scan n) key
  · rw [if_pos hdone]
    exact iff_of_true rfl fun _ => ((doneAt_iff hghost h.isLast).mp hdone).2
  · rw [if_neg hdone]
    constructor
    · exact fun heq hne => absurd heq hne
    · intro hkept
      by_contra hne
      exact hdone ((doneAt_iff hghost h.isLast).mpr ⟨debouncing_of_ne hne, hkept hne⟩)

theorem exactAt_iff : run.ExactAt n ↔ run.TimeKept n := by
  constructor
  · intro h hghost key e hsettled
    exact (settled_eq_iff hghost hsettled).mp (h.settled_eq hghost key e hsettled)
  · intro h
    refine ⟨fun hghost key e hsettled => ?_, fun key hchange => ?_, debounced_of_ghosting,
      checkKeysChanged_reports⟩
    · exact (settled_eq_iff hghost hsettled).mpr (h hghost key e hsettled)
    · cases hghost : hasGhosting (run.raw n) with
      | true => exact absurd (congrArg (bit · key) (debounced_of_ghosting hghost)) hchange
      | false => exact ⟨rfl, settled_of_change hghost hchange⟩

/-- **Debouncing is exact in a run** if and only if the time of every edge is kept. -/
theorem exact_iff (run : Run cols) : (∀ n, run.ExactAt n) ↔ ∀ n, run.TimeKept n :=
  forall_congr' fun _ => exactAt_iff

/-! ## Slow scans -/

/-- Within the last `SCAN_TIME_COUNT` scans and `2 ^ 32` microseconds, the ring has the time. -/
theorem elapsed_eq (run : Run cols) (hscans : n - e < scanTimeCount)
    (htime : run.time n - run.time e < 2 ^ 32) (h : e ≤ n) :
    run.elapsed e n = run.time n - run.time e := by
  have hlatest : latest scanTimeCount e n = e := by
    rw [latest, Nat.mod_eq_of_lt hscans, Nat.sub_sub_self h]
  rw [elapsed, hlatest, Nat.mod_eq_of_lt htime]

/-- A debounced bit that is right stays right while the key keeps its bit. -/
theorem debounced_eq_of_settled (hghost : ∀ m, hasGhosting (run.raw m) = false)
    (h : run.Settled key n e) (hem : e ≤ m)
    (hright : bit (run.stateAt (m + 1)).debouncedState key = bit (run.raw n) key) {k : Nat}
    (hmk : m < k) (hkn : k ≤ n) : bit (run.stateAt k).debouncedState key = bit (run.raw n) key := by
  induction k with
  | zero => exact absurd hmk (Nat.not_lt_zero m)
  | succ k ih =>
      rcases Nat.lt_succ_iff_lt_or_eq.mp hmk with hlt | rfl
      · rw [debounced_of_not_ghosting (hghost k)]
        split
        case isTrue => exact h.same k (by omega) (by omega) (hghost k)
        case isFalse => exact ih hlt (by omega)
      · exact hright

/-- **With slow scans, debouncing is exact**: without ghosting, with one configuration, and if
`SCAN_TIME_COUNT` scans in a row take at least the debounce times. -/
theorem exact_of_slow_scans (run : Run cols) (cfg : ScanConfig cols)
    (hconfig : ∀ n, run.config n = cfg) (hghost : ∀ n, hasGhosting (run.raw n) = false)
    (hgap : ∀ n, run.time (n + 1) - run.time n < 2 ^ 31)
    (hslow : ∀ n pressed, (cfg.debounceUs pressed).toNat ≤ run.time (n + 31) - run.time n) (n : Nat) :
    run.ExactAt n := by
  refine exactAt_iff.mpr fun _ key e hsettled hne => ?_
  have hdebounce (m : Nat) (hem : e ≤ m) (hmn : m ≤ n) :
      run.debounceUs key m = run.debounceUs key n := by
    rw [debounceUs, debounceUs, hconfig, hconfig, hsettled.same m hem hmn (hghost m)]
  -- The first scan at which the key is settled.
  have hexists : ∃ m, e ≤ m ∧ run.debounceUs key n ≤ run.time m - run.time e :=
    ⟨n, hsettled.le, hsettled.long⟩
  obtain ⟨m, ⟨hem, hlong⟩, hfirst⟩ : ∃ m, (e ≤ m ∧ run.debounceUs key n ≤ run.time m - run.time e) ∧
      ∀ k < m, ¬ (e ≤ k ∧ run.debounceUs key n ≤ run.time k - run.time e) :=
    ⟨Nat.find hexists, Nat.find_spec hexists, fun _ hk => Nat.find_min hexists hk⟩
  have hmn : m ≤ n := by
    by_contra hlt
    exact hfirst n (by lia) ⟨hsettled.le, hsettled.long⟩
  have hscans : m - e < scanTimeCount := by
    by_contra hmany
    have hcount : scanTimeCount = 32 := rfl
    refine hfirst (e + 31) (by lia) ⟨Nat.le_add_right e 31, ?_⟩
    rw [debounceUs, hconfig]
    exact hslow e _
  have htime : run.time m - run.time e < 2 ^ 32 := by
    rcases Nat.eq_or_lt_of_le hem with rfl | hlt
    · rw [Nat.sub_self]
      exact Nat.two_pow_pos 32
    · obtain ⟨k, rfl⟩ := Nat.exists_eq_add_of_lt hlt
      have hbefore := not_and.mp (hfirst (e + k) (Nat.lt_succ_self _)) (Nat.le_add_right e k)
      have hsmall : run.debounceUs key n < 2 ^ 16 := UInt16.toNat_lt _
      have hstep := hgap (e + k)
      lia
  have helapsed := run.elapsed_eq hscans htime hem
  rcases Nat.lt_or_eq_of_le hmn with hlt | rfl
  · have hfirstSettled : run.Settled key m e := by
      refine ⟨hem, hsettled.edge, fun k hek hkm hk => ?_, (hdebounce m hem hmn).trans_le hlong⟩
      rw [hsettled.same k hek (hkm.trans hmn) hk, hsettled.same m hem hmn (hghost m)]
    have hright : bit (run.stateAt (m + 1)).debouncedState key = bit (run.raw m) key := by
      refine (settled_eq_iff (hghost m) hfirstSettled).mpr fun _ => ?_
      rw [helapsed]
      exact hfirstSettled.long
    rw [hsettled.same m hem hmn (hghost m)] at hright
    exact absurd (debounced_eq_of_settled hghost hsettled hem hright hlt le_rfl) hne
  · rw [helapsed]
    exact hlong

/-- A key that goes down with the first scan; scans are 2 ms apart, and the debounce time is
65 ms. -/
def fastScans : Run 1 where
  initConfig := ⟨50, 65000, 30000, 2000, 1000, 100000, fun _ => 0xff⟩
  initRows := fun _ => 0
  config := fun _ => ⟨50, 65000, 30000, 2000, 1000, 100000, fun _ => 0xff⟩
  runtimeKeys := fun _ => false
  scan := fun n => ⟨2000 * (n + 1), fun _ => 1⟩
  increasing := fun m n h => by
    show 2000 * (m + 1) < 2000 * (n + 1)
    omega

/-- **The time of the first scan is overwritten** by that of the 33rd, before the key is settled.
When it is, with the 34th scan, its debounced bit does not change. -/
theorem not_exactAt_fastScans : ¬ fastScans.ExactAt 33 := by
  have hsettled : fastScans.Settled (0, 0) 33 0 :=
    ⟨by decide, ⟨by decide, by decide⟩, fun _ _ _ _ => rfl, by decide⟩
  have hghost (m : Nat) : hasGhosting (fastScans.raw m) = false :=
    (by decide : hasGhosting (fastScans.raw 0) = false)
  have hdebounce (m : Nat) : fastScans.debounceUs (0, 0) m = 65000 :=
    (by decide : fastScans.debounceUs (0, 0) 0 = 65000)
  have hwaiting : ∀ m ≤ 33, bit (fastScans.stateAt m).debouncedState (0, 0) = false := by
    intro m
    induction m with
    | zero => exact fun _ => by decide
    | succ m ih =>
        intro hm
        rw [← ih (by omega)]
        by_contra hchange
        obtain ⟨e, hearly⟩ := settled_of_change (hghost m) hchange
        have hlong : 65000 ≤ 2000 * (m + 1) - 2000 * (e + 1) := hdebounce m ▸ hearly.long
        omega
  intro h
  have hkept := exactAt_iff.mp h (hghost 33) (0, 0) 0 hsettled (by
    rw [hwaiting 33 le_rfl]
    decide)
  exact absurd hkept (by decide)

end Run

end Keyboard
end CrosEc
