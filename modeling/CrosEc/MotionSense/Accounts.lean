import CrosEc.MotionSense.Model

/-!
# The FIFO accounts for every unit

Making room and adding are two sections, and the first one makes room before it knows whether the
sample is wanted.  A unit is lost for nothing if it is not; a unit that was to be queued is dropped
if another task took the room that was made for it; and the number of an activity is none of a
sensor, although `motion_sensors[]` is indexed with it when the activity is lost
(`motion_sense_fifo_out_of_bounds`).  In the runs where none of this happens every unit is
accounted for (`motion_sense_fifo_accounts`).
-/

namespace CrosEc
namespace MotionSense

open Lib Queue

variable {b : Board} {s s' : State b} {items : List Bytes} {t : Nat}

theorem bytes_fifo (b : Board) : bytes b.fifo = 8 := by
  rw [bytes, b.unitBytes]
  rfl

@[simp] theorem SensorData.length_toBytes (d : SensorData) : d.toBytes.length = 8 := by
  simp [SensorData.toBytes]

/-! ## What is accounted for -/

/-- A call has put its unit in the place of the `k`th one that left the queue, or is about to. -/
def Replaced (s : State b) (k : Nat) : Prop :=
  (∃ c ∈ s.ledger.calls, c.evicted = some k ∧ c.added = true) ∨
    ∃ t data rest, s.tasks t = .adding data (some k) rest

structure Accounts (s : State b) : Prop where
  /-- the units that were to be queued are those that were read or lost, in order, and those that
  are in the queue -/
  queue : ∃ items, Holds b.fifo s.fifo items ∧
    s.ledger.toQueue = s.ledger.gone.map Prod.fst ++ items
  /-- a call whose unit was to be queued has queued it -/
  queued : ∀ c ∈ s.ledger.calls, c.wanted = true → c.added = true
  /-- a unit is discarded only for one in its place -/
  replaced : ∀ k u, s.ledger.gone[k]? = some (u, .lost) → Replaced s k
  /-- every loss is counted once -/
  lost : s.fifoLost + s.ledger.cleared =
    BitVec.ofNat 32 (s.ledger.gone.countP fun g => g.2 = .lost)
  indexed : ∀ i ∈ s.ledger.indexed, i < b.motionSensorCount
  noFault : s.ledger.fault = false

/-- The sensor number of the unit that would be discarded. -/
def headSensorNum (s : State b) : Nat :=
  match queuePeekUnits b.fifo (List.replicate 8 0) 0 1 s.fifo with
  | none => 0
  | some (vector, _) => sensorNumOf vector

/-- Room is made only for a sample that is wanted, from the unit of a sensor, and there is still
room when the sample is added. -/
def roomIsKept (s : State b) : Event b → Bool
  | .task t _ =>
      match s.tasks t with
      | .idle => true
      | .entry call _ => queueSpace b.fifo s.fifo ≠ 0 ||
          (s.wants call && headSensorNum s < b.motionSensorCount)
      | .adding _ _ _ => queueSpace b.fifo s.fifo ≠ 0
  | _ => true

/-! ## Making room -/

theorem space_eq_zero_iff (h : Holds b.fifo s.fifo items) :
    queueSpace b.fifo s.fifo = 0 ↔ items.length = units b.fifo := by
  rw [← h.isFull_iff, queueIsFull, decide_eq_true_iff]

/-- What is copied out of the queue is the first unit. -/
theorem first_unit {u : Bytes} {rest : List Bytes} (h : Holds b.fifo s.fifo (u :: rest)) :
    ((u :: rest).take 1).flatten ++
      (List.replicate 8 (0 : UInt8)).drop ((u :: rest).take 1).flatten.length = u := by
  have hlen := h.unit_length u (by simp)
  rw [bytes_fifo] at hlen
  simp [hlen]

theorem headSensorNum_cons {u : Bytes} {rest : List Bytes}
    (h : Holds b.fifo s.fifo (u :: rest)) : headSensorNum s = sensorNumOf u := by
  obtain ⟨r, hpeek, -⟩ :=
    @queuePeekUnits_spec 32 b.fifo s.fifo (u :: rest) h (List.replicate 8 0) 0 1 1 (by simp)
      (by simp) (by simp [bytes_fifo])
  have hzero : (0 : BitVec 32).toNat = 0 := rfl
  rw [hzero, List.drop_zero, first_unit h] at hpeek
  rw [headSensorNum, hpeek]

/-- **Making room.** There is room, or the first unit is discarded and counted. -/
theorem makeRoom_cases (h : Holds b.fifo s.fifo items) :
    (items.length < units b.fifo ∧ s.makeRoom = (none, s)) ∨
      ∃ u rest fifo, items = u :: rest ∧ queueSpace b.fifo s.fifo = 0 ∧ Holds b.fifo fifo rest ∧
        s.makeRoom = (some s.ledger.gone.length, { s with
          fifo := fifo
          fifoLost := s.fifoLost + 1
          motionSensors := addLost s.motionSensors (sensorNumOf u)
          ledger := { s.ledger with
            gone := s.ledger.gone ++ [(u, .lost)]
            indexed := s.ledger.indexed ++ [sensorNumOf u] } }) := by
  by_cases hfull : queueSpace b.fifo s.fifo = 0
  · right
    have hlen := (space_eq_zero_iff h).mp hfull
    have hpos := units_pos b.fifo
    cases items with
    | nil =>
        rw [List.length_nil] at hlen
        omega
    | cons u rest =>
        obtain ⟨r, fifo, hremove, -, hholds⟩ :=
          @queueRemoveUnit_spec 32 b.fifo s.fifo (u :: rest) h (List.replicate 8 0) 1 (by simp)
            (by simp [bytes_fifo])
        rw [first_unit h] at hremove
        refine ⟨u, rest, fifo, rfl, hfull, hholds, ?_⟩
        rw [State.makeRoom, if_pos hfull, hremove]
  · left
    have hne := mt (space_eq_zero_iff h).mpr hfull
    exact ⟨lt_of_le_of_ne h.length_le hne, if_neg hfull⟩

/-- The count of lost units has no influence on the oversampling. -/
theorem wants_addLost {fifo : QueueState 32} {lost : BitVec 32} {ledger : Ledger} (num : Nat)
    (c : AddUnit b) :
    State.wants { s with
      fifo := fifo
      fifoLost := lost
      motionSensors := addLost s.motionSensors num
      ledger := ledger } c = s.wants c := by
  unfold State.wants
  cases c.sampled with
  | none => rfl
  | some i =>
      simp only [addLost, Sensor.wanted]
      split_ifs <;> rfl

/-- Only the sensors are changed. -/
theorem takeSample_eq (s : State b) (c : AddUnit b) :
    ∃ sensors, s.takeSample c = { s with motionSensors := sensors } := by
  unfold State.takeSample
  cases c.sampled with
  | none => exact ⟨s.motionSensors, rfl⟩
  | some i => exact ⟨_, rfl⟩

/-! ## The other calls of the queue -/

/-- A unit is added where there is room. -/
theorem queueAddUnit_room (h : Holds b.fifo s.fifo items) (hroom : items.length < units b.fifo)
    (data : SensorData) :
    ∃ ret fifo, queueAddUnit b.fifo data.toBytes s.fifo = some (ret, fifo) ∧ ret ≠ 0 ∧
      Holds b.fifo fifo (items ++ [data.toBytes]) := by
  obtain ⟨ret, fifo, hadd, hret, hholds⟩ :=
    @queueAddUnit_spec 32 b.fifo s.fifo items h data.toBytes 1 (by omega) (by simp [bytes_fifo])
  refine ⟨ret, fifo, hadd, ?_, ?_⟩
  · intro hzero
    rw [hzero] at hret
    simp at hret
  · have hunit : data.toBytes.take 8 = data.toBytes := List.take_of_length_le (by simp)
    simpa [Queue.toUnits, bytes_fifo, hunit] using hholds

/-- Units that were copied are found again. -/
theorem toUnits_flatten {k : Nat} {us : List Bytes} (h : ∀ u ∈ us, u.length = k) (rest : Bytes) :
    toUnits k us.length (us.flatten ++ rest) = us := by
  induction us with
  | nil => rfl
  | cons u us ih =>
      have hlen : u.length = k := h u (by simp)
      have hrest := ih fun v hv => h v (by simp [hv])
      rw [List.length_cons, Queue.toUnits, List.flatten_cons, List.append_assoc, ← hlen, List.take_left,
        List.drop_left, hlen, hrest]

/-- The host reads the first units. -/
theorem queueRemoveUnits_first (h : Holds b.fifo s.fifo items) {data : Bytes} {count : BitVec 32}
    (hdata : count.toNat * 8 ≤ data.length) :
    ∃ data' ret fifo n, queueRemoveUnits b.fifo data count s.fifo = some (data', ret, fifo) ∧
      toUnits (bytes b.fifo) ret.toNat data' = items.take n ∧
      Holds b.fifo fifo (items.drop n) := by
  have hfew : min count.toNat items.length * bytes b.fifo ≤ data.length := by
    rw [bytes_fifo]
    omega
  obtain ⟨ret, fifo, hremove, hret, hholds⟩ := queueRemoveUnits_spec h rfl hfew
  refine ⟨_, ret, fifo, _, hremove, ?_, hholds⟩
  have hlen : (items.take (min count.toNat items.length)).length = ret.toNat := by
    rw [List.length_take, hret]
    omega
  rw [← hlen]
  exact toUnits_flatten (fun u hu => h.unit_length u (List.mem_of_mem_take hu)) _

/-! ## Units that are replaced -/

/-- What is in flight stays so, if another task goes on. -/
theorem Replaced.of_task {k : Nat} {task : Task b} (h : Replaced s k)
    (hcalls : ∀ c ∈ s.ledger.calls, c ∈ s'.ledger.calls)
    (htasks : s'.tasks = Function.update s.tasks t task)
    (hother : ∀ data rest, s.tasks t ≠ .adding data (some k) rest) : Replaced s' k := by
  rcases h with ⟨c, hc, hevicted, hadded⟩ | ⟨t', data, rest, ht'⟩
  · exact .inl ⟨c, hcalls c hc, hevicted, hadded⟩
  · right
    have hne : t' ≠ t := by
      intro heq
      exact hother data rest (heq ▸ ht')
    refine ⟨t', data, rest, ?_⟩
    rw [htasks, Function.update_of_ne hne, ht']

/-- A unit that left the queue is one of those before, or the new one. -/
theorem getElem?_append_one {gone : List (Bytes × Fate)} {g g' : Bytes × Fate} {k : Nat}
    (h : (gone ++ [g])[k]? = some g') :
    gone[k]? = some g' ∨ (k = gone.length ∧ g = g') := by
  by_cases hlt : k < gone.length
  · rw [List.getElem?_append_left hlt] at h
    exact .inl h
  · have hlast := h
    rw [List.getElem?_append_right (by omega)] at hlast
    have hk : k - gone.length = 0 := by
      by_contra hpos
      rw [List.getElem?_eq_none (by simp; omega)] at hlast
      cases hlast
    rw [hk] at hlast
    exact .inr ⟨by omega, Option.some.inj hlast⟩

/-! ## Steps -/

/-- The initial state. -/
theorem accounts_init (b : Board) (sensors : Fin b.motionSensorCount → Sensor) :
    Accounts (State.init b sensors) where
  queue := ⟨[], holds_queueInit (by simp), rfl⟩
  queued := by simp [State.init]
  replaced := by simp [State.init]
  lost := rfl
  indexed := by simp [State.init]
  noFault := rfl

/-- A task makes its next call, or waits with a sample for which no unit was discarded. -/
theorem Accounts.goOn (h : Accounts s) (task : Task b)
    (sensors : Fin b.motionSensorCount → Sensor)
    (hother : ∀ data k rest, s.tasks t ≠ .adding data (some k) rest) :
    Accounts { s with
      motionSensors := sensors
      tasks := Function.update s.tasks t task } :=
  { h with
    replaced := fun k u hk => (h.replaced k u hk).of_task (fun _ hc => hc) rfl
      fun data rest => hother data k rest }

/-- A sample that is not wanted. -/
theorem Accounts.unwanted (h : Accounts s) :
    Accounts { s with ledger := { s.ledger with
      calls := s.ledger.calls ++ [⟨none, false, false⟩] } } :=
  { h with
    queued := by
      intro c hc hwanted
      rcases List.mem_append.mp hc with hc | hc
      · exact h.queued c hc hwanted
      · cases List.mem_singleton.mp hc
        cases hwanted
    replaced := by
      intro k u hk
      rcases h.replaced k u hk with ⟨c, hc, hreplaced⟩ | hflight
      · exact .inl ⟨c, List.mem_append_left _ hc, hreplaced⟩
      · exact .inr hflight }

/-- The first unit is discarded; the call that did it has its own unit in flight. -/
theorem Accounts.evict {u : Bytes} {rest : List Bytes} {fifo : QueueState 32} {data : SensorData}
    {calls : List (AddUnit b)} {sensors : Fin b.motionSensorCount → Sensor} (h : Accounts s)
    (hledger : s.ledger.toQueue = s.ledger.gone.map Prod.fst ++ (u :: rest))
    (hfifo : Holds b.fifo fifo rest) (hnum : sensorNumOf u < b.motionSensorCount)
    (hother : ∀ data k rest, s.tasks t ≠ .adding data (some k) rest) :
    Accounts { s with
      fifo := fifo
      fifoLost := s.fifoLost + 1
      motionSensors := sensors
      tasks := Function.update s.tasks t (.adding data (some s.ledger.gone.length) calls)
      ledger := { s.ledger with
        gone := s.ledger.gone ++ [(u, .lost)]
        indexed := s.ledger.indexed ++ [sensorNumOf u] } } where
  queue := ⟨rest, hfifo, by simpa using hledger⟩
  queued := h.queued
  replaced := by
    intro k v hk
    rcases getElem?_append_one hk with hk | ⟨rfl, -⟩
    · exact (h.replaced k v hk).of_task (fun _ hc => hc) rfl fun data rest => hother data k rest
    · exact .inr ⟨t, data, calls, Function.update_self ..⟩
  lost := by
    have hlost := h.lost
    rw [List.countP_append, BitVec.ofNat_add, ← hlost]
    simp only [List.countP_singleton, decide_true, if_true]
    rw [BitVec.add_assoc, BitVec.add_comm 1, ← BitVec.add_assoc]
    rfl
  indexed := by
    intro i hi
    rcases List.mem_append.mp hi with hi | hi
    · exact h.indexed i hi
    · rw [List.mem_singleton.mp hi]
      exact hnum
  noFault := h.noFault

/-- The unit in flight is added. -/
theorem Accounts.add {data : SensorData} {evicted : Option Nat} {calls : List (AddUnit b)}
    {u : Bytes} {fifo : QueueState 32} {ret : BitVec 32} {wakeUp : Bool} (h : Accounts s)
    (hledger : s.ledger.toQueue = s.ledger.gone.map Prod.fst ++ items)
    (hfifo : Holds b.fifo fifo (items ++ [u])) (hret : ret ≠ 0)
    (ht : s.tasks t = .adding data evicted calls) :
    Accounts { s with
      fifo := fifo
      wakeUpNeeded := wakeUp
      tasks := Function.update s.tasks t (.next calls)
      ledger := { s.ledger with
        toQueue := s.ledger.toQueue ++ [u]
        calls := s.ledger.calls ++ [⟨evicted, true, ret ≠ 0⟩] } } where
  queue := ⟨items ++ [u], hfifo, by rw [hledger, List.append_assoc]⟩
  queued := by
    intro c hc hwanted
    rcases List.mem_append.mp hc with hc | hc
    · exact h.queued c hc hwanted
    · rw [List.mem_singleton.mp hc]
      simpa using hret
  replaced := by
    intro k v hk
    by_cases hevicted : evicted = some k
    · exact .inl ⟨_, List.mem_append_right _ (List.mem_singleton.mpr rfl), hevicted, by simpa using hret⟩
    · refine (h.replaced k v hk).of_task (fun c hc => List.mem_append_left _ hc) rfl ?_
      intro data' calls' htask
      rw [ht] at htask
      cases htask
      exact hevicted rfl
  lost := h.lost
  indexed := h.indexed
  noFault := h.noFault

/-- Units are read. -/
theorem Accounts.read {n : Nat} {fifo : QueueState 32} (h : Accounts s)
    (hledger : s.ledger.toQueue = s.ledger.gone.map Prod.fst ++ items)
    (hfifo : Holds b.fifo fifo (items.drop n)) :
    Accounts { s with
      fifo := fifo
      ledger := { s.ledger with
        gone := s.ledger.gone ++ (items.take n).map fun u => (u, .read) } } where
  queue := by
    refine ⟨items.drop n, hfifo, ?_⟩
    simp only [List.map_append, List.map_map, Function.comp_def, List.map_id', List.append_assoc,
      List.take_append_drop]
    exact hledger
  queued := h.queued
  replaced := by
    intro k u hk
    by_cases hlt : k < s.ledger.gone.length
    · rw [List.getElem?_append_left hlt] at hk
      exact h.replaced k u hk
    · -- What the host reads is not lost.
      rw [List.getElem?_append_right (by omega), List.getElem?_map] at hk
      obtain ⟨v, -, hv⟩ := Option.map_eq_some_iff.mp hk
      cases hv
  lost := by
    have hread : ((items.take n).map fun u => (u, Fate.read)).countP (fun g => g.2 = .lost) = 0 := by
      refine List.countP_eq_zero.mpr fun g hg => ?_
      obtain ⟨u, -, rfl⟩ := List.mem_map.mp hg
      simp
    rw [List.countP_append, hread]
    exact h.lost
  indexed := h.indexed
  noFault := h.noFault

/-- The counts are cleared. -/
theorem Accounts.fifoInfo (h : Accounts s) : Accounts s.fifoInfo :=
  { h with
    lost := by
      have hlost := h.lost
      rw [BitVec.add_comm] at hlost
      exact (BitVec.zero_add _).trans hlost }

/-! ## The sections -/

theorem Accounts.firstSection {c : AddUnit b} {rest : List (AddUnit b)} (h : Accounts s)
    (ht : s.tasks t = .entry c rest)
    (hroom : queueSpace b.fifo s.fifo ≠ 0 ∨
      (s.wants c = true ∧ headSensorNum s < b.motionSensorCount)) :
    Accounts (s.firstSection t c rest) := by
  have hother : ∀ data k rest, s.tasks t ≠ .adding data (some k) rest := by
    intro data k rest htask
    rw [ht] at htask
    cases htask
  obtain ⟨items, hholds, hledger⟩ := h.queue
  unfold State.firstSection
  rcases makeRoom_cases hholds with ⟨-, hmade⟩ | ⟨u, rest', fifo, rfl, hfull, hfifo, hmade⟩
  · rw [hmade]
    dsimp only
    obtain ⟨sensors, htake⟩ := takeSample_eq s c
    rw [htake]
    by_cases hwanted : s.wants c = true
    · rw [if_pos hwanted]
      exact h.goOn _ _ hother
    · rw [if_neg hwanted]
      exact h.unwanted.goOn _ _ hother
  · obtain ⟨hwanted, hnum⟩ := hroom.resolve_left (not_not_intro hfull)
    rw [headSensorNum_cons hholds] at hnum
    rw [hmade]
    dsimp only
    rw [wants_addLost, if_pos hwanted]
    obtain ⟨sensors, htake⟩ := takeSample_eq _ c
    rw [htake]
    exact h.evict hledger hfifo hnum hother

theorem Accounts.secondSection {data : SensorData} {evicted : Option Nat}
    {rest : List (AddUnit b)} {tabletMode : Bool} (h : Accounts s)
    (ht : s.tasks t = .adding data evicted rest) (hroom : queueSpace b.fifo s.fifo ≠ 0) :
    Accounts (s.secondSection t data evicted rest tabletMode) := by
  obtain ⟨items, hholds, hledger⟩ := h.queue
  have hlen : items.length < units b.fifo :=
    lt_of_le_of_ne hholds.length_le (mt (space_eq_zero_iff hholds).mpr hroom)
  obtain ⟨ret, fifo, hadd, hret, hfifo⟩ :=
    queueAddUnit_room hholds hlen (data.addFlags b tabletMode)
  unfold State.secondSection
  dsimp only
  rw [hadd]
  exact h.add hledger hfifo hret ht

theorem Accounts.fifoRead {maxDataVector : BitVec 32} {data : Bytes} (h : Accounts s) :
    Accounts (s.fifoRead maxDataVector data) := by
  obtain ⟨items, hholds, hledger⟩ := h.queue
  unfold State.fifoRead
  dsimp only
  generalize hcount : cMin (BitVec.ofNat 32 data.length / b.fifo.unitBytes)
    (cMin (queueCount s.fifo) maxDataVector) = count
  have hdata : count.toNat * 8 ≤ data.length := by
    have hle : (BitVec.ofNat 32 data.length).toNat ≤ data.length := by
      rw [BitVec.toNat_ofNat]
      exact Nat.mod_le _ _
    have hdiv : count.toNat ≤ (BitVec.ofNat 32 data.length).toNat / 8 := by
      rw [← hcount, toNat_cMin, BitVec.toNat_udiv, b.unitBytes]
      exact Nat.min_le_left _ _
    omega
  obtain ⟨data', ret, fifo, n, hremove, hunits, hfifo⟩ := queueRemoveUnits_first hholds hdata
  rw [hremove]
  dsimp only
  rw [hunits]
  exact h.read hledger hfifo

/-! ## Runs -/

/-- **Step lemma.** -/
theorem Accounts.step {e : Event b} (h : Accounts s) (hroom : roomIsKept s e = true)
    (hstep : step s e = some s') : Accounts s' := by
  have hcall : ∀ t calls, s.call t calls = some s' → Accounts s' := by
    intro t calls hcall
    unfold State.call at hcall
    cases ht : s.tasks t with
    | idle =>
        rw [ht] at hcall
        obtain rfl := Option.some.inj hcall
        refine h.goOn _ s.motionSensors ?_
        intro data k rest htask
        rw [ht] at htask
        cases htask
    | entry call rest =>
        rw [ht] at hcall
        cases hcall
    | adding data evicted rest =>
        rw [ht] at hcall
        cases hcall
  cases e with
  | addData t call time reserved => exact hcall t _ hstep
  | asyncEvent t sensor evt time reserved => exact hcall t _ hstep
  | timestamp t time reserved => exact hcall t _ hstep
  | task t tabletMode =>
      simp only [MotionSense.step] at hstep
      simp only [roomIsKept] at hroom
      cases ht : s.tasks t with
      | idle =>
          rw [ht] at hstep
          cases hstep
      | entry call rest =>
          rw [ht] at hstep hroom
          obtain rfl := Option.some.inj hstep
          exact h.firstSection ht (by simpa using hroom)
      | adding data evicted rest =>
          rw [ht] at hstep hroom
          obtain rfl := Option.some.inj hstep
          exact h.secondSection ht (by simpa using hroom)
  | fifoRead maxDataVector data =>
      obtain rfl := Option.some.inj hstep
      exact h.fifoRead
  | fifoInfo =>
      obtain rfl := Option.some.inj hstep
      exact h.fifoInfo
  | setDataRate i ratio =>
      obtain rfl := Option.some.inj hstep
      exact { h with }

/-- **The FIFO accounts for every unit** in every run in which the room that is made is kept. -/
theorem motion_sense_fifo_accounts {sensors : Fin b.motionSensorCount → Sensor}
    (h : Reachable step roomIsKept (State.init b sensors) s) : Accounts s :=
  h.invariant Accounts (accounts_init b sensors) fun _ _ _ hs hroom hstep => hs.step hroom hstep

/-- A board with one sensor, whose queue has one unit. -/
def oneUnit : Board := ⟨1, ⟨1, 8, ⟨0, rfl⟩, by decide, by decide⟩, rfl, false⟩

def oneSensor : Fin oneUnit.motionSensorCount → Sensor := fun _ => ⟨fun _ => 0, 0, 0, 0⟩

/-- A timestamp is read, and a flush takes its place. -/
def keptRun : List (Event oneUnit) :=
  [.timestamp 0 5 0, .task 0 false, .task 0 false, .fifoRead 4 (List.replicate 8 0),
    .asyncEvent 1 ⟨0, by decide⟩ .flush 7 0, .task 1 false, .task 1 false]

theorem motion_sense_fifo_accounts_run :
    ∃ s, Reachable step roomIsKept (State.init oneUnit oneSensor) s ∧ Accounts s ∧
      s.ledger.gone.length = 1 ∧ s.ledger.toQueue.length = 2 := by
  have hrun : ((runEvents step roomIsKept (State.init oneUnit oneSensor) keptRun).any
      fun s => decide (s.ledger.gone.length = 1 ∧ s.ledger.toQueue.length = 2)) = true := by
    decide +kernel
  obtain ⟨s, hreach, hlengths⟩ := Reachable.exists_of_runEvents _ hrun
  exact ⟨s, hreach, motion_sense_fifo_accounts hreach, hlengths⟩

/-- A double tap, and a flush that takes its place. -/
def doubleTapRun : List (Event oneUnit) :=
  [.addData 0 (activity oneUnit 0 2 1 fun _ => 0) 5 0, .task 0 false, .task 0 false, .task 0 false,
    .task 0 false, .asyncEvent 0 ⟨0, by decide⟩ .flush 7 0, .task 0 false]

/-- The number of an activity is not one of a sensor. -/
theorem motion_sense_fifo_out_of_bounds :
    ¬ ∀ (b : Board) (sensors : Fin b.motionSensorCount → Sensor) (s : State b),
      Reachable step anyEvent (State.init b sensors) s → Accounts s := by
  intro hall
  have hrun : ((runEvents step anyEvent (State.init oneUnit oneSensor) doubleTapRun).any
      fun s => decide (1 ∈ s.ledger.indexed)) = true := by
    decide +kernel
  obtain ⟨s, hreach, hindex⟩ := Reachable.exists_of_runEvents _ hrun
  have hlt := (hall oneUnit oneSensor s hreach).indexed 1 hindex
  exact absurd hlt (by decide)

end MotionSense
end CrosEc
