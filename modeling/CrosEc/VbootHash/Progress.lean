import CrosEc.VbootHash.Reported

/-!
# Whether a hash computation gets stuck

A computation in progress goes on only in a call of `vboot_hash_next_chunk`.  Without mapped
storage, a chunk that cannot be read asks for an abort, which only another call could carry out;
but no call is pending then.  The computation is in progress for ever (`vboot_hash_stuck_step`):
requests are refused, and `EC_VBOOT_HASH_RECALC` does not return.
-/

namespace CrosEc
namespace VbootHash

open Lib

variable {b : Build} {s s' : State} {e : Event}

/-- No call of `vboot_hash_next_chunk` is pending for the computation in progress. -/
def Stuck (s : State) : Prop := s.inProgress = true ∧ s.pending = false

instance (s : State) : Decidable (Stuck s) := inferInstanceAs (Decidable (_ ∧ _))

/-- The computation is aborted, or its next chunk can be hashed, now or later. -/
def callGoesOn (b : Build) (s : State) (io : ChunkIo) : Bool :=
  s.wantAbort || b.mappedStorage || s.dataSize ≤ s.currPos || io.acquire = ecErrorBusy ||
    (io.acquire = ecSuccess && io.read = ecSuccess)

/-- Every call of the deferred function goes on. -/
def callsGoOn (b : Build) (s : State) : Event → Bool
  | .deferred io => callGoesOn b s io
  | _ => true

theorem abort_pending (s : State) : s.abort.pending = s.pending := by
  unfold State.abort
  split_ifs <;> rfl

/-- An abort does not change whether the computation is stuck. -/
theorem stuck_abort : Stuck s.abort ↔ Stuck s := by
  rw [Stuck, abort_inProgress, abort_pending, Stuck]

theorem callGoesOn_iff {io : ChunkIo} : callGoesOn b s io = true ↔
    s.wantAbort = true ∨ ChunkGoesOn b io (min chunkSize (s.dataSize - s.currPos)) := by
  have hsize : min chunkSize (s.dataSize - s.currPos) = 0 ↔ s.dataSize ≤ s.currPos := by
    simp only [chunkSize]
    omega
  simp only [callGoesOn, ChunkGoesOn, hsize, Bool.or_eq_true, Bool.and_eq_true, decide_eq_true_eq,
    or_assoc]

/-- **A call of the deferred function leaves the computation stuck exactly if it does not go on.** -/
theorem stuck_runDeferred_iff {io : ChunkIo} (hprogress : s.inProgress = true) :
    Stuck (s.runDeferred b io) ↔ callGoesOn b s io = false := by
  rw [← Bool.not_eq_true, callGoesOn_iff]
  unfold State.runDeferred State.nextChunk
  by_cases habort : s.wantAbort = true
  · simp [habort, Stuck, State.abort]
  dsimp only
  rw [if_neg habort]
  generalize min chunkSize (s.dataSize - s.currPos) = size
  rcases hashChunk_cases b io (s.dataOffset + s.currPos) size { s with pending := false } with
    ⟨hgoes, hchunk⟩ | ⟨hgoes, hchunk⟩ | ⟨rv, hrv, hnot, hchunk⟩
  · rw [hchunk]
    dsimp only
    rw [if_neg (by decide), if_neg habort]
    split_ifs <;> simp [Stuck, hgoes]
  · rw [hchunk]
    dsimp only
    rw [if_pos (by decide)]
    simp [Stuck, hgoes]
  · rw [hchunk]
    dsimp only
    rw [if_pos hrv, stuck_abort]
    simp [Stuck, hprogress, habort, hnot]

/-! ## The other calls -/

theorem not_stuck_start {offset size : Nat} {nonce : Bytes} {nonceSize : Int} (h : ¬ Stuck s) :
    ¬ Stuck (s.start b offset size nonce nonceSize).2 := by
  unfold State.start
  split_ifs
  · exact h
  · exact h
  · simp [Stuck]

/-- A write or an erase changes at most what an abort changes. -/
theorem stuck_operation {offset size : Int} {p : Physical} :
    Stuck ((s.abortOrInvalidateHash offset size).physical b offset size p).2 ↔ Stuck s := by
  change Stuck (s.abortOrInvalidateHash offset size) ↔ Stuck s
  unfold State.abortOrInvalidateHash State.invalidate
  split_ifs <;> first
    | exact stuck_abort
    | exact Iff.rfl

theorem not_stuck_hostStartHash {m : Images} {p : Params} (h : ¬ Stuck s) :
    ¬ Stuck (s.hostStartHash b m p).2 := by
  unfold State.hostStartHash
  split_ifs
  · exact h
  · exact h
  · exact not_stuck_start h

/-- The wait ends where nothing is in progress. -/
theorem inProgress_of_wait {ios : List ChunkIo} (hwait : s.wait b ios = some s') :
    s'.inProgress = false := by
  induction ios generalizing s with
  | nil =>
      simp only [State.wait, Option.ite_none_left_eq_some, Option.some.injEq] at hwait
      obtain ⟨hidle, rfl⟩ := hwait
      exact Bool.eq_false_iff.mpr hidle
  | cons io ios ih =>
      unfold State.wait at hwait
      dsimp only at hwait
      split_ifs at hwait with hprogress hpending
      · exact ih hwait
      · obtain rfl := Option.some.inj hwait
        exact Bool.eq_false_iff.mpr hprogress

theorem not_stuck_hostCommand {m : Images} {p : Params} {r : Response} {ios : List ChunkIo}
    {rv : Code} {answer : Option Response} (h : ¬ Stuck s)
    (hcommand : s.hostCommand b m p r ios = some (rv, answer, s')) : ¬ Stuck s' := by
  unfold State.hostCommand at hcommand
  have hstart := not_stuck_hostStartHash (b := b) (m := m) (p := p) h
  cases hcmd : p.cmd with
  | get | other =>
      simp only [hcmd, Option.some.injEq, Prod.mk.injEq] at hcommand
      obtain ⟨-, -, rfl⟩ := hcommand
      exact h
  | abort =>
      simp only [hcmd, Option.some.injEq, Prod.mk.injEq] at hcommand
      obtain ⟨-, -, rfl⟩ := hcommand
      exact mt stuck_abort.mp h
  | start =>
      simp only [hcmd] at hcommand
      split_ifs at hcommand <;>
      · simp only [Option.some.injEq, Prod.mk.injEq] at hcommand
        obtain ⟨-, -, rfl⟩ := hcommand
        exact hstart
  | recalc =>
      simp only [hcmd] at hcommand
      by_cases hrv : (s.hostStartHash b m p).1 ≠ ecResSuccess
      · rw [if_pos hrv] at hcommand
        simp only [Option.some.injEq, Prod.mk.injEq] at hcommand
        obtain ⟨-, -, rfl⟩ := hcommand
        exact hstart
      · rw [if_neg hrv, Option.map_eq_some_iff] at hcommand
        obtain ⟨s₁, hwait, heq⟩ := hcommand
        simp only [Prod.mk.injEq] at heq
        obtain ⟨-, -, rfl⟩ := heq
        simp [Stuck, inProgress_of_wait hwait]

/-! ## Runs -/

/-- **Step lemma.** -/
theorem not_stuck_step (hinv : Inv b s) (h : ¬ Stuck s) (hallowed : callsGoOn b s e = true)
    (hstep : step b s e = some s') : ¬ Stuck s' := by
  cases e with
  | start offset size nonce nonceSize =>
      obtain rfl := Option.some.inj hstep
      exact not_stuck_start h
  | abort =>
      obtain rfl := Option.some.inj hstep
      exact mt stuck_abort.mp h
  | write offset size p =>
      obtain rfl := Option.some.inj hstep
      unfold State.flashWrite
      split_ifs
      · exact mt stuck_operation.mp h
      · exact h
  | erase offset size p =>
      obtain rfl := Option.some.inj hstep
      unfold State.flashErase
      split_ifs
      · exact mt stuck_operation.mp h
      · exact h
  | deferred io =>
      simp only [step, Option.ite_none_right_eq_some, Option.some.injEq] at hstep
      obtain ⟨hpending, rfl⟩ := hstep
      rw [stuck_runDeferred_iff (hinv.pending hpending)]
      simpa [callsGoOn] using hallowed
  | host m p r ios =>
      obtain ⟨answer, hcommand, rfl⟩ := Option.map_eq_some_iff.mp hstep
      exact not_stuck_hostCommand h hcommand

/-- **A hash computation does not get stuck** in a run in which every call of the deferred function
goes on: while one is in progress, a call of `vboot_hash_next_chunk` is pending. -/
theorem vboot_hash_pending {flash : Nat → UInt8}
    (h : Reachable (step b) (callsGoOn b) (State.boot flash) s) (hprogress : s.inProgress = true) :
    s.pending = true := by
  have hinv : Inv b s ∧ ¬ Stuck s := h.invariant (fun s => Inv b s ∧ ¬ Stuck s)
    ⟨inv_boot flash, by simp [Stuck, State.boot]⟩
    fun s e s' hboth hallowed hstep =>
      ⟨inv_step hboth.1 hstep, not_stuck_step hboth.1 hboth.2 hallowed hstep⟩
  by_contra hpending
  exact hinv.2 ⟨hprogress, Bool.eq_false_iff.mpr hpending⟩

/-- Without mapped storage: a busy buffer, and then the chunk. -/
theorem vboot_hash_pending_run :
    ∃ s, Reachable (step (testBuild false)) (callsGoOn (testBuild false)) (State.boot fun _ => 0) s ∧
      s.inProgress = true ∧ s.pending = true := by
  obtain ⟨s, hrun, hprogress⟩ : ∃ s, Reachable (step (testBuild false))
      (callsGoOn (testBuild false)) (State.boot fun _ => 0) s ∧ s.inProgress = true :=
    Reachable.exists_of_runEvents
      [.start 0 2048 [] 0, .deferred ⟨ecErrorBusy, ecSuccess⟩, .deferred ⟨ecSuccess, ecSuccess⟩]
      (by decide +kernel)
  exact ⟨s, hrun, hprogress, vboot_hash_pending hrun hprogress⟩

/-- **A hash computation gets stuck.** The flash cannot be read for a chunk. -/
theorem vboot_hash_stuck :
    ∃ s, Reachable (step (testBuild false)) anyEvent (State.boot fun _ => 0) s ∧
      s.inProgress = true ∧ s.pending = false :=
  Reachable.exists_of_runEvents
    [.start 0 2048 [] 0, .deferred ⟨ecSuccess, ecErrorUnknown⟩] (by decide +kernel)

/-- And it stays stuck, whatever is called. -/
theorem vboot_hash_stuck_step (h : Stuck s) (hstep : step b s e = some s') : Stuck s' := by
  obtain ⟨hprogress, hpending⟩ := h
  have hstart : ∀ offset size nonce nonceSize,
      s.start b offset size nonce nonceSize = (ecErrorBusy, s) := by
    intro offset size nonce nonceSize
    rw [State.start, if_pos hprogress]
  cases e with
  | start offset size nonce nonceSize =>
      obtain rfl := Option.some.inj hstep
      rw [hstart]
      exact ⟨hprogress, hpending⟩
  | abort =>
      obtain rfl := Option.some.inj hstep
      exact stuck_abort.mpr ⟨hprogress, hpending⟩
  | write offset size p =>
      obtain rfl := Option.some.inj hstep
      unfold State.flashWrite
      split_ifs
      · exact stuck_operation.mpr ⟨hprogress, hpending⟩
      · exact ⟨hprogress, hpending⟩
  | erase offset size p =>
      obtain rfl := Option.some.inj hstep
      unfold State.flashErase
      split_ifs
      · exact stuck_operation.mpr ⟨hprogress, hpending⟩
      · exact ⟨hprogress, hpending⟩
  | deferred io =>
      simp [step, hpending] at hstep
  | host m p r ios =>
      obtain ⟨⟨rv, answer, s₁⟩, hcommand, rfl⟩ := Option.map_eq_some_iff.mp hstep
      have hrefused : (s.hostStartHash b m p).1 ≠ ecResSuccess ∧
          (s.hostStartHash b m p).2 = s := by
        have hinval : ecResInvalidParam ≠ ecResSuccess := by decide
        have hbusy : (if ecErrorBusy = ecSuccess then ecResSuccess
            else if ecErrorBusy = ecErrorInval then ecResInvalidParam else ecResError) ≠
              ecResSuccess := by decide
        unfold State.hostStartHash
        rw [hstart]
        split_ifs
        · exact ⟨hinval, rfl⟩
        · exact ⟨hinval, rfl⟩
        · exact ⟨hbusy, rfl⟩
      unfold State.hostCommand at hcommand
      cases hcmd : p.cmd with
      | get | other =>
          simp only [hcmd, Option.some.injEq, Prod.mk.injEq] at hcommand
          obtain ⟨-, -, rfl⟩ := hcommand
          exact ⟨hprogress, hpending⟩
      | abort =>
          simp only [hcmd, Option.some.injEq, Prod.mk.injEq] at hcommand
          obtain ⟨-, -, rfl⟩ := hcommand
          exact stuck_abort.mpr ⟨hprogress, hpending⟩
      | start | recalc =>
          simp only [hcmd] at hcommand
          rw [if_pos hrefused.1] at hcommand
          simp only [Option.some.injEq, Prod.mk.injEq] at hcommand
          obtain ⟨-, -, rfl⟩ := hcommand
          change Stuck (s.hostStartHash b m p).2
          rw [hrefused.2]
          exact ⟨hprogress, hpending⟩

end VbootHash
end CrosEc
