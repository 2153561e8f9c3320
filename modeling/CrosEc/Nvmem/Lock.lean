import CrosEc.Nvmem.Runs

/-!
# Who holds the cache

Every user of the cache goes through one lock that is re-entrant by task and stays
taken between calls: `nvmem_write` and `nvmem_move` keep it until the commit, and
`nvmem_disable_commits` keeps it until commits are enabled again.

A `Call` is one call of a task into `nvmem.c`.  `issue` executes it, unless it would
have to wait for another task.  Beside the state we track which tasks have written
since they last entered `nvmem_commit`, and ask when a task can own the lock with
commits enabled and nothing pending.  Two returns lead there, and `Leaks` names them;
the main result is that a run keeps the discipline exactly when it takes neither.
-/

namespace CrosEc
namespace Nvmem

open Lib

inductive Call (n : Nat) where
  | read (offset size : UInt32) (user : Nat)
  | isDifferent (offset size : UInt32) (data : Bytes) (user : Nat)
  | write (offset size : UInt32) (data : Bytes) (user : Nat)
  | move (srcOffset destOffset size : UInt32) (user : Nat)
  | commit (o : SaveOutcome n)
  | disableCommits
  | enableCommits (o : SaveOutcome n)

section Calls

variable {n : Nat} (cfg : Config) (P : Platform n)

/-- The call goes through `nvmem_lock_cache`, where it waits for another owner. -/
def Call.locks : Call n → Bool
  | .commit _ => false
  | .enableCommits _ => false
  | _ => true

/-- The call as task `t` executes it: its return code, the bytes it copies to the
caller, the state it leaves. -/
def runCall (t : TaskId) : Call n → State n → Code × Bytes × State n
  | .read offset size user, s => read cfg t offset size user s
  | .isDifferent offset size data user, s =>
      let r := isDifferent cfg t offset size data user s
      (r.1, [], r.2)
  | .write offset size data user, s =>
      let r := write cfg t offset size data user s
      (r.1, [], r.2)
  | .move src dest size user, s =>
      let r := move cfg t src dest size user s
      (r.1, [], r.2)
  | .commit o, s =>
      let r := commit P t o s
      (r.1, [], r.2)
  | .disableCommits, s => (ecSuccess, [], disableCommits t s)
  | .enableCommits o, s =>
      let r := enableCommits P t o s
      (r.1, [], r.2)

/-- The call takes place; `none` while another task owns the lock it needs. -/
def issue (t : TaskId) (c : Call n) (s : State n) : Option (Code × Bytes × State n) :=
  if c.locks && !mayLock t s then none else some (runCall cfg P t c s)

/-! ## Pending writes -/

/-- The state, and which tasks have issued a write or a move since their last
`nvmem_commit`. -/
structure Tracked (n : Nat) where
  state : State n
  pending : TaskId → Bool

/-- The call enters `nvmem_commit`. -/
def Call.entersCommit (t : TaskId) : Call n → State n → Bool
  | .commit _, _ => true
  | .enableCommits _, s => !s.commitsEnabled && s.mutexTask = some t
  | _, _ => false

/-- The call is an `nvmem_write` or an `nvmem_move`. -/
def Call.writes : Call n → Bool
  | .write _ _ _ _ => true
  | .move _ _ _ _ => true
  | _ => false

def track (t : TaskId) (c : Call n) (s : State n) (pending : TaskId → Bool) : TaskId → Bool :=
  if c.writes then Function.update pending t true
  else if c.entersCommit t s then Function.update pending t false
  else pending

/-- One call of a tracked run. -/
def Tracked.issue (t : TaskId) (c : Call n) (x : Tracked n) : Option (Tracked n) :=
  match Nvmem.issue cfg P t c x.state with
  | none => none
  | some r => some { state := r.2.2, pending := track t c x.state x.pending }

/-- **The lock discipline**: with commits enabled, a task owns the lock only while it
has a write pending. -/
def Disciplined (x : Tracked n) : Prop :=
  x.state.commitsEnabled = true →
    ∀ t, x.state.mutexTask = some t → x.pending t = true

/-- The two returns that keep the lock for nothing: `nvmem_is_different` with a bad
range while the lock is free, and `nvmem_commit`, called by the owner or through
`nvmem_enable_commits`, after a failed write. -/
def Leaks (t : TaskId) (c : Call n) (s : State n) : Prop :=
  match c with
  | .isDifferent offset size _ user =>
      s.mutexTask = none ∧ ∃ code, getPartitionOff cfg user offset size = .error code
  | .commit _ => s.mutexTask = some t ∧ s.writeError = true
  | .enableCommits _ => s.commitsEnabled = false ∧ s.mutexTask = some t ∧ s.writeError = true
  | _ => False

/-- Every state of the run is disciplined.  The run ends at a call that blocks. -/
def RunDisciplined : List (TaskId × Call n) → Tracked n → Prop
  | [], x => Disciplined x
  | (t, c) :: calls, x =>
      Disciplined x ∧ ∀ x', x.issue cfg P t c = some x' → RunDisciplined calls x'

/-- No call of the run that takes place is one of the two leaks. -/
def RunLeakFree : List (TaskId × Call n) → Tracked n → Prop
  | [], _ => True
  | (t, c) :: calls, x =>
      ∀ x', x.issue cfg P t c = some x' → ¬ Leaks cfg t c x.state ∧ RunLeakFree calls x'

end Calls

/-! ## The fields the lock looks at -/

section Fields

variable {n : Nat} {cfg : Config} {P : Platform n}

theorem releaseCache_mutexTask (s : State n) :
    (releaseCache s).mutexTask =
      if s.writeInProgress || !s.commitsEnabled then s.mutexTask else none := by
  unfold releaseCache
  split <;> rfl

/-- Whatever its flash operations return, `nvmem_save` ends in the same cleanup. -/
theorem save_lock (o : SaveOutcome n) (s : State n) :
    (save P o s).2.mutexTask = (if s.commitsEnabled then none else s.mutexTask) ∧
      (save P o s).2.writeInProgress = false ∧ (save P o s).2.writeError = s.writeError := by
  unfold save
  repeat' split
  all_goals simp_all [releaseAfterSave, releaseCache_mutexTask]

end Fields

/-! ## The invariant -/

section Discipline

variable {n : Nat} {cfg : Config} {P : Platform n}

/-- What holds between the calls of a run without leaks.  A pending write is in
progress and its task owns the lock; a free lock means that commits are enabled; a
failed write is in progress. -/
structure Guarded (s : State n) (pending : TaskId → Bool) : Prop where
  owned : s.commitsEnabled = true →
    ∀ t, s.mutexTask = some t → s.writeInProgress = true ∧ pending t = true
  held : ∀ t, pending t = true → s.mutexTask = some t ∧ s.writeInProgress = true
  free : s.mutexTask = none → s.writeInProgress = false ∧ s.commitsEnabled = true
  failed : s.writeError = true → s.writeInProgress = true

theorem Guarded.disciplined {x : Tracked n} (h : Guarded x.state x.pending) : Disciplined x :=
  fun hon t howner => (h.owned hon t howner).2

theorem mayLock_iff {t : TaskId} {s : State n} :
    mayLock t s = true ↔ s.mutexTask = none ∨ s.mutexTask = some t := by
  simp [mayLock]

/-- Taking the lock and releasing it again, as a read does, keeps the invariant. -/
theorem Guarded.release {s : State n} {pending : TaskId → Bool} (h : Guarded s pending)
    {t : TaskId} (hlock : mayLock t s = true) :
    Guarded (releaseCache (lockCache t s)) pending := by
  rcases mayLock_iff.mp hlock with hfree | howner
  · obtain ⟨hidle, hon⟩ := h.free hfree
    have hnone : (releaseCache (lockCache t s)).mutexTask = none := by
      simp [releaseCache_mutexTask, hidle, hon]
    constructor
    · intro _ u hu
      rw [hnone] at hu
      cases hu
    · intro u hu
      have howner := (h.held u hu).1
      rw [hfree] at howner
      cases howner
    · intro _
      simp [hidle, hon]
    · simpa using h.failed
  · -- The owner comes back: with a write in progress or commits disabled it stays owner.
    have hkeep : (s.writeInProgress || !s.commitsEnabled) = true := by
      cases hon : s.commitsEnabled with
      | false => simp
      | true => simp [(h.owned hon t howner).1]
    have htask : (releaseCache (lockCache t s)).mutexTask = some t := by
      simp [releaseCache_mutexTask, hkeep]
    constructor
    · intro hon u hu
      rw [htask, ← howner] at hu
      simpa using h.owned (by simpa using hon) u hu
    · intro u hu
      rw [htask, ← howner]
      simpa using h.held u hu
    · intro hnone
      rw [htask] at hnone
      cases hnone
    · simpa using h.failed

/-- A write or a move, whether its range is good or bad, keeps the invariant. -/
theorem Guarded.write {s s' : State n} {pending : TaskId → Bool} (h : Guarded s pending)
    {t : TaskId} (hlock : mayLock t s = true) (htask : s'.mutexTask = some t)
    (hbusy : s'.writeInProgress = true) :
    Guarded s' (Function.update pending t true) := by
  constructor
  · intro _ u hu
    rw [htask] at hu
    cases hu
    exact ⟨hbusy, by simp⟩
  · intro u hu
    have hut : u = t := by
      by_contra hne
      rw [Function.update_of_ne hne] at hu
      have howner := (h.held u hu).1
      rcases mayLock_iff.mp hlock with hfree | hself
      · rw [howner] at hfree
        cases hfree
      · rw [howner] at hself
        cases hself
        exact hne rfl
    rw [hut]
    exact ⟨htask, hbusy⟩
  · intro hnone
    rw [htask] at hnone
    cases hnone
  · intro _
    exact hbusy

/-- Nobody owns the lock and nothing is in progress. -/
structure Idle (s : State n) : Prop where
  free : s.mutexTask = none
  idle : s.writeInProgress = false
  enabled : s.commitsEnabled = true
  clean : s.writeError = false

theorem Idle.guarded {s : State n} {pending : TaskId → Bool} (h : Idle s)
    (hnone : ∀ t, pending t = false) : Guarded s pending := by
  constructor
  · intro _ t ht
    rw [h.free] at ht
    cases ht
  · intro t ht
    rw [hnone t] at ht
    cases ht
  · intro _
    exact ⟨h.idle, h.enabled⟩
  · intro herror
    rw [h.clean] at herror
    cases herror

/-- `nvmem_save` with commits enabled and no failed write frees the lock. -/
theorem save_idle (o : SaveOutcome n) {s : State n} (hon : s.commitsEnabled = true)
    (hok : s.writeError = false) : Idle (save P o s).2 := by
  obtain ⟨htask, hidle, herror⟩ := save_lock (P := P) o s
  constructor
  · rw [htask, if_pos hon]
  · exact hidle
  · rw [save_commitsEnabled, hon]
  · rw [herror, hok]

/-- Once the owner has entered `nvmem_commit`, no task has a write pending. -/
theorem Guarded.update_owner {s : State n} {pending : TaskId → Bool} (h : Guarded s pending)
    {t : TaskId} (howner : s.mutexTask = some t) (u : TaskId) :
    Function.update pending t false u = false := by
  by_cases hut : u = t
  · rw [hut, Function.update_self]
  · rw [Function.update_of_ne hut]
    by_contra hu
    have hother := (h.held u (by simpa using hu)).1
    rw [howner] at hother
    cases hother
    exact hut rfl

/-- A task that does not own the lock has nothing pending to lose. -/
theorem Guarded.update_of_not_owner {s : State n} {pending : TaskId → Bool}
    (h : Guarded s pending) {t : TaskId} (hnot : s.mutexTask ≠ some t) :
    Function.update pending t false = pending := by
  apply Function.update_eq_self_iff.mpr
  by_contra hne
  exact hnot (h.held t (by simpa using Ne.symm hne)).1

/-- `nvmem_commit` keeps the invariant unless the owner calls it after a failed write. -/
theorem Guarded.commit {s : State n} {pending : TaskId → Bool} (h : Guarded s pending)
    {t : TaskId} (o : SaveOutcome n)
    (hleak : ¬ (s.mutexTask = some t ∧ s.writeError = true)) :
    Guarded (Nvmem.commit P t o s).2 (Function.update pending t false) := by
  unfold Nvmem.commit
  split
  · rename_i hfree
    rw [h.update_of_not_owner (by rw [hfree]; simp)]
    exact h
  · split
    · rename_i hnot
      rw [h.update_of_not_owner hnot]
      exact h
    · rename_i howner
      have hnone := h.update_owner (not_not.mp howner)
      have hok : s.writeError = false := by
        simpa [not_not.mp howner] using hleak
      rw [if_neg (by simp [hok])]
      split
      · -- The skipped commit clears `pending`, but commits are disabled.
        rename_i hoff
        constructor
        · intro hon
          rw [hoff] at hon
          cases hon
        · intro u hu
          rw [hnone u] at hu
          cases hu
        · exact h.free
        · exact h.failed
      · rename_i hon
        exact (save_idle o (by simpa using hon) hok).guarded hnone

/-- `nvmem_enable_commits` does nothing, or turns commits on and commits. -/
theorem enableCommits_cases (t : TaskId) (o : SaveOutcome n) (s : State n) :
    (((Call.enableCommits o).entersCommit t s = false ∧ (enableCommits P t o s).2 = s)) ∨
      (s.commitsEnabled = false ∧ s.mutexTask = some t ∧
        enableCommits P t o s = Nvmem.commit P t o { s with commitsEnabled := true }) := by
  unfold enableCommits
  split
  · rename_i hon
    exact Or.inl ⟨by simp [Call.entersCommit, hon], rfl⟩
  · split
    · rename_i hnot
      exact Or.inl ⟨by simp [Call.entersCommit, hnot], rfl⟩
    · rename_i hoff howner
      exact Or.inr ⟨by simpa using hoff, not_not.mp howner, rfl⟩

theorem write_lock (cfg : Config) (t : TaskId) (offset size : UInt32) (data : Bytes)
    (user : Nat) (s : State n) :
    (write cfg t offset size data user s).2.mutexTask = some t ∧
      (write cfg t offset size data user s).2.writeInProgress = true := by
  unfold write
  split <;> simp

theorem move_lock (cfg : Config) (t : TaskId) (src dest size : UInt32) (user : Nat)
    (s : State n) :
    (move cfg t src dest size user s).2.mutexTask = some t ∧
      (move cfg t src dest size user s).2.writeInProgress = true := by
  unfold move
  split
  · simp
  · split <;> simp

/-- **Step lemma.**  A call that takes place and is not a leak keeps the invariant. -/
theorem runCall_guarded {t : TaskId} {c : Call n} {s : State n} {pending : TaskId → Bool}
    (h : Guarded s pending) (hlock : c.locks = true → mayLock t s = true)
    (hleak : ¬ Leaks cfg t c s) :
    Guarded (runCall cfg P t c s).2.2 (track t c s pending) := by
  cases c with
  | read offset size user =>
      have hrelease := h.release (hlock rfl)
      show Guarded (read cfg t offset size user s).2.2 pending
      unfold read
      split <;> exact hrelease
  | isDifferent offset size data user =>
      have hrelease := h.release (hlock rfl)
      show Guarded (isDifferent cfg t offset size data user s).2 pending
      unfold isDifferent
      split
      · -- The early return is harmless only to a task that owns the lock already.
        rename_i code hoff
        rcases mayLock_iff.mp (hlock rfl) with hfree | howner
        · exact absurd ⟨hfree, code, hoff⟩ hleak
        · simpa [lockCache, howner] using h
      · exact hrelease
  | write offset size data user =>
      obtain ⟨htask, hbusy⟩ := write_lock cfg t offset size data user s
      exact h.write (hlock rfl) htask hbusy
  | move src dest size user =>
      obtain ⟨htask, hbusy⟩ := move_lock cfg t src dest size user s
      exact h.write (hlock rfl) htask hbusy
  | commit o => exact h.commit o hleak
  | disableCommits =>
      show Guarded (disableCommits t s) pending
      constructor
      · intro hon
        cases hon
      · intro u hu
        obtain ⟨howner, hbusy⟩ := h.held u hu
        -- A pending write is the caller's own: otherwise it would still wait.
        have hut : u = t := by
          rcases mayLock_iff.mp (hlock rfl) with hfree | hself
          · rw [hfree] at howner
            cases howner
          · rw [hself] at howner
            cases howner
            rfl
        simp [disableCommits, hut, hbusy]
      · intro hfree
        simp [disableCommits] at hfree
      · simpa [disableCommits] using h.failed
  | enableCommits o =>
      rcases enableCommits_cases (P := P) t o s with ⟨hno, hsame⟩ | ⟨hoff, howner, hcommit⟩
      · have htrack : track t (.enableCommits o) s pending = pending := by
          simp [track, Call.writes, hno]
        show Guarded (enableCommits P t o s).2 (track t (.enableCommits o) s pending)
        rw [hsame, htrack]
        exact h
      · have htrack : track t (.enableCommits o) s pending = Function.update pending t false := by
          simp [track, Call.writes, Call.entersCommit, hoff, howner]
        have hok : s.writeError = false := by
          simpa [Leaks, hoff, howner] using hleak
        show Guarded (enableCommits P t o s).2 (track t (.enableCommits o) s pending)
        rw [hcommit, htrack]
        have hsave : Nvmem.commit P t o { s with commitsEnabled := true } =
            save P o { s with commitsEnabled := true } := by
          simp [Nvmem.commit, howner, hok]
        have hidle : Idle (save P o { s with commitsEnabled := true }).2 := save_idle o rfl hok
        rw [hsave]
        exact hidle.guarded (h.update_owner howner)

/-- The owner's commit after a failed write: commits are enabled, the owner stays. -/
theorem commit_failed {t : TaskId} (o : SaveOutcome n) {s : State n}
    (howner : s.mutexTask = some t) (herror : s.writeError = true)
    (hbusy : s.writeInProgress = true) :
    (Nvmem.commit P t o s).2.commitsEnabled = true ∧
      (Nvmem.commit P t o s).2.mutexTask = some t := by
  simp [Nvmem.commit, howner, herror, releaseCache_mutexTask, hbusy]

/-- Each of the two leaks breaks the discipline at once. -/
theorem runCall_leak {t : TaskId} {c : Call n} {s : State n} {pending : TaskId → Bool}
    (h : Guarded s pending) (hleak : Leaks cfg t c s) :
    ¬ Disciplined ⟨(runCall cfg P t c s).2.2, track t c s pending⟩ := by
  intro hdisc
  cases c with
  | isDifferent offset size data user =>
      obtain ⟨hfree, code, hoff⟩ := hleak
      have hstate : (isDifferent cfg t offset size data user s).2 = lockCache t s := by
        simp [isDifferent, hoff]
      have hpending : pending t = true := by
        refine hdisc ?_ t ?_
        · show (isDifferent cfg t offset size data user s).2.commitsEnabled = true
          rw [hstate, lockCache_commitsEnabled, (h.free hfree).2]
        · show (isDifferent cfg t offset size data user s).2.mutexTask = some t
          rw [hstate, lockCache_mutexTask]
      have howner := (h.held t hpending).1
      rw [hfree] at howner
      cases howner
  | commit o =>
      obtain ⟨howner, herror⟩ := hleak
      obtain ⟨hon, htask⟩ := commit_failed (P := P) o howner herror (h.failed herror)
      have hpending : Function.update pending t false t = true := hdisc hon t htask
      simp at hpending
  | enableCommits o =>
      obtain ⟨hoff, howner, herror⟩ := hleak
      have hcommit : enableCommits P t o s =
          Nvmem.commit P t o { s with commitsEnabled := true } := by
        simp [enableCommits, hoff, howner]
      obtain ⟨hon, htask⟩ := commit_failed (P := P) (s := { s with commitsEnabled := true }) o
        howner herror (h.failed herror)
      have hpending : track t (.enableCommits o) s pending t = true := by
        refine hdisc ?_ t ?_
        · show (enableCommits P t o s).2.commitsEnabled = true
          rw [hcommit, hon]
        · show (enableCommits P t o s).2.mutexTask = some t
          rw [hcommit, htask]
      simp [track, Call.writes, Call.entersCommit, hoff, howner] at hpending
  | read offset size user => exact hleak
  | write offset size data user => exact hleak
  | move src dest size user => exact hleak
  | disableCommits => exact hleak

/-- A call that takes place: nobody else owned the lock it needed. -/
theorem issue_eq {t : TaskId} {c : Call n} {s : State n} {r : Code × Bytes × State n}
    (hissue : issue cfg P t c s = some r) :
    (c.locks = true → mayLock t s = true) ∧ r = runCall cfg P t c s := by
  unfold issue at hissue
  by_cases hblock : (c.locks && !mayLock t s) = true
  · simp [hblock] at hissue
  · rw [if_neg hblock] at hissue
    cases hissue
    refine ⟨?_, rfl⟩
    intro hlocks
    simpa [hlocks] using hblock

theorem Tracked.issue_eq {t : TaskId} {c : Call n} {x x' : Tracked n}
    (hissue : x.issue cfg P t c = some x') :
    (c.locks = true → mayLock t x.state = true) ∧
      x' = ⟨(runCall cfg P t c x.state).2.2, track t c x.state x.pending⟩ := by
  unfold Tracked.issue at hissue
  cases hcall : Nvmem.issue cfg P t c x.state with
  | none =>
      rw [hcall] at hissue
      cases hissue
  | some r =>
      rw [hcall] at hissue
      obtain ⟨hlock, rfl⟩ := Nvmem.issue_eq hcall
      cases hissue
      exact ⟨hlock, rfl⟩

theorem Tracked.issue_of_mayLock {t : TaskId} {c : Call n} {x : Tracked n}
    (hlock : mayLock t x.state = true) :
    x.issue cfg P t c =
      some ⟨(runCall cfg P t c x.state).2.2, track t c x.state x.pending⟩ := by
  simp [Tracked.issue, Nvmem.issue, hlock]

/-- **Run lemma.**  From a guarded state, a run is disciplined throughout exactly when
none of its calls is a leak. -/
theorem runDisciplined_iff {calls : List (TaskId × Call n)} {x : Tracked n}
    (h : Guarded x.state x.pending) :
    RunDisciplined cfg P calls x ↔ RunLeakFree cfg P calls x := by
  induction calls generalizing x with
  | nil => exact ⟨fun _ => trivial, fun _ => h.disciplined⟩
  | cons call calls ih =>
      obtain ⟨t, c⟩ := call
      constructor
      · intro hrun x' hissue
        obtain ⟨hlock, rfl⟩ := Tracked.issue_eq hissue
        have hnext := hrun.2 _ hissue
        have hnow : Disciplined (⟨(runCall cfg P t c x.state).2.2,
            track t c x.state x.pending⟩ : Tracked n) := by
          cases calls with
          | nil => exact hnext
          | cons _ _ => exact hnext.1
        have hleak : ¬ Leaks cfg t c x.state := fun hleak => runCall_leak h hleak hnow
        exact ⟨hleak, (ih (runCall_guarded h hlock hleak)).mp hnext⟩
      · intro hrun
        refine ⟨h.disciplined, ?_⟩
        intro x' hissue
        obtain ⟨hleak, hnext⟩ := hrun x' hissue
        obtain ⟨hlock, rfl⟩ := Tracked.issue_eq hissue
        exact (ih (runCall_guarded h hlock hleak)).mpr hnext

/-! ## From the boot on -/

/-- `nvmem_save` inside `nvmem_reinitialize` gives the lock back. -/
theorem findPartition_idle (t : TaskId) (o : InitOutcome n) {s : State n} (h : Idle s) :
    Idle (findPartition P t o s).2 := by
  unfold findPartition
  simp only []
  split
  · exact ⟨h.free, h.idle, h.enabled, h.clean⟩
  · split
    · exact ⟨h.free, h.idle, h.enabled, h.clean⟩
    · have hsave : ∀ s' : State n, s'.commitsEnabled = true → s'.writeError = false →
          Idle ( reinitialize P t o.save s').2 := by
        intro s' hon hok
        exact save_idle _ (by simpa using hon) (by simpa using hok)
      split
      · exact hsave _ h.enabled h.clean
      · exact hsave _ h.enabled h.clean

/-- `nvmem_init` ends with the lock free whatever it found and whatever failed. -/
theorem init_idle (t : TaskId) (o : InitOutcome n) (flash : Fin 2 → Partition n) :
    Idle (init P t o (powerOn flash)).2 := by
  have hfind : Idle (findPartition P t o { powerOn flash with
      errorState := ecSuccess, writeError := false, commitsEnabled := true }).2 :=
    findPartition_idle t o ⟨rfl, rfl, rfl, rfl⟩
  unfold init
  simp only []
  split
  · exact ⟨hfind.free, hfind.idle, hfind.enabled, hfind.clean⟩
  · exact hfind

/-- A boot, before any task has written. -/
def bootTracked (P : Platform n) (t : TaskId) (o : InitOutcome n) (flash : Fin 2 → Partition n) :
    Tracked n where
  state := (init P t o (powerOn flash)).2
  pending := fun _ => false

theorem bootTracked_guarded (t : TaskId) (o : InitOutcome n) (flash : Fin 2 → Partition n) :
    Guarded (bootTracked P t o flash).state (bootTracked P t o flash).pending :=
  (init_idle t o flash).guarded fun _ => rfl

/-- With nothing pending the lock is free: after every return of a disciplined run. -/
theorem Disciplined.lock_free {x : Tracked n} (h : Disciplined x)
    (hon : x.state.commitsEnabled = true) (hnone : ∀ t, x.pending t = false) :
    x.state.mutexTask = none := by
  cases howner : x.state.mutexTask with
  | none => rfl
  | some t =>
      have hpending := h hon t howner
      rw [hnone t] at hpending
      cases hpending

/-- **Lock discipline.**  After any boot, and for every interleaving of calls of any
tasks with any arguments and any results of the flash operations, the lock is owned
only for a pending write (commits enabled) throughout the run if and only if no call
of the run is one of the two returns in `Leaks`. -/
theorem runDisciplined_boot_iff (cfg : Config) (P : Platform n) (t₀ : TaskId)
    (o : InitOutcome n) (flash : Fin 2 → Partition n) (calls : List (TaskId × Call n)) :
    RunDisciplined cfg P calls (bootTracked P t₀ o flash) ↔
      RunLeakFree cfg P calls (bootTracked P t₀ o flash) :=
  runDisciplined_iff (bootTracked_guarded t₀ o flash)

end Discipline

/-! ## The two leaks on the small board -/

/-- Task 1 compares one byte behind the end of user 0's four bytes. -/
def compareOutside : List (TaskId × Call 8) :=
  [(1, .isDifferent 4 1 [0] 0)]

/-- Task 1 writes one byte behind the end of user 0's four bytes and commits. -/
def commitOutside : List (TaskId × Call 8) :=
  [(1, .write 4 1 [0] 0), (1, .commit (SaveOutcome.ok 8))]

/-- Both leave task 1 the owner of the lock, with commits enabled and nothing pending. -/
theorem not_runDisciplined_outside :
    ¬ RunDisciplined testConfig testPlatform compareOutside
        (bootTracked testPlatform 0 (InitOutcome.ok 8) fun _ => Partition.erased 8) ∧
      ¬ RunDisciplined testConfig testPlatform commitOutside
        (bootTracked testPlatform 0 (InitOutcome.ok 8) fun _ => Partition.erased 8) := by
  have hidle := init_idle (P := testPlatform) 0 (InitOutcome.ok 8) fun _ => Partition.erased 8
  have hguard :=
    bootTracked_guarded (P := testPlatform) 0 (InitOutcome.ok 8) fun _ => Partition.erased 8
  have hlock := mayLock_iff (t := 1).mpr (Or.inl hidle.free)
  constructor
  · rw [compareOutside, runDisciplined_iff hguard]
    intro hrun
    exact (hrun _ (Tracked.issue_of_mayLock hlock)).1 ⟨hidle.free, ecErrorOverflow, by decide⟩
  · rw [commitOutside, runDisciplined_iff hguard]
    intro hrun
    have hcommit := (hrun _ (Tracked.issue_of_mayLock hlock)).2
    have hwrite := write_lock testConfig 1 4 1 [0] 0
      (bootTracked testPlatform 0 (InitOutcome.ok 8) fun _ => Partition.erased 8).state
    refine (hcommit _ (Tracked.issue_of_mayLock ?_)).1 ⟨hwrite.1, rfl⟩
    exact mayLock_iff.mpr (Or.inr hwrite.1)

end Nvmem
end CrosEc
