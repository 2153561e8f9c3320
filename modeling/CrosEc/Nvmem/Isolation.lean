import CrosEc.Nvmem.Lock

/-!
# What a task reads

All tasks share one cache, so a write is in it long before the commit.  The abstract
store below has no lock and no cache: it has the committed contents, and for every
task the updates that task has not committed yet.  A task sees the committed contents
under its own updates.

`Sim` ties the two together, and the main result is that every `nvmem_read` of every
interleaving returns what the abstract store shows to the reading task.
-/

namespace CrosEc
namespace Nvmem

open Lib

/-! ## The abstract store -/

/-- A change to the contents. -/
inductive Update where
  | write (pos : Nat) (data : Bytes)
  | move (src dest len : Nat)

def Update.apply (contents : Bytes) : Update → Bytes
  | .write pos data => writeAt contents pos data
  | .move src dest len => moveWithin contents dest src len

/-- Committed contents, the uncommitted updates of every task, and the task that has
postponed its commits, if there is one. -/
structure TxStore where
  committed : Bytes
  pending : TaskId → List Update
  deferring : Option TaskId

/-- The committed contents overlaid with the pending updates of `t` only. -/
def TxStore.view (a : TxStore) (t : TaskId) : Bytes :=
  (a.pending t).foldl Update.apply a.committed

def TxStore.update (a : TxStore) (t : TaskId) (u : Update) : TxStore :=
  { a with pending := Function.update a.pending t (a.pending t ++ [u]) }

/-- The updates of `t` become visible to everyone. -/
def TxStore.publish (a : TxStore) (t : TaskId) : TxStore :=
  { a with committed := a.view t, pending := Function.update a.pending t [] }

section Abstract

variable {n : Nat} (cfg : Config)

/-- What each call means for the abstract store.  A commit while commits are postponed
does nothing yet; `nvmem_enable_commits` makes up for it. -/
def TxStore.step (a : TxStore) (t : TaskId) : Call n → TxStore
  | .read _ _ _ => a
  | .isDifferent _ _ _ _ => a
  | .write offset _ data user =>
      a.update t (.write (regionStart cfg user + offset.toNat) data)
  | .move src dest size user =>
      a.update t (.move (regionStart cfg user + src.toNat) (regionStart cfg user + dest.toNat)
        size.toNat)
  | .commit _ =>
      match a.deferring with
      | none => a.publish t
      | some _ => a
  | .disableCommits => { a with deferring := some t }
  | .enableCommits _ =>
      if a.deferring = some t then { a.publish t with deferring := none } else a

/-- The request lies in the region of its user. -/
def InBounds (user : Nat) (offset size : UInt32) : Prop :=
  ∃ len, cfg.userSizes[user]? = some len ∧ offset.toNat + size.toNat ≤ len

/-- Arguments in range, and flash operations that succeed. -/
def Call.Regular : Call n → Prop
  | .read offset size user => InBounds cfg user offset size
  | .isDifferent offset size _ user => InBounds cfg user offset size
  | .write offset size data user => InBounds cfg user offset size ∧ data.length = size.toNat
  | .move src dest size user => InBounds cfg user src size ∧ InBounds cfg user dest size
  | .commit o => o.Succeeds
  | .disableCommits => True
  | .enableCommits o => o.Succeeds

/-- The bytes a read by `t` has to return. -/
def TxStore.slice (a : TxStore) (t : TaskId) (user : Nat) (offset size : UInt32) : Bytes :=
  ((a.view t).drop (regionStart cfg user + offset.toNat)).take size.toNat

variable (P : Platform n)

/-- Along the run, `nvmem_read` succeeds and returns the reader's view.  The run ends
at a call that blocks. -/
def ReadsIsolated : List (TaskId × Call n) → State n → TxStore → Prop
  | [], _, _ => True
  | (t, c) :: calls, s, a =>
      ∀ r, issue cfg P t c s = some r →
        (∀ offset size user, c = .read offset size user →
          r.1 = ecSuccess ∧ r.2.1 = a.slice cfg t user offset size) ∧
        ReadsIsolated calls r.2.2 (a.step cfg t c)

end Abstract

/-! ## Memory in range -/

section Memory

variable {cfg : Config}

/-- A request in bounds passes the check, and its address is that of its position in
the buffer. -/
theorem InBounds.addr {user : Nat} {offset size : UInt32} (h : InBounds cfg user offset size) :
    ∃ addr, getPartitionOff cfg user offset size = .ok addr ∧
      addr.toNat = tagSize + (regionStart cfg user + offset.toNat) ∧
      regionStart cfg user + offset.toNat + size.toNat ≤ cfg.bufferSize := by
  obtain ⟨len, hlen, hle⟩ := h
  have hfits := regionStart_add_le hlen
  have hpart := cfg.partition_lt
  have hsum : ¬ UInt32.ofNat len < offset + size := by
    rw [UInt32.lt_iff_toNat_lt, UInt32.toNat_ofNat', UInt32.toNat_add,
      Nat.mod_eq_of_lt (show len < 2 ^ 32 by lia), Nat.mod_eq_of_lt (by lia)]
    lia
  have hok : getPartitionOff cfg user offset size = .ok (userStartOffset cfg user + offset) := by
    simp [getPartitionOff, hlen, hsum]
  obtain ⟨_, -, haddr, -, -⟩ := addr_bounds hok (by lia)
  exact ⟨_, hok, by lia, by lia⟩

end Memory

/-! ## The simulation -/

section Simulation

variable {cfg : Config} {P : Platform cfg.bufferSize}

/-- The cache shows the view of whoever may use it; a task with pending updates owns
the lock and keeps it; commits are disabled exactly while a task has postponed them. -/
structure Sim (s : State cfg.bufferSize) (a : TxStore) : Prop where
  shows : ∀ t, mayLock t s = true → s.cache.buffer.val = a.view t
  held : ∀ t, a.pending t ≠ [] → s.mutexTask = some t ∧ s.writeInProgress = true
  deferred : ∀ t, a.deferring = some t → s.mutexTask = some t ∧ s.commitsEnabled = false
  direct : a.deferring = none → s.commitsEnabled = true
  clean : s.writeError = false

/-- Without pending updates a task sees the committed contents. -/
theorem TxStore.view_of_nil {a : TxStore} {t : TaskId} (h : a.pending t = []) :
    a.view t = a.committed := by
  rw [TxStore.view, h, List.foldl_nil]

theorem TxStore.view_update (a : TxStore) (t : TaskId) (u : Update) :
    (a.update t u).view t = u.apply (a.view t) := by
  simp [TxStore.view, TxStore.update, List.foldl_append]

/-- A task that does not own the lock has nothing pending. -/
theorem Sim.pending_nil {s : State cfg.bufferSize} {a : TxStore} (h : Sim s a) {t : TaskId}
    (hnot : s.mutexTask ≠ some t) : a.pending t = [] := by
  by_contra hne
  exact hnot (h.held t hne).1

/-- Nothing pending: publishing changes nothing. -/
theorem TxStore.publish_of_nil {a : TxStore} {t : TaskId} (h : a.pending t = []) :
    a.publish t = a := by
  have hsame : Function.update a.pending t [] = a.pending := by
    rw [← h, Function.update_eq_self]
  rw [TxStore.publish, view_of_nil h, hsame]

theorem eq_of_mayLock {n : Nat} {s : State n} {t u : TaskId} (hlock : mayLock t s = true)
    (howner : s.mutexTask = some u) : u = t := by
  rcases mayLock_iff.mp hlock with hfree | hself
  · rw [hfree] at howner
    cases howner
  · rw [hself] at howner
    exact (Option.some.inj howner).symm

/-- What there is to check of a state that `t` owns. -/
theorem sim_of_owner {s : State cfg.bufferSize} {a : TxStore} {t : TaskId}
    (howner : s.mutexTask = some t) (hshows : s.cache.buffer.val = a.view t)
    (hothers : ∀ u, u ≠ t → a.pending u = []) (hbusy : a.pending t ≠ [] → s.writeInProgress = true)
    (hdefer : a.deferring = if s.commitsEnabled then none else some t)
    (hclean : s.writeError = false) : Sim s a := by
  constructor
  · intro u hu
    rw [← eq_of_mayLock hu howner]
    exact hshows
  · intro u hu
    have hut : u = t := by
      by_contra hne
      exact hu (hothers u hne)
    rw [hut] at hu ⊢
    exact ⟨howner, hbusy hu⟩
  · intro u hu
    cases hon : s.commitsEnabled with
    | true =>
        rw [hdefer, hon] at hu
        cases hu
    | false =>
        rw [hdefer, hon] at hu
        cases hu
        exact ⟨howner, rfl⟩
  · intro hnone
    cases hon : s.commitsEnabled with
    | true => rfl
    | false =>
        rw [hdefer, hon] at hnone
        cases hnone
  · exact hclean

/-- What there is to check of a state that nobody owns. -/
theorem sim_of_free {s : State cfg.bufferSize} {a : TxStore} (hidle : Idle s)
    (hnil : ∀ u, a.pending u = []) (hshows : s.cache.buffer.val = a.committed)
    (hdefer : a.deferring = none) : Sim s a := by
  constructor
  · intro u _
    rw [TxStore.view_of_nil (hnil u)]
    exact hshows
  · intro u hu
    exact absurd (hnil u) hu
  · intro u hu
    rw [hdefer] at hu
    cases hu
  · intro _
    exact hidle.enabled
  · exact hidle.clean

/-- The tasks that wait, or could wait, have nothing pending. -/
theorem Sim.others_nil {s : State cfg.bufferSize} {a : TxStore} (h : Sim s a) {t : TaskId}
    (hlock : mayLock t s = true) : ∀ u, u ≠ t → a.pending u = [] := by
  intro u hne
  apply h.pending_nil
  intro howner
  exact hne (eq_of_mayLock hlock howner)

/-- Whoever may use the cache is the only one who can have postponed commits. -/
theorem Sim.deferring_eq {s : State cfg.bufferSize} {a : TxStore} (h : Sim s a) {t : TaskId}
    (hlock : mayLock t s = true) :
    a.deferring = if s.commitsEnabled then none else some t := by
  cases hdefer : a.deferring with
  | none => rw [if_pos (h.direct hdefer)]
  | some u =>
      obtain ⟨howner, hoff⟩ := h.deferred u hdefer
      simp [hoff, eq_of_mayLock hlock howner]

/-- Taking the lock and releasing it again, as a read does. -/
theorem Sim.release {s : State cfg.bufferSize} {a : TxStore} (h : Sim s a) {t : TaskId}
    (hlock : mayLock t s = true) : Sim (releaseCache (lockCache t s)) a := by
  by_cases hkeep : (s.writeInProgress || !s.commitsEnabled) = true
  · apply sim_of_owner (t := t)
    · simp [releaseCache_mutexTask, hkeep]
    · simpa using h.shows t hlock
    · exact h.others_nil hlock
    · intro hne
      simpa using (h.held t hne).2
    · simpa using h.deferring_eq hlock
    · simpa using h.clean
  · -- The lock becomes free: nothing was in progress, so nobody has updates.
    have hidle : s.writeInProgress = false ∧ s.commitsEnabled = true := by
      simpa using hkeep
    have hnil : ∀ u, a.pending u = [] := by
      intro u
      by_contra hne
      have hbusy := (h.held u hne).2
      rw [hidle.1] at hbusy
      cases hbusy
    apply sim_of_free
    · constructor
      · simp [releaseCache_mutexTask, hidle]
      · simpa using hidle.1
      · simpa using hidle.2
      · simpa using h.clean
    · exact hnil
    · rw [releaseCache_cache, lockCache_cache, h.shows t hlock, TxStore.view_of_nil (hnil t)]
    · rw [h.deferring_eq hlock, hidle.2, if_pos rfl]

/-- A write or a move in range: the cache and the view change alike. -/
theorem Sim.update {s s' : State cfg.bufferSize} {a : TxStore} (h : Sim s a) {t : TaskId}
    (hlock : mayLock t s = true) {u : Update}
    (hs' : s' = { lockCache t s with writeInProgress := true, cache := s'.cache })
    (happly : s'.cache.buffer.val = u.apply s.cache.buffer.val) : Sim s' (a.update t u) := by
  apply sim_of_owner (t := t)
  · rw [hs']
    simp
  · rw [TxStore.view_update, ← h.shows t hlock, happly]
  · intro v hne
    simpa [TxStore.update, Function.update_of_ne hne] using h.others_nil hlock v hne
  · intro _
    rw [hs']
  · rw [hs']
    simpa [TxStore.update] using h.deferring_eq hlock
  · rw [hs']
    simpa using h.clean

/-- The owner's commit, once it reaches `nvmem_save`, publishes its updates. -/
theorem Sim.save (hP : P.Involutive) {o : SaveOutcome cfg.bufferSize} (ho : o.Succeeds)
    {s s₀ : State cfg.bufferSize} {a a' : TxStore} (h : Sim s₀ a) {t : TaskId}
    (howner : s₀.mutexTask = some t) (hcache : s.cache = s₀.cache) (hon : s.commitsEnabled = true)
    (hclean : s.writeError = false) (ha' : a' = { a.publish t with deferring := none }) :
    Sim (Nvmem.save P o s).2 a' := by
  subst ha'
  have hself : mayLock t s₀ = true := mayLock_iff.mpr (Or.inr howner)
  apply sim_of_free (save_idle o hon hclean)
  · intro u
    by_cases hut : u = t
    · simp [TxStore.publish, hut]
    · simpa [TxStore.publish, Function.update_of_ne hut] using h.others_nil hself u hut
  · rw [save_success_buffer hP (save_succeeds ho s), hcache, h.shows t hself]
    rfl
  · rfl

/-- `nvmem_commit` by any task. -/
theorem Sim.commit (hP : P.Involutive) {o : SaveOutcome cfg.bufferSize} (ho : o.Succeeds)
    {s : State cfg.bufferSize} {a : TxStore} (h : Sim s a) (t : TaskId) :
    Sim (Nvmem.commit P t o s).2 (a.step cfg t (.commit o)) := by
  by_cases howner : s.mutexTask = some t
  · have hself : mayLock t s = true := mayLock_iff.mpr (Or.inr howner)
    have hdefer := h.deferring_eq hself
    cases hon : s.commitsEnabled with
    | false =>
        have hskip : Nvmem.commit P t o s = (ecSuccess, s) := by
          simp [Nvmem.commit, howner, h.clean, hon]
        rw [hon] at hdefer
        simp only [TxStore.step, hdefer, hskip]
        exact h
    | true =>
        have hsave : Nvmem.commit P t o s = Nvmem.save P o s := by
          simp [Nvmem.commit, howner, h.clean, hon]
        rw [hon] at hdefer
        rw [hsave]
        apply h.save hP ho howner rfl hon h.clean
        simp [TxStore.step, TxStore.publish, hdefer]
  · -- The commit is refused, and its task had nothing to publish.
    have hrefused : (Nvmem.commit P t o s).2 = s := by
      unfold Nvmem.commit
      split
      · rfl
      · rfl
    have hsame : a.step cfg t (.commit o) = a := by
      cases hdefer : a.deferring with
      | none => simp [TxStore.step, hdefer, TxStore.publish_of_nil (h.pending_nil howner)]
      | some u => simp [TxStore.step, hdefer]
    rw [hrefused, hsame]
    exact h

/-- `nvmem_enable_commits` by any task. -/
theorem Sim.enableCommits (hP : P.Involutive) {o : SaveOutcome cfg.bufferSize} (ho : o.Succeeds)
    {s : State cfg.bufferSize} {a : TxStore} (h : Sim s a) (t : TaskId) :
    Sim (Nvmem.enableCommits P t o s).2 (a.step cfg t (.enableCommits o)) := by
  rcases enableCommits_cases (P := P) t o s with ⟨hno, hsame⟩ | ⟨hoff, howner, hcommit⟩
  · have hnot : a.deferring ≠ some t := by
      intro hdefer
      obtain ⟨howner, hoff⟩ := h.deferred t hdefer
      simp [Call.entersCommit, howner, hoff] at hno
    rw [hsame]
    simpa [TxStore.step, hnot] using h
  · have hdefer : a.deferring = some t := by
      rw [h.deferring_eq (mayLock_iff.mpr (Or.inr howner)), hoff]
      rfl
    have hsave : Nvmem.commit P t o { s with commitsEnabled := true } =
        Nvmem.save P o { s with commitsEnabled := true } := by
      simp [Nvmem.commit, howner, h.clean]
    rw [hcommit, hsave]
    refine h.save (s := { s with commitsEnabled := true }) hP ho howner rfl rfl h.clean ?_
    simp [TxStore.step, hdefer]

/-- **Step lemma.**  A regular call that takes place keeps the simulation. -/
theorem runCall_sim (hP : P.Involutive) {t : TaskId} {c : Call cfg.bufferSize}
    (hc : c.Regular cfg) {s : State cfg.bufferSize} {a : TxStore} (h : Sim s a)
    (hlock : c.locks = true → mayLock t s = true) :
    Sim (runCall cfg P t c s).2.2 (a.step cfg t c) := by
  cases c with
  | read offset size user =>
      obtain ⟨addr, hok, -, -⟩ := InBounds.addr hc
      show Sim (read cfg t offset size user s).2.2 a
      simp only [Nvmem.read, hok]
      exact h.release (hlock rfl)
  | isDifferent offset size data user =>
      obtain ⟨addr, hok, -, -⟩ := InBounds.addr hc
      show Sim (isDifferent cfg t offset size data user s).2 a
      simp only [Nvmem.isDifferent, hok]
      exact h.release (hlock rfl)
  | write offset size data user =>
      obtain ⟨hbounds, hdata⟩ := hc
      obtain ⟨addr, hok, haddr, hfits⟩ := hbounds.addr
      have hpart := cfg.partition_lt
      show Sim (write cfg t offset size data user s).2 _
      simp only [Nvmem.write, hok]
      refine h.update (hlock rfl) rfl ?_
      simpa [Update.apply] using store_buffer s.cache haddr hdata hfits hpart
  | move src dest size user =>
      obtain ⟨hsrc, hdest⟩ := hc
      obtain ⟨srcAddr, hsrcOk, hsrcAddr, hsrcFits⟩ := hsrc.addr
      obtain ⟨destAddr, hdestOk, hdestAddr, hdestFits⟩ := hdest.addr
      have hpart := cfg.partition_lt
      have hbuf := s.cache.buffer.property
      have hload : s.cache.load srcAddr size =
          readBytes size.toNat (s.cache.buffer.val.drop (regionStart cfg user + src.toNat)) := by
        rw [load_eq s.cache hsrcAddr hsrcFits hpart, readBytes_eq_take]
        rw [List.length_drop]
        omega
      show Sim (move cfg t src dest size user s).2 _
      simp only [Nvmem.move, hsrcOk, hdestOk]
      refine h.update (hlock rfl) rfl ?_
      simp only [lockCache_cache, hload]
      exact store_buffer s.cache hdestAddr (length_readBytes _ _) hdestFits hpart
  | commit o => exact h.commit hP hc t
  | disableCommits =>
      have hshows := h.shows t (hlock rfl)
      apply sim_of_owner (t := t)
      · simp [runCall, disableCommits]
      · simpa [runCall, disableCommits, TxStore.step, TxStore.view] using hshows
      · simpa [TxStore.step] using h.others_nil (hlock rfl)
      · intro hne
        simpa [runCall, disableCommits] using (h.held t hne).2
      · simp [runCall, disableCommits, TxStore.step]
      · simpa [runCall, disableCommits] using h.clean
  | enableCommits o => exact h.enableCommits hP hc t

/-- A read in range returns the reader's view. -/
theorem read_view {t : TaskId} {offset size : UInt32} {user : Nat}
    (hbounds : InBounds cfg user offset size) {s : State cfg.bufferSize} {a : TxStore}
    (h : Sim s a) (hlock : mayLock t s = true) :
    (read cfg t offset size user s).1 = ecSuccess ∧
      (read cfg t offset size user s).2.1 = a.slice cfg t user offset size := by
  obtain ⟨addr, hok, haddr, hfits⟩ := hbounds.addr
  have hload := load_eq s.cache haddr hfits cfg.partition_lt
  rw [h.shows t hlock] at hload
  simp only [Nvmem.read, hok, lockCache_cache, hload, true_and]
  rfl

/-- **Run lemma.** -/
theorem readsIsolated_of_sim (hP : P.Involutive) {calls : List (TaskId × Call cfg.bufferSize)}
    (hcalls : ∀ call ∈ calls, call.2.Regular cfg) {s : State cfg.bufferSize} {a : TxStore}
    (h : Sim s a) : ReadsIsolated cfg P calls s a := by
  induction calls generalizing s a with
  | nil => trivial
  | cons call calls ih =>
      obtain ⟨t, c⟩ := call
      have hc : c.Regular cfg := hcalls (t, c) (by simp)
      intro r hissue
      obtain ⟨hlock, rfl⟩ := issue_eq hissue
      constructor
      · rintro offset size user rfl
        exact read_view hc h (hlock rfl)
      · exact ih (fun call hcall => hcalls call (by simp [hcall])) (runCall_sim hP hc h hlock)

/-- The abstract store of a device that has just booted. -/
def bootStore {n : Nat} (s : State n) : TxStore where
  committed := s.cache.buffer.val
  pending := fun _ => []
  deferring := none

/-- **Isolation.**  After any boot, in every interleaving of calls with arguments in
range and flash operations that succeed, every `nvmem_read` returns the committed
contents overlaid with the pending writes of the reading task only. -/
theorem readsIsolated_boot (cfg : Config) (P : Platform cfg.bufferSize) (hP : P.Involutive)
    (t₀ : TaskId) (o : InitOutcome cfg.bufferSize) (flash : Fin 2 → Partition cfg.bufferSize)
    (calls : List (TaskId × Call cfg.bufferSize)) (hcalls : ∀ call ∈ calls, call.2.Regular cfg) :
    ReadsIsolated cfg P calls (init P t₀ o (powerOn flash)).2
      (bootStore (init P t₀ o (powerOn flash)).2) :=
  readsIsolated_of_sim hP hcalls (sim_of_free (init_idle t₀ o flash) (fun _ => rfl) rfl rfl)

end Simulation

/-! ## Two tasks on the small board -/

/-- Task 1 writes, task 2 writes after task 1's commit, and both read. -/
def twoWriters : List (TaskId × Call 8) :=
  [(1, .write 0 2 [7, 8] 0), (1, .read 0 4 0), (1, .commit (SaveOutcome.ok 8)),
    (2, .disableCommits), (2, .write 1 1 [9] 0), (2, .read 0 4 0),
    (2, .enableCommits (SaveOutcome.ok 8)), (1, .move 0 2 2 0), (1, .read 0 4 0)]

/-- The calls are regular, so their reads are isolated. -/
theorem readsIsolated_twoWriters :
    (∀ call ∈ twoWriters, call.2.Regular testConfig) ∧
      ReadsIsolated testConfig testPlatform twoWriters
        (init testPlatform 0 (InitOutcome.ok 8) (powerOn fun _ => Partition.erased 8)).2
        (bootStore
          (init testPlatform 0 (InitOutcome.ok 8) (powerOn fun _ => Partition.erased 8)).2) := by
  have hcalls : ∀ call ∈ twoWriters, call.2.Regular testConfig := by
    intro call hcall
    simp only [twoWriters, List.mem_cons, List.not_mem_nil, or_false] at hcall
    rcases hcall with rfl | rfl | rfl | rfl | rfl | rfl | rfl | rfl | rfl
    · exact ⟨⟨4, rfl, by decide⟩, by decide⟩
    · exact ⟨4, rfl, by decide⟩
    · exact ⟨rfl, rfl, rfl, rfl⟩
    · trivial
    · exact ⟨⟨4, rfl, by decide⟩, by decide⟩
    · exact ⟨4, rfl, by decide⟩
    · exact ⟨rfl, rfl, rfl, rfl⟩
    · exact ⟨⟨4, rfl, by decide⟩, ⟨4, rfl, by decide⟩⟩
    · exact ⟨4, rfl, by decide⟩
  exact ⟨hcalls, readsIsolated_boot testConfig testPlatform testPlatform_involutive 0
    (InitOutcome.ok 8) (fun _ => Partition.erased 8) twoWriters hcalls⟩

end Nvmem
end CrosEc
