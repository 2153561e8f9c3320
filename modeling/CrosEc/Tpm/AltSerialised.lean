import CrosEc.Tpm.AltExtension

/-!
# Alternative commands are executed one after the other

`tpm_alt_extension` clears the whole of `alt_if` when it has locked `alt_if.if_mutex`, and the
mutex with it: from then on the lock is free, and another task that looks at it takes it too
(`alt_extension_overlap`).  While no task looks at a lock that has been cleared so, the mutex
excludes (`Exclusion`).  Then `alt_if` is the caller's own from `mutex_lock` to `mutex_unlock`, and
of its request there is one at most, as a pending event, as one that the TPM task has taken, or as
the command that is executed (`HandOff`); so a call returns when its own command has been executed
(`alt_extension_serialised`).
-/

namespace CrosEc
namespace Tpm
namespace AltExtension

open Lib

variable {n : Nat} {s s' : State n} {t u : Fin (n + 1)} {c : AltCall n}

/-! ## Exclusion -/

/-- The task is in `mutex_lock`. -/
def inLock : Mutex.Thread Unit n → Bool
  | .register _ | .attempt _ | .wait _ _ | .unregister _ => true
  | _ => false

/-- The task is in `mutex_unlock`. -/
def inUnlock : Mutex.Thread Unit n → Bool
  | .release _ | .notify _ _ | .schedule _ _ _ => true
  | _ => false

/-- The task is in the functions of the mutexes where it has called them. -/
def State.Placed (s : State n) (t : Fin (n + 1)) : Prop :=
  match s.pcs t with
  | .locking _ => inLock (s.mutex.threads t) = true
  | .unlocking _ => inUnlock (s.mutex.threads t) = true
  | _ => s.mutex.threads t = .user

/-- One task at most has the mutex, and the lock says so until it has been cleared. -/
structure Exclusion (s : State n) : Prop where
  placed : ∀ t, s.Placed t
  locked : ∀ t, s.Holds t = true → s.Cleared t = false → s.mutex.lock () ≠ 0
  unique : ∀ t u, s.Holds t = true → s.Holds u = true → t = u

theorem holds_of_inside (h : s.Inside t = true) : s.Holds t = true := by
  unfold State.Inside at h
  unfold State.Holds State.Cleared
  cases hpc : s.pcs t with
  | outside | locking c | unlocking c =>
      rw [hpc] at h
      cases h
  | _ => rfl

/-- Where another task is does not depend on this one. -/
theorem frame (hpcs : s'.pcs u = s.pcs u) (hthreads : s'.mutex.threads u = s.mutex.threads u) :
    s'.Holds u = s.Holds u ∧ s'.Cleared u = s.Cleared u ∧ (s.Placed u → s'.Placed u) := by
  have hcleared : s'.Cleared u = s.Cleared u := by
    unfold State.Cleared
    rw [hpcs, hthreads]
  refine ⟨?_, hcleared, ?_⟩
  · unfold State.Holds
    rw [hpcs, hthreads, hcleared]
  · unfold State.Placed
    rw [hpcs, hthreads]
    exact id

/-- A step of a task while no other task has the mutex. -/
theorem Exclusion.solo (h : Exclusion s) (hothers : ∀ u, u ≠ t → s.Holds u = false)
    (hpcs : ∀ u, u ≠ t → s'.pcs u = s.pcs u)
    (hthreads : ∀ u, u ≠ t → s'.mutex.threads u = s.mutex.threads u) (hplaced : s'.Placed t)
    (hlock : s'.Holds t = true → s'.Cleared t = false → s'.mutex.lock () ≠ 0) : Exclusion s' := by
  have honly : ∀ u, s'.Holds u = true → u = t := by
    intro u hu
    by_contra hne
    rw [(frame (hpcs u hne) (hthreads u hne)).1, hothers u hne] at hu
    cases hu
  refine ⟨?_, ?_, ?_⟩
  · intro u
    by_cases heq : u = t
    · exact heq ▸ hplaced
    · exact (frame (hpcs u heq) (hthreads u heq)).2.2 (h.placed u)
  · intro u hu
    obtain rfl := honly u hu
    exact hlock hu
  · intro u v hu hv
    rw [honly u hu, honly v hv]

/-- A step of a task that does not get the mutex by it, and leaves the lock as it is. -/
theorem Exclusion.quiet (h : Exclusion s) (hpcs : ∀ u, u ≠ t → s'.pcs u = s.pcs u)
    (hthreads : ∀ u, u ≠ t → s'.mutex.threads u = s.mutex.threads u) (hplaced : s'.Placed t)
    (hholds : s'.Holds t = false) (hlock : s'.mutex.lock = s.mutex.lock) : Exclusion s' := by
  have hother : ∀ u, s'.Holds u = true → u ≠ t := by
    rintro u hu rfl
    rw [hholds] at hu
    cases hu
  have hold : ∀ u, s'.Holds u = true → s.Holds u = true := by
    intro u hu
    have hne := hother u hu
    rwa [(frame (hpcs u hne) (hthreads u hne)).1] at hu
  refine ⟨?_, ?_, fun u v hu hv => h.unique u v (hold u hu) (hold v hv)⟩
  · intro u
    by_cases heq : u = t
    · exact heq ▸ hplaced
    · exact (frame (hpcs u heq) (hthreads u heq)).2.2 (h.placed u)
  · intro u hu hcleared
    have hne := hother u hu
    rw [(frame (hpcs u hne) (hthreads u hne)).2.1] at hcleared
    rw [hlock]
    exact h.locked u (hold u hu) hcleared

theorem Exclusion.others (h : Exclusion s) (ht : s.Holds t = true) :
    ∀ u, u ≠ t → s.Holds u = false := by
  intro u hne
  by_contra hu
  exact hne (h.unique u t (by simpa using hu) ht)

/-- A step in `mutex_lock` that stays in it and does not take the lock. -/
theorem Exclusion.lockQuiet (h : Exclusion s) (hpc : s.pcs t = .locking c)
    {m : Mutex.State Unit n} {thread : Mutex.Thread Unit n}
    (hthreads : m.threads = Function.update s.mutex.threads t thread)
    (hlock : m.lock = s.mutex.lock) (hin : inLock thread = true) (howns : thread.owns () = false) :
    m.threads t ≠ .user ∧ Exclusion { s with mutex := m } := by
  have hself : m.threads t = thread := by
    rw [hthreads, Function.update_self]
  refine ⟨?_, h.quiet (t := t) (fun _ _ => rfl) ?_ ?_ ?_ hlock⟩
  · rw [hself]
    rintro rfl
    cases hin
  · intro u hne
    show m.threads u = _
    rw [hthreads, Function.update_of_ne hne]
  · simp only [State.Placed, hpc, hself]
    exact hin
  · simp only [State.Holds, hpc, hself]
    exact howns

/-- A step in `mutex_lock`: it goes on, or it returns to a task that has the mutex. -/
theorem Exclusion.lockStep (h : Exclusion s) (hpc : s.pcs t = .locking c)
    (hturn : ∀ mtx, s.mutex.threads t = .attempt mtx → ∀ other, s.Cleared other = false)
    {m : Mutex.State Unit n} (hm : Mutex.Moves s.mutex t m) :
    (m.threads t = .user ∧ s.Holds t = true ∧
        Exclusion (State.goto t (.clear c) { s with mutex := m })) ∨
      (m.threads t ≠ .user ∧ Exclusion { s with mutex := m }) := by
  have hin : inLock (s.mutex.threads t) = true := by
    simpa only [State.Placed, hpc] using h.placed t
  cases hm with
  | register ht => exact Or.inr (h.lockQuiet hpc rfl rfl rfl rfl)
  | retry ht => exact Or.inr (h.lockQuiet hpc rfl rfl rfl rfl)
  | contend now ht howned => exact Or.inr (h.lockQuiet hpc rfl rfl rfl rfl)
  | wait ht hinner hgoesOn => exact Or.inr (h.lockQuiet hpc rfl rfl rfl rfl)
  | wake ht hinner => exact Or.inr (h.lockQuiet hpc rfl rfl rfl rfl)
  | acquire ht hfree =>
      -- Nobody has the mutex: the lock is free, and has not been cleared.
      have hnobody : ∀ u, s.Holds u = false := by
        intro u
        by_contra hu
        exact h.locked u (by simpa using hu) (hturn _ ht u) hfree
      refine Or.inr ⟨?_, h.solo (t := t) (fun u _ => hnobody u) (fun _ _ => rfl) ?_ ?_ ?_⟩
      · simp [Mutex.State.goto]
      · intro u hne
        exact Function.update_of_ne hne _ _
      · simp [State.Placed, hpc, Mutex.State.goto, inLock]
      · intro _ _
        simp [Mutex.State.goto, Mutex.State.setLock]
  | unregister ht =>
      have hholds : s.Holds t = true := by
        simp [State.Holds, hpc, ht, Mutex.Thread.owns]
      have hcleared : s.Cleared t = false := by
        simp [State.Cleared, hpc]
      refine Or.inl ⟨by simp [Mutex.State.goto], hholds, ?_⟩
      refine h.solo (t := t) (h.others hholds) ?_ ?_ ?_ fun _ _ => h.locked t hholds hcleared
      · intro u hne
        exact Function.update_of_ne hne _ _
      · intro u hne
        exact Function.update_of_ne hne _ _
      · simp [State.Placed, State.goto, Mutex.State.goto]
  | release ht | notify ht | finish ht _ | schedule ht =>
      rw [ht] at hin
      cases hin

/-- A step in `mutex_unlock` that stays in it behind the release of the mutex. -/
theorem Exclusion.unlockQuiet (h : Exclusion s) (hpc : s.pcs t = .unlocking c)
    {m : Mutex.State Unit n} {thread : Mutex.Thread Unit n}
    (hthreads : m.threads = Function.update s.mutex.threads t thread)
    (hlock : m.lock = s.mutex.lock) (hin : inUnlock thread = true)
    (howns : thread.owns () = false) :
    m.threads t ≠ .user ∧ Exclusion { s with mutex := m } := by
  have hself : m.threads t = thread := by
    rw [hthreads, Function.update_self]
  refine ⟨?_, h.quiet (t := t) (fun _ _ => rfl) ?_ ?_ ?_ hlock⟩
  · rw [hself]
    rintro rfl
    cases hin
  · intro u hne
    show m.threads u = _
    rw [hthreads, Function.update_of_ne hne]
  · simp only [State.Placed, hpc, hself]
    exact hin
  · simp only [State.Holds, State.Cleared, hpc, hself]
    exact howns

/-- A step in `mutex_unlock`: it goes on, or it returns. -/
theorem Exclusion.unlockStep (h : Exclusion s) (hpc : s.pcs t = .unlocking c)
    {m : Mutex.State Unit n} (hm : Mutex.Moves s.mutex t m) :
    (m.threads t = .user ∧ Exclusion (State.goto t .outside
        { s with mutex := m, returned := c :: s.returned })) ∨
      (m.threads t ≠ .user ∧ Exclusion { s with mutex := m }) := by
  have hin : inUnlock (s.mutex.threads t) = true := by
    simpa only [State.Placed, hpc] using h.placed t
  cases hm with
  | release ht =>
      have hholds : s.Holds t = true := by
        simp [State.Holds, State.Cleared, hpc, ht, Mutex.Thread.owns]
      refine Or.inr ⟨?_, h.solo (t := t) (h.others hholds) (fun _ _ => rfl) ?_ ?_ ?_⟩
      · simp [Mutex.State.release, Mutex.State.goto]
      · intro u hne
        exact Function.update_of_ne hne _ _
      · simp [State.Placed, hpc, Mutex.State.release, Mutex.State.goto, inUnlock]
      · intro hholds'
        simp [State.Holds, State.Cleared, hpc, Mutex.State.release, Mutex.State.goto,
          Mutex.Thread.owns] at hholds'
  | notify ht => exact Or.inr (h.unlockQuiet hpc rfl rfl rfl rfl)
  | schedule ht => exact Or.inr (h.unlockQuiet hpc rfl rfl rfl rfl)
  | finish ht hnone =>
      refine Or.inl ⟨by simp [Mutex.State.goto], h.quiet (t := t) ?_ ?_ ?_ ?_ rfl⟩
      · intro u hne
        exact Function.update_of_ne hne _ _
      · intro u hne
        exact Function.update_of_ne hne _ _
      · simp [State.Placed, State.goto, Mutex.State.goto]
      · simp [State.Holds, State.Cleared, State.goto]
  | register ht | acquire ht _ | retry ht | contend _ ht _
  | wait ht _ _ | wake ht _ | unregister ht =>
      rw [ht] at hin
      cases hin

/-! ## The hand-off -/

/-- The TPM task works on a command of the alternative path. -/
def TpmPc.serves : TpmPc n → Bool
  | .readHdr | .readSize _ | .processing _ _ | .finish => true
  | _ => false

namespace State

/-- A request has not been answered yet. -/
def Outstanding (s : State n) : Prop :=
  s.events.alt = true ∨ s.evt.alt = true ∨ s.tpm.serves = true

/-- The command of the call has been executed, in its own buffer. -/
def Processed (s : State n) (c : AltCall n) : Prop := (c, c.bufferSize) ∈ s.processed

/-- `alt_if` describes the buffer of the call. -/
def Describes (s : State n) (c : AltCall n) : Prop :=
  s.altHdr = some c ∧ s.altBufferSize = c.bufferSize

/-- What holds of `alt_if` at the place where the task is. -/
def Session (s : State n) (t : Fin (n + 1)) : Prop :=
  match s.pcs t with
  | .clear _ | .setHdr _ => ¬ s.Outstanding
  | .setSize c => ¬ s.Outstanding ∧ s.altHdr = some c
  | .setWaiting c => ¬ s.Outstanding ∧ s.Describes c
  | .setEvent c => ¬ s.Outstanding ∧ s.Describes c ∧ s.processResult = .waiting
  | .poll c =>
      s.Describes c ∧ (s.Outstanding → s.processResult = .waiting) ∧
        (s.processResult = .done → s.Processed c)
  | .test c =>
      ¬ s.Outstanding ∧ s.Describes c ∧ (s.processResult = .done → s.Processed c)
  | .unlocking c => s.Processed c
  | .outside | .locking _ => True

/-- What the TPM task has read from `alt_if` is still there. -/
def Serving (s : State n) : Prop :=
  match s.tpm with
  | .readSize tpmh => tpmh = s.altHdr
  | .processing tpmh bufferSize => tpmh = s.altHdr ∧ bufferSize = s.altBufferSize
  | .finish => ∀ c, s.altHdr = some c → (c, s.altBufferSize) ∈ s.processed
  | .interrupt => s.evt.alt = true
  | _ => True

end State

/-- There is one request at most, and the caller that has made it waits for the answer. -/
structure HandOff (s : State n) : Prop where
  session : ∀ t, s.Session t
  polled : s.Outstanding → ∃ t c, s.pcs t = .poll c
  taken : s.evt.alt = true → s.tpm.serves = false
  pending : s.events.alt = true → s.evt.alt = false ∧ s.tpm.serves = false
  serving : s.Serving
  returned : ∀ c ∈ s.returned, s.Processed c

/-- The session of a task that is not inside depends on what has been executed only. -/
theorem session_of_not_inside (h : s.Session u) (hpcs : s'.pcs u = s.pcs u)
    (hinside : s.Inside u = false) (hprocessed : s'.processed = s.processed) : s'.Session u := by
  unfold State.Session at h ⊢
  unfold State.Inside at hinside
  rw [hpcs]
  cases hpc : s.pcs u with
  | outside | locking c => trivial
  | unlocking c =>
      simp only [hpc] at h ⊢
      rw [State.Processed, hprocessed]
      exact h
  | _ =>
      rw [hpc] at hinside
      cases hinside

/-- `alt_if` is as it was, and there are no more requests than there were. -/
theorem State.Session.mono (h : s.Session u) (hpcs : s'.pcs u = s.pcs u)
    (hhdr : s'.altHdr = s.altHdr) (hsize : s'.altBufferSize = s.altBufferSize)
    (hresult : s'.processResult = s.processResult) (houtstanding : s'.Outstanding → s.Outstanding)
    (hprocessed : ∀ c, s.Processed c → s'.Processed c) : s'.Session u := by
  have hdescribes : ∀ c, s.Describes c → s'.Describes c := fun c hc =>
    ⟨hhdr.trans hc.1, hsize.trans hc.2⟩
  unfold State.Session at h ⊢
  rw [hpcs]
  cases hpc : s.pcs u with
  | outside | locking c => trivial
  | clear c | setHdr c =>
      simp only [hpc] at h ⊢
      exact mt houtstanding h
  | setSize c =>
      simp only [hpc] at h ⊢
      exact ⟨mt houtstanding h.1, hhdr.trans h.2⟩
  | setWaiting c =>
      simp only [hpc] at h ⊢
      exact ⟨mt houtstanding h.1, hdescribes c h.2⟩
  | setEvent c =>
      simp only [hpc] at h ⊢
      exact ⟨mt houtstanding h.1, hdescribes c h.2.1, hresult.trans h.2.2⟩
  | poll c =>
      simp only [hpc] at h ⊢
      rw [hresult]
      exact ⟨hdescribes c h.1, fun hout => h.2.1 (houtstanding hout),
        fun hdone => hprocessed c (h.2.2 hdone)⟩
  | test c =>
      simp only [hpc] at h ⊢
      rw [hresult]
      exact ⟨mt houtstanding h.1, hdescribes c h.2.1, fun hdone => hprocessed c (h.2.2 hdone)⟩
  | unlocking c =>
      simp only [hpc] at h ⊢
      exact hprocessed c h

/-- While a task that does not wait for an answer has the mutex, there is no request. -/
theorem HandOff.not_outstanding (h : HandOff s) (hx : Exclusion s) (ht : s.Holds t = true)
    (hpoll : ∀ c, s.pcs t ≠ .poll c) : ¬ s.Outstanding := by
  intro hout
  obtain ⟨u, c, hu⟩ := h.polled hout
  have hholds : s.Holds u = true := holds_of_inside (by simp [State.Inside, hu])
  obtain rfl := hx.unique u t hholds ht
  exact hpoll c hu

/-- A step of a task that has the mutex, while there is no request: it may change `alt_if`, and
the TPM task does not look. -/
theorem HandOff.inside (h : HandOff s) (hx : Exclusion s) (ht : s.Holds t = true)
    (hnone : ¬ s.Outstanding) (hpcs : ∀ u, u ≠ t → s'.pcs u = s.pcs u) (hevents : s'.events = s.events)
    (hevt : s'.evt = s.evt) (htpm : s'.tpm = s.tpm) (hprocessed : s'.processed = s.processed)
    (hreturned : s'.returned = s.returned) (hsession : s'.Session t) : HandOff s' := by
  have hout : ¬ s'.Outstanding := by
    rw [State.Outstanding, hevents, hevt, htpm]
    exact hnone
  have hserves : s.tpm.serves = false := by
    by_contra hserves
    exact hnone (Or.inr (Or.inr (by simpa using hserves)))
  refine ⟨?_, fun h' => absurd h' hout, ?_, ?_, ?_, ?_⟩
  · intro u
    by_cases heq : u = t
    · exact heq ▸ hsession
    · refine session_of_not_inside (h.session u) (hpcs u heq) ?_ hprocessed
      by_contra hin
      have hholds := holds_of_inside (by simpa using hin)
      rw [hx.others ht u heq] at hholds
      cases hholds
  · rw [hevt, htpm]
    exact h.taken
  · rw [hevents, hevt, htpm]
    exact h.pending
  · have hold := h.serving
    unfold State.Serving at hold ⊢
    rw [htpm]
    cases htpm' : s.tpm with
    | readSize tpmh | processing tpmh bufferSize | finish =>
        rw [htpm'] at hserves
        cases hserves
    | interrupt =>
        simp only [htpm'] at hold ⊢
        rwa [hevt]
    | _ => trivial
  · intro c hc
    rw [hreturned] at hc
    rw [State.Processed, hprocessed]
    exact h.returned c hc

/-- A step of a task in the functions of the mutexes. -/
theorem HandOff.mutex (h : HandOff s) {m : Mutex.State Unit n} : HandOff { s with mutex := m } where
  session := fun u => (h.session u).mono rfl rfl rfl rfl id fun _ => id
  polled := h.polled
  taken := h.taken
  pending := h.pending
  serving := h.serving
  returned := h.returned

/-- A call whose command has been executed returns. -/
theorem HandOff.return (h : HandOff s) (hc : s.Processed c) {m : Mutex.State Unit n} :
    HandOff { s with mutex := m, returned := c :: s.returned } where
  session := fun u => (h.session u).mono rfl rfl rfl rfl id fun _ => id
  polled := h.polled
  taken := h.taken
  pending := h.pending
  serving := h.serving
  returned := by
    intro c' hc'
    rcases List.mem_cons.mp hc' with rfl | hold
    · exact hc
    · exact h.returned c' hold

/-- A task goes on, and `alt_if` stays as it is. -/
theorem HandOff.goto (h : HandOff s) {pc : Pc n} (hpoll : s.Outstanding → ∀ c, s.pcs t ≠ .poll c)
    (hsession : (s.goto t pc).Session t) : HandOff (s.goto t pc) where
  session := by
    intro u
    by_cases heq : u = t
    · exact heq ▸ hsession
    · exact (h.session u).mono (Function.update_of_ne heq _ _) rfl rfl rfl id fun _ => id
  polled := by
    intro hout
    obtain ⟨u, c, hu⟩ := h.polled hout
    have hne : u ≠ t := by
      rintro rfl
      exact hpoll hout c hu
    exact ⟨u, c, (Function.update_of_ne hne _ _).trans hu⟩
  taken := h.taken
  pending := h.pending
  serving := h.serving
  returned := h.returned

/-- The request is sent. -/
theorem HandOff.setEvent (h : HandOff s) (hx : Exclusion s) (hpc : s.pcs t = .setEvent c) :
    HandOff (State.goto t (.poll c) { s with events := { s.events with alt := true } }) := by
  have hsession : ¬ s.Outstanding ∧ s.Describes c ∧ s.processResult = .waiting := by
    simpa only [State.Session, hpc] using h.session t
  obtain ⟨hnone, hdescribes, hwaiting⟩ := hsession
  rw [State.Outstanding, not_or, not_or, Bool.not_eq_true, Bool.not_eq_true, Bool.not_eq_true] at hnone
  have ht : s.Holds t = true := holds_of_inside (by simp [State.Inside, hpc])
  have hself : (State.goto t (.poll c) { s with events := { s.events with alt := true } }).pcs t =
      .poll c := Function.update_self _ _ _
  refine ⟨?_, fun _ => ⟨t, c, hself⟩, h.taken, fun _ => ⟨hnone.2.1, hnone.2.2⟩, h.serving, h.returned⟩
  intro u
  by_cases heq : u = t
  · subst heq
    simp only [State.Session, hself]
    refine ⟨hdescribes, fun _ => hwaiting, ?_⟩
    intro (hdone : s.processResult = .done)
    rw [hwaiting] at hdone
    cases hdone
  · refine session_of_not_inside (h.session u) (Function.update_of_ne heq _ _) ?_ rfl
    by_contra hin
    have hholds := holds_of_inside (by simpa using hin)
    rw [hx.others ht u heq] at hholds
    cases hholds

/-- A task that has the mutex goes on, and has cleared the lock. -/
theorem Exclusion.inside (h : Exclusion s) (ht : s.Holds t = true)
    (hpcs : ∀ u, u ≠ t → s'.pcs u = s.pcs u)
    (hthreads : ∀ u, u ≠ t → s'.mutex.threads u = s.mutex.threads u) (hplaced : s'.Placed t)
    (hcleared : s'.Cleared t = true) : Exclusion s' := by
  refine h.solo (h.others ht) hpcs hthreads hplaced ?_
  intro _ hnot
  rw [hcleared] at hnot
  cases hnot

/-- A task that has the mutex writes to `alt_if`, while there is no request. -/
theorem write_inv (hx : Exclusion s) (h : HandOff s) (ht : s.Holds t = true)
    (hnone : ¬ s.Outstanding) (huser : s.mutex.threads t = .user) {pc : Pc n}
    (hpcs : s'.pcs = s.pcs) (hthreads : s'.mutex.threads = s.mutex.threads)
    (hevents : s'.events = s.events) (hevt : s'.evt = s.evt) (htpm : s'.tpm = s.tpm)
    (hprocessed : s'.processed = s.processed) (hreturned : s'.returned = s.returned)
    (hcleared : (s'.goto t pc).Cleared t = true) (hsession : (s'.goto t pc).Session t) :
    Exclusion (s'.goto t pc) ∧ HandOff (s'.goto t pc) := by
  have hothers : ∀ u, u ≠ t → (s'.goto t pc).pcs u = s.pcs u := by
    intro u hne
    rw [← hpcs]
    exact Function.update_of_ne hne _ _
  refine ⟨hx.inside ht hothers (fun u _ => congrFun hthreads u) ?_ hcleared,
    h.inside hx ht hnone hothers hevents hevt htpm hprocessed hreturned hsession⟩
  -- The task is in no function of the mutexes, and not at one of their calls.
  have huser' : s'.mutex.threads t = .user := hthreads ▸ huser
  unfold State.Cleared at hcleared
  unfold State.Placed
  cases hpc : (s'.goto t pc).pcs t with
  | outside | locking c | unlocking c =>
      rw [hpc] at hcleared
      simp [State.goto, huser', Mutex.Thread.owns] at hcleared
  | _ => exact huser'

/-- A step in `mutex_lock`. -/
theorem lock_inv (hx : Exclusion s) (h : HandOff s) {now : UInt64} {exclusive : Bool}
    (hallowed : attemptsInTurn s (.run t now exclusive) = true) (hpc : s.pcs t = .locking c)
    (hstep : s.run t now exclusive = some s') : Exclusion s' ∧ HandOff s' := by
  simp only [State.run, hpc, Option.map_eq_some_iff] at hstep
  obtain ⟨m, hrun, hs'⟩ := hstep
  have hturn : ∀ mtx, s.mutex.threads t = .attempt mtx → ∀ other, s.Cleared other = false := by
    intro mtx ht
    simpa only [attemptsInTurn, ht, decide_eq_true_eq] using hallowed
  rcases hx.lockStep hpc hturn (Mutex.moves_of_runThread hrun) with
    ⟨huser, hholds, hx'⟩ | ⟨hbusy, hx'⟩
  · rw [huser, Mutex.Thread.isUser, if_pos rfl] at hs'
    subst hs'
    refine ⟨hx', h.mutex.goto ?_ ?_⟩
    · intro _ c'
      show s.pcs t ≠ .poll c'
      simp [hpc]
    · simp only [State.Session, State.goto, Function.update_self]
      exact h.not_outstanding hx hholds (by simp [hpc])
  · have hnot : (m.threads t).isUser ≠ true := fun huser => hbusy (Mutex.Thread.eq_user huser)
    rw [if_neg hnot] at hs'
    exact hs' ▸ ⟨hx', h.mutex⟩

/-- A step in `mutex_unlock`. -/
theorem unlock_inv (hx : Exclusion s) (h : HandOff s) {now : UInt64} {exclusive : Bool}
    (hpc : s.pcs t = .unlocking c) (hstep : s.run t now exclusive = some s') :
    Exclusion s' ∧ HandOff s' := by
  have hprocessed : s.Processed c := by
    simpa only [State.Session, hpc] using h.session t
  simp only [State.run, hpc, Option.map_eq_some_iff] at hstep
  obtain ⟨m, hrun, hs'⟩ := hstep
  rcases hx.unlockStep hpc (Mutex.moves_of_runThread hrun) with ⟨huser, hx'⟩ | ⟨hbusy, hx'⟩
  · rw [huser, Mutex.Thread.isUser, if_pos rfl] at hs'
    subst hs'
    refine ⟨hx', (h.return hprocessed).goto ?_ ?_⟩
    · intro _ c'
      show s.pcs t ≠ .poll c'
      simp [hpc]
    · simp only [State.Session, State.goto, Function.update_self]
  · have hnot : (m.threads t).isUser ≠ true := fun huser => hbusy (Mutex.Thread.eq_user huser)
    rw [if_neg hnot] at hs'
    exact hs' ▸ ⟨hx', h.mutex⟩

/-- An answer is there: whether the command has been executed is tested next. -/
theorem poll_inv (hx : Exclusion s) (h : HandOff s) {now : UInt64} {exclusive : Bool}
    (hpc : s.pcs t = .poll c) (hstep : s.run t now exclusive = some s') :
    Exclusion s' ∧ HandOff s' := by
  have hsession := h.session t
  have hplaced := hx.placed t
  simp only [State.run, hpc] at hstep
  simp only [State.Session, State.Placed, hpc] at hsession hplaced
  split_ifs at hstep with hwaiting
  · exact Option.some.inj hstep ▸ ⟨hx, h⟩
  · cases hstep
    have hnone : ¬ s.Outstanding := fun hout => hwaiting (hsession.2.1 hout)
    have ht : s.Holds t = true := by simp [State.Holds, State.Cleared, hpc]
    refine ⟨hx.inside ht ?_ (fun _ _ => rfl) ?_ ?_, h.goto (fun hout => absurd hout hnone) ?_⟩
    · intro u hne
      exact Function.update_of_ne hne _ _
    · simpa [State.Placed, State.goto] using hplaced
    · simp [State.Cleared, State.goto]
    · simp only [State.Session, State.goto, Function.update_self]
      exact ⟨hnone, hsession.1, hsession.2.2⟩

/-- The command has been executed, or it is requested again after a reset. -/
theorem test_inv (hx : Exclusion s) (h : HandOff s) {now : UInt64} {exclusive : Bool}
    (hpc : s.pcs t = .test c) (hstep : s.run t now exclusive = some s') :
    Exclusion s' ∧ HandOff s' := by
  have hsession := h.session t
  have hplaced := hx.placed t
  simp only [State.run, hpc] at hstep
  simp only [State.Session, State.Placed, hpc] at hsession hplaced
  have ht : s.Holds t = true := by simp [State.Holds, State.Cleared, hpc]
  split_ifs at hstep with hdone
  · cases hstep
    refine ⟨hx.inside ht ?_ ?_ ?_ ?_, h.mutex.goto (fun hout => absurd hout hsession.1) ?_⟩
    · intro u hne
      exact Function.update_of_ne hne _ _
    · intro u hne
      exact Function.update_of_ne hne _ _
    · simp [State.Placed, State.goto, Mutex.State.goto, inUnlock]
    · simp [State.Cleared, State.goto, Mutex.State.goto, Mutex.Thread.owns]
    · simp only [State.Session, State.goto, Function.update_self]
      exact hsession.2.2 hdone
  · cases hstep
    refine ⟨hx.inside ht ?_ (fun _ _ => rfl) ?_ ?_, h.goto (fun hout => absurd hout hsession.1) ?_⟩
    · intro u hne
      exact Function.update_of_ne hne _ _
    · simpa [State.Placed, State.goto] using hplaced
    · simp [State.Cleared, State.goto]
    · simp only [State.Session, State.goto, Function.update_self]
      exact ⟨hsession.1, hsession.2.1⟩

/-- A task takes its next step in `tpm_alt_extension`. -/
theorem run_inv (hx : Exclusion s) (h : HandOff s) {now : UInt64} {exclusive : Bool}
    (hallowed : attemptsInTurn s (.run t now exclusive) = true)
    (hstep : s.run t now exclusive = some s') : Exclusion s' ∧ HandOff s' := by
  have hsession := h.session t
  have hplaced := hx.placed t
  cases hpc : s.pcs t with
  | outside => simp [State.run, hpc] at hstep
  | locking c => exact lock_inv hx h hallowed hpc hstep
  | clear c =>
      simp only [State.run, hpc, Option.some.injEq] at hstep
      simp only [State.Session, State.Placed, hpc] at hsession hplaced
      have ht : s.Holds t = true := by simp [State.Holds, hpc]
      refine hstep ▸ write_inv hx h ht hsession hplaced rfl rfl rfl rfl rfl rfl rfl ?_ ?_
      · simp [State.Cleared, State.goto]
      · simpa [State.Session, State.goto, State.clearAltIf, State.Outstanding] using hsession
  | setHdr c =>
      simp only [State.run, hpc, Option.some.injEq] at hstep
      simp only [State.Session, State.Placed, hpc] at hsession hplaced
      have ht : s.Holds t = true := by simp [State.Holds, State.Cleared, hpc]
      refine hstep ▸ write_inv hx h ht hsession hplaced rfl rfl rfl rfl rfl rfl rfl ?_ ?_
      · simp [State.Cleared, State.goto]
      · simpa [State.Session, State.goto, State.Outstanding] using hsession
  | setSize c =>
      simp only [State.run, hpc, Option.some.injEq] at hstep
      simp only [State.Session, State.Placed, hpc] at hsession hplaced
      have ht : s.Holds t = true := by simp [State.Holds, State.Cleared, hpc]
      refine hstep ▸ write_inv hx h ht hsession.1 hplaced rfl rfl rfl rfl rfl rfl rfl ?_ ?_
      · simp [State.Cleared, State.goto]
      · simpa [State.Session, State.goto, State.Outstanding, State.Describes] using hsession
  | setWaiting c =>
      simp only [State.run, hpc, Option.some.injEq] at hstep
      simp only [State.Session, State.Placed, hpc] at hsession hplaced
      have ht : s.Holds t = true := by simp [State.Holds, State.Cleared, hpc]
      refine hstep ▸ write_inv hx h ht hsession.1 hplaced rfl rfl rfl rfl rfl rfl rfl ?_ ?_
      · simp [State.Cleared, State.goto]
      · simpa [State.Session, State.goto, State.Outstanding, State.Describes] using hsession
  | setEvent c =>
      simp only [State.run, hpc, Option.some.injEq] at hstep
      simp only [State.Placed, hpc] at hplaced
      subst hstep
      have ht : s.Holds t = true := by simp [State.Holds, State.Cleared, hpc]
      refine ⟨hx.inside ht ?_ (fun _ _ => rfl) ?_ ?_, h.setEvent hx hpc⟩
      · intro u hne
        exact Function.update_of_ne hne _ _
      · simpa [State.Placed, State.goto] using hplaced
      · simp [State.Cleared, State.goto]
  | poll c => exact poll_inv hx h hpc hstep
  | test c => exact test_inv hx h hpc hstep
  | unlocking c => exact unlock_inv hx h hpc hstep

/-- A step of the TPM task that writes nothing to `alt_if`. -/
theorem HandOff.tpmQuiet (h : HandOff s) {events evt : TpmEvents} {tpm : TpmPc n}
    {processed : List (AltCall n × UInt32)}
    (houtstanding : events.alt = true ∨ evt.alt = true ∨ tpm.serves = true → s.Outstanding)
    (htaken : evt.alt = true → tpm.serves = false)
    (hpending : events.alt = true → evt.alt = false ∧ tpm.serves = false)
    (hprocessed : ∀ x ∈ s.processed, x ∈ processed)
    (hserving : State.Serving
      { s with events := events, evt := evt, tpm := tpm, processed := processed }) :
    HandOff { s with events := events, evt := evt, tpm := tpm, processed := processed } where
  session := fun u => (h.session u).mono rfl rfl rfl rfl houtstanding fun _ hc => hprocessed _ hc
  polled := fun hout => h.polled (houtstanding hout)
  taken := htaken
  pending := hpending
  serving := hserving
  returned := fun c hc => hprocessed _ (h.returned c hc)

/-- The request stays where it is, or is dropped while it is served. -/
theorem HandOff.tpmMove (h : HandOff s) {evt : TpmEvents} {tpm : TpmPc n}
    {processed : List (AltCall n × UInt32)} (halt : evt.alt = s.evt.alt)
    (hserves : tpm.serves = true → s.tpm.serves = true)
    (hprocessed : ∀ x ∈ s.processed, x ∈ processed)
    (hserving : State.Serving { s with evt := evt, tpm := tpm, processed := processed }) :
    HandOff { s with evt := evt, tpm := tpm, processed := processed } := by
  have hfalse : s.tpm.serves = false → tpm.serves = false := by
    intro hno
    by_contra htrue
    rw [hserves (by simpa using htrue)] at hno
    cases hno
  refine h.tpmQuiet ?_ ?_ ?_ hprocessed hserving
  · rw [halt]
    exact fun hout => hout.imp_right fun h' => h'.imp_right hserves
  · rw [halt]
    exact fun hevt => hfalse (h.taken hevt)
  · rw [halt]
    exact fun hevents => ⟨(h.pending hevents).1, hfalse (h.pending hevents).2⟩

/-- The pending events are taken, and the request with them. -/
theorem HandOff.tpmTake (h : HandOff s) {evt : TpmEvents} {tpm : TpmPc n}
    (halt : evt.alt = s.events.alt) (hserves : tpm.serves = false)
    (hserving : State.Serving { s with events := .none, evt := evt, tpm := tpm }) :
    HandOff { s with events := .none, evt := evt, tpm := tpm } := by
  refine h.tpmQuiet ?_ (fun _ => hserves) (by simp [TpmEvents.none]) (fun _ => id) hserving
  rintro (hevents | hevt | hserves')
  · cases hevents
  · exact Or.inl (halt ▸ hevt)
  · rw [hserves] at hserves'
    cases hserves'

/-- The TPM task begins to serve the request. -/
theorem HandOff.tpmServe (h : HandOff s) (hevt : s.evt.alt = true) :
    HandOff { s with evt := { s.evt with alt := false }, tpm := .readHdr } := by
  refine h.tpmQuiet (fun _ => Or.inr (Or.inl hevt)) (by simp) ?_ (fun _ => id) trivial
  intro hevents
  rw [(h.pending hevents).1] at hevt
  cases hevt

/-- The request is answered. -/
theorem HandOff.answer (h : HandOff s) (hout : s.Outstanding) {result : AltProcessResult}
    {evt : TpmEvents} (hnone : s.events.alt = false ∧ evt.alt = false)
    (hdone : result = .done → ∀ c, s.Describes c → s.Processed c) :
    HandOff { s with processResult := result, evt := evt, tpm := .loop } := by
  have hafter : ¬ State.Outstanding { s with processResult := result, evt := evt, tpm := .loop } := by
    rintro (hevents | hevt | hserves)
    · exact absurd hevents (by rw [hnone.1]; rintro ⟨⟩)
    · exact absurd hevt (by rw [hnone.2]; rintro ⟨⟩)
    · cases hserves
  refine ⟨?_, fun h' => absurd h' hafter, fun _ => rfl, ?_, trivial, h.returned⟩
  · intro u
    have hold := h.session u
    unfold State.Session at hold ⊢
    cases hpc : s.pcs u with
    | outside | locking c => simp only
    | unlocking c =>
        simp only [hpc] at hold ⊢
        exact hold
    | poll c =>
        simp only [hpc] at hold ⊢
        exact ⟨hold.1, fun h' => absurd h' hafter, fun hres => hdone hres c hold.1⟩
    | clear c | setHdr c =>
        simp only [hpc] at hold
        exact absurd hout hold
    | setSize c | setWaiting c | setEvent c | test c =>
        simp only [hpc] at hold
        exact absurd hout hold.1
  · intro (hevents : s.events.alt = true)
    rw [hnone.1] at hevents
    cases hevents

/-- The TPM task takes its next step. -/
theorem HandOff.tpmStep (h : HandOff s) {apIsOn responds : Bool}
    (hstep : s.tpmStep apIsOn responds = some s') : HandOff s' := by
  have hserving := h.serving
  unfold State.Serving at hserving
  unfold State.tpmStep at hstep
  cases htpm : s.tpm with
  | apOff =>
      simp only [htpm] at hstep
      split_ifs at hstep
      · exact Option.some.inj hstep ▸ h.tpmMove rfl (by simp [TpmPc.serves]) (fun _ => id) trivial
      · exact Option.some.inj hstep ▸ h.tpmTake rfl rfl trivial
      · have htake : HandOff { s with events := .none, evt := s.events, tpm := .apOff } :=
          h.tpmTake rfl rfl trivial
        exact Option.some.inj hstep ▸ htake
  | firstReset | fifo =>
      simp only [htpm, Option.some.injEq] at hstep
      exact hstep ▸ h.tpmMove rfl (by simp [TpmPc.serves]) (fun _ => id) trivial
  | loop =>
      simp only [htpm] at hstep
      split_ifs at hstep
      · exact Option.some.inj hstep ▸ h.tpmMove rfl (by simp [TpmPc.serves]) (fun _ => id) trivial
      · exact Option.some.inj hstep ▸ h.tpmTake rfl rfl trivial
  | handle =>
      simp only [htpm] at hstep
      split_ifs at hstep with hreset hwake halt
      · exact Option.some.inj hstep ▸ h.tpmMove rfl (by simp [TpmPc.serves]) (fun _ => id) trivial
      · exact Option.some.inj hstep ▸ h.tpmMove rfl (by simp [TpmPc.serves]) (fun _ => id) trivial
      · exact Option.some.inj hstep ▸ h.tpmServe halt
      · have hnone : TpmEvents.none.alt = s.evt.alt := (Bool.not_eq_true _ ▸ halt).symm
        exact Option.some.inj hstep ▸ h.tpmMove hnone (by simp [TpmPc.serves]) (fun _ => id) trivial
  | resetting =>
      simp only [htpm] at hstep
      split_ifs at hstep with halt
      · exact Option.some.inj hstep ▸ h.tpmMove rfl (by simp [TpmPc.serves]) (fun _ => id) halt
      · have hnone : TpmEvents.none.alt = s.evt.alt := (Bool.not_eq_true _ ▸ halt).symm
        exact Option.some.inj hstep ▸ h.tpmMove hnone (by simp [TpmPc.serves]) (fun _ => id) trivial
  | interrupt =>
      simp only [htpm, Option.some.injEq] at hstep hserving
      have hevents : s.events.alt = false := by
        by_contra hevents
        rw [(h.pending (by simpa using hevents)).1] at hserving
        cases hserving
      exact hstep ▸ h.answer (Or.inr (Or.inl hserving)) ⟨hevents, rfl⟩ (by simp)
  | readHdr =>
      simp only [htpm, Option.some.injEq] at hstep
      exact hstep ▸ h.tpmMove rfl (by rw [htpm]; exact fun _ => rfl) (fun _ => id) rfl
  | readSize tpmh =>
      simp only [htpm, Option.some.injEq] at hstep hserving
      exact hstep ▸ h.tpmMove rfl (by rw [htpm]; exact fun _ => rfl) (fun _ => id) ⟨hserving, rfl⟩
  | processing tpmh bufferSize =>
      simp only [htpm] at hstep hserving
      split_ifs at hstep with hresponds
      · refine Option.some.inj hstep ▸ h.tpmMove rfl (by rw [htpm]; exact fun _ => rfl)
          (fun _ => List.mem_append_right _) ?_
        intro c (hc : s.altHdr = some c)
        rw [hserving.1, hc, hserving.2]
        exact List.mem_append_left _ (List.mem_singleton.mpr rfl)
      · exact Option.some.inj hstep ▸ h.tpmMove rfl (by simp [TpmPc.serves]) (fun _ => id) trivial
  | finish =>
      simp only [htpm, Option.some.injEq] at hstep hserving
      have hserves : s.tpm.serves = true := by rw [htpm]; rfl
      have hevents : s.events.alt = false := by
        by_contra hevents
        rw [(h.pending (by simpa using hevents)).2] at hserves
        cases hserves
      have hevt : s.evt.alt = false := by
        by_contra hevt
        rw [h.taken (by simpa using hevt)] at hserves
        cases hserves
      refine hstep ▸ h.answer (Or.inr (Or.inr hserves)) ⟨hevents, hevt⟩ ?_
      rintro - c ⟨hhdr, hsize⟩
      rw [State.Processed, ← hsize]
      exact hserving c hhdr

/-! ## Every interleaving -/

/-- What one step preserves. -/
theorem step_inv (hx : Exclusion s) (h : HandOff s) {e : Event n}
    (hallowed : attemptsInTurn s e = true) (hstep : step s e = some s') :
    Exclusion s' ∧ HandOff s' := by
  cases e with
  | call task bufferSize =>
      cases hpc : s.pcs task with
      | outside =>
          simp only [step, hpc] at hstep
          split_ifs at hstep
          cases hstep
          refine ⟨hx.quiet (t := task) ?_ ?_ ?_ ?_ rfl, ?_⟩
          · intro u hne
            exact Function.update_of_ne hne _ _
          · intro u hne
            exact Function.update_of_ne hne _ _
          · simp [State.Placed, State.goto, Mutex.State.goto, inLock]
          · simp [State.Holds, State.goto, Mutex.State.goto, Mutex.Thread.owns]
          · have hcount : HandOff { s with
                mutex := s.mutex.goto task (.register ()), callCount := s.callCount + 1 } :=
              ⟨fun u => (h.session u).mono rfl rfl rfl rfl id fun _ => id, h.polled, h.taken,
                h.pending, h.serving, h.returned⟩
            refine hcount.goto ?_ ?_
            · intro _ c
              show s.pcs task ≠ .poll c
              rw [hpc]
              rintro ⟨⟩
            · simp only [State.Session, State.goto, Function.update_self]
      | _ => simp [step, hpc] at hstep
  | run task now exclusive => exact run_inv hx h hallowed hstep
  | tpm apIsOn responds =>
      refine ⟨?_, h.tpmStep hstep⟩
      have hsame : s'.pcs = s.pcs ∧ s'.mutex = s.mutex := by
        simp only [step, State.tpmStep] at hstep
        split at hstep <;> (try split_ifs at hstep) <;> cases hstep <;> exact ⟨rfl, rfl⟩
      have hframe : ∀ u, s'.Holds u = s.Holds u ∧ s'.Cleared u = s.Cleared u ∧
          (s.Placed u → s'.Placed u) :=
        fun u => frame (congrFun hsame.1 u) (by rw [hsame.2])
      refine ⟨fun u => (hframe u).2.2 (hx.placed u), ?_, ?_⟩
      · intro u hu hcleared
        rw [(hframe u).1] at hu
        rw [(hframe u).2.1] at hcleared
        rw [hsame.2]
        exact hx.locked u hu hcleared
      · intro u v hu hv
        rw [(hframe u).1] at hu
        rw [(hframe v).1] at hv
        exact hx.unique u v hu hv
  | resetRequest =>
      cases hstep
      exact ⟨⟨hx.placed, hx.locked, hx.unique⟩,
        h.tpmQuiet id h.taken h.pending (fun _ => id) h.serving⟩
  | fifoCommand =>
      cases hstep
      exact ⟨⟨hx.placed, hx.locked, hx.unique⟩,
        h.tpmQuiet id h.taken h.pending (fun _ => id) h.serving⟩
  | send task bits =>
      cases hstep
      exact ⟨⟨hx.placed, hx.locked, hx.unique⟩, h.mutex⟩
  | read task bits =>
      simp only [step] at hstep
      split_ifs at hstep
      cases hstep
      exact ⟨⟨hx.placed, hx.locked, hx.unique⟩, h.mutex⟩

theorem init_inv (events : Fin (n + 1) → UInt32) :
    Exclusion (State.init events) ∧ HandOff (State.init events) := by
  refine ⟨⟨fun _ => rfl, by rintro t ⟨⟩, by rintro t u ⟨⟩⟩, ⟨fun _ => trivial, ?_, ?_, ?_, trivial, ?_⟩⟩
  · rintro (h | h | h) <;> cases h
  · rintro ⟨⟩
  · rintro ⟨⟩
  · rintro c ⟨⟩

/-- **Alternative commands are serialised**, in every interleaving in which no task looks at the
lock of the mutex while another one has cleared it and has not freed the mutex yet: one task at
most is between `mutex_lock` and `mutex_unlock`, and a call that has returned has had its own
command executed, in a buffer of its own size. -/
theorem alt_extension_serialised {events : Fin (n + 1) → UInt32}
    (h : Reachable step attemptsInTurn (State.init events) s) :
    (∀ t u, s.Inside t = true → s.Inside u = true → t = u) ∧
      ∀ c ∈ s.returned, (c, c.bufferSize) ∈ s.processed := by
  obtain ⟨hx, hh⟩ : Exclusion s ∧ HandOff s := by
    refine h.invariant (fun s => Exclusion s ∧ HandOff s) (init_inv events) ?_
    intro s e s' hs hallowed hstep
    exact step_inv hs.1 hs.2 hallowed hstep
  exact ⟨fun t u ht hu => hx.unique t u (holds_of_inside ht) (holds_of_inside hu), hh.returned⟩

/-- A call returns after its command has been executed. -/
theorem alt_extension_serialised_run :
    ∃ s : State 1, Reachable step attemptsInTurn (State.init fun _ => 0) s ∧
      s.returned = [⟨0, 0, 16⟩] ∧ (⟨0, 0, 16⟩, 16) ∈ s.processed := by
  obtain ⟨s, hs, hreturned⟩ : ∃ s : State 1,
      Reachable step attemptsInTurn (State.init fun _ => 0) s ∧ s.returned = [⟨0, 0, 16⟩] :=
    Reachable.exists_of_runEvents
      (Event.call 0 16 :: List.replicate 8 (Event.run 0 0 true) ++
        List.replicate 8 (Event.tpm true true) ++ List.replicate 4 (Event.run 0 0 true))
      (by decide +kernel)
  have hmem : (⟨0, 0, 16⟩ : AltCall 1) ∈ s.returned := by
    rw [hreturned]
    exact List.mem_singleton.mpr rfl
  exact ⟨s, hs, hreturned, (alt_extension_serialised hs).2 _ hmem⟩

/-- **Two callers overlap.** Task 0 has locked the mutex and cleared it, and task 1 locks it too.
If task 1 has made its request before the TPM task takes that of task 0, the command of task 1 is
executed, and the call of task 0 returns. -/
theorem alt_extension_overlap :
    (∃ s : State 1, Reachable step anyEvent (State.init fun _ => 0) s ∧
      s.Inside 0 = true ∧ s.Inside 1 = true) ∧
    ∃ s : State 1, Reachable step anyEvent (State.init fun _ => 0) s ∧
      s.returned = [⟨0, 0, 16⟩] ∧ s.processed = [(⟨1, 1, 16⟩, 16)] := by
  refine ⟨Reachable.exists_of_runEvents
    (Event.call 0 16 :: List.replicate 4 (Event.run 0 0 true) ++
      Event.call 1 16 :: List.replicate 3 (Event.run 1 0 true))
    (by decide +kernel), ?_⟩
  exact Reachable.exists_of_runEvents
    (Event.call 0 16 :: List.replicate 8 (Event.run 0 0 true) ++
      Event.call 1 16 :: List.replicate 8 (Event.run 1 0 true) ++
      List.replicate 8 (Event.tpm true true) ++ List.replicate 4 (Event.run 0 0 true))
    (by decide +kernel)

end AltExtension
end Tpm
end CrosEc
