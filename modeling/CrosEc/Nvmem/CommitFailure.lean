import CrosEc.Nvmem.Erase

/-!
# Commits that fail

`nvmem_save` enciphers the buffer in place, in the cache, and deciphers it again
after the write.  An erase that fails is reported before that, so the cache is as
it was.  A write that fails is reported in between: every user then reads
ciphertext, and the next commit stores it.

`HarmlessFailure` says what a failing commit owes its callers, and
`harmlessFailure_of_sound` that it keeps its word in every state that a run of sound
events reaches, as long as only the erase fails.
-/

namespace CrosEc
namespace Nvmem

open Lib

section Reads

variable {n : Nat} (cfg : Config)

/-- What `nvmem_read` returns: the code and the bytes. -/
def readResult (t : TaskId) (offset size : UInt32) (user : Nat) (s : State n) : Code × Bytes :=
  ((read cfg t offset size user s).1, (read cfg t offset size user s).2.1)

variable {cfg}

theorem readResult_eq (t : TaskId) (offset size : UInt32) (user : Nat) (s : State n) :
    readResult cfg t offset size user s =
      match getPartitionOff cfg user offset size with
      | .error code => (code, [])
      | .ok addr => (ecSuccess, s.cache.load addr size) := by
  unfold readResult read
  cases getPartitionOff cfg user offset size with
  | error code => rfl
  | ok addr => simp

/-- A request inside a user's region sees the buffer only. -/
theorem load_congr {p q : Partition n} (hbuffer : p.buffer = q.buffer) (addr size : UInt32)
    (hlow : tagSize ≤ addr.toNat) (hhigh : addr.toNat + size.toNat ≤ 2 ^ 32) :
    p.load addr size = q.load addr size := by
  unfold Partition.load
  apply List.map_congr_left
  intro i hi
  rw [List.mem_range] at hi
  have hlt := size.toNat_lt
  have hpos : (addr + UInt32.ofNat i).toNat = addr.toNat + i := by
    rw [UInt32.toNat_add, UInt32.toNat_ofNat', Nat.mod_eq_of_lt (show i < 2 ^ 32 by omega),
      Nat.mod_eq_of_lt (by omega)]
  rw [hpos, bytes_getD_buffer p (by omega), bytes_getD_buffer q (by omega), hbuffer]

theorem readResult_congr {s s' : State n} (hbuffer : s'.cache.buffer = s.cache.buffer)
    {t t' : TaskId} {offset size : UInt32} {user : Nat} (hrange : InRange cfg user offset size) :
    readResult cfg t' offset size user s' = readResult cfg t offset size user s := by
  rw [readResult_eq, readResult_eq]
  cases hoff : getPartitionOff cfg user offset size with
  | error code => rfl
  | ok addr =>
      obtain ⟨len, -, haddr, -, htop⟩ := addr_bounds hoff (hrange ⟨addr, hoff⟩)
      have hlt := cfg.partition_lt
      have hload := load_congr hbuffer addr size (by omega) (by omega)
      simp only [hload]

end Reads

section Failure

variable {n : Nat} (cfg : Config) (P : Platform n)

/-- `s''` has the cache and the flash of `s'`: between the two nothing was written. -/
structure Untouched (s' s'' : State n) : Prop where
  flash : s''.flash = s'.flash
  cache : s''.cache = s'.cache
  actPartition : s''.actPartition = s'.actPartition
  ladderEnabled : s''.ladderEnabled = s'.ladderEnabled

/-- If this commit reports an error, every read returns what it returned before, and
a later commit of the untouched cache that gets as far as saving, with operations
that succeed, stores it: after a reboot every read inside a user's region returns
it again. -/
def HarmlessFailure (t : TaskId) (o : SaveOutcome n) (s : State n) : Prop :=
  (commit P t o s).1 ≠ ecSuccess →
    (∀ reader offset size user,
      readResult cfg reader offset size user (commit P t o s).2 =
        readResult cfg reader offset size user s) ∧
    ∀ s'' t' o', Untouched (commit P t o s).2 s'' → reachesSave t' s'' = true →
      SaveOutcome.Succeeds o' →
        (commit P t' o' s'').1 = ecSuccess ∧
        ∀ boot reader offset size user, InRange cfg user offset size →
          readResult cfg reader offset size user (booted P boot (commit P t' o' s'').2.flash) =
            readResult cfg reader offset size user s

variable {cfg P} {bodies : Set Bytes}

/-- A failing commit of a kept state leaves the cache as it was. -/
theorem commit_error (hP : P.Involutive) (hinj : Set.InjOn P.computeHash bodies) {t : TaskId}
    {o : SaveOutcome n} (ho : o.Sound P) {s : State n} (h : Kept P bodies (.on s))
    (hbody : s.cache.body ∈ bodies) (herr : (commit P t o s).1 ≠ ecSuccess) :
    (commit P t o s).2.cache = s.cache := by
  rcases commit_cases P t o s with ⟨-, hsave⟩ | ⟨-, hskip⟩ | ⟨-, -, hcache, -⟩
  · rw [hsave] at herr ⊢
    rcases save_sound hP ho h.2.1 h.1 (h.hash hinj hbody) with ⟨hok, -⟩ | ⟨-, hcache, -⟩
    · exact absurd hok herr
    · exact hcache
  · rw [hskip] at herr
    exact absurd rfl herr
  · exact hcache

/-- A commit that saves stores the users' bytes for the next boot. -/
theorem commit_stores (hP : P.Involutive) (hinj : Set.InjOn P.computeHash bodies) {t : TaskId}
    {o : SaveOutcome n} (ho : o.Succeeds) {s : State n} (h : Kept P bodies (.on s))
    (hbody : s.cache.body ∈ bodies) (hsaves : reachesSave t s = true) (boot : TaskId) :
    (commit P t o s).1 = ecSuccess ∧
      (booted P boot (commit P t o s).2.flash).cache.buffer = s.cache.buffer := by
  have hcommit : commit P t o s = save P o s := by
    simp only [reachesSave, Bool.and_eq_true, decide_eq_true_eq, Bool.not_eq_true'] at hsaves
    obtain ⟨⟨howner, hgood⟩, hon⟩ := hsaves
    unfold commit
    simp [howner, hgood, hon]
  obtain ⟨hok, -, hbuffer, hstored⟩ := save_synced hP ho h.2.1 h.1 (h.hash hinj hbody)
  rw [hcommit]
  exact ⟨hok, by rw [booted_buffer hP, hstored, hbuffer]⟩

end Failure

/-- **Failed commits do no damage.**  In every state that a run reaches whose accepted
writes and moves do not wrap, in which `app_cipher` and `flash_physical_write` never
fail and `nvmem_erase_user_data` is not called, a commit whose erase may fail is
harmless if it fails. -/
theorem harmlessFailure_of_sound (cfg : Config) (P : Platform cfg.bufferSize)
    (hP : P.Involutive) (t₀ : TaskId) (flash : Fin 2 → Partition cfg.bufferSize)
    (es : List (Event cfg.bufferSize)) (hes : ∀ e ∈ es, e.Sound cfg P)
    (hinj : Set.InjOn P.computeHash
      { b | b ∈ cacheBodies cfg P es (.on (booted P t₀ flash)) })
    (s : State cfg.bufferSize)
    (hrun : exec cfg P es (.on (booted P t₀ flash)) = some (.on s))
    (t : TaskId) (o : SaveOutcome cfg.bufferSize) (ho : o.Sound P) :
    HarmlessFailure cfg P t o s := by
  intro herr
  have hopen : Kept P { b | b ∈ cacheBodies cfg P es (.on (booted P t₀ flash)) }
      (.on (booted P t₀ flash)) :=
    kept_boot hP t₀ flash (mem_cacheBodies_of_mem_bodies (by simp [Device.bodies, booted]))
  obtain ⟨hkept, hbody⟩ := exec_kept hP hinj hes hrun hopen (fun b hb => hb)
  have hcache := hbody s.cache.body (by simp [Device.bodies])
  have hsame := commit_error hP hinj ho hkept hcache herr
  refine ⟨?_, ?_⟩
  · intro reader offset size user
    rw [readResult_eq, readResult_eq, hsame]
  · intro s'' t' o' huntouched hsaves ho'
    have hcache'' : s''.cache = s.cache := by rw [huntouched.cache, hsame]
    have hkept'' : Kept P { b | b ∈ cacheBodies cfg P es (.on (booted P t₀ flash)) } (.on s'') :=
      (hkept.commit hP hinj ho hcache (by rwa [hsame])).congr huntouched.flash
        (by rw [huntouched.cache]) huntouched.actPartition huntouched.ladderEnabled
    refine ⟨(commit_stores hP hinj ho' hkept'' (by rwa [hcache'']) hsaves 0).1, ?_⟩
    intro boot reader offset size user hrange
    apply readResult_congr _ hrange
    rw [(commit_stores hP hinj ho' hkept'' (by rwa [hcache'']) hsaves boot).2, hcache'']

/-- An erase that fails and leaves the partition as it was. -/
def failingErase : SaveOutcome 8 := { SaveOutcome.ok 8 with erase := ecErrorUnknown }

/-- A write that fails and leaves the erased partition. -/
def failingWrite : SaveOutcome 8 := { SaveOutcome.ok 8 with write := ecErrorUnknown }

/-- User 0 writes four bytes and the erase of the commit fails. -/
theorem harmlessFailure_failingErase :
    ∃ s, exec testConfig testPlatform [.write 1 0 4 [1, 2, 3, 4] 0] (.on freshBoard) =
        some (.on s) ∧
      (commit testPlatform 1 failingErase s).1 ≠ ecSuccess ∧
      HarmlessFailure testConfig testPlatform 1 failingErase s := by
  have hes : ∀ e ∈ ([.write 1 0 4 [1, 2, 3, 4] 0] : List (Event 8)),
      e.Sound testConfig testPlatform := by
    simp only [List.forall_mem_cons]
    exact ⟨fun _ => by decide, by simp⟩
  have hdistinct : ∀ a ∈ cacheBodies testConfig testPlatform [.write 1 0 4 [1, 2, 3, 4] 0]
      (.on freshBoard), ∀ b ∈ cacheBodies testConfig testPlatform [.write 1 0 4 [1, 2, 3, 4] 0]
      (.on freshBoard), testPlatform.computeHash a = testPlatform.computeHash b → a = b := by
    decide +kernel
  exact ⟨_, rfl, by decide +kernel,
    harmlessFailure_of_sound testConfig testPlatform testPlatform_involutive 0 _ _ hes
      (fun a ha b hb => hdistinct a ha b hb) _ rfl 1 failingErase
      ⟨rfl, rfl, rfl, fun p hp => absurd hp (by simp [failingErase, SaveOutcome.ok])⟩⟩

/-- The same with a failing write: user 0 reads back ciphertext. -/
theorem not_harmlessFailure_failingWrite :
    ∃ s, exec testConfig testPlatform [.write 1 0 4 [1, 2, 3, 4] 0] (.on freshBoard) =
        some (.on s) ∧
      ¬ HarmlessFailure testConfig testPlatform 1 failingWrite s := by
  refine ⟨_, rfl, ?_⟩
  intro h
  exact absurd ((h (by decide +kernel)).1 1 0 4 0) (by decide +kernel)

end Nvmem
end CrosEc
