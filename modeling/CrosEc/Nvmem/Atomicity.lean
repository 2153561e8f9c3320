import CrosEc.Nvmem.Runs

/-!
# Commits are atomic across a loss of power

The `Ledger` of a run records what `nvmem_commit` has promised: the users' bytes of
the last commit that returned success, and those of a commit that was interrupted
by a loss of power since then.  `AtomicRun` says that the boot that follows a run
loads one of the two.

It holds of every run of sound events (`atomicRun_of_sound`).  One write whose
`offset + size` wraps breaks it: it reaches the generation number in the tag, and
the next commit looks older than the image it replaces.
-/

namespace CrosEc
namespace Nvmem

open Lib

/-- What the commits of a run have promised about the users' bytes. -/
structure Ledger (n : Nat) where
  /-- the last commit that returned success, or what a boot loaded since -/
  committed : Blob n
  /-- the commit in which power was lost -/
  interrupted : Option (Blob n)

section Runs

variable {n : Nat} (cfg : Config) (P : Platform n)

/-- The ledger after one event.  A boot decides whether an interrupted commit took
place: what it loads counts as committed from then on. -/
def account (l : Ledger n) : Event n → Device n → Ledger n
  | .commit t o, .on s =>
      if (commit P t o s).1 = ecSuccess then ⟨s.cache.buffer, none⟩ else l
  | .commitPowerLoss _ _, .on s => { l with interrupted := some s.cache.buffer }
  | .boot t, .off flash => ⟨(init P t (InitOutcome.ok n) (powerOn flash)).2.cache.buffer, none⟩
  | _, _ => l

/-- The ledger at the end of a run. -/
def accounts : List (Event n) → Device n → Ledger n → Ledger n
  | [], _, l => l
  | e :: es, d, l =>
      match step cfg P e d with
      | none => l
      | some d' => accounts es d' (account P l e d)

/-- The calls the contract speaks about: reads, writes, moves, commits and
reboots, with power lost at any point. -/
def Event.IsCommitRun : Event n → Prop
  | .disableCommits _ => False
  | .enableCommits _ _ => False
  | .eraseUserData _ _ _ _ => False
  | _ => True

/-- The device after the first `nvmem_init`, and its ledger. -/
def booted (t : TaskId) (flash : Fin 2 → Partition n) : State n :=
  (init P t (InitOutcome.ok n) (powerOn flash)).2

def openingLedger (t : TaskId) (flash : Fin 2 → Partition n) : Ledger n :=
  ⟨(booted P t flash).cache.buffer, none⟩

/-- After the run `es` that began with a boot of `flash`, if the device is off, the
next boot succeeds and loads the committed or the interrupted contents. -/
def AtomicRun (t₀ : TaskId) (flash : Fin 2 → Partition n) (es : List (Event n)) : Prop :=
  ∀ flash', exec cfg P es (.on (booted P t₀ flash)) = some (.off flash') →
    ∀ t, (init P t (InitOutcome.ok n) (powerOn flash')).1 = ecSuccess ∧
      (let loaded := (booted P t flash').cache.buffer
       let l := accounts cfg P es (.on (booted P t₀ flash)) (openingLedger P t₀ flash)
       loaded = l.committed ∨ some loaded = l.interrupted)

end Runs

/-! ## What the ledger promises in every state -/

section Proof

variable {n : Nat} {cfg : Config} {P : Platform n} {bodies : Set Bytes}

/-- The image in flash is the one the ledger speaks about.  While the device runs
it is the committed one; after a loss of power it may be the interrupted one. -/
def Promised (P : Platform n) (l : Ledger n) : Device n → Prop
  | .on s => (image P s.flash).buffer = l.committed ∧ s.commitsEnabled = true
  | .off flash =>
      (image P flash).buffer = l.committed ∨ some (image P flash).buffer = l.interrupted

theorem init_commitsEnabled (t : TaskId) (flash : Fin 2 → Partition n) :
    (booted P t flash).commitsEnabled = true := by
  unfold booted init findPartition reinitialize
  simp only
  repeat' (first | split | simp [save_commitsEnabled])

/-- The boot of any flash contents loads the buffer of the image. -/
theorem booted_buffer (hP : P.Involutive) (t : TaskId) (flash : Fin 2 → Partition n) :
    (booted P t flash).cache.buffer = (image P flash).buffer :=
  (init_synced hP (o := InitOutcome.ok n) (fun _ => rfl) ⟨rfl, rfl, rfl, rfl⟩ t flash).2.2.2.1

/-- A commit: on success the stored image is what was asked for, on an error it is
what it was. -/
theorem promised_commit (hP : P.Involutive) (hinj : Set.InjOn P.computeHash bodies)
    {o : SaveOutcome n} (ho : o.Sound P) {t : TaskId} {s : State n} {l : Ledger n}
    (hkept : Kept P bodies (.on s)) (hbody : s.cache.body ∈ bodies)
    (h : Promised P l (.on s)) :
    Promised P (account P l (.commit t o) (.on s)) (.on (commit P t o s).2) := by
  obtain ⟨himage, hcommits⟩ := h
  simp only [account]
  rcases commit_cases P t o s with ⟨-, hsave⟩ | ⟨hoff, -⟩ | ⟨herr, hflash, -, -, -, hon⟩
  · rw [hsave]
    rcases save_sound hP ho hkept.2.1 hkept.1 (hkept.hash hinj hbody) with
      ⟨hok, -, hbuffer, hstored⟩ | ⟨herr, -, -, hrec⟩
    · rw [if_pos hok]
      exact ⟨by rw [hstored, hbuffer], by rw [save_commitsEnabled, hcommits]⟩
    · rw [if_neg herr]
      exact ⟨by rw [image, hrec]; exact himage, by rw [save_commitsEnabled, hcommits]⟩
  · rw [hcommits] at hoff
    cases hoff
  · rw [if_neg herr]
    exact ⟨by rw [hflash, himage], hon hcommits⟩

/-- A commit cut short: the old image or the one it was about to store. -/
theorem promised_commitPowerLoss (hP : P.Involutive) {cut : Cut n} (hcut : cut.Sound P)
    {t : TaskId} {s : State n} {l : Ledger n} (hkept : Kept P bodies (.on s))
    (h : Promised P l (.on s)) :
    Promised P (account P l (.commitPowerLoss t cut) (.on s)) (.off (saveCut P cut s)) := by
  rcases saveCut_sound hP hcut hkept.1.act_eq hkept.1.tag_eq with hrec | hrec
  · left
    have himage : image P (saveCut P cut s) = image P s.flash := by rw [image, image, hrec]
    rw [himage]
    exact h.1
  · right
    have himage : image P (saveCut P cut s) = stamp P s.cache := by rw [image, hrec]
    rw [himage]
    rfl

/-- A boot cut short leaves the buffer the next boot will load. -/
theorem image_initCut (hP : P.Involutive) {cut : Cut n} (hcut : cut.Sound P) (t : TaskId)
    (flash : Fin 2 → Partition n) :
    (image P (initCut P t cut flash)).buffer = (image P flash).buffer := by
  unfold initCut
  cases hr : recovered P flash with
  | some r => rfl
  | none =>
      have himage : image P flash = Partition.filled n 0xff := by rw [image, hr]
      have hactive : active P flash = 0 := by rw [active, hr]
      set s : State n := { lockCache t (powerOn flash) with
        actPartition := some 0, cache := Partition.filled n 0xff } with hs
      have hflash : s.flash = flash := by rw [hs]; simp [powerOn]
      rcases saveCut_sound hP hcut (s := s) (by rw [hflash, hactive]) (by rw [hflash, himage])
        with hrec | hrec
      · rw [hflash] at hrec
        have hsame : image P (saveCut P cut s) = image P flash := by rw [image, image, hrec]
        rw [hsame]
      · have hnew : image P (saveCut P cut s) = stamp P s.cache := by rw [image, hrec]
        rw [hnew, himage]
        rfl

/-- **Step lemma.**  Every sound event keeps the promise of the ledger. -/
theorem step_promised (hP : P.Involutive) (hinj : Set.InjOn P.computeHash bodies) {e : Event n}
    (hcall : e.IsCommitRun) (he : e.Sound cfg P) {d d' : Device n} {l : Ledger n}
    (hstep : step cfg P e d = some d') (hkept : Kept P bodies d)
    (hbody : ∀ b ∈ d.bodies, b ∈ bodies) (h : Promised P l d) :
    Promised P (account P l e d) d' := by
  cases d with
  | off flash =>
      cases e with
      | boot t =>
          cases hstep
          have himage := (init_synced hP (o := InitOutcome.ok n) (fun _ => rfl)
            ⟨rfl, rfl, rfl, rfl⟩ t flash).2.2.1
          exact ⟨by rw [← himage]; rfl, init_commitsEnabled t flash⟩
      | bootPowerLoss t cut =>
          cases hstep
          simp only [Promised, account, image_initCut hP he]
          exact h
      | _ => cases hstep
  | on s =>
      have hcache : s.cache.body ∈ bodies := hbody _ (by simp [Device.bodies])
      obtain rfl := eq_afterEvent_of_step cfg P hstep
      -- Only a commit touches the flash.
      cases e with
      | read t offset size user =>
          show Promised P l (.on (Nvmem.read cfg t offset size user s).2.2)
          unfold Nvmem.read
          split
          · simpa [Promised] using h
          · simpa [Promised] using h
      | write t offset size data user =>
          show Promised P l (.on (Nvmem.write cfg t offset size data user s).2)
          unfold Nvmem.write
          split
          · simpa [Promised] using h
          · simpa [Promised] using h
      | move t src dest size user =>
          show Promised P l (.on (Nvmem.move cfg t src dest size user s).2)
          unfold Nvmem.move
          split
          · simpa [Promised] using h
          · split
            · simpa [Promised] using h
            · simpa [Promised] using h
      | commit t o => exact promised_commit hP hinj he hkept hcache h
      | commitPowerLoss t cut => exact promised_commitPowerLoss hP he hkept h
      | powerLoss => exact Or.inl h.1
      | disableCommits t => exact absurd hcall (by simp [Event.IsCommitRun])
      | enableCommits t o => exact absurd hcall (by simp [Event.IsCommitRun])
      | eraseUserData t user o₀ o₁ => exact absurd hcall (by simp [Event.IsCommitRun])
      | boot t => cases hstep
      | bootPowerLoss t cut => cases hstep

/-- **Run lemma.**  The promise holds wherever a run of sound events ends. -/
theorem exec_promised (hP : P.Involutive) (hinj : Set.InjOn P.computeHash bodies)
    {es : List (Event n)} (hcalls : ∀ e ∈ es, e.IsCommitRun) (hes : ∀ e ∈ es, e.Sound cfg P)
    {d d' : Device n} {l : Ledger n} (hrun : exec cfg P es d = some d')
    (hkept : Kept P bodies d) (hbodies : ∀ b ∈ cacheBodies cfg P es d, b ∈ bodies)
    (h : Promised P l d) : Promised P (accounts cfg P es d l) d' := by
  induction es generalizing d l with
  | nil =>
      cases hrun
      exact h
  | cons e es ih =>
      rw [exec] at hrun
      rw [accounts]
      cases hstep : step cfg P e d with
      | none => rw [hstep] at hrun; cases hrun
      | some d₁ =>
          rw [hstep] at hrun
          have hhere : ∀ b ∈ d.bodies, b ∈ bodies :=
            fun b hb => hbodies b (mem_cacheBodies_of_mem_bodies hb)
          have hrest : ∀ b ∈ cacheBodies cfg P es d₁, b ∈ bodies :=
            fun b hb => hbodies b (mem_cacheBodies_cons hstep hb)
          have hkept₁ : Kept P bodies d₁ :=
            step_kept hP hinj (hes e (by simp)) hstep hkept hhere
              (fun b hb => hrest b (mem_cacheBodies_of_mem_bodies hb))
          have h₁ := step_promised hP hinj (hcalls e (by simp)) (hes e (by simp)) hstep hkept
            hhere h
          exact ih (fun e he => hcalls e (by simp [he])) (fun e he => hes e (by simp [he])) hrun
            hkept₁ hrest h₁

end Proof

/-- **Commits are atomic.**  Start from a boot of any flash contents and let calls,
losses of power and reboots follow in any order and number.  If no accepted write
or move wraps, no `flash_physical_write` reports an error and a torn partition fails
its hash check, every boot loads the last commit that returned success or the one
that was interrupted.  The hash has to be injective on what the run hashes. -/
theorem atomicRun_of_sound (cfg : Config) (P : Platform cfg.bufferSize) (hP : P.Involutive)
    (t₀ : TaskId) (flash : Fin 2 → Partition cfg.bufferSize) (es : List (Event cfg.bufferSize))
    (hcalls : ∀ e ∈ es, e.IsCommitRun) (hes : ∀ e ∈ es, e.Sound cfg P)
    (hinj : Set.InjOn P.computeHash
      { b | b ∈ cacheBodies cfg P es (.on (booted P t₀ flash)) }) :
    AtomicRun cfg P t₀ flash es := by
  intro flash' hrun t
  set bodies : Set Bytes := { b | b ∈ cacheBodies cfg P es (.on (booted P t₀ flash)) }
  have hopen : (booted P t₀ flash).cache.body ∈ bodies :=
    mem_cacheBodies_of_mem_bodies (by simp [Device.bodies])
  have hkept : Kept P bodies (.on (booted P t₀ flash)) := kept_boot hP t₀ flash hopen
  have hstart : Promised P (openingLedger P t₀ flash) (.on (booted P t₀ flash)) := by
    have himage := (init_synced hP (o := InitOutcome.ok cfg.bufferSize) (fun _ => rfl)
      ⟨rfl, rfl, rfl, rfl⟩ t₀ flash).2.2.1
    exact ⟨by rw [booted, ← himage]; rfl, init_commitsEnabled t₀ flash⟩
  have hend := exec_promised hP hinj hcalls hes hrun hkept (fun b hb => hb) hstart
  refine ⟨(init_synced hP (o := InitOutcome.ok cfg.bufferSize) (fun _ => rfl)
    ⟨rfl, rfl, rfl, rfl⟩ t flash').1, ?_⟩
  simp only [booted_buffer hP t flash']
  exact hend

/-- `nvmem_write` accepts eight bytes at offset `2 ^ 32 - 4` of user 0.  The first four
land in the tag: layout version, generation and reserved bytes. -/
def wrappingRun : List (Event 8) :=
  [.write 1 0xfffffffc 8 [0, 0xfe, 0, 0, 1, 2, 3, 4] 0, .commit 1 (SaveOutcome.ok 8), .powerLoss]

/-- The commit returned success, and the next boot loads what was there before. -/
theorem not_atomicRun_wrapping :
    ¬ AtomicRun testConfig testPlatform 0 (fun _ => Partition.erased 8) wrappingRun := by
  intro h
  exact absurd (h _ rfl 0).2 (by decide +kernel)

/-- A sound run on the same board: commits, a torn one, reboots. -/
def soundRun : List (Event 8) :=
  [.write 1 0 4 [1, 2, 3, 4] 0, .commit 1 (SaveOutcome.ok 8), .write 1 0 2 [5, 6] 1,
    .commitPowerLoss 1 (.torn (Partition.erased 8)), .boot 2, .move 2 0 1 2 0,
    .commitPowerLoss 2 .afterWrite]

theorem atomicRun_soundRun :
    AtomicRun testConfig testPlatform 0 (fun _ => Partition.erased 8) soundRun := by
  have hcalls : ∀ e ∈ soundRun, e.IsCommitRun := by
    simp only [soundRun, List.forall_mem_cons]
    exact ⟨trivial, trivial, trivial, trivial, trivial, trivial, trivial, by simp⟩
  have hes : ∀ e ∈ soundRun, e.Sound testConfig testPlatform := by
    have htorn : ¬ Valid testPlatform (Partition.erased 8) := by decide +kernel
    have hok : (SaveOutcome.ok 8).Sound testPlatform :=
      ⟨rfl, rfl, rfl, fun p hp => absurd hp (by simp [SaveOutcome.ok])⟩
    simp only [soundRun, List.forall_mem_cons]
    exact ⟨fun _ => by decide, hok, fun _ => by decide, htorn, trivial, fun _ => by decide,
      trivial, by simp⟩
  have hdistinct : ∀ a ∈ cacheBodies testConfig testPlatform soundRun
      (.on (booted testPlatform 0 fun _ => Partition.erased 8)),
      ∀ b ∈ cacheBodies testConfig testPlatform soundRun
        (.on (booted testPlatform 0 fun _ => Partition.erased 8)),
      testPlatform.computeHash a = testPlatform.computeHash b → a = b := by
    decide +kernel
  exact atomicRun_of_sound testConfig testPlatform testPlatform_involutive 0 _ soundRun hcalls hes
    (fun a ha b hb => hdistinct a ha b hb)

end Nvmem
end CrosEc
