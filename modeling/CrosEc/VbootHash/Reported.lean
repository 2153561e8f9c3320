import CrosEc.VbootHash.Model

/-!
# A reported hash is the hash of the flash

While a computation is in progress and nobody wants it aborted, what has been hashed is the nonce
and the beginning of the range, as it is in the flash now (`Inv`).  A write while a computation is
in progress asks for its abort, and a write after it invalidates the hash if it may touch the range.
-/

namespace CrosEc
namespace VbootHash

open Lib

variable {b : Build} {s s' : State} {e : Event}

/-! ## Ranges of the flash -/

theorem flashRange_add (flash : Nat → UInt8) (offset m n : Nat) :
    flashRange flash offset (m + n) =
      flashRange flash offset m ++ flashRange flash (offset + m) n := by
  rw [flashRange, flashRange, flashRange, ← List.map_append, ← List.range'_append, one_mul]

theorem flashRange_congr {flash flash' : Nat → UInt8} {offset size : Nat}
    (h : ∀ i, offset ≤ i → i < offset + size → flash' i = flash i) :
    flashRange flash' offset size = flashRange flash offset size := by
  apply List.map_congr_left
  intro i hi
  obtain ⟨hlow, hhigh⟩ := List.mem_range'_1.mp hi
  exact h i hlow hhigh

theorem addInt_of_lt {a c : Int} (hlow : 0 ≤ a + c) (hhigh : a + c < 2147483648) :
    addInt a c = a + c := by
  rw [addInt, Int.bmod_def]
  omega

theorem addUint_of_lt {a c : Nat} (h : a + c < 4294967296) : addUint a c = a + c :=
  Nat.mod_eq_of_lt h

/-! ## The invariant -/

structure Inv (b : Build) (s : State) : Prop where
  /-- a hash is of a range inside the flash -/
  range : s.inProgress = true ∨ s.hash.isSome = true → s.dataOffset + s.dataSize ≤ b.flashSize
  /-- a valid hash is complete, and of the present contents -/
  hash : ∀ digest, s.hash = some digest → s.inProgress = false ∧
    digest = b.sha256 (s.nonce ++ flashRange s.flash s.dataOffset s.dataSize)
  /-- what has been hashed of a computation that nobody wants aborted -/
  ctx : s.inProgress = true → s.wantAbort = false → s.currPos ≤ s.dataSize ∧
    s.ctx = s.nonce ++ flashRange s.flash s.dataOffset s.currPos
  /-- the deferred function is called for a computation in progress -/
  pending : s.pending = true → s.inProgress = true

theorem inv_boot (flash : Nat → UInt8) : Inv b (State.boot flash) where
  range := by simp [State.boot]
  hash := by simp [State.boot]
  ctx := by simp [State.boot]
  pending := by simp [State.boot]

/-- No hash, and nothing in progress. -/
theorem Inv.of_none (hprogress : s.inProgress = false) (hhash : s.hash = none)
    (hpending : s.pending = false) : Inv b s where
  range := by simp [hprogress, hhash]
  hash := by simp [hhash]
  ctx := by simp [hprogress]
  pending := by simp [hpending]

theorem Inv.hash_none (h : Inv b s) (hprogress : s.inProgress = true) : s.hash = none := by
  cases hhash : s.hash with
  | none => rfl
  | some digest =>
      rw [(h.hash digest hhash).1] at hprogress
      cases hprogress

theorem Inv.abort (h : Inv b s) : Inv b s.abort := by
  unfold State.abort
  by_cases hprogress : s.inProgress = true
  · rw [if_pos hprogress]
    exact {
      range := h.range
      hash := h.hash
      ctx := by simp
      pending := h.pending }
  · rw [if_neg hprogress]
    exact Inv.of_none (Bool.eq_false_iff.mpr hprogress) rfl
      (Bool.eq_false_iff.mpr fun hpending => hprogress (h.pending hpending))

/-- The deferred function is called: nothing is pending. -/
theorem Inv.called (h : Inv b s) : Inv b { s with pending := false } :=
  ⟨h.range, h.hash, h.ctx, by simp⟩

/-! ### The computation -/

theorem Inv.start (h : Inv b s) (offset size : Nat) (nonce : Bytes) (nonceSize : Int) :
    Inv b (s.start b offset size nonce nonceSize).2 := by
  unfold State.start
  by_cases hprogress : s.inProgress = true
  · rw [if_pos hprogress]
    exact h
  rw [if_neg hprogress]
  by_cases hinval : b.flashSize < offset ∨ b.flashSize < size ∨
      b.flashSize < addUint offset size ∨ nonceSize < 0
  · rw [if_pos hinval]
    exact h
  rw [if_neg hinval]
  have hsize := b.flashSize_le
  have hsum : addUint offset size = offset + size := addUint_of_lt (by omega)
  exact {
    range := fun _ => by
      change offset + size ≤ b.flashSize
      omega
    hash := by simp
    ctx := fun _ _ => ⟨Nat.zero_le _, by simp [flashRange]⟩
    pending := fun _ => rfl }

/-- A chunk can be hashed, now or later: the storage is mapped, or there is nothing to read, or the
buffer is busy, or it is there and the flash can be read. -/
def ChunkGoesOn (b : Build) (io : ChunkIo) (size : Nat) : Prop :=
  b.mappedStorage = true ∨ size = 0 ∨ io.acquire = ecErrorBusy ∨
    (io.acquire = ecSuccess ∧ io.read = ecSuccess)

/-- A chunk is hashed, or is not and is tried again, or the computation is to be aborted. -/
theorem hashChunk_cases (b : Build) (io : ChunkIo) (offset size : Nat) (s : State) :
    (ChunkGoesOn b io size ∧ s.hashChunk b io offset size =
        (ecSuccess, { s with ctx := s.ctx ++ flashRange s.flash offset size })) ∨
      (ChunkGoesOn b io size ∧
        s.hashChunk b io offset size = (ecErrorBusy, { s with pending := true })) ∨
      ∃ rv, rv ≠ ecSuccess ∧ ¬ ChunkGoesOn b io size ∧
        s.hashChunk b io offset size = (rv, s.abort) := by
  unfold State.hashChunk State.readAndHashChunk
  by_cases hmapped : b.mappedStorage = true
  · rw [if_pos hmapped]
    exact .inl ⟨.inl hmapped, rfl⟩
  rw [if_neg hmapped]
  by_cases hsize : size = 0
  · rw [if_pos hsize, hsize]
    exact .inl ⟨.inr (.inl rfl), by simp [flashRange]⟩
  rw [if_neg hsize]
  by_cases hbusy : io.acquire = ecErrorBusy
  · rw [if_pos hbusy]
    exact .inr (.inl ⟨.inr (.inr (.inl hbusy)), by rw [hbusy]⟩)
  rw [if_neg hbusy]
  by_cases hacquire : io.acquire ≠ ecSuccess
  · rw [if_pos hacquire]
    refine .inr (.inr ⟨io.acquire, hacquire, ?_, rfl⟩)
    simp [ChunkGoesOn, hmapped, hsize, hbusy, hacquire]
  rw [if_neg hacquire]
  by_cases hread : io.read = ecSuccess
  · rw [if_pos hread]
    exact .inl ⟨.inr (.inr (.inr ⟨not_not.mp hacquire, hread⟩)), by rw [hread]⟩
  · rw [if_neg hread]
    refine .inr (.inr ⟨io.read, hread, ?_, rfl⟩)
    simp [ChunkGoesOn, hmapped, hsize, hbusy, hread]

/-- A chunk of a computation in progress. -/
theorem Inv.nextChunk (h : Inv b s) (hprogress : s.inProgress = true)
    (hpending : s.pending = false) (io : ChunkIo) : Inv b (s.nextChunk b io) := by
  unfold State.nextChunk
  by_cases habort : s.wantAbort = true
  · rw [if_pos habort]
    exact Inv.of_none rfl rfl hpending
  rw [if_neg habort]
  have hwant : s.wantAbort = false := Bool.eq_false_iff.mpr habort
  obtain ⟨hpos, hctx⟩ := h.ctx hprogress hwant
  have hnext : s.currPos + min chunkSize (s.dataSize - s.currPos) ≤ s.dataSize := by omega
  dsimp only
  generalize min chunkSize (s.dataSize - s.currPos) = size at hnext
  rcases hashChunk_cases b io (s.dataOffset + s.currPos) size s with
    ⟨-, hchunk⟩ | ⟨-, hchunk⟩ | ⟨rv, hrv, -, hchunk⟩
  · rw [hchunk]
    dsimp only
    rw [if_neg (by decide)]
    have hhashed : s.ctx ++ flashRange s.flash (s.dataOffset + s.currPos) size =
        s.nonce ++ flashRange s.flash s.dataOffset (s.currPos + size) := by
      rw [hctx, flashRange_add, List.append_assoc]
    by_cases hlast : s.dataSize ≤ s.currPos + size
    · rw [if_pos hlast, if_neg habort]
      have hall : s.currPos + size = s.dataSize := by omega
      exact {
        range := fun _ => h.range (.inl hprogress)
        hash := by
          intro digest hdigest
          refine ⟨rfl, ?_⟩
          rw [← Option.some.inj hdigest, hhashed, hall]
        ctx := by simp
        pending := by simp [hpending] }
    · rw [if_neg hlast]
      exact {
        range := fun _ => h.range (.inl hprogress)
        hash := by simp [h.hash_none hprogress]
        ctx := fun _ _ => ⟨hnext, hhashed⟩
        pending := fun _ => hprogress }
  · rw [hchunk]
    exact ⟨h.range, h.hash, h.ctx, fun _ => hprogress⟩
  · rw [hchunk]
    dsimp only
    rw [if_pos hrv]
    exact h.abort

/-! ### The flash -/

/-- What a physical operation leaves alone. -/
theorem physical_flash_eq {offset size : Int} {p : Physical} {i : Nat}
    (h : (i : Int) < offset ∨ offset + size ≤ i ∨ offset < 0 ∨ size < 0 ∨
      b.flashSize < offset + size) : (s.physical b offset size p).2.flash i = s.flash i := by
  simp only [State.physical]
  rw [if_neg (by omega)]

/-- The hash is of a range that the operation does not touch. -/
theorem Inv.physical_of_untouched (h : Inv b s) {offset size : Int} {p : Physical}
    (hprogress : s.inProgress = true → s.wantAbort = true)
    (huntouched : s.hash.isSome = true → ∀ i, s.dataOffset ≤ i → i < s.dataOffset + s.dataSize →
      (s.physical b offset size p).2.flash i = s.flash i) :
    Inv b (s.physical b offset size p).2 where
  range := h.range
  hash := by
    intro digest hdigest
    change s.hash = some digest at hdigest
    obtain ⟨hidle, hdone⟩ := h.hash digest hdigest
    refine ⟨hidle, ?_⟩
    rw [hdone]
    exact congrArg (fun bytes => b.sha256 (s.nonce ++ bytes))
      (flashRange_congr (huntouched (by rw [hdigest]; rfl))).symm
  ctx := by
    intro hin hwant
    change s.wantAbort = false at hwant
    rw [hprogress hin] at hwant
    cases hwant
  pending := h.pending

theorem abort_inProgress (s : State) : s.abort.inProgress = s.inProgress := by
  unfold State.abort
  split_ifs <;> rfl

/-- **A write or an erase.** It asks for an abort, or it invalidates a hash of its range. -/
theorem Inv.operation (h : Inv b s) (offset size : Int) (p : Physical) :
    Inv b ((s.abortOrInvalidateHash offset size).physical b offset size p).2 := by
  have hflashSize := b.flashSize_le
  unfold State.abortOrInvalidateHash
  by_cases hprogress : s.inProgress = true
  · rw [if_pos hprogress]
    refine h.abort.physical_of_untouched (fun _ => ?_) ?_
    · simp [State.abort, hprogress]
    · simp [State.abort, hprogress, h.hash_none hprogress]
  rw [if_neg hprogress]
  have hidle : ∀ t : State, t.inProgress = s.inProgress →
      t.inProgress = true → t.wantAbort = true := fun t heq ht => absurd (heq ▸ ht) hprogress
  unfold State.invalidate
  by_cases hregion : offset < 0 ∨ size ≤ 0 ∨ addInt offset size < 0
  · rw [if_pos hregion]
    refine h.physical_of_untouched (hidle s rfl) ?_
    intro _ i _ _
    apply physical_flash_eq
    by_contra hnot
    have hsum : addInt offset size = offset + size := addInt_of_lt (by lia) (by lia)
    lia
  rw [if_neg hregion]
  by_cases hnone : s.hash.isNone = true
  · rw [if_pos hnone]
    refine h.physical_of_untouched (hidle s rfl) ?_
    intro hsome
    rw [Option.isNone_iff_eq_none.mp hnone] at hsome
    cases hsome
  rw [if_neg hnone]
  have hrange := h.range (.inr (by simpa [Option.isSome_iff_ne_none] using hnone))
  by_cases hoverlap : 0 < s.dataSize ∧
      (addInt offset size ≤ s.dataOffset ∨ addUint s.dataOffset s.dataSize ≤ offset)
  · rw [if_pos hoverlap]
    refine h.physical_of_untouched (hidle s rfl) ?_
    intro _ i hlow hhigh
    apply physical_flash_eq
    by_contra hnot
    have hsum : addInt offset size = offset + size := addInt_of_lt (by lia) (by lia)
    have hend : addUint s.dataOffset s.dataSize = s.dataOffset + s.dataSize :=
      addUint_of_lt (by lia)
    lia
  · rw [if_neg hoverlap]
    refine h.abort.physical_of_untouched (hidle s.abort (abort_inProgress s)) ?_
    simp [State.abort, hprogress]

/-! ### The host command -/

theorem Inv.hostStartHash (h : Inv b s) (m : Images) (p : Params) :
    Inv b (s.hostStartHash b m p).2 := by
  unfold State.hostStartHash
  by_cases htype : p.hashType ≠ typeSha256
  · rw [if_pos htype]
    exact h
  rw [if_neg htype]
  by_cases hnonce : 64 < p.nonceSize
  · rw [if_pos hnonce]
    exact h
  · rw [if_neg hnonce]
    exact h.start _ _ _ _

theorem Inv.runDeferred (h : Inv b s) (hpending : s.pending = true) (io : ChunkIo) :
    Inv b (s.runDeferred b io) :=
  h.called.nextChunk (h.pending hpending) rfl io

/-- The wait, chunk by chunk. -/
theorem Inv.wait (h : Inv b s) {ios : List ChunkIo} (hwait : s.wait b ios = some s') :
    Inv b s' := by
  induction ios generalizing s with
  | nil =>
      unfold State.wait at hwait
      by_cases hprogress : s.inProgress = true
      · rw [if_pos hprogress] at hwait
        cases hwait
      · rw [if_neg hprogress] at hwait
        exact Option.some.inj hwait ▸ h
  | cons io ios ih =>
      unfold State.wait at hwait
      by_cases hprogress : s.inProgress = true
      · rw [if_pos hprogress] at hwait
        dsimp only at hwait
        by_cases hpending : s.pending = true
        · rw [if_pos hpending] at hwait
          exact ih (h.runDeferred hpending io) hwait
        · rw [if_neg hpending] at hwait
          cases hwait
      · rw [if_neg hprogress] at hwait
        exact Option.some.inj hwait ▸ h

theorem hashChunk_nonce (io : ChunkIo) (offset size : Nat) (s : State) :
    (s.hashChunk b io offset size).2.nonce = s.nonce := by
  rcases hashChunk_cases b io offset size s with ⟨-, hchunk⟩ | ⟨-, hchunk⟩ | ⟨rv, -, -, hchunk⟩
  · rw [hchunk]
  · rw [hchunk]
  · rw [hchunk]
    unfold State.abort
    split_ifs <;> rfl

theorem runDeferred_nonce (io : ChunkIo) (s : State) : (s.runDeferred b io).nonce = s.nonce := by
  unfold State.runDeferred State.nextChunk State.abort
  dsimp only
  split_ifs <;> first
    | rfl
    | exact hashChunk_nonce io _ _ _

/-- The wait is for the computation that has been started. -/
theorem wait_nonce {ios : List ChunkIo} (hwait : s.wait b ios = some s') : s'.nonce = s.nonce := by
  induction ios generalizing s with
  | nil =>
      simp only [State.wait, Option.ite_none_left_eq_some, Option.some.injEq] at hwait
      obtain ⟨-, rfl⟩ := hwait
      rfl
  | cons io ios ih =>
      unfold State.wait at hwait
      dsimp only at hwait
      split_ifs at hwait
      · rw [ih hwait, runDeferred_nonce]
      · obtain rfl := Option.some.inj hwait
        rfl

theorem start_nonce {offset size : Nat} {nonce : Bytes} {nonceSize : Int}
    (h : (s.start b offset size nonce nonceSize).1 = ecSuccess) :
    (s.start b offset size nonce nonceSize).2.nonce = readBytes nonceSize.toNat nonce := by
  have hbusy : ecErrorBusy ≠ ecSuccess := by decide
  have hinval : ecErrorInval ≠ ecSuccess := by decide
  unfold State.start at h ⊢
  split_ifs at h ⊢
  · exact absurd h hbusy
  · exact absurd h hinval
  · rfl

/-- A request that is accepted leaves its nonce. -/
theorem hostStartHash_nonce {m : Images} {p : Params}
    (h : (s.hostStartHash b m p).1 = ecResSuccess) :
    (s.hostStartHash b m p).2.nonce = readBytes p.nonceSize p.nonceData.1 := by
  have hinval : ecResInvalidParam ≠ ecResSuccess := by decide
  have herror : ecResError ≠ ecResSuccess := by decide
  unfold State.hostStartHash at h ⊢
  by_cases htype : p.hashType ≠ typeSha256
  · rw [if_pos htype] at h
    exact absurd h hinval
  rw [if_neg htype] at h ⊢
  by_cases hnonce : 64 < p.nonceSize
  · rw [if_pos hnonce] at h
    exact absurd h hinval
  rw [if_neg hnonce] at h ⊢
  dsimp only at h ⊢
  by_cases hstart : (s.start b (m.getOffset p.offset) (m.getSize p) p.nonceData.1
      p.nonceSize).1 = ecSuccess
  · exact start_nonce hstart
  · rw [if_neg hstart, ite_eq_iff] at h
    obtain ⟨-, h⟩ | ⟨-, h⟩ := h
    · exact absurd h hinval
    · exact absurd h herror

/-- What a host command answers, and from which state. -/
theorem hostCommand_cases {m : Images} {p : Params} {r : Response} {ios : List ChunkIo} {rv : Code}
    {answer : Option Response} (h : Inv b s)
    (hcommand : s.hostCommand b m p r ios = some (rv, answer, s')) :
    Inv b s' ∧ ∀ r', answer = some r' → (∃ offset, r' = s'.fillResponse m r offset) ∧
      (p.cmd = .start ∨ p.cmd = .recalc → s'.nonce = readBytes p.nonceSize p.nonceData.1) := by
  unfold State.hostCommand at hcommand
  cases hcmd : p.cmd with
  | get =>
      simp only [hcmd, Option.some.injEq, Prod.mk.injEq] at hcommand
      obtain ⟨-, rfl, rfl⟩ := hcommand
      exact ⟨h, fun r' hr => ⟨⟨_, (Option.some.inj hr).symm⟩, by simp⟩⟩
  | abort =>
      simp only [hcmd, Option.some.injEq, Prod.mk.injEq] at hcommand
      obtain ⟨-, rfl, rfl⟩ := hcommand
      exact ⟨h.abort, fun r' hr => by cases hr⟩
  | other =>
      simp only [hcmd, Option.some.injEq, Prod.mk.injEq] at hcommand
      obtain ⟨-, rfl, rfl⟩ := hcommand
      exact ⟨h, fun r' hr => by cases hr⟩
  | start =>
      simp only [hcmd] at hcommand
      have hstart := h.hostStartHash m p
      by_cases hrv : (s.hostStartHash b m p).1 ≠ ecResSuccess
      · rw [if_pos hrv, Option.some.injEq, Prod.mk.injEq, Prod.mk.injEq] at hcommand
        obtain ⟨-, rfl, rfl⟩ := hcommand
        exact ⟨hstart, fun r' hr => by cases hr⟩
      · rw [if_neg hrv, Option.some.injEq, Prod.mk.injEq, Prod.mk.injEq] at hcommand
        obtain ⟨-, rfl, rfl⟩ := hcommand
        exact ⟨hstart, fun r' hr => ⟨⟨_, (Option.some.inj hr).symm⟩,
          fun _ => hostStartHash_nonce (not_not.mp hrv)⟩⟩
  | recalc =>
      simp only [hcmd] at hcommand
      have hstart := h.hostStartHash m p
      by_cases hrv : (s.hostStartHash b m p).1 ≠ ecResSuccess
      · rw [if_pos hrv, Option.some.injEq, Prod.mk.injEq, Prod.mk.injEq] at hcommand
        obtain ⟨-, rfl, rfl⟩ := hcommand
        exact ⟨hstart, fun r' hr => by cases hr⟩
      · rw [if_neg hrv, Option.map_eq_some_iff] at hcommand
        obtain ⟨s₁, hwait, heq⟩ := hcommand
        simp only [Prod.mk.injEq] at heq
        obtain ⟨-, rfl, rfl⟩ := heq
        exact ⟨hstart.wait hwait, fun r' hr => ⟨⟨_, (Option.some.inj hr).symm⟩,
          fun _ => (wait_nonce hwait).trans (hostStartHash_nonce (not_not.mp hrv))⟩⟩

/-! ## Runs -/

/-- **Step lemma.** -/
theorem inv_step (h : Inv b s) (hstep : step b s e = some s') : Inv b s' := by
  cases e with
  | start offset size nonce nonceSize =>
      obtain rfl := Option.some.inj hstep
      exact h.start offset size nonce nonceSize
  | abort =>
      obtain rfl := Option.some.inj hstep
      exact h.abort
  | write offset size p =>
      obtain rfl := Option.some.inj hstep
      unfold State.flashWrite
      split_ifs
      · exact h.operation offset size p
      · exact h
  | erase offset size p =>
      obtain rfl := Option.some.inj hstep
      unfold State.flashErase
      split_ifs
      · exact h.operation offset size p
      · exact h
  | deferred io =>
      simp only [step, Option.ite_none_right_eq_some, Option.some.injEq] at hstep
      obtain ⟨hpending, rfl⟩ := hstep
      exact h.runDeferred hpending io
  | host m p r ios =>
      obtain ⟨answer, hcommand, rfl⟩ := Option.map_eq_some_iff.mp hstep
      exact (hostCommand_cases h hcommand).1

theorem inv_of_reachable {flash : Nat → UInt8}
    (h : Reachable (step b) anyEvent (State.boot flash) s) : Inv b s :=
  h.invariant (Inv b) (inv_boot flash) fun _ _ _ hinv _ hstep => inv_step hinv hstep

/-- The digest of a response that says that the hash is done. -/
theorem Inv.digest_of_done (h : Inv b s) {m : Images} {r : Response} {offset : Nat}
    (hdone : (s.fillResponse m r offset).status = statusDone) :
    (s.fillResponse m r offset).hashDigest.1.take digestSize =
      (b.sha256 (s.nonce ++ flashRange s.flash (s.fillResponse m r offset).offset
        (s.fillResponse m r offset).size)).1 := by
  unfold State.fillResponse at hdone ⊢
  by_cases hprogress : s.inProgress = true
  · rw [if_pos hprogress] at hdone
    cases hdone
  rw [if_neg hprogress] at hdone ⊢
  cases hhash : s.hash with
  | none =>
      simp only [hhash] at hdone
      cases hdone
  | some digest =>
      simp only [hhash] at hdone ⊢
      by_cases hsame : m.getOffset offset = s.dataOffset ∧ s.wantAbort = false
      · rw [if_pos hsame]
        have hlen : digest.1.length = digestSize := digest.2
        have htake := @take_drop_writeAt_self r.hashDigest.1 digest.1 0 (by
          rw [hlen, r.hashDigest.2]
          decide)
        rw [List.drop_zero, hlen] at htake
        exact htake.trans (congrArg Subtype.val (h.hash digest hhash).2)
      · rw [if_neg hsame] at hdone
        cases hdone

/-- **A reported hash is the hash of the flash.** Whatever happened before, when a host command
answers that the hash of a range is done, the digest is that of the nonce of the request and of the
range as it is in the flash. -/
theorem vboot_hash_reported {flash : Nat → UInt8}
    (h : Reachable (step b) anyEvent (State.boot flash) s) {m : Images} {p : Params}
    {r r' : Response} {ios : List ChunkIo} {rv : Code}
    (hcommand : s.hostCommand b m p r ios = some (rv, some r', s'))
    (hdone : r'.status = statusDone) :
    r'.hashDigest.1.take digestSize =
        (b.sha256 (s'.nonce ++ flashRange s'.flash r'.offset r'.size)).1 ∧
      (p.cmd = .start ∨ p.cmd = .recalc → s'.nonce = readBytes p.nonceSize p.nonceData.1) := by
  obtain ⟨hinv, hfill⟩ := hostCommand_cases (inv_of_reachable h) hcommand
  obtain ⟨⟨offset, rfl⟩, hnonce⟩ := hfill r' rfl
  exact ⟨hinv.digest_of_done hdone, hnonce⟩

/-! ## A concrete run -/

/-- Two kilobytes of flash, and a checksum for the digest. -/
def testBuild (mappedStorage : Bool) : Build where
  flashSize := 2048
  flashSize_le := by decide
  flashWriteSize := 4
  flashEraseSize := 1024
  mappedStorage := mappedStorage
  multipleRegion := false
  sha256 := checksum 32

def testImages : Images := ⟨0, 1024, 1024, 6, 8⟩

/-- A request about six bytes of the RO image, with a nonce of two bytes. -/
def testParams (cmd : HashCmd) : Params where
  cmd := cmd
  hashType := typeSha256
  nonceSize := 2
  offset := offsetRo
  size := 0
  nonceData := Arr.replicate 64 0xa5

def testResponse : Response := ⟨0, 0, 0, 0, 0, 0, Arr.replicate 64 0⟩

/-- The hash of the RO image, before and after a write to it. -/
theorem vboot_hash_reported_run :
    ∃ s s' r', Reachable (step (testBuild false)) anyEvent (State.boot fun i => UInt8.ofNat i) s ∧
      s.hostCommand (testBuild false) testImages (testParams .recalc) testResponse
        [⟨ecErrorBusy, ecSuccess⟩, ⟨ecSuccess, ecSuccess⟩] = some (ecResSuccess, some r', s') ∧
      r'.status = statusDone ∧ r'.hashDigest.1.take digestSize =
        ((testBuild false).sha256 (s'.nonce ++ flashRange s'.flash r'.offset r'.size)).1 := by
  obtain ⟨s, hrun, hdone⟩ : ∃ s, Reachable (step (testBuild false)) anyEvent
      (State.boot fun i => UInt8.ofNat i) s ∧
        ((s.hostCommand (testBuild false) testImages (testParams .recalc) testResponse
          [⟨ecErrorBusy, ecSuccess⟩, ⟨ecSuccess, ecSuccess⟩]).any fun answer =>
            answer.1 = ecResSuccess && answer.2.1.any fun r' => r'.status = statusDone) = true :=
    Reachable.exists_of_runEvents
      [.start 0 6 [1] 1, .deferred ⟨ecSuccess, ecSuccess⟩, .write 4 4 ⟨ecSuccess, fun _ => 0x77⟩]
      (by decide +kernel)
  obtain ⟨⟨rv, answer, s'⟩, hcommand, hanswer⟩ := (Option.any_eq_true _ _).mp hdone
  simp only [Bool.and_eq_true, decide_eq_true_eq] at hanswer
  obtain ⟨rfl, hsome⟩ := hanswer
  obtain ⟨r', rfl, hstatus⟩ := (Option.any_eq_true _ _).mp hsome
  have hdone := of_decide_eq_true hstatus
  exact ⟨s, s', r', hrun, hcommand, hdone, (vboot_hash_reported hrun hcommand hdone).1⟩

end VbootHash
end CrosEc
