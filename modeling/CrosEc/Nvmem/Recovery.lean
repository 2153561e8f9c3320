import CrosEc.Nvmem.Model

/-!
# What a boot finds in flash

`nvmem_find_partition` looks at the partition with the newer generation first and
takes the first one whose hash checks.  `recovered` is that choice as a function of
the flash contents alone, `image` the partition it puts into the cache.

`Synced` is the relation between cache and flash that the module keeps between
calls: the active partition is the one a boot would choose, and the cache differs
from its image in the buffer only.  One lemma says what a successful `nvmem_save`
does from a synced state (`save_synced`), one what a boot does (`init_synced`).
-/

namespace CrosEc
namespace Nvmem

open Lib

variable {n : Nat} (P : Platform n)

/-! ## Validity of a flash partition -/

/-- The deciphered partition carries its own hash. -/
def Valid (p : Partition n) : Prop :=
  (cipherBuffer P p).tag.sha = computeSha P (cipherBuffer P p)

instance (p : Partition n) : Decidable (Valid P p) :=
  inferInstanceAs (Decidable (_ = _))

/-- The documented behaviour of `app_cipher`: the same salt deciphers. -/
def Platform.Involutive : Prop := ∀ salt buf, P.cipher salt (P.cipher salt buf) = buf

variable {P}

theorem cipherBuffer_cipherBuffer (hP : P.Involutive) (p : Partition n) :
    cipherBuffer P (cipherBuffer P p) = p := by
  simp [cipherBuffer, hP p.tag.sha p.buffer]

@[simp] theorem cipherBuffer_tag (p : Partition n) : (cipherBuffer P p).tag = p.tag := rfl

@[simp] theorem stamp_buffer (p : Partition n) : (stamp P p).buffer = p.buffer := rfl

@[simp] theorem stamp_generation (p : Partition n) :
    (stamp P p).tag.generation = p.tag.generation + 1 := rfl

/-- The hash does not cover the hash field. -/
theorem stamp_sha (p : Partition n) : (stamp P p).tag.sha = computeSha P (stamp P p) := rfl

theorem valid_cipherBuffer_stamp (hP : P.Involutive) (p : Partition n) :
    Valid P (cipherBuffer P (stamp P p)) := by
  rw [Valid, cipherBuffer_cipherBuffer hP]
  exact stamp_sha p

/-- Partitions with equal tags and equal hashed bytes have equal buffers. -/
theorem buffer_eq_of_body_eq {p q : Partition n} (htag : p.tag = q.tag) (hbody : p.body = q.body) :
    p.buffer = q.buffer := by
  unfold Partition.body at hbody
  rw [htag] at hbody
  exact Subtype.ext (List.append_cancel_left hbody)

variable (P)

/-! ## The choice made at boot -/

/-- The partition that `nvmem_find_partition` selects, and its deciphered contents. -/
def recovered (flash : Fin 2 → Partition n) : Option (Fin 2 × Partition n) :=
  let newest := compareGeneration flash
  if Valid P (flash newest) then some (newest, cipherBuffer P (flash newest))
  else if Valid P (flash (newest + 1)) then
    some (newest + 1, cipherBuffer P (flash (newest + 1)))
  else none

/-- The active partition after a boot, before any later save. -/
def active (flash : Fin 2 → Partition n) : Fin 2 :=
  match recovered P flash with
  | some r => r.1
  | none => 0

/-- The contents a boot loads: those of the chosen partition, or all `0xff`. -/
def image (flash : Fin 2 → Partition n) : Partition n :=
  match recovered P flash with
  | some r => r.2
  | none => Partition.filled n 0xff

variable {P}

theorem fin2_cases (p q : Fin 2) : p = q ∨ p = q + 1 := by
  revert p q
  decide

theorem fin2_add_one_ne (p : Fin 2) : p + 1 ≠ p := by
  revert p
  decide

theorem fin2_add_two (p : Fin 2) : p + 1 + 1 = p := by
  revert p
  decide

theorem recovered_eq_none_iff {flash : Fin 2 → Partition n} :
    recovered P flash = none ↔ ∀ p, ¬ Valid P (flash p) := by
  unfold recovered
  constructor
  · intro h p
    by_cases hnew : Valid P (flash (compareGeneration flash))
    · simp [hnew] at h
    · by_cases hold : Valid P (flash (compareGeneration flash + 1))
      · simp [hnew, hold] at h
      · rcases fin2_cases p (compareGeneration flash) with rfl | rfl
        · exact hnew
        · exact hold
  · intro h
    simp [h]

theorem recovered_some {flash : Fin 2 → Partition n} {a : Fin 2} {p : Partition n}
    (h : recovered P flash = some (a, p)) : Valid P (flash a) ∧ p = cipherBuffer P (flash a) := by
  unfold recovered at h
  by_cases hnew : Valid P (flash (compareGeneration flash))
  · simp only [hnew, if_true, Option.some.injEq, Prod.mk.injEq] at h
    obtain ⟨rfl, rfl⟩ := h
    exact ⟨hnew, rfl⟩
  · by_cases hold : Valid P (flash (compareGeneration flash + 1))
    · simp only [hnew, hold, if_true, if_false, Option.some.injEq, Prod.mk.injEq] at h
      obtain ⟨rfl, rfl⟩ := h
      exact ⟨hold, rfl⟩
    · simp [hnew, hold] at h

/-- The newer of two partitions is chosen if it is valid. -/
theorem recovered_of_newest {flash : Fin 2 → Partition n}
    (hvalid : Valid P (flash (compareGeneration flash))) :
    recovered P flash =
      some (compareGeneration flash, cipherBuffer P (flash (compareGeneration flash))) := by
  simp [recovered, hvalid]

/-- The only valid partition is chosen, whatever the generations say. -/
theorem recovered_of_unique {flash : Fin 2 → Partition n} {a : Fin 2} (hvalid : Valid P (flash a))
    (hother : ¬ Valid P (flash (a + 1))) :
    recovered P flash = some (a, cipherBuffer P (flash a)) := by
  unfold recovered
  rcases fin2_cases (compareGeneration flash) a with heq | heq
  · simp [heq, hvalid]
  · simp [heq, hother, fin2_add_two, hvalid]

/-- A generation one ahead is the newer one, also across the wrap. -/
theorem compareGeneration_of_succ {flash : Fin 2 → Partition n} {a : Fin 2}
    (h : (flash a).tag.generation = (flash (a + 1)).tag.generation + 1) :
    compareGeneration flash = a := by
  have hnat : (flash a).tag.generation.toNat =
      ((flash (a + 1)).tag.generation.toNat + 1) % 256 := by
    rw [h, UInt8.toNat_add]
    rfl
  have hlt := (flash (a + 1)).tag.generation.toNat_lt
  unfold compareGeneration
  revert hnat hlt
  match a with
  | 0 =>
      intro hnat hlt
      simp only [Fin.isValue, zero_add] at hnat hlt
      rw [if_pos (by lia)]
  | 1 =>
      intro hnat hlt
      simp only [Fin.isValue, Fin.reduceAdd] at hnat hlt
      rw [if_neg (by lia)]

/-! ## Cache and flash in step -/

/-- The relation between cache and flash that holds between calls.  The third
clause only says something when a boot found no valid partition and
`nvmem_reinitialize` had nothing to write. -/
structure Synced (P : Platform n) (s : State n) : Prop where
  act_eq : s.actPartition = some (active P s.flash)
  tag_eq : s.cache.tag = (image P s.flash).tag
  hashed : (image P s.flash).tag.sha = computeSha P (image P s.flash)

/-- The chosen partition, if it is valid, holds the generation of the image. -/
theorem active_generation {flash : Fin 2 → Partition n} (hvalid : Valid P (flash (active P flash))) :
    (flash (active P flash)).tag.generation = (image P flash).tag.generation := by
  unfold active image at *
  cases hr : recovered P flash with
  | none =>
      rw [hr] at hvalid
      exact absurd hvalid (recovered_eq_none_iff.mp hr _)
  | some r =>
      have hp := (recovered_some (a := r.1) (p := r.2) hr).2
      simp only [hp, cipherBuffer_tag]

/-- A new image with the next generation in the other partition is what the next
boot finds. -/
theorem recovered_update_stamp (hP : P.Involutive) {flash : Fin 2 → Partition n} {p : Partition n}
    (htag : p.tag = (image P flash).tag) :
    recovered P (Function.update flash (active P flash + 1) (cipherBuffer P (stamp P p))) =
      some (active P flash + 1, stamp P p) := by
  set a := active P flash with ha
  set flash' := Function.update flash (a + 1) (cipherBuffer P (stamp P p)) with hflash'
  have hnew : flash' (a + 1) = cipherBuffer P (stamp P p) := by
    rw [hflash', Function.update_self]
  have hold : flash' (a + 1 + 1) = flash a := by
    rw [fin2_add_two, hflash', Function.update_of_ne (fin2_add_one_ne a).symm]
  have hvalid : Valid P (flash' (a + 1)) := by
    rw [hnew]
    exact valid_cipherBuffer_stamp hP p
  have hchoice : recovered P flash' = some (a + 1, cipherBuffer P (flash' (a + 1))) := by
    by_cases hother : Valid P (flash' (a + 1 + 1))
    · have hgen : (flash' (a + 1)).tag.generation = (flash' (a + 1 + 1)).tag.generation + 1 := by
        rw [hnew, hold, cipherBuffer_tag, stamp_generation, htag,
          ← active_generation (by rwa [hold] at hother)]
      have hcmp := compareGeneration_of_succ hgen
      have hnewest : Valid P (flash' (compareGeneration flash')) := by rwa [hcmp]
      have hrecovered := recovered_of_newest hnewest
      rwa [hcmp] at hrecovered
    · exact recovered_of_unique hvalid hother
  rw [hchoice, hnew, cipherBuffer_cipherBuffer hP]

/-- Invalidating the inactive partition does not change what a boot finds. -/
theorem recovered_update_invalid {flash : Fin 2 → Partition n} {p : Partition n}
    (hbad : ¬ Valid P p) :
    recovered P (Function.update flash (active P flash + 1) p) = recovered P flash := by
  have hother : Function.update flash (active P flash + 1) p (active P flash) =
      flash (active P flash) := Function.update_of_ne (fin2_add_one_ne _).symm _ _
  cases hr : recovered P flash with
  | none =>
      rw [recovered_eq_none_iff] at hr ⊢
      intro q
      by_cases hq : q = active P flash + 1
      · rw [hq, Function.update_self]
        exact hbad
      · rw [Function.update_of_ne hq]
        exact hr q
  | some r =>
      obtain ⟨a, q⟩ := r
      have hact : active P flash = a := by rw [active, hr]
      obtain ⟨hvalid, rfl⟩ := recovered_some hr
      rw [hact] at hother ⊢
      rw [recovered_of_unique (a := a) (by rwa [hother]) (by rwa [Function.update_self]), hother]

/-! ## Saving from a synced state -/

@[simp] theorem releaseCache_flash (s : State n) : (releaseCache s).flash = s.flash := by
  unfold releaseCache; split <;> rfl

@[simp] theorem releaseCache_cache (s : State n) : (releaseCache s).cache = s.cache := by
  unfold releaseCache; split <;> rfl

@[simp] theorem releaseCache_actPartition (s : State n) :
    (releaseCache s).actPartition = s.actPartition := by
  unfold releaseCache; split <;> rfl

@[simp] theorem releaseCache_ladderEnabled (s : State n) :
    (releaseCache s).ladderEnabled = s.ladderEnabled := by
  unfold releaseCache; split <;> rfl

@[simp] theorem releaseCache_commitsEnabled (s : State n) :
    (releaseCache s).commitsEnabled = s.commitsEnabled := by
  unfold releaseCache; split <;> rfl

@[simp] theorem releaseAfterSave_flash (s : State n) : (releaseAfterSave s).flash = s.flash := by
  simp [releaseAfterSave]

@[simp] theorem releaseAfterSave_cache (s : State n) : (releaseAfterSave s).cache = s.cache := by
  simp [releaseAfterSave]

@[simp] theorem releaseAfterSave_actPartition (s : State n) :
    (releaseAfterSave s).actPartition = s.actPartition := by
  simp [releaseAfterSave]

@[simp] theorem releaseAfterSave_ladderEnabled (s : State n) :
    (releaseAfterSave s).ladderEnabled = s.ladderEnabled := by
  simp [releaseAfterSave]

@[simp] theorem releaseAfterSave_commitsEnabled (s : State n) :
    (releaseAfterSave s).commitsEnabled = s.commitsEnabled := by
  simp [releaseAfterSave]

@[simp] theorem lockCache_flash (t : TaskId) (s : State n) : (lockCache t s).flash = s.flash := by
  unfold lockCache; split <;> rfl

@[simp] theorem lockCache_cache (t : TaskId) (s : State n) : (lockCache t s).cache = s.cache := by
  unfold lockCache; split <;> rfl

@[simp] theorem lockCache_actPartition (t : TaskId) (s : State n) :
    (lockCache t s).actPartition = s.actPartition := by
  unfold lockCache; split <;> rfl

@[simp] theorem lockCache_ladderEnabled (t : TaskId) (s : State n) :
    (lockCache t s).ladderEnabled = s.ladderEnabled := by
  unfold lockCache; split <;> rfl

@[simp] theorem lockCache_commitsEnabled (t : TaskId) (s : State n) :
    (lockCache t s).commitsEnabled = s.commitsEnabled := by
  unfold lockCache; split <;> rfl

@[simp] theorem lockCache_mutexTask (t : TaskId) (s : State n) :
    (lockCache t s).mutexTask = some t := by
  unfold lockCache
  split <;> simp_all

@[simp] theorem lockCache_writeInProgress (t : TaskId) (s : State n) :
    (lockCache t s).writeInProgress = s.writeInProgress := by
  unfold lockCache
  split <;> rfl

@[simp] theorem lockCache_writeError (t : TaskId) (s : State n) :
    (lockCache t s).writeError = s.writeError := by
  unfold lockCache
  split <;> rfl

@[simp] theorem releaseCache_writeInProgress (s : State n) :
    (releaseCache s).writeInProgress = s.writeInProgress := by
  unfold releaseCache
  split <;> rfl

@[simp] theorem releaseCache_writeError (s : State n) :
    (releaseCache s).writeError = s.writeError := by
  unfold releaseCache
  split <;> rfl

/-- `nvmem_save` has nothing to do. -/
theorem save_unchanged {o : SaveOutcome n} {s : State n}
    (hsame : s.cache.tag.sha = computeSha P s.cache) :
    save P o s = (ecSuccess, releaseAfterSave s) := by
  unfold save
  simp [hsame]

/-- `nvmem_save` writes the cache, with a new stamp, to the inactive partition. -/
theorem save_changed (hP : P.Involutive) {o : SaveOutcome n} (ho : o.Succeeds) {s : State n}
    (hladder : s.ladderEnabled = true) (hdiff : s.cache.tag.sha ≠ computeSha P s.cache) :
    save P o s = (ecSuccess, releaseAfterSave
      { s with
        flash := Function.update s.flash (destPartition s.actPartition)
          (cipherBuffer P (stamp P s.cache))
        cache := stamp P s.cache
        actPartition := some (destPartition s.actPartition) }) := by
  obtain ⟨herase, henc, hwrite, hdec⟩ := ho
  unfold save
  simp [hladder, hdiff, herase, henc, hwrite, hdec, cipherBuffer_cipherBuffer hP]

/-- With every flash and cipher operation a save succeeds. -/
theorem save_succeeds {o : SaveOutcome n} (ho : o.Succeeds) (s : State n) :
    (save P o s).1 = ecSuccess := by
  obtain ⟨herase, hencipher, hwrite, hdecipher⟩ := ho
  unfold save
  split
  · rfl
  · split
    · rfl
    · simp [herase, hencipher, hwrite, hdecipher]

/-- A save that returns success leaves the users' bytes in the cache. -/
theorem save_success_buffer (hP : P.Involutive) {o : SaveOutcome n} {s : State n}
    (h : (save P o s).1 = ecSuccess) : (save P o s).2.cache.buffer = s.cache.buffer := by
  by_cases hladder : s.ladderEnabled = false
  · simp [save, hladder]
  · by_cases hsame : s.cache.tag.sha = computeSha P s.cache
    · rw [save_unchanged hsame, releaseAfterSave_cache]
    · have hon : s.ladderEnabled = true := by simpa using hladder
      have ho : o.Succeeds := by
        unfold save at h
        rw [if_neg hladder, if_neg hsame] at h
        simp only at h
        split at h
        · exact absurd h (by assumption)
        · split at h
          · cases h
          · split at h
            · exact absurd h (by assumption)
            · split at h
              · cases h
              · simp_all [SaveOutcome.Succeeds]
      rw [save_changed hP ho hon hsame]
      simp

/-- Cache and flash depend on each other through these three fields only. -/
theorem Synced.congr {s s' : State n} (h : Synced P s) (hflash : s'.flash = s.flash)
    (htag : s'.cache.tag = s.cache.tag) (hact : s'.actPartition = s.actPartition) :
    Synced P s' where
  act_eq := by rw [hact, hflash, h.act_eq]
  tag_eq := by rw [htag, hflash, h.tag_eq]
  hashed := by rw [hflash, h.hashed]

/-- A state whose cache is the stamped image just written is synced. -/
theorem synced_of_recovered {s : State n} {a : Fin 2} {p : Partition n}
    (hr : recovered P s.flash = some (a, stamp P p)) (hcache : s.cache = stamp P p)
    (hact : s.actPartition = some a) : Synced P s := by
  have himage : image P s.flash = stamp P p := by rw [image, hr]
  have hactive : active P s.flash = a := by rw [active, hr]
  exact ⟨by rw [hact, hactive], by rw [hcache, himage], by rw [himage, stamp_sha]⟩

/-- **A successful save.**  From a synced state a save whose operations succeed
keeps the users' bytes, makes them what the next boot loads and ends synced.  The
hash is only asked to tell the cache from the stored image. -/
theorem save_synced (hP : P.Involutive) {o : SaveOutcome n} (ho : o.Succeeds) {s : State n}
    (hladder : s.ladderEnabled = true) (hsync : Synced P s)
    (hhash : computeSha P s.cache = computeSha P (image P s.flash) →
      s.cache.body = (image P s.flash).body) :
    (save P o s).1 = ecSuccess ∧ Synced P (save P o s).2 ∧
      (save P o s).2.cache.buffer = s.cache.buffer ∧
      image P (save P o s).2.flash = (save P o s).2.cache := by
  by_cases hsame : s.cache.tag.sha = computeSha P s.cache
  · -- The hash says that nothing changed, so the stored image is the cache.
    rw [save_unchanged hsame]
    have hbody : s.cache.body = (image P s.flash).body := by
      apply hhash
      rw [← hsame, hsync.tag_eq, hsync.hashed]
    have hbuffer := buffer_eq_of_body_eq hsync.tag_eq hbody
    refine ⟨rfl, hsync.congr ?_ ?_ ?_, ?_, ?_⟩
    · simp
    · simp
    · simp
    · simp
    · rw [releaseAfterSave_flash, releaseAfterSave_cache]
      cases hc : s.cache with
      | mk tag buffer =>
          have htag := hsync.tag_eq
          rw [hc] at htag hbuffer
          cases hi : image P s.flash with
          | mk tag' buffer' =>
              rw [hi] at htag hbuffer
              simp only at htag hbuffer
              rw [htag, hbuffer]
  · rw [save_changed hP ho hladder hsame]
    have hdest : destPartition s.actPartition = active P s.flash + 1 := by
      rw [hsync.act_eq]
      rfl
    have hr := recovered_update_stamp hP hsync.tag_eq
    rw [hdest]
    refine ⟨rfl, synced_of_recovered (a := active P s.flash + 1) (p := s.cache) ?_ ?_ ?_, ?_, ?_⟩
    · rw [releaseAfterSave_flash]
      exact hr
    · simp
    · simp
    · simp
    · rw [releaseAfterSave_flash, releaseAfterSave_cache]
      simp only [image, hr]

/-! ## Booting -/

theorem partitionReadVerify_ok (p : Partition n) :
    partitionReadVerify P true p =
      (if Valid P p then ecSuccess else ecErrorUnknown, cipherBuffer P p) := rfl

theorem ecErrorUnknown_ne : ecErrorUnknown ≠ ecSuccess := by decide

/-- With a valid partition in flash, `nvmem_find_partition` loads it. -/
theorem findPartition_some {t : TaskId} {o : InitOutcome n} (ho : ∀ p, o.decipher p = true)
    {s : State n} {a : Fin 2} {p : Partition n} (hr : recovered P s.flash = some (a, p)) :
    findPartition P t o s = (ecSuccess, { s with cache := p, actPartition := some a }) := by
  unfold findPartition
  simp only [ho, partitionReadVerify_ok]
  unfold recovered at hr
  by_cases hnew : Valid P (s.flash (compareGeneration s.flash))
  · simp only [hnew, if_true, Option.some.injEq, Prod.mk.injEq] at hr ⊢
    obtain ⟨rfl, rfl⟩ := hr
    simp
  · by_cases hold : Valid P (s.flash (compareGeneration s.flash + 1))
    · simp only [hnew, hold, if_true, if_false, Option.some.injEq, Prod.mk.injEq] at hr ⊢
      obtain ⟨rfl, rfl⟩ := hr
      simp [ecErrorUnknown_ne]
    · simp [hnew, hold] at hr

/-- Without one it starts over. -/
theorem findPartition_none {t : TaskId} {o : InitOutcome n} (ho : ∀ p, o.decipher p = true)
    {s : State n} (hr : recovered P s.flash = none) :
    findPartition P t o s =
      (if (save P o.save { lockCache t s with
            actPartition := some 0, cache := Partition.filled n 0xff }).1 ≠ ecSuccess
        then ecErrorUnknown else ecSuccess,
       (save P o.save { lockCache t s with
            actPartition := some 0, cache := Partition.filled n 0xff }).2) := by
  have hbad := recovered_eq_none_iff.mp hr
  unfold findPartition reinitialize
  have hlock : ∀ c a, ({ lockCache t { s with cache := c, actPartition := a } with
      actPartition := some 0, cache := Partition.filled n 0xff } : State n) =
        { lockCache t s with actPartition := some 0, cache := Partition.filled n 0xff } := by
    intro c a
    unfold lockCache
    simp only
    split <;> rfl
  simp only [ho, partitionReadVerify_ok, hbad, if_false, ecErrorUnknown_ne]
  rw [hlock]
  split <;> rfl

/-- What a boot from `flash` is to achieve. -/
structure Booted (P : Platform n) (flash : Fin 2 → Partition n) (r : Code × State n) : Prop where
  code : r.1 = ecSuccess
  synced : Synced P r.2
  cache_eq : r.2.cache = image P r.2.flash
  buffer_eq : r.2.cache.buffer = (image P flash).buffer
  ladder : r.2.ladderEnabled = true

/-- The state in which `nvmem_init` looks for a partition. -/
def searching (flash : Fin 2 → Partition n) : State n :=
  { powerOn flash with errorState := ecSuccess, writeError := false, commitsEnabled := true }

theorem init_eq_of_findPartition {t : TaskId} {o : InitOutcome n} {flash : Fin 2 → Partition n}
    {s : State n} (h : findPartition P t o (searching flash) = (ecSuccess, s)) :
    init P t o (powerOn flash) = (ecSuccess, s) := by
  have hinit : init P t o (powerOn flash) =
      if (findPartition P t o (searching flash)).1 ≠ ecSuccess then
        ((findPartition P t o (searching flash)).1,
          { (findPartition P t o (searching flash)).2 with
            errorState := (findPartition P t o (searching flash)).1 })
      else (ecSuccess, (findPartition P t o (searching flash)).2) := rfl
  rw [hinit, h]
  simp

/-- A boot with a valid partition in flash. -/
theorem booted_of_recovered {o : InitOutcome n} (ho : ∀ p, o.decipher p = true) (t : TaskId)
    {flash : Fin 2 → Partition n} {a : Fin 2} {p : Partition n}
    (hr : recovered P flash = some (a, p)) : Booted P flash (init P t o (powerOn flash)) := by
  have himage : image P flash = p := by rw [image, hr]
  have hactive : active P flash = a := by rw [active, hr]
  rw [init_eq_of_findPartition (findPartition_some ho hr)]
  refine ⟨rfl, ⟨?_, ?_, ?_⟩, ?_, ?_, rfl⟩
  · show some a = some (active P flash)
    rw [hactive]
  · show p.tag = (image P flash).tag
    rw [himage]
  · show (image P flash).tag.sha = computeSha P (image P flash)
    obtain ⟨hvalid, hp⟩ := recovered_some hr
    rw [himage, hp]
    exact hvalid
  · show p = image P flash
    rw [himage]
  · show p.buffer = (image P flash).buffer
    rw [himage]

/-- The state in which `nvmem_reinitialize` saves the erased image. -/
def erased (t : TaskId) (flash : Fin 2 → Partition n) : State n :=
  { lockCache t (searching flash) with
    actPartition := some 0, cache := Partition.filled n 0xff }

@[simp] theorem erased_flash (t : TaskId) (flash : Fin 2 → Partition n) :
    (erased t flash).flash = flash := by
  simp [erased, searching, powerOn]

@[simp] theorem erased_ladderEnabled (t : TaskId) (flash : Fin 2 → Partition n) :
    (erased t flash).ladderEnabled = true := by
  simp [erased, searching, powerOn]

/-- A boot without one, where the erased image hashes to itself: nothing is written. -/
theorem booted_of_unchanged {o : InitOutcome n} (ho : ∀ p, o.decipher p = true) (t : TaskId)
    {flash : Fin 2 → Partition n} (hr : recovered P flash = none)
    (hsame : (erased t flash).cache.tag.sha = computeSha P (erased t flash).cache) :
    Booted P flash (init P t o (powerOn flash)) := by
  have himage : image P flash = Partition.filled n 0xff := by rw [image, hr]
  have hactive : active P flash = 0 := by rw [active, hr]
  have hfind := findPartition_none (t := t) ho (s := searching flash) hr
  rw [← erased, save_unchanged hsame] at hfind
  rw [init_eq_of_findPartition hfind]
  refine ⟨rfl, ⟨?_, ?_, ?_⟩, ?_, ?_, ?_⟩
  · rw [releaseAfterSave_flash, erased_flash, hactive, releaseAfterSave_actPartition]
    rfl
  · rw [releaseAfterSave_flash, erased_flash, himage, releaseAfterSave_cache]
    rfl
  · rw [releaseAfterSave_flash, erased_flash, himage]
    exact hsame
  · rw [releaseAfterSave_flash, erased_flash, himage, releaseAfterSave_cache]
    rfl
  · rw [releaseAfterSave_cache, himage]
    rfl
  · rw [releaseAfterSave_ladderEnabled, erased_ladderEnabled]

/-- A boot without one, where the erased image is stored. -/
theorem booted_of_changed (hP : P.Involutive) {o : InitOutcome n}
    (ho : ∀ p, o.decipher p = true) (hsave : o.save.Succeeds) (t : TaskId)
    {flash : Fin 2 → Partition n} (hr : recovered P flash = none)
    (hnew : (erased t flash).cache.tag.sha ≠ computeSha P (erased t flash).cache) :
    Booted P flash (init P t o (powerOn flash)) := by
  have himage : image P flash = Partition.filled n 0xff := by rw [image, hr]
  have hactive : active P flash = 0 := by rw [active, hr]
  have hfind := findPartition_none (t := t) ho (s := searching flash) hr
  rw [← erased, save_changed hP hsave (erased_ladderEnabled t flash) hnew] at hfind
  rw [init_eq_of_findPartition hfind]
  have hstored : recovered P (Function.update (erased t flash).flash
      (destPartition (erased t flash).actPartition)
        (cipherBuffer P (stamp P (erased t flash).cache))) =
      some (1, stamp P (Partition.filled n 0xff)) := by
    have htag : (Partition.filled n 0xff).tag = (image P flash).tag := by rw [himage]
    have hstamp := recovered_update_stamp hP htag
    rw [hactive] at hstamp
    rw [erased_flash]
    exact hstamp
  refine ⟨rfl, ?_, ?_, ?_, ?_⟩
  · exact synced_of_recovered (a := 1) (p := Partition.filled n 0xff)
      (by rw [releaseAfterSave_flash]; exact hstored) (by rw [releaseAfterSave_cache]; rfl)
      (by rw [releaseAfterSave_actPartition]; rfl)
  · rw [releaseAfterSave_flash, releaseAfterSave_cache, image, hstored]
    rfl
  · rw [releaseAfterSave_cache, himage]
    rfl
  · rw [releaseAfterSave_ladderEnabled, erased_ladderEnabled]

/-- **A boot.**  `nvmem_init` after a reset, with all operations succeeding, loads
the recovered contents and ends synced. -/
theorem init_synced (hP : P.Involutive) {o : InitOutcome n} (ho : ∀ p, o.decipher p = true)
    (hsave : o.save.Succeeds) (t : TaskId) (flash : Fin 2 → Partition n) :
    (init P t o (powerOn flash)).1 = ecSuccess ∧
      Synced P (init P t o (powerOn flash)).2 ∧
      (init P t o (powerOn flash)).2.cache = image P (init P t o (powerOn flash)).2.flash ∧
      (init P t o (powerOn flash)).2.cache.buffer = (image P flash).buffer ∧
      (init P t o (powerOn flash)).2.ladderEnabled = true := by
  have hbooted : Booted P flash (init P t o (powerOn flash)) := by
    cases hr : recovered P flash with
    | some r => exact booted_of_recovered ho t hr
    | none =>
        by_cases hsame : (erased t flash).cache.tag.sha = computeSha P (erased t flash).cache
        · exact booted_of_unchanged ho t hr hsame
        · exact booted_of_changed hP ho hsave t hr hsame
  exact ⟨hbooted.code, hbooted.synced, hbooted.cache_eq, hbooted.buffer_eq, hbooted.ladder⟩

end Nvmem
end CrosEc
