import CrosEc.Nvmem.Runs
import CrosEc.Nvmem.Atomicity

/-!
# `nvmem_erase_user_data`

The loop of `nvmem_erase_user_data` runs once for each flash partition and sets the
generation to the loop counter, "so that all flash partitions are written".  But
`nvmem_save` increments the generation it stores, so after the first pass it is 1,
the second pass sets it to 1 again, nothing has changed, and the save is skipped.

`eraseUserData_spec` says what the two passes do together: exactly one partition,
the inactive one, is rewritten.  Whether the erasure reaches every valid image then
depends on the other partition alone (`eraseUserData_erases_iff`).
-/

namespace CrosEc
namespace Nvmem

open Lib

section Regions

variable (cfg : Config)

/-- The bytes of `user`. -/
def region (user : Nat) (buffer : Bytes) : Bytes :=
  (buffer.drop (regionStart cfg user)).take (cfg.userSizes.getD user 0)

/-- Every byte of `user` is `0xff`. -/
def RegionErased {n : Nat} (user : Nat) (p : Partition n) : Prop :=
  region cfg user p.buffer.val = List.replicate (cfg.userSizes.getD user 0) 0xff

instance {n : Nat} (user : Nat) (p : Partition n) : Decidable (RegionErased cfg user p) :=
  inferInstanceAs (Decidable (_ = _))

variable {cfg}

/-- The region of an earlier user ends where the next one starts, or before. -/
theorem regionStart_add_le_regionStart {first second len : Nat}
    (h : cfg.userSizes[first]? = some len) (hlt : first < second) :
    regionStart cfg first + len ≤ regionStart cfg second := by
  obtain ⟨hbound, rfl⟩ := List.getElem?_eq_some_iff.mp h
  have hstep : regionStart cfg first + cfg.userSizes[first] =
      (cfg.userSizes.take (first + 1)).sum := by
    rw [regionStart, List.take_succ_eq_append_getElem hbound, List.sum_append, List.sum_singleton]
  have hsplit : (cfg.userSizes.take second).sum =
      (cfg.userSizes.take (first + 1)).sum +
        ((cfg.userSizes.take second).drop (first + 1)).sum := by
    have := List.sum_take_add_sum_drop (cfg.userSizes.take second) (first + 1)
    rw [List.take_take, Nat.min_eq_left (by omega)] at this
    omega
  rw [hstep, regionStart, hsplit]
  omega

variable {user size : Nat}

theorem eraseRegion_erased (p : Partition cfg.bufferSize) (huser : cfg.userSizes[user]? = some size) :
    RegionErased cfg user (p.eraseRegion cfg user size) := by
  have hfits := regionStart_add_le huser
  have hsize : cfg.userSizes.getD user 0 = size := by
    rw [List.getD_eq_getElem?_getD, huser, Option.getD_some]
  have hroom : regionStart cfg user + (List.replicate size (0xff : UInt8)).length ≤
      p.buffer.val.length := by
    rw [List.length_replicate, p.buffer.property]
    exact hfits
  have hwrite := take_drop_writeAt_self p.buffer.val (List.replicate size 0xff) hroom
  rw [List.length_replicate] at hwrite
  rw [RegionErased, region, hsize]
  exact hwrite

theorem eraseRegion_other (p : Partition cfg.bufferSize) (huser : cfg.userSizes[user]? = some size)
    {other : Nat} (hother : other ≠ user) :
    region cfg other (p.eraseRegion cfg user size).buffer.val = region cfg other p.buffer.val := by
  unfold region
  cases hlen : cfg.userSizes[other]? with
  | none =>
      have hzero : cfg.userSizes.getD other 0 = 0 := by
        rw [List.getD_eq_getElem?_getD, hlen, Option.getD_none]
      rw [hzero, List.take_zero, List.take_zero]
  | some len =>
      have hsize : cfg.userSizes.getD other 0 = len := by
        rw [List.getD_eq_getElem?_getD, hlen, Option.getD_some]
      have hfits := regionStart_add_le huser
      rw [hsize]
      refine take_drop_writeAt_disjoint ?_ ?_
      · rw [List.length_replicate, p.buffer.property]
        exact hfits
      · rw [List.length_replicate]
        rcases Nat.lt_or_gt_of_ne hother with hlt | hgt
        · exact Or.inl (regionStart_add_le_regionStart hlen hlt)
        · exact Or.inr (regionStart_add_le_regionStart huser hgt)

theorem eraseRegion_buffer_idem (p : Partition cfg.bufferSize)
    (huser : cfg.userSizes[user]? = some size) {q : Partition cfg.bufferSize}
    (hq : q.buffer = (p.eraseRegion cfg user size).buffer) :
    (q.eraseRegion cfg user size).buffer = q.buffer := by
  apply Subtype.ext
  simp only [Partition.eraseRegion, hq]
  refine writeAt_writeAt_self ?_
  rw [List.length_replicate, p.buffer.property]
  exact regionStart_add_le huser

end Regions

/-! ## The two passes -/

section Passes

variable {cfg : Config} {P : Platform cfg.bufferSize}

/-- The cache that one pass hands to `nvmem_save`. -/
def erasedCache (cfg : Config) {n : Nat} (user size : Nat) (part : UInt8) (p : Partition n) :
    Partition n :=
  let erased := p.eraseRegion cfg user size
  { erased with tag := { erased.tag with generation := part } }

theorem erasePass_eq (t : TaskId) (user size : Nat) (part : UInt8)
    (o : SaveOutcome cfg.bufferSize) (s : State cfg.bufferSize) :
    erasePass P cfg t user size part o s =
      save P o { lockCache t s with cache := erasedCache cfg user size part s.cache } := by
  unfold erasePass erasedCache
  simp only [lockCache_cache]

/-- The hash tells the two generations of the erased cache apart. -/
def HashTellsPasses (cfg : Config) (P : Platform cfg.bufferSize) (user size : Nat)
    (p : Partition cfg.bufferSize) : Prop :=
  computeSha P (erasedCache cfg user size 0 p) ≠ computeSha P (erasedCache cfg user size 1 p)

section OnePass

variable {t : TaskId} {user size : Nat} {part : UInt8} {o : SaveOutcome cfg.bufferSize}
  {s : State cfg.bufferSize}

/-- A pass that finds the hash it would store writes nothing. -/
theorem erasePass_unchanged
    (hsame : (erasedCache cfg user size part s.cache).tag.sha =
      computeSha P (erasedCache cfg user size part s.cache)) :
    ∃ s', erasePass P cfg t user size part o s = (ecSuccess, s') ∧
      s'.cache = erasedCache cfg user size part s.cache ∧ s'.flash = s.flash ∧
      s'.actPartition = s.actPartition ∧ s'.ladderEnabled = s.ladderEnabled := by
  have hsave : erasePass P cfg t user size part o s = (ecSuccess, releaseAfterSave
      { lockCache t s with cache := erasedCache cfg user size part s.cache }) := by
    rw [erasePass_eq]
    exact save_unchanged hsame
  exact ⟨_, hsave, by simp, by simp, by simp, by simp⟩

/-- Any other pass writes the erased cache, with a new stamp, to the inactive partition. -/
theorem erasePass_changed (hP : P.Involutive) (ho : o.Succeeds) (hladder : s.ladderEnabled = true)
    (hdiff : (erasedCache cfg user size part s.cache).tag.sha ≠
      computeSha P (erasedCache cfg user size part s.cache)) :
    ∃ s', erasePass P cfg t user size part o s = (ecSuccess, s') ∧
      s'.cache = stamp P (erasedCache cfg user size part s.cache) ∧
      s'.flash = Function.update s.flash (destPartition s.actPartition)
        (cipherBuffer P (stamp P (erasedCache cfg user size part s.cache))) ∧
      s'.actPartition = some (destPartition s.actPartition) := by
  have hlocked : (lockCache t s).ladderEnabled = true := by simp [hladder]
  have hsave := save_changed (s := { lockCache t s with
    cache := erasedCache cfg user size part s.cache }) hP ho hlocked hdiff
  rw [← erasePass_eq] at hsave
  exact ⟨_, hsave, by simp, by simp, by simp⟩

end OnePass

/-- **What the two passes do.**  The inactive partition receives a stamped image of
the erased cache and becomes the active one; the other partition is not touched. -/
theorem eraseUserData_spec (hP : P.Involutive) {t : TaskId} {user size : Nat}
    {o₀ o₁ : SaveOutcome cfg.bufferSize} (ho₀ : o₀.Succeeds) (ho₁ : o₁.Succeeds)
    {s : State cfg.bufferSize} (hladder : s.ladderEnabled = true)
    (huser : cfg.userSizes[user]? = some size) (hhash : HashTellsPasses cfg P user size s.cache) :
    ∃ c : Partition cfg.bufferSize,
      c.tag.sha = computeSha P c ∧ c.buffer = (s.cache.eraseRegion cfg user size).buffer ∧
      (eraseUserData P cfg t user o₀ o₁ s).1 = ecSuccess ∧
      (eraseUserData P cfg t user o₀ o₁ s).2.flash =
        Function.update s.flash (destPartition s.actPartition) (cipherBuffer P c) ∧
      (eraseUserData P cfg t user o₀ o₁ s).2.actPartition =
        some (destPartition s.actPartition) := by
  have herase : eraseUserData P cfg t user o₀ o₁ s =
      let r₀ := erasePass P cfg t user size 0 o₀ s
      let r₁ := erasePass P cfg t user size 1 o₁ r₀.2
      (if r₁.1 ≠ ecSuccess then r₁.1 else r₀.1, r₁.2) := by
    unfold eraseUserData
    rw [huser]
  rw [herase]
  set c₀ := erasedCache cfg user size 0 s.cache with hc₀
  by_cases hsame : c₀.tag.sha = computeSha P c₀
  · -- The first pass finds nothing to write; the second one writes generation 2.
    obtain ⟨s₀, hpass₀, hcache₀, hflash₀, hact₀, hladder₀⟩ :=
      erasePass_unchanged (t := t) (o := o₀) hsame
    set c₁ := erasedCache cfg user size 1 s₀.cache with hc₁
    have hbuffer₁ : c₁.buffer = c₀.buffer := by
      rw [hc₁, hcache₀]
      exact eraseRegion_buffer_idem s.cache huser rfl
    have hc₁' : c₁ = erasedCache cfg user size 1 s.cache := by
      have heta : c₁ = ⟨c₁.tag, c₁.buffer⟩ := rfl
      rw [heta, hbuffer₁, hc₁, hcache₀]
      rfl
    -- the tag is that of the first pass, and the hash tells the two passes apart
    have hdiff : c₁.tag.sha ≠ computeSha P c₁ := by
      intro heq
      apply hhash
      rw [← hc₁', ← heq, ← hc₀, ← hsame, hc₁, hcache₀]
      rfl
    obtain ⟨s₁, hpass₁, -, hflash₁, hact₁⟩ :=
      erasePass_changed (t := t) hP ho₁ (hladder₀.trans hladder) hdiff
    simp only [hpass₀, hpass₁]
    refine ⟨stamp P c₁, stamp_sha c₁, ?_, by simp, ?_, ?_⟩
    · rw [stamp_buffer, hbuffer₁]
      rfl
    · rw [hflash₁, hflash₀, hact₀]
    · rw [hact₁, hact₀]
  · -- The first pass writes generation 1, and that is what the second one asks for.
    obtain ⟨s₀, hpass₀, hcache₀, hflash₀, hact₀⟩ :=
      erasePass_changed (t := t) hP ho₀ hladder hsame
    have hagain : erasedCache cfg user size 1 s₀.cache = stamp P c₀ := by
      have hbuf : ((stamp P c₀).eraseRegion cfg user size).buffer = (stamp P c₀).buffer :=
        eraseRegion_buffer_idem s.cache huser (by rw [stamp_buffer]; rfl)
      rw [hcache₀, ← hc₀, erasedCache]
      simp only
      rw [hbuf]
      rfl
    obtain ⟨s₁, hpass₁, -, hflash₁, hact₁, -⟩ :=
      erasePass_unchanged (t := t) (o := o₁) (hagain.symm ▸ stamp_sha c₀)
    simp only [hpass₀, hpass₁]
    refine ⟨stamp P c₀, stamp_sha c₀, by rw [stamp_buffer]; rfl, by simp, ?_, ?_⟩
    · rw [hflash₁, hflash₀]
    · rw [hact₁, hact₀]

/-- What the function promises once it has returned success: no valid image in flash
holds a byte of the user, the other users' bytes are those of the cache before the
call in the active image, and a reboot finds the region erased. -/
def EraseReached (cfg : Config) (P : Platform cfg.bufferSize) (user : Nat)
    (s s' : State cfg.bufferSize) : Prop :=
  (∀ p, Valid P (s'.flash p) → RegionErased cfg user (cipherBuffer P (s'.flash p))) ∧
    (∀ a, s'.actPartition = some a → ∀ other, other ≠ user →
      region cfg other (cipherBuffer P (s'.flash a)).buffer.val =
        region cfg other s.cache.buffer.val) ∧
    ∀ t, RegionErased cfg user (booted P t s'.flash).cache

/-- A valid image is found by a boot whenever there is one. -/
theorem image_of_valid {flash : Fin 2 → Partition cfg.bufferSize} {q : Fin 2}
    (hq : Valid P (flash q)) :
    ∃ p, Valid P (flash p) ∧ image P flash = cipherBuffer P (flash p) := by
  cases hr : recovered P flash with
  | none => exact absurd hq (recovered_eq_none_iff.mp hr q)
  | some r =>
      obtain ⟨hvalid, hp⟩ := recovered_some (a := r.1) (p := r.2) hr
      exact ⟨r.1, hvalid, by rw [image, hr]; exact hp⟩

end Passes

/-- **When an erasure reaches every image.**  For every state, with all flash and
cipher operations succeeding (so the key ladder is enabled), the function keeps its
promise exactly if the partition it does not rewrite, the one active before the
call, is invalid or holds nothing of the user already. -/
theorem eraseUserData_erases_iff (cfg : Config) (P : Platform cfg.bufferSize) (hP : P.Involutive)
    (t : TaskId) (user size : Nat) (o₀ o₁ : SaveOutcome cfg.bufferSize) (ho₀ : o₀.Succeeds)
    (ho₁ : o₁.Succeeds) (s : State cfg.bufferSize) (hladder : s.ladderEnabled = true)
    (huser : cfg.userSizes[user]? = some size) (hhash : HashTellsPasses cfg P user size s.cache) :
    ((eraseUserData P cfg t user o₀ o₁ s).1 = ecSuccess →
        EraseReached cfg P user s (eraseUserData P cfg t user o₀ o₁ s).2) ↔
      (Valid P (s.flash (destPartition s.actPartition + 1)) →
        RegionErased cfg user (cipherBuffer P (s.flash (destPartition s.actPartition + 1)))) := by
  obtain ⟨c, hsha, hbuffer, hok, hflash, hact⟩ :=
    eraseUserData_spec hP (t := t) ho₀ ho₁ hladder huser hhash
  set s' := (eraseUserData P cfg t user o₀ o₁ s).2
  set dest := destPartition s.actPartition
  have hdest : s'.flash dest = cipherBuffer P c := by rw [hflash, Function.update_self]
  have hother : s'.flash (dest + 1) = s.flash (dest + 1) := by
    rw [hflash, Function.update_of_ne (fin2_add_one_ne dest)]
  have hcopy : cipherBuffer P (s'.flash dest) = c := by rw [hdest, cipherBuffer_cipherBuffer hP]
  have hvalid : Valid P (s'.flash dest) := by
    rw [Valid, hcopy]
    exact hsha
  have herased : RegionErased cfg user c := by
    rw [RegionErased, hbuffer]
    exact eraseRegion_erased s.cache huser
  constructor
  · intro h hold
    rw [← hother] at hold ⊢
    exact (h hok).1 _ hold
  · intro hold _
    have hall : ∀ p, Valid P (s'.flash p) → RegionErased cfg user (cipherBuffer P (s'.flash p)) := by
      intro p hp
      rcases fin2_cases p dest with rfl | rfl
      · rw [hcopy]
        exact herased
      · rw [hother] at hp ⊢
        exact hold hp
    refine ⟨hall, ?_, ?_⟩
    · intro a ha other hne
      rw [hact] at ha
      cases ha
      rw [hcopy, hbuffer]
      exact eraseRegion_other s.cache huser hne
    · intro t'
      obtain ⟨p, hp, himage⟩ := image_of_valid hvalid
      rw [RegionErased, booted_buffer hP, himage]
      exact hall p hp

/-- The small board after the first boot of an erased flash. -/
abbrev freshBoard : State 8 := booted testPlatform 0 fun _ => Partition.erased 8

/-- On a fresh board the image from before holds nothing of the user. -/
theorem eraseUserData_erases_freshBoard :
    (eraseUserData testPlatform testConfig 1 0 (SaveOutcome.ok 8) (SaveOutcome.ok 8)
        freshBoard).1 = ecSuccess ∧
      EraseReached testConfig testPlatform 0 freshBoard
        (eraseUserData testPlatform testConfig 1 0 (SaveOutcome.ok 8) (SaveOutcome.ok 8)
          freshBoard).2 := by
  have hhash : HashTellsPasses testConfig testPlatform 0 4 freshBoard.cache := by
    unfold HashTellsPasses
    decide +kernel
  have hold : RegionErased testConfig 0 (cipherBuffer testPlatform
      (freshBoard.flash (destPartition freshBoard.actPartition + 1))) := by
    decide +kernel
  have hok : (eraseUserData testPlatform testConfig 1 0 (SaveOutcome.ok 8) (SaveOutcome.ok 8)
      freshBoard).1 = ecSuccess := by
    decide +kernel
  exact ⟨hok, (eraseUserData_erases_iff testConfig testPlatform testPlatform_involutive 1 0 4 _ _
    ⟨rfl, rfl, rfl, rfl⟩ ⟨rfl, rfl, rfl, rfl⟩ freshBoard rfl rfl hhash).mpr (fun _ => hold) hok⟩

/-- User 0 stores four bytes and erases them.  Both calls return success; the image
from before is still valid and its generation is not behind, so the next boot loads
the erased bytes again. -/
theorem eraseUserData_resurrects :
    ∃ s, exec testConfig testPlatform
        [.write 1 0 4 [1, 2, 3, 4] 0, .commit 1 (SaveOutcome.ok 8)] (.on freshBoard) =
          some (.on s) ∧
      (eraseUserData testPlatform testConfig 1 0 (SaveOutcome.ok 8) (SaveOutcome.ok 8) s).1 =
        ecSuccess ∧
      ¬ EraseReached testConfig testPlatform 0 s
        (eraseUserData testPlatform testConfig 1 0 (SaveOutcome.ok 8) (SaveOutcome.ok 8) s).2 := by
  refine ⟨_, rfl, by decide +kernel, ?_⟩
  intro h
  exact absurd (h.2.2 0) (by decide +kernel)

end Nvmem
end CrosEc
