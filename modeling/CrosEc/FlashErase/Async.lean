import CrosEc.VbootHash.Model
import CrosEc.VbootHash.Reported

/-!
# `EC_CMD_FLASH_ERASE` and `flash_erase_deferred`

The host erases a range at once, or queues the request and asks later for its result.  The queued
request is carried out by a deferred function, which another task may interrupt while it erases;
so it begins and ends in two steps.

What the code does not keep are the requests that were accepted, the erases that were carried out
for them, the last ones first, whether the host has fetched the last result, and whether a request
was accepted while another one was queued.
-/

namespace CrosEc
namespace FlashErase

open Lib VbootHash

def ecResAccessDenied : Code := 4
def ecResBusy : Code := 16

/-- `enum system_image_copy_t` -/
inductive SystemImageCopy where
  | unknown
  | ro
  | rw
  | roB
  | rwB
  deriving DecidableEq

/-- The storage layout, and the image that is running. -/
structure Layout where
  build : Build
  ecProtectedStorageOff : Nat
  ecWritableStorageOff : Nat
  roStorageOff : Nat
  rwStorageOff : Nat
  rwBStorageOff : Nat
  roSize : Nat
  rwSize : Nat
  /-- `CONFIG_RW_SIG_SIZE` with `CONFIG_RWSIG` -/
  rwSigSize : Option Nat
  vbootEfs : Bool
  internalStorage : Bool
  systemImageCopy : SystemImageCopy
  /-- the images end below the limit of a `uint32_t` -/
  ro_fits : ecProtectedStorageOff + roStorageOff + roSize < 4294967296
  rw_fits : ecWritableStorageOff + rwStorageOff + rwSize < 4294967296
  rwB_fits : ecWritableStorageOff + rwBStorageOff + rwSize < 4294967296

/-- `struct ec_params_flash_erase` -/
structure Params where
  offset : UInt32
  size : UInt32
  deriving DecidableEq

/-- `enum ec_flash_erase_cmd`, and any other number -/
inductive FlashEraseCmd where
  | sector
  | sectorAsync
  | getResult
  | other
  deriving DecidableEq

/-- The command: version 0 has no sub-command. -/
structure Command where
  version : Nat
  cmd : FlashEraseCmd
  params : Params

/-- The sub-command that is executed. -/
def Command.sub (c : Command) : FlashEraseCmd := if 0 < c.version then c.cmd else .sector

namespace Layout

/-- `EC_FLASH_REGION_START` -/
def regionStart (l : Layout) : Nat := min l.ecProtectedStorageOff l.ecWritableStorageOff

/-- `flash_get_rw_offset` -/
def flashGetRwOffset (l : Layout) (copy : SystemImageCopy) : Nat :=
  if l.vbootEfs ∧ copy = .rwB then l.ecWritableStorageOff + l.rwBStorageOff
  else if copy = .rw ∨ copy = .rwB then l.ecWritableStorageOff + l.rwStorageOff
  else l.ecProtectedStorageOff + l.roStorageOff

/-- The size of the running image, without an RW signature, if the image is known. -/
def imageSize (l : Layout) : SystemImageCopy → Option Nat
  | .ro => some l.roSize
  -- Allow RW sig to be overwritten
  | .rw | .rwB => some (l.rwSize - l.rwSigSize.getD 0)
  | .unknown | .roB => none

/-- `system_unsafe_to_overwrite` -/
def unsafeToOverwrite (l : Layout) (offset size : Nat) : Bool :=
  match l.imageSize l.systemImageCopy with
  | none => false
  | some rSize =>
      let rOffset := l.flashGetRwOffset l.systemImageCopy
      (rOffset ≤ offset && offset < addUint rOffset rSize) ||
        (offset ≤ rOffset && rOffset < addUint offset size)

/-- The offset of a request, in the storage. -/
def storageOffset (l : Layout) (p : Params) : Nat := addUint p.offset.toNat l.regionStart

/-- The checks in front of every sub-command. -/
def denies (l : Layout) (protectAllNow : Bool) (p : Params) : Bool :=
  protectAllNow || (l.internalStorage && l.unsafeToOverwrite (l.storageOffset p) p.size.toNat)

end Layout

/-- A number as an `int`. -/
def toInt (n : Nat) : Int := (n : Int).bmod 4294967296

/-- An erase for a request that was queued: the range that `flash_erase` was called with, and the
result. -/
structure Erase where
  params : Params
  range : Int × Int
  rv : Code

structure State where
  /-- the flash, with the hash that an erase keeps up to date -/
  flash : VbootHash.State
  eraseRc : Code
  eraseInfo : Params
  /-- a call of `flash_erase_deferred` is pending -/
  pending : Bool
  /-- what `flash_erase_deferred` is erasing -/
  erasing : Option Params
  accepted : List Params
  carriedOut : List Erase
  fetched : Bool
  overwritten : Bool

def State.boot (flash : Nat → UInt8) : State where
  flash := .boot flash
  eraseRc := ecResSuccess
  eraseInfo := ⟨0, 0⟩
  pending := false
  erasing := none
  accepted := []
  carriedOut := []
  fetched := true
  overwritten := false

/-- The range that `FLASH_ERASE_SECTOR` erases. -/
def Layout.sectorRange (l : Layout) (p : Params) : Int × Int :=
  (toInt (l.storageOffset p), toInt p.size.toNat)

/-- The range that `flash_erase_deferred` erases. -/
def deferredRange (p : Params) : Int × Int := (toInt p.offset.toNat, toInt p.size.toNat)

namespace State

/-- `flash_command_erase` -/
def flashCommandErase (l : Layout) (protectAllNow : Bool) (physical : Physical) (c : Command)
    (s : State) : Code × State :=
  if l.denies protectAllNow c.params then (ecResAccessDenied, s)
  else
    match c.sub with
    | .sector =>
        let range := l.sectorRange c.params
        let (rv, flash) := s.flash.flashErase l.build range.1 range.2 physical
        (if rv ≠ ecSuccess then ecResError else ecResSuccess, { s with flash := flash })
    | .sectorAsync =>
        if s.eraseRc = ecResSuccess then
          (ecResSuccess, { s with
            eraseInfo := c.params
            pending := true
            accepted := c.params :: s.accepted
            overwritten := s.overwritten || s.pending })
        -- Not our job to return the result of the previous command.
        else (ecResBusy, s)
    | .getResult =>
        (s.eraseRc,
          -- Ready for another command
          if s.eraseRc ≠ ecResBusy then { s with eraseRc := ecResSuccess, fetched := true } else s)
    | .other => (ecResInvalidParam, s)

/-- `flash_erase_deferred`, up to the call of `flash_erase` -/
def deferredBegin (s : State) : State :=
  { s with eraseRc := ecResBusy, pending := false, erasing := some s.eraseInfo }

/-- The call of `flash_erase`, and the rest of `flash_erase_deferred`. -/
def deferredEnd (l : Layout) (physical : Physical) (p : Params) (s : State) : State :=
  let range := deferredRange p
  let (rv, flash) := s.flash.flashErase l.build range.1 range.2 physical
  { s with
    flash := flash
    eraseRc := if rv ≠ ecSuccess then ecResError else ecResSuccess
    erasing := none
    carriedOut := ⟨p, range, rv⟩ :: s.carriedOut
    fetched := false }

end State

/-! ## Runs -/

inductive Event where
  | command (protectAllNow : Bool) (physical : Physical) (c : Command)
  /-- the hook task finds `flash_erase_deferred` due -/
  | deferredBegin
  | deferredEnd (physical : Physical)

def step (l : Layout) (s : State) : Event → Option State
  | .command protectAllNow physical c => some (s.flashCommandErase l protectAllNow physical c).2
  | .deferredBegin => if s.pending ∧ s.erasing = none then some s.deferredBegin else none
  | .deferredEnd physical => s.erasing.map fun p => s.deferredEnd l physical p

end FlashErase

/-!
## Asynchronous erase and synchronous erase

A request that is accepted is in one of three places: queued, being erased, or carried out
(`Inv.accounted`).  The checks in front of the command keep the running image out of the range
that it would erase at once; the range of a queued request is the same one where the storage region
of the EC begins at offset zero.

In other layouts `flash_erase_deferred` erases another range than the one that was checked.  A
request that is queued does not make the module busy: a second one is accepted in its place, and
`FLASH_ERASE_GET_RESULT` answers as if it had been carried out (`flash_erase_async_counterexample`).
-/

namespace FlashErase

open Lib VbootHash

variable {l : Layout} {s s' : State} {e : Event} {flash : Nat → UInt8}

/-! ### What the host is told -/

/-- The requests that have been accepted and not carried out. -/
def State.outstanding (s : State) : List Params :=
  (if s.pending then [s.eraseInfo] else []) ++ s.erasing.toList

/-- The result of the last erase for a request, as the host is told. -/
def State.lastResult (s : State) : Code :=
  match s.carriedOut with
  | [] => ecResSuccess
  | erase :: _ => if erase.rv ≠ ecSuccess then ecResError else ecResSuccess

/-- Where the image is stored that is running, without an RW signature. -/
def Layout.runningImage (l : Layout) : Option (Nat × Nat) :=
  match l.systemImageCopy with
  | .ro => some (l.ecProtectedStorageOff + l.roStorageOff, l.roSize)
  | .rw => some (l.ecWritableStorageOff + l.rwStorageOff, l.rwSize - l.rwSigSize.getD 0)
  | .rwB =>
      if l.vbootEfs then
        some (l.ecWritableStorageOff + l.rwBStorageOff, l.rwSize - l.rwSigSize.getD 0)
      else none
  | .unknown | .roB => none

/-- **What asynchronous erase promises.** -/
structure Kept (l : Layout) (flash : Nat → UInt8) (s : State) : Prop where
  /-- every request that was accepted is carried out once, or is outstanding -/
  once : s.overwritten = false → s.accepted = s.outstanding ++ s.carriedOut.map Erase.params
  /-- on the range that would be erased at once -/
  range : l.regionStart = 0 → ∀ erase ∈ s.carriedOut, erase.range = l.sectorRange erase.params
  /-- the host is told the last result once, and that the module is busy while it erases -/
  result : ∀ protectAllNow physical c, c.sub = .getResult →
    l.denies protectAllNow c.params = false →
      (s.erasing.isSome = true →
        (s.flashCommandErase l protectAllNow physical c).1 = ecResBusy) ∧
      (s.erasing = none → s.pending = false →
        (s.flashCommandErase l protectAllNow physical c).1 =
          if s.fetched then ecResSuccess else s.lastResult)
  /-- the running image is not touched -/
  image : l.internalStorage = true → l.regionStart = 0 ∨ s.accepted = [] →
    ∀ offset size, l.runningImage = some (offset, size) →
      ∀ i, offset ≤ i → i < offset + size → s.flash.flash i = flash i

/-! ### Ranges -/

theorem toInt_of_lt {n : Nat} (h : n < 2147483648) : toInt n = n := by
  have hint : (n : Int) < 2147483648 := by exact_mod_cast h
  have hnonneg := Int.natCast_nonneg n
  unfold toInt
  generalize (n : Int) = x at *
  rw [Int.bmod_def]
  omega

theorem toInt_neg {n : Nat} (hlow : 2147483648 ≤ n) (hhigh : n < 4294967296) : toInt n < 0 := by
  have hintLow : (2147483648 : Int) ≤ n := by exact_mod_cast hlow
  have hintHigh : (n : Int) < 4294967296 := by exact_mod_cast hhigh
  unfold toInt
  generalize (n : Int) = x at *
  rw [Int.bmod_def]
  omega

theorem abortOrInvalidateHash_flash (offset size : Int) (t : VbootHash.State) :
    (t.abortOrInvalidateHash offset size).flash = t.flash := by
  unfold VbootHash.State.abortOrInvalidateHash VbootHash.State.invalidate VbootHash.State.abort
  split_ifs <;> rfl

/-- An erase leaves the bytes outside of its range alone. -/
theorem flashErase_flash {b : Build} {offset size : Int} {p : Physical} {t : VbootHash.State}
    {i : Nat} (h : (i : Int) < offset ∨ offset + size ≤ i ∨ offset < 0 ∨ size < 0 ∨
      b.flashSize < offset + size) : (t.flashErase b offset size p).2.flash i = t.flash i := by
  unfold VbootHash.State.flashErase
  split_ifs
  · rw [physical_flash_eq h, abortOrInvalidateHash_flash]
  · rfl

/-- The image that is running is the range that the check protects. -/
theorem protects_runningImage {offset size : Nat} (h : l.runningImage = some (offset, size)) :
    l.imageSize l.systemImageCopy = some size ∧ l.flashGetRwOffset l.systemImageCopy = offset ∧
      offset + size < 4294967296 := by
  have hro := l.ro_fits
  have hrw := l.rw_fits
  have hrwB := l.rwB_fits
  unfold Layout.runningImage at h
  unfold Layout.imageSize Layout.flashGetRwOffset
  cases hcopy : l.systemImageCopy with
  | ro =>
      simp only [hcopy, Option.some.injEq, Prod.mk.injEq] at h
      obtain ⟨rfl, rfl⟩ := h
      exact ⟨rfl, by simp, hro⟩
  | rw =>
      simp only [hcopy, Option.some.injEq, Prod.mk.injEq] at h
      obtain ⟨rfl, rfl⟩ := h
      exact ⟨rfl, by simp, by omega⟩
  | rwB =>
      simp only [hcopy, Option.ite_none_right_eq_some, Option.some.injEq, Prod.mk.injEq] at h
      obtain ⟨hefs, rfl, rfl⟩ := h
      exact ⟨rfl, by simp [hefs], by omega⟩
  | unknown | roB =>
      simp only [hcopy] at h
      cases h

/-- **The check is enough.** A range that is not unsafe to overwrite does not meet the running
image. -/
theorem outside_of_safe {offset size rOffset rSize i : Nat}
    (hsafe : l.unsafeToOverwrite offset size = false) (hoffset : offset < 4294967296)
    (hsize : size < 4294967296) (himage : l.runningImage = some (rOffset, rSize))
    (hlow : rOffset ≤ i) (hhigh : i < rOffset + rSize) :
    (i : Int) < toInt offset ∨ toInt offset + toInt size ≤ i ∨ toInt offset < 0 ∨ toInt size < 0 ∨
      l.build.flashSize < toInt offset + toInt size := by
  obtain ⟨hsome, hrOffset, hfits⟩ := protects_runningImage himage
  by_cases hneg : 2147483648 ≤ offset
  · exact .inr (.inr (.inl (toInt_neg hneg hoffset)))
  by_cases hsneg : 2147483648 ≤ size
  · exact .inr (.inr (.inr (.inl (toInt_neg hsneg hsize))))
  rw [toInt_of_lt (Nat.not_le.mp hneg), toInt_of_lt (Nat.not_le.mp hsneg)]
  unfold Layout.unsafeToOverwrite at hsafe
  simp only [hsome, hrOffset, Bool.or_eq_false_iff, Bool.and_eq_false_iff,
    decide_eq_false_iff_not] at hsafe
  rw [addUint_of_lt hfits, addUint_of_lt (by omega)] at hsafe
  omega

theorem storageOffset_of_zero (h : l.regionStart = 0) (p : Params) :
    l.storageOffset p = p.offset.toNat := by
  rw [Layout.storageOffset, h, addUint]
  exact Nat.mod_eq_of_lt p.offset.toNat_lt

theorem deferredRange_of_zero (h : l.regionStart = 0) (p : Params) :
    deferredRange p = l.sectorRange p := by
  rw [deferredRange, Layout.sectorRange, storageOffset_of_zero h]

/-! ### The invariant -/

/-- The request has passed the check for the running image. -/
def Checked (l : Layout) (p : Params) : Prop :=
  l.internalStorage = true → l.unsafeToOverwrite (l.storageOffset p) p.size.toNat = false

/-- The running image is as it was. -/
def ImageKept (l : Layout) (flash : Nat → UInt8) (s : State) : Prop :=
  ∀ offset size, l.runningImage = some (offset, size) →
    ∀ i, offset ≤ i → i < offset + size → s.flash.flash i = flash i

structure Inv (l : Layout) (flash : Nat → UInt8) (s : State) : Prop where
  accounted : s.overwritten = false → s.accepted = s.outstanding ++ s.carriedOut.map Erase.params
  range : ∀ erase ∈ s.carriedOut, erase.range = deferredRange erase.params
  busy : s.erasing.isSome = true → s.eraseRc = ecResBusy
  rc : s.erasing = none → s.eraseRc = if s.fetched then ecResSuccess else s.lastResult
  pending : s.pending = true → s.erasing = none
  outstanding : ∀ p ∈ s.outstanding, Checked l p ∧ s.accepted ≠ []
  image : l.internalStorage = true → l.regionStart = 0 ∨ s.accepted = [] → ImageKept l flash s

theorem inv_boot : Inv l flash (State.boot flash) where
  accounted := fun _ => rfl
  range := by simp [State.boot]
  busy := by simp [State.boot]
  rc := fun _ => rfl
  pending := fun _ => rfl
  outstanding := by simp [State.boot, State.outstanding]
  image := fun _ _ _ _ _ _ _ _ => rfl

/-! #### Commands -/

/-- What the checks let through keeps off the running image, if it is erased at once. -/
theorem checked_of_not_denies {protectAllNow : Bool} {p : Params}
    (h : l.denies protectAllNow p = false) : Checked l p := by
  intro hinternal
  simp only [Layout.denies, Bool.or_eq_false_iff, Bool.and_eq_false_iff, hinternal] at h
  simpa using h.2

/-- An erase of a range that was checked. -/
theorem ImageKept.erase {p : Params} {range : Int × Int} {physical : Physical}
    (h : ImageKept l flash s) (hinternal : l.internalStorage = true) (hchecked : Checked l p)
    (hrange : range = l.sectorRange p) : ImageKept l flash
      { s with flash := (s.flash.flashErase l.build range.1 range.2 physical).2 } := by
  intro offset size himage i hlow hhigh
  have hoffset : l.storageOffset p < 4294967296 := Nat.mod_lt _ (by decide)
  have houtside := outside_of_safe (hchecked hinternal) hoffset p.size.toNat_lt himage hlow hhigh
  have hkeeps : (s.flash.flashErase l.build (l.sectorRange p).1 (l.sectorRange p).2
      physical).2.flash i = s.flash.flash i := by
    apply flashErase_flash
    simpa only [Layout.sectorRange] using houtside
  rw [hrange]
  exact hkeeps.trans (h offset size himage i hlow hhigh)

theorem Inv.sector {p : Params} {physical : Physical} (h : Inv l flash s)
    (hchecked : Checked l p) : Inv l flash { s with
      flash := (s.flash.flashErase l.build (l.sectorRange p).1 (l.sectorRange p).2
        physical).2 } where
  accounted := h.accounted
  range := h.range
  busy := h.busy
  rc := h.rc
  pending := h.pending
  outstanding := h.outstanding
  image := fun hinternal hzero => (h.image hinternal hzero).erase hinternal hchecked rfl

theorem Inv.sectorAsync {p : Params} (h : Inv l flash s) (hrc : s.eraseRc = ecResSuccess)
    (hchecked : Checked l p) : Inv l flash { s with
      eraseInfo := p
      pending := true
      accepted := p :: s.accepted
      overwritten := s.overwritten || s.pending } := by
  have hbusy : ecResSuccess ≠ ecResBusy := by decide
  have hidle : s.erasing = none := by
    cases herasing : s.erasing with
    | none => rfl
    | some p =>
        have hrc' := h.busy (by rw [herasing]; rfl)
        exact absurd (hrc.symm.trans hrc') hbusy
  exact {
    accounted := by
      intro hone
      obtain ⟨hone, hnot⟩ := Bool.or_eq_false_iff.mp hone
      have hbefore := h.accounted hone
      simp only [State.outstanding, hnot, hidle, Bool.false_eq_true, if_false] at hbefore
      simp [State.outstanding, hidle, hbefore]
    range := h.range
    busy := h.busy
    rc := h.rc
    pending := fun _ => hidle
    outstanding := by
      intro q hq
      simp only [State.outstanding, hidle, Option.toList_none, List.append_nil, if_true,
        List.mem_singleton] at hq
      exact ⟨hq ▸ hchecked, List.cons_ne_nil _ _⟩
    image := by
      intro hinternal hzero
      rcases hzero with hzero | hnone
      · exact h.image hinternal (.inl hzero)
      · cases hnone }

theorem Inv.getResult (h : Inv l flash s) (hrc : s.eraseRc ≠ ecResBusy) :
    Inv l flash { s with eraseRc := ecResSuccess, fetched := true } where
  accounted := h.accounted
  range := h.range
  busy := fun herasing => absurd (h.busy herasing) hrc
  rc := fun _ => rfl
  pending := h.pending
  outstanding := h.outstanding
  image := h.image

theorem Inv.command {protectAllNow : Bool} {physical : Physical} {c : Command}
    (h : Inv l flash s) : Inv l flash (s.flashCommandErase l protectAllNow physical c).2 := by
  unfold State.flashCommandErase
  cases hdenies : l.denies protectAllNow c.params with
  | true => exact h
  | false =>
      rw [if_neg (by simp)]
      have hchecked := checked_of_not_denies hdenies
      cases c.sub with
      | sector => exact h.sector hchecked
      | sectorAsync =>
          by_cases hrc : s.eraseRc = ecResSuccess
          · simp only [if_pos hrc]
            exact h.sectorAsync hrc hchecked
          · simp only [if_neg hrc]
            exact h
      | getResult =>
          by_cases hrc : s.eraseRc ≠ ecResBusy
          · simp only [if_pos hrc]
            exact h.getResult hrc
          · simp only [if_neg hrc]
            exact h
      | other => exact h

/-! #### The deferred function -/

theorem Inv.deferredBegin (h : Inv l flash s) (hpending : s.pending = true)
    (hidle : s.erasing = none) : Inv l flash s.deferredBegin where
  accounted := by
    intro hone
    have hbefore := h.accounted hone
    simpa [State.outstanding, State.deferredBegin, hpending, hidle] using hbefore
  range := h.range
  busy := fun _ => rfl
  rc := fun hnone => by cases hnone
  pending := fun hnot => by cases hnot
  outstanding := by
    intro p hp
    refine h.outstanding p ?_
    simpa [State.outstanding, State.deferredBegin, hpending, hidle] using hp
  image := h.image

theorem Inv.deferredEnd {p : Params} {physical : Physical} (h : Inv l flash s)
    (herasing : s.erasing = some p) : Inv l flash (s.deferredEnd l physical p) := by
  have hpending : s.pending = false := by
    rw [← Bool.not_eq_true]
    intro hpending
    rw [h.pending hpending] at herasing
    cases herasing
  have hp : p ∈ s.outstanding := by simp [State.outstanding, herasing]
  obtain ⟨hchecked, hsome⟩ := h.outstanding p hp
  exact {
    accounted := by
      intro hone
      have hbefore := h.accounted hone
      simpa [State.outstanding, State.deferredEnd, hpending, herasing] using hbefore
    range := by
      intro erase hmem
      rcases List.mem_cons.mp hmem with rfl | hmem
      · rfl
      · exact h.range erase hmem
    busy := fun hnone => by cases hnone
    rc := fun _ => by simp [State.deferredEnd, State.lastResult]
    pending := fun _ => rfl
    outstanding := by simp [State.outstanding, State.deferredEnd, hpending]
    image := by
      intro hinternal hzero
      have hstart : l.regionStart = 0 := hzero.resolve_right hsome
      exact (h.image hinternal (.inl hstart)).erase hinternal hchecked
        (deferredRange_of_zero hstart p) }

/-! ### Runs -/

/-- **Step lemma.** -/
theorem inv_step (h : Inv l flash s) (hstep : step l s e = some s') : Inv l flash s' := by
  cases e with
  | command protectAllNow physical c =>
      obtain rfl := Option.some.inj hstep
      exact h.command
  | deferredBegin =>
      simp only [step, Option.ite_none_right_eq_some, Option.some.injEq] at hstep
      obtain ⟨⟨hpending, hidle⟩, rfl⟩ := hstep
      exact h.deferredBegin hpending hidle
  | deferredEnd physical =>
      obtain ⟨p, herasing, rfl⟩ := Option.map_eq_some_iff.mp hstep
      exact h.deferredEnd herasing

theorem inv_of_reachable (h : Reachable (step l) anyEvent (State.boot flash) s) :
    Inv l flash s :=
  h.invariant (Inv l flash) inv_boot fun _ _ _ hinv _ hstep => inv_step hinv hstep

/-- **What asynchronous erase promises**, in every layout and every sequence of commands and runs
of the deferred function. -/
theorem flash_erase_async_kept (h : Reachable (step l) anyEvent (State.boot flash) s) :
    Kept l flash s := by
  have hinv := inv_of_reachable h
  exact {
    once := hinv.accounted
    range := by
      intro hzero erase hmem
      rw [hinv.range erase hmem, deferredRange_of_zero hzero]
    result := by
      intro protectAllNow physical c hsub hallowed
      have hanswer : (s.flashCommandErase l protectAllNow physical c).1 = s.eraseRc := by
        simp [State.flashCommandErase, hallowed, hsub]
      rw [hanswer]
      exact ⟨hinv.busy, fun hidle _ => hinv.rc hidle⟩
    image := hinv.image }

/-! ### Concrete runs -/

/-- Eight kilobytes of flash. -/
def testBuild : Build where
  flashSize := 8192
  flashSize_le := by decide
  flashWriteSize := 4
  flashEraseSize := 1024
  mappedStorage := true
  multipleRegion := false
  sha256 := checksum 32

/-- RO is in the lower half, and RW, which is running, in the upper half. -/
def testLayout : Layout where
  build := testBuild
  ecProtectedStorageOff := 0
  ecWritableStorageOff := 4096
  roStorageOff := 0
  rwStorageOff := 0
  rwBStorageOff := 0
  roSize := 4096
  rwSize := 4096
  rwSigSize := some 1024
  vbootEfs := false
  internalStorage := true
  systemImageCopy := .rw
  ro_fits := by decide
  rw_fits := by decide
  rwB_fits := by decide

/-- The storage region of the EC is the upper half, and RW its second part. -/
def shiftedLayout : Layout := { testLayout with
  ecProtectedStorageOff := 4096
  ecWritableStorageOff := 6144
  roSize := 2048
  rwSize := 2048
  ro_fits := by decide
  rw_fits := by decide
  rwB_fits := by decide }

/-- An erase that works. -/
def erases : Physical := ⟨ecSuccess, fun _ => 0xff⟩

def testCommand (cmd : FlashEraseCmd) (offset size : UInt32) : Command := ⟨1, cmd, ⟨offset, size⟩⟩

def testEvent (cmd : FlashEraseCmd) (offset size : UInt32) : Event :=
  .command false erases (testCommand cmd offset size)

/-- An erase of RO that is queued and carried out, and an erase of the running image that is
refused. -/
theorem flash_erase_async_kept_run :
    ∃ s, (s.carriedOut.length = 1 ∧ s.flash.flash 1024 = 0xff) ∧
      Kept testLayout (fun _ => 0x11) s := by
  obtain ⟨s, hrun, herased⟩ : ∃ s, Reachable (step testLayout) anyEvent
      (State.boot fun _ => 0x11) s ∧ (s.carriedOut.length = 1 ∧ s.flash.flash 1024 = 0xff) :=
    Reachable.exists_of_runEvents
      [testEvent .sectorAsync 1024 1024, .deferredBegin, testEvent .getResult 0 0,
        .deferredEnd erases, testEvent .getResult 0 0, testEvent .sector 4096 1024]
      (by decide +kernel)
  exact ⟨s, herased, flash_erase_async_kept hrun⟩

/-- **Where asynchronous erase differs.**
1. In the shifted layout a request is carried out on another range than at once,
2. and the running image, from 6144 on, is erased.
3. A second request is accepted while one is queued, which is never carried out.
4. A queued request is outstanding, and the result is not that the module is busy.
5. An error is told once; asked again, the answer is success.
6. Nothing is told to a host that asks with the parameters of the running image.
7. The running image is erased where its signature is, from 7168 on. -/
theorem flash_erase_async_counterexample :
    (∃ s, Reachable (step shiftedLayout) anyEvent (State.boot fun _ => 0x11) s ∧
      ∃ erase ∈ s.carriedOut, erase.range ≠ shiftedLayout.sectorRange erase.params) ∧
    (∃ s, Reachable (step shiftedLayout) anyEvent (State.boot fun _ => 0x11) s ∧
      s.flash.flash 6144 = 0xff) ∧
    (∃ s, Reachable (step testLayout) anyEvent (State.boot fun _ => 0x11) s ∧
      s.accepted.length = 2 ∧ s.outstanding = [] ∧ s.carriedOut.length = 1) ∧
    (∃ s, Reachable (step testLayout) anyEvent (State.boot fun _ => 0x11) s ∧
      s.outstanding ≠ [] ∧ (s.flashCommandErase testLayout false erases
        (testCommand .getResult 0 0)).1 = ecResSuccess) ∧
    (∃ s, Reachable (step testLayout) anyEvent (State.boot fun _ => 0x11) s ∧
      s.outstanding = [] ∧ s.lastResult = ecResError ∧ (s.flashCommandErase testLayout false erases
        (testCommand .getResult 0 0)).1 = ecResSuccess) ∧
    (∃ s, Reachable (step testLayout) anyEvent (State.boot fun _ => 0x11) s ∧
      s.outstanding = [] ∧ s.lastResult = ecResError ∧ (s.flashCommandErase testLayout false erases
        (testCommand .getResult 4096 1024)).1 = ecResAccessDenied) ∧
    ∃ s, Reachable (step testLayout) anyEvent (State.boot fun _ => 0x11) s ∧
      s.flash.flash 7168 = 0xff := by
  refine ⟨?_, ?_, ?_, ?_, ?_, ?_, ?_⟩
  · exact Reachable.exists_of_runEvents
      [testEvent .sectorAsync 0 1024, .deferredBegin, .deferredEnd erases] (by decide +kernel)
  · exact Reachable.exists_of_runEvents
      [testEvent .sectorAsync 6144 1024, .deferredBegin, .deferredEnd erases] (by decide +kernel)
  · exact Reachable.exists_of_runEvents
      [testEvent .sectorAsync 0 1024, testEvent .sectorAsync 1024 1024, .deferredBegin,
        .deferredEnd erases] (by decide +kernel)
  · exact Reachable.exists_of_runEvents [testEvent .sectorAsync 0 1024] (by decide +kernel)
  · exact Reachable.exists_of_runEvents
      [testEvent .sectorAsync 0 1024, .deferredBegin, .deferredEnd ⟨ecErrorUnknown, fun _ => 0x11⟩,
        testEvent .getResult 0 0] (by decide +kernel)
  · exact Reachable.exists_of_runEvents
      [testEvent .sectorAsync 0 1024, .deferredBegin, .deferredEnd ⟨ecErrorUnknown, fun _ => 0x11⟩]
      (by decide +kernel)
  · exact Reachable.exists_of_runEvents [testEvent .sector 7168 1024] (by decide +kernel)

end FlashErase
end CrosEc
