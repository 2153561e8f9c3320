import CrosEc.Nvmem.Recovery

/-!
# Runs of the NVMEM module

A `Device` is either powered off, and then only its flash is left, or running.  An
`Event` is one call into `nvmem.c`, with the results of the flash and cipher
operations it meets, a loss of power, or a boot.  `exec` runs a list of events.

Some events reach one of the module's defects: a write whose `offset + size` wraps,
a save in which `app_cipher` or `flash_physical_write` fails, an erasure of one
user's data.  `Event.Sound` names the others, and the main result of this module is
that `Kept`, with the `Synced` relation at its core, survives all of them.
-/

namespace CrosEc
namespace Nvmem

open Lib

/-- Where a loss of power cuts `nvmem_save`: before the erase has changed anything,
somewhere during erase and write, or after the last byte is written. -/
inductive Cut (n : Nat) where
  | beforeErase
  | torn (p : Partition n)
  | afterWrite

inductive Event (n : Nat) where
  | read (task : TaskId) (offset size : UInt32) (user : Nat)
  | write (task : TaskId) (offset size : UInt32) (data : Bytes) (user : Nat)
  | move (task : TaskId) (srcOffset destOffset size : UInt32) (user : Nat)
  | commit (task : TaskId) (o : SaveOutcome n)
  | disableCommits (task : TaskId)
  | enableCommits (task : TaskId) (o : SaveOutcome n)
  | eraseUserData (task : TaskId) (user : Nat) (o₀ o₁ : SaveOutcome n)
  /-- power is lost while `nvmem_commit` is inside `nvmem_save` -/
  | commitPowerLoss (task : TaskId) (cut : Cut n)
  /-- power is lost outside `nvmem_save`, or the device is reset -/
  | powerLoss
  /-- power is back and `nvmem_init` runs -/
  | boot (task : TaskId)
  /-- power is lost again while `nvmem_init` runs -/
  | bootPowerLoss (task : TaskId) (cut : Cut n)

inductive Device (n : Nat) where
  | off (flash : Fin 2 → Partition n)
  | on (s : State n)

section Steps

variable {n : Nat} (cfg : Config) (P : Platform n)

/-- `mutex_lock` returns: nobody else holds the cache. -/
def mayLock (task : TaskId) (s : State n) : Bool :=
  s.mutexTask = none || s.mutexTask = some task

/-- `nvmem_commit` gets as far as `nvmem_save`. -/
def reachesSave (task : TaskId) (s : State n) : Bool :=
  s.mutexTask = some task && !s.writeError && s.commitsEnabled

/-- The flash after `nvmem_save` was cut. -/
def saveCut (cut : Cut n) (s : State n) : Fin 2 → Partition n :=
  if s.ladderEnabled = false then s.flash
  else if s.cache.tag.sha = computeSha P s.cache then s.flash
  else
    match cut with
    | .beforeErase => s.flash
    | .torn p => Function.update s.flash (destPartition s.actPartition) p
    | .afterWrite =>
        Function.update s.flash (destPartition s.actPartition) (cipherBuffer P (stamp P s.cache))

/-- The flash after `nvmem_init` was cut.  It calls `nvmem_save` only to start over. -/
def initCut (task : TaskId) (cut : Cut n) (flash : Fin 2 → Partition n) : Fin 2 → Partition n :=
  match recovered P flash with
  | some _ => flash
  | none =>
      saveCut P cut { lockCache task (powerOn flash) with
        actPartition := some 0, cache := Partition.filled n 0xff }

/-- One event; `none` if it cannot happen now. -/
def step : Event n → Device n → Option (Device n)
  | .read t offset size user, .on s =>
      if mayLock t s then some (.on (read cfg t offset size user s).2.2) else none
  | .write t offset size data user, .on s =>
      if mayLock t s then some (.on (write cfg t offset size data user s).2) else none
  | .move t src dest size user, .on s =>
      if mayLock t s then some (.on (move cfg t src dest size user s).2) else none
  | .commit t o, .on s => some (.on (commit P t o s).2)
  | .disableCommits t, .on s => if mayLock t s then some (.on (disableCommits t s)) else none
  | .enableCommits t o, .on s => some (.on (enableCommits P t o s).2)
  | .eraseUserData t user o₀ o₁, .on s =>
      if mayLock t s then some (.on (eraseUserData P cfg t user o₀ o₁ s).2) else none
  | .commitPowerLoss t cut, .on s =>
      if reachesSave t s then some (.off (saveCut P cut s)) else none
  | .powerLoss, .on s => some (.off s.flash)
  | .boot t, .off flash => some (.on (init P t (InitOutcome.ok n) (powerOn flash)).2)
  | .bootPowerLoss t cut, .off flash => some (.off (initCut P t cut flash))
  | _, _ => none

/-- Where an event leads to while the device is powered, if it can happen then. -/
def afterEvent (s : State n) : Event n → Device n
  | .read t offset size user => .on (read cfg t offset size user s).2.2
  | .write t offset size data user => .on (write cfg t offset size data user s).2
  | .move t src dest size user => .on (move cfg t src dest size user s).2
  | .commit t o => .on (commit P t o s).2
  | .disableCommits t => .on (disableCommits t s)
  | .enableCommits t o => .on (enableCommits P t o s).2
  | .eraseUserData t user o₀ o₁ => .on (eraseUserData P cfg t user o₀ o₁ s).2
  | .commitPowerLoss _ cut => .off (saveCut P cut s)
  | .powerLoss | .boot _ | .bootPowerLoss _ _ => .off s.flash

/-- **Inversion.**  A step of a powered device. -/
theorem eq_afterEvent_of_step {e : Event n} {s : State n} {d : Device n}
    (h : step cfg P e (.on s) = some d) : d = afterEvent cfg P s e := by
  cases e <;> simp only [step, Option.ite_none_right_eq_some, Option.some.injEq,
    reduceCtorEq] at h <;> simp_all [afterEvent]

/-- The hashed bytes of the cache, while there is one. -/
def Device.bodies : Device n → List Bytes
  | .off _ => []
  | .on s => [s.cache.body]

/-- The hashed bytes of the cache at every point of a run. -/
def cacheBodies : List (Event n) → Device n → List Bytes
  | [], d => d.bodies
  | e :: es, d =>
      d.bodies ++
        match step cfg P e d with
        | none => []
        | some d' => cacheBodies es d'

/-- Run a list of events. -/
def exec : List (Event n) → Device n → Option (Device n)
  | [], d => some d
  | e :: es, d =>
      match step cfg P e d with
      | none => none
      | some d' => exec es d'

/-- What `nvmem_commit` can do: save, skip the save because commits are disabled, or
refuse with an error and leave everything but its flags alone. -/
theorem commit_cases (t : TaskId) (o : SaveOutcome n) (s : State n) :
    (reachesSave t s = true ∧ commit P t o s = save P o s) ∨
      (s.commitsEnabled = false ∧ commit P t o s = (ecSuccess, s)) ∨
      ((commit P t o s).1 ≠ ecSuccess ∧ (commit P t o s).2.flash = s.flash ∧
        (commit P t o s).2.cache = s.cache ∧
        (commit P t o s).2.actPartition = s.actPartition ∧
        (commit P t o s).2.ladderEnabled = s.ladderEnabled ∧
        (s.commitsEnabled = true → (commit P t o s).2.commitsEnabled = true)) := by
  unfold commit
  split
  · exact Or.inr (Or.inr ⟨by simp [ecErrorOverflow, ecSuccess], rfl, rfl, rfl, rfl, id⟩)
  · split
    · exact Or.inr (Or.inr ⟨by simp [ecErrorInval, ecSuccess], rfl, rfl, rfl, rfl, id⟩)
    · split
      · refine Or.inr (Or.inr ⟨by simp [ecErrorUnknown, ecSuccess], ?_, ?_, ?_, ?_, ?_⟩) <;> simp
      · split
        · exact Or.inr (Or.inl ⟨by assumption, rfl⟩)
        · refine Or.inl ⟨?_, rfl⟩
          simp_all [reachesSave]

/-! ## The events that reach no defect -/

/-- Only the erase fails, and a partly erased partition does not pass for a valid one. -/
def SaveOutcome.Sound (o : SaveOutcome n) : Prop :=
  o.encipher = true ∧ o.write = ecSuccess ∧ o.decipher = true ∧
    ∀ p, o.eraseLeaves = some p → ¬ Valid P p

/-- A partition cut in the middle of an erase or a write fails its hash check. -/
def Cut.Sound : Cut n → Prop
  | .torn p => ¬ Valid P p
  | _ => True

/-- A request that passes the range check of `nvmem_get_partition_off` does so
without a wrap of `offset + size`. -/
def InRange (user : Nat) (offset size : UInt32) : Prop :=
  (∃ addr, getPartitionOff cfg user offset size = .ok addr) → offset.toNat + size.toNat < 2 ^ 32

def Event.Sound : Event n → Prop
  | .write _ offset size _ user => InRange cfg user offset size
  | .move _ _ dest size user => InRange cfg user dest size
  | .commit _ o => o.Sound P
  | .enableCommits _ o => o.Sound P
  | .eraseUserData _ _ _ _ => False
  | .commitPowerLoss _ cut => cut.Sound P
  | .bootPowerLoss _ cut => cut.Sound P
  | _ => True

end Steps

/-! ## Writes inside a user's region -/

section Range

variable {cfg : Config}

theorem getPartitionOff_ok {user : Nat} {offset size addr : UInt32}
    (h : getPartitionOff cfg user offset size = .ok addr) :
    ∃ len, cfg.userSizes[user]? = some len ∧ (offset + size).toNat ≤ len ∧
      addr = userStartOffset cfg user + offset := by
  unfold getPartitionOff at h
  cases hsize : cfg.userSizes[user]? with
  | none => rw [hsize] at h; cases h
  | some len =>
      rw [hsize] at h
      simp only at h
      split at h
      · cases h
      · rename_i hle
        refine ⟨len, rfl, ?_, by cases h; rfl⟩
        rw [UInt32.lt_iff_toNat_lt, UInt32.toNat_ofNat', not_lt] at hle
        exact le_trans hle (Nat.mod_le _ _)

/-- The regions of the users before `user`, and its own, fit into the buffer. -/
theorem regionStart_add_le {user len : Nat} (h : cfg.userSizes[user]? = some len) :
    regionStart cfg user + len ≤ cfg.bufferSize := by
  obtain ⟨hlt, rfl⟩ := List.getElem?_eq_some_iff.mp h
  have hsplit := List.sum_take_add_sum_drop cfg.userSizes (user + 1)
  have htake : (cfg.userSizes.take (user + 1)).sum = regionStart cfg user + cfg.userSizes[user] := by
    rw [regionStart, List.take_succ_eq_append_getElem hlt, List.sum_append, List.sum_singleton]
  have := cfg.sizes_fit
  omega

/-- A request that does not wrap lies in the region of its user. -/
theorem addr_bounds {user : Nat} {offset size addr : UInt32}
    (hok : getPartitionOff cfg user offset size = .ok addr)
    (hrange : offset.toNat + size.toNat < 2 ^ 32) :
    ∃ len, cfg.userSizes[user]? = some len ∧
      addr.toNat = tagSize + regionStart cfg user + offset.toNat ∧
      offset.toNat + size.toNat ≤ len ∧ addr.toNat + size.toNat ≤ tagSize + cfg.bufferSize := by
  obtain ⟨len, hlen, hsum, haddr⟩ := getPartitionOff_ok hok
  have hfits := regionStart_add_le hlen
  have hpart := cfg.partition_lt
  rw [UInt32.toNat_add, Nat.mod_eq_of_lt hrange] at hsum
  have hstart : (userStartOffset cfg user).toNat = tagSize + regionStart cfg user := by
    rw [userStartOffset, UInt32.toNat_ofNat', Nat.mod_eq_of_lt (by unfold regionStart at hfits; lia)]
    rfl
  have hval : addr.toNat = tagSize + regionStart cfg user + offset.toNat := by
    rw [haddr, UInt32.toNat_add, hstart, Nat.mod_eq_of_lt (by lia)]
  exact ⟨len, hlen, hval, hsum, by lia⟩

/-- Below the destination nothing is overlaid. -/
theorem overlay_below {base : Nat} {addr size : UInt32} {data field : Bytes}
    (hbelow : base + field.length ≤ addr.toNat) (htop : addr.toNat + size.toNat ≤ 2 ^ 32) :
    overlay base addr size data field = field := by
  apply List.ext_getElem
  · simp
  · intro i h₁ h₂
    have haddr := addr.toNat_lt
    have hne : ¬ UInt32.ofNat (base + i) - addr < size := by
      rw [UInt32.lt_iff_toNat_lt, UInt32.toNat_sub, UInt32.toNat_ofNat',
        Nat.mod_eq_of_lt (show base + i < 2 ^ 32 by lia)]
      lia
    simp only [overlay, List.getElem_map, List.getElem_zipIdx]
    rw [if_neg hne]

/-- A write inside the users' buffer leaves the tag alone. -/
theorem store_tag {n : Nat} (p : Partition n) {addr size : UInt32} (data : Bytes)
    (hbelow : tagSize ≤ addr.toNat) (htop : addr.toNat + size.toNat ≤ 2 ^ 32) :
    (p.store addr size data).tag = p.tag := by
  have hsha := p.tag.sha.property
  have hpad := p.tag.padding.property
  have hres := p.tag.reserved.property
  unfold tagSize at hbelow
  have h₁ : overlay 0 addr size data p.tag.sha.val = p.tag.sha.val :=
    overlay_below (by lia) htop
  have h₂ : overlay 16 addr size data p.tag.padding.val = p.tag.padding.val :=
    overlay_below (by lia) htop
  have h₃ : overlay 34 addr size data p.tag.reserved.val = p.tag.reserved.val :=
    overlay_below (by lia) htop
  have h₄ : ∀ b : UInt8, overlay 32 addr size data [b] = [b] :=
    fun b => overlay_below (by simp; lia) htop
  have h₅ : ∀ b : UInt8, overlay 33 addr size data [b] = [b] :=
    fun b => overlay_below (by simp; lia) htop
  simp [Partition.store, overlayBlob, overlayByte, h₁, h₂, h₃, h₄, h₅]

/-- Past the tag lies the buffer. -/
theorem bytes_getD_buffer {n : Nat} (p : Partition n) {k : Nat} (hk : tagSize ≤ k) :
    p.bytes.getD k 0 = p.buffer.val.getD (k - tagSize) 0 := by
  have hsha := p.tag.sha.property
  have hpad := p.tag.padding.property
  have hres := p.tag.reserved.property
  set front := p.tag.sha.val ++
    (p.tag.padding.val ++ [p.tag.layoutVersion, p.tag.generation] ++ p.tag.reserved.val) with hfront
  have hlen : front.length = tagSize := by
    simp [hfront, hsha, hpad, hres, tagSize]
  have hbytes : p.bytes = front ++ p.buffer.val := by
    simp [hfront, Partition.bytes, Partition.body]
  rw [hbytes, List.getD_eq_getElem?_getD, List.getD_eq_getElem?_getD,
    List.getElem?_append_right (by omega), hlen]

/-- A load in range is a slice of the buffer. -/
theorem load_eq {n : Nat} (p : Partition n) {addr size : UInt32} {pos : Nat}
    (haddr : addr.toNat = tagSize + pos) (hfits : pos + size.toNat ≤ n)
    (htop : tagSize + n < 2 ^ 32) :
    p.load addr size = (p.buffer.val.drop pos).take size.toNat := by
  have hbuf := p.buffer.property
  apply List.ext_getElem
  · simp only [Partition.load, List.length_map, List.length_range, List.length_take,
      List.length_drop, hbuf]
    lia
  · intro i hi hi'
    simp only [Partition.load, List.length_map, List.length_range] at hi
    have hidx : (addr + UInt32.ofNat i).toNat = tagSize + (pos + i) := by
      rw [UInt32.toNat_add, UInt32.toNat_ofNat', haddr,
        Nat.mod_eq_of_lt (show i < 2 ^ 32 by lia), Nat.mod_eq_of_lt (by lia)]
      lia
    simp only [Partition.load, List.getElem_map, List.getElem_range, hidx, List.getElem_take,
      List.getElem_drop]
    rw [bytes_getD_buffer _ (by lia), Nat.add_sub_cancel_left, List.getD_eq_getElem?_getD,
      List.getElem?_eq_getElem (by lia), Option.getD_some]

/-- A store in range is a write into the buffer. -/
theorem store_buffer {n : Nat} (p : Partition n) {addr size : UInt32} {data : Bytes} {pos : Nat}
    (haddr : addr.toNat = tagSize + pos) (hdata : data.length = size.toNat)
    (hfits : pos + size.toNat ≤ n) (htop : tagSize + n < 2 ^ 32) :
    (p.store addr size data).buffer.val = writeAt p.buffer.val pos data := by
  have hbuf := p.buffer.property
  apply List.ext_getElem?
  intro i
  rw [getElem?_writeAt (by lia)]
  show (overlay tagSize addr size data p.buffer.val)[i]? = _
  by_cases hi : i < n
  · have hsub : (UInt32.ofNat (tagSize + i) - addr).toNat = (2 ^ 32 + i - pos) % 2 ^ 32 := by
      rw [UInt32.toNat_sub, UInt32.toNat_ofNat', haddr,
        Nat.mod_eq_of_lt (show tagSize + i < 2 ^ 32 by lia)]
      congr 1
      lia
    simp only [overlay, List.getElem?_map, List.getElem?_zipIdx,
      List.getElem?_eq_getElem (show i < p.buffer.val.length by lia), Option.map_some]
    by_cases hin : pos ≤ i ∧ i < pos + data.length
    · have hmod : (2 ^ 32 + i - pos) % 2 ^ 32 = i - pos := by lia
      have hlt : UInt32.ofNat (tagSize + i) - addr < size := by
        rw [UInt32.lt_iff_toNat_lt, hsub]
        lia
      rw [if_pos hlt, if_pos hin, hsub, hmod, List.getD_eq_getElem?_getD,
        List.getElem?_eq_getElem (by lia), Option.getD_some]
    · have hge : ¬ UInt32.ofNat (tagSize + i) - addr < size := by
        rw [UInt32.lt_iff_toNat_lt, hsub]
        lia
      rw [if_neg hge, if_neg hin]
  · rw [List.getElem?_eq_none (by simp; lia), if_neg (by lia),
      List.getElem?_eq_none (by lia)]

/-- Bytes stored in a region read back. -/
theorem load_store {n : Nat} (p : Partition n) {addr size : UInt32} {data : Bytes}
    (hlow : tagSize ≤ addr.toNat) (hhigh : addr.toNat + size.toNat ≤ tagSize + n)
    (hlt : tagSize + n < 2 ^ 32) (hlen : data.length = size.toNat) :
    (p.store addr size data).load addr size = data := by
  have haddr : addr.toNat = tagSize + (addr.toNat - tagSize) := by lia
  have hbuf := p.buffer.property
  rw [load_eq _ haddr (by lia) hlt, store_buffer p haddr hlen (by lia) hlt, ← hlen,
    take_drop_writeAt_self _ _ (by lia)]

end Range

/-! ## Saves that meet no defect -/

section Sound

variable {n : Nat} {cfg : Config} {P : Platform n}

/-- What a sound save does from a synced state: it stores the cache, or it reports
an error and leaves cache, active partition and recovered image as they were. -/
theorem save_sound (hP : P.Involutive) {o : SaveOutcome n} (ho : o.Sound P) {s : State n}
    (hladder : s.ladderEnabled = true) (hsync : Synced P s)
    (hhash : computeSha P s.cache = computeSha P (image P s.flash) →
      s.cache.body = (image P s.flash).body) :
    ((save P o s).1 = ecSuccess ∧ Synced P (save P o s).2 ∧
        (save P o s).2.cache.buffer = s.cache.buffer ∧
        image P (save P o s).2.flash = (save P o s).2.cache) ∨
      ((save P o s).1 ≠ ecSuccess ∧ (save P o s).2.cache = s.cache ∧
        (save P o s).2.actPartition = s.actPartition ∧
        recovered P (save P o s).2.flash = recovered P s.flash) := by
  obtain ⟨henc, hwrite, hdec, hleaves⟩ := ho
  by_cases herase : o.erase = ecSuccess
  · exact Or.inl (save_synced hP ⟨herase, henc, hwrite, hdec⟩ hladder hsync hhash)
  · by_cases hsame : s.cache.tag.sha = computeSha P s.cache
    · -- Nothing to store, so the failing erase is not reached.
      have hok : save P o s = save P (SaveOutcome.ok n) s := by
        rw [save_unchanged hsame, save_unchanged hsame]
      rw [hok]
      exact Or.inl (save_synced hP ⟨rfl, rfl, rfl, rfl⟩ hladder hsync hhash)
    · have hdest : destPartition s.actPartition = active P s.flash + 1 := by
        rw [hsync.act_eq]
        rfl
      have hsave : save P o s = (o.erase, releaseAfterSave
          { s with
            flash := Function.update s.flash (active P s.flash + 1)
              (o.eraseLeaves.getD (s.flash (active P s.flash + 1))) }) := by
        unfold save
        simp [hladder, hsame, herase, hdest]
      rw [hsave]
      refine Or.inr ⟨herase, by simp, by simp, ?_⟩
      rw [releaseAfterSave_flash]
      cases hleft : o.eraseLeaves with
      | none => simp
      | some p => exact recovered_update_invalid (hleaves p hleft)

/-- A cut of a sound save leaves the old image, or the new one. -/
theorem saveCut_sound (hP : P.Involutive) {cut : Cut n} (hcut : cut.Sound P) {s : State n}
    (hact : s.actPartition = some (active P s.flash)) (htag : s.cache.tag = (image P s.flash).tag) :
    recovered P (saveCut P cut s) = recovered P s.flash ∨
      recovered P (saveCut P cut s) = some (active P s.flash + 1, stamp P s.cache) := by
  have hdest : destPartition s.actPartition = active P s.flash + 1 := by
    rw [hact]
    rfl
  unfold saveCut
  split
  · exact Or.inl rfl
  · split
    · exact Or.inl rfl
    · cases cut with
      | beforeErase => exact Or.inl rfl
      | torn p =>
          simp only [hdest]
          exact Or.inl (recovered_update_invalid hcut)
      | afterWrite =>
          simp only [hdest]
          exact Or.inr (recovered_update_stamp hP htag)

/-! ## The invariant of sound runs -/

/-- While the device runs, cache and flash are in step and the hashed bytes of the
stored image are among `bodies`, the ones on which the hash is injective. -/
def Kept (P : Platform n) (bodies : Set Bytes) : Device n → Prop
  | .off _ => True
  | .on s => Synced P s ∧ s.ladderEnabled = true ∧ (image P s.flash).body ∈ bodies

variable {bodies : Set Bytes}

/-- `Kept` looks at four fields only. -/
theorem Kept.congr {s s' : State n} (h : Kept P bodies (.on s)) (hflash : s'.flash = s.flash)
    (htag : s'.cache.tag = s.cache.tag) (hact : s'.actPartition = s.actPartition)
    (hladder : s'.ladderEnabled = s.ladderEnabled) : Kept P bodies (.on s') :=
  ⟨h.1.congr hflash htag hact, by rw [hladder, h.2.1], by rw [hflash]; exact h.2.2⟩

/-- The hash tells the cache from the stored image. -/
theorem Kept.hash {s : State n} (h : Kept P bodies (.on s)) (hinj : Set.InjOn P.computeHash bodies)
    (hbody : s.cache.body ∈ bodies) :
    computeSha P s.cache = computeSha P (image P s.flash) →
      s.cache.body = (image P s.flash).body :=
  fun heq => hinj hbody h.2.2 heq

theorem save_ladderEnabled (o : SaveOutcome n) (s : State n) :
    (save P o s).2.ladderEnabled = s.ladderEnabled := by
  unfold save
  repeat' (first | split | simp)

theorem save_commitsEnabled (o : SaveOutcome n) (s : State n) :
    (save P o s).2.commitsEnabled = s.commitsEnabled := by
  unfold save
  repeat' (first | split | simp)

theorem save_writeError (o : SaveOutcome n) (s : State n) :
    (save P o s).2.writeError = s.writeError := by
  unfold save
  repeat' (first | split | simp [releaseAfterSave])

/-- A sound save keeps the invariant. -/
theorem Kept.save (hP : P.Involutive) (hinj : Set.InjOn P.computeHash bodies)
    {o : SaveOutcome n} (ho : o.Sound P) {s : State n} (h : Kept P bodies (.on s))
    (hbody : s.cache.body ∈ bodies) (hbody' : (Nvmem.save P o s).2.cache.body ∈ bodies) :
    Kept P bodies (.on (Nvmem.save P o s).2) := by
  have hladder : (Nvmem.save P o s).2.ladderEnabled = true := by
    rw [save_ladderEnabled, h.2.1]
  rcases save_sound hP ho h.2.1 h.1 (h.hash hinj hbody) with
    ⟨-, hsync, -, himage⟩ | ⟨-, hcache, hact, hrec⟩
  · exact ⟨hsync, hladder, by rwa [himage]⟩
  · have himage : image P (Nvmem.save P o s).2.flash = image P s.flash := by
      rw [image, image, hrec]
    have hactive : active P (Nvmem.save P o s).2.flash = active P s.flash := by
      rw [active, active, hrec]
    refine ⟨⟨?_, ?_, ?_⟩, hladder, ?_⟩
    · rw [hact, hactive, h.1.act_eq]
    · rw [hcache, himage, h.1.tag_eq]
    · rw [himage, h.1.hashed]
    · rw [himage]
      exact h.2.2

/-- A commit keeps the invariant: either it saves, or it touches none of it. -/
theorem Kept.commit (hP : P.Involutive) (hinj : Set.InjOn P.computeHash bodies)
    {o : SaveOutcome n} (ho : o.Sound P) {t : TaskId} {s : State n} (h : Kept P bodies (.on s))
    (hbody : s.cache.body ∈ bodies) (hbody' : (Nvmem.commit P t o s).2.cache.body ∈ bodies) :
    Kept P bodies (.on (Nvmem.commit P t o s).2) := by
  rcases commit_cases P t o s with ⟨-, hsave⟩ | ⟨-, hskip⟩ | ⟨-, hflash, hcache, hact, hladder, -⟩
  · rw [hsave] at hbody' ⊢
    exact h.save hP hinj ho hbody hbody'
  · rw [hskip]
    exact h
  · exact h.congr hflash (by rw [hcache]) hact hladder

/-- A write that does not wrap keeps the invariant. -/
theorem Kept.write {t : TaskId} {offset size : UInt32} {data : Bytes} {user : Nat} {s : State n}
    (h : Kept P bodies (.on s)) (hrange : InRange cfg user offset size) :
    Kept P bodies (.on (Nvmem.write cfg t offset size data user s).2) := by
  unfold Nvmem.write
  cases hoff : getPartitionOff cfg user offset size with
  | error code => exact h.congr (by simp) (by simp) (by simp) (by simp)
  | ok addr =>
      obtain ⟨len, -, haddr, -, htop⟩ := addr_bounds hoff (hrange ⟨addr, hoff⟩)
      have hlt := cfg.partition_lt
      refine h.congr (by simp) ?_ (by simp) (by simp)
      simp only [lockCache_cache]
      exact store_tag _ _ (by omega) (by omega)

/-- A move whose destination does not wrap keeps the invariant. -/
theorem Kept.move {t : TaskId} {src dest size : UInt32} {user : Nat} {s : State n}
    (h : Kept P bodies (.on s)) (hrange : InRange cfg user dest size) :
    Kept P bodies (.on (Nvmem.move cfg t src dest size user s).2) := by
  unfold Nvmem.move
  cases getPartitionOff cfg user src size with
  | error code => exact h.congr (by simp) (by simp) (by simp) (by simp)
  | ok srcAddr =>
      cases hoff : getPartitionOff cfg user dest size with
      | error code => exact h.congr (by simp) (by simp) (by simp) (by simp)
      | ok addr =>
          obtain ⟨len, -, haddr, -, htop⟩ := addr_bounds hoff (hrange ⟨addr, hoff⟩)
          have hlt := cfg.partition_lt
          refine h.congr (by simp) ?_ (by simp) (by simp)
          simp only [lockCache_cache]
          exact store_tag _ _ (by omega) (by omega)

/-- A boot establishes the invariant. -/
theorem kept_boot (hP : P.Involutive) (t : TaskId) (flash : Fin 2 → Partition n)
    (hbody : (init P t (InitOutcome.ok n) (powerOn flash)).2.cache.body ∈ bodies) :
    Kept P bodies (.on (init P t (InitOutcome.ok n) (powerOn flash)).2) := by
  obtain ⟨-, hsync, himage, -, hladder⟩ :=
    init_synced hP (o := InitOutcome.ok n) (fun _ => rfl) ⟨rfl, rfl, rfl, rfl⟩ t flash
  exact ⟨hsync, hladder, by rwa [← himage]⟩

/-- **Step lemma.**  Every sound event keeps the invariant. -/
theorem step_kept (hP : P.Involutive) (hinj : Set.InjOn P.computeHash bodies) {e : Event n}
    (he : e.Sound cfg P) {d d' : Device n} (hstep : step cfg P e d = some d')
    (h : Kept P bodies d) (hbody : ∀ b ∈ d.bodies, b ∈ bodies)
    (hbody' : ∀ b ∈ d'.bodies, b ∈ bodies) : Kept P bodies d' := by
  cases d with
  | off flash =>
      cases e with
      | boot t =>
          cases hstep
          exact kept_boot hP t flash (hbody' _ (by simp [Device.bodies]))
      | bootPowerLoss t cut =>
          cases hstep
          trivial
      | _ => cases hstep
  | on s =>
      have hcache : s.cache.body ∈ bodies := hbody _ (by simp [Device.bodies])
      obtain rfl := eq_afterEvent_of_step cfg P hstep
      cases e with
      | read t offset size user =>
          show Kept P bodies (.on (Nvmem.read cfg t offset size user s).2.2)
          unfold Nvmem.read
          split
          · exact h.congr (by simp) (by simp) (by simp) (by simp)
          · exact h.congr (by simp) (by simp) (by simp) (by simp)
      | write t offset size data user => exact h.write he
      | move t src dest size user => exact h.move he
      | commit t o =>
          exact h.commit hP hinj he hcache (hbody' _ (by simp [afterEvent, Device.bodies]))
      | disableCommits t =>
          exact h.congr (by simp [disableCommits]) (by simp [disableCommits])
            (by simp [disableCommits]) (by simp [disableCommits])
      | enableCommits t o =>
          -- With commits enabled again, what has been held back is committed.
          have hnew : (enableCommits P t o s).2.cache.body ∈ bodies :=
            hbody' _ (by simp [afterEvent, Device.bodies])
          show Kept P bodies (.on (enableCommits P t o s).2)
          unfold enableCommits at hnew ⊢
          split
          · exact h
          · split
            · exact h
            · rename_i hoff howner
              simp only [hoff, howner, if_false] at hnew
              have hon : Kept P bodies (.on { s with commitsEnabled := true }) :=
                h.congr rfl rfl rfl rfl
              exact hon.commit hP hinj he hcache hnew
      | eraseUserData t user o₀ o₁ => exact absurd he (by simp [Event.Sound])
      | commitPowerLoss t cut => trivial
      | powerLoss => trivial
      | boot t => cases hstep
      | bootPowerLoss t cut => cases hstep

theorem mem_cacheBodies_of_mem_bodies {es : List (Event n)} {d : Device n} {b : Bytes}
    (h : b ∈ d.bodies) : b ∈ cacheBodies cfg P es d := by
  cases es with
  | nil => exact h
  | cons e es => exact List.mem_append_left _ h

theorem mem_cacheBodies_cons {e : Event n} {es : List (Event n)} {d d' : Device n}
    (hstep : step cfg P e d = some d') {b : Bytes} (h : b ∈ cacheBodies cfg P es d') :
    b ∈ cacheBodies cfg P (e :: es) d := by
  rw [cacheBodies, hstep]
  exact List.mem_append_right _ h

/-- **Run lemma.**  The invariant holds wherever a run of sound events ends. -/
theorem exec_kept (hP : P.Involutive) (hinj : Set.InjOn P.computeHash bodies)
    {es : List (Event n)} (hes : ∀ e ∈ es, e.Sound cfg P) {d d' : Device n}
    (hrun : exec cfg P es d = some d') (h : Kept P bodies d)
    (hbodies : ∀ b ∈ cacheBodies cfg P es d, b ∈ bodies) :
    Kept P bodies d' ∧ ∀ b ∈ d'.bodies, b ∈ bodies := by
  induction es generalizing d with
  | nil =>
      cases hrun
      exact ⟨h, hbodies⟩
  | cons e es ih =>
      rw [exec] at hrun
      cases hstep : step cfg P e d with
      | none => rw [hstep] at hrun; cases hrun
      | some d₁ =>
          rw [hstep] at hrun
          have hrest : ∀ b ∈ cacheBodies cfg P es d₁, b ∈ bodies :=
            fun b hb => hbodies b (mem_cacheBodies_cons hstep hb)
          have h₁ : Kept P bodies d₁ :=
            step_kept hP hinj (hes e (by simp)) hstep h
              (fun b hb => hbodies b (mem_cacheBodies_of_mem_bodies hb))
              (fun b hb => hrest b (mem_cacheBodies_of_mem_bodies hb))
          exact ih (fun e he => hes e (by simp [he])) hrun h₁ hrest

end Sound

/-! ## A small board

Two users of four bytes each, with the XOR cipher of `test/nvmem.c` and a
polynomial checksum in place of its CRC.  The concrete runs below use it. -/

def testConfig : Config where
  userSizes := [4, 4]
  bufferSize := 8
  sizes_fit := by decide
  partition_lt := by decide

/-- A platform whose cipher adds the salt to every byte. -/
def xorPlatform (n : Nat) : Platform n where
  computeHash := checksum 16
  cipher salt buf :=
    ⟨buf.val.zipIdx.map fun (b, i) => b ^^^ salt.val.getD (i % 16) 0, by
      rw [List.length_map, List.length_zipIdx, buf.property]⟩

theorem xorPlatform_involutive (n : Nat) : (xorPlatform n).Involutive := by
  intro salt buf
  apply Subtype.ext
  apply List.ext_getElem
  · simp [xorPlatform]
  · intro i h₁ h₂
    have hcancel : ∀ a b : UInt8, a ^^^ b ^^^ b = a := fun a b => by
      rw [UInt8.xor_assoc, UInt8.xor_self, UInt8.xor_zero]
    simp only [xorPlatform, List.getElem_map, List.getElem_zipIdx, zero_add, hcancel]

def testPlatform : Platform 8 := xorPlatform 8

theorem testPlatform_involutive : testPlatform.Involutive := xorPlatform_involutive 8

end Nvmem
end CrosEc
