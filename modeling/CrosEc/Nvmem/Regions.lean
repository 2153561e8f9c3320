import CrosEc.Nvmem.Lock
import Mathlib.Order.CompletePartialOrder

/-!
# The regions of the users

`nvmem_generate_offset_table` lays the users' regions out one behind the other, with a 32-bit sum
that it compares with the size of the partition.  `nvmem_get_partition_off` compares another one,
`offset + len`, with the size of the user's region; an offset close to 2^32 passes and leads in
front of the region (`nvmem_write_before_region`).  Without a wrap in either sum the users are
isolated (`nvmem_users_isolated_iff`).
-/

namespace CrosEc
namespace Nvmem

open Lib

/-- `nvmem_user_sizes`, and `nvmem_user_start_offset` -/
structure OffsetTable where
  userSizes : List UInt32
  startOffsets : List UInt32
  deriving DecidableEq

/-- The loop of `nvmem_generate_offset_table`: the table, and the sum. -/
def offsetsFrom : UInt32 → List UInt32 → List UInt32 × UInt32
  | start, [] => ([], start)
  | start, size :: sizes =>
      let rest := offsetsFrom (start + size) sizes
      (start :: rest.1, rest.2)

/-- `nvmem_generate_offset_table` -/
def generateOffsetTable (partitionSize : UInt32) (userSizes : List UInt32) : Code × OffsetTable :=
  let r := offsetsFrom (UInt32.ofNat tagSize) userSizes
  (if partitionSize < r.2 then ecErrorOverflow else ecSuccess, ⟨userSizes, r.1⟩)

/-- `len` bytes from an offset on in the region of `user`, or from an address on in the cache. -/
structure Extent where
  user : Nat
  pos : UInt32
  len : UInt32

namespace OffsetTable

variable (t : OffsetTable)

def size (user : Nat) : UInt32 := t.userSizes.getD user 0

def start (user : Nat) : UInt32 := t.startOffsets.getD user 0

/-- `nvmem_get_partition_off` -/
def partitionOff (user : Nat) (offset len : UInt32) : Except Code UInt32 :=
  if t.userSizes.length ≤ user then .error ecErrorOverflow
  else if t.size user < offset + len then .error ecErrorOverflow
  else .ok (t.start user + offset)

/-- The ranges of the cache that `nvmem_get_partition_off` answers for the requests of a call; the
first error ends the call. -/
def ranges : List Extent → Except Code (List Extent)
  | [] => .ok []
  | request :: requests =>
      match t.partitionOff request.user request.pos request.len with
      | .error code => .error code
      | .ok addr =>
          match ranges requests with
          | .error code => .error code
          | .ok rest => .ok ({ request with pos := addr } :: rest)

/-- The bytes of the user's region. -/
def region (user : Nat) : Set Nat :=
  Set.Ico (t.start user).toNat ((t.start user).toNat + (t.size user).toNat)

end OffsetTable

/-- What a call looks up. -/
def Call.requests {n : Nat} : Call n → List Extent
  | .read offset size user => [⟨user, offset, size⟩]
  | .isDifferent offset size _ user => [⟨user, offset, size⟩]
  | .write offset size _ user => [⟨user, offset, size⟩]
  | .move src dest size user => [⟨user, src, size⟩, ⟨user, dest, size⟩]
  | .commit _ | .disableCommits | .enableCommits _ => []

/-- The byte `addr + i` of the cache, with a pointer of 32 bits. -/
def byteAt (addr : UInt32) (i : Nat) : Nat := (addr + UInt32.ofNat i).toNat

/-- The users are isolated from each other, and in a call that touches these ranges. -/
structure Isolated (partitionSize : UInt32) (t : OffsetTable) (ranges : List Extent) : Prop where
  /-- the regions are behind the tag and in the partition -/
  inside : ∀ u < t.userSizes.length, t.region u ⊆ Set.Ico tagSize partitionSize.toNat
  disjoint : ∀ u < t.userSizes.length, ∀ v < t.userSizes.length, u ≠ v →
    Disjoint (t.region u) (t.region v)
  touched : ∀ r ∈ ranges, ∀ i < r.len.toNat, byteAt r.pos i ∈ t.region r.user

/-- Neither sum wraps. -/
def NoWrap (sizes : List UInt32) (requests : List Extent) : Prop :=
  tagSize + (sizes.map UInt32.toNat).sum < 2 ^ 32 ∧
    ∀ r ∈ requests, r.pos.toNat + r.len.toNat < 2 ^ 32

/-! ## The table -/

/-- The sizes of the users before this one. -/
def sizesBefore (sizes : List UInt32) (user : Nat) : Nat :=
  ((sizes.take user).map UInt32.toNat).sum

theorem offsetsFrom_snd (start : UInt32) (sizes : List UInt32) :
    (offsetsFrom start sizes).2.toNat =
      (start.toNat + (sizes.map UInt32.toNat).sum) % 2 ^ 32 := by
  induction sizes generalizing start with
  | nil => simp [offsetsFrom, Nat.mod_eq_of_lt start.toNat_lt]
  | cons size sizes ih =>
      rw [offsetsFrom]
      dsimp only
      rw [ih, UInt32.toNat_add, Nat.mod_add_mod, List.map_cons, List.sum_cons, Nat.add_assoc]

theorem offsetsFrom_fst (start : UInt32) (sizes : List UInt32) {user : Nat}
    (huser : user < sizes.length) :
    ((offsetsFrom start sizes).1.getD user 0).toNat =
      (start.toNat + sizesBefore sizes user) % 2 ^ 32 := by
  induction sizes generalizing start user with
  | nil => exact absurd huser (Nat.not_lt_zero _)
  | cons size sizes ih =>
      rw [offsetsFrom]
      dsimp only
      cases user with
      | zero => simp [sizesBefore, Nat.mod_eq_of_lt start.toNat_lt]
      | succ user =>
          rw [List.getD_cons_succ, ih _ (Nat.lt_of_succ_lt_succ huser), UInt32.toNat_add,
            Nat.mod_add_mod]
          simp only [sizesBefore, List.take_succ_cons, List.map_cons, List.sum_cons, Nat.add_assoc]

theorem sizesBefore_succ (sizes : List UInt32) {user : Nat} (huser : user < sizes.length) :
    sizesBefore sizes (user + 1) = sizesBefore sizes user + (sizes.getD user 0).toNat := by
  rw [sizesBefore, List.take_succ_eq_append_getElem huser, List.map_append, List.sum_append,
    sizesBefore]
  simp [List.getD, huser]

theorem sizesBefore_mono (sizes : List UInt32) {u v : Nat} (huv : u ≤ v) :
    sizesBefore sizes u ≤ sizesBefore sizes v := by
  induction v, huv using Nat.le_induction with
  | base => exact le_rfl
  | succ v huv ih =>
      by_cases hv : v < sizes.length
      · rw [sizesBefore_succ sizes hv]
        omega
      · have hall : sizes.take (v + 1) = sizes.take v := by
          rw [List.take_of_length_le (by omega), List.take_of_length_le (by omega)]
        show sizesBefore sizes u ≤ ((sizes.take (v + 1)).map UInt32.toNat).sum
        rw [hall]
        exact ih

theorem sizesBefore_length (sizes : List UInt32) :
    sizesBefore sizes sizes.length = (sizes.map UInt32.toNat).sum := by
  rw [sizesBefore, List.take_length]

variable {partitionSize : UInt32} {sizes : List UInt32} {t : OffsetTable} {user : Nat}
  {requests found : List Extent}

/-- What the function has checked. -/
theorem generateOffsetTable_eq_success
    (h : generateOffsetTable partitionSize sizes = (ecSuccess, t)) :
    t.userSizes = sizes ∧
      (∀ u < sizes.length, (t.start u).toNat = (tagSize + sizesBefore sizes u) % 2 ^ 32) ∧
      (tagSize + (sizes.map UInt32.toNat).sum) % 2 ^ 32 ≤ partitionSize.toNat := by
  unfold generateOffsetTable at h
  dsimp only at h
  rw [Prod.mk.injEq] at h
  obtain ⟨hcode, rfl⟩ := h
  refine ⟨rfl, fun u hu => offsetsFrom_fst _ _ hu, ?_⟩
  split_ifs at hcode with hlt
  · exact absurd hcode (by decide)
  · have hle := UInt32.not_lt.mp hlt
    rw [UInt32.le_iff_toNat_le, offsetsFrom_snd] at hle
    exact hle

/-! ## The regions -/

/-- Without a wrap the regions are those of the running sum. -/
theorem region_eq (h : generateOffsetTable partitionSize sizes = (ecSuccess, t))
    (hsum : tagSize + (sizes.map UInt32.toNat).sum < 2 ^ 32) {u : Nat} (hu : u < sizes.length) :
    (t.start u).toNat = tagSize + sizesBefore sizes u ∧
      (t.start u).toNat + (t.size u).toNat = tagSize + sizesBefore sizes (u + 1) := by
  obtain ⟨hsizes, hstart, -⟩ := generateOffsetTable_eq_success h
  have hle := sizesBefore_mono sizes (le_of_lt hu)
  rw [sizesBefore_length] at hle
  have heq : (t.start u).toNat = tagSize + sizesBefore sizes u := by
    rw [hstart u hu, Nat.mod_eq_of_lt (by omega)]
  refine ⟨heq, ?_⟩
  rw [heq, sizesBefore_succ sizes hu, OffsetTable.size, hsizes, Nat.add_assoc]

theorem regions_inside (h : generateOffsetTable partitionSize sizes = (ecSuccess, t))
    (hsum : tagSize + (sizes.map UInt32.toNat).sum < 2 ^ 32) :
    ∀ u < t.userSizes.length, t.region u ⊆ Set.Ico tagSize partitionSize.toNat := by
  obtain ⟨hsizes, -, hfits⟩ := generateOffsetTable_eq_success h
  rw [Nat.mod_eq_of_lt hsum] at hfits
  rw [hsizes]
  intro u hu
  obtain ⟨hstart, hend⟩ := region_eq h hsum hu
  have hle := sizesBefore_mono sizes (show u + 1 ≤ sizes.length from hu)
  rw [sizesBefore_length] at hle
  exact Set.Ico_subset_Ico (by omega) (by omega)

theorem regions_disjoint (h : generateOffsetTable partitionSize sizes = (ecSuccess, t))
    (hsum : tagSize + (sizes.map UInt32.toNat).sum < 2 ^ 32) :
    ∀ u < t.userSizes.length, ∀ v < t.userSizes.length, u ≠ v →
      Disjoint (t.region u) (t.region v) := by
  rw [(generateOffsetTable_eq_success h).1]
  have hbefore : ∀ u < sizes.length, ∀ v < sizes.length, u < v →
      Disjoint (t.region u) (t.region v) := by
    intro u hu v hv huv
    obtain ⟨-, hend⟩ := region_eq h hsum hu
    obtain ⟨hstart, -⟩ := region_eq h hsum hv
    have hle := sizesBefore_mono sizes (show u + 1 ≤ v from huv)
    rw [Set.disjoint_left]
    intro x hx hx'
    have hlt := hx.2
    have hge := hx'.1
    omega
  intro u hu v hv hne
  rcases lt_or_gt_of_ne hne with huv | hvu
  · exact hbefore u hu v hv huv
  · exact (hbefore v hv u hu hvu).symm

/-- A sum that wraps does so in some region, which is not in the partition. -/
theorem sum_lt_of_regions_inside (h : generateOffsetTable partitionSize sizes = (ecSuccess, t))
    (hinside : ∀ u < t.userSizes.length, t.region u ⊆ Set.Ico tagSize partitionSize.toNat) :
    tagSize + (sizes.map UInt32.toNat).sum < 2 ^ 32 := by
  obtain ⟨hsizes, hstart, -⟩ := generateOffsetTable_eq_success h
  have hprefix : ∀ u ≤ sizes.length, tagSize + sizesBefore sizes u < 2 ^ 32 := by
    intro u hu
    induction u with
    | zero => simp [sizesBefore, tagSize]
    | succ u ih =>
        have hbefore := ih (by lia)
        have heq := hstart u hu
        rw [Nat.mod_eq_of_lt hbefore] at heq
        have hsucc := sizesBefore_succ sizes hu
        by_contra hwrap
        -- The last address below 2^32 would be in the region.
        have hsize : t.size u = sizes.getD u 0 := by rw [OffsetTable.size, hsizes]
        have hin : 2 ^ 32 - 1 ∈ t.region u := by
          refine ⟨by lia, ?_⟩
          rw [hsize]
          lia
        have hlt := (hinside u (by rw [hsizes]; exact hu) hin).2
        have hpart := partitionSize.toNat_lt
        lia
  have hall := hprefix sizes.length le_rfl
  rwa [sizesBefore_length] at hall

/-! ## The ranges -/

theorem partitionOff_eq_ok {offset len addr : UInt32}
    (h : t.partitionOff user offset len = .ok addr) :
    user < t.userSizes.length ∧ (offset.toNat + len.toNat) % 2 ^ 32 ≤ (t.size user).toNat ∧
      addr = t.start user + offset := by
  unfold OffsetTable.partitionOff at h
  split_ifs at h with huser hsize
  have hle := UInt32.not_lt.mp hsize
  rw [UInt32.le_iff_toNat_le, UInt32.toNat_add] at hle
  exact ⟨not_le.mp huser, hle, (Except.ok.inj h).symm⟩

/-- A range is the answer to a request. -/
def Answers (t : OffsetTable) (request range : Extent) : Prop :=
  ∃ addr, t.partitionOff request.user request.pos request.len = .ok addr ∧
    range = { request with pos := addr }

theorem forall₂_ranges (h : t.ranges requests = .ok found) :
    List.Forall₂ (Answers t) requests found := by
  induction requests generalizing found with
  | nil =>
      cases h
      exact .nil
  | cons request requests ih =>
      unfold OffsetTable.ranges at h
      cases hoff : t.partitionOff request.user request.pos request.len with
      | error code =>
          rw [hoff] at h
          cases h
      | ok addr =>
          cases hrest : t.ranges requests with
          | error code =>
              rw [hoff, hrest] at h
              cases h
          | ok rest =>
              rw [hoff, hrest] at h
              cases h
              exact .cons ⟨addr, hoff, rfl⟩ (ih hrest)

/-- What holds of every range holds of every request, and the other way round. -/
theorem forall_mem_iff_of_answers {p q : Extent → Prop}
    (h : List.Forall₂ (Answers t) requests found)
    (hpq : ∀ request range, Answers t request range → (p range ↔ q request)) :
    (∀ g ∈ found, p g) ↔ ∀ r ∈ requests, q r := by
  induction h with
  | nil => simp
  | cons hhead _ ih => rw [List.forall_mem_cons, List.forall_mem_cons, hpq _ _ hhead, ih]

theorem partitionOff_of_ranges_error {offset len : UInt32} {code : Code}
    (h : t.ranges [⟨user, offset, len⟩] = .error code) :
    t.partitionOff user offset len = .error code := by
  simp only [OffsetTable.ranges] at h
  cases hoff : t.partitionOff user offset len with
  | error code' =>
      rw [hoff] at h
      exact congrArg Except.error (Except.error.inj h)
  | ok addr =>
      rw [hoff] at h
      cases h

/-- **A range is in the region exactly if its request does not wrap.** -/
theorem range_inside_iff {offset len addr : UInt32} (h : t.partitionOff user offset len = .ok addr)
    (hpos : 0 < (t.start user).toNat)
    (hend : (t.start user).toNat + (t.size user).toNat < 2 ^ 32) :
    (∀ i < len.toNat, byteAt addr i ∈ t.region user) ↔ offset.toNat + len.toNat < 2 ^ 32 := by
  obtain ⟨-, hsize, rfl⟩ := partitionOff_eq_ok h
  have hoffset := offset.toNat_lt
  have hlen := len.toNat_lt
  have hbyte : ∀ i < 2 ^ 32, byteAt (t.start user + offset) i =
      ((t.start user).toNat + offset.toNat + i) % 2 ^ 32 := by
    intro i hi
    rw [byteAt, UInt32.toNat_add, UInt32.toNat_add, UInt32.toNat_ofNat', Nat.mod_eq_of_lt hi,
      Nat.mod_add_mod]
  constructor
  · intro hall
    by_contra hwrap
    -- The byte in front of the region is touched.
    have hin := hall (2 ^ 32 - 1 - offset.toNat) (by lia)
    rw [hbyte _ (by lia)] at hin
    have hge := hin.1
    lia
  · intro hsum i hi
    rw [Nat.mod_eq_of_lt hsum] at hsize
    rw [hbyte _ (by lia), Nat.mod_eq_of_lt (by lia)]
    exact ⟨by lia, by lia⟩

/-! ## The calls -/

section Calls

variable {n : Nat} (cfg : Config) (P : Platform n)

/-- The table of the board. -/
def Config.offsetTable : OffsetTable :=
  (generateOffsetTable (UInt32.ofNat (tagSize + cfg.bufferSize))
    (cfg.userSizes.map UInt32.ofNat)).2

theorem offsetsFrom_map (start : Nat) (sizes : List Nat) (user : Nat)
    (huser : user < sizes.length) :
    (offsetsFrom (UInt32.ofNat start) (sizes.map UInt32.ofNat)).1.getD user 0 =
      UInt32.ofNat (start + (sizes.take user).sum) := by
  induction sizes generalizing start user with
  | nil => exact absurd huser (Nat.not_lt_zero _)
  | cons size sizes ih =>
      rw [List.map_cons, offsetsFrom]
      dsimp only
      cases user with
      | zero => simp
      | succ user =>
          rw [List.getD_cons_succ, ← UInt32.ofNat_add, ih _ _ (Nat.lt_of_succ_lt_succ huser),
            List.take_succ_cons, List.sum_cons, Nat.add_assoc]

theorem getPartitionOff_eq_partitionOff (user : Nat) (offset len : UInt32) :
    getPartitionOff cfg user offset len = cfg.offsetTable.partitionOff user offset len := by
  unfold getPartitionOff OffsetTable.partitionOff
  by_cases huser : user < cfg.userSizes.length
  · have hlen : ¬ cfg.offsetTable.userSizes.length ≤ user := by
      simp only [Config.offsetTable, generateOffsetTable, List.length_map]
      omega
    have hsize : cfg.offsetTable.size user = UInt32.ofNat cfg.userSizes[user] := by
      simp [Config.offsetTable, generateOffsetTable, OffsetTable.size, huser]
    have hstart : cfg.offsetTable.start user = userStartOffset cfg user :=
      offsetsFrom_map tagSize cfg.userSizes user huser
    rw [List.getElem?_eq_getElem huser, if_neg hlen, hsize, hstart]
  · have hlen : cfg.offsetTable.userSizes.length ≤ user := by
      simp only [Config.offsetTable, generateOffsetTable, List.length_map]
      omega
    rw [List.getElem?_eq_none (by omega), if_pos hlen]

/-- A call that looks up a bad range returns the error. -/
theorem runCall_of_ranges_error {task : TaskId} {c : Call n} {s : State n} {code : Code}
    (h : cfg.offsetTable.ranges c.requests = .error code) :
    (runCall cfg P task c s).1 = code := by
  cases c with
  | read offset size user =>
      have hoff := partitionOff_of_ranges_error h
      rw [← getPartitionOff_eq_partitionOff] at hoff
      simp only [runCall, read, hoff]
  | isDifferent offset size data user =>
      have hoff := partitionOff_of_ranges_error h
      rw [← getPartitionOff_eq_partitionOff] at hoff
      simp only [runCall, isDifferent, hoff]
  | write offset size data user =>
      have hoff := partitionOff_of_ranges_error h
      rw [← getPartitionOff_eq_partitionOff] at hoff
      simp only [runCall, write, hoff]
  | move src dest size user =>
      simp only [Call.requests, OffsetTable.ranges, ← getPartitionOff_eq_partitionOff] at h
      simp only [runCall, move]
      cases hsrc : getPartitionOff cfg user src size with
      | error code' =>
          rw [hsrc] at h
          exact Except.error.inj h
      | ok srcAddr =>
          cases hdest : getPartitionOff cfg user dest size with
          | error code' =>
              rw [hsrc, hdest] at h
              exact Except.error.inj h
          | ok destAddr =>
              rw [hsrc, hdest] at h
              cases h
  | commit _ => cases h
  | disableCommits => cases h
  | enableCommits _ => cases h

theorem overlay_append (base : Nat) (addr size : UInt32) (data front back : Bytes) :
    overlay base addr size data (front ++ back) =
      overlay base addr size data front ++ overlay (base + front.length) addr size data back := by
  simp only [overlay, List.zipIdx_append, List.map_append]

theorem overlayByte_eq (base : Nat) (addr size : UInt32) (data : Bytes) (b : UInt8) :
    [overlayByte base addr size data b] = overlay base addr size data [b] := by
  simp [overlayByte, overlay]

/-- A store is one overlay of the bytes of the partition. -/
theorem bytes_store (p : Partition n) (addr size : UInt32) (data : Bytes) :
    (p.store addr size data).bytes = overlay 0 addr size data p.bytes := by
  have hsha := p.tag.sha.property
  have hpadding := p.tag.padding.property
  have hreserved := p.tag.reserved.property
  have hbytes (q : Partition n) : q.bytes = q.tag.sha.val ++ (q.tag.padding.val ++
      [q.tag.layoutVersion] ++ [q.tag.generation] ++ q.tag.reserved.val ++ q.buffer.val) := by
    simp [Partition.bytes, Partition.body]
  rw [hbytes, hbytes, overlay_append, overlay_append, overlay_append, overlay_append,
    overlay_append]
  simp only [List.length_append, List.length_singleton, hsha, hpadding, hreserved, Partition.store,
    overlayByte_eq]
  rfl

/-- Outside of the extent nothing is overlaid. -/
theorem overlay_getElem?_of_ne {addr size : UInt32} (data field : Bytes) {i : Nat} (hi : i < 2 ^ 32)
    (hout : ∀ j < size.toNat, byteAt addr j ≠ i) :
    (overlay 0 addr size data field)[i]? = field[i]? := by
  have hne : ¬ UInt32.ofNat i - addr < size := by
    intro hlt
    apply hout (UInt32.ofNat i - addr).toNat (UInt32.lt_iff_toNat_lt.mp hlt)
    rw [byteAt, UInt32.ofNat_toNat, UInt32.add_comm, UInt32.sub_add_cancel, UInt32.toNat_ofNat',
      Nat.mod_eq_of_lt hi]
  rw [overlay, List.getElem?_map, List.getElem?_zipIdx, Option.map_map]
  cases field[i]? with
  | none => rfl
  | some b => simp [hne]

/-- A call changes no byte of the cache outside of its ranges. -/
theorem runCall_cache_frame {task : TaskId} {c : Call n} {s : State n} {found : List Extent}
    (hok : cfg.offsetTable.ranges c.requests = .ok found) (haccess : c.requests ≠ []) {i : Nat}
    (hi : i < 2 ^ 32) (hout : ∀ r ∈ found, ∀ j < r.len.toNat, byteAt r.pos j ≠ i) :
    (runCall cfg P task c s).2.2.cache.bytes[i]? = s.cache.bytes[i]? := by
  cases c with
  | read offset size user =>
      simp only [runCall, read]
      split <;> rw [releaseCache_cache, lockCache_cache]
  | isDifferent offset size data user =>
      simp only [runCall, isDifferent]
      split
      · rw [lockCache_cache]
      · rw [releaseCache_cache, lockCache_cache]
  | write offset size data user =>
      simp only [runCall, write]
      split
      · simp only [lockCache_cache]
      · rename_i addr haddr
        simp only [Call.requests, OffsetTable.ranges, ← getPartitionOff_eq_partitionOff,
          haddr] at hok
        cases hok
        simp only [lockCache_cache, bytes_store]
        exact overlay_getElem?_of_ne _ _ hi (hout _ (List.mem_singleton.mpr rfl))
  | move src dest size user =>
      simp only [runCall, move]
      split
      · simp only [lockCache_cache]
      · rename_i srcAddr hsrc
        split
        · simp only [lockCache_cache]
        · rename_i destAddr hdest
          simp only [Call.requests, OffsetTable.ranges, ← getPartitionOff_eq_partitionOff, hsrc,
            hdest] at hok
          cases hok
          simp only [lockCache_cache, bytes_store]
          exact overlay_getElem?_of_ne _ _ hi (hout ⟨user, destAddr, size⟩ (by simp))
  | commit _ => exact absurd rfl haccess
  | disableCommits => exact absurd rfl haccess
  | enableCommits _ => exact absurd rfl haccess

end Calls

/-! ## The result -/

/-- **When the users are isolated from each other**, in a call that does not return an error. -/
theorem nvmem_users_isolated_iff {n : Nat} (c : Call n)
    (hgen : generateOffsetTable partitionSize sizes = (ecSuccess, t))
    (hok : t.ranges c.requests = .ok found) :
    Isolated partitionSize t found ↔ NoWrap sizes c.requests := by
  have hsizes := (generateOffsetTable_eq_success hgen).1
  have htouched : tagSize + (sizes.map UInt32.toNat).sum < 2 ^ 32 →
      ((∀ r ∈ found, ∀ i < r.len.toNat, byteAt r.pos i ∈ t.region r.user) ↔
        ∀ r ∈ c.requests, r.pos.toNat + r.len.toNat < 2 ^ 32) := by
    intro hsum
    apply forall_mem_iff_of_answers (forall₂_ranges hok)
    rintro request range ⟨addr, hoff, rfl⟩
    have huser : request.user < sizes.length := hsizes ▸ (partitionOff_eq_ok hoff).1
    obtain ⟨hstart, hend⟩ := region_eq hgen hsum huser
    have hle := sizesBefore_mono sizes (show request.user + 1 ≤ sizes.length from huser)
    rw [sizesBefore_length] at hle
    have hpos : 0 < (t.start request.user).toNat := by
      rw [hstart, tagSize]
      omega
    show (∀ i < request.len.toNat, byteAt addr i ∈ t.region request.user) ↔ _
    exact range_inside_iff hoff hpos (by omega)
  constructor
  · intro hisolated
    have hsum := sum_lt_of_regions_inside hgen hisolated.inside
    exact ⟨hsum, (htouched hsum).mp hisolated.touched⟩
  · intro hnoWrap
    exact {
      inside := regions_inside hgen hnoWrap.1
      disjoint := regions_disjoint hgen hnoWrap.1
      touched := (htouched hnoWrap.1).mpr hnoWrap.2 }

/-- A read of four bytes by the second of two users. -/
theorem nvmem_users_isolated_second :
    Isolated 52 ⟨[8, 8], [36, 44]⟩ [⟨1, 44, 4⟩] ↔
      NoWrap [8, 8] (Call.read (n := 16) 0 4 1).requests :=
  nvmem_users_isolated_iff (.read 0 4 1) (by decide) (by rfl)

/-- The second user writes the last byte of the first. -/
theorem nvmem_write_before_region :
    generateOffsetTable 52 [8, 8] = (ecSuccess, ⟨[8, 8], [36, 44]⟩) ∧
      OffsetTable.ranges ⟨[8, 8], [36, 44]⟩
        (Call.write (n := 16) 0xffffffff 1 [0] 1).requests = .ok [⟨1, 43, 1⟩] ∧
      43 ∈ OffsetTable.region ⟨[8, 8], [36, 44]⟩ 0 ∧
      ¬ Isolated 52 ⟨[8, 8], [36, 44]⟩ [⟨1, 43, 1⟩] := by
  have htouched : (43 : Nat) ∉ OffsetTable.region ⟨[8, 8], [36, 44]⟩ 1 := by
    simp [OffsetTable.region, OffsetTable.start, OffsetTable.size]
  refine ⟨by decide, by rfl, ?_, ?_⟩
  · simp [OffsetTable.region, OffsetTable.start, OffsetTable.size]
  · intro hisolated
    exact htouched (hisolated.touched ⟨1, 43, 1⟩ (List.mem_singleton.mpr rfl) 0 (by decide))

end Nvmem
end CrosEc
