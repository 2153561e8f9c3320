import Mathlib.Tactic

/-!
# `common/flash.c`: banks of different sizes

`flash_bank_array` describes flash as regions of banks, all banks of a region having one size.  The
banks lie one after the other, so bank `n` starts at the sum of the sizes below it.  The loops of
`flash_bank_size` and `flash_bank_index` go over the regions, and what they take off at each region
is what the boundaries leave for the regions after it.

The index of an offset below zero is negative, and need not be `-1`; so the count of a range whose
end wraps, or whose size is negative, can be another negative number
(`flashBankCount_not_range`).
-/

namespace CrosEc
namespace Flash

/-- An `int` -/
def int32 (x : Int) : Int := x.bmod (2 ^ 32)

/-- What `struct ec_flash_bank` says of the banks of a region. -/
structure FlashBank where
  count : Nat
  sizeExp : Nat

/-- `flash_bank_size` -/
def flashBankSize : List FlashBank → Int → Int
  | [], _ => -1
  | region :: regions, bank =>
      if bank < region.count then int32 (2 ^ region.sizeExp)
      else flashBankSize regions (int32 (bank - region.count))

/-- The loop of `flash_bank_index`, with `offset` and `bank_offset`. -/
def bankIndexLoop : List FlashBank → Int → Int → Int
  | [], offset, bankOffset => if offset ≠ 0 then -1 else bankOffset
  | region :: regions, offset, bankOffset =>
      let allSectorSize := int32 (region.count * 2 ^ region.sizeExp)
      if offset ≥ allSectorSize then
        bankIndexLoop regions (int32 (offset - allSectorSize)) (int32 (bankOffset + region.count))
      -- offset & ((1 << size_exp) - 1)
      else if offset % 2 ^ region.sizeExp ≠ 0 then -1
      else int32 (bankOffset + offset / 2 ^ region.sizeExp)

/-- `flash_bank_index` -/
def flashBankIndex (regions : List FlashBank) (offset : Int) : Int := bankIndexLoop regions offset 0

/-- `flash_bank_count` -/
def flashBankCount (regions : List FlashBank) (offset size : Int) : Int :=
  let first := flashBankIndex regions offset
  let last := flashBankIndex regions (int32 (offset + size))
  if first = -1 ∨ last = -1 then -1 else int32 (last - first)

/-! ## Boundaries -/

/-- The sizes of the banks, in their order -/
def bankSizes (regions : List FlashBank) : List Nat :=
  regions.flatMap fun region => List.replicate region.count (2 ^ region.sizeExp)

/-- The number of banks -/
def bankTotal (regions : List FlashBank) : Nat := (bankSizes regions).length

/-- Where bank `n` starts, or flash ends. -/
def boundary (regions : List FlashBank) (n : Nat) : Nat := ((bankSizes regions).take n).sum

/-- The size of flash -/
def flashSize (regions : List FlashBank) : Nat := (bankSizes regions).sum

section Boundary

variable {region : FlashBank} {regions : List FlashBank} {n : Nat}

theorem bankTotal_cons : bankTotal (region :: regions) = region.count + bankTotal regions := by
  rw [bankTotal, bankSizes, List.flatMap_cons, List.length_append, List.length_replicate]
  rfl

theorem flashSize_cons :
    flashSize (region :: regions) = region.count * 2 ^ region.sizeExp + flashSize regions := by
  rw [flashSize, bankSizes, List.flatMap_cons, List.sum_append, List.sum_replicate, smul_eq_mul]
  rfl

/-- The boundaries of the first region -/
theorem boundary_of_le (h : n ≤ region.count) :
    boundary (region :: regions) n = n * 2 ^ region.sizeExp := by
  rw [boundary, bankSizes, List.flatMap_cons, List.take_append_of_le_length (by simpa using h),
    List.take_replicate, Nat.min_eq_left h, List.sum_replicate, smul_eq_mul]

/-- The boundaries of the others -/
theorem boundary_of_ge (h : region.count ≤ n) :
    boundary (region :: regions) n =
      region.count * 2 ^ region.sizeExp + boundary regions (n - region.count) := by
  rw [boundary, bankSizes, List.flatMap_cons, List.take_append, List.length_replicate,
    List.take_of_length_le (by simpa using h), List.sum_append, List.sum_replicate, smul_eq_mul]
  rfl

theorem bankTotal_le_flashSize (regions : List FlashBank) :
    bankTotal regions ≤ flashSize regions := by
  induction regions with
  | nil => exact le_rfl
  | cons region regions ih =>
      rw [bankTotal_cons, flashSize_cons]
      exact Nat.add_le_add (Nat.le_mul_of_pos_right _ (by positivity)) ih

/-- No bank is empty. -/
theorem boundary_lt_succ (h : n < bankTotal regions) :
    boundary regions n < boundary regions (n + 1) := by
  rw [boundary, boundary, List.sum_take_succ _ _ h]
  refine Nat.lt_add_of_pos_right ?_
  obtain ⟨region, _, hmem⟩ := List.mem_flatMap.mp (List.getElem_mem h)
  rw [List.eq_of_mem_replicate hmem]
  positivity

theorem boundary_le_flashSize (regions : List FlashBank) (n : Nat) :
    boundary regions n ≤ flashSize regions := by
  rw [flashSize, ← List.sum_take_add_sum_drop (bankSizes regions) n]
  exact Nat.le_add_right ..

theorem boundary_lt {first last : Nat} (h : first < last) (hlast : last ≤ bankTotal regions) :
    boundary regions first < boundary regions last := by
  induction last, h using Nat.le_induction with
  | base => exact boundary_lt_succ hlast
  | succ last _ ih => exact (ih (by omega)).trans (boundary_lt_succ hlast)

end Boundary

/-! ## The loops -/

theorem int32_natCast {n : Nat} (h : n < 2 ^ 31) : int32 n = n :=
  Int.bmod_eq_of_le (by omega) (by omega)

theorem int32_add {m n : Nat} (h : m + n < 2 ^ 31) : int32 (m + n) = (m + n : Nat) := by
  rw [← Nat.cast_add, int32_natCast h]

theorem int32_sub {m n : Nat} (hle : n ≤ m) (h : m < 2 ^ 31) : int32 (m - n) = (m - n : Nat) := by
  rw [← Nat.cast_sub hle, int32_natCast (by omega)]

/-- The size of a region does not wrap. -/
theorem int32_allSectorSize {region : FlashBank}
    (h : region.count * 2 ^ region.sizeExp < 2 ^ 31) :
    int32 (region.count * 2 ^ region.sizeExp) = (region.count * 2 ^ region.sizeExp : Nat) := by
  rw [← int32_natCast h]
  push_cast
  rfl

section Loops

variable {regions : List FlashBank} {offset bankOffset n : Nat}

/-- The offset of a boundary is found, whatever the banks counted before these regions. -/
theorem bankIndexLoop_boundary (hsize : flashSize regions < 2 ^ 31)
    (htotal : bankOffset + bankTotal regions < 2 ^ 31) (hn : n ≤ bankTotal regions) :
    bankIndexLoop regions (boundary regions n) bankOffset = (bankOffset + n : Nat) := by
  induction regions generalizing n bankOffset with
  | nil =>
      obtain rfl : n = 0 := Nat.le_zero.mp hn
      rfl
  | cons region regions ih =>
      rw [flashSize_cons] at hsize
      rw [bankTotal_cons] at htotal hn
      rw [bankIndexLoop, int32_allSectorSize (by lia)]
      by_cases h : region.count ≤ n
      · have hrest := boundary_le_flashSize regions (n - region.count)
        rw [boundary_of_ge h, if_pos (Int.ofNat_le.mpr (Nat.le_add_right ..)),
          int32_sub (Nat.le_add_right ..) (by lia), int32_add (by lia),
          Nat.add_sub_cancel_left, ih (by lia) (by lia) (by lia), Nat.add_assoc,
          Nat.add_sub_cancel' h]
      · have hlt : n * 2 ^ region.sizeExp < region.count * 2 ^ region.sizeExp :=
          Nat.mul_lt_mul_of_pos_right (by lia) (by positivity)
        rw [boundary_of_le (by lia), if_neg (by exact_mod_cast not_le.mpr hlt), Nat.cast_mul,
          Nat.cast_pow, Nat.cast_ofNat, Int.mul_emod_left, if_neg (not_not.mpr rfl),
          Int.mul_ediv_cancel _ (by positivity), int32_add (by lia)]

/-- No other offset is. -/
theorem bankIndexLoop_of_ne (hsize : flashSize regions < 2 ^ 31)
    (htotal : bankOffset + bankTotal regions < 2 ^ 31) (hoffset : offset < 2 ^ 31)
    (h : ∀ n ≤ bankTotal regions, offset ≠ boundary regions n) :
    bankIndexLoop regions offset bankOffset = -1 := by
  induction regions generalizing offset bankOffset with
  | nil =>
      have hne : offset ≠ 0 := h 0 le_rfl
      rw [bankIndexLoop, if_pos (by exact_mod_cast hne)]
  | cons region regions ih =>
      rw [flashSize_cons] at hsize
      rw [bankTotal_cons] at htotal h
      rw [bankIndexLoop, int32_allSectorSize (by lia)]
      by_cases hge : region.count * 2 ^ region.sizeExp ≤ offset
      · rw [if_pos (by exact_mod_cast hge), int32_sub hge hoffset, int32_add (by lia)]
        refine ih (by lia) (by lia) (by lia) fun n hn heq => ?_
        refine h (region.count + n) (by lia) ?_
        rw [boundary_of_ge (by lia), Nat.add_sub_cancel_left, ← heq]
        lia
      · rw [if_neg (by exact_mod_cast hge), if_pos]
        intro hmod
        have hdvd : 2 ^ region.sizeExp ∣ offset := by
          exact_mod_cast Int.dvd_of_emod_eq_zero hmod
        obtain ⟨n, rfl⟩ := hdvd
        have hlt : n < region.count := by
          refine Nat.lt_of_mul_lt_mul_left (a := 2 ^ region.sizeExp) ?_
          rw [Nat.mul_comm _ region.count]
          lia
        exact h n (by lia) (by rw [boundary_of_le (by lia), Nat.mul_comm])

/-- A bank's size is what its boundaries leave between them. -/
theorem flashBankSize_eq (hsize : flashSize regions < 2 ^ 31) (hn : n < 2 ^ 31) :
    flashBankSize regions n =
      if n < bankTotal regions then ((boundary regions (n + 1) - boundary regions n : Nat) : Int)
      else -1 := by
  induction regions generalizing n with
  | nil => rfl
  | cons region regions ih =>
      rw [flashSize_cons] at hsize
      rw [flashBankSize, bankTotal_cons]
      by_cases h : n < region.count
      · have hpow : 2 ^ region.sizeExp ≤ region.count * 2 ^ region.sizeExp :=
          Nat.le_mul_of_pos_left _ (by lia)
        have hbank : boundary (region :: regions) (n + 1) - boundary (region :: regions) n =
            2 ^ region.sizeExp := by
          rw [boundary_of_le (by lia), boundary_of_le (by lia), Nat.succ_mul,
            Nat.add_sub_cancel_left]
        rw [if_pos (by exact_mod_cast h), if_pos (by lia), hbank, ← int32_natCast (by lia)]
        push_cast
        rfl
      · have hbank : boundary (region :: regions) (n + 1) - boundary (region :: regions) n =
            boundary regions (n - region.count + 1) - boundary regions (n - region.count) := by
          rw [boundary_of_ge (by lia), boundary_of_ge (by lia), Nat.add_sub_add_left]
          congr 2
          lia
        rw [if_neg (by exact_mod_cast h), int32_sub (by lia) hn, ih (by lia) (by lia), hbank]
        congr 1
        exact propext (by lia)

end Loops

/-! ## The arithmetic of a whole array -/

/-- A `flash_bank_array` of a flash that an `int` counts. -/
structure BankArray where
  regions : List FlashBank
  count_pos : ∀ region ∈ regions, 1 ≤ region.count
  size_lt : flashSize regions < 2 ^ 31

/-- `count` whole banks are what lies from `offset` on for `size` bytes. -/
def Tiles (regions : List FlashBank) (offset size : Int) (count : Nat) : Prop :=
  ∃ first, first + count ≤ bankTotal regions ∧ (boundary regions first : Int) = offset ∧
    (boundary regions (first + count) : Int) = offset + size

section Array

variable (array : BankArray) {offset size : Int} {n count : Nat}

theorem BankArray.total_lt : bankTotal array.regions < 2 ^ 31 :=
  (bankTotal_le_flashSize array.regions).trans_lt array.size_lt

theorem flashBankIndex_boundary (h : n ≤ bankTotal array.regions) :
    flashBankIndex array.regions (boundary array.regions n) = n := by
  have htotal := array.total_lt
  have hloop := @bankIndexLoop_boundary array.regions 0 n array.size_lt (by omega) h
  rwa [Nat.zero_add] at hloop

theorem flashBankIndex_of_ne (hnonneg : 0 ≤ offset) (hoffset : offset < 2 ^ 31)
    (h : ∀ n ≤ bankTotal array.regions, offset ≠ boundary array.regions n) :
    flashBankIndex array.regions offset = -1 := by
  have htotal := array.total_lt
  lift offset to Nat using hnonneg
  refine @bankIndexLoop_of_ne array.regions offset 0 array.size_lt (by omega) (by omega) ?_
  exact_mod_cast h

/-- An offset below zero lies in the first region, and no bank of it is there. -/
theorem flashBankIndex_neg (hlow : -2 ^ 31 ≤ offset) (hneg : offset < 0) :
    flashBankIndex array.regions offset < 0 := by
  have hsize := array.size_lt
  generalize array.regions = regions at hsize ⊢
  rw [flashBankIndex]
  cases regions with
  | nil =>
      rw [bankIndexLoop, if_pos hneg.ne]
      decide
  | cons region regions =>
      rw [flashSize_cons] at hsize
      have hpow : (0 : Int) < 2 ^ region.sizeExp := by positivity
      have hquot := Int.ediv_neg_of_neg_of_pos hneg hpow
      have hbound : -2 ^ 31 ≤ offset / 2 ^ region.sizeExp := by
        rw [Int.le_ediv_iff_mul_le hpow]
        nlinarith
      rw [bankIndexLoop, int32_allSectorSize (by lia), if_neg (by lia)]
      split
      · decide
      · rw [zero_add, int32, Int.bmod_eq_of_le (by lia) (by lia)]
        exact hquot

/-- The index of an offset is the number of banks below it. -/
theorem flashBankIndex_eq_iff (hlow : -2 ^ 31 ≤ offset) (hoffset : offset < 2 ^ 31) :
    flashBankIndex array.regions offset = n ↔
      n ≤ bankTotal array.regions ∧ (boundary array.regions n : Int) = offset := by
  constructor
  · intro h
    have hnonneg : 0 ≤ offset := by
      by_contra hneg
      have := flashBankIndex_neg array hlow (not_le.mp hneg)
      omega
    by_cases hbank : ∃ k ≤ bankTotal array.regions, offset = boundary array.regions k
    · obtain ⟨k, hk, rfl⟩ := hbank
      rw [flashBankIndex_boundary array hk, Nat.cast_inj] at h
      exact ⟨h ▸ hk, h ▸ rfl⟩
    · push Not at hbank
      rw [flashBankIndex_of_ne array hnonneg hoffset hbank] at h
      omega
  · rintro ⟨hn, rfl⟩
    exact flashBankIndex_boundary array hn

/-- The end of a range does not wrap. -/
theorem int32_range (hoffset : 0 ≤ offset) (hsize : 0 ≤ size) (h : offset + size < 2 ^ 31) :
    int32 (offset + size) = offset + size :=
  Int.bmod_eq_of_le (by omega) (by omega)

/-- The banks of a range are counted when they fill it. -/
theorem flashBankCount_of_tiles (hoffset : 0 ≤ offset) (hsize : 0 ≤ size)
    (h : offset + size < 2 ^ 31) (htiles : Tiles array.regions offset size count) :
    flashBankCount array.regions offset size = count := by
  obtain ⟨first, hfirst, rfl, hlast⟩ := htiles
  have htotal := array.total_lt
  rw [flashBankCount, int32_range hoffset hsize h, ← hlast, flashBankIndex_boundary array hfirst,
    flashBankIndex_boundary array (by omega), if_neg (by omega),
    int32_sub (Nat.le_add_right ..) (by omega), Nat.add_sub_cancel_left]

/-- Where they do not, one end of the range is no boundary. -/
theorem flashBankCount_of_not_tiles (hoffset : 0 ≤ offset) (hsize : 0 ≤ size)
    (h : offset + size < 2 ^ 31) (htiles : ∀ count, ¬Tiles array.regions offset size count) :
    flashBankCount array.regions offset size = -1 := by
  rw [flashBankCount, int32_range hoffset hsize h, if_pos]
  by_contra hboth
  push Not at hboth
  obtain ⟨first, hfirst, heq⟩ :
      ∃ n ≤ bankTotal array.regions, offset = boundary array.regions n := by
    by_contra hnone
    push Not at hnone
    exact hboth.1 (flashBankIndex_of_ne array hoffset (by omega) hnone)
  obtain ⟨last, hlast, hsum⟩ :
      ∃ n ≤ bankTotal array.regions, offset + size = boundary array.regions n := by
    by_contra hnone
    push Not at hnone
    exact hboth.2 (flashBankIndex_of_ne array (by omega) h hnone)
  have hle : first ≤ last := by
    by_contra hlt
    have := boundary_lt (not_le.mp hlt) hfirst
    omega
  refine htiles (last - first) ⟨first, ?_, heq.symm, ?_⟩
  · omega
  · rw [Nat.add_sub_cancel' hle, hsum]

/-- The three loops agree on where the banks are: an offset's index is the number of banks below
it, a bank's size is what lies between its boundaries, and the count of a range is the number of
banks that fill it, with `-1` wherever there is no such number. -/
theorem flashBanks_consistent :
    (∀ offset : Int, -2 ^ 31 ≤ offset → offset < 2 ^ 31 →
      (∀ n : Nat, flashBankIndex array.regions offset = n ↔
        n ≤ bankTotal array.regions ∧ (boundary array.regions n : Int) = offset) ∧
      (0 ≤ offset → (∀ n ≤ bankTotal array.regions, offset ≠ boundary array.regions n) →
        flashBankIndex array.regions offset = -1)) ∧
    (∀ n : Nat, n < bankTotal array.regions →
      flashBankSize array.regions n =
        (boundary array.regions (n + 1) : Int) - boundary array.regions n) ∧
    (∀ n : Nat, bankTotal array.regions ≤ n → n < 2 ^ 31 →
      flashBankSize array.regions n = -1) ∧
    (∀ offset size : Int, 0 ≤ offset → 0 ≤ size → offset + size < 2 ^ 31 →
      (∀ count, Tiles array.regions offset size count →
        flashBankCount array.regions offset size = count) ∧
      ((∀ count, ¬Tiles array.regions offset size count) →
        flashBankCount array.regions offset size = -1)) := by
  have htotal := array.total_lt
  refine ⟨fun offset hlow hoffset => ?_, fun n hn => ?_, fun n hn h => ?_,
    fun offset size hoffset hsize h => ?_⟩
  · exact ⟨fun n => flashBankIndex_eq_iff array hlow hoffset,
      fun hnonneg => flashBankIndex_of_ne array hnonneg hoffset⟩
  · rw [flashBankSize_eq array.size_lt (by omega), if_pos hn,
      Nat.cast_sub (boundary_lt_succ hn).le]
  · rw [flashBankSize_eq array.size_lt h, if_neg (by omega)]
  · exact ⟨fun count => flashBankCount_of_tiles array hoffset hsize h,
      flashBankCount_of_not_tiles array hoffset hsize h⟩

/-- Four banks of 16 KB, one of 64 KB and three of 128 KB -/
def sectors : BankArray where
  regions := [⟨4, 14⟩, ⟨1, 16⟩, ⟨3, 17⟩]
  count_pos := by decide
  size_lt := by simp [flashSize, bankSizes]

theorem flashBanks_consistent_sectors :
    flashBankIndex sectors.regions 131072 = 5 ∧ flashBankSize sectors.regions 4 = 65536 ∧
      flashBankSize sectors.regions 8 = -1 ∧ flashBankCount sectors.regions 65536 196608 = 2 ∧
      flashBankIndex sectors.regions 65537 = -1 := by
  have hsizes : bankSizes sectors.regions =
      [16384, 16384, 16384, 16384, 65536, 131072, 131072, 131072] := rfl
  have htotal : bankTotal sectors.regions = 8 := by rw [bankTotal, hsizes]; rfl
  have hboundary (n : Nat) : boundary sectors.regions n =
      (([16384, 16384, 16384, 16384, 65536, 131072, 131072, 131072] : List Nat).take n).sum := by
    rw [boundary, hsizes]
  obtain ⟨hindex, hsize, hpast, hcount⟩ := flashBanks_consistent sectors
  refine ⟨?_, ?_, ?_, ?_, ?_⟩
  · exact ((hindex 131072 (by decide) (by decide)).1 5).mpr ⟨by omega, by rw [hboundary]; rfl⟩
  · rw [show (4 : Int) = (4 : Nat) from rfl, hsize 4 (by omega), hboundary, hboundary]
    rfl
  · exact hpast 8 (by omega) (by decide)
  · exact (hcount 65536 196608 (by decide) (by decide) (by decide)).1 2
      ⟨4, by omega, by rw [hboundary]; rfl, by rw [hboundary]; rfl⟩
  · refine (hindex 65537 (by decide) (by decide)).2 (by decide) fun n hn => ?_
    rw [htotal] at hn
    rw [hboundary]
    interval_cases n <;> decide

/-- **No banks fill these ranges**, one of a negative size and one whose end wraps, and their counts
are not `-1`. -/
theorem flashBankCount_not_range :
    (flashBankCount sectors.regions 65536 (-32768) = -2 ∧
      ∀ count, ¬Tiles sectors.regions 65536 (-32768) count) ∧
    flashBankCount sectors.regions 16384 (2 ^ 31 - 16384) = -131073 ∧
      ∀ count, ¬Tiles sectors.regions 16384 (2 ^ 31 - 16384) count := by
  refine ⟨⟨by decide, ?_⟩, by decide, ?_⟩
  · rintro count ⟨first, hcount, hfirst, hlast⟩
    -- The second boundary would lie below the first.
    rcases Nat.eq_zero_or_pos count with rfl | hpos
    · rw [Nat.add_zero] at hlast
      omega
    · have hlt := boundary_lt (Nat.lt_add_of_pos_right hpos) hcount
      omega
  · rintro count ⟨first, hcount, hfirst, hlast⟩
    have hle := boundary_le_flashSize sectors.regions (first + count)
    have hsize := sectors.size_lt
    omega

end Array

end Flash
end CrosEc
