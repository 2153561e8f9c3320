import CrosEc.Lib.While

/-!
# `common/util.c`: `memcpy`, `memset` and `memmove`

The three routines go through their regions in bytes up to a word boundary, then in words, and in
bytes again.  Memory is a function of the address, and an address is a number of 32 bits.  A word
at an address that is not a multiple of four is not accessed: this has no result.

Every loop writes the next block of the region.  Where the routines go wrong is at the top of the
address space: the word boundary above the last three bytes is the address 0, and `memmove` takes
that for the place where its words end.
-/

namespace CrosEc
namespace Util

open Lib

abbrev Addr := BitVec 32

abbrev Mem := Addr → UInt8

/-! ## The code -/

/-- `*sw`, little-endian -/
def loadWord (mem : Mem) (sw : Addr) : Option (BitVec 32) :=
  if sw &&& 3#32 = 0#32 then
    some ((mem (sw + 3#32)).toBitVec ++ (mem (sw + 2#32)).toBitVec ++ (mem (sw + 1#32)).toBitVec ++
      (mem sw).toBitVec)
  else none

/-- `*dw = w` -/
def storeWord (mem : Mem) (dw : Addr) (w : BitVec 32) : Option Mem :=
  if dw &&& 3#32 = 0#32 then
    some fun a =>
      if (a - dw).toNat < 4 then ⟨w.extractLsb' (8 * (a - dw).toNat) 8⟩ else mem a
  else none

/-- The memory and the two pointers of a copy. -/
structure Copy where
  mem : Mem
  d : Addr
  s : Addr

namespace Copy

/-- `*(d++) = *(s++)` -/
def byteUp (c : Copy) : Option Copy :=
  some ⟨Function.update c.mem c.d (c.mem c.s), c.d + 1#32, c.s + 1#32⟩

/-- `*(dw++) = *(sw++)` -/
def wordUp (c : Copy) : Option Copy := do
  let mem ← storeWord c.mem c.d (← loadWord c.mem c.s)
  return ⟨mem, c.d + 4#32, c.s + 4#32⟩

/-- `*(--d) = *(--s)` -/
def byteDown (c : Copy) : Option Copy :=
  some ⟨Function.update c.mem (c.d - 1#32) (c.mem (c.s - 1#32)), c.d - 1#32, c.s - 1#32⟩

/-- `*(--dw) = *(--sw)` -/
def wordDown (c : Copy) : Option Copy := do
  let mem ← storeWord c.mem (c.d - 4#32) (← loadWord c.mem (c.s - 4#32))
  return ⟨mem, c.d - 4#32, c.s - 4#32⟩

/-- `d < limit` -/
def below (limit : Addr) (c : Copy) : Bool := c.d < limit

/-- `d > limit` -/
def above (limit : Addr) (c : Copy) : Bool := limit < c.d

end Copy

/-- `a & ~3` -/
def wordFloor (a : Addr) : Addr := a &&& ~~~3#32

/-- `(a + 3) & ~3` -/
def wordCeil (a : Addr) : Addr := wordFloor (a + 3#32)

/-- `head` of `memcpy` and `memset` -/
def firstBoundary (d tail : Addr) : Addr :=
  -- shorter than the first word boundary
  if tail < wordCeil d then tail else wordCeil d

/-- `head` of `memmove` -/
def lastBoundary (d tail : Addr) : Addr :=
  -- shorter than the first word boundary
  if wordFloor d < tail then tail else wordFloor d

/-- `memcpy`, with a bound on the rounds of its loops; the results are the pointer returned and the
memory. -/
def memcpy (fuel : Nat) (mem : Mem) (dest src len : Addr) : Option (Addr × Mem) := do
  let tail := dest + len
  let body := wordFloor tail
  -- misaligned: no body, no tail
  let head := if dest &&& 3#32 ≠ src &&& 3#32 then tail else firstBoundary dest tail
  let c ← whileLoop (Copy.below head) Copy.byteUp fuel ⟨mem, dest, src⟩
  let c ← whileLoop (Copy.below body) Copy.wordUp fuel c
  let c ← whileLoop (Copy.below tail) Copy.byteUp fuel c
  return (dest, c.mem)

/-- `*(d++) = c` -/
def setByte (c : UInt8) (s : Mem × Addr) : Option (Mem × Addr) :=
  some (Function.update s.1 s.2 c, s.2 + 1#32)

/-- `*(dw++) = cccc` -/
def setWord (cccc : BitVec 32) (s : Mem × Addr) : Option (Mem × Addr) := do
  let mem ← storeWord s.1 s.2 cccc
  return (mem, s.2 + 4#32)

/-- `memset` -/
def memset (fuel : Nat) (mem : Mem) (dest : Addr) (c : BitVec 32) (len : Addr) :
    Option (Addr × Mem) := do
  let tail := dest + len
  let body := wordFloor tail
  let c := c &&& 0xff#32
  let cccc := c ||| c <<< 8 ||| c <<< 16 ||| c <<< 24
  let head := firstBoundary dest tail
  let s ← whileLoop (fun s : Mem × Addr => s.2 < head) (setByte ⟨c.setWidth 8⟩) fuel (mem, dest)
  let s ← whileLoop (fun s : Mem × Addr => s.2 < body) (setWord cccc) fuel s
  let s ← whileLoop (fun s : Mem × Addr => s.2 < tail) (setByte ⟨c.setWidth 8⟩) fuel s
  return (dest, s.1)

/-- `memmove` -/
def memmove (fuel : Nat) (mem : Mem) (dest src len : Addr) : Option (Addr × Mem) :=
  if dest ≤ src ∨ src + len ≤ dest then memcpy fuel mem dest src len
  else do
    -- copy from the tail because there is overlap
    let d := dest + len
    let tail := dest
    let body := wordCeil tail
    let head := if dest &&& 3#32 ≠ src &&& 3#32 then tail else lastBoundary d tail
    let c ← whileLoop (Copy.above head) Copy.byteDown fuel ⟨mem, d, src + len⟩
    let c ← whileLoop (Copy.above body) Copy.wordDown fuel c
    let c ← whileLoop (Copy.above tail) Copy.byteDown fuel c
    return (dest, c.mem)

/-! ## Blocks -/

variable {m₀ mem : Mem} {dest src d s a limit : Addr} {f g : Addr → UInt8}
  {w lo hi k n stop fuel : Nat} {c : Copy}

/-- A block of `w` bytes at `d`; the byte at the offset `i` is `g i`. -/
def writeBlock (w : Nat) (g : Addr → UInt8) (mem : Mem) (d : Addr) : Mem :=
  fun a => if (a - d).toNat < w then g (a - d) else mem a

/-- A byte is a block. -/
theorem update_eq_writeBlock (mem : Mem) (d : Addr) (g : Addr → UInt8) :
    Function.update mem d (g 0#32) = writeBlock 1 g mem d := by
  funext a
  rw [writeBlock]
  by_cases h : a = d
  · rw [h, Function.update_self, BitVec.sub_self, if_pos (by decide)]
  · have hne : ¬ (a - d).toNat < 1 := by
      intro hlt
      apply h
      bv_omega
    rw [Function.update_of_ne h, if_neg hne]

theorem and_three (a : Addr) : (a &&& 3#32).toNat = a.toNat % 4 := by
  rw [BitVec.toNat_and]
  exact Nat.and_two_pow_sub_one_eq_mod a.toNat 2

/-- An address of a word. -/
theorem and_three_eq_zero_iff : a &&& 3#32 = 0#32 ↔ 4 ∣ a.toNat := by
  rw [← BitVec.toNat_inj, and_three]
  exact (Nat.dvd_iff_mod_eq_zero ..).symm

theorem toNat_wordFloor (a : Addr) : (wordFloor a).toNat = a.toNat / 4 * 4 := by
  have hshift : wordFloor a = (a >>> 2) <<< 2 := by
    apply BitVec.eq_of_getLsbD_eq
    intro i hi
    rw [wordFloor, BitVec.getLsbD_and, BitVec.getLsbD_not, BitVec.getLsbD_shiftLeft,
      BitVec.getLsbD_ushiftRight]
    rcases Nat.lt_or_ge i 2 with hlow | hhigh
    · interval_cases i <;> simp
    · have hthree : (3#32).getLsbD i = false :=
        Nat.testBit_lt_two_pow (lt_of_lt_of_le (by decide) (Nat.pow_le_pow_right (by decide) hhigh))
      rw [hthree, show 2 + (i - 2) = i by omega]
      have hnot : ¬ i < 2 := Nat.not_lt.mpr hhigh
      simp [hi, hnot]
  have hlt := a.isLt
  rw [hshift, BitVec.toNat_shiftLeft, BitVec.toNat_ushiftRight, Nat.shiftRight_eq_div_pow,
    Nat.shiftLeft_eq]
  exact Nat.mod_eq_of_lt (by omega)

theorem toNat_wordCeil (a : Addr) :
    (wordCeil a).toNat = if a.toNat + 3 < 2 ^ 32 then (a.toNat + 3) / 4 * 4 else 0 := by
  have hlt := a.isLt
  rw [wordCeil, toNat_wordFloor, BitVec.toNat_add, BitVec.toNat_ofNat]
  split <;> lia

/-- The byte `i` of a word is the one it was made of. -/
theorem extract_word (b : Nat → BitVec 8) {i : Nat} (hi : i < 4) :
    (b 3 ++ b 2 ++ b 1 ++ b 0 : BitVec 32).extractLsb' (8 * i) 8 = b i := by
  apply BitVec.eq_of_getLsbD_eq
  intro j hj
  have happend : ∀ k, (b 3 ++ b 2 ++ b 1 ++ b 0 : BitVec 32).getLsbD k =
      if k < 8 then (b 0).getLsbD k else if k < 16 then (b 1).getLsbD (k - 8)
        else if k < 24 then (b 2).getLsbD (k - 16) else (b 3).getLsbD (k - 24) := by
    intro k
    refine (BitVec.getLsbD_append).trans ?_
    rw [BitVec.getLsbD_append, BitVec.getLsbD_append]
    simp only [Nat.sub_sub]
    split_ifs <;> grind
  rw [BitVec.getLsbD_extractLsb', happend, decide_eq_true hj, Bool.true_and]
  interval_cases i
  all_goals split_ifs <;> lia

/-- A word is a block of four bytes. -/
theorem storeWord_loadWord (mem : Mem) (hd : 4 ∣ d.toNat) (hs : 4 ∣ s.toNat) :
    ∃ word, loadWord mem s = some word ∧
      storeWord mem d word = some (writeBlock 4 (fun i => mem (s + i)) mem d) := by
  refine ⟨_, if_pos (and_three_eq_zero_iff.mpr hs), ?_⟩
  rw [storeWord, if_pos (and_three_eq_zero_iff.mpr hd)]
  congr 1
  funext a
  rw [writeBlock]
  split
  · rename_i hlt
    have hbyte := extract_word (fun i => (mem (s + BitVec.ofNat 32 i)).toBitVec) hlt
    rw [BitVec.ofNat_toNat, BitVec.setWidth_eq, BitVec.add_zero] at hbyte
    exact UInt8.toBitVec_inj.mp hbyte
  · rfl

/-- The block `[lo, hi)` of the region at `dest` is written: its byte at the offset `o` is `f o`, and
nothing else has changed since `m₀`. -/
def Written (m₀ : Mem) (dest : Addr) (f : Addr → UInt8) (lo hi : Nat) (mem : Mem) : Prop :=
  ∀ o, mem (dest + o) = if lo ≤ o.toNat ∧ o.toNat < hi then f o else m₀ (dest + o)

theorem written_zero : Written m₀ dest f lo lo m₀ := by
  intro o
  rw [if_neg (by omega)]

/-- The whole region is a block. -/
theorem Written.eq_writeBlock (h : Written m₀ dest f 0 n mem) : mem = writeBlock n f m₀ dest := by
  funext a
  have ha := h (a - dest)
  rw [BitVec.add_comm, BitVec.sub_add_cancel] at ha
  rw [ha, writeBlock]
  simp only [Nat.zero_le, true_and]

/-- What the next block writes. -/
theorem writeBlock_offset (hk : k + w < 2 ^ 32)
    (hg : ∀ o : Addr, k ≤ o.toNat → o.toNat < k + w → g (o - BitVec.ofNat 32 k) = f o) (o : Addr) :
    writeBlock w g mem (dest + BitVec.ofNat 32 k) (dest + o) =
      if k ≤ o.toNat ∧ o.toNat < k + w then f o else mem (dest + o) := by
  have hoff : dest + o - (dest + BitVec.ofNat 32 k) = o - BitVec.ofNat 32 k := by bv_omega
  have hin : (o - BitVec.ofNat 32 k).toNat < w ↔ k ≤ o.toNat ∧ o.toNat < k + w := by bv_omega
  rw [writeBlock, hoff]
  simp only [hin]
  split
  · rename_i ho
    exact hg o ho.1 ho.2
  · rfl

/-- The block grows at its end. -/
theorem Written.up (h : Written m₀ dest f 0 k mem) (hk : k + w < 2 ^ 32)
    (hg : ∀ o : Addr, k ≤ o.toNat → o.toNat < k + w → g (o - BitVec.ofNat 32 k) = f o) :
    Written m₀ dest f 0 (k + w) (writeBlock w g mem (dest + BitVec.ofNat 32 k)) := by
  intro o
  rw [writeBlock_offset hk hg, h o]
  split_ifs <;> first | rfl | omega

/-- The block grows at its start. -/
theorem Written.down (h : Written m₀ dest f (k + w) n mem) (hk : k + w < 2 ^ 32)
    (hn : k + w ≤ n)
    (hg : ∀ o : Addr, k ≤ o.toNat → o.toNat < k + w → g (o - BitVec.ofNat 32 k) = f o) :
    Written m₀ dest f k n (writeBlock w g mem (dest + BitVec.ofNat 32 k)) := by
  intro o
  rw [writeBlock_offset hk hg, h o]
  split_ifs <;> first | rfl | omega

/-! ## Upwards -/

/-- The region at `a` of `n` bytes is an object of C: it and the address past its end are
addresses. -/
def InMemory (a : Addr) (n : Nat) : Prop := a.toNat + n < 2 ^ 32

/-- What a byte of `src` was. -/
def source (m₀ : Mem) (src : Addr) (o : Addr) : UInt8 := m₀ (src + o)

/-- A copy that has done the first `k` bytes. -/
structure Up (m₀ : Mem) (dest src : Addr) (k : Nat) (c : Copy) : Prop where
  d_eq : c.d = dest + BitVec.ofNat 32 k
  s_eq : c.s = src + BitVec.ofNat 32 k
  written : Written m₀ dest (source m₀ src) 0 k c.mem

/-- No byte of the source is written before it is read: the destination starts at or below it, or
the two are disjoint. -/
def UpSafe (dest src : Addr) (n : Nat) : Prop :=
  dest.toNat ≤ src.toNat ∨ src.toNat + n ≤ dest.toNat

/-- A byte that is still to be read does not lie in the first part of the destination. -/
theorem UpSafe.le_source (hsafe : UpSafe dest src n) (hd : InMemory dest n) (hs : InMemory src n)
    {o : Addr} (hko : k ≤ o.toNat) (ho : o.toNat < n) : k ≤ (src + o - dest).toNat := by
  unfold InMemory at hd hs
  rcases hsafe with hle | hdisj
  · bv_omega
  · bv_omega

/-- The next block, read from a memory where the bytes below `k` are written. -/
theorem Up.source_eq (h : Up m₀ dest src k c) (hsafe : UpSafe dest src n) (hd : InMemory dest n)
    (hs : InMemory src n) {o : Addr} (hko : k ≤ o.toNat) (ho : o.toNat < n) :
    c.mem (c.s + (o - BitVec.ofNat 32 k)) = source m₀ src o := by
  have haddr : c.s + (o - BitVec.ofNat 32 k) = dest + (src + o - dest) := by
    rw [h.s_eq]
    bv_omega
  have hback : dest + (src + o - dest) = src + o := by bv_omega
  have hlate : k ≤ (src + o - dest).toNat := hsafe.le_source hd hs hko ho
  rw [haddr, h.written, if_neg (by lia), hback, source]

/-- The addresses of a region do not wrap around. -/
theorem InMemory.toNat_add (ha : InMemory a n) (hk : k ≤ n) :
    (a + BitVec.ofNat 32 k).toNat = a.toNat + k := by
  unfold InMemory at ha
  bv_omega

theorem exists_ofNat (len : Addr) : ∃ n, len.toNat = n ∧ len = BitVec.ofNat 32 n :=
  ⟨len.toNat, rfl, by rw [BitVec.ofNat_toNat, BitVec.setWidth_eq]⟩

theorem ofNat_add_ofNat (a : Addr) (k w : Nat) :
    a + BitVec.ofNat 32 k + BitVec.ofNat 32 w = a + BitVec.ofNat 32 (k + w) := by
  rw [BitVec.ofNat_add, BitVec.add_assoc]

/-- A block is copied upwards. -/
theorem Up.block (h : Up m₀ dest src k c) (hsafe : UpSafe dest src n) (hd : InMemory dest n)
    (hs : InMemory src n) (hk : k + w ≤ n) :
    Up m₀ dest src (k + w) ⟨writeBlock w (fun i => c.mem (c.s + i)) c.mem c.d,
      c.d + BitVec.ofNat 32 w, c.s + BitVec.ofNat 32 w⟩ where
  d_eq := by rw [h.d_eq, ofNat_add_ofNat]
  s_eq := by rw [h.s_eq, ofNat_add_ofNat]
  written := by
    have hn : n < 2 ^ 32 := by
      unfold InMemory at hd
      omega
    rw [h.d_eq]
    exact h.written.up (g := fun i => c.mem (c.s + i)) (show k + w < 2 ^ 32 by omega)
      fun o hko ho => h.source_eq hsafe hd hs hko (by omega)

/-- `d < limit`, where `limit` is `stop` bytes into the region. -/
theorem below_iff (hd : InMemory dest n) (hk : k ≤ n)
    (hlimit : ∀ k ≤ n, dest.toNat + k < limit.toNat ↔ k < stop) :
    dest + BitVec.ofNat 32 k < limit ↔ k < stop := by
  rw [← hlimit k hk, BitVec.lt_def, hd.toNat_add hk]

theorem Up.below_iff (h : Up m₀ dest src k c) (hd : InMemory dest n) (hk : k ≤ n)
    (hlimit : ∀ k ≤ n, dest.toNat + k < limit.toNat ↔ k < stop) :
    Copy.below limit c = true ↔ k < stop := by
  unfold Copy.below
  rw [decide_eq_true_iff, h.d_eq]
  exact Util.below_iff hd hk hlimit

/-- The byte loops of `memcpy`. -/
theorem Up.bytes (h : Up m₀ dest src k c) (hsafe : UpSafe dest src n) (hd : InMemory dest n)
    (hs : InMemory src n) (hk : k ≤ n) (hstop : stop ≤ n) (hfuel : n < fuel)
    (hlimit : ∀ k ≤ n, dest.toNat + k < limit.toNat ↔ k < stop) :
    ∃ t, whileLoop (Copy.below limit) Copy.byteUp fuel c = some t ∧
      Up m₀ dest src (max k stop) t := by
  have hstep : ∀ k c, k + 1 ≤ stop → k ≤ n ∧ Up m₀ dest src k c →
      ∃ t, Copy.byteUp c = some t ∧ k + 1 ≤ n ∧ Up m₀ dest src (k + 1) t := by
    rintro k c hkw ⟨hk, hup⟩
    have hblock := hup.block hsafe hd hs (show k + 1 ≤ n by omega)
    rw [← update_eq_writeBlock, BitVec.add_zero] at hblock
    exact ⟨_, rfl, by omega, hblock⟩
  obtain ⟨t, ht, hup⟩ := whileLoop_stride (fun k c => k ≤ n ∧ Up m₀ dest src k c) Nat.one_pos
    (fun k c hat => hat.2.below_iff hd hat.1 hlimit) hstep ⟨hk, h⟩ (fun _ => one_dvd _)
    (show stop - k < fuel by omega)
  exact ⟨t, ht, hup.2⟩

/-- A region's word boundary. -/
theorem dvd_offset (ha : InMemory a n) (hk : k ≤ n) (h : 4 ∣ a.toNat + k) :
    4 ∣ (a + BitVec.ofNat 32 k).toNat := by
  rwa [ha.toNat_add hk]

/-- The word loop of `memcpy`, from a word boundary. -/
theorem Up.words (h : Up m₀ dest src k c) (hsafe : UpSafe dest src n) (hd : InMemory dest n)
    (hs : InMemory src n) (hk : k ≤ n) (hstop : stop ≤ n) (hfuel : n < fuel)
    (hlimit : ∀ k ≤ n, dest.toNat + k < limit.toNat ↔ k < stop)
    (hword : k < stop → 4 ∣ dest.toNat + k ∧ 4 ∣ src.toNat + k ∧ 4 ∣ stop - k) :
    ∃ t, whileLoop (Copy.below limit) Copy.wordUp fuel c = some t ∧
      Up m₀ dest src (max k stop) t := by
  let At (k : Nat) (c : Copy) : Prop :=
    k ≤ n ∧ (k < stop → 4 ∣ dest.toNat + k ∧ 4 ∣ src.toNat + k) ∧ Up m₀ dest src k c
  have hstep : ∀ k c, k + 4 ≤ stop → At k c → ∃ t, Copy.wordUp c = some t ∧ At (k + 4) t := by
    rintro k c hkw ⟨hk, halign, hup⟩
    obtain ⟨hdk, hsk⟩ := halign (by lia)
    have hd4 : 4 ∣ c.d.toNat := hup.d_eq ▸ dvd_offset hd hk hdk
    have hs4 : 4 ∣ c.s.toNat := hup.s_eq ▸ dvd_offset hs hk hsk
    obtain ⟨word, hload, hstore⟩ := storeWord_loadWord c.mem hd4 hs4
    refine ⟨_, ?_, by lia, fun _ => by lia, hup.block hsafe hd hs (by lia)⟩
    simp only [Copy.wordUp, hload, hstore, Option.bind_eq_bind, Option.bind_some, Option.pure_def]
  obtain ⟨t, ht, hup⟩ := whileLoop_stride At (show 0 < 4 by decide)
    (fun k c hat => hat.2.2.below_iff hd hat.1 hlimit) hstep
    ⟨hk, fun hlt => ⟨(hword hlt).1, (hword hlt).2.1⟩, h⟩ (fun hlt => (hword hlt).2.2)
    (show stop - k < fuel by lia)
  exact ⟨t, ht, hup.2.2⟩

/-- Where the bytes before the words end: at a word boundary, or with no word left. -/
theorem firstBoundary_offset (hd : InMemory dest n) :
    ∃ stop ≤ n, (∀ k ≤ n, dest.toNat + k < (firstBoundary dest (dest + BitVec.ofNat 32 n)).toNat ↔
      k < stop) ∧ ((dest.toNat + n) / 4 * 4 ≤ dest.toNat + stop ∨ 4 ∣ dest.toNat + stop) := by
  have htail := hd.toNat_add le_rfl
  unfold InMemory at hd
  have hceil := toNat_wordCeil dest
  rw [firstBoundary]
  split_ifs with hshort
  · rw [BitVec.lt_def, htail, hceil] at hshort
    rw [htail]
    split at hshort
    · exact ⟨n, le_rfl, fun k _ => by lia, by lia⟩
    · exact absurd hshort (Nat.not_lt_zero _)
  · rw [BitVec.lt_def, htail, hceil] at hshort
    rw [hceil]
    by_cases hwrap : dest.toNat + 3 < 2 ^ 32
    · rw [if_pos hwrap] at hshort ⊢
      exact ⟨(dest.toNat + 3) / 4 * 4 - dest.toNat, by lia, fun k _ => by lia, by lia⟩
    · rw [if_neg hwrap]
      exact ⟨0, Nat.zero_le _, fun k _ => by lia, by lia⟩

/-- **`memcpy`** copies as if it read everything before it wrote anything. -/
theorem memcpy_eq {len : Addr} (hsafe : UpSafe dest src len.toNat) (hd : InMemory dest len.toNat)
    (hs : InMemory src len.toNat) (hfuel : len.toNat < fuel) :
    memcpy fuel mem dest src len =
      some (dest, writeBlock len.toNat (source mem src) mem dest) := by
  obtain ⟨n, hn, hlen⟩ := exists_ofNat len
  rw [hn] at hsafe hd hs hfuel ⊢
  have htail := hd.toNat_add le_rfl
  -- the bytes up to the first word boundary
  obtain ⟨head, hheadn, hhead, hboundary⟩ : ∃ head ≤ n,
      (∀ k ≤ n, dest.toNat + k < (if dest &&& 3#32 ≠ src &&& 3#32 then dest + BitVec.ofNat 32 n
        else firstBoundary dest (dest + BitVec.ofNat 32 n)).toNat ↔ k < head) ∧
      ((dest.toNat + n) / 4 * 4 ≤ dest.toNat + head ∨
        4 ∣ dest.toNat + head ∧ 4 ∣ src.toNat + head) := by
    by_cases halign : dest &&& 3#32 = src &&& 3#32
    · obtain ⟨head, hheadn, hhead, hboundary⟩ := firstBoundary_offset hd
      have hmod := congrArg BitVec.toNat halign
      rw [and_three, and_three] at hmod
      rw [if_neg (not_not.mpr halign)]
      exact ⟨head, hheadn, hhead, by lia⟩
    · rw [if_pos halign, htail]
      exact ⟨n, le_rfl, fun k _ => by lia, by lia⟩
  have hstart : Up mem dest src 0 ⟨mem, dest, src⟩ :=
    ⟨(BitVec.add_zero dest).symm, (BitVec.add_zero src).symm, written_zero⟩
  obtain ⟨c₁, hc₁, hup₁⟩ := hstart.bytes hsafe hd hs (Nat.zero_le n) hheadn hfuel hhead
  -- the words
  obtain ⟨c₂, hc₂, hup₂⟩ := hup₁.words hsafe hd hs (by lia)
    (show (dest.toNat + n) / 4 * 4 - dest.toNat ≤ n by lia) hfuel
    (fun k _ => by rw [toNat_wordFloor, htail]; lia) (fun _ => by lia)
  -- the rest
  obtain ⟨c₃, hc₃, hup₃⟩ := hup₂.bytes hsafe hd hs (by lia) (le_refl n) hfuel
    (fun k _ => by rw [htail]; lia)
  have hend : max (max (max 0 head) ((dest.toNat + n) / 4 * 4 - dest.toNat)) n = n := by lia
  rw [hend] at hup₃
  rw [memcpy, hlen]
  simp only [hc₁, hc₂, hc₃, Option.bind_eq_bind, Option.bind_some, Option.pure_def,
    hup₃.written.eq_writeBlock]

/-- Four copies of the low byte of `c`. -/
theorem cccc_extract (c : BitVec 32) {i : Nat} (hi : i < 4) :
    ((c &&& 0xff#32) ||| (c &&& 0xff#32) <<< 8 ||| (c &&& 0xff#32) <<< 16 |||
      (c &&& 0xff#32) <<< 24).extractLsb' (8 * i) 8 = (c &&& 0xff#32).setWidth 8 := by
  have hlow : ∀ k, (0xff#32).getLsbD k = decide (k < 8) := by
    intro k
    rcases Nat.lt_or_ge k 8 with h | h
    · interval_cases k <;> rfl
    · rw [decide_eq_false (Nat.not_lt.mpr h)]
      exact Nat.testBit_lt_two_pow
        (lt_of_lt_of_le (by decide) (Nat.pow_le_pow_right (by decide) h))
  apply BitVec.eq_of_getLsbD_eq
  intro j hj
  simp only [BitVec.getLsbD_extractLsb', BitVec.getLsbD_or, BitVec.getLsbD_shiftLeft,
    BitVec.getLsbD_and, BitVec.getLsbD_setWidth, hlow]
  interval_cases i <;> interval_cases j <;> simp

/-- A region of which the first `k` bytes are filled. -/
structure Filled (m₀ : Mem) (dest : Addr) (b : UInt8) (k : Nat) (s : Mem × Addr) : Prop where
  d_eq : s.2 = dest + BitVec.ofNat 32 k
  written : Written m₀ dest (fun _ => b) 0 k s.1

section Fill

variable {b : UInt8} {cccc : BitVec 32} {s : Mem × Addr}

/-- A block is filled. -/
theorem Filled.block (h : Filled m₀ dest b k s) (hd : InMemory dest n) (hk : k + w ≤ n) :
    Filled m₀ dest b (k + w) (writeBlock w (fun _ => b) s.1 s.2, s.2 + BitVec.ofNat 32 w) where
  d_eq := by rw [h.d_eq, ofNat_add_ofNat]
  written := by
    unfold InMemory at hd
    rw [h.d_eq]
    exact h.written.up (g := fun _ => b) (show k + w < 2 ^ 32 by omega) fun _ _ _ => rfl

theorem Filled.below_iff (h : Filled m₀ dest b k s) (hd : InMemory dest n) (hk : k ≤ n)
    (hlimit : ∀ k ≤ n, dest.toNat + k < limit.toNat ↔ k < stop) :
    decide (s.2 < limit) = true ↔ k < stop := by
  rw [decide_eq_true_iff, h.d_eq]
  exact Util.below_iff hd hk hlimit

/-- The byte loops of `memset`. -/
theorem Filled.bytes (h : Filled m₀ dest b k s) (hd : InMemory dest n) (hk : k ≤ n)
    (hstop : stop ≤ n) (hfuel : n < fuel)
    (hlimit : ∀ k ≤ n, dest.toNat + k < limit.toNat ↔ k < stop) :
    ∃ t, whileLoop (fun s : Mem × Addr => s.2 < limit) (setByte b) fuel s = some t ∧
      Filled m₀ dest b (max k stop) t := by
  have hstep : ∀ k s, k + 1 ≤ stop → k ≤ n ∧ Filled m₀ dest b k s →
      ∃ t, setByte b s = some t ∧ k + 1 ≤ n ∧ Filled m₀ dest b (k + 1) t := by
    rintro k s hkw ⟨hk, hfill⟩
    have hblock := hfill.block hd (show k + 1 ≤ n by omega)
    rw [← update_eq_writeBlock] at hblock
    exact ⟨_, rfl, by omega, hblock⟩
  obtain ⟨t, ht, hfill⟩ := whileLoop_stride (fun k s => k ≤ n ∧ Filled m₀ dest b k s) Nat.one_pos
    (fun k s hat => hat.2.below_iff hd hat.1 hlimit) hstep ⟨hk, h⟩ (fun _ => one_dvd _)
    (show stop - k < fuel by omega)
  exact ⟨t, ht, hfill.2⟩

/-- The word loop of `memset`, from a word boundary. -/
theorem Filled.words (h : Filled m₀ dest b k s) (hd : InMemory dest n) (hk : k ≤ n)
    (hstop : stop ≤ n) (hfuel : n < fuel)
    (hlimit : ∀ k ≤ n, dest.toNat + k < limit.toNat ↔ k < stop)
    (hcccc : ∀ i < 4, cccc.extractLsb' (8 * i) 8 = b.toBitVec)
    (hword : k < stop → 4 ∣ dest.toNat + k ∧ 4 ∣ stop - k) :
    ∃ t, whileLoop (fun s : Mem × Addr => s.2 < limit) (setWord cccc) fuel s = some t ∧
      Filled m₀ dest b (max k stop) t := by
  let At (k : Nat) (s : Mem × Addr) : Prop :=
    k ≤ n ∧ (k < stop → 4 ∣ dest.toNat + k) ∧ Filled m₀ dest b k s
  have hstep : ∀ k s, k + 4 ≤ stop → At k s → ∃ t, setWord cccc s = some t ∧ At (k + 4) t := by
    rintro k s hkw ⟨hk, halign, hfill⟩
    have hd4 : 4 ∣ s.2.toNat := hfill.d_eq ▸ dvd_offset hd hk (halign (by lia))
    have hstore : storeWord s.1 s.2 cccc = some (writeBlock 4 (fun _ => b) s.1 s.2) := by
      rw [storeWord, if_pos (and_three_eq_zero_iff.mpr hd4)]
      congr 1
      funext a
      rw [writeBlock]
      split
      · rename_i hlt
        exact UInt8.toBitVec_inj.mp (hcccc _ hlt)
      · rfl
    refine ⟨_, ?_, by lia, fun _ => by lia, hfill.block hd (by lia)⟩
    simp only [setWord, hstore, Option.bind_eq_bind, Option.bind_some, Option.pure_def]
  obtain ⟨t, ht, hfill⟩ := whileLoop_stride At (show 0 < 4 by decide)
    (fun k s hat => hat.2.2.below_iff hd hat.1 hlimit) hstep
    ⟨hk, fun hlt => (hword hlt).1, h⟩ (fun hlt => (hword hlt).2) (show stop - k < fuel by lia)
  exact ⟨t, ht, hfill.2.2⟩

/-- **`memset`** fills the region with the low byte of `c`. -/
theorem memset_eq {c len : Addr} (hd : InMemory dest len.toNat) (hfuel : len.toNat < fuel) :
    memset fuel mem dest c len =
      some (dest, writeBlock len.toNat (fun _ => ⟨(c &&& 0xff#32).setWidth 8⟩) mem dest) := by
  obtain ⟨n, hn, hlen⟩ := exists_ofNat len
  rw [hn] at hd hfuel ⊢
  have htail := hd.toNat_add le_rfl
  obtain ⟨head, hheadn, hhead, hboundary⟩ := firstBoundary_offset hd
  have hstart : Filled mem dest ⟨(c &&& 0xff#32).setWidth 8⟩ 0 (mem, dest) :=
    ⟨(BitVec.add_zero dest).symm, written_zero⟩
  obtain ⟨s₁, hs₁, hfill₁⟩ := hstart.bytes hd (Nat.zero_le n) hheadn hfuel hhead
  obtain ⟨s₂, hs₂, hfill₂⟩ := hfill₁.words hd (by lia)
    (show (dest.toNat + n) / 4 * 4 - dest.toNat ≤ n by lia) hfuel
    (fun k _ => by rw [toNat_wordFloor, htail]; lia) (fun _ hi => cccc_extract c hi)
    (fun _ => by lia)
  obtain ⟨s₃, hs₃, hfill₃⟩ := hfill₂.bytes hd (by lia) (le_refl n) hfuel
    (fun k _ => by rw [htail]; lia)
  have hend : max (max (max 0 head) ((dest.toNat + n) / 4 * 4 - dest.toNat)) n = n := by lia
  rw [hend] at hfill₃
  rw [memset, hlen]
  simp only [hs₁, hs₂, hs₃, Option.bind_eq_bind, Option.bind_some, Option.pure_def,
    hfill₃.written.eq_writeBlock]

end Fill

/-! ## Downwards -/

/-- A copy that has still to do the first `k` bytes of `n`. -/
structure Down (m₀ : Mem) (dest src : Addr) (n k : Nat) (c : Copy) : Prop where
  d_eq : c.d = dest + BitVec.ofNat 32 k
  s_eq : c.s = src + BitVec.ofNat 32 k
  written : Written m₀ dest (source m₀ src) k n c.mem

theorem sub_ofNat (a : Addr) (k w : Nat) :
    a + BitVec.ofNat 32 (k + w) - BitVec.ofNat 32 w = a + BitVec.ofNat 32 k := by
  rw [← ofNat_add_ofNat, BitVec.add_sub_cancel]

/-- A block is copied downwards, to a destination above the source. -/
theorem Down.block (h : Down m₀ dest src n (k + w) c) (habove : src.toNat < dest.toNat)
    (hd : InMemory dest n) (hs : InMemory src n) (hk : k + w ≤ n) :
    Down m₀ dest src n k ⟨writeBlock w (fun i => c.mem (c.s - BitVec.ofNat 32 w + i)) c.mem
      (c.d - BitVec.ofNat 32 w), c.d - BitVec.ofNat 32 w, c.s - BitVec.ofNat 32 w⟩ where
  d_eq := by rw [h.d_eq, sub_ofNat]
  s_eq := by rw [h.s_eq, sub_ofNat]
  written := by
    unfold InMemory at hd hs
    rw [h.d_eq, h.s_eq, sub_ofNat, sub_ofNat]
    refine h.written.down (g := fun i => c.mem (src + BitVec.ofNat 32 k + i))
      (show k + w < 2 ^ 32 by lia) hk fun o hko ho => ?_
    have haddr : src + BitVec.ofNat 32 k + (o - BitVec.ofNat 32 k) = dest + (src + o - dest) := by
      bv_omega
    have hback : dest + (src + o - dest) = src + o := by bv_omega
    -- the byte read lies below the block, or below the region
    have hearly : ¬ (k + w ≤ (src + o - dest).toNat ∧ (src + o - dest).toNat < n) := by bv_omega
    rw [haddr, h.written, if_neg hearly, hback, source]

theorem Down.above_iff (h : Down m₀ dest src n k c) (hd : InMemory dest n) (hk : k ≤ n)
    (hlimit : ∀ k ≤ n, limit.toNat < dest.toNat + k ↔ stop < k) :
    Copy.above limit c = true ↔ stop < k := by
  unfold Copy.above
  rw [decide_eq_true_iff, h.d_eq, ← hlimit k hk, BitVec.lt_def, hd.toNat_add hk]

/-- The byte loops of `memmove`. -/
theorem Down.bytes (h : Down m₀ dest src n k c) (habove : src.toNat < dest.toNat)
    (hd : InMemory dest n) (hs : InMemory src n) (hk : k ≤ n) (hfuel : n < fuel)
    (hlimit : ∀ k ≤ n, limit.toNat < dest.toNat + k ↔ stop < k) :
    ∃ t, whileLoop (Copy.above limit) Copy.byteDown fuel c = some t ∧
      Down m₀ dest src n (min k stop) t := by
  -- the loop counts the bytes that are done
  let At (done : Nat) (c : Copy) : Prop := done ≤ n ∧ Down m₀ dest src n (n - done) c
  have hstep : ∀ done c, done + 1 ≤ n - stop → At done c →
      ∃ t, Copy.byteDown c = some t ∧ At (done + 1) t := by
    rintro done c hdone ⟨hle, hdown⟩
    rw [show n - done = n - (done + 1) + 1 by lia] at hdown
    have hblock := hdown.block habove hd hs (by lia)
    rw [← update_eq_writeBlock, BitVec.add_zero] at hblock
    exact ⟨_, rfl, by lia, hblock⟩
  obtain ⟨t, ht, hdown⟩ := whileLoop_stride At Nat.one_pos
    (fun done c hat => (hat.2.above_iff hd (by lia) hlimit).trans (by lia)) hstep
    ⟨Nat.sub_le n k, (Nat.sub_sub_self hk).symm ▸ h⟩ (fun _ => one_dvd _)
    (show n - stop - (n - k) < fuel by lia)
  have hleft : n - max (n - k) (n - stop) = min k stop := by lia
  exact ⟨t, ht, hleft ▸ hdown.2⟩

/-- The word loop of `memmove`, from a word boundary. -/
theorem Down.words (h : Down m₀ dest src n k c) (habove : src.toNat < dest.toNat)
    (hd : InMemory dest n) (hs : InMemory src n) (hk : k ≤ n) (hfuel : n < fuel)
    (hlimit : ∀ k ≤ n, limit.toNat < dest.toNat + k ↔ stop < k)
    (hword : stop < k → 4 ∣ dest.toNat + k ∧ 4 ∣ src.toNat + k ∧ 4 ∣ k - stop) :
    ∃ t, whileLoop (Copy.above limit) Copy.wordDown fuel c = some t ∧
      Down m₀ dest src n (min k stop) t := by
  let At (done : Nat) (c : Copy) : Prop :=
    done ≤ n ∧ (done < n - stop → 4 ∣ dest.toNat + (n - done) ∧ 4 ∣ src.toNat + (n - done)) ∧
      Down m₀ dest src n (n - done) c
  have hstep : ∀ done c, done + 4 ≤ n - stop → At done c →
      ∃ t, Copy.wordDown c = some t ∧ At (done + 4) t := by
    rintro done c hdone ⟨hle, halign, hdown⟩
    obtain ⟨hdk, hsk⟩ := halign (by lia)
    rw [show n - done = n - (done + 4) + 4 by lia] at hdown
    have hd4 : 4 ∣ (c.d - 4#32).toNat := by
      rw [hdown.d_eq, sub_ofNat]
      exact dvd_offset hd (Nat.sub_le _ _) (by lia)
    have hs4 : 4 ∣ (c.s - 4#32).toNat := by
      rw [hdown.s_eq, sub_ofNat]
      exact dvd_offset hs (Nat.sub_le _ _) (by lia)
    obtain ⟨word, hload, hstore⟩ := storeWord_loadWord c.mem hd4 hs4
    refine ⟨_, ?_, by lia, fun _ => by lia, hdown.block habove hd hs (by lia)⟩
    simp only [Copy.wordDown, hload, hstore, Option.bind_eq_bind, Option.bind_some, Option.pure_def]
  obtain ⟨t, ht, hdown⟩ := whileLoop_stride At (show 0 < 4 by decide)
    (fun done c hat => (hat.2.2.above_iff hd (by lia) hlimit).trans (by lia)) hstep
    ⟨Nat.sub_le n k, fun hlt => by
      rw [Nat.sub_sub_self hk]
      exact ⟨(hword (by lia)).1, (hword (by lia)).2.1⟩, (Nat.sub_sub_self hk).symm ▸ h⟩
    (fun hlt => by
      rw [show n - stop - (n - k) = k - stop by lia]
      exact (hword (by lia)).2.2)
    (show n - stop - (n - k) < fuel by lia)
  have hleft : n - max (n - k) (n - stop) = min k stop := by lia
  exact ⟨t, ht, hleft ▸ hdown.2.2⟩

/-- Where the bytes after the words start. -/
theorem lastBoundary_offset (hd : InMemory dest n) :
    ∃ stop ≤ n, (∀ k ≤ n, (lastBoundary (dest + BitVec.ofNat 32 n) dest).toNat < dest.toNat + k ↔
      stop < k) ∧ (stop = 0 ∨ 4 ∣ dest.toNat + stop) := by
  have htail := hd.toNat_add le_rfl
  have hfloor := toNat_wordFloor (dest + BitVec.ofNat 32 n)
  rw [htail] at hfloor
  rw [lastBoundary]
  split_ifs with hshort
  · exact ⟨0, Nat.zero_le n, fun k _ => by lia, .inl rfl⟩
  · rw [BitVec.lt_def, hfloor] at hshort
    rw [hfloor]
    exact ⟨(dest.toNat + n) / 4 * 4 - dest.toNat, by lia, fun k _ => by lia, by lia⟩

/-- **`memmove`** from below, where the word boundary above `dest` is an address. -/
theorem memmove_eq {len : Addr} (habove : src.toNat < dest.toNat)
    (hover : dest.toNat < src.toNat + len.toNat) (htop : dest.toNat + 3 < 2 ^ 32)
    (hd : InMemory dest len.toNat) (hs : InMemory src len.toNat) (hfuel : len.toNat < fuel) :
    memmove fuel mem dest src len =
      some (dest, writeBlock len.toNat (source mem src) mem dest) := by
  obtain ⟨n, hn, hlen⟩ := exists_ofNat len
  have hbranch : ¬ (dest ≤ src ∨ src + len ≤ dest) := by
    unfold InMemory at hs
    bv_omega
  rw [hn] at hover hd hs hfuel ⊢
  -- the bytes down to the last word boundary
  obtain ⟨head, hheadn, hhead, hboundary⟩ : ∃ head ≤ n,
      (∀ k ≤ n, (if dest &&& 3#32 ≠ src &&& 3#32 then dest
        else lastBoundary (dest + BitVec.ofNat 32 n) dest).toNat < dest.toNat + k ↔ head < k) ∧
      (head = 0 ∨ 4 ∣ dest.toNat + head ∧ 4 ∣ src.toNat + head) := by
    by_cases halign : dest &&& 3#32 = src &&& 3#32
    · obtain ⟨head, hheadn, hhead, hboundary⟩ := lastBoundary_offset hd
      have hmod := congrArg BitVec.toNat halign
      rw [and_three, and_three] at hmod
      rw [if_neg (not_not.mpr halign)]
      exact ⟨head, hheadn, hhead, by omega⟩
    · rw [if_pos halign]
      exact ⟨0, Nat.zero_le n, fun k _ => by lia, .inl rfl⟩
  have hstart : Down mem dest src n n ⟨mem, dest + BitVec.ofNat 32 n, src + BitVec.ofNat 32 n⟩ :=
    ⟨rfl, rfl, written_zero⟩
  obtain ⟨c₁, hc₁, hdown₁⟩ := hstart.bytes habove hd hs le_rfl hfuel hhead
  have hceil := toNat_wordCeil dest
  rw [if_pos htop] at hceil
  -- the words
  have hbody : ∀ k ≤ n, (wordCeil dest).toNat < dest.toNat + k ↔
      (dest.toNat + 3) / 4 * 4 - dest.toNat < k := fun k _ => by
    rw [hceil]
    lia
  obtain ⟨c₂, hc₂, hdown₂⟩ := hdown₁.words habove hd hs (by lia) hfuel hbody
    (fun _ => by lia)
  -- the rest
  obtain ⟨c₃, hc₃, hdown₃⟩ := hdown₂.bytes habove hd hs (by lia) hfuel
    (fun k _ => (by lia : dest.toNat < dest.toNat + k ↔ 0 < k))
  rw [Nat.min_zero] at hdown₃
  rw [memmove, if_neg hbranch, hlen]
  simp only [hc₁, hc₂, hc₃, Option.bind_eq_bind, Option.bind_some, Option.pure_def,
    hdown₃.written.eq_writeBlock]

/-! ## The routines -/

/-- The routine leaves in `dest` what `src` held and changes nothing else. -/
def Copies (routine : Nat → Mem → Addr → Addr → Addr → Option (Addr × Mem))
    (dest src len : Addr) : Prop :=
  ∀ mem, ∃ fuel, routine fuel mem dest src len =
    some (dest, writeBlock len.toNat (source mem src) mem dest)

/-- `memset` fills exactly `len` bytes. -/
def Fills (dest len : Addr) : Prop :=
  ∀ mem c, ∃ fuel, memset fuel mem dest c len =
    some (dest, writeBlock len.toNat (fun _ => ⟨(c &&& 0xff#32).setWidth 8⟩) mem dest)

/-- The regions overlap, the destination above the source, and the word boundary above `dest` is
not an address. -/
def RoundsPastTop (dest src len : Addr) : Prop :=
  src.toNat < dest.toNat ∧ dest.toNat < src.toNat + len.toNat ∧ 2 ^ 32 ≤ dest.toNat + 3

/-- `memmove` of two bytes to the last place they fit: its words end at the address 0. -/
theorem memmove_past_top (fuel : Nat) (mem : Mem) :
    memmove fuel mem 0xfffffffd#32 0xfffffffc#32 2#32 = none := by
  rw [memmove, if_neg (by decide)]
  simp only [Option.bind_eq_bind]
  rcases hhead : whileLoop (Copy.above 0xfffffffd#32) Copy.byteDown fuel
    ⟨mem, 0xffffffff#32, 0xfffffffe#32⟩ with _ | c
  · exact congrArg (Option.bind · _) hhead
  refine (congrArg (Option.bind · _) hhead).trans ?_
  -- the first loop ends where `dest` starts
  have hend : c.d = 0xfffffffd#32 := by
    obtain ⟨hd, hguard⟩ := whileLoop_partial (fun c => 0xfffffffd#32 ≤ c.d)
      (fun c t habove _ hbyte => by
        cases hbyte
        have hlt : 0xfffffffd#32 < c.d := of_decide_eq_true habove
        show 0xfffffffd#32 ≤ c.d - 1#32
        bv_omega)
      (show 0xfffffffd#32 ≤ 0xffffffff#32 by decide) hhead
    have hle : ¬ 0xfffffffd#32 < c.d := of_decide_eq_false hguard
    bv_omega
  -- and the next one goes on
  have hstore : ∀ w, storeWord c.mem (c.d - 4#32) w = none := by
    intro w
    rw [storeWord, hend]
    exact if_neg (by decide)
  have hword : Copy.wordDown c = none := by
    unfold Copy.wordDown
    simp [hstore]
  have habove : Copy.above (wordCeil 0xfffffffd#32) c = true := by
    rw [Copy.above, hend]
    decide
  have hbody : whileLoop (Copy.above (wordCeil 0xfffffffd#32)) Copy.wordDown fuel c = none := by
    cases fuel with
    | zero => rfl
    | succ fuel => rw [whileLoop, if_pos habove, hword, Option.bind_none]
  rw [Option.bind_some, hbody, Option.bind_none]

/-- There is one such place. -/
theorem RoundsPastTop.eq {len : Addr} (h : RoundsPastTop dest src len)
    (hd : InMemory dest len.toNat) (hs : InMemory src len.toNat) :
    dest = 0xfffffffd#32 ∧ src = 0xfffffffc#32 ∧ len = 2#32 := by
  unfold RoundsPastTop InMemory at *
  bv_omega

/-- **The word-wise routines equal the byte-wise ones**, exactly where `memmove` does not round past
the top of the address space: `memset` fills its region, `memcpy` copies to a place that is disjoint
or not above the source, and `memmove` copies. -/
theorem memory_routines_iff {len : Addr} (hd : InMemory dest len.toNat)
    (hs : InMemory src len.toNat) :
    (Fills dest len ∧
      (dest ≤ src ∨ src.toNat + len.toNat ≤ dest.toNat ∨ dest.toNat + len.toNat ≤ src.toNat →
        Copies memcpy dest src len) ∧
      Copies memmove dest src len) ↔ ¬ RoundsPastTop dest src len := by
  constructor
  · rintro ⟨-, -, hmove⟩ hpast
    obtain ⟨rfl, rfl, rfl⟩ := hpast.eq hd hs
    obtain ⟨fuel, hfuel⟩ := hmove fun _ => 0
    rw [memmove_past_top] at hfuel
    cases hfuel
  · intro hpast
    refine ⟨fun mem c => ⟨len.toNat + 1, memset_eq hd (Nat.lt_succ_self _)⟩,
      fun hsafe mem => ⟨len.toNat + 1, memcpy_eq ?_ hd hs (Nat.lt_succ_self _)⟩,
      fun mem => ⟨len.toNat + 1, ?_⟩⟩
    · rcases hsafe with hle | hdisj | hdisj
      · exact .inl (BitVec.le_def.mp hle)
      · exact .inr hdisj
      · exact .inl (by omega)
    · by_cases hbranch : dest ≤ src ∨ src + len ≤ dest
      · rw [memmove, if_pos hbranch]
        refine memcpy_eq ?_ hd hs (Nat.lt_succ_self _)
        unfold UpSafe InMemory at *
        bv_omega
      · unfold RoundsPastTop at hpast
        refine memmove_eq ?_ ?_ ?_ hd hs (Nat.lt_succ_self _)
        all_goals
          unfold InMemory at hs hd
          bv_omega

theorem memory_routines_iff_by_one :
    Fills 0x2001#32 7#32 ∧ (0x2001#32 ≤ 0x2000#32 ∨ 0x2000 + 7 ≤ 0x2001 ∨ 0x2001 + 7 ≤ 0x2000 →
      Copies memcpy 0x2001#32 0x2000#32 7#32) ∧ Copies memmove 0x2001#32 0x2000#32 7#32 :=
  (memory_routines_iff (by unfold InMemory; decide) (by unfold InMemory; decide)).mpr
    (by unfold RoundsPastTop; decide)

/-- Two bytes at the top of the address space are not moved up by one. -/
theorem not_copies_memmove :
    ¬ ∀ dest src len : Addr, InMemory dest len.toNat → InMemory src len.toNat →
      Copies memmove dest src len := by
  intro hcopies
  obtain ⟨fuel, hfuel⟩ := hcopies 0xfffffffd#32 0xfffffffc#32 2#32
    (by unfold InMemory; decide) (by unfold InMemory; decide) fun _ => 0
  rw [memmove_past_top] at hfuel
  cases hfuel

end Util
end CrosEc
