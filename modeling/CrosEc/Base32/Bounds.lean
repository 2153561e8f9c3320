import CrosEc.Base32.RoundTrip

/-!
# `common/base32.c`: what the encoder accesses

The arguments of `base32_encode` are C `int`s, and so are its counters; they wrap, as the firmware
is built with `-fno-strict-overflow`.  Here the encoder is followed access by access, for all
values of the arguments.  Which characters it stores does not matter for that: `Loop` has the
variables that do.

As long as `i` does not wrap, the loop stands at `loopAt k` in front of symbol `k`.  A symbol can
read one byte too many: the source may end in the byte that the symbol begins in, with a second bit
of the symbol in it.  `encode_inBounds_iff` says for which lengths that happens.
-/

namespace CrosEc
namespace Base32

/-! ## The accesses -/

/-- The value of a computed `int`. -/
def int32 (x : Int) : Int := x.bmod (2 ^ 32)

/-- `destlen_needed`, with the terminating null; `none` if there is no exact number of groups. -/
def destlenNeeded (srclenBits addCrcEvery : Int) : Option Int :=
  let symbols := (int32 (srclenBits + 4)).tdiv 5
  if addCrcEvery ≠ 0 then
    if symbols.tmod addCrcEvery ≠ 0 then none
    else some (int32 (int32 (symbols + symbols.tdiv addCrcEvery) + 1))
  else some (int32 (symbols + 1))

/-- The encoder returns `EC_ERROR_INVAL`. -/
def Rejects (destlenChars srclenBits addCrcEvery : Int) : Prop :=
  ∀ needed ∈ destlenNeeded srclenBits addCrcEvery, destlenChars < needed

/-- The variables of the loop. -/
structure Loop where
  i : Int
  didx : Int
  crcCount : Int

/-- The bytes of the source that the symbol at `i` is taken from. -/
def symReads (srclenBits i : Int) : List Int :=
  let sidx := i.tdiv 8
  let bitOffs := i.tmod 8
  -- the bits from the next byte, if any
  if ¬bitOffs ≤ 3 ∧ i + 1 < srclenBits then [sidx, sidx + 1] else [sidx]

/-- The characters of the destination that a round stores. -/
def symWrites (addCrcEvery : Int) (s : Loop) : List Int :=
  if addCrcEvery ≠ 0 ∧ int32 (s.crcCount + 1) = addCrcEvery then [s.didx, int32 (s.didx + 1)]
  else [s.didx]

/-- One round. -/
def Loop.next (addCrcEvery : Int) (s : Loop) : Loop :=
  let i := int32 (s.i + 5)
  let didx := int32 (s.didx + 1)
  if addCrcEvery = 0 then ⟨i, didx, s.crcCount⟩
  else if int32 (s.crcCount + 1) = addCrcEvery then ⟨i, int32 (didx + 1), 0⟩
  else ⟨i, didx, int32 (s.crcCount + 1)⟩

/-- The variables at the beginning of the rounds. -/
inductive Reaches (srclenBits addCrcEvery : Int) : Loop → Prop
  | start : Reaches srclenBits addCrcEvery ⟨0, 0, 0⟩
  | next (s : Loop) (h : Reaches srclenBits addCrcEvery s) (hi : s.i < srclenBits) :
      Reaches srclenBits addCrcEvery (s.next addCrcEvery)

/-- The bytes of the source that `base32_encode` reads. -/
inductive Reads (destlenChars srclenBits addCrcEvery : Int) : Int → Prop
  | sym (s : Loop) (hok : ¬Rejects destlenChars srclenBits addCrcEvery)
      (hs : Reaches srclenBits addCrcEvery s) (hi : s.i < srclenBits) (a : Int)
      (ha : a ∈ symReads srclenBits s.i) : Reads destlenChars srclenBits addCrcEvery a

/-- The characters of the destination that `base32_encode` writes. -/
inductive Writes (destlenChars srclenBits addCrcEvery : Int) : Int → Prop
  | clear : Writes destlenChars srclenBits addCrcEvery 0
  | sym (s : Loop) (hok : ¬Rejects destlenChars srclenBits addCrcEvery)
      (hs : Reaches srclenBits addCrcEvery s) (hi : s.i < srclenBits) (a : Int)
      (ha : a ∈ symWrites addCrcEvery s) : Writes destlenChars srclenBits addCrcEvery a
  | terminate (s : Loop) (hok : ¬Rejects destlenChars srclenBits addCrcEvery)
      (hs : Reaches srclenBits addCrcEvery s) (hi : ¬s.i < srclenBits) :
      Writes destlenChars srclenBits addCrcEvery s.didx

/-- The encoder reads only the source, and writes only the destination. -/
def AccessesInBounds (destlenChars srclenBits addCrcEvery : Int) : Prop :=
  (∀ a, Reads destlenChars srclenBits addCrcEvery a → 0 ≤ a ∧ a < (srclenBits + 7) / 8) ∧
    ∀ a, Writes destlenChars srclenBits addCrcEvery a → 0 ≤ a ∧ a < destlenChars

/-! ## The rounds -/

theorem int32_of_lt {x : Int} (hlow : 0 ≤ x) (hhigh : x < 2 ^ 31) : int32 x = x :=
  Int.bmod_eq_of_le (by omega) (by omega)

/-- The symbols of the group that have been seen in front of symbol `k`. -/
def countAt (addCrcEvery : Int) (k : Nat) : Int :=
  if addCrcEvery = 0 then 0 else if 0 < addCrcEvery then k % addCrcEvery else k

/-- The variables in front of symbol `k`. -/
def loopAt (addCrcEvery : Int) (k : Nat) : Loop :=
  ⟨5 * k, encodedLength k addCrcEvery.toNat, countAt addCrcEvery k⟩

theorem encodedLength_bounds (k every : Nat) :
    k ≤ encodedLength k every ∧ encodedLength k every ≤ 2 * k := by
  unfold encodedLength
  have hgroups := Nat.div_le_self k every
  split
  · exact ⟨Nat.le_add_right _ _, by omega⟩
  · omega

theorem encodedLength_mono {k m : Nat} (h : k ≤ m) (every : Nat) :
    encodedLength k every ≤ encodedLength m every := by
  have hgroups := Nat.div_le_div_right (c := every) h
  unfold encodedLength
  split <;> omega

/-- The symbol completes a group, which the count never does for a negative interval. -/
def Completes (addCrcEvery : Int) (k : Nat) : Prop :=
  addCrcEvery ≠ 0 ∧ countAt addCrcEvery k + 1 = addCrcEvery

instance (addCrcEvery : Int) (k : Nat) : Decidable (Completes addCrcEvery k) :=
  inferInstanceAs (Decidable (_ ∧ _))

theorem countAt_natCast {every : Nat} (hevery : every ≠ 0) (k : Nat) :
    countAt every k = ((k % every : Nat) : Int) := by
  rw [countAt, if_neg (by omega), if_pos (by omega)]
  rfl

theorem completes_natCast {every : Nat} (hevery : every ≠ 0) (k : Nat) :
    Completes every k ↔ every ∣ k + 1 := by
  have hsplit := Nat.div_add_mod k every
  have hlt := Nat.mod_lt k (Nat.pos_of_ne_zero hevery)
  rw [Completes, countAt_natCast hevery, Nat.dvd_iff_mod_eq_zero]
  constructor
  · rintro ⟨-, hfull⟩
    have hnext : k + 1 = every * (k / every + 1) := by
      rw [Nat.mul_succ]
      omega
    rw [hnext, Nat.mul_mod_right]
  · intro hdvd
    refine ⟨by omega, ?_⟩
    by_contra hpart
    rw [← hsplit, Nat.add_assoc, Nat.mul_add_mod, Nat.mod_eq_of_lt (by omega)] at hdvd
    omega

theorem not_completes {addCrcEvery : Int} (h : addCrcEvery ≤ 0) (k : Nat) :
    ¬Completes addCrcEvery k := by
  rintro ⟨hne, hfull⟩
  rw [countAt, if_neg hne, if_neg (by omega)] at hfull
  omega

/-- How many characters a round stores. -/
theorem encodedLength_succ (addCrcEvery : Int) (k : Nat) :
    encodedLength (k + 1) addCrcEvery.toNat =
      encodedLength k addCrcEvery.toNat + if Completes addCrcEvery k then 2 else 1 := by
  rcases le_or_gt addCrcEvery 0 with hle | hpos
  · rw [if_neg (not_completes hle k), Int.toNat_of_nonpos hle]
    rfl
  · obtain ⟨every, rfl⟩ : ∃ every : Nat, addCrcEvery = every := ⟨addCrcEvery.toNat, by omega⟩
    have hevery : every ≠ 0 := by omega
    rw [Int.toNat_natCast, encodedLength, encodedLength, if_pos hevery, if_pos hevery, Nat.succ_div]
    simp only [completes_natCast hevery]
    split <;> omega

theorem countAt_succ {addCrcEvery : Int} (hne : addCrcEvery ≠ 0) (k : Nat) :
    countAt addCrcEvery (k + 1) =
      if Completes addCrcEvery k then 0 else countAt addCrcEvery k + 1 := by
  rcases le_or_gt addCrcEvery 0 with hle | hpos
  · have hnotpos : ¬0 < addCrcEvery := by omega
    rw [if_neg (not_completes hle k), countAt, countAt, if_neg hne, if_neg hne, if_neg hnotpos,
      if_neg hnotpos]
    rfl
  · obtain ⟨every, rfl⟩ : ∃ every : Nat, addCrcEvery = every := ⟨addCrcEvery.toNat, by omega⟩
    have hevery : every ≠ 0 := by omega
    have hsplit := Nat.div_add_mod k every
    have hlt := Nat.mod_lt k (Nat.pos_of_ne_zero hevery)
    rw [countAt_natCast hevery, countAt_natCast hevery]
    split
    · rename_i hfull
      rw [Nat.mod_eq_zero_of_dvd ((completes_natCast hevery k).mp hfull)]
      rfl
    · rename_i hpart
      rw [Completes, countAt_natCast hevery] at hpart
      have hmod : (k + 1) % every = k % every + 1 := by
        rw [← hsplit, Nat.add_assoc, Nat.mul_add_mod, hsplit, Nat.mod_eq_of_lt (by omega)]
      rw [hmod]
      rfl

theorem countAt_bounds (addCrcEvery : Int) (k : Nat) :
    0 ≤ countAt addCrcEvery k ∧ countAt addCrcEvery k ≤ k := by
  rcases le_or_gt addCrcEvery 0 with hle | hpos
  · rw [countAt, if_neg (not_lt.mpr hle)]
    split <;> omega
  · obtain ⟨every, rfl⟩ : ∃ every : Nat, addCrcEvery = every := ⟨addCrcEvery.toNat, by omega⟩
    have hmod := Nat.mod_le k every
    rw [countAt_natCast (by omega)]
    omega

theorem next_i (addCrcEvery : Int) (s : Loop) : (s.next addCrcEvery).i = int32 (s.i + 5) := by
  unfold Loop.next
  dsimp only
  split
  · rfl
  · split <;> rfl

/-- **Step lemma.**  A round goes on to the next symbol, unless `i` wraps. -/
theorem next_loopAt (addCrcEvery : Int) {k : Nat} (hk : 5 * k + 5 < 2 ^ 31) :
    (loopAt addCrcEvery k).next addCrcEvery = loopAt addCrcEvery (k + 1) := by
  have hi : int32 (5 * (k : Int) + 5) = 5 * ((k + 1 : Nat) : Int) := by
    rw [int32_of_lt (by lia) (by lia)]
    lia
  have hlen := (encodedLength_bounds k addCrcEvery.toNat).2
  have hcount := countAt_bounds addCrcEvery k
  simp only [Loop.next, loopAt, hi]
  rw [int32_of_lt (by lia : (0 : Int) ≤ encodedLength k addCrcEvery.toNat + 1) (by lia),
    int32_of_lt (by lia : (0 : Int) ≤ encodedLength k addCrcEvery.toNat + 1 + 1) (by lia),
    int32_of_lt (by lia : (0 : Int) ≤ countAt addCrcEvery k + 1) (by lia), encodedLength_succ]
  by_cases hzero : addCrcEvery = 0
  · subst hzero
    rw [if_pos rfl, if_neg (not_completes le_rfl k)]
    rfl
  · rw [if_neg hzero, countAt_succ hzero]
    by_cases hfull : countAt addCrcEvery k + 1 = addCrcEvery
    · rw [if_pos hfull, if_pos ⟨hzero, hfull⟩, if_pos ⟨hzero, hfull⟩]
      rfl
    · rw [if_neg hfull, if_neg fun h => hfull h.2, if_neg fun h => hfull h.2]
      rfl

theorem loopAt_zero (addCrcEvery : Int) : loopAt addCrcEvery 0 = ⟨0, 0, 0⟩ := by
  have hlen := (encodedLength_bounds 0 addCrcEvery.toNat).2
  have hcount := countAt_bounds addCrcEvery 0
  simp only [loopAt, Loop.mk.injEq]
  omega

/-- Every symbol gets its turn. -/
theorem reaches_loopAt {n : Nat} (addCrcEvery : Int) {k : Nat} (hk : 5 * k < n + 5)
    (hwrap : 5 * k < 2 ^ 31) : Reaches n addCrcEvery (loopAt addCrcEvery k) := by
  induction k with
  | zero =>
      rw [loopAt_zero]
      exact .start
  | succ k ih =>
      rw [← next_loopAt addCrcEvery (by omega)]
      exact .next _ (ih (by omega) (by omega)) (by show 5 * (k : Int) < n; omega)

/-- **Run lemma.**  Without a wrap of `i`, nothing else is reached. -/
theorem exists_loopAt {n : Nat} (hn : n + 2 < 2 ^ 31) {addCrcEvery : Int} {s : Loop}
    (hs : Reaches n addCrcEvery s) : ∃ k : Nat, s = loopAt addCrcEvery k ∧ 5 * k < n + 5 := by
  induction hs with
  | start => exact ⟨0, (loopAt_zero addCrcEvery).symm, by omega⟩
  | next s hs hi ih =>
      obtain ⟨k, rfl, hk⟩ := ih
      have hlt : 5 * (k : Int) < n := hi
      exact ⟨k + 1, next_loopAt addCrcEvery (by omega), by omega⟩

/-! ## Reads -/

/-- The lengths for which a symbol has bits in the last byte of the source only, two or more of
them, but not all five. -/
def ReadsBehind (n : Nat) : Prop := n % 40 ∈ [7, 8, 22, 23, 24, 32]

instance (n : Nat) : Decidable (ReadsBehind n) := inferInstanceAs (Decidable (_ ∈ _))

theorem readsBehind_iff (n : Nat) :
    ReadsBehind n ↔ ∃ k, 5 * k + 1 < n ∧ 3 < 5 * k % 8 ∧ (n + 7) / 8 ≤ 5 * k / 8 + 1 := by
  simp only [ReadsBehind, List.mem_cons, List.not_mem_nil, or_false]
  constructor
  · rintro (h | h | h | h | h | h)
    · exact ⟨8 * (n / 40) + 1, by lia⟩
    · exact ⟨8 * (n / 40) + 1, by lia⟩
    · exact ⟨8 * (n / 40) + 4, by lia⟩
    · exact ⟨8 * (n / 40) + 4, by lia⟩
    · exact ⟨8 * (n / 40) + 4, by lia⟩
    · exact ⟨8 * (n / 40) + 6, by lia⟩
  · rintro ⟨k, hsecond, hoffs, hend⟩
    obtain ⟨q, r, hr, rfl⟩ : ∃ q r, r < 8 ∧ k = 8 * q + r := ⟨k / 8, k % 8, by lia, by lia⟩
    interval_cases r <;> lia

/-- The bytes that symbol `k` is taken from. -/
theorem mem_symReads {n k : Nat} {a : Int} :
    a ∈ symReads n (5 * (k : Int)) ↔
      a = (5 * k / 8 : Nat) ∨ (3 < 5 * k % 8 ∧ 5 * k + 1 < n) ∧ a = (5 * k / 8 + 1 : Nat) := by
  have hidx : (5 * (k : Int)).tdiv 8 = (5 * k / 8 : Nat) := rfl
  have hoffs : (5 * (k : Int)).tmod 8 = (5 * k % 8 : Nat) := rfl
  simp only [symReads, hidx, hoffs]
  split
  · rename_i hboth
    simp only [List.mem_cons, List.not_mem_nil, or_false]
    lia
  · rename_i hone
    rw [List.mem_singleton]
    lia

section Accepted

variable {destlenChars addCrcEvery : Int} {n : Nat}

theorem reads_inBounds_iff (hok : ¬Rejects destlenChars n addCrcEvery) (hn : n + 2 < 2 ^ 31) :
    (∀ a, Reads destlenChars n addCrcEvery a → 0 ≤ a ∧ a < ((n : Int) + 7) / 8) ↔
      ¬ReadsBehind n := by
  rw [readsBehind_iff]
  constructor
  · rintro hbounds ⟨k, hsecond, hoffs, hend⟩
    have hs := reaches_loopAt addCrcEvery (by lia : 5 * k < n + 5) (by lia)
    have hread : Reads destlenChars n addCrcEvery (5 * k / 8 + 1 : Nat) :=
      .sym _ hok hs (by show 5 * (k : Int) < n; lia) _
        (mem_symReads.mpr (Or.inr ⟨⟨hoffs, hsecond⟩, rfl⟩))
    have hlt := (hbounds _ hread).2
    lia
  · rintro hnot a ⟨s, -, hs, hi, _, ha⟩
    obtain ⟨k, rfl, -⟩ := exists_loopAt hn hs
    have hlt : 5 * (k : Int) < n := hi
    rcases mem_symReads.mp ha with rfl | ⟨⟨hoffs, hsecond⟩, rfl⟩
    · lia
    · have hin : ¬(n + 7) / 8 ≤ 5 * k / 8 + 1 := fun hend => hnot ⟨k, hsecond, hoffs, hend⟩
      lia

/-- With a wrap of `i` the encoder reads in front of the source. -/
theorem reads_wrapped (hok : ¬Rejects destlenChars n addCrcEvery) (hn : n < 2 ^ 31)
    (hwrap : 2 ^ 31 ≤ n + 2) : Reads destlenChars n addCrcEvery (-268435455) := by
  have hs := reaches_loopAt addCrcEvery (by omega : 5 * 429496729 < n + 5) (by omega)
  have hi : ((loopAt addCrcEvery 429496729).next addCrcEvery).i = -2147483646 := by
    rw [next_i]
    rfl
  refine .sym _ hok (.next _ hs (by show (5 * (429496729 : Nat) : Int) < n; omega)) ?_ _ ?_
  · rw [hi]
    omega
  · rw [hi, symReads, if_neg fun h => absurd h.1 (by decide)]
    exact List.mem_singleton.mpr rfl

theorem symWrites_loopAt (addCrcEvery : Int) {k : Nat} (hk : 5 * k + 5 < 2 ^ 31) :
    symWrites addCrcEvery (loopAt addCrcEvery k) =
      if Completes addCrcEvery k then
        [(encodedLength k addCrcEvery.toNat : Int), encodedLength k addCrcEvery.toNat + 1]
      else [(encodedLength k addCrcEvery.toNat : Int)] := by
  have hlen := (encodedLength_bounds k addCrcEvery.toNat).2
  have hcount := countAt_bounds addCrcEvery k
  have hdidx : int32 ((encodedLength k addCrcEvery.toNat : Int) + 1) =
      encodedLength k addCrcEvery.toNat + 1 := int32_of_lt (by omega) (by omega)
  have hfull : int32 (countAt addCrcEvery k + 1) = countAt addCrcEvery k + 1 :=
    int32_of_lt (by omega) (by omega)
  simp only [symWrites, loopAt, hdidx, hfull, Completes]
  rfl

/-- A round writes what lies between the lengths before and after it. -/
theorem mem_symWrites {k : Nat} (hk : 5 * k + 5 < 2 ^ 31) {a : Int} :
    a ∈ symWrites addCrcEvery (loopAt addCrcEvery k) ↔
      (encodedLength k addCrcEvery.toNat : Int) ≤ a ∧
        a < encodedLength (k + 1) addCrcEvery.toNat := by
  rw [symWrites_loopAt addCrcEvery hk, encodedLength_succ]
  split <;> simp only [List.mem_cons, List.not_mem_nil, or_false] <;> omega

/-- The rounds leave nothing out. -/
theorem exists_symWrites {m : Nat} (hm : 5 * m < 2 ^ 31) {a : Int} (hlow : 0 ≤ a)
    (hhigh : a < encodedLength m addCrcEvery.toNat) :
    ∃ k < m, a ∈ symWrites addCrcEvery (loopAt addCrcEvery k) := by
  induction m with
  | zero =>
      have hlen := (encodedLength_bounds 0 addCrcEvery.toNat).2
      omega
  | succ m ih =>
      by_cases hbefore : a < encodedLength m addCrcEvery.toNat
      · obtain ⟨k, hk, hmem⟩ := ih (by omega) hbefore
        exact ⟨k, by omega, hmem⟩
      · exact ⟨m, by omega, (mem_symWrites (by omega)).mpr ⟨not_lt.mp hbefore, hhigh⟩⟩

/-- The encoder writes the string, with its null. -/
theorem writes_iff_le (hok : ¬Rejects destlenChars n addCrcEvery) (hn : n + 2 < 2 ^ 31) {a : Int} :
    Writes destlenChars n addCrcEvery a ↔
      0 ≤ a ∧ a ≤ encodedLength ((n + 4) / 5) addCrcEvery.toNat := by
  constructor
  · rintro (_ | ⟨s, -, hs, hi, _, ha⟩ | ⟨s, -, hs, hi⟩)
    · lia
    · obtain ⟨k, rfl, hk⟩ := exists_loopAt hn hs
      have hlt : 5 * (k : Int) < n := hi
      have hwrite := (mem_symWrites (by lia)).mp ha
      have hmono := encodedLength_mono (by lia : k + 1 ≤ (n + 4) / 5) addCrcEvery.toNat
      lia
    · obtain ⟨k, rfl, hk⟩ := exists_loopAt hn hs
      have hle : ¬5 * (k : Int) < n := hi
      have hend : k = (n + 4) / 5 := by lia
      subst hend
      exact ⟨Int.natCast_nonneg _, le_rfl⟩
  · rintro ⟨hlow, hhigh⟩
    rcases lt_or_eq_of_le hhigh with hlt | rfl
    · obtain ⟨k, hk, ha⟩ := exists_symWrites (by lia) hlow hlt
      have hs := reaches_loopAt addCrcEvery (by lia : 5 * k < n + 5) (by lia)
      exact .sym _ hok hs (by show 5 * (k : Int) < n; lia) a ha
    · have hs := reaches_loopAt addCrcEvery (by lia : 5 * ((n + 4) / 5) < n + 5) (by lia)
      exact .terminate _ hok hs (by show ¬5 * (((n + 4) / 5 : Nat) : Int) < n; lia)

theorem writes_inBounds_iff (hok : ¬Rejects destlenChars n addCrcEvery) (hn : n + 2 < 2 ^ 31) :
    (∀ a, Writes destlenChars n addCrcEvery a → 0 ≤ a ∧ a < destlenChars) ↔
      (encodedLength ((n + 4) / 5) addCrcEvery.toNat : Int) < destlenChars := by
  simp only [writes_iff_le hok hn]
  constructor
  · intro hbounds
    exact (hbounds _ ⟨Int.natCast_nonneg _, le_rfl⟩).2
  · rintro hroom a ⟨hlow, hhigh⟩
    exact ⟨hlow, lt_of_le_of_lt hhigh hroom⟩

/-- The check, where nothing overflows. -/
theorem destlenNeeded_natCast (every : Nat) (hn : n + 4 < 2 ^ 31) :
    destlenNeeded n every =
      if every ≠ 0 ∧ (n + 4) / 5 % every ≠ 0 then none
      else some ((encodedLength ((n + 4) / 5) every + 1 : Nat) : Int) := by
  have hdiv : ((n : Int) + 4).tdiv 5 = ((n + 4) / 5 : Nat) := rfl
  have hmod : (((n + 4) / 5 : Nat) : Int).tmod every = ((n + 4) / 5 % every : Nat) := rfl
  have hgroups : (((n + 4) / 5 : Nat) : Int).tdiv every = ((n + 4) / 5 / every : Nat) := rfl
  have hle := Nat.div_le_self ((n + 4) / 5) every
  unfold destlenNeeded encodedLength
  rw [int32_of_lt (by lia : (0 : Int) ≤ n + 4) (by lia), hdiv]
  have hfew : (n + 4) / 5 < 2 ^ 29 := by lia
  generalize (n + 4) / 5 = symbols at *
  simp only [hmod, hgroups]
  by_cases hevery : every = 0
  · subst hevery
    simp only [Nat.cast_zero, ne_eq, not_true_eq_false, if_false, false_and]
    rw [int32_of_lt (by lia) (by lia)]
    rfl
  · have hne : (every : Int) ≠ 0 := by lia
    have hcast : ((symbols % every : Nat) : Int) ≠ 0 ↔ symbols % every ≠ 0 := Int.natCast_ne_zero
    rw [if_pos hne]
    simp only [hcast, hevery, ne_eq, not_false_eq_true, true_and, if_true]
    generalize symbols / every = groups at *
    rw [int32_of_lt (by lia : (0 : Int) ≤ symbols + groups) (by lia),
      int32_of_lt (by lia) (by lia)]
    rfl

theorem rejects_natCast (every : Nat) (hn : n + 4 < 2 ^ 31) :
    Rejects destlenChars n every ↔
      (every ≠ 0 ∧ (n + 4) / 5 % every ≠ 0) ∨
        destlenChars < (encodedLength ((n + 4) / 5) every + 1 : Nat) := by
  unfold Rejects
  rw [destlenNeeded_natCast every hn]
  split
  · rename_i hgroups
    exact iff_of_true (fun _ h => absurd h (Option.not_mem_none _)) (Or.inl hgroups)
  · rename_i hgroups
    rw [or_iff_right hgroups]
    simp only [Option.mem_some_iff, forall_eq']

/-- With an interval that is not negative, and no overflow, the encoder makes sure of the room. -/
theorem room_of_accepted (hok : ¬Rejects destlenChars n addCrcEvery) (hn : n + 4 < 2 ^ 31)
    (hevery : 0 ≤ addCrcEvery) :
    (encodedLength ((n + 4) / 5) addCrcEvery.toNat : Int) < destlenChars := by
  obtain ⟨every, rfl⟩ : ∃ every : Nat, addCrcEvery = every := ⟨addCrcEvery.toNat, by omega⟩
  rw [rejects_natCast every hn, not_or] at hok
  have hroom := hok.2
  rw [Int.toNat_natCast]
  omega

end Accepted

/-! ## The encoder -/

section Encoder

variable {destlenChars every n : Nat}

theorem base32Encode_of_rejects (hn : n + 4 < 2 ^ 31) (src : Nat → UInt8)
    (h : Rejects destlenChars n every) :
    base32Encode destlenChars src n every = (ecErrorInval, []) := by
  rw [rejects_natCast every hn] at h
  simp only [base32Encode]
  split
  · rfl
  · rename_i hgroups
    exact if_pos (Nat.cast_lt.mp (h.resolve_left hgroups))

theorem base32Encode_of_accepted (hn : n + 4 < 2 ^ 31) (src : Nat → UInt8)
    (h : ¬Rejects destlenChars n every) :
    base32Encode destlenChars src n every = (ecSuccess, encodeLoop src n every 0 0 0) := by
  rw [rejects_natCast every hn, not_or] at h
  simp only [base32Encode]
  rw [if_neg h.1]
  exact if_neg fun hfew => h.2 (Nat.cast_lt.mpr hfew)

theorem encodeSym_congr {src src' : Nat → UInt8} {k : Nat}
    (h : ∀ a : Nat, (a : Int) ∈ symReads n (5 * (k : Int)) → src a = src' a) :
    encodeSym src n (5 * k) = encodeSym src' n (5 * k) := by
  have hfirst : src (5 * k / 8) = src' (5 * k / 8) := h _ (mem_symReads.mpr (Or.inl rfl))
  have hload : loadSym src n (5 * k) = loadSym src' n (5 * k) := by
    unfold loadSym
    dsimp only
    rw [hfirst]
    split
    · rfl
    · split
      · rw [h (5 * k / 8 + 1) (mem_symReads.mpr (Or.inr ⟨⟨by omega, by assumption⟩, rfl⟩))]
      · rfl
  unfold encodeSym
  rw [hload]

theorem encodeLoop_congr {src src' : Nat → UInt8}
    (h : ∀ k, 5 * k < n → ∀ a : Nat, (a : Int) ∈ symReads n (5 * (k : Int)) → src a = src' a)
    {i : Nat} (hi : i % 5 = 0) (crc crcCount : Nat) :
    encodeLoop src n every i crc crcCount = encodeLoop src' n every i crc crcCount := by
  fun_induction encodeLoop src n every i crc crcCount with
  | case1 i crc crcCount hlt sym ihPlain ihFull ihPart =>
      obtain ⟨k, rfl⟩ : ∃ k, i = 5 * k := ⟨i / 5, by lia⟩
      have hsym : sym = encodeSym src' n (5 * k) := encodeSym_congr (h k hlt)
      rw [encodeLoop.eq_def src', if_pos hlt, ← hsym]
      congr 1
      split
      · exact ihPlain (by lia)
      · split
        · exact congrArg _ (ihFull (by lia))
        · exact ihPart (by lia)
  | case2 i crc crcCount hge => rw [encodeLoop.eq_def src', if_neg hge]

/-- The string depends on the bytes that are read, and on no others. -/
theorem base32Encode_congr (hn : n + 4 < 2 ^ 31) {src src' : Nat → UInt8}
    (h : ∀ a : Nat, Reads destlenChars n every a → src a = src' a) :
    base32Encode destlenChars src n every = base32Encode destlenChars src' n every := by
  by_cases hok : Rejects destlenChars n every
  · rw [base32Encode_of_rejects hn src hok, base32Encode_of_rejects hn src' hok]
  · rw [base32Encode_of_accepted hn src hok, base32Encode_of_accepted hn src' hok]
    refine congrArg _ (encodeLoop_congr (fun k hk a ha => h a ?_) rfl 0 0)
    exact .sym _ hok (reaches_loopAt every (by omega : 5 * k < n + 5) (by omega))
      (by show 5 * (k : Int) < n; omega) a ha

/-- What is written is the string, with its null. -/
theorem writes_iff (hn : n + 4 < 2 ^ 31) (src : Nat → UInt8) (a : Int) :
    Writes destlenChars n every a ↔
      0 ≤ a ∧ a ≤ (base32Encode destlenChars src n every).2.length := by
  by_cases hok : Rejects destlenChars n every
  · rw [base32Encode_of_rejects hn src hok]
    constructor
    · rintro (_ | ⟨s, hgo⟩ | ⟨s, hgo⟩)
      · exact ⟨le_rfl, le_rfl⟩
      · exact absurd hok hgo
      · exact absurd hok hgo
    · rintro ⟨hlow, hhigh⟩
      obtain rfl : a = 0 := le_antisymm hhigh hlow
      exact .clear
  · have hlen := length_encodeLoop src n every 0 0 0 Nat.pos_of_ne_zero
    rw [Nat.zero_add, Nat.sub_zero, Nat.add_zero] at hlen
    rw [base32Encode_of_accepted hn src hok, hlen, writes_iff_le hok (by omega), Int.toNat_natCast]

end Encoder

/-! ## The bounds -/

/-- **What `base32_encode` accesses.**  For every length of the source, every CRC interval and every
length of the destination: the reads are inside the source and the writes inside the destination
exactly if the destination has room for the null, and the arguments are rejected, or else `i` does
not wrap, no symbol has bits in the last byte only, and there is room for the string, which is
checked for an interval that is not negative and a length that does not overflow. -/
theorem encode_inBounds_iff (destlenChars addCrcEvery : Int) (n : Nat) (hn : n < 2 ^ 31) :
    AccessesInBounds destlenChars n addCrcEvery ↔
      0 < destlenChars ∧ (Rejects destlenChars n addCrcEvery ∨
        n + 2 < 2 ^ 31 ∧ ¬ReadsBehind n ∧
          (0 ≤ addCrcEvery ∧ n + 4 < 2 ^ 31 ∨
            (encodedLength ((n + 4) / 5) addCrcEvery.toNat : Int) < destlenChars)) := by
  unfold AccessesInBounds
  by_cases hok : Rejects destlenChars n addCrcEvery
  · simp only [hok, true_or, and_true]
    constructor
    · rintro ⟨-, hwrites⟩
      exact (hwrites 0 .clear).2
    · intro hroom
      constructor
      · rintro a ⟨s, hgo⟩
        exact absurd hok hgo
      · rintro a (_ | ⟨s, hgo⟩ | ⟨s, hgo⟩)
        · exact ⟨le_rfl, hroom⟩
        · exact absurd hok hgo
        · exact absurd hok hgo
  · simp only [hok, false_or]
    by_cases hwrap : n + 2 < 2 ^ 31
    · rw [reads_inBounds_iff hok hwrap, writes_inBounds_iff hok hwrap]
      have hroom : 0 ≤ addCrcEvery ∧ n + 4 < 2 ^ 31 →
          (encodedLength ((n + 4) / 5) addCrcEvery.toNat : Int) < destlenChars :=
        fun h => room_of_accepted hok h.2 h.1
      constructor
      · rintro ⟨hreads, hwrites⟩
        exact ⟨by omega, hwrap, hreads, Or.inr hwrites⟩
      · rintro ⟨-, -, hreads, hwrites⟩
        exact ⟨hreads, hwrites.elim hroom id⟩
    · constructor
      · rintro ⟨hreads, -⟩
        exact absurd (hreads _ (reads_wrapped hok hn (by omega))).1 (by decide)
      · rintro ⟨-, hno, -⟩
        exact absurd hno hwrap

/-- Nine bits with a CRC after two symbols. -/
theorem encode_inBounds_iff_nineBits : AccessesInBounds 4 (9 : Nat) 2 :=
  (encode_inBounds_iff 4 2 9 (by decide)).mpr
    ⟨by decide, Or.inr ⟨by decide, by decide, Or.inl ⟨by decide, by decide⟩⟩⟩

/-- The second symbol of seven bits has two bits, and the encoder reads the byte behind them. -/
theorem encode_reads_behind : Reads 3 (7 : Nat) 0 1 ∧ ¬AccessesInBounds 3 (7 : Nat) 0 := by
  have hok : ¬Rejects 3 (7 : Nat) (0 : Nat) := by
    rw [rejects_natCast 0 (by decide)]
    decide
  have hread : Reads 3 (7 : Nat) 0 1 :=
    .sym (loopAt 0 1) hok (reaches_loopAt 0 (by decide) (by decide)) (by decide) 1 (by decide)
  refine ⟨hread, fun h => ?_⟩
  have hbehind := (h.1 1 hread).2
  exact absurd hbehind (by decide)

end Base32
end CrosEc
