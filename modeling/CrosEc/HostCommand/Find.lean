import Mathlib.Tactic

/-!
# `common/host_command.c`: finding a command

`find_host_command` in its two builds.  With `CONFIG_HOSTCMD_SECTION_SORTED` the linker has sorted
the table and the search is binary; otherwise it goes through the table from the front.

A pointer into the table is the number of the entry it points to, and the bounds of the search may
lie one entry in front of the table.  An access outside of the table has the result `none`, and a
null pointer is `some none`.
-/

namespace CrosEc
namespace HostCommand

/-- `struct host_command`, as far as the search reads it. -/
structure HostCmd where
  command : Int32

/-- `p->command` -/
def commandAt (hcmds : List HostCmd) (p : Int) : Option Int32 :=
  if 0 ≤ p then hcmds[p.toNat]?.map HostCmd.command else none

/-- `l + (num / 2)`, where `num` is `r - l` in a `uint32_t`. -/
def middle (l r : Int) : Int := l + (BitVec.ofInt 32 (r - l) / 2#32).toNat

theorem middle_mem {l r : Int} (h : l ≤ r) : l ≤ middle l r ∧ middle l r ≤ r := by
  obtain ⟨n, hn⟩ := Int.eq_ofNat_of_zero_le (Int.sub_nonneg.mpr h)
  have hnum : (BitVec.ofInt 32 (r - l) / 2#32).toNat ≤ n := by
    rw [hn, BitVec.ofInt_natCast, BitVec.toNat_udiv, BitVec.toNat_ofNat]
    exact (Nat.div_le_self ..).trans (Nat.mod_le ..)
  rw [middle]
  omega

/-- The loop of `find_host_command`, sorted. -/
def findFrom (hcmds : List HostCmd) (command : Int32) (l r : Int) : Option (Option Int) :=
  if _ : r < l then
    some none
  else
    let m := middle l r
    match commandAt hcmds m with
    | none => none
    | some c =>
        if c < command then findFrom hcmds command (m + 1) r
        else if command < c then findFrom hcmds command l (m - 1)
        else some (some m)
termination_by (r + 1 - l).toNat
decreasing_by
  all_goals
    have hm := middle_mem (l := l) (r := r) (by omega)
    omega

/-- `find_host_command`, with `CONFIG_HOSTCMD_SECTION_SORTED` -/
def findHostCommandSorted (hcmds : List HostCmd) (command : Int32) : Option (Option Int) :=
  findFrom hcmds command 0 (hcmds.length - 1)

/-- The loop of `find_host_command` from `cmd` on. -/
def linearFrom (command : Int32) : List HostCmd → Int → Option Int
  | [], _ => none
  | entry :: hcmds, cmd =>
      if command = entry.command then some cmd else linearFrom command hcmds (cmd + 1)

/-- `find_host_command` -/
def findHostCommand (hcmds : List HostCmd) (command : Int32) : Option Int :=
  linearFrom command hcmds 0

/-- The numbers of the commands increase. -/
def Sorted (hcmds : List HostCmd) : Prop := hcmds.Pairwise fun a b => a.command < b.command

variable {hcmds : List HostCmd} {command c : Int32} {l r p : Int}

/-! ## The table -/

theorem commandAt_eq_some_iff :
    commandAt hcmds p = some c ↔ ∃ i : Nat, p = i ∧ ∃ h : i < hcmds.length, hcmds[i].command = c := by
  rw [commandAt]
  constructor
  · intro h
    rw [Option.ite_none_right_eq_some, Option.map_eq_some_iff] at h
    obtain ⟨hpos, e, he, rfl⟩ := h
    obtain ⟨hlt, rfl⟩ := List.getElem?_eq_some_iff.mp he
    exact ⟨p.toNat, (Int.toNat_of_nonneg hpos).symm, hlt, rfl⟩
  · rintro ⟨i, rfl, hlt, rfl⟩
    simp [hlt]

theorem exists_commandAt (hlow : 0 ≤ p) (hhigh : p < hcmds.length) : ∃ c, commandAt hcmds p = some c :=
  ⟨_, commandAt_eq_some_iff.mpr ⟨p.toNat, (Int.toNat_of_nonneg hlow).symm, by omega, rfl⟩⟩

/-- An earlier entry has a smaller number. -/
theorem Sorted.lt (h : Sorted hcmds) {q : Int} {d : Int32} (hp : commandAt hcmds p = some c)
    (hq : commandAt hcmds q = some d) (hlt : p < q) : c < d := by
  obtain ⟨i, rfl, hi, rfl⟩ := commandAt_eq_some_iff.mp hp
  obtain ⟨j, rfl, hj, rfl⟩ := commandAt_eq_some_iff.mp hq
  exact List.pairwise_iff_getElem.mp h i j hi hj (by omega)

/-! ## The binary search -/

/-- What a search answers: the entry with the number, or a null pointer if there is none. -/
def Finds (hcmds : List HostCmd) (command : Int32) : Option Int → Prop
  | some p => commandAt hcmds p = some command
  | none => ∀ p, commandAt hcmds p ≠ some command

/-- The search may go on between the bounds: they are in the table, and no entry outside of them
has the number. -/
structure Bounded (hcmds : List HostCmd) (command : Int32) (l r : Int) : Prop where
  low : 0 ≤ l
  high : r < hcmds.length
  inside : ∀ p, commandAt hcmds p = some command → l ≤ p ∧ p ≤ r

/-- **Step lemma.** A middle entry with a smaller number. -/
theorem Bounded.above (h : Bounded hcmds command l r) (hsorted : Sorted hcmds) (hle : l ≤ r)
    (hm : commandAt hcmds (middle l r) = some c) (hlt : c < command) :
    Bounded hcmds command (middle l r + 1) r where
  low := by
    have hlow := h.low
    have hmid := middle_mem hle
    omega
  high := h.high
  inside := by
    intro p hp
    refine ⟨?_, (h.inside p hp).2⟩
    by_contra hnot
    rcases lt_or_eq_of_le (show p ≤ middle l r by omega) with hbefore | rfl
    · exact Int32.lt_asymm hlt (hsorted.lt hp hm hbefore)
    · rw [hp, Option.some_inj] at hm
      exact Int32.lt_irrefl (hm ▸ hlt)

/-- **Step lemma.** A middle entry with a larger number. -/
theorem Bounded.below (h : Bounded hcmds command l r) (hsorted : Sorted hcmds) (hle : l ≤ r)
    (hm : commandAt hcmds (middle l r) = some c) (hlt : command < c) :
    Bounded hcmds command l (middle l r - 1) where
  low := h.low
  high := by
    have hhigh := h.high
    have hmid := middle_mem hle
    omega
  inside := by
    intro p hp
    refine ⟨(h.inside p hp).1, ?_⟩
    by_contra hnot
    rcases lt_or_eq_of_le (show middle l r ≤ p by omega) with hbehind | rfl
    · exact Int32.lt_asymm hlt (hsorted.lt hm hp hbehind)
    · rw [hp, Option.some_inj] at hm
      exact Int32.lt_irrefl (hm ▸ hlt)

/-- **Run lemma.** The loop stays in the table and finds what is there. -/
theorem findFrom_spec (hsorted : Sorted hcmds) (h : Bounded hcmds command l r) :
    ∃ answer, findFrom hcmds command l r = some answer ∧ Finds hcmds command answer := by
  induction l, r using findFrom.induct hcmds command with
  | case1 l r hempty =>
      rw [findFrom, dif_pos hempty]
      refine ⟨none, rfl, fun p hp => ?_⟩
      have hp := h.inside p hp
      omega
  | case2 l r hle m hm =>
      have hmid := middle_mem (not_lt.mp hle)
      obtain ⟨c, hc⟩ : ∃ c, commandAt hcmds m = some c :=
        exists_commandAt (h.low.trans hmid.1) (lt_of_le_of_lt hmid.2 h.high)
      rw [hm] at hc
      exact absurd hc (by simp)
  | case3 l r hle m c hm hlt ih =>
      obtain ⟨answer, hrun, hfinds⟩ := ih (h.above hsorted (not_lt.mp hle) hm hlt)
      refine ⟨answer, ?_, hfinds⟩
      rw [findFrom, dif_neg hle]
      simp only [show commandAt hcmds (middle l r) = some c from hm, if_pos hlt]
      exact hrun
  | case4 l r hle m c hm hge hlt ih =>
      obtain ⟨answer, hrun, hfinds⟩ := ih (h.below hsorted (not_lt.mp hle) hm hlt)
      refine ⟨answer, ?_, hfinds⟩
      rw [findFrom, dif_neg hle]
      simp only [show commandAt hcmds (middle l r) = some c from hm, if_neg hge, if_pos hlt]
      exact hrun
  | case5 l r hle m c hm hge hle' =>
      have heq : c = command := Int32.le_antisymm (Int32.not_lt.mp hle') (Int32.not_lt.mp hge)
      subst heq
      refine ⟨some m, ?_, hm⟩
      rw [findFrom, dif_neg hle]
      simp only [show commandAt hcmds (middle l r) = some c from hm, if_neg hge]
      rfl

/-! ## The linear search -/

/-- **Run lemma.** The loop finds the first entry with the number. -/
theorem linearFrom_spec (pre rest : List HostCmd) (hpre : ∀ e ∈ pre, e.command ≠ command) :
    Finds (pre ++ rest) command (linearFrom command rest pre.length) := by
  induction rest generalizing pre with
  | nil =>
      intro p hp
      obtain ⟨i, -, hi, hc⟩ := commandAt_eq_some_iff.mp hp
      rw [List.append_nil] at hi
      exact hpre pre[i] (List.getElem_mem hi) (by simpa using hc)
  | cons entry rest ih =>
      rw [linearFrom]
      split
      · rename_i hfound
        refine commandAt_eq_some_iff.mpr ⟨pre.length, rfl, by simp, ?_⟩
        simp [hfound]
      · rename_i hother
        have hnext := ih (pre ++ [entry]) (by
          intro e he
          rcases List.mem_append.mp he with he | he
          · exact hpre e he
          · rw [List.mem_singleton.mp he]
            exact fun heq => hother heq.symm)
        simpa using hnext

theorem findHostCommand_finds : Finds hcmds command (findHostCommand hcmds command) :=
  linearFrom_spec [] hcmds (by simp)

/-! ## Both -/

/-- In a sorted table there is one answer. -/
theorem Sorted.unique (hsorted : Sorted hcmds) {a b : Option Int} (ha : Finds hcmds command a)
    (hb : Finds hcmds command b) : a = b := by
  match a, b with
  | none, none => rfl
  | none, some p => exact absurd hb (ha p)
  | some p, none => exact absurd ha (hb p)
  | some p, some q =>
      rcases Int.lt_trichotomy p q with hlt | rfl | hlt
      · exact absurd (hsorted.lt ha hb hlt) Int32.lt_irrefl
      · rfl
      · exact absurd (hsorted.lt hb ha hlt) Int32.lt_irrefl

/-- **The two searches agree.**  In a table with increasing numbers, an empty one included, the
binary search ends, reads entries of the table only, and returns what the linear search does. -/
theorem findHostCommandSorted_eq (hsorted : Sorted hcmds) (command : Int32) :
    findHostCommandSorted hcmds command = some (findHostCommand hcmds command) := by
  have hbounded : Bounded hcmds command 0 (hcmds.length - 1) := by
    refine ⟨le_rfl, by omega, fun p hp => ?_⟩
    obtain ⟨i, rfl, hi, -⟩ := commandAt_eq_some_iff.mp hp
    omega
  obtain ⟨answer, hrun, hfinds⟩ := findFrom_spec hsorted hbounded
  rw [findHostCommandSorted, hrun, hsorted.unique hfinds findHostCommand_finds]

/-- Three commands, two of them with the extreme numbers. -/
theorem findHostCommandSorted_eq_three :
    findHostCommandSorted [⟨Int32.minValue⟩, ⟨2⟩, ⟨Int32.maxValue⟩] 3 =
      some (findHostCommand [⟨Int32.minValue⟩, ⟨2⟩, ⟨Int32.maxValue⟩] 3) :=
  findHostCommandSorted_eq (by unfold Sorted; decide) 3

end HostCommand
end CrosEc
