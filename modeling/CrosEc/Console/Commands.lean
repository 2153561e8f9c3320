import CrosEc.Console.Words
import Mathlib.Order.Lattice

/-!
# `common/console.c`: finding a command

`find_command` goes through the table once, and stops at a name that the word spells in full or at
a second name that begins with it.  That is right because the table is sorted: a name comes before
all the longer names that begin with it.

A C string is the list of its characters, without the null.
-/

namespace CrosEc
namespace Console

open Lib Util

/-! ## The code -/

/-- `tolower` of `common/util.c` -/
def tolower (c : UInt8) : UInt8 :=
  if 'A'.toUInt8 ≤ c ∧ c ≤ 'Z'.toUInt8 then c + 'a'.toUInt8 - 'A'.toUInt8 else c

/-- `strncasecmp` of `common/util.c`; behind its characters a string has a null. -/
def strncasecmp (s1 s2 : Bytes) : Nat → Int
  | 0 => 0
  | size + 1 =>
      let diff : Int := (tolower (s1.headD 0)).toNat - (tolower (s2.headD 0)).toNat
      if diff ≠ 0 then diff
      else if s1.headD 0 ≠ 0 ∧ s2.headD 0 ≠ 0 then strncasecmp s1.tail s2.tail size
      else 0

/-- `struct console_command`, as far as the console reads it without help and flags. -/
structure ConsoleCommand (η : Type) where
  name : Bytes
  handler : η

variable {η : Type}

/-- The loop of `find_command` over the rest of the table. -/
def findLoop (name : Bytes) (matchLength : Nat) :
    List (ConsoleCommand η) → Option (ConsoleCommand η) → Option (ConsoleCommand η)
  | [], found => found
  | cmd :: cmds, found =>
      if strncasecmp name cmd.name matchLength = 0 then
        if found.isSome then none
        -- If yes, then we have a full match.
        else if cmd.name.getD matchLength 0 = 0 then some cmd
        else findLoop name matchLength cmds (some cmd)
      else findLoop name matchLength cmds found

/-- `find_command` in the table `cmds` -/
def findCommand (cmds : List (ConsoleCommand η)) (name : Bytes) : Option (ConsoleCommand η) :=
  findLoop name name.length cmds none

/-! ## What it is for -/

/-- A word in lower case. -/
def lower (word : Bytes) : Bytes := word.map tolower

/-- The element of a list that has only one. -/
def theOnly {α : Type} : List α → Option α
  | [a] => some a
  | _ => none

/-- A command whose name begins with the word. -/
def Begins (word : Bytes) (cmd : ConsoleCommand η) : Bool := (lower word).isPrefixOf cmd.name

/-- The command with this name, else the only command whose name begins with it. -/
def resolve (cmds : List (ConsoleCommand η)) (word : Bytes) : Option (ConsoleCommand η) :=
  match cmds.find? fun cmd => cmd.name = lower word with
  | some cmd => some cmd
  | none => theOnly (cmds.filter (Begins word))

/-- A command table: lower-case names, in strictly increasing order. -/
structure CommandTable (cmds : List (ConsoleCommand η)) : Prop where
  lowercase : ∀ cmd ∈ cmds, ∀ c ∈ cmd.name, c ≠ 0 ∧ tolower c = c
  sorted : cmds.Pairwise fun a b => a.name < b.name

/-! ## Comparing -/

theorem tolower_ne_zero (c : UInt8) (hc : c ≠ 0) : tolower c ≠ 0 := by
  rw [tolower]
  split_ifs with hupper
  · intro hzero
    have hlow : 65 ≤ c.toNat := UInt8.le_iff_toNat_le.mp hupper.1
    have hhigh : c.toNat ≤ 90 := UInt8.le_iff_toNat_le.mp hupper.2
    have hval := congrArg UInt8.toNat hzero
    rw [UInt8.toNat_sub, UInt8.toNat_add] at hval
    have ha : 'a'.toUInt8.toNat = 97 := rfl
    have hA : 'A'.toUInt8.toNat = 65 := rfl
    rw [ha, hA, UInt8.toNat_zero] at hval
    omega
  · exact hc

/-- One step of the comparison. -/
theorem strncasecmp_succ (s1 s2 : Bytes) (size : Nat) :
    strncasecmp s1 s2 (size + 1) = 0 ↔
      tolower (s1.headD 0) = tolower (s2.headD 0) ∧
        (s1.headD 0 ≠ 0 ∧ s2.headD 0 ≠ 0 → strncasecmp s1.tail s2.tail size = 0) := by
  have hdiff : ((tolower (s1.headD 0)).toNat : Int) - (tolower (s2.headD 0)).toNat ≠ 0 ↔
      tolower (s1.headD 0) ≠ tolower (s2.headD 0) := by
    rw [Ne, Ne, ← UInt8.toNat_inj]
    omega
  rw [strncasecmp]
  split_ifs with hne hmore
  · exact iff_of_false hne fun h => hdiff.mp hne h.1
  · exact ⟨fun h => ⟨not_not.mp (mt hdiff.mpr hne), fun _ => h⟩, fun h => h.2 hmore⟩
  · exact iff_of_true rfl ⟨not_not.mp (mt hdiff.mpr hne), fun h => absurd h hmore⟩

/-- The comparison of a word with a name in lower case. -/
theorem strncasecmp_eq_zero_iff {word name : Bytes} (hword : ∀ c ∈ word, c ≠ 0)
    (hname : ∀ c ∈ name, c ≠ 0 ∧ tolower c = c) :
    strncasecmp word name word.length = 0 ↔ lower word <+: name := by
  induction word generalizing name with
  | nil => simp [strncasecmp, lower]
  | cons c word ih =>
      have hc := hword c List.mem_cons_self
      rw [List.length_cons, strncasecmp_succ, List.headD_cons, List.tail_cons, lower, List.map_cons]
      cases name with
      | nil =>
          have hne : tolower c ≠ tolower 0 := tolower_ne_zero c hc
          simp [hne]
      | cons d name =>
          obtain ⟨hd, hlower⟩ := hname d List.mem_cons_self
          have hrest := ih (fun x hx => hword x (List.mem_cons_of_mem _ hx))
            fun x hx => hname x (List.mem_cons_of_mem _ hx)
          rw [List.headD_cons, List.tail_cons, hlower, List.cons_prefix_cons, ← lower, ← hrest]
          simp [hc, hd]

/-- A name that begins with the word and ends there. -/
theorem getD_eq_zero_iff {word name : Bytes} (hname : ∀ c ∈ name, c ≠ 0)
    (h : lower word <+: name) : name.getD word.length 0 = 0 ↔ name = lower word := by
  obtain ⟨more, rfl⟩ := h
  have hlen : (lower word).length = word.length := List.length_map _
  rw [List.getD_eq_getElem?_getD, List.getElem?_append_right hlen.le, hlen, Nat.sub_self]
  cases more with
  | nil => simp
  | cons c more =>
      have hc : c ≠ 0 := hname c (by simp)
      simp [hc]

/-- A name comes before all others that begin with it. -/
theorem not_lt_of_prefix {a b : Bytes} (h : a <+: b) : ¬ b < a := by
  obtain ⟨more, rfl⟩ := h
  induction a with
  | nil => exact List.not_lt_nil _
  | cons c a ih =>
      rw [List.cons_append, List.cons_lt_cons_iff]
      rintro (hlt | ⟨-, hlt⟩)
      · exact UInt8.lt_irrefl c hlt
      · exact ih hlt

/-! ## The search -/

variable {cmds : List (ConsoleCommand η)} {word : Bytes}

/-- One round of the loop. -/
theorem findLoop_cons {cmd : ConsoleCommand η} (hword : ∀ c ∈ word, c ≠ 0)
    (hname : ∀ c ∈ cmd.name, c ≠ 0 ∧ tolower c = c) (cmds : List (ConsoleCommand η))
    (found : Option (ConsoleCommand η)) :
    findLoop word word.length (cmd :: cmds) found =
      if Begins word cmd then
        if found.isSome then none
        else if cmd.name = lower word then some cmd
        else findLoop word word.length cmds (some cmd)
      else findLoop word word.length cmds found := by
  rw [findLoop]
  have hbegins : Begins word cmd = true ↔ lower word <+: cmd.name := List.isPrefixOf_iff_prefix
  by_cases h : lower word <+: cmd.name
  · rw [if_pos ((strncasecmp_eq_zero_iff hword hname).mpr h), if_pos (hbegins.mpr h)]
    rw [if_congr (getD_eq_zero_iff (fun c hc => (hname c hc).1) h) rfl rfl]
  · rw [if_neg (mt (strncasecmp_eq_zero_iff hword hname).mp h), if_neg (mt hbegins.mp h)]

/-- With no full match in the rest of the table: the result is the only command that has been found
or will be. -/
theorem findLoop_eq_of_no_match (hword : ∀ c ∈ word, c ≠ 0)
    (hname : ∀ cmd ∈ cmds, ∀ c ∈ cmd.name, c ≠ 0 ∧ tolower c = c)
    (hnone : ∀ cmd ∈ cmds, cmd.name ≠ lower word) (found : Option (ConsoleCommand η)) :
    findLoop word word.length cmds found =
      theOnly (found.toList ++ cmds.filter (Begins word)) := by
  induction cmds generalizing found with
  | nil => cases found <;> rfl
  | cons cmd cmds ih =>
      have hrest := ih (fun x hx => hname x (List.mem_cons_of_mem _ hx))
        fun x hx => hnone x (List.mem_cons_of_mem _ hx)
      rw [findLoop_cons hword (hname cmd List.mem_cons_self)]
      cases hbegins : Begins word cmd with
      | false => simp [hbegins, hrest]
      | true =>
          cases found with
          | none => simp [hbegins, hnone cmd List.mem_cons_self, hrest]
          | some cmd' => simp [hbegins, theOnly]

/-- A table that has the word as a name: nothing before it begins with the word. -/
theorem findLoop_eq_of_match {cmd : ConsoleCommand η} (hword : ∀ c ∈ word, c ≠ 0)
    (htable : CommandTable cmds) (hfind : cmds.find? (fun cmd => cmd.name = lower word) = some cmd) :
    findLoop word word.length cmds none = some cmd := by
  obtain ⟨hname, before, after, rfl, -⟩ := List.find?_eq_some_iff_append.mp hfind
  have hfull : cmd.name = lower word := of_decide_eq_true hname
  have hearlier : ∀ x ∈ before, Begins word x = false := by
    intro x hx
    have hlt := (List.pairwise_append.mp htable.sorted).2.2 x hx cmd List.mem_cons_self
    rw [hfull] at hlt
    exact Bool.eq_false_iff.mpr fun hbegins =>
      not_lt_of_prefix (List.isPrefixOf_iff_prefix.mp hbegins) hlt
  have hlower := htable.lowercase
  clear htable hfind
  induction before with
  | nil =>
      rw [List.nil_append, findLoop_cons hword (hlower cmd (by simp))]
      have hbegins : Begins word cmd = true :=
        List.isPrefixOf_iff_prefix.mpr (hfull ▸ List.prefix_rfl)
      simp [hbegins, hfull]
  | cons x before ih =>
      rw [List.cons_append, findLoop_cons hword (hlower x (by simp)),
        hearlier x List.mem_cons_self, if_neg Bool.false_ne_true]
      exact ih (fun y hy => hearlier y (List.mem_cons_of_mem _ hy))
        fun y hy => hlower y (List.mem_cons_of_mem _ hy)

/-- **Commands.**  `find_command` finds what a word stands for. -/
theorem findCommand_eq (htable : CommandTable cmds) (hword : ∀ c ∈ word, c ≠ 0) :
    findCommand cmds word = resolve cmds word := by
  rw [findCommand, resolve]
  cases hfind : cmds.find? fun cmd => cmd.name = lower word with
  | some cmd => exact findLoop_eq_of_match hword htable hfind
  | none =>
      refine findLoop_eq_of_no_match hword htable.lowercase (fun cmd hcmd => ?_) none
      simpa using List.find?_eq_none.mp hfind cmd hcmd

/-! ## Words and commands -/

/-- **When a line is split and resolved as documented.**  It is unless its comment touches a word:
that word is lost. -/
theorem words_resolved_iff {line : Bytes} (hline : 0 ∉ line) (rest : Bytes)
    (htable : CommandTable cmds) (hword : ∀ c ∈ word, c ≠ 0) :
    ((∃ w, splitWords (line ++ 0 :: rest) = some w ∧ SplitsInto w (lineWords line)) ∧
        findCommand cmds word = resolve cmds word) ↔ ¬ CommentEndsWord line := by
  rw [splitWords_iff hline, findCommand_eq htable hword]
  exact and_iff_left rfl

/-- The characters of a line. -/
def chars (line : List Char) : Bytes := line.map Char.toUInt8

/-- Two commands, one of them with a name that begins with the other one. -/
def twoCommands : List (ConsoleCommand Unit) := [⟨chars ['h', 'i'], ()⟩, ⟨chars ['h', 'i', 'd'], ()⟩]

theorem commandTable_twoCommands : CommandTable twoCommands where
  lowercase := by decide +kernel
  sorted := by decide

theorem words_resolved_iff_hi :
    ((∃ w, splitWords (chars ['H', 'I', ' ', '#'] ++ 0 :: []) = some w ∧
          SplitsInto w (lineWords (chars ['H', 'I', ' ', '#']))) ∧
        findCommand twoCommands (chars ['H', 'I']) = resolve twoCommands (chars ['H', 'I'])) ↔
      ¬ CommentEndsWord (chars ['H', 'I', ' ', '#']) :=
  words_resolved_iff (by decide) [] commandTable_twoCommands (by decide +kernel)

/-- No word is found in `hi#`. -/
theorem not_splitsInto_comment :
    ¬ ∃ w, splitWords (chars ['h', 'i', '#'] ++ [0]) = some w ∧
      SplitsInto w (lineWords (chars ['h', 'i', '#'])) := by
  rintro ⟨w, hw, hsplits⟩
  have hwords : lineWords (chars ['h', 'i', '#']) = [(0, chars ['h', 'i'])] := by decide
  have hnone : splitWords (chars ['h', 'i', '#'] ++ [0]) =
      some ⟨ecSuccess, 0, [0], chars ['h', 'i', '#'] ++ [0]⟩ := rfl
  obtain rfl := Option.some.inj (hnone.symm.trans hw)
  have hargv := hsplits.argv_eq
  rw [hwords] at hargv
  cases hargv

end Console
end CrosEc
