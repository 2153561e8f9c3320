import CrosEc.Common
import CrosEc.Lib.Runs
import CrosEc.Util.Strtoi

/-!
# `common/console.c`: splitting a line into words

`split_words` goes over the memory from a pointer on, and puts a null behind every word.  Behind
this memory nothing is read, and a loop that gets there has no result.

A word ends at a space or at the end of the line.  At the start of a comment the loop ends at once,
so a word that touches the comment is not counted.
-/

namespace CrosEc
namespace Console

open Lib Util

/-- `MAX_ARGS_PER_COMMAND` -/
def maxArgsPerCommand : Nat := 10

/-! ## The code -/

/-- The variables of the loop, with the memory that it has gone over. -/
structure Split where
  argc : Nat
  argv : List Nat
  inWord : Bool
  front : Bytes

/-- The result of `split_words`: what it returns, the words by the places where they start, and the
memory. -/
structure Words where
  rv : Code
  argc : Nat
  argv : List Nat
  input : Bytes

/-- `*c = '\0'; ++*argc; in_word = 0;` if a word ends at `c`. -/
def Split.endWord (s : Split) (c : UInt8) : Split :=
  if s.inWord then ⟨s.argc + 1, s.argv, false, s.front ++ [0]⟩
  else { s with front := s.front ++ [c] }

/-- The loop, with the rest of the memory. -/
def splitLoop : Split → Bytes → Option Words
  | _, [] => none
  | s, c :: rest =>
      if c = 0 then
        let s := s.endWord c
        some ⟨ecSuccess, s.argc, s.argv, s.front ++ rest⟩
      else if isspace c then splitLoop (s.endWord c) rest
      -- Comments start with hash and go to end of line.
      else if c = '#'.toUInt8 then some ⟨ecSuccess, s.argc, s.argv, s.front ++ c :: rest⟩
      else if s.inWord then splitLoop { s with front := s.front ++ [c] } rest
      else if maxArgsPerCommand ≤ s.argc then
        some ⟨ecErrorOverflow, s.argc, s.argv, s.front ++ c :: rest⟩
      else
        -- Starting a new word.
        splitLoop
          ⟨s.argc, s.argv.take s.argc ++ [s.front.length], true, s.front ++ [c]⟩ rest

/-- `split_words` -/
def splitWords (input : Bytes) : Option Words := splitLoop ⟨0, [], false, []⟩ input

/-! ## What it is for -/

/-- What precedes the comment. -/
def uncommented (line : Bytes) : Bytes := line.takeWhile fun c => c ≠ '#'.toUInt8

/-- The words of a line: the maximal runs of non-space characters that precede the comment, as many
as a command can have, each with its place. -/
def lineWords (line : Bytes) : List (Nat × Bytes) :=
  ((runStarts isspace (uncommented line)).take maxArgsPerCommand).map fun i =>
    (i, runAt isspace (uncommented line) i)

/-- A string in memory. -/
def IsString (mem : Bytes) (i : Nat) (text : Bytes) : Prop := ∃ rest, mem.drop i = text ++ 0 :: rest

/-- `argv` has exactly the words of the line, each with a null behind it. -/
structure SplitsInto (w : Words) (words : List (Nat × Bytes)) : Prop where
  argc_eq : w.argc = words.length
  argv_eq : w.argv.take w.argc = words.map Prod.fst
  strings : ∀ word ∈ words, IsString w.input word.1 word.2

/-- The comment touches a word, and it is one that a command can have. -/
def CommentEndsWord (line : Bytes) : Prop :=
  '#'.toUInt8 ∈ line ∧ endsInRun isspace (uncommented line) = true ∧
    (runStarts isspace (uncommented line)).length ≤ maxArgsPerCommand

instance (line : Bytes) : Decidable (CommentEndsWord line) :=
  inferInstanceAs (Decidable (_ ∧ _ ∧ _))

/-- The words that are counted: one that the comment touches is not. -/
def countedWords (line : Bytes) : List (Nat × Bytes) :=
  if CommentEndsWord line then (lineWords line).dropLast else lineWords line

/-! ## The loop -/

/-- The loop has gone over `l`: the runs that have ended are words with a null behind them. -/
structure Split.Over (s : Split) (l : Bytes) : Prop where
  length_front : s.front.length = l.length
  inWord_eq : s.inWord = endsInRun isspace l
  argv_eq : s.argv = runStarts isspace l
  argc_eq : s.argc + (if s.inWord then 1 else 0) = s.argv.length
  argc_le : s.argv.length ≤ maxArgsPerCommand
  ended : ∀ i ∈ runStarts isspace l, i + (runAt isspace l i).length < l.length →
    IsString s.front i (runAt isspace l i)
  reaches : ∀ i ∈ runStarts isspace l, i + (runAt isspace l i).length = l.length →
    s.front.drop i = runAt isspace l i

theorem Split.over_nil : (⟨0, [], false, []⟩ : Split).Over [] where
  length_front := rfl
  inWord_eq := rfl
  argv_eq := rfl
  argc_eq := rfl
  argc_le := Nat.zero_le _
  ended := by simp
  reaches := by simp

variable {s : Split} {l : Bytes} {c : UInt8}

theorem IsString.append {mem text : Bytes} {i : Nat} (h : IsString mem i text) (more : Bytes) :
    IsString (mem ++ more) i text := by
  obtain ⟨rest, hrest⟩ := h
  have hi : i ≤ mem.length := by
    by_contra hgt
    rw [List.drop_eq_nil_of_le (by omega)] at hrest
    simp at hrest
  exact ⟨rest ++ more, by
    rw [List.drop_append_of_le_length hi, hrest, List.append_assoc, List.cons_append]⟩

@[simp] theorem Split.endWord_argv (s : Split) (c : UInt8) : (s.endWord c).argv = s.argv := by
  rw [Split.endWord]
  split <;> rfl

theorem Split.endWord_inWord (s : Split) (c : UInt8) : (s.endWord c).inWord = false := by
  rw [Split.endWord]
  split
  · rfl
  · rename_i hword
    exact Bool.eq_false_iff.mpr hword

theorem Split.endWord_front (s : Split) (c : UInt8) :
    (s.endWord c).front = s.front ++ [if s.inWord then 0 else c] := by
  rw [Split.endWord]
  split <;> rfl

theorem Split.Over.endWord_argc (h : s.Over l) (c : UInt8) :
    (s.endWord c).argc = s.argv.length := by
  rw [← h.argc_eq, Split.endWord]
  split <;> rfl

/-- Where a word ends, all words have a null behind them. -/
theorem Split.Over.endWord_strings (h : s.Over l) (c : UInt8) :
    ∀ i ∈ runStarts isspace l, IsString (s.endWord c).front i (runAt isspace l i) := by
  intro i hi
  have hlt := lt_of_mem_runStarts isspace hi
  rw [s.endWord_front]
  rcases Nat.lt_or_eq_of_le (length_runAt_le isspace hlt.le) with hended | hend
  · exact (h.ended i hi hended).append _
  · -- the last word, and now it ends
    have hword : s.inWord = true := h.inWord_eq.trans (endsInRun_of_reaches isspace hlt hend)
    refine ⟨[], ?_⟩
    rw [hword, List.drop_append_of_le_length (by rw [h.length_front]; exact hlt.le),
      h.reaches i hi hend]
    rfl

/-- **A space.**  The word before it ends. -/
theorem Split.Over.endWord (h : s.Over l) (hc : isspace c = true) :
    (s.endWord c).Over (l ++ [c]) := by
  have hstarts : runStarts isspace (l ++ [c]) = runStarts isspace l := by
    rw [runStarts_snoc, hc, Bool.true_or, if_pos rfl, List.append_nil]
  have hrun : ∀ i ∈ runStarts isspace l, runAt isspace (l ++ [c]) i = runAt isspace l i :=
    fun i hi => runAt_snoc_of_sep isspace hc (lt_of_mem_runStarts isspace hi).le
  constructor
  · rw [s.endWord_front, List.length_append, List.length_append, h.length_front]
    rfl
  · rw [s.endWord_inWord, endsInRun_snoc, hc]
    rfl
  · rw [s.endWord_argv, h.argv_eq, hstarts]
  · rw [h.endWord_argc, s.endWord_inWord, s.endWord_argv]
    rfl
  · rw [s.endWord_argv]
    exact h.argc_le
  · intro i hi _
    rw [hstarts] at hi
    rw [hrun i hi]
    exact h.endWord_strings c i hi
  · intro i hi hend
    rw [hstarts] at hi
    have hle := length_runAt_le isspace (l := l) (lt_of_mem_runStarts isspace hi).le
    rw [hrun i hi, List.length_append, List.length_singleton] at hend
    omega

/-- **A character of a word.** -/
theorem Split.Over.inside (h : s.Over l) (hc : isspace c = false) (hword : s.inWord = true) :
    ({ s with front := s.front ++ [c] } : Split).Over (l ++ [c]) := by
  have hstarts : runStarts isspace (l ++ [c]) = runStarts isspace l := by
    rw [runStarts_snoc, ← h.inWord_eq, hword, Bool.or_true, if_pos rfl, List.append_nil]
  constructor
  · simp [h.length_front]
  · rw [endsInRun_snoc, hc]
    exact hword
  · rw [hstarts, ← h.argv_eq]
  · exact h.argc_eq
  · exact h.argc_le
  · intro i hi hended
    rw [hstarts] at hi
    have hlt := lt_of_mem_runStarts isspace hi
    have hle := length_runAt_le isspace (l := l) hlt.le
    rw [runAt_snoc_of_not_sep isspace hc hlt.le] at hended ⊢
    split at hended
    · simp only [List.length_append, List.length_singleton] at hended
      omega
    · rename_i hne
      rw [if_neg hne]
      exact (h.ended i hi (by omega)).append _
  · intro i hi hend
    rw [hstarts] at hi
    have hlt := lt_of_mem_runStarts isspace hi
    have hle := length_runAt_le isspace (l := l) hlt.le
    rw [runAt_snoc_of_not_sep isspace hc hlt.le] at hend ⊢
    split at hend
    · rename_i heq
      rw [if_pos heq, List.drop_append_of_le_length (by rw [h.length_front]; exact hlt.le),
        h.reaches i hi heq]
    · simp only [List.length_append, List.length_singleton] at hend
      omega

/-- Outside of a word all words have ended. -/
theorem Split.Over.all_ended (h : s.Over l) (hword : s.inWord = false) :
    s.argc = s.argv.length ∧ ∀ i ∈ runStarts isspace l,
      i + (runAt isspace l i).length < l.length := by
  refine ⟨by simpa [hword] using h.argc_eq, fun i hi => ?_⟩
  have hlt := lt_of_mem_runStarts isspace hi
  refine lt_of_le_of_ne (length_runAt_le isspace hlt.le) fun heq => ?_
  have hend := endsInRun_of_reaches isspace hlt heq
  rw [← h.inWord_eq, hword] at hend
  cases hend

/-- **The first character of a word.** -/
theorem Split.Over.startWord (h : s.Over l) (hc : isspace c = false) (hword : s.inWord = false)
    (hroom : s.argc < maxArgsPerCommand) :
    (⟨s.argc, s.argv.take s.argc ++ [s.front.length], true, s.front ++ [c]⟩ : Split).Over
      (l ++ [c]) := by
  obtain ⟨hargc, hended⟩ := h.all_ended hword
  have hstarts : runStarts isspace (l ++ [c]) = runStarts isspace l ++ [l.length] := by
    rw [runStarts_snoc, hc, ← h.inWord_eq, hword]
    rfl
  have hnew : runAt isspace (l ++ [c]) l.length = [c] := by
    simp [runAt, hc]
  have hargv : s.argv.take s.argc ++ [s.front.length] = runStarts isspace (l ++ [c]) := by
    rw [hargc, List.take_length, h.length_front, h.argv_eq, hstarts]
  have hold : ∀ i ∈ runStarts isspace l, runAt isspace (l ++ [c]) i = runAt isspace l i :=
    fun i hi => runAt_append_of_lt isspace (hended i hi) [c]
  constructor
  · simp [h.length_front]
  · rw [endsInRun_snoc, hc]
    rfl
  · exact hargv
  · show s.argc + 1 = _
    rw [hargv, hstarts, List.length_append, ← h.argv_eq, ← hargc]
    rfl
  · show List.length (s.argv.take s.argc ++ [s.front.length]) ≤ maxArgsPerCommand
    rw [hargv, hstarts, List.length_append, ← h.argv_eq, ← hargc]
    exact hroom
  · intro i hi hlt
    rw [hstarts] at hi
    rcases List.mem_append.mp hi with hi | hi
    · rw [hold i hi]
      exact (h.ended i hi (hended i hi)).append _
    · obtain rfl := List.mem_singleton.mp hi
      rw [hnew, List.length_append] at hlt
      simp at hlt
  · intro i hi hend
    rw [hstarts] at hi
    rcases List.mem_append.mp hi with hi | hi
    · have := hended i hi
      rw [hold i hi, List.length_append, List.length_singleton] at hend
      omega
    · obtain rfl := List.mem_singleton.mp hi
      rw [hnew, List.drop_append_of_le_length h.length_front.ge, List.drop_eq_nil_of_le
        h.length_front.le, List.nil_append]

/-! ## The whole line -/

theorem map_fst_lineWords (line : Bytes) :
    (lineWords line).map Prod.fst =
      (runStarts isspace (uncommented line)).take maxArgsPerCommand := by
  rw [lineWords, List.map_map]
  exact List.map_id _

theorem uncommented_append {m : Bytes} (hl : '#'.toUInt8 ∉ l) :
    uncommented (l ++ m) = l ++ uncommented m :=
  List.takeWhile_append_of_pos fun _ hc => decide_eq_true fun heq => hl (heq ▸ hc)

/-- All words of a line with at most ten, in memory. -/
theorem splitsInto_of_all {w : Words} {line : Bytes}
    (hle : (runStarts isspace (uncommented line)).length ≤ maxArgsPerCommand)
    (hargv : w.argv = runStarts isspace (uncommented line)) (hargc : w.argc = w.argv.length)
    (hstrings : ∀ i ∈ runStarts isspace (uncommented line),
      IsString w.input i (runAt isspace (uncommented line) i)) :
    SplitsInto w (lineWords line) := by
  constructor
  · rw [hargc, hargv, lineWords, List.length_map, List.take_of_length_le hle]
  · rw [map_fst_lineWords, hargc, List.take_length, hargv, List.take_of_length_le hle]
  · intro word hword
    obtain ⟨i, hi, rfl⟩ := List.mem_map.mp hword
    exact hstrings i (List.mem_of_mem_take hi)

/-- **A comment.**  The words before it are counted, but for one that touches it. -/
theorem Split.Over.comment (h : s.Over l) (hl : '#'.toUInt8 ∉ l) (m : Bytes) {w : Words}
    (hargv : w.argv = s.argv) (hargc : w.argc = s.argc)
    (hinput : ∃ more, w.input = s.front ++ more) :
    SplitsInto w (countedWords (l ++ '#'.toUInt8 :: m)) := by
  have hbody : uncommented (l ++ '#'.toUInt8 :: m) = l := by
    rw [uncommented_append hl, uncommented, List.takeWhile_cons_of_neg (by simp), List.append_nil]
  have hle : (runStarts isspace l).length ≤ maxArgsPerCommand := h.argv_eq ▸ h.argc_le
  obtain ⟨more, hmore⟩ := hinput
  rw [countedWords]
  cases hword : s.inWord with
  | false =>
      obtain ⟨hall, hended⟩ := h.all_ended hword
      rw [if_neg]
      · apply splitsInto_of_all
        · rwa [hbody]
        · rw [hbody, hargv, h.argv_eq]
        · rw [hargc, hargv, hall]
        · rw [hbody, hmore]
          exact fun i hi => (h.ended i hi (hended i hi)).append more
      · rintro ⟨-, hends, -⟩
        rw [hbody, ← h.inWord_eq, hword] at hends
        cases hends
  | true =>
      have hcount : s.argc = (runStarts isspace l).length - 1 := by
        have := h.argc_eq
        rw [hword, if_pos rfl, h.argv_eq] at this
        omega
      have hwords : lineWords (l ++ '#'.toUInt8 :: m) =
          (runStarts isspace l).map fun i => (i, runAt isspace l i) := by
        rw [lineWords, hbody, List.take_of_length_le hle]
      rw [if_pos ⟨by simp, by rw [hbody, ← h.inWord_eq, hword], by rwa [hbody]⟩, hwords,
        ← List.map_dropLast]
      constructor
      · rw [hargc, hcount, List.length_map, List.length_dropLast]
      · rw [hargv, hargc, hcount, h.argv_eq, ← List.dropLast_eq_take, List.map_map]
        exact (List.map_id _).symm
      · intro word hmem
        obtain ⟨i, hi, rfl⟩ := List.mem_map.mp hmem
        rw [hmore]
        exact (h.ended i (List.mem_of_mem_dropLast hi)
          (runAt_lt_of_mem_dropLast isspace hi)).append more

/-- **Too many words.**  The first ten have ended. -/
theorem Split.Over.overflow (h : s.Over l) (hl : '#'.toUInt8 ∉ l) (m : Bytes)
    (hc : isspace c = false) (hhash : c ≠ '#'.toUInt8) (hword : s.inWord = false)
    (hfull : maxArgsPerCommand ≤ s.argc) {w : Words}
    (hargv : w.argv = s.argv) (hargc : w.argc = s.argc)
    (hinput : ∃ more, w.input = s.front ++ more) :
    SplitsInto w (countedWords (l ++ c :: m)) := by
  obtain ⟨hall, hended⟩ := h.all_ended hword
  have hbody : uncommented (l ++ c :: m) = l ++ [c] ++ uncommented m := by
    rw [uncommented_append hl, uncommented, List.takeWhile_cons_of_pos (by simpa using hhash),
      List.append_assoc]
    rfl
  have hten : (runStarts isspace l).length = maxArgsPerCommand :=
    le_antisymm (h.argv_eq ▸ h.argc_le) (by rw [← h.argv_eq, ← hall]; exact hfull)
  obtain ⟨later, hlater⟩ := runStarts_prefix isspace (l ++ [c]) (uncommented m)
  have hstarts : runStarts isspace (l ++ [c]) = runStarts isspace l ++ [l.length] := by
    rw [runStarts_snoc, hc, ← h.inWord_eq, hword]
    rfl
  have hmore : runStarts isspace (uncommented (l ++ c :: m)) =
      runStarts isspace l ++ (l.length :: later) := by
    rw [hbody, ← hlater, hstarts, List.append_assoc]
    rfl
  have hfirst : (runStarts isspace (uncommented (l ++ c :: m))).take maxArgsPerCommand =
      runStarts isspace l := by
    rw [hmore, List.take_left' hten]
  rw [countedWords, if_neg]
  · constructor
    · rw [hargc, hall, h.argv_eq, lineWords, hfirst, List.length_map]
    · rw [map_fst_lineWords, hfirst, hargv, hargc, hall, List.take_length, h.argv_eq]
    · intro word hmem
      obtain ⟨i, hi, rfl⟩ := List.mem_map.mp hmem
      rw [hfirst] at hi
      obtain ⟨more, hinput⟩ := hinput
      rw [hinput, hbody, List.append_assoc, runAt_append_of_lt isspace (hended i hi)]
      exact (h.ended i hi (hended i hi)).append more
  · rintro ⟨-, -, hle⟩
    rw [hmore, List.length_append, hten, List.length_cons] at hle
    omega

/-- The loop over the rest `m` of a line. -/
theorem splitLoop_spec {m : Bytes} (rest : Bytes) (h : s.Over l) (hl : '#'.toUInt8 ∉ l) (hm : 0 ∉ m) :
    ∃ w, splitLoop s (m ++ 0 :: rest) = some w ∧ SplitsInto w (countedWords (l ++ m)) := by
  induction m generalizing s l with
  | nil =>
      have hbody : uncommented (l ++ []) = l := by
        rw [uncommented_append hl]
        exact List.append_nil l
      refine ⟨_, by rw [List.nil_append, splitLoop, if_pos rfl], ?_⟩
      rw [countedWords, if_neg]
      · apply splitsInto_of_all
        · rw [hbody, ← h.argv_eq]
          exact h.argc_le
        · rw [hbody]
          exact (s.endWord_argv 0).trans h.argv_eq
        · rw [s.endWord_argv]
          exact h.endWord_argc 0
        · rw [hbody]
          intro i hi
          exact (h.endWord_strings 0 i hi).append rest
      · rintro ⟨hcomment, -⟩
        exact hl (by simpa using hcomment)
  | cons c m ih =>
      have hc : c ≠ 0 := fun heq => hm (heq ▸ List.mem_cons_self)
      have hm' : 0 ∉ m := fun hmem => hm (List.mem_cons_of_mem _ hmem)
      have hsnoc : l ++ c :: m = (l ++ [c]) ++ m := by
        rw [List.append_assoc, List.singleton_append]
      rw [List.cons_append, splitLoop, if_neg hc]
      by_cases hcomment : c = '#'.toUInt8
      · subst hcomment
        rw [if_neg (by decide), if_pos rfl]
        exact ⟨_, rfl, h.comment hl m rfl rfl ⟨_, rfl⟩⟩
      · have hl' : '#'.toUInt8 ∉ l ++ [c] := by
          simpa [hl] using Ne.symm hcomment
        cases hspace : isspace c with
        | true =>
            rw [if_pos rfl, hsnoc]
            exact ih (h.endWord hspace) hl' hm'
        | false =>
            rw [if_neg Bool.false_ne_true, if_neg hcomment]
            cases hword : s.inWord with
            | true =>
                have hnext := h.inside hspace hword
                rw [hword] at hnext
                rw [if_pos rfl, hsnoc]
                exact ih hnext hl' hm'
            | false =>
                rw [if_neg Bool.false_ne_true]
                by_cases hfull : maxArgsPerCommand ≤ s.argc
                · rw [if_pos hfull]
                  exact ⟨_, rfl, h.overflow hl m hspace hcomment hword hfull rfl rfl ⟨_, rfl⟩⟩
                · rw [if_neg hfull, hsnoc]
                  exact ih (h.startWord hspace hword (not_le.mp hfull)) hl' hm'

/-- The memory stays as long as it is. -/
theorem length_splitLoop {m : Bytes} {w : Words} (hw : splitLoop s m = some w) :
    w.input.length = s.front.length + m.length := by
  induction m generalizing s with
  | nil => cases hw
  | cons c m ih =>
      have hmore : ∀ (s' : Split), s'.front.length = s.front.length + 1 →
          splitLoop s' m = some w → w.input.length = s.front.length + (c :: m).length := by
        intro s' hfront hw'
        rw [ih hw', hfront, List.length_cons]
        omega
      have hended : (s.endWord c).front.length = s.front.length + 1 := by
        rw [s.endWord_front, List.length_append, List.length_singleton]
      rw [splitLoop] at hw
      split_ifs at hw
      · obtain rfl := Option.some.inj hw
        rw [List.length_append, hended, List.length_cons]
        omega
      · exact hmore _ hended hw
      · obtain rfl := Option.some.inj hw
        exact List.length_append
      · exact hmore _ (by simp) hw
      · obtain rfl := Option.some.inj hw
        exact List.length_append
      · exact hmore _ (by simp) hw

/-- **The words that are found.** -/
theorem splitWords_spec {line : Bytes} (hline : 0 ∉ line) (rest : Bytes) :
    ∃ w, splitWords (line ++ 0 :: rest) = some w ∧ SplitsInto w (countedWords line) ∧
      w.input.length = (line ++ 0 :: rest).length := by
  obtain ⟨w, hw, hsplits⟩ := splitLoop_spec rest Split.over_nil List.not_mem_nil hline
  exact ⟨w, hw, hsplits, (length_splitLoop hw).trans (Nat.zero_add _)⟩

/-- **Words.**  `split_words` finds exactly the words of a line, unless the comment touches one. -/
theorem splitWords_iff {line : Bytes} (hline : 0 ∉ line) (rest : Bytes) :
    (∃ w, splitWords (line ++ 0 :: rest) = some w ∧ SplitsInto w (lineWords line)) ↔
      ¬ CommentEndsWord line := by
  obtain ⟨w, hw, hcounted, -⟩ := splitWords_spec hline rest
  rw [countedWords] at hcounted
  constructor
  · rintro ⟨w', hw', hall⟩ hcomment
    obtain rfl := Option.some.inj (hw.symm.trans hw')
    rw [if_pos hcomment] at hcounted
    -- one word is missing
    have hwords : (lineWords line).length = (runStarts isspace (uncommented line)).length := by
      rw [lineWords, List.length_map, List.take_of_length_le hcomment.2.2]
    have hpos := List.length_pos_of_ne_nil (runStarts_ne_nil isspace hcomment.2.1)
    have hcount := hall.argc_eq.symm.trans hcounted.argc_eq
    rw [List.length_dropLast] at hcount
    omega
  · intro hcomment
    rw [if_neg hcomment] at hcounted
    exact ⟨w, hw, hcounted⟩

end Console
end CrosEc
