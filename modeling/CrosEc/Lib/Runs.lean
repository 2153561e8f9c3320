import Mathlib.Data.List.TakeWhile
import Mathlib.Tactic

/-!
# Maximal runs

The maximal runs of elements of a list that are no separators, each by the place where it starts.
A list that is read from the left shows them one after the other: `runStarts_snoc` says when an
element starts a run, and `runAt_snoc_of_sep` and `runAt_snoc_of_not_sep` what it does to the runs
before it.
-/

namespace CrosEc
namespace Lib

variable {α : Type*} (sep : α → Bool) {l : List α} {c : α} {i : Nat}

/-- The list ends inside of a run. -/
def endsInRun (l : List α) : Bool := l.getLast?.any fun c => !sep c

/-- The places where a run starts: no separator, and none is the element in front of it. -/
def runStarts (l : List α) : List Nat :=
  (List.range l.length).filter fun i =>
    (l[i]?.any fun c => !sep c) && !endsInRun sep (l.take i)

/-- The run from a place on. -/
def runAt (l : List α) (i : Nat) : List α := (l.drop i).takeWhile fun c => !sep c

@[simp] theorem runStarts_nil : runStarts sep [] = [] := rfl

@[simp] theorem endsInRun_nil : endsInRun sep [] = false := rfl

@[simp] theorem endsInRun_snoc (l : List α) (c : α) : endsInRun sep (l ++ [c]) = !sep c := by
  simp [endsInRun]

theorem lt_of_mem_runStarts (h : i ∈ runStarts sep l) : i < l.length :=
  List.mem_range.mp (List.mem_filter.mp h).1

/-- A separator starts no run, and neither does an element behind one that is no separator. -/
theorem runStarts_snoc (l : List α) (c : α) :
    runStarts sep (l ++ [c]) =
      runStarts sep l ++ if sep c || endsInRun sep l then [] else [l.length] := by
  have hbefore : (List.range l.length).filter (fun i =>
      ((l ++ [c])[i]?.any fun c => !sep c) && !endsInRun sep ((l ++ [c]).take i)) =
        runStarts sep l := by
    apply List.filter_congr
    intro i hi
    have hlt := List.mem_range.mp hi
    rw [List.getElem?_append_left hlt, List.take_append_of_le_length hlt.le]
  rw [runStarts, List.length_append, List.length_singleton, List.range_succ, List.filter_append,
    hbefore]
  congr 1
  rw [List.filter_singleton, List.getElem?_append_right (le_refl _), Nat.sub_self,
    List.take_left]
  cases hc : sep c <;> cases endsInRun sep l <;> simp [hc]

/-- A run that starts inside the list is the same whatever follows, if it ends inside too. -/
theorem runAt_snoc_of_sep (hc : sep c = true) (hi : i ≤ l.length) :
    runAt sep (l ++ [c]) i = runAt sep l i := by
  rw [runAt, runAt, List.drop_append_of_le_length hi, List.takeWhile_append]
  split
  · rename_i hall
    rw [(List.takeWhile_sublist _).eq_of_length hall, List.takeWhile_cons_of_neg (by simp [hc]),
      List.append_nil]
  · rfl

theorem runAt_snoc_of_not_sep (hc : sep c = false) (hi : i ≤ l.length) :
    runAt sep (l ++ [c]) i =
      if i + (runAt sep l i).length = l.length then runAt sep l i ++ [c] else runAt sep l i := by
  have hlen : (runAt sep l i).length = (l.drop i).length ↔
      i + (runAt sep l i).length = l.length := by
    rw [List.length_drop]
    omega
  rw [← if_congr hlen rfl rfl, runAt, runAt, List.drop_append_of_le_length hi, List.takeWhile_append]
  split
  · rw [List.takeWhile_cons_of_pos (by simp [hc]), List.takeWhile_nil]
    rename_i hall
    rw [(List.takeWhile_sublist _).eq_of_length hall]
  · rfl

theorem length_runAt_le (hi : i ≤ l.length) : i + (runAt sep l i).length ≤ l.length := by
  have hle := (List.takeWhile_sublist (fun c => !sep c) (l := l.drop i)).length_le
  rw [List.length_drop] at hle
  rw [runAt]
  omega

/-- The runs of a list are among those of what it is the front of. -/
theorem runStarts_prefix (l m : List α) : runStarts sep l <+: runStarts sep (l ++ m) := by
  induction m generalizing l with
  | nil => rw [List.append_nil]
  | cons c m ih =>
      have hmore := ih (l ++ [c])
      rw [List.append_assoc, List.singleton_append, runStarts_snoc] at hmore
      exact (List.prefix_append _ _).trans hmore

/-- A run that has ended is the same whatever follows. -/
theorem runAt_append_of_lt (h : i + (runAt sep l i).length < l.length) (m : List α) :
    runAt sep (l ++ m) i = runAt sep l i := by
  have hne : ((l.drop i).takeWhile fun c => !sep c).length ≠ (l.drop i).length := by
    rw [List.length_drop]
    rw [runAt] at h
    omega
  rw [runAt, List.drop_append_of_le_length (by omega), List.takeWhile_append, if_neg hne]
  rfl

/-- A run goes up to the end of the list only if the list ends in it. -/
theorem endsInRun_of_reaches (hi : i < l.length) (h : i + (runAt sep l i).length = l.length) :
    endsInRun sep l = true := by
  have hall : runAt sep l i = l.drop i :=
    (List.takeWhile_sublist _).eq_of_length (by
      have hlen : (runAt sep l i).length = (l.drop i).length := by
        rw [List.length_drop]
        omega
      exact hlen)
  have hlast : (l.drop i).getLast? = l.getLast? := by
    rw [List.getLast?_drop, if_neg (by omega)]
  have hne : l.drop i ≠ [] := List.ne_nil_of_length_pos (by rw [List.length_drop]; omega)
  rw [endsInRun, ← hlast, List.getLast?_eq_some_getLast hne, Option.any_some]
  have hmem : (l.drop i).getLast hne ∈ (l.drop i).takeWhile fun c => !sep c := by
    rw [show ((l.drop i).takeWhile fun c => !sep c) = l.drop i from hall]
    exact List.getLast_mem hne
  exact List.mem_takeWhile_imp (p := fun c => !sep c) hmem

/-- A list that ends in a run has one. -/
theorem runStarts_ne_nil (h : endsInRun sep l = true) : runStarts sep l ≠ [] := by
  induction l using List.reverseRecOn with
  | nil => cases h
  | append_singleton l c ih =>
      rw [endsInRun_snoc] at h
      rw [runStarts_snoc]
      cases hends : endsInRun sep l with
      | true => simp [ih hends]
      | false => simp_all

/-- Only the last run may go up to the end of the list. -/
theorem runAt_lt_of_mem_dropLast (h : i ∈ (runStarts sep l).dropLast) :
    i + (runAt sep l i).length < l.length := by
  induction l using List.reverseRecOn with
  | nil => simp at h
  | append_singleton l c ih =>
      rw [List.length_append, List.length_singleton]
      rw [runStarts_snoc] at h
      cases hsep : sep c with
      | true =>
          rw [hsep, Bool.true_or, if_pos rfl, List.append_nil] at h
          have hlt := lt_of_mem_runStarts sep (List.mem_of_mem_dropLast h)
          rw [runAt_snoc_of_sep sep hsep hlt.le]
          exact Nat.lt_succ_of_lt (ih h)
      | false =>
          cases hends : endsInRun sep l with
          | true =>
              rw [hsep, hends, Bool.or_true, if_pos rfl, List.append_nil] at h
              have hlt := lt_of_mem_runStarts sep (List.mem_of_mem_dropLast h)
              rw [runAt_snoc_of_not_sep sep hsep hlt.le, if_neg (ih h).ne]
              exact Nat.lt_succ_of_lt (ih h)
          | false =>
              rw [hsep, hends, Bool.or_false, if_neg Bool.false_ne_true,
                List.dropLast_concat] at h
              have hlt := lt_of_mem_runStarts sep h
              have hle := length_runAt_le sep hlt.le
              have hne : i + (runAt sep l i).length ≠ l.length := fun heq => by
                rw [endsInRun_of_reaches sep hlt heq] at hends
                cases hends
              rw [runAt_snoc_of_not_sep sep hsep hlt.le, if_neg hne]
              omega

end Lib
end CrosEc
