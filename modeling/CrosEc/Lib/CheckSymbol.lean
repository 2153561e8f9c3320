import Mathlib.Logic.Function.Basic

/-!
# Check symbols

A word of groups of `every` symbols, each group followed by a check symbol that is computed from
it by a recurrence.  Of two words that are both accepted, one cannot be the other one with one
symbol replaced, or with two neighbours of one group exchanged.

What the recurrence needs for this is part of `CheckSymbol`.  Its state is the check symbol so
far, and the two conditions on exchanges say that a step does not commute with another one, nor
with the check itself.
-/

namespace CrosEc
namespace Lib

/-- A recurrence for a check symbol. -/
structure CheckSymbol (α : Type*) where
  start : α
  step : α → α → α
  step_injective : ∀ s, Function.Injective (step s)
  step_left_injective : ∀ a, Function.Injective fun s => step s a
  eq_of_step_comm : ∀ s a b, step (step s a) b = step (step s b) a → a = b
  eq_of_step_check : ∀ s a b, b = step s a → a = step s b → a = b

namespace CheckSymbol

variable {α : Type*} (C : CheckSymbol α) {every count : Nat} {s t : α}

/-- The word completes its groups, from a state on in which `count` symbols of the group have
been seen, and every check symbol is right. -/
def Accepts (every : Nat) : α → Nat → List α → Prop
  | _, count, [] => count = 0
  | s, count, x :: xs =>
      if count = every then x = s ∧ Accepts every C.start 0 xs
      else Accepts every (C.step s x) (count + 1) xs

variable {C}

/-- Inside a group, what is left of the word determines the state. -/
theorem Accepts.state_eq {xs : List α} (hcount : count ≠ 0) (hs : C.Accepts every s count xs)
    (ht : C.Accepts every t count xs) : s = t := by
  induction xs generalizing s t count with
  | nil => exact absurd hs hcount
  | cons x xs ih =>
      unfold Accepts at hs ht
      split at hs
      · rename_i hfull
        rw [if_pos hfull] at ht
        exact hs.1.symm.trans ht.1
      · rename_i hpart
        rw [if_neg hpart] at ht
        exact C.step_left_injective x (ih (Nat.succ_ne_zero _) hs ht)

/-- **No symbol can be replaced.**  The induction is on the word in front of it. -/
theorem Accepts.eq_of_replace {pre post : List α} {a b : α}
    (ha : C.Accepts every s count (pre ++ a :: post))
    (hb : C.Accepts every s count (pre ++ b :: post)) : a = b := by
  induction pre generalizing s count with
  | nil =>
      rw [List.nil_append] at ha hb
      unfold Accepts at ha hb
      split at ha
      · rename_i hfull
        rw [if_pos hfull] at hb
        exact ha.1.trans hb.1.symm
      · rename_i hpart
        rw [if_neg hpart] at hb
        exact C.step_injective s (ha.state_eq (Nat.succ_ne_zero _) hb)
  | cons x pre ih =>
      rw [List.cons_append] at ha hb
      unfold Accepts at ha hb
      split at ha
      · rename_i hfull
        rw [if_pos hfull] at hb
        exact ih ha.2 hb.2
      · rename_i hpart
        rw [if_neg hpart] at hb
        exact ih ha hb

/-- **No two neighbours can be exchanged**, unless the first one is a check symbol. -/
theorem Accepts.eq_of_exchange {pre post : List α} {a b : α} (hcount : count ≤ every)
    (hgroup : (count + pre.length) % (every + 1) ≠ every)
    (ha : C.Accepts every s count (pre ++ a :: b :: post))
    (hb : C.Accepts every s count (pre ++ b :: a :: post)) : a = b := by
  induction pre generalizing s count with
  | nil =>
      rw [List.length_nil, Nat.add_zero, Nat.mod_eq_of_lt (Nat.lt_succ_of_le hcount)] at hgroup
      rw [List.nil_append, Accepts, if_neg hgroup] at ha hb
      unfold Accepts at ha hb
      split at ha
      · -- the second one is the check symbol
        rename_i hfull
        rw [if_pos hfull] at hb
        exact C.eq_of_step_check s a b ha.1 hb.1
      · rename_i hpart
        rw [if_neg hpart] at hb
        exact C.eq_of_step_comm s a b (ha.state_eq (Nat.succ_ne_zero _) hb)
  | cons x pre ih =>
      rw [List.cons_append] at ha hb
      rw [List.length_cons] at hgroup
      unfold Accepts at ha hb
      split at ha
      · rename_i hfull
        rw [if_pos hfull] at hb
        have hround : count + (pre.length + 1) = pre.length + (every + 1) := by omega
        rw [hround, Nat.add_mod_right] at hgroup
        exact ih (Nat.zero_le _) (by rwa [Nat.zero_add]) ha.2 hb.2
      · rename_i hpart
        rw [if_neg hpart] at hb
        have hnext : count + (pre.length + 1) = count + 1 + pre.length := by omega
        rw [hnext] at hgroup
        exact ih (by omega) hgroup ha hb

end CheckSymbol

end Lib
end CrosEc
