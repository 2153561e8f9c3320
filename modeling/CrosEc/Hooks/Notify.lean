import CrosEc.Lib.StableSort
import CrosEc.Lib.While

/-!
# `common/hooks.c`: calling the hooks of a type

`hook_notify` goes through the table of a hook type once for every priority that occurs in it,
from the lowest number on, and calls the hooks that have it.  It ends when it has called as many
hooks as there are in the table.  The routines are called one after the other; `calls` has those
that have been called so far.
-/

namespace CrosEc
namespace Hooks

open Lib

variable {ρ : Type}

/-- `HOOK_PRIO_FIRST` and `HOOK_PRIO_LAST` -/
def hookPrioFirst : Int := 1
def hookPrioLast : Int := 9999

/-- `struct hook_data` -/
structure HookData (ρ : Type) where
  routine : ρ
  priority : Int

/-- The variables of `hook_notify`, and the routines that it has called. -/
structure Notify (ρ : Type) where
  called : Nat
  lastPrio : Int
  calls : List ρ

/-- Find the lowest remaining priority. -/
def lowestRemaining (lastPrio : Int) : Int → List (HookData ρ) → Int
  | prio, [] => prio
  | prio, p :: ps =>
      lowestRemaining lastPrio
        (if p.priority < prio ∧ lastPrio < p.priority then p.priority else prio) ps

/-- Call all the hooks with that priority. -/
def callHooks (prio : Int) : List (HookData ρ) → Notify ρ → Notify ρ
  | [], s => s
  | p :: ps, s =>
      callHooks prio ps
        (if p.priority = prio then
          { s with called := s.called + 1, calls := s.calls ++ [p.routine] }
        else s)

/-- One round of the loop. -/
def notifyRound (table : List (HookData ρ)) (s : Notify ρ) : Notify ρ :=
  let prio := lowestRemaining s.lastPrio (hookPrioLast + 1) table
  callHooks prio table { s with lastPrio := prio }

/-- `hook_notify` for a type with this table: the routines that are called, in the order of the
calls.  There is none if it does not end within the rounds. -/
def hookNotify (fuel : Nat) (table : List (HookData ρ)) : Option (List ρ) :=
  (whileLoop (fun s => s.called < table.length) (fun s => some (notifyRound table s)) fuel
    ⟨0, hookPrioFirst - 1, []⟩).map Notify.calls

/-! ## One round -/

/-- The hooks with a priority, in the order of the table. -/
def withPrio (prio : Int) (table : List (HookData ρ)) : List (HookData ρ) :=
  table.filter fun p => p.priority = prio

theorem callHooks_eq (prio : Int) (table : List (HookData ρ)) (s : Notify ρ) :
    callHooks prio table s =
      { s with
        called := s.called + (withPrio prio table).length
        calls := s.calls ++ (withPrio prio table).map HookData.routine } := by
  induction table generalizing s with
  | nil => simp [callHooks, withPrio]
  | cons p ps ih =>
      rw [callHooks, ih]
      by_cases hp : p.priority = prio
      · simp [withPrio, hp, Nat.add_assoc, Nat.add_comm 1]
      · simp [withPrio, hp]

/-- The search ends at a lower bound of all the priorities that remain, which is one of them or
the number it has begun with. -/
theorem lowestRemaining_spec (lastPrio prio : Int) (table : List (HookData ρ)) :
    lowestRemaining lastPrio prio table ≤ prio ∧
      (∀ p ∈ table, lastPrio < p.priority →
        lowestRemaining lastPrio prio table ≤ p.priority) ∧
      (lowestRemaining lastPrio prio table = prio ∨
        ∃ p ∈ table, lastPrio < p.priority ∧
          lowestRemaining lastPrio prio table = p.priority) := by
  induction table generalizing prio with
  | nil => simp [lowestRemaining]
  | cons q ps ih =>
      rw [lowestRemaining]
      split
      · rename_i hlower
        obtain ⟨hle, hall, hfrom⟩ := ih q.priority
        refine ⟨by omega, ?_, Or.inr ?_⟩
        · intro p hp hlast
          rcases List.mem_cons.mp hp with rfl | hp
          · exact hle
          · exact hall p hp hlast
        · rcases hfrom with hq | ⟨p, hp, hlast, heq⟩
          · exact ⟨q, List.mem_cons_self, hlower.2, hq⟩
          · exact ⟨p, List.mem_cons_of_mem _ hp, hlast, heq⟩
      · rename_i hnot
        obtain ⟨hle, hall, hfrom⟩ := ih prio
        refine ⟨hle, ?_, ?_⟩
        · intro p hp hlast
          rcases List.mem_cons.mp hp with rfl | hp
          · omega
          · exact hall p hp hlast
        · rcases hfrom with hprio | ⟨p, hp, hlast, heq⟩
          · exact Or.inl hprio
          · exact Or.inr ⟨p, List.mem_cons_of_mem _ hp, hlast, heq⟩

/-! ## All rounds -/

/-- Exactly the hooks up to `lastPrio` have been called, in the right order. -/
structure CalledUpTo (table : List (HookData ρ)) (s : Notify ρ) (done : List (HookData ρ)) :
    Prop where
  calls_eq : s.calls = done.map HookData.routine
  called_eq : s.called = done.length
  sorted : done.Pairwise fun p q => p.priority ≤ q.priority
  le_lastPrio : ∀ p ∈ done, p.priority ≤ s.lastPrio
  withPrio_eq : ∀ k, k ≤ s.lastPrio → withPrio k done = withPrio k table

/-- So they are known. -/
theorem CalledUpTo.done_eq {table done : List (HookData ρ)} {s : Notify ρ}
    (h : CalledUpTo table s done) :
    done = stableSort HookData.priority (table.filter fun p => p.priority ≤ s.lastPrio) := by
  apply eq_stableSort h.sorted
  intro k
  rw [List.filter_filter]
  by_cases hk : k ≤ s.lastPrio
  · refine (h.withPrio_eq k hk).trans (List.filter_congr fun p _ => ?_)
    by_cases hp : p.priority = k <;> simp [hp, hk]
  · rw [List.filter_eq_nil_iff.mpr, List.filter_eq_nil_iff.mpr]
    · intro p _
      simp
      omega
    · intro p hp
      have := h.le_lastPrio p hp
      simp
      omega

theorem CalledUpTo.called_eq_length {table done : List (HookData ρ)} {s : Notify ρ}
    (h : CalledUpTo table s done) :
    s.called = (table.filter fun p => p.priority ≤ s.lastPrio).length := by
  rw [h.called_eq, h.done_eq]
  exact (perm_stableSort HookData.priority _).length_eq

/-- A hook that has not been called is in the table. -/
theorem CalledUpTo.exists_remaining {table done : List (HookData ρ)} {s : Notify ρ}
    (h : CalledUpTo table s done) (hless : s.called < table.length) :
    ∃ p ∈ table, s.lastPrio < p.priority := by
  by_contra hnone
  push Not at hnone
  have hall : (table.filter fun p => p.priority ≤ s.lastPrio) = table :=
    List.filter_eq_self.mpr fun p hp => by simpa using hnone p hp
  rw [h.called_eq_length, hall] at hless
  exact lt_irrefl _ hless

/-- If as many hooks have been called as there are, it is all of them. -/
theorem CalledUpTo.done_eq_all {table done : List (HookData ρ)} {s : Notify ρ}
    (h : CalledUpTo table s done) (hall : ¬ s.called < table.length) :
    done = stableSort HookData.priority table := by
  rw [h.called_eq_length] at hall
  have hlen : (table.filter fun p => p.priority ≤ s.lastPrio).length = table.length :=
    le_antisymm (List.length_filter_le _ _) (not_lt.mp hall)
  rw [h.done_eq, List.filter_sublist.eq_of_length hlen]

/-- **Step lemma.** -/
theorem CalledUpTo.notifyRound {table done : List (HookData ρ)} {s : Notify ρ}
    (hlast : ∀ p ∈ table, p.priority ≤ hookPrioLast) (h : CalledUpTo table s done)
    (hless : s.called < table.length) :
    ∃ more, more ≠ [] ∧ CalledUpTo table (Hooks.notifyRound table s) (done ++ more) := by
  obtain ⟨q, hq, hremains⟩ := h.exists_remaining hless
  obtain ⟨-, hall, hfrom⟩ := lowestRemaining_spec s.lastPrio (hookPrioLast + 1) table
  generalize hprio : lowestRemaining s.lastPrio (hookPrioLast + 1) table = prio at hall hfrom
  obtain ⟨p, hp, hpast, hpprio⟩ : ∃ p ∈ table, s.lastPrio < p.priority ∧ prio = p.priority := by
    rcases hfrom with heq | hfound
    · have hle := hall q hq hremains
      have := hlast q hq
      omega
    · exact hfound
  have hround : Hooks.notifyRound table s =
      ⟨s.called + (withPrio prio table).length, prio,
        s.calls ++ (withPrio prio table).map HookData.routine⟩ := by
    rw [Hooks.notifyRound, hprio, callHooks_eq]
  have hmem : ∀ x ∈ withPrio prio table, x.priority = prio := fun x hx => by
    simpa using (List.mem_filter.mp hx).2
  refine ⟨withPrio prio table, ?_, ?_⟩
  · exact List.ne_nil_of_mem (List.mem_filter.mpr ⟨hp, by simp [hpprio]⟩)
  rw [hround]
  constructor
  · rw [h.calls_eq, List.map_append]
  · rw [h.called_eq, List.length_append]
  · rw [List.pairwise_append]
    refine ⟨h.sorted, List.pairwise_of_forall_mem_list ?_, ?_⟩
    · intro x hx y hy
      rw [hmem x hx, hmem y hy]
    · intro x hx y hy
      have := h.le_lastPrio x hx
      rw [hmem y hy]
      omega
  · intro x hx
    rcases List.mem_append.mp hx with hx | hx
    · have := h.le_lastPrio x hx
      simp only
      omega
    · exact (hmem x hx).le
  · intro k hk
    simp only at hk
    rw [withPrio, List.filter_append]
    by_cases hkprio : k = prio
    · subst hkprio
      -- none of them has been called before
      have hnone : withPrio k done = [] := List.filter_eq_nil_iff.mpr fun x hx => by
        have := h.le_lastPrio x hx
        simp
        omega
      rw [show done.filter (fun x => decide (x.priority = k)) = [] from hnone, List.nil_append]
      exact List.filter_eq_self.mpr fun x hx => by simpa using hmem x hx
    · have hnone : (withPrio prio table).filter (fun x => decide (x.priority = k)) = [] :=
        List.filter_eq_nil_iff.mpr fun x hx => by
          simpa [hmem x hx] using Ne.symm hkprio
      rw [hnone, List.append_nil]
      by_cases hbefore : k ≤ s.lastPrio
      · exact h.withPrio_eq k hbefore
      · -- there is no priority in between
        have hdone : withPrio k done = [] := List.filter_eq_nil_iff.mpr fun x hx => by
          have := h.le_lastPrio x hx
          simp
          omega
        have htable : withPrio k table = [] := List.filter_eq_nil_iff.mpr fun x hx => by
          have hle := hall x hx
          simp
          omega
        exact hdone.trans htable.symm

/-- **Every hook is called once, in the order of the priorities.**  Whatever the table of a type
is, if its priorities are those that hooks may have, then `hook_notify` ends, and it calls the
hooks in the order of their priorities, those with the same priority in the order of the table. -/
theorem hookNotify_eq (table : List (HookData ρ))
    (hprio : ∀ p ∈ table, hookPrioFirst ≤ p.priority ∧ p.priority ≤ hookPrioLast) :
    ∀ fuel, table.length < fuel →
      hookNotify fuel table =
        some ((stableSort HookData.priority table).map HookData.routine) := by
  intro fuel hfuel
  have hinit : CalledUpTo table ⟨0, hookPrioFirst - 1, []⟩ [] := by
    constructor
    · rfl
    · rfl
    · exact List.Pairwise.nil
    · simp
    · intro k hk
      refine (List.filter_eq_nil_iff.mpr fun p hp => ?_).symm
      have := (hprio p hp).1
      simp only at hk
      simp
      omega
  obtain ⟨t, ht, ⟨done, hdone⟩, hend⟩ : ∃ t,
      whileLoop (fun s : Notify ρ => s.called < table.length)
        (fun s => some (notifyRound table s)) fuel ⟨0, hookPrioFirst - 1, []⟩ = some t ∧
      (∃ done, CalledUpTo table t done) ∧ decide (t.called < table.length) = false :=
    whileLoop_variant (fun s => ∃ done, CalledUpTo table s done) (fun s => table.length - s.called)
      (fun s hguard ⟨done, h⟩ => by
        have hless := of_decide_eq_true hguard
        obtain ⟨more, hmore, hnext⟩ := h.notifyRound (fun p hp => (hprio p hp).2) hless
        refine ⟨_, rfl, ⟨_, hnext⟩, ?_⟩
        have hpos := List.length_pos_of_ne_nil hmore
        rw [hnext.called_eq, List.length_append, ← h.called_eq]
        omega)
      ⟨[], hinit⟩ (show table.length - 0 < fuel by omega)
  rw [hookNotify, ht, Option.map_some, hdone.calls_eq, hdone.done_eq_all (of_decide_eq_false hend)]

/-- Two hooks with the default priority, and one that goes first. -/
theorem hookNotify_eq_three :
    hookNotify 4 [⟨'b', 5000⟩, ⟨'a', 1⟩, ⟨'c', 5000⟩] =
      some ((stableSort HookData.priority [⟨'b', 5000⟩, ⟨'a', 1⟩, ⟨'c', 5000⟩]).map
        HookData.routine) :=
  hookNotify_eq _ (by simp [hookPrioFirst, hookPrioLast]) 4 (by decide)

example : hookNotify 4 [⟨'b', 5000⟩, ⟨'a', 1⟩, ⟨'c', 5000⟩] = some ['a', 'b', 'c'] := by decide

end Hooks
end CrosEc
