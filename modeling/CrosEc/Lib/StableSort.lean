import Mathlib.Tactic

/-!
# Stable sorting by a key

`stableSort` puts the elements in the order of their keys, and leaves elements with the same key in
the order that they had.  It is the only list of these elements that does both: a sorted list is
known when its elements with each key are (`eq_of_filter_eq`).
-/

namespace CrosEc
namespace Lib

variable {α κ : Type*} [LinearOrder κ] {key : α → κ} {l l' : List α}

/-- The elements in the order of their keys. -/
def stableSort (key : α → κ) (l : List α) : List α :=
  l.mergeSort fun a b => decide (key a ≤ key b)

theorem perm_stableSort (key : α → κ) (l : List α) : (stableSort key l).Perm l :=
  List.mergeSort_perm l _

private theorem le_trans_decide (a b c : α) (hab : decide (key a ≤ key b) = true)
    (hbc : decide (key b ≤ key c) = true) : decide (key a ≤ key c) = true :=
  decide_eq_true ((of_decide_eq_true hab).trans (of_decide_eq_true hbc))

private theorem le_total_decide (a b : α) :
    (decide (key a ≤ key b) || decide (key b ≤ key a)) = true := by
  simpa using le_total (key a) (key b)

theorem pairwise_stableSort (key : α → κ) (l : List α) :
    (stableSort key l).Pairwise fun a b => key a ≤ key b :=
  (List.pairwise_mergeSort le_trans_decide le_total_decide l).imp of_decide_eq_true

/-- Elements with the same key keep their order. -/
theorem filter_stableSort (key : α → κ) (l : List α) (k : κ) :
    (stableSort key l).filter (fun a => key a = k) = l.filter fun a => key a = k := by
  have hsorted : (l.filter fun a => key a = k).Pairwise fun a b =>
      decide (key a ≤ key b) = true := by
    apply List.pairwise_of_forall_mem_list
    intro a ha b hb
    have hka := of_decide_eq_true (List.mem_filter.mp ha).2
    have hkb := of_decide_eq_true (List.mem_filter.mp hb).2
    exact decide_eq_true (hka.trans hkb.symm).le
  have hsub := (List.sublist_mergeSort le_trans_decide le_total_decide hsorted
    List.filter_sublist).filter fun a => decide (key a = k)
  rw [List.filter_filter] at hsub
  simp only [Bool.and_self] at hsub
  exact (hsub.eq_of_length ((perm_stableSort key l).filter _).length_eq.symm).symm

/-- **Sorted lists are known by their keys.** -/
theorem eq_of_filter_eq (hl : l.Pairwise fun a b => key a ≤ key b)
    (hl' : l'.Pairwise fun a b => key a ≤ key b)
    (h : ∀ k, (l.filter fun a => key a = k) = l'.filter fun a => key a = k) : l = l' := by
  have hmem : ∀ a, a ∈ l ↔ a ∈ l' := by
    intro a
    have hkey := congrArg (a ∈ ·) (h (key a))
    simpa using hkey
  induction l generalizing l' with
  | nil => exact (List.eq_nil_iff_forall_not_mem.mpr fun a ha => by
      simpa using (hmem a).mpr ha).symm
  | cons a l ih =>
      cases l' with
      | nil => simpa using (hmem a).mp List.mem_cons_self
      | cons b l' =>
          -- the first elements have the least key, and are the first with it
          have hle : key a ≤ key b := by
            rcases List.mem_cons.mp ((hmem b).mpr List.mem_cons_self) with rfl | hb
            · exact le_refl _
            · exact (List.pairwise_cons.mp hl).1 b hb
          have hge : key b ≤ key a := by
            rcases List.mem_cons.mp ((hmem a).mp List.mem_cons_self) with rfl | ha
            · exact le_refl _
            · exact (List.pairwise_cons.mp hl').1 a ha
          have hkey : key b = key a := le_antisymm hge hle
          have hab : a = b := by
            have hfirst := h (key a)
            rw [List.filter_cons_of_pos (by simp), List.filter_cons_of_pos (by simp [hkey])]
              at hfirst
            exact (List.cons.inj hfirst).1
          subst hab
          have htail : ∀ k, (l.filter fun a => key a = k) = l'.filter fun a => key a = k := by
            intro k
            have hk := h k
            by_cases hak : key a = k
            · rw [List.filter_cons_of_pos (by simp [hak]),
                List.filter_cons_of_pos (by simp [hak])] at hk
              exact (List.cons.inj hk).2
            · rwa [List.filter_cons_of_neg (by simp [hak]),
                List.filter_cons_of_neg (by simp [hak])] at hk
          rw [ih (List.pairwise_cons.mp hl).2 (List.pairwise_cons.mp hl').2 htail fun c => by
            have hc := congrArg (c ∈ ·) (htail (key c))
            simpa using hc]

/-- What a list needs to be the sorted one. -/
theorem eq_stableSort (hl' : l'.Pairwise fun a b => key a ≤ key b)
    (h : ∀ k, (l'.filter fun a => key a = k) = l.filter fun a => key a = k) :
    l' = stableSort key l :=
  eq_of_filter_eq hl' (pairwise_stableSort key l) fun k =>
    (h k).trans (filter_stableSort key l k).symm

end Lib
end CrosEc
