import Mathlib.Tactic

/-!
# A greedy scan and the optimum it finds

A scan walks once over a list of candidates and keeps the best one so far.  A candidate
takes the place of the one that is kept if its key is smaller, or if the keys are equal and
it is favoured.  The scan sees two candidates at a time; `scan_eq_pick` says what comes out
at the end in terms of the whole list: of the candidates with the least key the last one
that is favoured, and the first one if none of them is.  A scan that is given the order
instead of a key keeps the first candidate that no other one beats (`bestFrom_spec`).
-/

namespace CrosEc
namespace Lib

variable {α κ : Type*}

section Scan

variable [LinearOrder κ] (key : α → κ) (favoured : α → Bool)

/-- One step: the candidate `x` against the best one so far. -/
def keepBetter (best : Option α) (x : α) : Option α :=
  match best with
  | none => some x
  | some b => if key x < key b ∨ key x = key b ∧ favoured x then some x else some b

/-- The scan over all the candidates. -/
def scan (l : List α) : Option α := l.foldl (keepBetter key favoured) none

/-- The candidates with the least key, in the order of the list. -/
def minima (l : List α) : List α := l.filter fun x => ∀ y ∈ l, key x ≤ key y

end Scan

/-- The last favoured element of a list, or else its first one. -/
def pick (favoured : α → Bool) (l : List α) : Option α :=
  (l.filter favoured).getLast?.or l.head?

/-! ## Picking from a list -/

section Pick

variable {favoured : α → Bool} {l : List α} {r : α}

theorem pick_eq_none_iff : pick favoured l = none ↔ l = [] := by
  cases l with
  | nil => simp [pick]
  | cons x l => simp [pick]

theorem mem_of_pick (h : pick favoured l = some r) : r ∈ l := by
  rw [pick, Option.or_eq_some_iff] at h
  obtain hlast | ⟨-, hhead⟩ := h
  · exact (List.mem_filter.mp (List.mem_of_getLast? hlast)).1
  · exact List.mem_of_head? hhead

/-- A favoured element is picked if there is one. -/
theorem favoured_of_pick (h : pick favoured l = some r) {x : α} (hx : x ∈ l)
    (hfav : favoured x) : favoured r := by
  have hmem : x ∈ l.filter favoured := List.mem_filter.mpr ⟨hx, hfav⟩
  rw [pick, Option.or_eq_some_iff] at h
  obtain hlast | ⟨hnone, -⟩ := h
  · exact (List.mem_filter.mp (List.mem_of_getLast? hlast)).2
  · rw [List.getLast?_eq_none_iff] at hnone
    rw [hnone] at hmem
    exact absurd hmem List.not_mem_nil

/-- Without a favoured element, the first one is picked. -/
theorem pick_of_none_favoured (h : ∀ x ∈ l, favoured x = false) : pick favoured l = l.head? := by
  have hnil : l.filter favoured = [] := by
    rw [List.filter_eq_nil_iff]
    intro x hx
    simp [h x hx]
  rw [pick, hnil]
  rfl

theorem pick_concat (x : α) :
    pick favoured (l ++ [x]) = if favoured x then some x else (pick favoured l).or (some x) := by
  cases hfav : favoured x with
  | true => simp [pick, hfav]
  | false => cases l <;> simp [pick, hfav]

/-- The pick is still there after elements have been removed, as long as it stays and, where
it is favoured, no favoured element goes. -/
theorem pick_filter (p : α → Bool) (h : pick favoured l = some r) (hr : p r)
    (hfav : favoured r → ∀ x ∈ l, favoured x → p x) :
    pick favoured (l.filter p) = some r := by
  by_cases hr_fav : favoured r
  · -- all the favoured elements stay, so the last one of them does
    have hsame : (l.filter p).filter favoured = l.filter favoured := by
      rw [List.filter_filter]
      apply List.filter_congr
      intro x hx
      cases hx_fav : favoured x with
      | true => simp [hfav hr_fav x hx hx_fav]
      | false => rfl
    rw [pick, Option.or_eq_some_iff] at h ⊢
    rw [hsame]
    obtain hlast | ⟨hnone, hhead⟩ := h
    · exact Or.inl hlast
    · rw [List.getLast?_eq_none_iff, List.filter_eq_nil_iff] at hnone
      exact absurd hr_fav (hnone r (List.mem_of_head? hhead))
  · -- nothing is favoured, and the first element stays
    have hnone : ∀ x ∈ l, favoured x = false := by
      intro x hx
      by_contra htrue
      exact hr_fav (favoured_of_pick h hx (by simpa using htrue))
    rw [pick_of_none_favoured hnone] at h
    rw [pick_of_none_favoured fun x hx => hnone x (List.mem_of_mem_filter hx)]
    cases l with
    | nil => simp at h
    | cons y l =>
        obtain rfl : y = r := by simpa using h
        simp [hr]

/-- **Picking again.**  The elements are in groups, and the group `a` was favoured.  With the
group of the pick favoured, the pick stays the same if the group `a` has an element or if the
pick is alone in its group, and only then. -/
theorem pick_group_iff {β : Type*} [DecidableEq β] (group : α → β) {a : Option β}
    (hnodup : l.Nodup) (h : pick (fun x => a = some (group x)) l = some r) :
    pick (fun x => some (group r) = some (group x)) l = some r ↔
      (∃ x ∈ l, a = some (group x)) ∨ ∀ x ∈ l, group x = group r → x = r := by
  by_cases hgroup : ∃ x ∈ l, a = some (group x)
  · obtain ⟨x, hx, hax⟩ := hgroup
    have har := favoured_of_pick h hx (decide_eq_true hax)
    rw [of_decide_eq_true har] at h
    exact ⟨fun _ => Or.inl ⟨x, hx, hax⟩, fun _ => h⟩
  · have hhead : l.head? = some r := by
      rw [← h]
      apply (pick_of_none_favoured _).symm
      intro x hx
      exact decide_eq_false fun hax => hgroup ⟨x, hx, hax⟩
    obtain ⟨tail, rfl⟩ : ∃ tail, l = r :: tail := by
      cases l with
      | nil => simp at hhead
      | cons y tail => exact ⟨tail, by rw [Option.some.inj hhead]⟩
    -- the rest of the group of the pick
    have hpick : pick (fun x => some (group r) = some (group x)) (r :: tail) =
        (r :: tail.filter fun x => some (group r) = some (group x)).getLast? := by
      simp [pick, List.getLast?_cons]
    rw [hpick, List.getLast?_cons, Option.some.injEq]
    cases hlast : (tail.filter fun x => some (group r) = some (group x)).getLast? with
    | none =>
        rw [List.getLast?_eq_none_iff, List.filter_eq_nil_iff] at hlast
        refine ⟨fun _ => Or.inr fun x hx hxr => ?_, fun _ => rfl⟩
        obtain rfl | hx := List.mem_cons.mp hx
        · rfl
        · exact absurd (decide_eq_true (congrArg some hxr.symm)) (hlast x hx)
    | some y =>
        obtain ⟨hy, hyr⟩ := List.mem_filter.mp (List.mem_of_getLast? hlast)
        have hne : y ≠ r := fun heq => (List.nodup_cons.mp hnodup).1 (heq ▸ hy)
        refine ⟨fun heq => absurd heq hne, fun halone => absurd ?_ hne⟩
        have hgroup_y : group r = group y := Option.some.inj (of_decide_eq_true hyr)
        exact (halone.resolve_left hgroup) y (List.mem_cons_of_mem _ hy) hgroup_y.symm

end Pick

/-! ## The least keys -/

section Minima

variable [LinearOrder κ] {key : α → κ} {favoured : α → Bool} {l : List α}

theorem mem_minima {x : α} : x ∈ minima key l ↔ x ∈ l ∧ ∀ y ∈ l, key x ≤ key y := by
  simp [minima, List.mem_filter]

theorem minima_congr {key' : α → κ} (h : ∀ x ∈ l, key x = key' x) :
    minima key l = minima key' l := by
  apply List.filter_congr
  intro x hx
  rw [decide_eq_decide]
  constructor
  · intro hle y hy
    rw [← h x hx, ← h y hy]
    exact hle y hy
  · intro hle y hy
    rw [h x hx, h y hy]
    exact hle y hy

theorem minima_concat_of_lt {b x : α} (hb : b ∈ minima key l) (hlt : key x < key b) :
    minima key (l ++ [x]) = [x] := by
  have hleast : ∀ y ∈ l, key x < key y := fun y hy => hlt.trans_le ((mem_minima.mp hb).2 y hy)
  have hold : l.filter (fun y => ∀ z ∈ l ++ [x], key y ≤ key z) = [] := by
    rw [List.filter_eq_nil_iff]
    intro y hy hle
    exact absurd (of_decide_eq_true hle x (by simp)) (not_le.mpr (hleast y hy))
  have hnew : ∀ z ∈ l ++ [x], key x ≤ key z := by
    intro z hz
    obtain hz | hz := List.mem_append.mp hz
    · exact (hleast z hz).le
    · rw [List.mem_singleton.mp hz]
  rw [minima, List.filter_append, hold, List.nil_append, List.filter_singleton,
    decide_eq_true hnew]
  rfl

theorem minima_concat_of_le {b x : α} (hb : b ∈ minima key l) (hle : key b ≤ key x) :
    minima key (l ++ [x]) = minima key l ++ if key x = key b then [x] else [] := by
  have hbmin := mem_minima.mp hb
  have hold : l.filter (fun y => ∀ z ∈ l ++ [x], key y ≤ key z) = minima key l := by
    apply List.filter_congr
    intro y hy
    rw [decide_eq_decide]
    constructor
    · intro h z hz
      exact h z (List.mem_append_left _ hz)
    · intro h z hz
      obtain hz | hz := List.mem_append.mp hz
      · exact h z hz
      · rw [List.mem_singleton.mp hz]
        exact (h b hbmin.1).trans hle
  have hnew : (∀ z ∈ l ++ [x], key x ≤ key z) ↔ key x = key b := by
    constructor
    · intro h
      exact le_antisymm (h b (List.mem_append_left _ hbmin.1)) hle
    · intro heq z hz
      obtain hz | hz := List.mem_append.mp hz
      · exact heq ▸ hbmin.2 z hz
      · rw [List.mem_singleton.mp hz]
  rw [minima, List.filter_append, hold, List.filter_singleton]
  by_cases heq : key x = key b
  · rw [decide_eq_true (hnew.mpr heq), if_pos heq]
    rfl
  · rw [decide_eq_false (fun h => heq (hnew.mp h)), if_neg heq]
    rfl

theorem scan_concat (l : List α) (x : α) :
    scan key favoured (l ++ [x]) = keepBetter key favoured (scan key favoured l) x := by
  simp [scan, List.foldl_append]

/-- Something is kept from the first candidate on. -/
theorem scan_eq_none_iff : scan key favoured l = none ↔ l = [] := by
  induction l using List.reverseRecOn with
  | nil => simp [scan]
  | append_singleton l x _ =>
      rw [scan_concat]
      cases scan key favoured l with
      | none => simp [keepBetter]
      | some b =>
          simp only [keepBetter]
          split <;> simp

/-- **What the scan finds.**  The proof follows the scan: `l` is what has been seen. -/
theorem scan_eq_pick (l : List α) : scan key favoured l = pick favoured (minima key l) := by
  induction l using List.reverseRecOn with
  | nil => rfl
  | append_singleton l x ih =>
      rw [scan_concat, ih]
      cases hbest : pick favoured (minima key l) with
      | none =>
          obtain rfl : l = [] := scan_eq_none_iff.mp (ih.trans hbest)
          cases hfav : favoured x <;> simp [keepBetter, minima, pick, hfav]
      | some b =>
          have hb : b ∈ minima key l := mem_of_pick hbest
          show (if key x < key b ∨ key x = key b ∧ favoured x then some x else some b) = _
          obtain hlt | heq | hgt := lt_trichotomy (key x) (key b)
          · rw [if_pos (Or.inl hlt), minima_concat_of_lt hb hlt]
            cases hfav : favoured x <;> simp [pick, hfav]
          · rw [minima_concat_of_le hb heq.ge, if_pos heq, pick_concat, hbest]
            cases hfav : favoured x <;> simp [heq]
          · rw [minima_concat_of_le hb hgt.le, if_neg hgt.ne', List.append_nil, hbest,
              if_neg (not_or.mpr ⟨hgt.not_gt, fun h => hgt.ne' h.1⟩)]

theorem minima_eq_nil_iff : minima key l = [] ↔ l = [] := by
  have hscan : scan key (fun _ => false) l = pick (fun _ => false) (minima key l) :=
    scan_eq_pick l
  have hnone : scan key (fun _ => false) l = none ↔ l = [] := scan_eq_none_iff
  rw [← hnone, hscan, pick_eq_none_iff]

/-- Removing candidates leaves the rest of the minima, if one of them stays. -/
theorem minima_filter (p : α → Bool) {r : α} (hr : r ∈ minima key l) (hp : p r) :
    minima key (l.filter p) = (minima key l).filter p := by
  have hrmin := mem_minima.mp hr
  rw [minima, minima, List.filter_filter, List.filter_filter]
  apply List.filter_congr
  intro x hx
  cases hpx : p x with
  | false => simp
  | true =>
      rw [Bool.and_true, Bool.true_and, decide_eq_decide]
      constructor
      · intro h y hy
        exact (h r (List.mem_filter.mpr ⟨hrmin.1, hp⟩)).trans (hrmin.2 y hy)
      · intro h y hy
        exact h y (List.mem_of_mem_filter hy)

end Minima

/-! ## A scan with an order of its own

The scan starts with `b` and keeps what nothing after it has beaten. -/

section FirstBest

/-- A scan that starts with the candidate `b`. -/
def bestFrom (beats : α → α → Prop) [DecidableRel beats] (b : α) : List α → α
  | [] => b
  | x :: l => bestFrom beats (if beats x b then x else b) l

/-- `r` beats everything before it in the list, and nothing after it beats `r`. -/
def FirstBest (beats : α → α → Prop) (l : List α) (r : α) : Prop :=
  ∃ before after, l = before ++ r :: after ∧
    (∀ x ∈ before, beats r x) ∧ ∀ x ∈ after, ¬ beats x r

variable {beats : α → α → Prop}

namespace FirstBest

variable {l : List α} {r : α}

theorem mem (h : FirstBest beats l r) : r ∈ l := by
  obtain ⟨before, after, rfl, -, -⟩ := h
  simp

/-- Nothing in the list beats the first best of it. -/
theorem not_beaten (h : FirstBest beats l r) (hasymm : ∀ x y, beats x y → ¬ beats y x) {x : α}
    (hx : x ∈ l) : ¬ beats x r := by
  obtain ⟨before, after, rfl, hbefore, hafter⟩ := h
  rcases List.mem_append.mp hx with hx | hx
  · exact hasymm r x (hbefore x hx)
  · rcases List.mem_cons.mp hx with rfl | hx
    · exact fun hself => hasymm x x hself hself
    · exact hafter x hx

theorem concat_of_beats (h : FirstBest beats l r) (hasymm : ∀ x y, beats x y → ¬ beats y x)
    (hbetween : ∀ x y z, beats x z → beats x y ∨ beats y z) {x : α} (hx : beats x r) :
    FirstBest beats (l ++ [x]) x := by
  refine ⟨l, [], rfl, fun y hy => ?_, by simp⟩
  exact (hbetween x y r hx).resolve_right (h.not_beaten hasymm hy)

theorem concat_of_not_beats (h : FirstBest beats l r) {x : α} (hx : ¬ beats x r) :
    FirstBest beats (l ++ [x]) r := by
  obtain ⟨before, after, rfl, hbefore, hafter⟩ := h
  refine ⟨before, after ++ [x], by simp, hbefore, fun y hy => ?_⟩
  rcases List.mem_append.mp hy with hy | hy
  · exact hafter y hy
  · rw [List.mem_singleton.mp hy]
    exact hx

end FirstBest

/-- **What the scan keeps.**  The proof follows the scan: `seen` is what has been seen. -/
theorem bestFrom_spec [DecidableRel beats] (hasymm : ∀ x y, beats x y → ¬ beats y x)
    (hbetween : ∀ x y z, beats x z → beats x y ∨ beats y z) (b : α) (l : List α) :
    FirstBest beats (b :: l) (bestFrom beats b l) := by
  suffices hscan : ∀ (seen : List α) (c : α), FirstBest beats seen c →
      FirstBest beats (seen ++ l) (bestFrom beats c l) by
    exact hscan [b] b ⟨[], [], rfl, by simp, by simp⟩
  induction l with
  | nil =>
      intro seen c h
      rw [List.append_nil]
      exact h
  | cons x l ih =>
      intro seen c h
      rw [List.append_cons]
      by_cases hx : beats x c
      · have hnext := ih _ _ (h.concat_of_beats hasymm hbetween hx)
        rwa [bestFrom, if_pos hx]
      · have hnext := ih _ _ (h.concat_of_not_beats hx)
        rwa [bestFrom, if_neg hx]

/-- There is only one first best. -/
theorem FirstBest.unique {l : List α} {r r' : α} (h : FirstBest beats l r)
    (h' : FirstBest beats l r') : r = r' := by
  obtain ⟨before, after, rfl, hbefore, hafter⟩ := h
  obtain ⟨before', after', heq, hbefore', hafter'⟩ := h'
  rcases List.append_eq_append_iff.mp heq with ⟨mid, rfl, htail⟩ | ⟨mid, rfl, htail⟩
  · cases mid with
    | nil => simpa using (List.cons.inj htail).1
    | cons y mid =>
        obtain ⟨rfl, rfl⟩ := List.cons.inj htail
        have hbeats : beats r' r := hbefore' r (by simp)
        exact absurd hbeats (hafter r' (by simp))
  · cases mid with
    | nil => simpa using (List.cons.inj htail).1.symm
    | cons y mid =>
        obtain ⟨rfl, rfl⟩ := List.cons.inj htail
        have hbeats : beats r r' := hbefore r' (by simp)
        exact absurd hbeats (hafter' r (by simp))

end FirstBest

end Lib
end CrosEc
