import Mathlib.Tactic

/-!
# Loops

A `while` loop over a state, with a bound on its rounds.  A round may go wrong, and then there is
no result; nor is there one when the bound is too small.  `whileLoop_count` is the rule for a loop
whose rounds can be counted.
-/

namespace CrosEc
namespace Lib

variable {σ : Type*} {guard : σ → Bool} {body : σ → Option σ}

/-- `while (guard) body` -/
def whileLoop (guard : σ → Bool) (body : σ → Option σ) : Nat → σ → Option σ
  | 0, _ => none
  | fuel + 1, s => if guard s then (body s).bind (whileLoop guard body fuel) else some s

/-- A loop that is not entered. -/
theorem whileLoop_of_not {s : σ} (h : guard s = false) (fuel : Nat) :
    whileLoop guard body (fuel + 1) s = some s := by
  rw [whileLoop, h, if_neg Bool.false_ne_true]

/-- **Counting rule.**  A loop that goes on for exactly `rounds` rounds, each of which keeps the
invariant, ends, and the invariant holds of the end. -/
theorem whileLoop_count {rounds fuel : Nat} {s : σ} (Inv : Nat → σ → Prop)
    (hguard : ∀ k s, k ≤ rounds → Inv k s → (guard s = true ↔ k < rounds))
    (hstep : ∀ k s, k < rounds → Inv k s → ∃ t, body s = some t ∧ Inv (k + 1) t)
    (hinit : Inv 0 s) (hfuel : rounds < fuel) :
    ∃ t, whileLoop guard body fuel s = some t ∧ Inv rounds t := by
  have hfrom : ∀ fuel k s, k ≤ rounds → rounds - k < fuel → Inv k s →
      ∃ t, whileLoop guard body fuel s = some t ∧ Inv rounds t := by
    intro fuel
    induction fuel with
    | zero => exact fun k s _ hfuel => absurd hfuel (Nat.not_lt_zero _)
    | succ fuel ih =>
        intro k s hk hfuel hinv
        rw [whileLoop]
        rcases Nat.lt_or_ge k rounds with hlt | hge
        · obtain ⟨t, hbody, ht⟩ := hstep k s hlt hinv
          rw [if_pos ((hguard k s hk hinv).mpr hlt), hbody]
          exact ih (k + 1) t hlt (by omega) ht
        · have hend : k = rounds := Nat.le_antisymm hk hge
          rw [if_neg (mt (hguard k s hk hinv).mp (by omega))]
          exact ⟨s, rfl, hend ▸ hinv⟩
  exact hfrom fuel 0 s (Nat.zero_le _) (by omega) hinit

/-- **Strides.**  A loop that goes on by `w` while it is below `stop`.  Where it is below `stop` at
all, it gets there. -/
theorem whileLoop_stride {w k stop fuel : Nat} {s : σ} (At : Nat → σ → Prop) (hw : 0 < w)
    (hguard : ∀ k s, At k s → (guard s = true ↔ k < stop))
    (hstep : ∀ k s, k + w ≤ stop → At k s → ∃ t, body s = some t ∧ At (k + w) t)
    (hstart : At k s) (hk : k < stop → w ∣ stop - k) (hfuel : stop - k < fuel) :
    ∃ t, whileLoop guard body fuel s = some t ∧ At (max k stop) t := by
  rcases Nat.lt_or_ge k stop with hlt | hge
  · obtain ⟨rounds, hrounds⟩ := hk hlt
    have hstop : stop = k + w * rounds := by lia
    have hle : rounds ≤ w * rounds := Nat.le_mul_of_pos_left rounds hw
    have hreach : ∀ j, j < rounds → k + w * j + w ≤ stop := by
      intro j hj
      rw [hstop, Nat.add_assoc, ← Nat.mul_succ]
      exact Nat.add_le_add_left (Nat.mul_le_mul_left w hj) k
    obtain ⟨t, ht, hend⟩ := whileLoop_count (fun j s => At (k + w * j) s)
      (fun j s _ hat => (hguard _ s hat).trans (by
        rw [hstop, Nat.add_lt_add_iff_left, Nat.mul_lt_mul_left hw]))
      (fun j s hj hat => by
        obtain ⟨t, ht, hat⟩ := hstep _ s (hreach j hj) hat
        exact ⟨t, ht, by rwa [Nat.mul_succ, ← Nat.add_assoc]⟩)
      (by rwa [Nat.mul_zero, Nat.add_zero]) (show rounds < fuel by lia)
    rw [max_eq_right hlt.le]
    exact ⟨t, ht, hstop ▸ hend⟩
  · obtain ⟨fuel, rfl⟩ : ∃ f, fuel = f + 1 := ⟨fuel - 1, by lia⟩
    refine ⟨s, whileLoop_of_not ?_ fuel, by rwa [max_eq_left hge]⟩
    exact Bool.eq_false_iff.mpr (mt (hguard k s hstart).mp (by lia))

/-- **Variant rule.**  A loop whose rounds keep the invariant and make a measure smaller ends, and
the invariant holds of the end. -/
theorem whileLoop_variant {fuel : Nat} {s : σ} (Inv : σ → Prop) (size : σ → Nat)
    (hstep : ∀ s, guard s = true → Inv s → ∃ t, body s = some t ∧ Inv t ∧ size t < size s)
    (hinit : Inv s) (hfuel : size s < fuel) :
    ∃ t, whileLoop guard body fuel s = some t ∧ Inv t ∧ guard t = false := by
  induction fuel generalizing s with
  | zero => exact absurd hfuel (Nat.not_lt_zero _)
  | succ fuel ih =>
      cases hs : guard s with
      | false => exact ⟨s, whileLoop_of_not hs fuel, hinit, hs⟩
      | true =>
          obtain ⟨t, hbody, ht, hsize⟩ := hstep s hs hinit
          rw [whileLoop, if_pos hs, hbody]
          exact ih ht (by omega)

/-- **Partial rule.**  What every round keeps holds of the end, if there is one. -/
theorem whileLoop_partial {fuel : Nat} {s t : σ} (Inv : σ → Prop)
    (hstep : ∀ s t, guard s = true → Inv s → body s = some t → Inv t)
    (hinit : Inv s) (h : whileLoop guard body fuel s = some t) : Inv t ∧ guard t = false := by
  induction fuel generalizing s with
  | zero => cases h
  | succ fuel ih =>
      rw [whileLoop] at h
      split at h
      · rename_i hs
        obtain ⟨s₁, hbody, hrest⟩ := Option.bind_eq_some_iff.mp h
        exact ih (hstep s s₁ hs hinit hbody) hrest
      · rename_i hs
        cases h
        exact ⟨hinit, Bool.eq_false_iff.mpr hs⟩

end Lib
end CrosEc
