import Mathlib.Tactic

/-!
# What happened last

`IsLast p n e`: of the numbers below `n`, the last one with the property `p` is `e`.

`Stamped ring stamp n`: a ring of `N` cells in which number `j` writes `stamp j` to the cell
`j % N` holds the stamps of the last `N` numbers up to `n`.  A cell that was looked up under the
number `e` is overwritten every `N` numbers; what is in there is the stamp of `latest N e n`.
-/

namespace CrosEc
namespace Lib

/-! ## The last number with a property -/

structure IsLast (p : Nat → Prop) (n e : Nat) : Prop where
  lt : e < n
  holds : p e
  none_after : ∀ m, e < m → m < n → ¬ p m

section IsLast

variable {p : Nat → Prop} {n e e' : Nat}

theorem isLast_self (h : p n) : IsLast p (n + 1) n :=
  ⟨Nat.lt_succ_self n, h, fun _ hlt hle => absurd hle (by omega)⟩

theorem IsLast.succ (h : IsLast p n e) (hn : ¬ p n) : IsLast p (n + 1) e := by
  refine ⟨Nat.lt_succ_of_lt h.lt, h.holds, fun m hlt hle => ?_⟩
  rcases Nat.lt_succ_iff_lt_or_eq.mp hle with hbelow | rfl
  · exact h.none_after m hlt hbelow
  · exact hn

theorem isLast_succ_iff :
    IsLast p (n + 1) e ↔ (p n ∧ e = n) ∨ (¬ p n ∧ IsLast p n e) := by
  constructor
  · intro h
    by_cases hn : p n
    · refine Or.inl ⟨hn, ?_⟩
      by_contra hne
      have hlt := h.lt
      exact h.none_after n (by omega) (Nat.lt_succ_self n) hn
    · refine Or.inr ⟨hn, ?_, h.holds, fun m hlt hle => h.none_after m hlt (Nat.lt_succ_of_lt hle)⟩
      rcases Nat.lt_succ_iff_lt_or_eq.mp h.lt with hlt | rfl
      · exact hlt
      · exact absurd h.holds hn
  · rintro (⟨hn, rfl⟩ | ⟨hn, h⟩)
    · exact isLast_self hn
    · exact h.succ hn

end IsLast

/-! ## A ring of stamps -/

section Stamped

variable {α : Type} {N : Nat} [NeZero N] {ring : Fin N → α} {stamp : Nat → α} {n e : Nat}

def Stamped (ring : Fin N → α) (stamp : Nat → α) (n : Nat) : Prop :=
  ∀ j ≤ n, n < j + N → ring (Fin.ofNat N j) = stamp j

theorem stamped_zero (h : ring 0 = stamp 0) : Stamped ring stamp 0 := by
  intro j hj _
  obtain rfl := Nat.le_zero.mp hj
  exact h

theorem Stamped.push (h : Stamped ring stamp n) :
    Stamped (Function.update ring (Fin.ofNat N (n + 1)) (stamp (n + 1))) stamp (n + 1) := by
  intro j hj hrecent
  by_cases heq : j = n + 1
  · rw [heq, Function.update_self]
  · have hne : Fin.ofNat N j ≠ Fin.ofNat N (n + 1) := by
      intro hsame
      have hmod : j % N = (n + 1) % N := congrArg Fin.val hsame
      have hdvd : N ∣ n + 1 - j := (Nat.modEq_iff_dvd' hj).mp hmod
      exact absurd (Nat.le_of_dvd (by lia) hdvd) (by lia)
    rw [Function.update_of_ne hne]
    exact h j (by lia) (by lia)

/-- The last number up to `n` that uses the cell of `e`. -/
def latest (N e n : Nat) : Nat := n - (n - e) % N

theorem latest_le (N e n : Nat) : latest N e n ≤ n := Nat.sub_le _ _

theorem le_latest (N : Nat) (h : e ≤ n) : e ≤ latest N e n := by
  have hmod := Nat.mod_le (n - e) N
  rw [latest]
  omega

theorem Stamped.lookup (h : Stamped ring stamp n) (he : e ≤ n) :
    ring (Fin.ofNat N e) = stamp (latest N e n) := by
  have hpos : 0 < N := Nat.pos_of_ne_zero (NeZero.ne N)
  have hlt := Nat.mod_lt (n - e) hpos
  have hmod := Nat.mod_le (n - e) N
  have hcell : Fin.ofNat N e = Fin.ofNat N (latest N e n) := by
    apply Fin.ext
    show e % N = latest N e n % N
    have hlatest : latest N e n = e + N * ((n - e) / N) := by
      have hdiv := Nat.div_add_mod (n - e) N
      rw [latest]
      lia
    rw [hlatest, Nat.add_mul_mod_self_left]
  rw [hcell]
  refine h _ (latest_le N e n) ?_
  rw [latest]
  lia

end Stamped

end Lib
end CrosEc
