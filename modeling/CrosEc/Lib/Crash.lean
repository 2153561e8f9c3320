import Mathlib.Tactic

/-!
# Computations that lose power

A `Prog σ κ α` computes an `α` over a store `σ` that outlives a loss of power.  It reads
the store and changes it by operations that complete or are cut; what a cut operation
leaves is chosen by a `κ`.

`run` executes a computation with a supply of power that lasts for a given number of
operations, or for ever.  `wp` is the condition under which every execution that is not
cut ends well and every execution that is cut leaves the store in an acceptable state;
`run_of_wp` connects the two.
-/

namespace CrosEc
namespace Lib

inductive Prog (σ κ α : Type) where
  | ret (a : α)
  | read (next : σ → Prog σ κ α)
  | op (complete : σ → σ) (torn : κ → σ → σ) (next : Prog σ κ α)

namespace Prog

variable {σ κ α β : Type}

def bind : Prog σ κ α → (α → Prog σ κ β) → Prog σ κ β
  | .ret a, f => f a
  | .read next, f => .read fun s => (next s).bind f
  | .op complete torn next, f => .op complete torn (next.bind f)

instance : Monad (Prog σ κ) where
  pure := Prog.ret
  bind := Prog.bind

/-- The store as it is now. -/
def get : Prog σ κ σ := .read .ret

/-- One operation on the store. -/
def step (complete : σ → σ) (torn : κ → σ → σ) : Prog σ κ Unit := .op complete torn (.ret ())

/-! ## Execution -/

/-- How long the power lasts: for ever, or for a number of operations, and then the next
one is cut as the `κ` says. -/
abbrev Supply (κ : Type) := Option (Nat × κ)

/-- The end of an execution: the value and the store, or, after a cut, the store. -/
inductive End (σ α : Type) where
  | done (a : α) (s : σ)
  | cut (s : σ)

def run : Prog σ κ α → Supply κ → σ → End σ α
  | .ret a, _, s => .done a s
  | .read next, supply, s => (next s).run supply s
  | .op complete _ next, none, s => next.run none (complete s)
  | .op _ torn _, some (0, k), s => .cut (torn k s)
  | .op complete _ next, some (n + 1, k), s => next.run (some (n, k)) (complete s)

@[simp] theorem run_get_bind (f : σ → Prog σ κ β) (supply : Supply κ) (s : σ) :
    (get >>= f).run supply s = (f s).run supply s := rfl

/-! ## Weakest preconditions -/

/-- Every execution from `s` ends with a value and a store that `post` accepts, or is cut
and leaves a store that `crash` accepts. -/
def wp : Prog σ κ α → (α → σ → Prop) → (σ → Prop) → σ → Prop
  | .ret a, post, _, s => post a s
  | .read next, post, crash, s => (next s).wp post crash s
  | .op complete torn next, post, crash, s =>
      (∀ k, crash (torn k s)) ∧ next.wp post crash (complete s)

variable {post post' : α → σ → Prop} {crash crash' : σ → Prop} {s : σ}

theorem wp_bind (p : Prog σ κ α) (f : α → Prog σ κ β) (post : β → σ → Prop) :
    (p >>= f).wp post crash s ↔ p.wp (fun a s' => (f a).wp post crash s') crash s := by
  show (p.bind f).wp post crash s ↔ _
  induction p generalizing s with
  | ret a => exact Iff.rfl
  | read next ih => exact ih s
  | op complete torn next ih => exact and_congr_right fun _ => ih

@[simp] theorem wp_pure (a : α) : (pure a : Prog σ κ α).wp post crash s ↔ post a s := Iff.rfl

@[simp] theorem wp_get (post : σ → σ → Prop) :
    (get : Prog σ κ σ).wp post crash s ↔ post s s := Iff.rfl

theorem wp_step (complete : σ → σ) (torn : κ → σ → σ) (post : Unit → σ → Prop) :
    (step complete torn).wp post crash s ↔
      (∀ k, crash (torn k s)) ∧ post () (complete s) := Iff.rfl

/-- Weaker demands are met as well. -/
theorem wp_mono {p : Prog σ κ α} (h : p.wp post crash s)
    (hpost : ∀ a s', post a s' → post' a s') (hcrash : ∀ s', crash s' → crash' s') :
    p.wp post' crash' s := by
  induction p generalizing s with
  | ret a => exact hpost a s h
  | read next ih => exact ih s h
  | op complete torn next ih => exact ⟨fun k => hcrash _ (h.1 k), ih h.2⟩

/-- What `wp` promises, for every supply of power. -/
theorem run_of_wp {p : Prog σ κ α} (h : p.wp post crash s) (supply : Supply κ) :
    (∀ a s', p.run supply s = .done a s' → post a s') ∧
      ∀ s', p.run supply s = .cut s' → crash s' := by
  induction p generalizing s supply with
  | ret a =>
      constructor
      · intro b s' hrun
        cases hrun
        exact h
      · intro s' hrun
        cases hrun
  | read next ih => exact ih s h supply
  | op complete torn next ih =>
      match supply with
      | none => exact ih h.2 none
      | some (0, k) =>
          constructor
          · intro b s' hrun
            cases hrun
          · intro s' hrun
            cases hrun
            exact h.1 k
      | some (n + 1, k) => exact ih h.2 (some (n, k))

/-- With power for ever a computation ends. -/
theorem run_none (p : Prog σ κ α) (s : σ) : ∃ a s', p.run none s = .done a s' := by
  induction p generalizing s with
  | ret a => exact ⟨a, s, rfl⟩
  | read next ih => exact ih s s
  | op complete torn next ih => exact ih (complete s)

end Prog

end Lib
end CrosEc
