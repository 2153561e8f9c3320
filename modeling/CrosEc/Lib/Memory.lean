import Mathlib.Tactic

/-!
# Memory as a function

Memory from some address on, as a function of the offset: what lies there is read and written in
pieces, and there is no end.  Code that must stay inside a buffer is code whose offsets are below
a bound.
-/

namespace CrosEc
namespace Lib

variable {α : Type} {mem : Nat → α} {off len : Nat} {data : List α}

/-- The cells from `off` on. -/
def load (mem : Nat → α) (off len : Nat) : List α := (List.range len).map fun i => mem (off + i)

/-- Overwrite the cells from `off` on. -/
def store (mem : Nat → α) (off : Nat) (data : List α) : Nat → α :=
  fun i => if off ≤ i then data.getD (i - off) (mem i) else mem i

@[simp] theorem length_load : (load mem off len).length = len := by
  simp [load]

/-- Two reads that touch are one. -/
theorem load_add (len len' : Nat) :
    load mem off (len + len') = load mem off len ++ load mem (off + len) len' := by
  simp [load, List.range_add, Nat.add_assoc]

theorem take_load {n : Nat} (h : n ≤ len) : (load mem off len).take n = load mem off n := by
  obtain ⟨rest, rfl⟩ := Nat.exists_eq_add_of_le h
  rw [load_add, List.take_left' length_load]

/-- Cells behind the ones that are written. -/
theorem store_of_ge {i : Nat} (h : off + data.length ≤ i) : store mem off data i = mem i := by
  rw [store, if_pos (by omega), List.getD_eq_getElem?_getD, List.getElem?_eq_none (by omega),
    Option.getD_none]

/-- What was written reads back. -/
theorem load_store_self (mem : Nat → α) (off : Nat) (data : List α) :
    load (store mem off data) off data.length = data := by
  apply List.ext_getElem
  · exact length_load
  · intro i _ hi
    simp [load, store, List.getD_eq_getElem?_getD, hi]

/-- Cells in front of the ones that are written. -/
theorem load_store_before {start : Nat} (h : start + len ≤ off) :
    load (store mem off data) start len = load mem start len := by
  apply List.map_congr_left
  intro i hi
  have hlt := List.mem_range.mp hi
  rw [store, if_neg (by omega)]

end Lib
end CrosEc
