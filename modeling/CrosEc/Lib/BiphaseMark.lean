import Mathlib.Tactic

/-!
# Biphase mark coding

A line code in which the level changes at the start of every bit, and once more in the middle
of a one.  `encode` gives the levels of the line, two for each bit.  A receiver sees only the
times of the changes: `edges` are those of any list of levels, and `marks` those that the bits
of a message make.  `edges_encode` connects the two.
-/

namespace CrosEc
namespace Lib
namespace BiphaseMark

/-- The levels of the line, two for each bit, after the level `level`. -/
def encode (level : Bool) : List Bool → List Bool
  | [] => []
  | b :: bs => (!level) :: (!level ^^ b) :: encode (!level ^^ b) bs

/-- The level at the end. -/
def lastLevel (level : Bool) : List Bool → Bool
  | [] => level
  | b :: bs => lastLevel (!level ^^ b) bs

/-- The times at which the level changes, for one level a unit from the time `t` on. -/
def edges (level : Bool) (t : Nat) : List Bool → List Nat
  | [] => []
  | l :: ls => if l = level then edges l (t + 1) ls else t :: edges l (t + 1) ls

/-- The times of the changes of the bits from the time `t` on. -/
def marks (t : Nat) : List Bool → List Nat
  | [] => []
  | false :: bs => t :: marks (t + 2) bs
  | true :: bs => t :: (t + 1) :: marks (t + 2) bs

variable (level : Bool) (t : Nat) (bs cs : List Bool)

@[simp] theorem length_encode : (encode level bs).length = 2 * bs.length := by
  induction bs generalizing level with
  | nil => rfl
  | cons b bs ih => simp [encode, ih, Nat.mul_add]

theorem encode_append :
    encode level (bs ++ cs) = encode level bs ++ encode (lastLevel level bs) cs := by
  induction bs generalizing level with
  | nil => rfl
  | cons b bs ih => simp [encode, lastLevel, ih]

theorem lastLevel_append :
    lastLevel level (bs ++ cs) = lastLevel (lastLevel level bs) cs := by
  induction bs generalizing level with
  | nil => rfl
  | cons b bs ih => simp [lastLevel, ih]

theorem edges_append (ls ms : List Bool) :
    edges level t (ls ++ ms) =
      edges level t ls ++ edges (ls.getLastD level) (t + ls.length) ms := by
  induction ls generalizing level t with
  | nil => simp [edges]
  | cons l ls ih =>
      simp only [List.cons_append, edges, ih, List.length_cons, List.getLastD_cons]
      have hshift : t + 1 + ls.length = t + (ls.length + 1) := by omega
      rw [hshift]
      split <;> simp

theorem getLastD_encode : (encode level bs).getLastD level = lastLevel level bs := by
  induction bs generalizing level with
  | nil => rfl
  | cons b bs ih =>
      simp only [encode, lastLevel, List.getLastD_cons]
      exact ih _

/-- **The changes of an encoded message are its marks.** -/
theorem edges_encode : edges level t (encode level bs) = marks t bs := by
  induction bs generalizing level t with
  | nil => rfl
  | cons b bs ih =>
      cases b with
      | false => simp [encode, edges, marks, ih]
      | true => simp [encode, edges, marks, ih]

theorem marks_append : marks t (bs ++ cs) = marks t bs ++ marks (t + 2 * bs.length) cs := by
  induction bs generalizing t with
  | nil => simp [marks]
  | cons b bs ih =>
      have hshift : t + 2 + 2 * bs.length = t + 2 * (bs.length + 1) := by omega
      cases b <;> simp [marks, ih, hshift]

/-- One change for every bit, and a second one for a one. -/
theorem length_marks : (marks t bs).length = bs.length + bs.count true := by
  induction bs generalizing t with
  | nil => rfl
  | cons b bs ih =>
      have hrest := ih (t + 2)
      cases b
      · rw [marks, List.length_cons, List.length_cons, List.count_cons_of_ne (by decide)]
        omega
      · rw [marks, List.length_cons, List.length_cons, List.length_cons, List.count_cons_self]
        omega

end BiphaseMark
end Lib
end CrosEc
