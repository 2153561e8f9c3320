import Mathlib.Tactic
import Mathlib.Data.List.Basic
import Mathlib.Data.Set.Function

/-!
# Complete `k`-ary Merkle trees

A tree is an assignment `leaves : Nat → H` of hashes to slots together with a
function `node` that hashes the `k` children of an inner node.  Nothing is said
here about what a hash is.

* `level node k leaves l p` is the hash at position `p` of level `l`, counted from
  the leaves; `root` is the only node of level `h`.
* `path` lists the siblings of a slot level by level from the leaf up, each level
  in index order with the path's own child left out.
* `climb` folds such a list into a root; `climbInputs` lists what it hashes.

`climb_path_update` says that climbing the honest path computes the root of the
updated tree, `climb_binding` that a path which reaches the root is the honest
one, as long as `node` has no collision on the inputs at hand.
-/

namespace CrosEc
namespace Lib
namespace Merkle

variable {H : Type} (node : List H → H) (k : Nat)

/-- The hash at position `p` of level `l`. -/
def level (leaves : Nat → H) : Nat → Nat → H
  | 0, p => leaves p
  | l + 1, p => node ((List.range k).map fun c => level leaves l (k * p + c))

/-- The hashes below position `p` of level `l + 1`. -/
def children (leaves : Nat → H) (l p : Nat) : List H :=
  (List.range k).map fun c => level node k leaves l (k * p + c)

/-- The root of a tree of height `h`. -/
def root (leaves : Nat → H) (h : Nat) : H := level node k leaves h 0

/-- Put `x` back at position `loc` among its siblings. -/
def plug (siblings : List H) (loc : Nat) (x : H) : List H :=
  siblings.take loc ++ x :: siblings.drop loc

/-- The siblings of position `p` of level `l`. -/
def siblings (leaves : Nat → H) (l p : Nat) : List H :=
  (children node k leaves l (p / k)).eraseIdx (p % k)

/-- The siblings met on the way from position `p` of level `l` up `n` levels. -/
def path (leaves : Nat → H) : Nat → Nat → Nat → List H
  | _, 0, _ => []
  | l, n + 1, p => siblings node k leaves l p ++ path leaves (l + 1) n (p / k)

/-- Hash `x` with the siblings of `n` levels, from position `p` upward. -/
def climb : Nat → Nat → List H → H → H
  | 0, _, _, x => x
  | n + 1, p, sibs, x =>
      climb n (p / k) (sibs.drop (k - 1)) (node (plug (sibs.take (k - 1)) (p % k) x))

/-- The child lists that `climb` hashes, from the bottom up. -/
def climbInputs : Nat → Nat → List H → H → List (List H)
  | 0, _, _, _ => []
  | n + 1, p, sibs, x =>
      plug (sibs.take (k - 1)) (p % k) x ::
        climbInputs n (p / k) (sibs.drop (k - 1)) (node (plug (sibs.take (k - 1)) (p % k) x))

/-- The child lists of all inner nodes of a tree of height `h`. -/
def nodes (leaves : Nat → H) (h : Nat) : Set (List H) :=
  { kids | ∃ l p, l < h ∧ p < k ^ (h - l - 1) ∧ kids = children node k leaves l p }

/-! ## Children and siblings -/

@[simp] theorem length_children (leaves : Nat → H) (l p : Nat) :
    (children node k leaves l p).length = k := by
  simp [children]

theorem getElem_children (leaves : Nat → H) (l p c : Nat) (hc : c < k) :
    (children node k leaves l p)[c]? = some (level node k leaves l (k * p + c)) := by
  simp [children, hc]

theorem level_succ (leaves : Nat → H) (l p : Nat) :
    level node k leaves (l + 1) p = node (children node k leaves l p) := rfl

variable {k}

theorem length_siblings (hk : 0 < k) (leaves : Nat → H) (l p : Nat) :
    (siblings node k leaves l p).length = k - 1 := by
  rw [siblings, List.length_eraseIdx_of_lt (by simpa using Nat.mod_lt p hk), length_children]

theorem length_path (hk : 0 < k) (leaves : Nat → H) (l n p : Nat) :
    (path node k leaves l n p).length = n * (k - 1) := by
  induction n generalizing l p with
  | zero => simp [path]
  | succ n ih =>
      rw [path, List.length_append, length_siblings node hk, ih]
      ring

theorem plug_eraseIdx {xs : List H} {loc : Nat} {x : H} (hx : xs[loc]? = some x) :
    plug (xs.eraseIdx loc) loc x = xs := by
  obtain ⟨hlt, rfl⟩ := List.getElem?_eq_some_iff.mp hx
  have hlen : (xs.take loc).length = loc := by simp; omega
  rw [plug, List.eraseIdx_eq_take_drop_succ]
  rw [List.take_append_of_le_length (by omega), List.take_of_length_le (by omega),
    List.drop_append_of_le_length (by omega), List.drop_of_length_le (by omega), List.nil_append,
    ← List.drop_eq_getElem_cons hlt, List.take_append_drop]

/-- Plugging fixes both the siblings and the child. -/
theorem plug_inj {xs ys : List H} {loc : Nat} {x y : H} (hlen : xs.length = ys.length)
    (h : plug xs loc x = plug ys loc y) : xs = ys ∧ x = y := by
  unfold plug at h
  have htake : (xs.take loc).length = (ys.take loc).length := by simp [hlen]
  obtain ⟨hl, hr⟩ := List.append_inj h htake
  obtain ⟨hxy, hdrop⟩ := List.cons.inj hr
  refine ⟨?_, hxy⟩
  rw [← List.take_append_drop loc xs, hl, hdrop, List.take_append_drop]

/-- The honest siblings with the honest child give back all children. -/
theorem plug_siblings (hk : 0 < k) (leaves : Nat → H) (l p : Nat) :
    plug (siblings node k leaves l p) (p % k) (level node k leaves l p) =
      children node k leaves l (p / k) := by
  apply plug_eraseIdx
  rw [getElem_children node k leaves l (p / k) (p % k) (Nat.mod_lt p hk), Nat.div_add_mod]

/-! ## Changing one slot -/

/-- A node that is not above slot `i` does not see a change of slot `i`. -/
theorem level_update_ne (hk : 0 < k) (leaves : Nat → H) (i : Nat) (x : H) :
    ∀ (l p : Nat), p ≠ i / k ^ l →
      level node k (Function.update leaves i x) l p = level node k leaves l p := by
  intro l
  induction l with
  | zero =>
      intro p hp
      simp only [pow_zero, Nat.div_one] at hp
      exact Function.update_of_ne hp x leaves
  | succ l ih =>
      intro p hp
      rw [level_succ, level_succ]
      congr 1
      apply List.map_congr_left
      intro c hc
      rw [List.mem_range] at hc
      apply ih
      intro heq
      apply hp
      rw [pow_succ, ← Nat.div_div_eq_div_mul, ← heq, Nat.mul_add_div hk, Nat.div_eq_of_lt hc,
        Nat.add_zero]

/-- The siblings on the path of slot `i` do not see a change of slot `i`. -/
theorem siblings_update (hk : 0 < k) (leaves : Nat → H) (i : Nat) (x : H) (l : Nat) :
    siblings node k (Function.update leaves i x) l (i / k ^ l) =
      siblings node k leaves l (i / k ^ l) := by
  apply List.ext_getElem?
  intro c
  rw [siblings, siblings, List.getElem?_eraseIdx, List.getElem?_eraseIdx]
  -- Every index that survives `eraseIdx` names a node beside the path.
  have hbeside : ∀ c', c' ≠ i / k ^ l % k →
      (children node k (Function.update leaves i x) l (i / k ^ l / k))[c']? =
        (children node k leaves l (i / k ^ l / k))[c']? := by
    intro c' hc'
    by_cases hlt : c' < k
    · rw [getElem_children node k _ _ _ _ hlt, getElem_children node k _ _ _ _ hlt,
        level_update_ne node hk]
      intro heq
      apply hc'
      rw [← heq, Nat.mul_add_mod, Nat.mod_eq_of_lt hlt]
    · rw [List.getElem?_eq_none (by simpa using hlt), List.getElem?_eq_none (by simpa using hlt)]
  split
  · exact hbeside c (by omega)
  · exact hbeside (c + 1) (by omega)

theorem take_path_succ (hk : 0 < k) (leaves : Nat → H) (l n p : Nat) :
    (path node k leaves l (n + 1) p).take (k - 1) = siblings node k leaves l p := by
  rw [path, List.take_append_of_le_length (by rw [length_siblings node hk]),
    List.take_of_length_le (by rw [length_siblings node hk])]

theorem drop_path_succ (hk : 0 < k) (leaves : Nat → H) (l n p : Nat) :
    (path node k leaves l (n + 1) p).drop (k - 1) = path node k leaves (l + 1) n (p / k) := by
  rw [path, List.drop_append_of_le_length (by rw [length_siblings node hk]),
    List.drop_of_length_le (by rw [length_siblings node hk]), List.nil_append]

/-- Climbing the honest path from the new leaf passes through the nodes of the
updated tree and hashes their child lists. -/
theorem climb_path_level (hk : 0 < k) (leaves : Nat → H) (i : Nat) (x : H) (n l : Nat) :
    climb node k n (i / k ^ l) (path node k leaves l n (i / k ^ l))
        (level node k (Function.update leaves i x) l (i / k ^ l)) =
      level node k (Function.update leaves i x) (l + n) (i / k ^ (l + n)) ∧
    climbInputs node k n (i / k ^ l) (path node k leaves l n (i / k ^ l))
        (level node k (Function.update leaves i x) l (i / k ^ l)) =
      (List.range n).map fun m =>
        children node k (Function.update leaves i x) (l + m) (i / k ^ (l + m + 1)) := by
  induction n generalizing l with
  | zero => simp [climb, climbInputs]
  | succ n ih =>
      have hdiv : i / k ^ l / k = i / k ^ (l + 1) := by
        rw [Nat.div_div_eq_div_mul, ← pow_succ]
      have hplug : plug ((path node k leaves l (n + 1) (i / k ^ l)).take (k - 1)) (i / k ^ l % k)
          (level node k (Function.update leaves i x) l (i / k ^ l)) =
            children node k (Function.update leaves i x) l (i / k ^ (l + 1)) := by
        rw [take_path_succ node hk, ← siblings_update node hk leaves i x, plug_siblings node hk,
          hdiv]
      obtain ⟨hclimb, hinputs⟩ := ih (l + 1)
      constructor
      · rw [climb, hplug, drop_path_succ node hk, hdiv, ← level_succ node k, hclimb,
          show l + 1 + n = l + (n + 1) by omega]
      · rw [climbInputs, hplug, drop_path_succ node hk, hdiv, ← level_succ node k, hinputs,
          List.range_succ_eq_map, List.map_cons, List.map_map]
        congr 1
        apply List.map_congr_left
        intro m _
        rw [Function.comp_apply, Nat.succ_eq_add_one, show l + (m + 1) = l + 1 + m by omega]

/-- **Completeness.**  Climbing the honest path of slot `i` from `x` gives the root
of the tree with slot `i` set to `x`. -/
theorem climb_path_update (hk : 0 < k) (leaves : Nat → H) {i h : Nat} (hi : i < k ^ h) (x : H) :
    climb node k h i (path node k leaves 0 h i) x =
      root node k (Function.update leaves i x) h := by
  have := (climb_path_level node hk leaves i x h 0).1
  simpa [level, root, Nat.div_eq_of_lt hi] using this

/-! ## Binding -/

/-- A climb that arrives at the tree's own node used the tree's own hashes. -/
theorem climb_binding_level (hk : 0 < k) (leaves : Nat → H) {P : Set (List H)}
    (hinj : Set.InjOn node P) (n l p : Nat) (sibs : List H) (y : H)
    (hlen : sibs.length = n * (k - 1))
    (hnodes : ∀ m, m < n → children node k leaves (l + m) (p / k ^ (m + 1)) ∈ P)
    (hinputs : ∀ kids ∈ climbInputs node k n p sibs y, kids ∈ P)
    (harrive : climb node k n p sibs y = level node k leaves (l + n) (p / k ^ n)) :
    sibs = path node k leaves l n p ∧ y = level node k leaves l p := by
  induction n generalizing l p sibs y with
  | zero =>
      simp only [Nat.zero_mul, List.length_eq_zero_iff] at hlen
      exact ⟨by rw [hlen, path], by simpa [climb] using harrive⟩
  | succ n ih =>
      have hdiv : ∀ m, p / k / k ^ m = p / k ^ (m + 1) := by
        intro m
        rw [Nat.div_div_eq_div_mul, ← pow_succ']
      have htail := ih (l + 1) (p / k) (sibs.drop (k - 1))
        (node (plug (sibs.take (k - 1)) (p % k) y))
        (by rw [List.length_drop, hlen, Nat.succ_mul, Nat.add_sub_cancel])
        (by
          intro m hm
          rw [hdiv, show l + 1 + m = l + (m + 1) by lia]
          exact hnodes (m + 1) (by lia))
        (fun kids hkids => hinputs kids (List.mem_cons_of_mem _ hkids))
        (by
          rw [hdiv, show l + 1 + n = l + (n + 1) by lia]
          exact harrive)
      obtain ⟨hdrop, hhash⟩ := htail
      rw [level_succ] at hhash
      have hkids : plug (sibs.take (k - 1)) (p % k) y = children node k leaves l (p / k) := by
        apply hinj
        · exact hinputs _ List.mem_cons_self
        · simpa using hnodes 0 (by lia)
        · exact hhash
      rw [← plug_siblings node hk] at hkids
      have htakelen : (sibs.take (k - 1)).length = (siblings node k leaves l p).length := by
        rw [length_siblings node hk, List.length_take, hlen, Nat.succ_mul]
        lia
      obtain ⟨htake, hy⟩ := plug_inj htakelen hkids
      refine ⟨?_, hy⟩
      rw [path, ← htake, ← hdrop, List.take_append_drop]

/-- **Binding.**  A path that climbs to the root of `leaves` is the honest path of
its slot and starts at the hash in that slot. -/
theorem climb_binding (hk : 0 < k) (leaves : Nat → H) {P : Set (List H)}
    (hinj : Set.InjOn node P) {h i : Nat} (hi : i < k ^ h) {sibs : List H} {y : H}
    (hlen : sibs.length = h * (k - 1)) (hnodes : nodes node k leaves h ⊆ P)
    (hinputs : ∀ kids ∈ climbInputs node k h i sibs y, kids ∈ P)
    (harrive : climb node k h i sibs y = root node k leaves h) :
    sibs = path node k leaves 0 h i ∧ y = leaves i := by
  apply climb_binding_level node hk leaves hinj h 0 i sibs y hlen
  · intro m hm
    refine hnodes ⟨0 + m, i / k ^ (m + 1), by omega, ?_, rfl⟩
    rw [Nat.div_lt_iff_lt_mul (Nat.pow_pos hk), ← pow_add]
    rwa [show h - (0 + m) - 1 + (m + 1) = h by omega]
  · exact hinputs
  · rw [harrive, root, Nat.zero_add, Nat.div_eq_of_lt hi]

/-! ## The tree with the same hash in every slot -/

/-- The hash shared by all positions of one level when all slots hold `z`. -/
def uniformLevel (z : H) (k : Nat) : Nat → H
  | 0 => z
  | l + 1 => node (List.replicate k (uniformLevel z k l))

theorem level_const (z : H) (l p : Nat) :
    level node k (fun _ => z) l p = uniformLevel node z k l := by
  induction l generalizing p with
  | zero => rfl
  | succ l ih =>
      have hkids : children node k (fun _ => z) l p =
          List.replicate k (uniformLevel node z k l) := by
        rw [children, List.map_congr_left (fun c _ => ih (k * p + c)), List.map_const',
          List.length_range]
      rw [level_succ, hkids, uniformLevel]

end Merkle
end Lib
end CrosEc
