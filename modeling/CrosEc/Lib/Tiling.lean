import Mathlib.Tactic

/-!
# Chunks that tile a range

A chunk is a start and a length.  `Tiles lo hi cs` says that the chunks `cs`, in any
order, are not empty, do not overlap, and cover the range from `lo` up to `hi` exactly.
Cutting a chunk in two and joining two that touch keep this (`tiles_split`), and so does
listing the chunks in another order (`Tiles.perm`).
-/

namespace CrosEc
namespace Lib

/-- Start and length. -/
abbrev Chunk := Nat × Nat

/-- The address is inside the chunk. -/
def Chunk.Has (c : Chunk) (x : Nat) : Prop := c.1 ≤ x ∧ x < c.1 + c.2

/-- The chunks do not overlap. -/
def Chunk.Apart (c d : Chunk) : Prop := c.1 + c.2 ≤ d.1 ∨ d.1 + d.2 ≤ c.1

theorem Chunk.Apart.symm {c d : Chunk} (h : c.Apart d) : d.Apart c := Or.symm h

structure Tiles (lo hi : Nat) (cs : List Chunk) : Prop where
  pos : ∀ c ∈ cs, 0 < c.2
  apart : cs.Pairwise Chunk.Apart
  covers : ∀ x, lo ≤ x ∧ x < hi ↔ ∃ c ∈ cs, Chunk.Has c x

variable {lo hi : Nat} {cs ds : List Chunk} {c d : Chunk}

theorem Tiles.perm (h : Tiles lo hi cs) (hperm : cs.Perm ds) : Tiles lo hi ds where
  pos c hc := h.pos c (hperm.mem_iff.mpr hc)
  apart := hperm.pairwise h.apart Chunk.Apart.symm
  covers x := by
    rw [h.covers x]
    constructor
    · rintro ⟨c, hc, hx⟩
      exact ⟨c, hperm.mem_iff.mp hc, hx⟩
    · rintro ⟨c, hc, hx⟩
      exact ⟨c, hperm.mem_iff.mpr hc, hx⟩

/-- A chunk lies inside the range. -/
theorem Tiles.bounds (h : Tiles lo hi cs) (hc : c ∈ cs) : lo ≤ c.1 ∧ c.1 + c.2 ≤ hi := by
  have hpos := h.pos c hc
  have hstart := (h.covers c.1).mpr ⟨c, hc, by unfold Chunk.Has; omega⟩
  have hend := (h.covers (c.1 + c.2 - 1)).mpr ⟨c, hc, by unfold Chunk.Has; omega⟩
  omega

/-- Chunks are told apart by their start. -/
theorem Tiles.nodup (h : Tiles lo hi cs) : (cs.map Prod.fst).Nodup := by
  rw [List.Nodup, List.pairwise_map]
  refine h.apart.imp_of_mem ?_
  intro c d hc hd hapart heq
  have hposc := h.pos c hc
  have hposd := h.pos d hd
  unfold Chunk.Apart at hapart
  omega

/-- There are at most as many chunks as addresses. -/
theorem Tiles.length_le (h : Tiles lo hi cs) : cs.length ≤ hi - lo := by
  have hsubset : cs.map Prod.fst ⊆ List.range' lo (hi - lo) := by
    intro a ha
    obtain ⟨c, hc, rfl⟩ := List.mem_map.mp ha
    have hpos := h.pos c hc
    have hbounds := h.bounds hc
    rw [List.mem_range'_1]
    omega
  have hle := (h.nodup.subperm hsubset).length_le
  simpa using hle

/-- A chunk cut in two, or two chunks that touch joined. -/
theorem tiles_split {a m n : Nat} (hm : 0 < m) (hn : 0 < n) :
    Tiles lo hi ((a, m + n) :: cs) ↔ Tiles lo hi ((a, m) :: (a + m, n) :: cs) := by
  have hhas : ∀ x, (∃ c ∈ (a, m + n) :: cs, Chunk.Has c x) ↔
      ∃ c ∈ (a, m) :: (a + m, n) :: cs, Chunk.Has c x := by
    intro x
    simp only [List.mem_cons, exists_eq_or_imp, Chunk.Has]
    constructor
    · rintro (hx | hx)
      · by_cases hlow : x < a + m
        · exact Or.inl ⟨hx.1, hlow⟩
        · exact Or.inr (Or.inl ⟨by lia, by lia⟩)
      · exact Or.inr (Or.inr hx)
    · rintro (hx | hx | hx)
      · exact Or.inl ⟨hx.1, by lia⟩
      · exact Or.inl ⟨by lia, by lia⟩
      · exact Or.inr hx
  constructor
  · rintro ⟨hpos, hapart, hcovers⟩
    rw [List.pairwise_cons] at hapart
    refine ⟨?_, ?_, fun x => (hcovers x).trans (hhas x)⟩
    · intro c hc
      simp only [List.mem_cons] at hc
      rcases hc with rfl | rfl | hc
      · exact hm
      · exact hn
      · exact hpos c (by simp [hc])
    · refine List.Pairwise.cons ?_ (List.Pairwise.cons ?_ hapart.2)
      · intro d hd
        rcases List.mem_cons.mp hd with rfl | hd
        · exact Or.inl (le_refl _)
        · have := hapart.1 d hd
          unfold Chunk.Apart at this ⊢
          simp only at this ⊢
          lia
      · intro d hd
        have := hapart.1 d hd
        unfold Chunk.Apart at this ⊢
        simp only at this ⊢
        lia
  · rintro ⟨hpos, hapart, hcovers⟩
    rw [List.pairwise_cons, List.pairwise_cons] at hapart
    obtain ⟨hfirst, hsecond, hrest⟩ := hapart
    refine ⟨?_, List.Pairwise.cons ?_ hrest, fun x => (hcovers x).trans (hhas x).symm⟩
    · intro c hc
      rcases List.mem_cons.mp hc with rfl | hc
      · simp only
        lia
      · exact hpos c (by simp [hc])
    · intro d hd
      -- A chunk that is apart from both halves does not stand between them.
      have hpos' := hpos d (by simp [hd])
      have h₁ := hfirst d (by simp [hd])
      have h₂ := hsecond d hd
      unfold Chunk.Apart at h₁ h₂ ⊢
      simp only at h₁ h₂ ⊢
      lia

end Lib
end CrosEc
