import CrosEc.Shmalloc.Model
import CrosEc.Lib.Tiling

/-!
# How the pool is cut up

The free chunks `F` and the allocated chunks `A` tile the pool, each has room for its
header, and the free ones are listed by address with something between any two of them.
`Layout` is this property, as one of lists.  A released chunk is put between the free
chunks below and above it and is joined with those it touches; that is `mergeInto`, and
it keeps the layout (`Layout.release`).  An acquired chunk leaves the free list
(`Layout.takeWhole`) or is replaced there by its tail (`Layout.takePart`).
-/

namespace CrosEc
namespace Shmalloc

open Lib

/-- Listed by address, and no chunk touches the next one. -/
def Spaced (F : List Chunk) : Prop := F.Pairwise fun c d => c.1 + c.2 < d.1

structure Layout (pool : Pool) (F A : List Chunk) : Prop where
  spaced : Spaced F
  tiles : Tiles pool.base (pool.base + pool.size) (F ++ A)
  header : ∀ c ∈ F ++ A, headerSize ≤ c.2

/-- The chunks from `c` on, once `c` has been joined with the next one if they touch. -/
def mergeAbove (c : Chunk) : List Chunk → List Chunk
  | [] => [c]
  | d :: ds => if c.1 + c.2 = d.1 then (c.1, c.2 + d.2) :: ds else c :: d :: ds

/-- The chunks once `c` has been put between `pre` and `post` and joined with its
neighbours. -/
def mergeInto (pre : List Chunk) (c : Chunk) (post : List Chunk) : List Chunk :=
  match pre with
  | [] => mergeAbove c post
  | [d] => if d.1 + d.2 = c.1 then mergeAbove (d.1, d.2 + c.2) post else d :: mergeAbove c post
  | d :: e :: pre => d :: mergeInto (e :: pre) c post

theorem mergeInto_concat (pre : List Chunk) (d c : Chunk) (post : List Chunk) :
    mergeInto (pre ++ [d]) c post = pre ++ mergeInto [d] c post := by
  induction pre with
  | nil => rfl
  | cons e pre ih =>
      cases pre with
      | nil => rfl
      | cons f pre => exact congrArg (e :: ·) ih

variable {pool : Pool} {F F₁ F₂ A A₁ A₂ pre post rest : List Chunk} {c d : Chunk} {lo hi : Nat}

/-! ## Joining keeps the tiling -/

theorem tiles_mergeAbove (h : Tiles lo hi (c :: post ++ rest)) :
    Tiles lo hi (mergeAbove c post ++ rest) := by
  fun_cases mergeAbove c post with
  | case1 => exact h
  | case2 d ds htouch =>
      refine (tiles_split (h.pos c (by simp)) (h.pos d (by simp))).mpr ?_
      rw [htouch]
      exact h
  | case3 d ds hgap => exact h

theorem tiles_mergeInto (h : Tiles lo hi (pre ++ c :: post ++ rest)) :
    Tiles lo hi (mergeInto pre c post ++ rest) := by
  fun_induction mergeInto pre c post generalizing rest with
  | case1 => exact tiles_mergeAbove h
  | case2 d htouch =>
      refine tiles_mergeAbove ((tiles_split (h.pos d (by simp)) (h.pos c (by simp))).mpr ?_)
      rw [htouch]
      exact h
  | case3 d hgap =>
      -- The chunk below stays; to the others it is one of the rest.
      have hrest : Tiles lo hi (c :: post ++ d :: rest) := h.perm List.perm_middle.symm
      exact (tiles_mergeAbove hrest).perm List.perm_middle
  | case4 d e pre ih =>
      have hrest : Tiles lo hi (e :: pre ++ c :: post ++ d :: rest) :=
        h.perm List.perm_middle.symm
      exact (ih hrest).perm List.perm_middle

/-! ## Joining keeps the order and the room for the headers -/

/-- What holds of all chunks and is kept when two are joined holds of all chunks after. -/
theorem forall_mergeAbove {P : Chunk → Prop} (hjoin : ∀ a m d, P (a, m) → P d → P (a, m + d.2))
    (h : ∀ x ∈ c :: post, P x) : ∀ x ∈ mergeAbove c post, P x := by
  fun_cases mergeAbove c post with
  | case1 => exact h
  | case2 d ds htouch =>
      intro x hx
      rcases List.mem_cons.mp hx with rfl | hx
      · exact hjoin c.1 c.2 d (h c (by simp)) (h d (by simp))
      · exact h x (by simp [hx])
  | case3 d ds hgap => exact h

theorem forall_mergeInto {P : Chunk → Prop} (hjoin : ∀ a m d, P (a, m) → P d → P (a, m + d.2))
    (h : ∀ x ∈ pre ++ c :: post, P x) : ∀ x ∈ mergeInto pre c post, P x := by
  fun_induction mergeInto pre c post with
  | case1 => exact forall_mergeAbove hjoin h
  | case2 d htouch =>
      refine forall_mergeAbove hjoin ?_
      intro x hx
      rcases List.mem_cons.mp hx with rfl | hx
      · exact hjoin d.1 d.2 c (h d (by simp)) (h c (by simp))
      · exact h x (by simp [hx])
  | case3 d hgap =>
      intro x hx
      rcases List.mem_cons.mp hx with rfl | hx
      · exact h x (by simp)
      · exact forall_mergeAbove hjoin (fun y hy => h y (List.mem_cons_of_mem d hy)) x hx
  | case4 d e pre ih =>
      intro x hx
      rcases List.mem_cons.mp hx with rfl | hx
      · exact h x (by simp)
      · exact ih (fun y hy => h y (List.mem_cons_of_mem d hy)) x hx

theorem spaced_mergeAbove (hspaced : Spaced post) (hpost : ∀ d ∈ post, c.1 + c.2 ≤ d.1) :
    Spaced (mergeAbove c post) := by
  fun_cases mergeAbove c post with
  | case1 => exact List.pairwise_singleton _ _
  | case2 d ds htouch =>
      obtain ⟨habove, hds⟩ := List.pairwise_cons.mp hspaced
      refine List.pairwise_cons.mpr ⟨?_, hds⟩
      intro x hx
      have := habove x hx
      simp only
      omega
  | case3 d ds hgap =>
      refine List.pairwise_cons.mpr ⟨?_, hspaced⟩
      intro x hx
      have hd := hpost d (by simp)
      rcases List.mem_cons.mp hx with rfl | hx
      · omega
      · have := (List.pairwise_cons.mp hspaced).1 x hx
        omega

theorem spaced_mergeInto (hspaced : Spaced (pre ++ post)) (hpre : ∀ d ∈ pre, d.1 + d.2 ≤ c.1)
    (hpost : ∀ d ∈ post, c.1 + c.2 ≤ d.1) : Spaced (mergeInto pre c post) := by
  fun_induction mergeInto pre c post with
  | case1 => exact spaced_mergeAbove hspaced hpost
  | case2 d htouch =>
      refine spaced_mergeAbove (List.pairwise_cons.mp hspaced).2 ?_
      intro x hx
      have := hpost x hx
      simp only
      lia
  | case3 d hgap =>
      have hd := hpre d (by simp)
      refine List.pairwise_cons.mpr
        ⟨?_, spaced_mergeAbove (List.pairwise_cons.mp hspaced).2 hpost⟩
      refine forall_mergeAbove (fun a m e ha _ => ha) ?_
      intro x hx
      rcases List.mem_cons.mp hx with rfl | hx
      · lia
      · have := hpost x hx
        lia
  | case4 d e pre ih =>
      obtain ⟨habove, hrest⟩ := List.pairwise_cons.mp hspaced
      have hde := habove e (by simp)
      have hec := hpre e (by simp)
      refine List.pairwise_cons.mpr ⟨?_, ih hrest (fun x hx => hpre x (by simp [hx]))⟩
      refine forall_mergeInto (fun a m e ha _ => ha) ?_
      intro x hx
      rcases List.mem_append.mp hx with hx | hx
      · exact habove x (List.mem_append_left _ hx)
      · rcases List.mem_cons.mp hx with rfl | hx
        · lia
        · exact habove x (List.mem_append_right _ hx)

/-! ## The three ways to change a layout -/

/-- A released chunk splits the free ones. -/
theorem Spaced.split (h : Spaced F) {p : Nat} (hp : p ∉ F.map Prod.fst) :
    ∃ pre post, F = pre ++ post ∧ (∀ d ∈ pre, d.1 < p) ∧ ∀ d ∈ post, p < d.1 := by
  induction F with
  | nil => exact ⟨[], [], rfl, by simp, by simp⟩
  | cons d F ih =>
      obtain ⟨habove, hF⟩ := List.pairwise_cons.mp h
      rw [List.map_cons, List.mem_cons, not_or] at hp
      by_cases hd : d.1 < p
      · obtain ⟨pre, post, rfl, hpre, hpost⟩ := ih hF hp.2
        refine ⟨d :: pre, post, rfl, ?_, hpost⟩
        intro x hx
        rcases List.mem_cons.mp hx with rfl | hx
        · exact hd
        · exact hpre x hx
      · refine ⟨[], d :: F, rfl, by simp, ?_⟩
        intro x hx
        rcases List.mem_cons.mp hx with rfl | hx
        · omega
        · have := habove x hx
          omega

/-- The order in which the chunks are listed does not matter for the tiling. -/
theorem perm_move (F₁ F₂ A₁ A₂ : List Chunk) (c : Chunk) :
    (F₁ ++ F₂ ++ (A₁ ++ c :: A₂)).Perm (F₁ ++ c :: F₂ ++ (A₁ ++ A₂)) := by
  have hfront : (F₁ ++ c :: F₂ ++ (A₁ ++ A₂)).Perm (c :: (F₁ ++ F₂ ++ (A₁ ++ A₂))) := by
    simp
  have hback : (F₁ ++ F₂ ++ (A₁ ++ c :: A₂)).Perm (c :: (F₁ ++ F₂ ++ (A₁ ++ A₂))) := by
    simpa using (List.perm_middle : ((F₁ ++ F₂ ++ A₁) ++ c :: A₂).Perm _)
  exact hback.trans hfront.symm

/-- **Release.** -/
theorem Layout.release (h : Layout pool (pre ++ post) (A₁ ++ c :: A₂))
    (hpre : ∀ d ∈ pre, d.1 < c.1) (hpost : ∀ d ∈ post, c.1 < d.1) :
    Layout pool (mergeInto pre c post) (A₁ ++ A₂) := by
  have hperm := perm_move pre post A₁ A₂ c
  have htiles := h.tiles.perm hperm
  have hheader : ∀ d ∈ pre ++ c :: post ++ (A₁ ++ A₂), headerSize ≤ d.2 :=
    fun d hd => h.header d (hperm.mem_iff.mpr hd)
  -- A free chunk and the released one do not overlap, so starts in order are chunks in order.
  have hapart : ∀ d ∈ pre ++ post, Chunk.Apart d c := by
    intro d hd
    exact (List.pairwise_append.mp h.tiles.apart).2.2 d hd c (by simp)
  refine ⟨spaced_mergeInto h.spaced ?_ ?_, tiles_mergeInto htiles, ?_⟩
  · intro d hd
    have hlt := hpre d hd
    have hpos := htiles.pos c (by simp)
    have := hapart d (by simp [hd])
    unfold Chunk.Apart at this
    omega
  · intro d hd
    have hlt := hpost d hd
    have hpos := htiles.pos d (by simp [hd])
    have := hapart d (by simp [hd])
    unfold Chunk.Apart at this
    omega
  · intro d hd
    rcases List.mem_append.mp hd with hd | hd
    · refine forall_mergeInto (P := fun x => headerSize ≤ x.2) ?_ ?_ d hd
      · intro a m e ha _
        exact Nat.le_add_right_of_le ha
      · exact fun x hx => hheader x (List.mem_append_left _ hx)
    · exact hheader d (List.mem_append_right _ hd)

/-- **A whole chunk is acquired.** -/
theorem Layout.takeWhole (h : Layout pool (F₁ ++ c :: F₂) A) :
    Layout pool (F₁ ++ F₂) (c :: A) := by
  have hperm := perm_move F₁ F₂ [] A c
  refine ⟨?_, h.tiles.perm hperm.symm, fun d hd => h.header d (hperm.mem_iff.mp hd)⟩
  exact h.spaced.sublist ((List.sublist_cons_self c F₂).append_left F₁)

/-- **A chunk is cut**, and its first part is acquired. -/
theorem Layout.takePart {a need headroom : Nat} (h : Layout pool (F₁ ++ (a, need + headroom) :: F₂) A)
    (hneed : headerSize ≤ need) (hheadroom : headerSize < headroom) :
    Layout pool (F₁ ++ (a + need, headroom) :: F₂) ((a, need) :: A) := by
  have hneedPos : 0 < need := by
    unfold headerSize at hneed
    omega
  have hwhole := perm_move F₁ F₂ [] A (a, need + headroom)
  have hfront : (F₁ ++ F₂ ++ ((a, need + headroom) :: A)).Perm
      ((a, need + headroom) :: (F₁ ++ F₂ ++ A)) := List.perm_middle
  have hcut : Tiles pool.base (pool.base + pool.size)
      ((a, need) :: (a + need, headroom) :: (F₁ ++ F₂ ++ A)) :=
    (tiles_split hneedPos (by omega)).mp ((h.tiles.perm hwhole.symm).perm hfront)
  have hparts : ((a, need) :: (a + need, headroom) :: (F₁ ++ F₂ ++ A)).Perm
      (F₁ ++ (a + need, headroom) :: F₂ ++ ((a, need) :: A)) := by
    have htail := perm_move F₁ F₂ [(a, need)] A (a + need, headroom)
    exact (List.perm_append_comm_assoc [(a, need), (a + need, headroom)] (F₁ ++ F₂) A).trans htail
  refine ⟨?_, hcut.perm hparts, ?_⟩
  · -- The tail ends where the chunk ended, and starts later.
    obtain ⟨hF₁, hc, hF₁c⟩ := List.pairwise_append.mp h.spaced
    obtain ⟨hcF₂, hF₂⟩ := List.pairwise_cons.mp hc
    refine List.pairwise_append.mpr ⟨hF₁, List.pairwise_cons.mpr ⟨?_, hF₂⟩, ?_⟩
    · intro x hx
      have := hcF₂ x hx
      simp only at this ⊢
      omega
    · intro x hx y hy
      rcases List.mem_cons.mp hy with rfl | hy
      · have := hF₁c x hx (a, need + headroom) (by simp)
        simp only at this ⊢
        omega
      · exact hF₁c x hx y (by simp [hy])
  · intro d hd
    rw [← hparts.mem_iff, List.mem_cons, List.mem_cons] at hd
    rcases hd with rfl | rfl | hd
    · exact hneed
    · exact le_of_lt hheadroom
    · exact h.header d (hwhole.mem_iff.mp (hfront.mem_iff.mpr (List.mem_cons_of_mem _ hd)))

/-- No chain is longer than the pool. -/
theorem Layout.length_le (h : Layout pool F A) : F.length + A.length ≤ pool.size := by
  have := h.tiles.length_le
  rw [List.length_append] at this
  omega

end Shmalloc
end CrosEc
