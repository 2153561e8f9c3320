import CrosEc.Shmalloc.Runs

/-!
# Releasing undoes acquiring

An acquire takes a whole chunk out of the free chain or cuts one there.  Its release finds the
same neighbours: a whole chunk touches none of them, since no two free chunks touch, and the
first part of a cut chunk touches the tail and is joined with it.  With nothing allocated the
free chunks tile the pool and do not touch, so there is only one.

`freeChain` and `alloccedChain` read the chains out of memory as lists of addresses and sizes.
-/

namespace CrosEc
namespace Shmalloc

open Lib

variable {pool : Pool} {s s' : State} {live : List Allocation} {F A pre post : List Chunk}
  {c : Chunk}

/-! ## The chains as lists -/

/-- The addresses and sizes along a chain. -/
def walk (mem : Addr → ShmBuffer) : Nat → Option Addr → List Chunk
  | _, none => []
  | 0, some _ => []
  | fuel + 1, some a => (a, (mem a).val) :: walk mem fuel (mem a).next

def freeChain (pool : Pool) (s : State) : List Chunk := walk s.mem pool.fuel s.freeBufChain

def alloccedChain (pool : Pool) (s : State) : List Chunk :=
  walk s.mem pool.fuel s.alloccedBufChain

theorem walk_eq {mem : Addr → ShmBuffer} {cs : List Chunk} {prev : Option Addr}
    (h : Seg mem prev cs none) {fuel : Nat} (hfuel : cs.length ≤ fuel) :
    walk mem fuel (first none cs) = cs := by
  induction cs generalizing prev fuel with
  | nil => cases fuel <;> rfl
  | cons c cs ih =>
      obtain ⟨fuel, rfl⟩ := Nat.exists_eq_succ_of_ne_zero (by simp at hfuel; omega : fuel ≠ 0)
      show (c.1, (mem c.1).val) :: walk mem fuel (mem c.1).next = c :: cs
      have hnode : mem c.1 = ⟨first none cs, prev, c.2⟩ := h.1
      rw [hnode]
      exact congrArg (c :: ·) (ih h.2 (by simpa using hfuel))

theorem HeapOk.freeChain_eq (h : HeapOk pool s live F A) : freeChain pool s = F := by
  have hlen := h.layout.length_le
  rw [freeChain, h.chains.freeHead]
  exact walk_eq h.chains.free (by unfold Pool.fuel; omega)

theorem HeapOk.alloccedChain_eq (h : HeapOk pool s live F A) : alloccedChain pool s = A := by
  have hlen := h.layout.length_le
  rw [alloccedChain, h.chains.allocHead]
  exact walk_eq h.chains.alloc (by unfold Pool.fuel; omega)

/-! ## Acquire and release -/

/-- A chunk between its neighbours. -/
theorem Spaced.neighbours (h : Spaced (pre ++ c :: post)) :
    (∀ d ∈ pre, d.1 + d.2 < c.1) ∧ ∀ d ∈ post, c.1 + c.2 < d.1 := by
  obtain ⟨-, hc, hpre⟩ := List.pairwise_append.mp h
  exact ⟨fun d hd => hpre d hd c (by simp), (List.pairwise_cons.mp hc).1⟩

theorem mergeAbove_of_gap (h : ∀ d ∈ post, c.1 + c.2 < d.1) : mergeAbove c post = c :: post := by
  cases post with
  | nil => rfl
  | cons d ds => exact if_neg (Nat.ne_of_lt (h d (by simp)))

/-- A chunk that touches none of those below it is only joined with those above. -/
theorem mergeInto_of_gap (h : ∀ d ∈ pre, d.1 + d.2 < c.1) :
    mergeInto pre c post = pre ++ mergeAbove c post := by
  rcases List.eq_nil_or_concat pre with rfl | ⟨init, d, rfl⟩
  · rfl
  · rw [List.concat_eq_append] at h ⊢
    have hgap : ¬ d.1 + d.2 = c.1 := Nat.ne_of_lt (h d (by simp))
    rw [mergeInto_concat, mergeInto, if_neg hgap, List.append_assoc]
    rfl

/-- **Releasing undoes acquiring.** -/
theorem HeapOk.release_acquired (h : HeapOk pool s live F A) {size : Nat} {ptr : Addr}
    (hcall : sharedMemAcquire pool false size s = some (ecSuccess, some ptr, s')) :
    ∃ s'', sharedMemRelease pool false ptr s' = some s'' ∧ HeapOk pool s'' live F A := by
  rcases acquire_cases h size with ⟨F₁, c, F₂, s₁, rfl, -, hspec, hok⟩ |
    ⟨F₁, a, headroom, F₂, s₁, rfl, hpos, hspec, hok⟩ | ⟨hspec, -⟩
  · rw [hcall] at hspec
    cases hspec
    obtain ⟨hpre, hpost⟩ := h.layout.spaced.neighbours
    obtain ⟨s'', hrelease, hback⟩ := release_spec [] [] hok h.serves
      (List.forall₂_cons.mp hok.serves).1 (fun d hd => by have := hpre d hd; omega)
      (fun d hd => by have := hpost d hd; omega)
    rw [mergeInto_of_gap hpre, mergeAbove_of_gap hpost] at hback
    exact ⟨s'', hrelease, hback⟩
  · rw [hcall] at hspec
    cases hspec
    obtain ⟨hpre, hpost⟩ := h.layout.spaced.neighbours
    have hneed := size_le_neededSize size
    have habove : ∀ d ∈ (a + neededSize size, headroom) :: F₂, a < d.1 := by
      intro d hd
      rcases List.mem_cons.mp hd with rfl | hd
      · unfold headerSize at hneed
        omega
      · exact lt_of_le_of_lt (Nat.le_add_right _ _) (hpost d hd)
    obtain ⟨s'', hrelease, hback⟩ := release_spec [] []
      (c := (a, neededSize size)) hok h.serves (List.forall₂_cons.mp hok.serves).1
      (fun d hd => lt_of_le_of_lt (Nat.le_add_right _ _) (hpre d hd)) habove
    rw [mergeInto_of_gap (c := (a, neededSize size)) hpre] at hback
    have hjoin : mergeAbove (a, neededSize size) ((a + neededSize size, headroom) :: F₂) =
        (a, neededSize size + headroom) :: F₂ := if_pos rfl
    rw [hjoin] at hback
    exact ⟨s'', hrelease, hback⟩
  · rw [hcall] at hspec
    cases hspec

/-! ## Releasing everything -/

/-- The buffers are released one after the other. -/
def releaseAll (pool : Pool) : List Allocation → State → Option State
  | [], s => some s
  | a :: order, s =>
      match sharedMemRelease pool false a.1 s with
      | none => none
      | some s' => releaseAll pool order s'

/-- The order of the releases does not matter for what is left. -/
theorem HeapOk.releaseAll (h : HeapOk pool s live F A) {order : List Allocation}
    (horder : order.Perm live) :
    ∃ s' F', releaseAll pool order s = some s' ∧ HeapOk pool s' [] F' [] := by
  induction order generalizing s live F A with
  | nil =>
      obtain rfl := List.nil_perm.mp horder
      obtain rfl := List.forall₂_nil_right_iff.mp h.serves
      exact ⟨s, F, rfl, h⟩
  | cons a order ih =>
      obtain ⟨l₁, l₂, rfl⟩ := List.append_of_mem (horder.subset (List.mem_cons_self ..))
      obtain ⟨s₁, F₁, A₁, hrelease, hok⟩ := releaseOk_of_heapOk h
      obtain ⟨s', F', hrest, hok'⟩ := ih hok (horder.trans List.perm_middle).cons_inv
      refine ⟨s', F', ?_, hok'⟩
      rw [Shmalloc.releaseAll, hrelease]
      exact hrest

/-- **Free chunks that do not touch and are all there is are one chunk.** -/
theorem Layout.eq_single (h : Layout pool F []) : F = [(pool.base, pool.size)] := by
  have htiles := h.tiles
  rw [List.append_nil] at htiles
  have hroom := pool.header_le
  unfold headerSize at hroom
  obtain ⟨d, hd, hbase⟩ := (htiles.covers pool.base).mp ⟨le_rfl, Nat.lt_add_of_pos_right (by lia)⟩
  obtain ⟨pre, post, rfl⟩ := List.append_of_mem hd
  obtain ⟨hpre, hpost⟩ := h.spaced.neighbours
  have hbounds := htiles.bounds hd
  have hstart : d.1 = pool.base := Nat.le_antisymm hbase.1 hbounds.1
  -- A chunk below would start below the pool.
  have hfirst : pre = [] := by
    refine List.eq_nil_iff_forall_not_mem.mpr fun e he => ?_
    have hlow := hpre e he
    have := (htiles.bounds (List.mem_append_left _ he)).1
    lia
  subst hfirst
  -- The address behind the chunk is in no other one, so it is behind the pool.
  have hend : d.1 + d.2 = pool.base + pool.size := by
    by_contra hne
    obtain ⟨e, he, hin⟩ := (htiles.covers (d.1 + d.2)).mp ⟨by lia, by lia⟩
    unfold Chunk.Has at hin
    rcases List.mem_cons.mp he with rfl | he
    · lia
    · have := hpost e he
      lia
  have hlast : post = [] := by
    refine List.eq_nil_iff_forall_not_mem.mpr fun e he => ?_
    have hhigh := hpost e he
    have := (htiles.bounds (by simp [he] : e ∈ [] ++ d :: post)).2
    lia
  have hsize : d.2 = pool.size := by lia
  rw [hlast, List.nil_append, ← hstart, ← hsize]

/-- **Releasing restores the heap.**  In every reachable state, a successful acquire and the
release of what it returned leave both chains as they were; and the buffers that are allocated,
released in any order, leave the single free chunk of the start. -/
theorem release_restores (h : Reachable pool s live) :
    (∀ size ptr s₁, sharedMemAcquire pool false size s = some (ecSuccess, some ptr, s₁) →
      ∃ s₂, sharedMemRelease pool false ptr s₁ = some s₂ ∧
        freeChain pool s₂ = freeChain pool s ∧ alloccedChain pool s₂ = alloccedChain pool s) ∧
      ∀ order, order.Perm live → ∃ s', releaseAll pool order s = some s' ∧
        freeChain pool s' = [(pool.base, pool.size)] ∧ alloccedChain pool s' = [] := by
  obtain ⟨F, A, hok⟩ := h.heapOk
  constructor
  · intro size ptr s₁ hcall
    obtain ⟨s₂, hrelease, hback⟩ := hok.release_acquired hcall
    refine ⟨s₂, hrelease, ?_, ?_⟩
    · rw [hback.freeChain_eq, hok.freeChain_eq]
    · rw [hback.alloccedChain_eq, hok.alloccedChain_eq]
  · intro order horder
    obtain ⟨s', F', hrelease, hend⟩ := hok.releaseAll horder
    refine ⟨s', hrelease, ?_, hend.alloccedChain_eq⟩
    rw [hend.freeChain_eq, hend.layout.eq_single]

/-- Two allocations in a small pool, acquired, and released in the same order. -/
theorem release_restores_smallPool :
    ∃ s, Reachable smallPool s [(0x1024, 20), (0x100c, 10)] ∧
      ∃ s', releaseAll smallPool [(0x100c, 10), (0x1024, 20)] s = some s' ∧
        freeChain smallPool s' = [(smallPool.base, smallPool.size)] ∧
        alloccedChain smallPool s' = [] := by
  have hinit : Reachable smallPool _ [] := Reachable.init fun _ => ⟨none, none, 0⟩
  have hfirst := Reachable.acquired hinit
    (rfl : sharedMemAcquire smallPool false 10 _ = some (ecSuccess, some 0x100c, _))
  have hsecond := Reachable.acquired hfirst
    (rfl : sharedMemAcquire smallPool false 20 _ = some (ecSuccess, some 0x1024, _))
  exact ⟨_, hsecond, (release_restores hsecond).2 _ (List.Perm.swap _ _ _)⟩

end Shmalloc

/-!
## What callers are told

`shared_mem_size` returns the size of the largest free chunk, and `shared_mem_acquire` needs a
chunk that is larger than the rounded request with its header; the two agree on a request
unless it is in between (`sharedMemSize_iff`).

A release looks for the buffer in the allocated chain.  It starts at the head, which it takes to
exist, so a release of a pointer that is not allocated has no effect unless nothing is allocated
(`sharedMemRelease_foreign_iff`).
-/

namespace Shmalloc

open Lib

variable {pool : Pool} {s : State} {live : List Allocation} {F A : List Chunk}

/-! ### The reported size -/

theorem maxAvailable_spec {mem : Addr → ShmBuffer} {cs : List Chunk} {prev : Option Addr}
    (h : Seg mem prev cs none) (available : Nat) {fuel : Nat} (hfuel : cs.length ≤ fuel) :
    maxAvailable mem fuel (first none cs) available =
      some ((cs.map Prod.snd).foldl max available) := by
  induction cs generalizing prev fuel available with
  | nil => cases fuel <;> rfl
  | cons c cs ih =>
      obtain ⟨fuel, rfl⟩ := Nat.exists_eq_succ_of_ne_zero (by simp at hfuel; omega : fuel ≠ 0)
      have hnode : mem c.1 = ⟨first none cs, prev, c.2⟩ := h.1
      have hmax : (if available < c.2 then c.2 else available) = max available c.2 := by
        split <;> omega
      show maxAvailable mem fuel (mem c.1).next _ = _
      rw [hnode]
      simp only [hmax]
      exact ih h.2 _ (by simpa using hfuel)

/-- `shared_mem_size` is the size of a largest free chunk. -/
theorem HeapOk.sharedMemSize_eq (h : HeapOk pool s live F A) :
    sharedMemSize pool s = some ((F.map Prod.snd).foldl max 0) := by
  have hlen := h.layout.length_le
  rw [sharedMemSize, h.chains.freeHead]
  exact maxAvailable_spec h.chains.free 0 (by unfold Pool.fuel; omega)

theorem lt_foldl_max_iff {l : List Nat} {a n : Nat} :
    n < l.foldl max a ↔ n < a ∨ ∃ x ∈ l, n < x := by
  induction l generalizing a with
  | nil => simp
  | cons x l ih =>
      rw [List.foldl_cons, ih, lt_max_iff]
      simp [or_assoc]

/-- The acquire of a task succeeds. -/
def Acquires (pool : Pool) (s : State) (size : Nat) : Prop :=
  ∃ ptr s', sharedMemAcquire pool false size s = some (ecSuccess, some ptr, s')

theorem HeapOk.acquires_iff (h : HeapOk pool s live F A) (size : Nat) :
    Acquires pool s size ↔ ∃ c ∈ F, neededSize size < c.2 := by
  rcases acquire_cases h size with ⟨F₁, c, F₂, s', rfl, hlt, hcall, -⟩ |
    ⟨F₁, a, headroom, F₂, s', rfl, hpos, hcall, -⟩ | ⟨hcall, hsmall⟩
  · exact iff_of_true ⟨_, _, hcall⟩ ⟨c, by simp, hlt⟩
  · exact iff_of_true ⟨_, _, hcall⟩ ⟨(a, neededSize size + headroom), by simp, by simp; omega⟩
  · refine iff_of_false ?_ ?_
    · rintro ⟨ptr, s', hcall'⟩
      rw [hcall] at hcall'
      cases hcall'
    · rintro ⟨c, hc, hlt⟩
      exact absurd (hsmall c hc) (Nat.not_le.mpr hlt)

/-- **What can be acquired is less than what is reported.**  A request up to the reported size
succeeds, and a larger one fails, exactly for the requests that leave room for rounding and a
header and for those that are larger. -/
theorem sharedMemSize_iff (h : Reachable pool s live) :
    ∃ available, sharedMemSize pool s = some available ∧
      ∀ size, (Acquires pool s size ↔ size ≤ available) ↔
        neededSize size < available ∨ available < size := by
  obtain ⟨F, A, hok⟩ := h.heapOk
  refine ⟨_, hok.sharedMemSize_eq, fun size => ?_⟩
  have hmax : (∃ c ∈ F, neededSize size < c.2) ↔
      neededSize size < (F.map Prod.snd).foldl max 0 := by
    simp only [lt_foldl_max_iff, Nat.not_lt_zero, false_or, List.mem_map,
      exists_exists_and_eq_and]
  have hneed := size_le_neededSize size
  rw [hok.acquires_iff, hmax]
  omega

theorem sharedMemSize_iff_smallPool :
    ∃ s, Reachable smallPool s [] ∧ ∃ available, sharedMemSize smallPool s = some available ∧
      ∀ size, (Acquires smallPool s size ↔ size ≤ available) ↔
        neededSize size < available ∨ available < size :=
  have hinit : Reachable smallPool _ [] := .init fun _ => ⟨none, none, 0⟩
  ⟨_, hinit, sharedMemSize_iff hinit⟩

/-- A pool of 100 bytes is free and reported, but 100 bytes cannot be acquired. -/
theorem sharedMemSize_not_acquired :
    ∃ s, Reachable smallPool s [] ∧ s.freeBufChain ≠ none ∧ sharedMemSize smallPool s = some 100 ∧
      sharedMemAcquire smallPool false 100 s = some (ecErrorBusy, none, s) :=
  ⟨_, Reachable.init fun _ => ⟨none, none, 0⟩, by simp [sharedMemInit], rfl, rfl⟩

/-! ### Pointers that are not allocated -/

theorem headerOf_injective {ptr p : Nat} (hptr : ptr < 2 ^ 32) (hp : p + headerSize < 2 ^ 32)
    (h : headerOf ptr = p) : ptr = p + headerSize := by
  have hwrap : (ptr + (2 ^ 32 - headerSize)) % 2 ^ 32 = p := h
  unfold headerSize at *
  omega

theorem exists_serves (h : List.Forall₂ Serves A live) {c : Chunk} (hc : c ∈ A) :
    ∃ a ∈ live, Serves c a := by
  induction h with
  | nil => cases hc
  | cons hserves _ ih =>
      rcases List.mem_cons.mp hc with rfl | hc
      · exact ⟨_, List.mem_cons_self .., hserves⟩
      · obtain ⟨a, ha, hca⟩ := ih hc
        exact ⟨a, List.mem_cons_of_mem _ ha, hca⟩

/-- Only the pointers to allocated buffers lead to headers of the allocated chain. -/
theorem HeapOk.headerOf_notMem (h : HeapOk pool s live F A) {ptr : Addr} (hptr : ptr < 2 ^ 32)
    (hforeign : ptr ∉ live.map Prod.fst) : headerOf ptr ∉ A.map Prod.fst := by
  intro hmem
  obtain ⟨c, hc, hheader⟩ := List.mem_map.mp hmem
  obtain ⟨a, ha, hstart, -⟩ := exists_serves h.serves hc
  have hbounds := h.layout.tiles.bounds (List.mem_append_right F hc)
  have hroom := h.layout.header c (List.mem_append_right F hc)
  have hend : c.1 + headerSize < 2 ^ 32 :=
    lt_of_le_of_lt ((Nat.add_le_add_left hroom _).trans hbounds.2) pool.top_lt
  have heq := headerOf_injective hptr hend hheader.symm
  exact hforeign (List.mem_map.mpr ⟨a, ha, hstart.trans heq.symm⟩)

/-- The search along the allocated chain finds nothing, if there is a chain. -/
theorem HeapOk.takeOut_foreign (h : HeapOk pool s live F A) {p : Addr} (hp : p ∉ A.map Prod.fst) :
    takeOut pool.fuel p s = if A = [] then none else some (false, s) := by
  have hlen := h.layout.length_le
  cases A with
  | nil =>
      have hhead : s.alloccedBufChain = none := h.chains.allocHead
      simp [takeOut, hhead]
  | cons c A =>
      rw [List.map_cons, List.mem_cons, not_or] at hp
      rw [List.length_cons] at hlen
      have hhead : s.alloccedBufChain = some c.1 := h.chains.allocHead
      have hne : s.alloccedBufChain ≠ some p := by
        rw [hhead]
        exact fun heq => hp.1 (Option.some.inj heq).symm
      have hnext : (s.mem c.1).next = first none A := by rw [h.chains.alloc.1]
      have hsearch := inChain_spec p h.chains.alloc.2
        (by unfold Pool.fuel; omega : A.length ≤ pool.fuel)
      rw [decide_eq_false hp.2] at hsearch
      rw [takeOut, if_neg hne, hhead]
      simp only [hnext, hsearch, reduceCtorEq, if_false]

/-- **A release of a foreign pointer.**  A pointer that is not allocated is ignored exactly if
the release comes in an interrupt or something is allocated; otherwise `do_release` follows the
null pointer at the head of the allocated chain. -/
theorem sharedMemRelease_foreign_iff (h : Reachable pool s live) (inInterrupt : Bool) (ptr : Addr)
    (hptr : ptr < 2 ^ 32) (hforeign : ptr ∉ live.map Prod.fst) :
    sharedMemRelease pool inInterrupt ptr s = some s ↔ inInterrupt = true ∨ live ≠ [] := by
  obtain ⟨F, A, hok⟩ := h.heapOk
  have htake := hok.takeOut_foreign (hok.headerOf_notMem hptr hforeign)
  have hnil : A = [] ↔ live = [] := by
    constructor
    · rintro rfl
      exact List.forall₂_nil_left_iff.mp hok.serves
    · rintro rfl
      exact List.forall₂_nil_right_iff.mp hok.serves
  cases inInterrupt with
  | true => exact iff_of_true rfl (Or.inl rfl)
  | false =>
      unfold sharedMemRelease doRelease
      have hne : live ≠ [] ↔ A ≠ [] := hnil.symm.not
      rw [if_neg Bool.false_ne_true, htake, hne]
      by_cases hA : A = []
      · simp [hA]
      · simp [hA]

/-- One buffer is allocated, and a pointer into it is released. -/
theorem sharedMemRelease_foreign_iff_smallPool :
    ∃ s, Reachable smallPool s [(0x100c, 10)] ∧
      (sharedMemRelease smallPool false 0x1010 s = some s ↔
        false = true ∨ [((0x100c, 10) : Allocation)] ≠ []) := by
  have hfirst := Reachable.acquired (Reachable.init fun _ => ⟨none, none, 0⟩)
    (rfl : sharedMemAcquire smallPool false 10 _ = some (ecSuccess, some 0x100c, _))
  exact ⟨_, hfirst, sharedMemRelease_foreign_iff hfirst false 0x1010 (by decide) (by decide)⟩

/-- The only buffer is released twice. -/
theorem sharedMemRelease_twice :
    ∃ s s', Reachable smallPool s [(0x100c, 10)] ∧
      sharedMemRelease smallPool false 0x100c s = some s' ∧ Reachable smallPool s' [] ∧
      sharedMemRelease smallPool false 0x100c s' = none := by
  have hfirst := Reachable.acquired (Reachable.init fun _ => ⟨none, none, 0⟩)
    (rfl : sharedMemAcquire smallPool false 10 _ = some (ecSuccess, some 0x100c, _))
  have hreleased : Reachable smallPool _ [] :=
    @Reachable.released smallPool _ _ [] (0x100c, 10) [] hfirst rfl
  exact ⟨_, _, hfirst, rfl, hreleased, rfl⟩

end Shmalloc
end CrosEc
