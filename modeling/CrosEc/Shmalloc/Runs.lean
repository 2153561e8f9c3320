import CrosEc.Shmalloc.Chains

/-!
# The heap over every sequence of calls

`HeapOk` is what `shmem_is_ok` of the test looks for: both chains are consistent, the
free one is in order and fully joined, and together their chunks are the pool.  It also
says which chunk serves which allocation.  Every call keeps it (`acquireOk_of_heapOk`,
`releaseOk_of_heapOk`), so it holds in every reachable state (`reachable_heapOk`); in
particular no call ever follows a null pointer.
-/

namespace CrosEc
namespace Shmalloc

open Lib

/-- What a caller holds: the pointer it got and the size it asked for. -/
abbrev Allocation := Nat × Nat

/-- The chunk has the allocation behind its header. -/
def Serves (c : Chunk) (a : Allocation) : Prop :=
  a.1 = c.1 + headerSize ∧ a.1 + a.2 ≤ c.1 + c.2

/-- The heap with free chunks `F` and allocated chunks `A`. -/
structure HeapOk (pool : Pool) (s : State) (live : List Allocation) (F A : List Chunk) : Prop where
  chains : Chains s F A
  layout : Layout pool F A
  serves : List.Forall₂ Serves A live

variable {pool : Pool} {s s' : State} {live : List Allocation} {F A : List Chunk}

theorem heapOk_sharedMemInit (pool : Pool) (mem : Addr → ShmBuffer) :
    HeapOk pool (sharedMemInit pool mem) [] [(pool.base, pool.size)] [] := by
  have hheader := pool.header_le
  have hpos : 0 < pool.size := lt_of_lt_of_le (by decide : 0 < headerSize) hheader
  refine ⟨⟨rfl, ⟨Function.update_self _ _ _, trivial⟩, rfl, trivial, by simp⟩, ?_, List.Forall₂.nil⟩
  refine ⟨List.pairwise_singleton _ _, ⟨?_, List.pairwise_singleton _ _, ?_⟩, ?_⟩
  · simpa using hpos
  · intro x
    simp [Chunk.Has]
  · simpa using hheader

/-! ## Acquiring -/

/-- What an acquire does to the heap.  It is refused in an interrupt, and otherwise only if
no free chunk is larger than the rounded size with its header. -/
def AcquireOk (pool : Pool) (inInterrupt : Bool) (size : Nat) (s : State)
    (live : List Allocation) (F : List Chunk) : Prop :=
  (∃ ptr s' F' A', sharedMemAcquire pool inInterrupt size s = some (ecSuccess, some ptr, s') ∧
    HeapOk pool s' ((ptr, size) :: live) F' A') ∨
  ∃ code, sharedMemAcquire pool inInterrupt size s = some (code, none, s) ∧ code ≠ ecSuccess ∧
    (inInterrupt = true ∨ ∀ c ∈ F, c.2 ≤ neededSize size)

theorem size_le_neededSize (size : Nat) : size + headerSize ≤ neededSize size := by
  unfold neededSize
  omega

/-- A chunk that has left the free chain, with the right size in its header, enters the
allocated chain. -/
theorem acquire_enters {inInterrupt : Bool} {size n p : Nat} {s₁ : State}
    (hin : inInterrupt = false) (hfree : s.freeBufChain ≠ none)
    (hdo : doAcquire pool.fuel size s = some (some p, s₁)) (hchains : Chains s₁ F A)
    (hval : (s₁.mem p).val = n) (hlayout : Layout pool F ((p, n) :: A)) (hn : neededSize size ≤ n)
    (hserves : List.Forall₂ Serves A live) :
    ∃ s', sharedMemAcquire pool inInterrupt size s =
        some (ecSuccess, some (p + headerSize), s') ∧
      HeapOk pool s' ((p + headerSize, size) :: live) F ((p, n) :: A) := by
  have hnew : p ∉ (F ++ A).map Prod.fst := by
    have hnodup := hlayout.tiles.nodup
    obtain ⟨hF, hA⟩ := not_mem_of_nodup_middle hnodup
    rw [List.map_append, List.mem_append, not_or]
    exact ⟨hF, hA⟩
  have henter := hchains.insertAlloc (n := n) hnew
  refine ⟨{ s₁ with
    mem := inserted s₁.mem [] (p, n) A
    alloccedBufChain := some p
    maxAllocatedSize := max s₁.maxAllocatedSize size }, ?_, ?_, hlayout, ?_⟩
  · unfold sharedMemAcquire
    simp only [hin, Bool.false_eq_true, if_false, hfree, hdo, State.linkPrev, hchains.allocHead]
    congr 4
    simp [setPrev, setNext, inserted, Lib.linkNext, hval, first, last]
  · exact ⟨henter.freeHead, henter.free, henter.allocHead, henter.alloc, henter.nodup⟩
  · have hroom := size_le_neededSize size
    have hfits : p + headerSize + size ≤ p + n := by omega
    exact List.Forall₂.cons ⟨rfl, hfits⟩ hserves

section Found

variable {F₁ F₂ : List Chunk} {size headroom : Nat} {c : Chunk}

/-- The candidate is taken as it is. -/
theorem acquire_whole (h : HeapOk pool s live (F₁ ++ c :: F₂) A)
    (hfound : bestFit s.mem (neededSize size) pool.fuel s.freeBufChain 0x10000000 none =
      some (headroom, some c.1))
    (hlt : neededSize size < c.2) (hwhole : headroom ≤ headerSize) :
    ∃ s', sharedMemAcquire pool false size s = some (ecSuccess, some (c.1 + headerSize), s') ∧
      HeapOk pool s' ((c.1 + headerSize, size) :: live) (F₁ ++ F₂) (c :: A) := by
  have hfree : s.freeBufChain ≠ none := by
    rw [h.chains.freeHead, first_append]
    cases F₁ <;> simp [first]
  have hdo : doAcquire pool.fuel size s = some (some c.1,
      { s with mem := unlinked s.mem F₁ F₂, freeBufChain := first none (F₁ ++ F₂) }) := by
    simp only [doAcquire, hfound, if_pos hwhole, takeWhole_spec h.chains]
  have hval : (unlinked s.mem F₁ F₂ c.1).val = c.2 := by
    have hF : ((F₁ ++ c :: F₂).map Prod.fst).Nodup :=
      h.chains.nodup.sublist ((List.sublist_append_left _ A).map _)
    obtain ⟨hF₁, hF₂⟩ := not_mem_of_nodup_middle hF
    rw [unlinked_of_notMem hF₁ hF₂, h.chains.free.node]
  exact acquire_enters rfl hfree hdo h.chains.unlinkFree hval h.layout.takeWhole (le_of_lt hlt)
    h.serves

/-- The candidate is cut. -/
theorem acquire_part {a : Nat}
    (h : HeapOk pool s live (F₁ ++ (a, neededSize size + headroom) :: F₂) A)
    (hfound : bestFit s.mem (neededSize size) pool.fuel s.freeBufChain 0x10000000 none =
      some (headroom, some a))
    (hpart : ¬ headroom ≤ headerSize) :
    ∃ s', sharedMemAcquire pool false size s = some (ecSuccess, some (a + headerSize), s') ∧
      HeapOk pool s' ((a + headerSize, size) :: live)
        (F₁ ++ (a + neededSize size, headroom) :: F₂) ((a, neededSize size) :: A) := by
  have hfree : s.freeBufChain ≠ none := by
    rw [h.chains.freeHead, first_append]
    cases F₁ <;> simp [first]
  have hneed : headerSize ≤ neededSize size := by
    have := size_le_neededSize size
    omega
  have hcut := h.layout.takePart hneed (by omega)
  -- No header is where the tail is going to have its own.
  have hnew : a + neededSize size ∉
      (F₁ ++ (a, neededSize size + headroom) :: F₂ ++ A).map Prod.fst := by
    have hnodup := hcut.tiles.nodup
    rw [List.append_assoc, List.cons_append] at hnodup
    obtain ⟨hF₁, hrest⟩ := not_mem_of_nodup_middle hnodup
    simp only [List.map_append, List.map_cons, List.mem_append, List.mem_cons, not_or] at hrest ⊢
    exact ⟨⟨hF₁, hrest.2.1, hrest.1⟩, hrest.2.2⟩
  have hpos : 0 < neededSize size := lt_of_lt_of_le (by decide) hneed
  obtain ⟨s₁, htake, hchains, hval⟩ := takePart_spec h.chains hpos hnew headroom
  have hdo : doAcquire pool.fuel size s = some (some a, s₁) := by
    simp only [doAcquire, hfound, if_neg hpart, htake]
  exact acquire_enters rfl hfree hdo hchains hval hcut (le_refl _) h.serves

end Found

/-- What an acquire in a task does: a chunk leaves the free chain, or is cut there, or none is
large enough. -/
theorem acquire_cases (h : HeapOk pool s live F A) (size : Nat) :
    (∃ F₁ c F₂ s', F = F₁ ++ c :: F₂ ∧ neededSize size < c.2 ∧
      sharedMemAcquire pool false size s = some (ecSuccess, some (c.1 + headerSize), s') ∧
      HeapOk pool s' ((c.1 + headerSize, size) :: live) (F₁ ++ F₂) (c :: A)) ∨
    (∃ F₁ a headroom F₂ s', F = F₁ ++ (a, neededSize size + headroom) :: F₂ ∧ 0 < headroom ∧
      sharedMemAcquire pool false size s = some (ecSuccess, some (a + headerSize), s') ∧
      HeapOk pool s' ((a + headerSize, size) :: live)
        (F₁ ++ (a + neededSize size, headroom) :: F₂) ((a, neededSize size) :: A)) ∨
    sharedMemAcquire pool false size s = some (ecErrorBusy, none, s) ∧
      ∀ c ∈ F, c.2 ≤ neededSize size := by
  have hlen : F.length ≤ pool.fuel := by
    have := h.layout.length_le
    unfold Pool.fuel
    lia
  have hsearch := bestFit_spec h.chains.free (neededSize size) 0x10000000 none hlen
  rw [← h.chains.freeHead] at hsearch
  rcases hsearch with ⟨hnone, hsmall⟩ | ⟨c, hc, hlt, hfound⟩
  · refine Or.inr (Or.inr ⟨by simp [sharedMemAcquire, doAcquire, hnone], fun c hc => ?_⟩)
    -- The pool is smaller than the headroom that the search starts with.
    have hbounds := h.layout.tiles.bounds (List.mem_append_left A hc)
    have hsize := pool.size_lt
    by_contra hlarge
    have := hsmall c hc (by lia)
    lia
  · obtain ⟨F₁, F₂, rfl⟩ := List.append_of_mem hc
    by_cases hwhole : c.2 - neededSize size ≤ headerSize
    · obtain ⟨s', hcall, hok⟩ := acquire_whole h hfound hlt hwhole
      exact Or.inl ⟨F₁, c, F₂, s', rfl, hlt, hcall, hok⟩
    · obtain ⟨a, n⟩ := c
      obtain ⟨headroom, rfl⟩ := Nat.exists_eq_add_of_le (le_of_lt hlt)
      rw [Nat.add_sub_cancel_left] at hfound hwhole
      obtain ⟨s', hcall, hok⟩ := acquire_part h hfound hwhole
      exact Or.inr (Or.inl ⟨F₁, a, headroom, F₂, s', rfl, by lia, hcall, hok⟩)

/-- **Step lemma**: acquiring. -/
theorem acquireOk_of_heapOk (h : HeapOk pool s live F A) (inInterrupt : Bool) (size : Nat) :
    AcquireOk pool inInterrupt size s live F := by
  cases inInterrupt with
  | true => exact Or.inr ⟨ecErrorInval, rfl, by decide, Or.inl rfl⟩
  | false =>
      rcases acquire_cases h size with ⟨F₁, c, F₂, s', -, -, hcall, hok⟩ |
        ⟨F₁, a, headroom, F₂, s', -, -, hcall, hok⟩ | ⟨hcall, hsmall⟩
      · exact Or.inl ⟨_, s', _, _, hcall, hok⟩
      · exact Or.inl ⟨_, s', _, _, hcall, hok⟩
      · exact Or.inr ⟨ecErrorBusy, hcall, by decide, Or.inr hsmall⟩

/-! ## Releasing -/

/-- The chunk of an allocation. -/
theorem forall₂_split {l₁ l₂ : List Allocation} {a : Allocation}
    (h : List.Forall₂ Serves A (l₁ ++ a :: l₂)) :
    ∃ A₁ c A₂, A = A₁ ++ c :: A₂ ∧ List.Forall₂ Serves (A₁ ++ A₂) (l₁ ++ l₂) ∧ Serves c a := by
  induction l₁ generalizing A with
  | nil =>
      obtain ⟨c, A₂, hc, hA₂, rfl⟩ := List.forall₂_cons_right_iff.mp h
      exact ⟨[], c, A₂, rfl, hA₂, hc⟩
  | cons b l₁ ih =>
      obtain ⟨d, A', hd, hA', rfl⟩ := List.forall₂_cons_right_iff.mp h
      obtain ⟨A₁, c, A₂, rfl, hrest, hc⟩ := ih hA'
      exact ⟨d :: A₁, c, A₂, rfl, List.Forall₂.cons hd hrest, hc⟩

theorem headerOf_add {p : Nat} (hp : p < 2 ^ 32) : headerOf (p + headerSize) = p := by
  rw [headerOf, Nat.add_assoc, Nat.add_sub_cancel' (by decide), Nat.add_mod_right,
    Nat.mod_eq_of_lt hp]

/-- A released chunk comes back between the free ones below and above it. -/
theorem release_spec (l₁ : List Allocation) (A₁ : List Chunk) {l₂ : List Allocation}
    {a : Allocation} {A₂ pre post : List Chunk} {c : Chunk}
    (h : HeapOk pool s (l₁ ++ a :: l₂) (pre ++ post) (A₁ ++ c :: A₂))
    (hserves : List.Forall₂ Serves (A₁ ++ A₂) (l₁ ++ l₂)) (hc : Serves c a)
    (hpre : ∀ d ∈ pre, d.1 < c.1) (hpost : ∀ d ∈ post, c.1 < d.1) :
    ∃ s', sharedMemRelease pool false a.1 s = some s' ∧
      HeapOk pool s' (l₁ ++ l₂) (mergeInto pre c post) (A₁ ++ A₂) := by
  have hptr : headerOf a.1 = c.1 := by
    have hbounds := h.layout.tiles.bounds (by simp : c ∈ pre ++ post ++ (A₁ ++ c :: A₂))
    rw [hc.1]
    exact headerOf_add (lt_of_le_of_lt ((Nat.le_add_right _ _).trans hbounds.2) pool.top_lt)
  have hlen := h.layout.length_le
  rw [List.length_append] at hlen
  have hout := takeOut_spec h.chains (by unfold Pool.fuel; omega : _ ≤ pool.fuel)
  have hchains := h.chains.unlinkAlloc
  -- The header keeps the size of the chunk.
  obtain ⟨hA₁, hA₂⟩ := not_mem_of_nodup_middle h.chains.nodup_alloc
  have hval : (unlinked s.mem A₁ A₂ c.1).val = c.2 := by
    rw [unlinked_of_notMem hA₁ hA₂, h.chains.alloc.node]
  have hcA : c.1 ∉ (A₁ ++ A₂).map Prod.fst := by
    rw [List.map_append, List.mem_append, not_or]
    exact ⟨hA₁, hA₂⟩
  have hfuel : pre.length ≤ pool.fuel := by
    unfold Pool.fuel
    omega
  obtain ⟨s', hgive, hchains'⟩ := giveBack_spec hchains hval hcA hpre hpost hfuel
  refine ⟨s', ?_, hchains', h.layout.release hpre hpost, hserves⟩
  unfold sharedMemRelease doRelease
  rw [if_neg Bool.false_ne_true, hptr, hout]
  exact hgive

/-- An allocated chunk is not free. -/
theorem HeapOk.notMem_free (h : HeapOk pool s live F A) {c : Chunk} (hc : c ∈ A) :
    c.1 ∉ F.map Prod.fst := by
  have hnodup := h.chains.nodup
  rw [List.map_append, List.nodup_append] at hnodup
  exact fun hmem => hnodup.2.2 c.1 hmem c.1 (List.mem_map_of_mem hc) rfl

/-- **Step lemma**: releasing. -/
theorem releaseOk_of_heapOk {l₁ l₂ : List Allocation} {a : Allocation}
    (h : HeapOk pool s (l₁ ++ a :: l₂) F A) :
    ∃ s' F' A', sharedMemRelease pool false a.1 s = some s' ∧
      HeapOk pool s' (l₁ ++ l₂) F' A' := by
  obtain ⟨A₁, c, A₂, rfl, hserves, hc⟩ := forall₂_split h.serves
  obtain ⟨pre, post, rfl, hpre, hpost⟩ := h.layout.spaced.split (h.notMem_free (c := c) (by simp))
  obtain ⟨s', hcall, hok⟩ := release_spec _ _ h hserves hc hpre hpost
  exact ⟨s', _, _, hcall, hok⟩

/-! ## Runs -/

/-- The states after `shared_mem_init` and any calls, with what the callers hold.  A caller
releases what it holds, and writes what it likes there: the headers that do not overlap
with its memory are not its to change. -/
inductive Reachable (pool : Pool) : State → List Allocation → Prop
  | init (mem : Addr → ShmBuffer) : Reachable pool (sharedMemInit pool mem) []
  | acquired {s s' live inInterrupt size code ptr} (h : Reachable pool s live)
      (hcall : sharedMemAcquire pool inInterrupt size s = some (code, some ptr, s')) :
      Reachable pool s' ((ptr, size) :: live)
  | refused {s s' live inInterrupt size code} (h : Reachable pool s live)
      (hcall : sharedMemAcquire pool inInterrupt size s = some (code, none, s')) :
      Reachable pool s' live
  | released {s s' l₁ a l₂} (h : Reachable pool s (l₁ ++ a :: l₂))
      (hcall : sharedMemRelease pool false a.1 s = some s') : Reachable pool s' (l₁ ++ l₂)
  | ignored {s s' live ptr} (h : Reachable pool s live)
      (hcall : sharedMemRelease pool true ptr s = some s') : Reachable pool s' live
  | wrote {s live a mem'} (h : Reachable pool s live) (ha : a ∈ live)
      (hmem : ∀ x, x + headerSize ≤ a.1 ∨ a.1 + a.2 ≤ x → mem' x = s.mem x) :
      Reachable pool { s with mem := mem' } live

/-- A caller's writes reach no header. -/
theorem HeapOk.wrote {a : Allocation} {mem' : Addr → ShmBuffer} (h : HeapOk pool s live F A)
    (ha : a ∈ live) (hmem : ∀ x, x + headerSize ≤ a.1 ∨ a.1 + a.2 ≤ x → mem' x = s.mem x) :
    HeapOk pool { s with mem := mem' } live F A := by
  obtain ⟨l₁, l₂, rfl⟩ := List.append_of_mem ha
  obtain ⟨A₁, c, A₂, rfl, -, hptr, hend⟩ := forall₂_split h.serves
  have hkeep : ∀ d ∈ F ++ (A₁ ++ c :: A₂), mem' d.1 = s.mem d.1 := by
    intro d hd
    apply hmem
    by_cases hdc : d = c
    · left
      rw [hdc, hptr]
    · have hsymm : Std.Symm Chunk.Apart := ⟨fun _ _ => Chunk.Apart.symm⟩
      have hapart := h.layout.tiles.apart.forall hd (by simp : c ∈ _) hdc
      have hheader := h.layout.header d hd
      unfold Chunk.Apart at hapart
      omega
  refine ⟨⟨h.chains.freeHead, ?_, h.chains.allocHead, ?_, h.chains.nodup⟩, h.layout, h.serves⟩
  · exact h.chains.free.congr fun d hd => hkeep d (List.mem_append_left _ hd)
  · exact h.chains.alloc.congr fun d hd => hkeep d (List.mem_append_right _ hd)

/-- **Run lemma.** -/
theorem Reachable.heapOk (h : Reachable pool s live) : ∃ F A, HeapOk pool s live F A := by
  induction h with
  | init mem => exact ⟨_, _, heapOk_sharedMemInit pool mem⟩
  | @acquired s s' live inInterrupt size code ptr h hcall ih =>
      obtain ⟨F, A, hok⟩ := ih
      rcases acquireOk_of_heapOk hok inInterrupt size with
        ⟨ptr', s'', F', A', heq, hok'⟩ | ⟨code', heq, -⟩
      · rw [hcall] at heq
        cases heq
        exact ⟨F', A', hok'⟩
      · rw [hcall] at heq
        cases heq
  | @refused s s' live inInterrupt size code h hcall ih =>
      obtain ⟨F, A, hok⟩ := ih
      rcases acquireOk_of_heapOk hok inInterrupt size with
        ⟨ptr', s'', F', A', heq, hok'⟩ | ⟨code', heq, -⟩
      · rw [hcall] at heq
        cases heq
      · rw [hcall] at heq
        cases heq
        exact ⟨F, A, hok⟩
  | released h hcall ih =>
      obtain ⟨F, A, hok⟩ := ih
      obtain ⟨s'', F', A', heq, hok'⟩ := releaseOk_of_heapOk hok
      rw [hcall] at heq
      cases heq
      exact ⟨F', A', hok'⟩
  | ignored h hcall ih =>
      cases hcall
      exact ih
  | wrote h ha hmem ih =>
      obtain ⟨F, A, hok⟩ := ih
      exact ⟨F, A, hok.wrote ha hmem⟩

/-- **The allocator's invariant.**  In every reachable state the chunks of the two chains
are as `HeapOk` says; an acquire hands out memory of the size asked for in a chunk of its
own, or no free chunk is large enough; and a release of what a caller holds succeeds. -/
theorem reachable_allocator (h : Reachable pool s live) :
    ∃ F A, HeapOk pool s live F A ∧
      (∀ inInterrupt size, AcquireOk pool inInterrupt size s live F) ∧
      ∀ l₁ a l₂, live = l₁ ++ a :: l₂ →
        ∃ s' F' A', sharedMemRelease pool false a.1 s = some s' ∧
          HeapOk pool s' (l₁ ++ l₂) F' A' := by
  obtain ⟨F, A, hok⟩ := h.heapOk
  refine ⟨F, A, hok, acquireOk_of_heapOk hok, ?_⟩
  rintro l₁ a l₂ rfl
  exact releaseOk_of_heapOk hok

def smallPool : Pool := ⟨0x1000, 100, by decide, by decide, by decide⟩

/-- Two allocations in a small pool, and the first one is released. -/
theorem reachable_allocator_smallPool :
    ∃ s, Reachable smallPool s [(0x1024, 20)] ∧
      ∃ F A, HeapOk smallPool s [(0x1024, 20)] F A ∧
        (∀ inInterrupt size, AcquireOk smallPool inInterrupt size s [(0x1024, 20)] F) ∧
        ∀ l₁ a l₂, [(0x1024, 20)] = l₁ ++ a :: l₂ →
          ∃ s' F' A', sharedMemRelease smallPool false a.1 s = some s' ∧
            HeapOk smallPool s' (l₁ ++ l₂) F' A' := by
  have hinit : Reachable smallPool _ [] := Reachable.init fun _ => ⟨none, none, 0⟩
  have hfirst := Reachable.acquired hinit
    (rfl : sharedMemAcquire smallPool false 10 _ = some (ecSuccess, some 0x100c, _))
  have hsecond := Reachable.acquired hfirst
    (rfl : sharedMemAcquire smallPool false 20 _ = some (ecSuccess, some 0x1024, _))
  have hreleased : Reachable smallPool _ [(0x1024, 20)] :=
    @Reachable.released smallPool _ _ [(0x1024, 20)] (0x100c, 10) [] hsecond rfl
  exact ⟨_, hreleased, reachable_allocator hreleased⟩

end Shmalloc
end CrosEc
