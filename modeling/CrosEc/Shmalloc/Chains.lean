import CrosEc.Shmalloc.Layout

/-!
# The pointer updates of the allocator, as list operations

`Chains s F A` says that the headers link the chunks `F` into the free chain and the
chunks `A` into the allocated chain.  Every path of `do_release` and `do_acquire` is then
an operation on these lists: a chunk leaves one of them (`takeOut_spec`, `takeWhole_spec`),
is replaced by its tail (`takePart_spec`), or is inserted in order and joined with the
chunks it touches (`giveBack_spec`).
-/

namespace CrosEc
namespace Shmalloc

open Lib

/-- The two chains, and the chunks they link. -/
structure Chains (s : State) (F A : List Chunk) : Prop where
  freeHead : s.freeBufChain = first none F
  free : Seg s.mem none F none
  allocHead : s.alloccedBufChain = first none A
  alloc : Seg s.mem none A none
  nodup : ((F ++ A).map Prod.fst).Nodup

variable {s : State} {F A : List Chunk}

theorem Chains.nodup_free (h : Chains s F A) : (F.map Prod.fst).Nodup :=
  h.nodup.sublist ((List.sublist_append_left F A).map _)

theorem Chains.nodup_alloc (h : Chains s F A) : (A.map Prod.fst).Nodup :=
  h.nodup.sublist ((List.sublist_append_right F A).map _)

/-- A chunk with another one before it is not the first one. -/
theorem first_ne_of_nodup {B C : List Chunk} {b c : Chunk}
    (hnodup : ((B ++ [b] ++ c :: C).map Prod.fst).Nodup) :
    first none (B ++ [b] ++ c :: C) ≠ some c.1 := by
  intro heq
  rw [List.append_assoc, first_append] at heq
  obtain ⟨hbefore, -⟩ := not_mem_of_nodup_middle hnodup
  exact hbefore (mem_of_first ((first_append none B [b]).trans heq))

/-! ## Searching -/

theorem inChain_spec {mem : Addr → ShmBuffer} {cs : List Chunk} {prev : Option Addr} (ptr : Addr)
    (h : Seg mem prev cs none) {fuel : Nat} (hfuel : cs.length ≤ fuel) :
    inChain mem ptr fuel (first none cs) = some (decide (ptr ∈ cs.map Prod.fst)) := by
  induction cs generalizing prev fuel with
  | nil => cases fuel <;> simp [first, inChain]
  | cons c cs ih =>
      obtain ⟨fuel, rfl⟩ := Nat.exists_eq_succ_of_ne_zero (by simp at hfuel; omega : fuel ≠ 0)
      show (if c.1 = ptr then some true else inChain mem ptr fuel (mem c.1).next) = _
      by_cases hc : c.1 = ptr
      · simp [hc]
      · have hnext : (mem c.1).next = first none cs := by rw [h.1]
        rw [if_neg hc, hnext, ih h.2 (by simpa using hfuel)]
        congr 1
        simp [Ne.symm hc]

/-- The walk stops at the last chunk below `ptr`. -/
theorem findSpot_spec {mem : Addr → ShmBuffer} {pre post : List Chunk} {c : Chunk} {ptr : Addr}
    {prev : Option Addr} (h : Seg mem prev (c :: pre ++ post) none)
    (hpre : ∀ d ∈ pre, d.1 < ptr) (hpost : ∀ d ∈ post, ptr ≤ d.1) {fuel : Nat}
    (hfuel : pre.length < fuel) :
    findSpot mem ptr fuel c.1 = last (some c.1) pre := by
  induction pre generalizing c prev fuel with
  | nil =>
      obtain ⟨fuel, rfl⟩ := Nat.exists_eq_succ_of_ne_zero (by simp at hfuel; omega : fuel ≠ 0)
      have hnext : (mem c.1).next = first none post := by rw [h.1]; rfl
      unfold findSpot
      rw [hnext]
      cases post with
      | nil => rfl
      | cons d post =>
          have hge : ¬ d.1 < ptr := Nat.not_lt.mpr (hpost d (by simp))
          simp only [first]
          rw [if_neg hge]
          rfl
  | cons d pre ih =>
      obtain ⟨fuel, rfl⟩ := Nat.exists_eq_succ_of_ne_zero (by omega : fuel ≠ 0)
      have hnext : (mem c.1).next = some d.1 := by rw [h.1]; rfl
      have hrest := ih h.2 (fun e he => hpre e (by simp [he])) (by simpa using hfuel)
      have hlt := hpre d (by simp)
      unfold findSpot
      rw [hnext]
      simp only
      rw [if_pos hlt]
      exact hrest

/-- The search finds a chunk that is large enough, or there is none. -/
theorem bestFit_spec {mem : Addr → ShmBuffer} {cs : List Chunk} {prev : Option Addr}
    (h : Seg mem prev cs none) (need headroom : Nat) (candidate : Option Addr) {fuel : Nat}
    (hfuel : cs.length ≤ fuel) :
    (bestFit mem need fuel (first none cs) headroom candidate = some (headroom, candidate) ∧
        ∀ c ∈ cs, need < c.2 → headroom ≤ c.2 - need) ∨
      ∃ c ∈ cs, need < c.2 ∧
        bestFit mem need fuel (first none cs) headroom candidate =
          some (c.2 - need, some c.1) := by
  induction cs generalizing prev fuel headroom candidate with
  | nil => cases fuel <;> simp [first, bestFit]
  | cons c cs ih =>
      obtain ⟨fuel, rfl⟩ := Nat.exists_eq_succ_of_ne_zero (by simp at hfuel; omega : fuel ≠ 0)
      have hnext : (mem c.1).next = first none cs := by rw [h.1]
      have hval : (mem c.1).val = c.2 := by rw [h.1]
      have hless : cs.length ≤ fuel := by simpa using hfuel
      have hstep : bestFit mem need (fuel + 1) (first none (c :: cs)) headroom candidate =
          if need < c.2 ∧ c.2 - need < headroom then
            bestFit mem need fuel (first none cs) (c.2 - need) (some c.1)
          else bestFit mem need fuel (first none cs) headroom candidate := by
        show (if _ then _ else _) = _
        rw [hnext, hval]
      rw [hstep]
      by_cases hbetter : need < c.2 ∧ c.2 - need < headroom
      · rw [if_pos hbetter]
        right
        rcases ih h.2 (c.2 - need) (some c.1) hless with ⟨hfound, -⟩ | ⟨d, hd, hlt, hfound⟩
        · exact ⟨c, by simp, hbetter.1, hfound⟩
        · exact ⟨d, by simp [hd], hlt, hfound⟩
      · rw [if_neg hbetter]
        rcases ih h.2 headroom candidate hless with ⟨hfound, hall⟩ | ⟨d, hd, hlt, hfound⟩
        · refine Or.inl ⟨hfound, ?_⟩
          intro d hd hlt
          rcases List.mem_cons.mp hd with rfl | hd
          · omega
          · exact hall d hd hlt
        · exact Or.inr ⟨d, by simp [hd], hlt, hfound⟩

/-! ## Taking a chunk out of a chain -/

variable {F₁ F₂ A₁ A₂ : List Chunk} {c : Chunk}

/-- `p->prev_buffer->next_buffer = p->next_buffer;` and the same for the other neighbour,
for a chunk that is not the first one of its chain. -/
theorem storeNext_linkPrev {b : Chunk} (h : Seg s.mem none (A₁ ++ [b] ++ c :: A₂) none)
    (hnodup : ((A₁ ++ [b] ++ c :: A₂).map Prod.fst).Nodup) :
    ∃ s₁, s.storeNext (s.mem c.1).prev (s.mem c.1).next = some s₁ ∧
      s₁.linkPrev (s₁.mem c.1).next (s₁.mem c.1).prev =
        { s with mem := unlinked s.mem (A₁ ++ [b]) A₂ } := by
  have hnode := h.node
  have hlast : last none (A₁ ++ [b]) = some b.1 := last_append none A₁ [b]
  obtain ⟨hpre, -⟩ := not_mem_of_nodup_middle hnodup
  have hkeep : Lib.linkNext s.mem (some b.1) (first none A₂) c.1 = s.mem c.1 := by
    refine linkNext_of_ne ?_
    intro heq
    exact hpre (mem_of_last (hlast.trans heq))
  refine ⟨{ s with mem := Lib.linkNext s.mem (some b.1) (first none A₂) }, ?_, ?_⟩
  · rw [hnode, hlast]
    rfl
  · simp only [State.linkPrev, hkeep, hnode, hlast, unlinked]

/-- **Leaving the allocated chain.** -/
theorem takeOut_spec (h : Chains s F (A₁ ++ c :: A₂)) {fuel : Nat}
    (hfuel : (A₁ ++ c :: A₂).length ≤ fuel) :
    takeOut fuel c.1 s = some (true,
      { s with mem := unlinked s.mem A₁ A₂, alloccedBufChain := first none (A₁ ++ A₂) }) := by
  have hnodup := h.nodup_alloc
  obtain ⟨-, hA₂⟩ := not_mem_of_nodup_middle hnodup
  unfold takeOut
  rcases List.eq_nil_or_concat A₁ with rfl | ⟨B, b, rfl⟩
  · have hnode : s.mem c.1 = ⟨first none A₂, none, c.2⟩ := h.alloc.1
    have hkeep : Lib.linkPrev s.mem (first none A₂) none c.1 = s.mem c.1 :=
      linkPrev_of_ne fun heq => hA₂ (mem_of_first heq)
    have hhead : s.alloccedBufChain = some c.1 := h.allocHead
    rw [if_pos hhead]
    simp only [State.linkPrev, hnode] at hkeep ⊢
    rw [hkeep]
    rfl
  · rw [List.concat_eq_append] at h hnodup hfuel ⊢
    have hne : s.alloccedBufChain ≠ some c.1 := by
      rw [h.allocHead]
      exact first_ne_of_nodup hnodup
    rw [if_neg hne]
    obtain ⟨s₁, hstore, hlink⟩ := storeNext_linkPrev h.alloc hnodup
    -- The chain has a first chunk, and the search starts behind it.
    cases hsplit : B ++ [b] ++ c :: A₂ with
    | nil => simp at hsplit
    | cons d ds =>
        have hhead : s.alloccedBufChain = some d.1 := by rw [h.allocHead, hsplit]; rfl
        have hseg := h.alloc
        rw [hsplit] at hseg
        have hnext : (s.mem d.1).next = first none ds := by rw [hseg.1]
        have hmem : c.1 ∈ ds.map Prod.fst := by
          have hall : c.1 ∈ (d :: ds).map Prod.fst := by rw [← hsplit]; simp
          rcases List.mem_cons.mp hall with hcd | hds
          · exact absurd (hhead.trans (congrArg some hcd.symm)) hne
          · exact hds
        have hlen : ds.length ≤ fuel := by
          rw [hsplit] at hfuel
          simp at hfuel
          omega
        rw [hhead]
        simp only [hnext, inChain_spec c.1 hseg.2 hlen, hmem, decide_true, hstore, hlink]
        congr 3
        simp only [h.allocHead, first_append]
        rfl

theorem Chains.unlinkAlloc (h : Chains s F (A₁ ++ c :: A₂)) :
    Chains { s with mem := unlinked s.mem A₁ A₂, alloccedBufChain := first none (A₁ ++ A₂) }
      F (A₁ ++ A₂) := by
  have hnodup := h.nodup.sublist
    (((List.sublist_cons_self c A₂).append_left A₁).append_left F |>.map Prod.fst)
  obtain ⟨-, hA, hFA⟩ := List.nodup_append.mp (List.map_append ▸ hnodup)
  refine ⟨h.freeHead, ?_, rfl, h.alloc.unlink hA, hnodup⟩
  refine h.free.congr ?_
  intro d hd
  have hnot : d.1 ∉ (A₁ ++ A₂).map Prod.fst :=
    fun hmem => hFA d.1 (List.mem_map_of_mem hd) d.1 hmem rfl
  rw [List.map_append, List.mem_append, not_or] at hnot
  exact unlinked_of_notMem hnot.1 hnot.2

/-- **Leaving the free chain.** -/
theorem takeWhole_spec (h : Chains s (F₁ ++ c :: F₂) A) :
    takeWhole c.1 s = some
      { s with mem := unlinked s.mem F₁ F₂, freeBufChain := first none (F₁ ++ F₂) } := by
  have hnodup := h.nodup_free
  unfold takeWhole
  rcases List.eq_nil_or_concat F₁ with rfl | ⟨B, b, rfl⟩
  · have hnode : s.mem c.1 = ⟨first none F₂, none, c.2⟩ := h.free.1
    have hhead : s.freeBufChain = some c.1 := h.freeHead
    rw [if_pos hhead]
    simp only [State.linkPrev, hnode]
    rfl
  · rw [List.concat_eq_append] at h hnodup ⊢
    have hne : s.freeBufChain ≠ some c.1 := by
      rw [h.freeHead]
      exact first_ne_of_nodup hnodup
    obtain ⟨s₁, hstore, hlink⟩ := storeNext_linkPrev h.free hnodup
    rw [if_neg hne]
    simp only [hstore, hlink, h.freeHead, first_append]
    rfl

theorem Chains.unlinkFree (h : Chains s (F₁ ++ c :: F₂) A) :
    Chains { s with mem := unlinked s.mem F₁ F₂, freeBufChain := first none (F₁ ++ F₂) }
      (F₁ ++ F₂) A := by
  have hnodup := h.nodup.sublist
    (((List.sublist_cons_self c F₂).append_left F₁).append_right A |>.map Prod.fst)
  obtain ⟨hF, -, hFA⟩ := List.nodup_append.mp (List.map_append ▸ hnodup)
  refine ⟨rfl, h.free.unlink hF, h.allocHead, ?_, hnodup⟩
  refine h.alloc.congr ?_
  intro d hd
  have hnot : d.1 ∉ (F₁ ++ F₂).map Prod.fst :=
    fun hmem => hFA d.1 hmem d.1 (List.mem_map_of_mem hd) rfl
  rw [List.map_append, List.mem_append, not_or] at hnot
  exact unlinked_of_notMem hnot.1 hnot.2

/-! ## Bringing a chunk back -/

variable {pre post : List Chunk} {p n : Nat}

/-- A chunk that has been written between `pre` and `rest`. -/
theorem Chains.insertFree {rest : List Chunk} {x y : Option Addr} (h : Chains s F A)
    (hpre : Seg s.mem none pre x) (hrest : Seg s.mem y rest none)
    (hnodup : (((pre ++ c :: rest) ++ A).map Prod.fst).Nodup) :
    Chains { s with mem := inserted s.mem pre c rest, freeBufChain := first none (pre ++ c :: rest) }
      (pre ++ c :: rest) A := by
  obtain ⟨hF, -, hFA⟩ := List.nodup_append.mp (List.map_append ▸ hnodup)
  refine ⟨rfl, hpre.insert hrest hF, h.allocHead, ?_, hnodup⟩
  refine h.alloc.congr ?_
  intro d hd
  exact inserted_of_notMem fun hmem => hFA d.1 hmem d.1 (List.mem_map_of_mem hd) rfl

/-- What the released chunk becomes, and what stands behind it. -/
theorem mergeAbove_eq {prev : Option Addr} (c : Chunk) (h : Seg s.mem prev post none) :
    ∃ k rest, mergeAbove c post = (c.1, k) :: rest ∧ rest.Sublist post ∧
      ∃ y, Seg s.mem y rest none := by
  cases post with
  | nil => exact ⟨c.2, [], rfl, List.Sublist.refl _, prev, h⟩
  | cons d ds =>
      unfold mergeAbove
      by_cases htouch : c.1 + c.2 = d.1
      · exact ⟨c.2 + d.2, ds, if_pos htouch, List.sublist_cons_self d ds, some d.1, h.2⟩
      · exact ⟨c.2, d :: ds, if_neg htouch, List.Sublist.refl _, prev, h⟩

/-- `prependFree` links the released chunk in at the head. -/
theorem prependFree_eq {d : Chunk} {k : Nat} {rest : List Chunk}
    (h : Seg s.mem none (d :: post) none) (hne : p ∉ (d :: post).map Prod.fst)
    (hmerge : mergeAbove (p, n) (d :: post) = (p, k) :: rest) :
    prependFree p d.1 n s =
      { s with mem := inserted s.mem [] (p, k) rest, freeBufChain := some p } := by
  have hnode : s.mem d.1 = ⟨first none post, none, d.2⟩ := h.1
  rw [List.map_cons, List.mem_cons, not_or] at hne
  have hpost : first none post ≠ some p := fun heq => hne.2 (mem_of_first heq)
  have hhead : (some d.1 : Option Addr) ≠ some p := fun heq => hne.1 (Option.some.inj heq).symm
  unfold prependFree
  by_cases htouch : p + n = d.1
  · have hlist : (p, n + d.2) :: post = (p, k) :: rest := by
      rw [← hmerge]
      exact (if_pos htouch).symm
    cases hlist
    simp only [if_pos htouch, hnode, State.store, State.linkPrev, Function.update_self,
      setPrev_linkPrev hpost, setPrev_update, Nat.add_comm d.2 n]
    rfl
  · have hlist : (p, n) :: d :: post = (p, k) :: rest := by
      rw [← hmerge]
      exact (if_neg htouch).symm
    cases hlist
    simp only [if_neg htouch, State.store, State.linkPrev, linkPrev_of_ne hhead,
      Function.update_self, linkPrev_linkPrev, setPrev_linkPrev hhead, setPrev_update]
    rfl

/-- `insertAfter` links it in behind the chunk below it. -/
theorem insertAfter_eq {a : Chunk} {k : Nat} {rest : List Chunk}
    (h : Seg s.mem none (pre ++ [a] ++ post) none) (hne : p ∉ (pre ++ [a] ++ post).map Prod.fst)
    (hmerge : mergeAbove (p, n) post = (p, k) :: rest) :
    insertAfter a.1 p n s = some { s with mem := inserted s.mem (pre ++ [a]) (p, k) rest } := by
  have hnode : (s.mem a.1).next = first none post := by
    rw [List.append_assoc] at h
    exact congrArg Node.next h.node
  have hlast : last none (pre ++ [a]) = some a.1 := last_append none pre [a]
  have hpa : p ≠ a.1 := by
    rintro rfl
    simp at hne
  unfold insertAfter
  cases post with
  | nil =>
      cases hmerge
      simp only [hnode, first, State.store, State.linkPrev, setPrev_update, inserted, hlast,
        setNext_of_ne _ hpa, Function.update_self, reduceCtorEq, if_false]
      rfl
  | cons d ds =>
      have hnext : s.mem d.1 = ⟨first none ds, some a.1, d.2⟩ := by
        rw [h.node, hlast]
      by_cases htouch : p + n = d.1
      · have hlist : (p, n + d.2) :: ds = (p, k) :: rest := by
          rw [← hmerge]
          exact (if_pos htouch).symm
        cases hlist
        simp only [hnode, first, htouch, hnext, State.store, State.linkPrev, setPrev_update,
          inserted, hlast, setNext_of_ne _ hpa, Function.update_self, if_true]
        rfl
      · have hlist : (p, n) :: d :: ds = (p, k) :: rest := by
          rw [← hmerge]
          exact (if_neg htouch).symm
        cases hlist
        have hgap : ¬ (some (p + n) = some d.1) := fun heq => htouch (Option.some.inj heq)
        simp only [hnode, first, if_neg hgap, State.store, State.linkPrev, setPrev_update,
          inserted, hlast, setNext_of_ne _ hpa, Function.update_self]
        rfl

/-- A free chunk grows. -/
theorem Chains.growFree {a : Chunk} (h : Chains s (pre ++ a :: post) A) (v : Nat) :
    Chains { s with mem := setVal s.mem a.1 v } (pre ++ (a.1, v) :: post) A := by
  have hnodup := h.nodup
  obtain ⟨hF, -, hFA⟩ := List.nodup_append.mp (List.map_append ▸ hnodup)
  refine ⟨?_, h.free.setVal hF v, h.allocHead, ?_, ?_⟩
  · rw [h.freeHead, first_append, first_append]
    rfl
  · refine h.alloc.congr ?_
    intro d hd
    refine setVal_of_ne v ?_
    intro heq
    exact hFA a.1 (by simp) d.1 (List.mem_map_of_mem hd) heq.symm
  · simpa using hnodup

/-- `growBelow` makes the chunk below it larger, and takes out the one above if the gap to
it is closed. -/
theorem growBelow_spec {a : Chunk} (h : Chains s (pre ++ a :: post) A) (hend : a.1 + a.2 = p) :
    ∃ s', growBelow a.1 p n s = some s' ∧
      Chains s' (pre ++ mergeAbove (a.1, a.2 + n) post) A := by
  have hnode : s.mem a.1 = ⟨first none post, last none pre, a.2⟩ := h.free.node
  have hgrown := h.growFree (a.2 + n)
  unfold growBelow
  cases post with
  | nil =>
      refine ⟨{ s with mem := setVal s.mem a.1 (a.2 + n) }, ?_, hgrown⟩
      simp only [hnode, setVal_self, first, reduceCtorEq, if_false]
  | cons d ds =>
      by_cases htouch : p + n = d.1
      · have hnodup := h.nodup
        have hda : d.1 ≠ a.1 := by
          intro heq
          simp [heq, List.nodup_append] at hnodup
        have hnext : s.mem d.1 = ⟨first none ds, some a.1, d.2⟩ := by
          have hseg := h.free
          rw [← List.singleton_append, ← List.append_assoc] at hseg
          rw [hseg.node, last_append]
          rfl
        have hall := h.growFree (a.2 + n + d.2)
        rw [← List.singleton_append, ← List.append_assoc] at hall
        -- The chunk below takes over all three sizes, and the one above leaves the chain.
        refine ⟨{ s with
          mem := unlinked (setVal s.mem a.1 (a.2 + n + d.2)) (pre ++ [(a.1, a.2 + n + d.2)]) ds
          freeBufChain := first none (pre ++ [(a.1, a.2 + n + d.2)] ++ ds) }, ?_, ?_⟩
        · have hhead : first none (pre ++ [(a.1, a.2 + n + d.2)] ++ ds) = s.freeBufChain := by
            simp only [h.freeHead, first_append]
            rfl
          have habove : s.mem a.1 = ⟨some d.1, last none pre, a.2⟩ := hnode
          simp only [habove, setVal_self, htouch, if_true, setVal_of_ne _ hda, hnext,
            State.linkPrev, unlinked, hhead, last_append, setNext_self]
          congr 3
          simp [setNext, setVal, Lib.linkNext, last]
        · have hlist : mergeAbove (a.1, a.2 + n) (d :: ds) = (a.1, a.2 + n + d.2) :: ds :=
            if_pos (by simp only; omega)
          have hassoc : pre ++ (a.1, a.2 + n + d.2) :: ds = pre ++ [(a.1, a.2 + n + d.2)] ++ ds := by
            simp
          rw [hlist, hassoc]
          exact hall.unlinkFree
      · refine ⟨{ s with mem := setVal s.mem a.1 (a.2 + n) }, ?_, ?_⟩
        · have hgap : ¬ (some (p + n) = some d.1) := fun heq => htouch (Option.some.inj heq)
          simp only [hnode, setVal_self, first, if_neg hgap]
        · have hlist : mergeAbove (a.1, a.2 + n) (d :: ds) = (a.1, a.2 + n) :: d :: ds :=
            if_neg (by simp only; omega)
          rw [hlist]
          exact hgrown

/-- The released chunk is new in the free chain. -/
theorem nodup_insert {rest : List Chunk} {k : Nat} (h : ((pre ++ post ++ A).map Prod.fst).Nodup)
    (hp : p ∉ (pre ++ post ++ A).map Prod.fst) (hsub : rest.Sublist post) :
    ((pre ++ (p, k) :: rest ++ A).map Prod.fst).Nodup := by
  have hsub' : ((pre ++ rest ++ A).map Prod.fst).Sublist ((pre ++ post ++ A).map Prod.fst) :=
    ((hsub.append_left pre).append_right A).map _
  have hperm : ((pre ++ (p, k) :: rest ++ A).map Prod.fst).Perm
      (p :: (pre ++ rest ++ A).map Prod.fst) := by
    rw [List.append_assoc, List.cons_append, List.append_assoc]
    exact List.perm_middle.map Prod.fst
  rw [hperm.nodup_iff, List.nodup_cons]
  exact ⟨fun hmem => hp (hsub'.subset hmem), h.sublist hsub'⟩

/-- **Entering the free chain**, with chunks on both sides or not, touching or not. -/
theorem giveBack_spec (h : Chains s (pre ++ post) A) (hval : (s.mem p).val = n)
    (hA : p ∉ A.map Prod.fst) (hpre : ∀ d ∈ pre, d.1 < p) (hpost : ∀ d ∈ post, p < d.1)
    {fuel : Nat} (hfuel : pre.length ≤ fuel) :
    ∃ s', giveBack fuel p s = some s' ∧ Chains s' (mergeInto pre (p, n) post) A := by
  have hp : p ∉ (pre ++ post ++ A).map Prod.fst := by
    simp only [List.map_append, List.mem_append, List.mem_map, not_or]
    refine ⟨⟨?_, ?_⟩, by simpa using hA⟩
    · rintro ⟨d, hd, rfl⟩
      exact absurd (hpre d hd) (Nat.lt_irrefl _)
    · rintro ⟨d, hd, rfl⟩
      exact absurd (hpost d hd) (Nat.lt_irrefl _)
  have hpF : p ∉ (pre ++ post).map Prod.fst := by
    rw [List.map_append] at hp
    exact fun hmem => hp (List.mem_append_left _ hmem)
  obtain ⟨hsegPre, hsegPost⟩ := seg_append.mp h.free
  obtain ⟨k, rest, hmerge, hsub, y, hrest⟩ := mergeAbove_eq (p, n) hsegPost
  have hinsert := h.insertFree hsegPre hrest (nodup_insert (k := k) h.nodup hp hsub)
  unfold giveBack
  simp only [hval]
  rcases List.eq_nil_or_concat pre with rfl | ⟨init, a, rfl⟩
  · cases post with
    | nil =>
        have hhead : s.freeBufChain = none := h.freeHead
        rw [hhead]
        cases hmerge
        exact ⟨_, rfl, hinsert⟩
    | cons d ds =>
        have hhead : s.freeBufChain = some d.1 := h.freeHead
        rw [hhead]
        simp only [if_pos (hpost d (by simp))]
        refine ⟨_, rfl, ?_⟩
        rw [prependFree_eq h.free hpF hmerge]
        show Chains _ (mergeAbove (p, n) (d :: ds)) A
        rw [hmerge]
        exact hinsert
  · rw [List.concat_eq_append] at *
    have hlast : last none (init ++ [a]) = some a.1 := last_append none init [a]
    -- The search starts at the first chunk, which is below the released one, and ends at `a`.
    have hspot : ∃ head, s.freeBufChain = some head ∧ ¬ p < head ∧
        findSpot s.mem p fuel head = some a.1 := by
      cases hsplit : init ++ [a] with
      | nil => simp at hsplit
      | cons c cs =>
          rw [hsplit] at h hpre hfuel hlast
          refine ⟨c.1, h.freeHead, Nat.not_lt.mpr (le_of_lt (hpre c (by simp))), ?_⟩
          rw [findSpot_spec h.free (fun d hd => hpre d (by simp [hd]))
            (fun d hd => le_of_lt (hpost d hd)) (by simpa using hfuel)]
          exact hlast
    obtain ⟨head, hhead, hge, hfound⟩ := hspot
    have hnode : s.mem a.1 = ⟨first none post, last none init, a.2⟩ := by
      have hseg := h.free
      rw [List.append_assoc] at hseg
      exact hseg.node
    rw [hhead]
    simp only [if_neg hge, hfound, hnode, mergeInto_concat, mergeInto]
    by_cases hend : a.1 + a.2 = p
    · rw [if_pos hend, if_pos hend]
      refine growBelow_spec ?_ hend
      rw [List.append_assoc] at h
      exact h
    · rw [if_neg hend, if_neg hend, insertAfter_eq h.free hpF hmerge]
      refine ⟨_, rfl, ?_⟩
      have hkeep : first none (init ++ [a] ++ (p, k) :: rest) = s.freeBufChain := by
        simp only [h.freeHead, first_append]
        rfl
      rw [hkeep] at hinsert
      rw [hmerge]
      simpa using hinsert

/-! ## Cutting a chunk -/

/-- **The tail takes the chunk's place** in the free chain. -/
theorem takePart_spec {need : Nat} (h : Chains s (F₁ ++ c :: F₂) A) (hneed : 0 < need)
    (hnew : c.1 + need ∉ (F₁ ++ c :: F₂ ++ A).map Prod.fst) (headroom : Nat) :
    ∃ s', takePart c.1 need headroom s = some s' ∧
      Chains s' (F₁ ++ (c.1 + need, headroom) :: F₂) A ∧ (s'.mem c.1).val = need := by
  have hnodup : ((F₁ ++ F₂ ++ A).map Prod.fst).Nodup :=
    h.nodup.sublist ((((List.sublist_cons_self c F₂).append_left F₁).append_right A).map _)
  have hnew' : c.1 + need ∉ (F₁ ++ F₂ ++ A).map Prod.fst := by
    intro hmem
    refine hnew ((((List.sublist_cons_self c F₂).append_left F₁).append_right A).map _ |>.subset ?_)
    exact hmem
  have hcut := h.growFree need
  obtain ⟨hpre, -, hrest⟩ := seg_append.mp hcut.free
  have hinsert := hcut.insertFree hpre hrest
    (nodup_insert (k := headroom) hnodup hnew' (List.Sublist.refl F₂))
  have hnode : s.mem c.1 = ⟨first none F₂, last none F₁, c.2⟩ := h.free.node
  have hq₂ : first none F₂ ≠ some (c.1 + need) := by
    intro heq
    exact hnew' (by simp [mem_of_first heq])
  refine ⟨_, ?_, hinsert, ?_⟩
  · unfold takePart
    simp only [setVal_self, hnode, State.store, State.linkPrev, Function.update_self,
      linkPrev_of_ne hq₂]
    rcases List.eq_nil_or_concat F₁ with rfl | ⟨B, b, rfl⟩
    · have hhead : s.freeBufChain = some c.1 := h.freeHead
      rw [if_pos hhead]
      rfl
    · rw [List.concat_eq_append] at *
      have hlast : last none (B ++ [b]) = some b.1 := last_append none B [b]
      have hfirst : first none (B ++ [b] ++ (c.1 + need, headroom) :: F₂) = s.freeBufChain := by
        simp only [h.freeHead, first_append]
        rfl
      have hne : s.freeBufChain ≠ some c.1 := by
        rw [h.freeHead]
        exact first_ne_of_nodup h.nodup_free
      rw [if_neg hne]
      simp only [hlast, State.storeNext, inserted, linkPrev_linkNext, hfirst]
      rfl
  · have hnot : c.1 ∉ (F₁ ++ (c.1 + need, headroom) :: F₂).map Prod.fst := by
      obtain ⟨hF₁, hF₂⟩ := not_mem_of_nodup_middle h.nodup_free
      simp only [List.map_append, List.map_cons, List.mem_append, List.mem_cons, not_or]
      exact ⟨hF₁, by omega, hF₂⟩
    simp only [inserted_of_notMem hnot, setVal_self]

/-! ## Entering the allocated chain -/

theorem Chains.insertAlloc (h : Chains s F A) (hnew : p ∉ (F ++ A).map Prod.fst) :
    Chains { s with mem := inserted s.mem [] (p, n) A, alloccedBufChain := some p }
      F ((p, n) :: A) := by
  have hnodup : ((F ++ (p, n) :: A).map Prod.fst).Nodup := by
    have hperm : ((F ++ (p, n) :: A).map Prod.fst).Perm (p :: (F ++ A).map Prod.fst) :=
      List.perm_middle.map Prod.fst
    rw [hperm.nodup_iff, List.nodup_cons]
    exact ⟨hnew, h.nodup⟩
  obtain ⟨-, hA, hFA⟩ := List.nodup_append.mp (List.map_append ▸ hnodup)
  have hempty : Seg s.mem none ([] : List Chunk) none := trivial
  refine ⟨h.freeHead, ?_, rfl, hempty.insert h.alloc hA, hnodup⟩
  refine h.free.congr ?_
  intro d hd
  exact inserted_of_notMem fun hmem => hFA d.1 (List.mem_map_of_mem hd) d.1 hmem rfl

end Shmalloc
end CrosEc
