import Mathlib.Tactic

/-!
# Doubly linked lists in memory

A node of a doubly linked list lies at an address and holds the addresses of its two
neighbours and a value.  `Seg mem prev cs next` says that the nodes `cs`, pairs of address
and value, are linked to each other in this order, the first of them back to `prev` and
the last of them on to `next`.

Code edits such a list by single assignments to `next` and `prev` fields.  The rules are
those of a segment that is cut (`seg_append`), of a write elsewhere (`Seg.congr`), and of
a write to the field at either end (`Seg.linkNext`, `Seg.linkPrev`).
-/

namespace CrosEc
namespace Lib

structure Node (α β : Type) where
  next : Option α
  prev : Option α
  val : β

variable {α β : Type}

/-- The address of the first node, or `next` if there is none. -/
def first (next : Option α) : List (α × β) → Option α
  | [] => next
  | c :: _ => some c.1

/-- The address of the last node, or `prev` if there is none. -/
def last (prev : Option α) : List (α × β) → Option α
  | [] => prev
  | c :: cs => last (some c.1) cs

/-- The nodes `cs` form a segment between `prev` and `next`. -/
def Seg (mem : α → Node α β) (prev : Option α) : List (α × β) → Option α → Prop
  | [], _ => True
  | c :: cs, next => mem c.1 = ⟨first next cs, prev, c.2⟩ ∧ Seg mem (some c.1) cs next

variable {mem mem' : α → Node α β} {prev next : Option α} {cs ds : List (α × β)}

@[simp] theorem first_append (next : Option α) (cs ds : List (α × β)) :
    first next (cs ++ ds) = first (first next ds) cs := by
  cases cs <;> rfl

@[simp] theorem last_append (prev : Option α) (cs ds : List (α × β)) :
    last prev (cs ++ ds) = last (last prev cs) ds := by
  induction cs generalizing prev with
  | nil => rfl
  | cons c cs ih => exact ih (some c.1)

theorem seg_append :
    Seg mem prev (cs ++ ds) next ↔
      Seg mem prev cs (first next ds) ∧ Seg mem (last prev cs) ds next := by
  induction cs generalizing prev with
  | nil => exact ⟨fun h => ⟨trivial, h⟩, fun h => h.2⟩
  | cons c cs ih =>
      have hfirst := first_append next cs ds
      simp only [List.cons_append, Seg, last, ih, hfirst, and_assoc]

/-- The node in the middle of a segment. -/
theorem Seg.node {c : α × β} (h : Seg mem prev (cs ++ c :: ds) next) :
    mem c.1 = ⟨first next ds, last prev cs, c.2⟩ :=
  (seg_append.mp h).2.1

/-- Writes to other nodes do not matter. -/
theorem Seg.congr (h : Seg mem prev cs next) (heq : ∀ c ∈ cs, mem' c.1 = mem c.1) :
    Seg mem' prev cs next := by
  induction cs generalizing prev with
  | nil => trivial
  | cons c cs ih =>
      refine ⟨?_, ih h.2 fun d hd => heq d (by simp [hd])⟩
      rw [heq c (by simp)]
      exact h.1

/-- The first node is one of the list. -/
theorem mem_of_first {a : α} (h : first none cs = some a) : a ∈ cs.map Prod.fst := by
  cases cs with
  | nil => cases h
  | cons c cs =>
      cases h
      exact List.mem_map_of_mem (List.mem_cons_self ..)

/-- So is the last one. -/
theorem mem_of_last {a : α} (h : last none cs = some a) : a ∈ cs.map Prod.fst := by
  rcases List.eq_nil_or_concat cs with rfl | ⟨ds, c, rfl⟩
  · cases h
  · rw [List.concat_eq_append, last_append] at h
    cases h
    simp

/-- A node is listed once. -/
theorem not_mem_of_nodup_middle {c : α × β} (h : ((cs ++ c :: ds).map Prod.fst).Nodup) :
    c.1 ∉ cs.map Prod.fst ∧ c.1 ∉ ds.map Prod.fst := by
  rw [List.map_append, List.map_cons] at h
  have hnot := (List.nodup_middle.mp h).notMem
  exact ⟨fun hmem => hnot (List.mem_append_left _ hmem),
    fun hmem => hnot (List.mem_append_right _ hmem)⟩

section Links

variable [DecidableEq α]

/-- `a->next = v` -/
def setNext (mem : α → Node α β) (a : α) (v : Option α) : α → Node α β :=
  Function.update mem a { mem a with next := v }

/-- `a->prev = v` -/
def setPrev (mem : α → Node α β) (a : α) (v : Option α) : α → Node α β :=
  Function.update mem a { mem a with prev := v }

/-- `a->val = v` -/
def setVal (mem : α → Node α β) (a : α) (v : β) : α → Node α β :=
  Function.update mem a { mem a with val := v }

/-- `if (x) x->next = v;` -/
def linkNext (mem : α → Node α β) (x v : Option α) : α → Node α β :=
  match x with
  | none => mem
  | some a => setNext mem a v

/-- `if (x) x->prev = v;` -/
def linkPrev (mem : α → Node α β) (x v : Option α) : α → Node α β :=
  match x with
  | none => mem
  | some a => setPrev mem a v

theorem setNext_of_ne {a b : α} (v : Option α) (h : b ≠ a) : setNext mem a v b = mem b :=
  Function.update_of_ne h _ _

theorem setPrev_of_ne {a b : α} (v : Option α) (h : b ≠ a) : setPrev mem a v b = mem b :=
  Function.update_of_ne h _ _

theorem setVal_of_ne {a b : α} (v : β) (h : b ≠ a) : setVal mem a v b = mem b :=
  Function.update_of_ne h _ _

@[simp] theorem setNext_self (a : α) (v : Option α) :
    setNext mem a v a = { mem a with next := v } := Function.update_self _ _ _

@[simp] theorem setPrev_self (a : α) (v : Option α) :
    setPrev mem a v a = { mem a with prev := v } := Function.update_self _ _ _

@[simp] theorem setVal_self (a : α) (v : β) :
    setVal mem a v a = { mem a with val := v } := Function.update_self _ _ _

theorem linkNext_of_ne {x v : Option α} {b : α} (h : x ≠ some b) : linkNext mem x v b = mem b := by
  cases x with
  | none => rfl
  | some a => exact setNext_of_ne v fun hba => h (by rw [hba])

theorem linkPrev_of_ne {x v : Option α} {b : α} (h : x ≠ some b) : linkPrev mem x v b = mem b := by
  cases x with
  | none => rfl
  | some a => exact setPrev_of_ne v fun hba => h (by rw [hba])

/-- The last node is linked on to another one. -/
theorem Seg.linkNext (h : Seg mem prev cs next) (hnodup : (cs.map Prod.fst).Nodup)
    (v : Option α) : Seg (linkNext mem (last none cs) v) prev cs v := by
  rcases List.eq_nil_or_concat cs with rfl | ⟨ds, c, rfl⟩
  · trivial
  · rw [List.concat_eq_append] at h hnodup ⊢
    have hlast : last none (ds ++ [c]) = some c.1 := last_append none ds [c]
    rw [hlast]
    obtain ⟨hds, hc, -⟩ := seg_append.mp h
    rw [List.map_append, List.nodup_append] at hnodup
    refine seg_append.mpr ⟨?_, ?_, trivial⟩
    · refine Seg.congr hds ?_
      intro d hd
      refine linkNext_of_ne ?_
      intro heq
      exact hnodup.2.2 d.1 (List.mem_map_of_mem hd) c.1 (by simp) (Option.some.inj heq).symm
    · show setNext mem c.1 v c.1 = _
      rw [setNext_self, hc]
      rfl

/-- The first node is linked back to another one. -/
theorem Seg.linkPrev (h : Seg mem prev cs next) (hnodup : (cs.map Prod.fst).Nodup)
    (v : Option α) : Seg (linkPrev mem (first none cs) v) v cs next := by
  cases cs with
  | nil => trivial
  | cons c cs =>
      rw [List.map_cons, List.nodup_cons] at hnodup
      refine ⟨?_, ?_⟩
      · show setPrev mem c.1 v c.1 = _
        rw [setPrev_self, h.1]
      · refine Seg.congr h.2 ?_
        intro d hd
        refine linkPrev_of_ne ?_
        intro heq
        have hcd : c.1 = d.1 := Option.some.inj heq
        rw [hcd] at hnodup
        exact hnodup.1 (List.mem_map_of_mem hd)

/-- The two kinds of link are different fields. -/
theorem linkPrev_linkNext (mem : α → Node α β) (x v y w : Option α) :
    Lib.linkPrev (Lib.linkNext mem x v) y w = Lib.linkNext (Lib.linkPrev mem y w) x v := by
  cases x with
  | none => rfl
  | some a =>
      cases y with
      | none => rfl
      | some b =>
          funext d
          by_cases hda : d = a
          · by_cases hdb : d = b
            · subst hda
              subst hdb
              simp [Lib.linkPrev, Lib.linkNext]
            · subst hda
              simp [Lib.linkPrev, Lib.linkNext, setPrev_of_ne _ hdb]
          · by_cases hdb : d = b
            · subst hdb
              simp [Lib.linkPrev, Lib.linkNext, setNext_of_ne _ hda]
            · simp [Lib.linkPrev, Lib.linkNext, setPrev_of_ne _ hdb, setNext_of_ne _ hda]

/-- The later of two assignments to one field counts. -/
theorem linkPrev_linkPrev (mem : α → Node α β) (x v w : Option α) :
    Lib.linkPrev (Lib.linkPrev mem x v) x w = Lib.linkPrev mem x w := by
  cases x with
  | none => rfl
  | some a => simp [Lib.linkPrev, setPrev]

/-- Assignments at two nodes. -/
theorem setPrev_linkPrev {x : Option α} {a : α} (h : x ≠ some a) (v w : Option α) :
    setPrev (Lib.linkPrev mem x v) a w = Lib.linkPrev (setPrev mem a w) x v := by
  cases x with
  | none => rfl
  | some b =>
      have hne : b ≠ a := fun heq => h (congrArg some heq)
      simp [Lib.linkPrev, setPrev, Function.update_of_ne hne, Function.update_of_ne hne.symm,
        Function.update_comm hne]

/-- A field of a node that has just been written. -/
@[simp] theorem setPrev_update (mem : α → Node α β) (a : α) (c : Node α β) (v : Option α) :
    setPrev (Function.update mem a c) a v = Function.update mem a { c with prev := v } := by
  simp [setPrev]

/-- **Splicing.**  The nodes `mid` are linked in between `cs` and `ds`, in place of whatever
stood there, by one assignment at either end. -/
theorem Seg.splice {mid : List (α × β)} {x y : Option α} (hcs : Seg mem none cs x)
    (hmid : Seg mem (last none cs) mid (first none ds)) (hds : Seg mem y ds none)
    (hnodup : ((cs ++ mid ++ ds).map Prod.fst).Nodup) :
    Seg (Lib.linkPrev (Lib.linkNext mem (last none cs) (first (first none ds) mid))
      (first none ds) (last (last none cs) mid)) none (cs ++ mid ++ ds) none := by
  simp only [List.map_append, List.nodup_append, List.mem_append] at hnodup
  obtain ⟨⟨hncs, hnmid, hcm⟩, hnds, hcd⟩ := hnodup
  have hlast : ∀ d : α × β, d.1 ∉ cs.map Prod.fst → last none cs ≠ some d.1 :=
    fun d hd heq => hd (mem_of_last heq)
  have hfirst : ∀ d : α × β, d.1 ∉ ds.map Prod.fst → first none ds ≠ some d.1 :=
    fun d hd heq => hd (mem_of_first heq)
  refine seg_append.mpr ⟨seg_append.mpr ⟨?_, ?_⟩, ?_⟩
  · -- The nodes in front see the new link on; the other assignment is behind them.
    refine Seg.congr (hcs.linkNext hncs _) ?_
    intro d hd
    refine linkPrev_of_ne (hfirst d ?_)
    intro hmem
    exact hcd d.1 (Or.inl (List.mem_map_of_mem hd)) d.1 hmem rfl
  · refine Seg.congr hmid ?_
    intro d hd
    rw [linkPrev_of_ne, linkNext_of_ne]
    · refine hlast d ?_
      intro hmem
      exact hcm d.1 hmem d.1 (List.mem_map_of_mem hd) rfl
    · refine hfirst d ?_
      intro hmem
      exact hcd d.1 (Or.inr (List.mem_map_of_mem hd)) d.1 hmem rfl
  · rw [last_append, linkPrev_linkNext]
    refine Seg.congr (hds.linkPrev hnds _) ?_
    intro d hd
    refine linkNext_of_ne (hlast d ?_)
    intro hmem
    exact hcd d.1 (Or.inl hmem) d.1 (List.mem_map_of_mem hd) rfl

/-- The node between `cs` and `ds` is taken out: its neighbours are linked to each
other. -/
def unlinked (mem : α → Node α β) (cs ds : List (α × β)) : α → Node α β :=
  Lib.linkPrev (Lib.linkNext mem (last none cs) (first none ds)) (first none ds) (last none cs)

/-- A node is written and linked in between `cs` and `ds`. -/
def inserted (mem : α → Node α β) (cs : List (α × β)) (c : α × β) (ds : List (α × β)) :
    α → Node α β :=
  Lib.linkPrev (Lib.linkNext (Function.update mem c.1 ⟨first none ds, last none cs, c.2⟩)
    (last none cs) (some c.1)) (first none ds) (some c.1)

theorem Seg.unlink {c : α × β} (h : Seg mem none (cs ++ c :: ds) none)
    (hnodup : ((cs ++ ds).map Prod.fst).Nodup) :
    Seg (unlinked mem cs ds) none (cs ++ ds) none := by
  obtain ⟨hcs, -, hds⟩ := seg_append.mp h
  have hmid : Seg mem (last none cs) [] (first none ds) := trivial
  simpa [first, last, unlinked] using hcs.splice hmid hds (by simpa using hnodup)

theorem Seg.insert {c : α × β} {x y : Option α} (hcs : Seg mem none cs x)
    (hds : Seg mem y ds none) (hnodup : ((cs ++ c :: ds).map Prod.fst).Nodup) :
    Seg (inserted mem cs c ds) none (cs ++ c :: ds) none := by
  obtain ⟨hccs, hcds⟩ := not_mem_of_nodup_middle hnodup
  have hkeep : ∀ d : α × β, d.1 ≠ c.1 →
      Function.update mem c.1 ⟨first none ds, last none cs, c.2⟩ d.1 = mem d.1 :=
    fun d hd => Function.update_of_ne hd _ _
  have hcs' := hcs.congr fun d hd => hkeep d fun heq => hccs (heq ▸ List.mem_map_of_mem hd)
  have hds' := hds.congr fun d hd => hkeep d fun heq => hcds (heq ▸ List.mem_map_of_mem hd)
  have hmid : Seg (Function.update mem c.1 ⟨first none ds, last none cs, c.2⟩)
      (last none cs) [c] (first none ds) := ⟨Function.update_self _ _ _, trivial⟩
  simpa [first, last, inserted] using hcs'.splice hmid hds' (by simpa using hnodup)

/-- Taking a node out leaves the nodes of other lists alone, -/
theorem unlinked_of_notMem {a : α} (hcs : a ∉ cs.map Prod.fst) (hds : a ∉ ds.map Prod.fst) :
    unlinked mem cs ds a = mem a := by
  unfold unlinked
  rw [linkPrev_of_ne, linkNext_of_ne]
  · exact fun heq => hcs (mem_of_last heq)
  · exact fun heq => hds (mem_of_first heq)

/-- and so does linking one in. -/
theorem inserted_of_notMem {a : α} {c : α × β} (ha : a ∉ (cs ++ c :: ds).map Prod.fst) :
    inserted mem cs c ds a = mem a := by
  simp only [List.map_append, List.map_cons, List.mem_append, List.mem_cons, not_or] at ha
  unfold inserted
  rw [linkPrev_of_ne, linkNext_of_ne, Function.update_of_ne ha.2.1]
  · exact fun heq => ha.1 (mem_of_last heq)
  · exact fun heq => ha.2.2 (mem_of_first heq)

/-- A node gets another value. -/
theorem Seg.setVal {a : α} {v : β} (h : Seg mem prev (cs ++ (a, v) :: ds) next)
    (hnodup : ((cs ++ (a, v) :: ds).map Prod.fst).Nodup) (w : β) :
    Seg (setVal mem a w) prev (cs ++ (a, w) :: ds) next := by
  obtain ⟨hcs, ha, hds⟩ := seg_append.mp h
  simp only [List.map_append, List.map_cons, List.nodup_append, List.nodup_cons,
    List.mem_cons] at hnodup
  obtain ⟨-, ⟨hads, -⟩, hcsa⟩ := hnodup
  refine seg_append.mpr ⟨?_, ?_, ?_⟩
  · refine Seg.congr hcs ?_
    intro d hd
    exact setVal_of_ne w (hcsa d.1 (List.mem_map_of_mem hd) a (Or.inl rfl))
  · rw [setVal_self, ha]
  · refine Seg.congr hds ?_
    intro d hd
    refine setVal_of_ne w ?_
    rintro rfl
    exact hads (List.mem_map_of_mem hd)

end Links

end Lib
end CrosEc
