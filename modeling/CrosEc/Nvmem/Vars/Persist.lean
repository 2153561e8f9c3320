import CrosEc.Nvmem.Vars.Access

/-!
# Storing variables, and failing to

A component stores its variables by one `setvar` for each and a `writevars` at the
end.  The edits are made in the RAM copy, which stays when a later step fails; so does
what they changed.  `persist_fails` says exactly which failures can be told from the
variables afterwards.
-/

namespace CrosEc
namespace Vars

open Lib

variable {cfg : Config}

/-! ## `setvar` on a well-formed store -/

/-- A tuple that does not fit is not written, but the old one with its key is gone. -/
theorem setvarBuf_overflow {size : Nat} {buf : Bytes} {ts : List Tuple} {t : Tuple}
    (hroom : Room size ts (removeTuple size buf t.key)) (hts : Fits size ts)
    (hfits : ¬ Fits size (ts ++ [t])) :
    setvarBuf size buf t.key (.outside t.val) = (ecErrorOverflow, encodeStore size ts) := by
  obtain ⟨⟨rest, hbuf⟩, hlen, hindex⟩ := hroom
  have hpos := t.val_pos
  unfold Fits at hfits
  simp only [encodeTuples_append, encodeTuples_cons, encodeTuples_nil, List.append_nil,
    List.length_append, t.length_encode] at hfits
  unfold setvarBuf
  rw [if_neg (by simp only [Value.length]; omega), if_pos (by simp only [Value.length]; omega),
    hindex, hbuf, markEnd_encodeTuples rest hts (by rw [← hbuf]; exact hlen)]

theorem fits_dropKey {size : Nat} {key : Bytes} {ts : List Tuple} (h : Fits size ts) :
    Fits size (dropKey key ts) := by
  have hle : (encodeTuples (dropKey key ts)).length ≤ (encodeTuples ts).length :=
    (List.Sublist.flatMap List.filter_sublist Tuple.encode).length_le
  unfold Fits at h ⊢
  omega

theorem nodup_dropKey {key : Bytes} {ts : List Tuple} (h : (ts.map Tuple.key).Nodup) :
    ((dropKey key ts).map Tuple.key).Nodup :=
  (List.filter_sublist.map Tuple.key).nodup h

/-- The tuples after a successful `setvar`. -/
def put (t : Tuple) (ts : List Tuple) : List Tuple := dropKey t.key ts ++ [t]

theorem nodup_put {t : Tuple} {ts : List Tuple} (h : (ts.map Tuple.key).Nodup) :
    ((put t ts).map Tuple.key).Nodup := by
  unfold put
  rw [List.map_append, List.nodup_append]
  refine ⟨nodup_dropKey h, by simp, ?_⟩
  intro key hkey key' hkey'
  obtain ⟨u, hu, rfl⟩ := List.mem_map.mp hkey
  have hne : u.key ≠ t.key := by simpa using (List.mem_filter.mp hu).2
  have hsame : key' = t.key := by simpa using hkey'
  rw [hsame]
  exact hne

theorem valueOf_dropKey_self {key : Bytes} {ts : List Tuple} : valueOf (dropKey key ts) key = none := by
  apply valueOf_absent
  intro u hu
  simpa using (List.mem_filter.mp hu).2

theorem valueOf_dropKey_ne {key key' : Bytes} {ts : List Tuple} (hne : key' ≠ key) :
    valueOf (dropKey key ts) key' = valueOf ts key' := by
  unfold valueOf dropKey
  rw [List.find?_filter]
  congr 2
  funext u
  by_cases hu : u.key = key'
  · simp [hu, hne]
  · simp [hu]

theorem valueOf_put_self {t : Tuple} {ts : List Tuple} : valueOf (put t ts) t.key = some t.val := by
  apply valueOf_append_cons
  intro u hu
  simpa using (List.mem_filter.mp hu).2

theorem valueOf_put_ne {t : Tuple} {ts : List Tuple} {key : Bytes} (hne : key ≠ t.key) :
    valueOf (put t ts) key = valueOf ts key := by
  rw [put, valueOf_append_single hne, valueOf_dropKey_ne hne]

section Set

variable {n : Nat} {io : Io n} {s : State n} {ts : List Tuple} {t : Tuple}

/-- **`setvar` on a well-formed store**, once there is a RAM copy: the tuple moves to the
end with its new value, or it is dropped for want of room. -/
theorem setvar_holds (hholds : Holds cfg s ts) (hflags : t.flags = 0)
    (hcopy : (getLocalCopy cfg io s).1 = ecSuccess) :
    (setvar cfg io t.key (.outside t.val) s).2.rbuf.isSome = true ∧
      (setvar cfg io t.key (.outside t.val) s).2.nvmem = (getLocalCopy cfg io s).2.nvmem ∧
      ((Fits cfg.size (put t ts) ∧ (setvar cfg io t.key (.outside t.val) s).1 = ecSuccess ∧
          Holds cfg (setvar cfg io t.key (.outside t.val) s).2 (put t ts)) ∨
        (¬ Fits cfg.size (put t ts) ∧
          (setvar cfg io t.key (.outside t.val) s).1 = ecErrorOverflow ∧
          Holds cfg (setvar cfg io t.key (.outside t.val) s).2 (dropKey t.key ts))) := by
  have hsmall : cfg.size < 2 ^ 32 := by have := size_lt cfg; omega
  obtain ⟨hbuf, -⟩ := hholds.copy hcopy
  have hroom := removeTuple_room hsmall hholds.fits t.key_pos hholds.nodup
  have hset : setvar cfg io t.key (.outside t.val) s =
      ((setvarBuf cfg.size (encodeStore cfg.size ts) t.key (.outside t.val)).1,
        { (getLocalCopy cfg io s).2 with
          rbuf := some
            (setvarBuf cfg.size (encodeStore cfg.size ts) t.key (.outside t.val)).2 }) := by
    have hkey := t.key_pos
    unfold setvar
    rw [if_neg (by omega)]
    simp [hcopy, hbuf]
  rw [hset]
  refine ⟨rfl, rfl, ?_⟩
  by_cases hfits : Fits cfg.size (put t ts)
  · rw [setvarBuf_outside hroom hflags hfits]
    exact Or.inl ⟨hfits, rfl, rfl, hfits, nodup_put hholds.nodup⟩
  · rw [setvarBuf_overflow hroom (fits_dropKey hholds.fits) hfits]
    exact Or.inr ⟨hfits, rfl, rfl, fits_dropKey hholds.fits, nodup_dropKey hholds.nodup⟩

end Set

/-! ## A sequence of writes -/

section Persist

variable (cfg) {n : Nat} (P : Nvmem.Platform n) (io : Io n)

/-- One `setvar` after the other, then `writevars`; the first error ends it. -/
def persist : List Tuple → State n → Code × State n
  | [], s => writevars cfg P io s
  | t :: rest, s =>
      let set := setvar cfg io t.key (.outside t.val) s
      if set.1 ≠ ecSuccess then set else persist rest set.2

/-- A failure at some point leaves all values as they were: what could be written was
stored already, and what did not fit was not stored. -/
def Unnoticed (size : Nat) : List Tuple → List Tuple → Prop
  | _, [] => True
  | ts, t :: rest =>
      if Fits size (put t ts) then valueOf ts t.key = some t.val ∧ Unnoticed size (put t ts) rest
      else valueOf ts t.key = none

end Persist

/-- A `writevars` that fails leaves the RAM copy. -/
theorem writevars_rbuf {n : Nat} {P : Nvmem.Platform n} {io : Io n} {s : State n}
    (h : (writevars cfg P io s).1 ≠ ecSuccess) : (writevars cfg P io s).2.rbuf = s.rbuf := by
  unfold writevars at h ⊢
  split
  · rfl
  · rename_i buf hbuf
    rw [hbuf] at h
    simp only at h ⊢
    split
    · rfl
    · rename_i hwritten
      rw [if_neg hwritten] at h
      split
      · rfl
      · rename_i hcommitted
        rw [if_neg hcommitted] at h
        exact absurd rfl h

theorem Holds.writevars_failed {n : Nat} {P : Nvmem.Platform n} {io : Io n} {s : State n}
    {ts : List Tuple} (hholds : Holds cfg s ts) (h : (writevars cfg P io s).1 ≠ ecSuccess) :
    Holds cfg (writevars cfg P io s).2 ts := by
  have hrbuf := writevars_rbuf h
  cases hbuf : s.rbuf with
  | none =>
      rw [writevars, hbuf] at h
      exact absurd rfl h
  | some buf =>
      refine ⟨?_, hholds.fits, hholds.nodup⟩
      have hcontents := hholds.contents_eq
      rw [contents, hbuf] at hcontents
      rw [contents, hrbuf, hbuf]
      exact hcontents

/-- Without memory for a RAM copy nothing is touched. -/
theorem persist_noCopy {n : Nat} {P : Nvmem.Platform n} {io : Io n} {s : State n} {t : Tuple}
    {rest : List Tuple} (hbuf : s.rbuf = none) (hacquire : io.acquire ≠ ecSuccess) :
    persist cfg P io (t :: rest) s = (io.acquire, s) := by
  have hkey := t.key_pos
  have hset : setvar cfg io t.key (.outside t.val) s = (io.acquire, s) := by
    unfold setvar
    rw [if_neg (by omega)]
    simp [getLocalCopy, hbuf, hacquire]
  rw [persist, hset]
  simp [hacquire]

/-- **What a successful sequence of writes leaves**: the store with its tuples put in. -/
theorem persist_holds {P : Nvmem.Platform cfg.bufferSize} {io : Io cfg.bufferSize}
    {s : State cfg.bufferSize} {ts writes : List Tuple} (hP : P.Involutive)
    (hholds : Holds cfg s ts) (hcopy : (getLocalCopy cfg io s).1 = ecSuccess)
    (hflags : ∀ t ∈ writes, t.flags = 0) (hok : (persist cfg P io writes s).1 = ecSuccess) :
    Holds cfg (persist cfg P io writes s).2 (writes.foldl (fun ts t => put t ts) ts) := by
  induction writes generalizing s ts with
  | nil =>
      rw [persist] at hok ⊢
      cases hbuf : s.rbuf with
      | none =>
          rw [writevars, hbuf]
          exact hholds
      | some buf =>
          have hcontents := hholds.contents_eq
          rw [contents, hbuf] at hcontents
          exact writevars_holds hP hholds.fits hholds.nodup (hbuf.trans (congrArg some hcontents)) hok
  | cons t rest ih =>
      obtain ⟨hsome, -, hcases⟩ := setvar_holds hholds (hflags t (List.mem_cons_self ..)) hcopy
      obtain ⟨buf, hbuf⟩ := Option.isSome_iff_exists.mp hsome
      rcases hcases with ⟨-, hset, hholds'⟩ | ⟨-, hover, -⟩
      · rw [persist, if_neg (not_not.mpr hset)] at hok ⊢
        exact ih hholds' (by rw [getLocalCopy_of_some hbuf])
          (fun u hu => hflags u (List.mem_cons_of_mem _ hu)) hok
      · have herr : (setvar cfg io t.key (.outside t.val) s).1 ≠ ecSuccess := by
          rw [hover]
          decide
        rw [persist, if_pos herr] at hok
        exact absurd hok herr

/-- **What a failed sequence of writes leaves.**  A well-formed store, in which other
variables have their values; those of the sequence keep theirs exactly if the failure
goes unnoticed. -/
theorem persist_fails {n : Nat} {P : Nvmem.Platform n} {io : Io n} {s : State n}
    {ts writes : List Tuple} (hholds : Holds cfg s ts)
    (hcopy : (getLocalCopy cfg io s).1 = ecSuccess) (hflags : ∀ t ∈ writes, t.flags = 0)
    (hkeys : (writes.map Tuple.key).Nodup)
    (hfail : (persist cfg P io writes s).1 ≠ ecSuccess) :
    ∃ ts', Holds cfg (persist cfg P io writes s).2 ts' ∧
      (∀ key, (∀ t ∈ writes, key ≠ t.key) → valueOf ts' key = valueOf ts key) ∧
      ((∀ t ∈ writes, valueOf ts' t.key = valueOf ts t.key) ↔ Unnoticed cfg.size ts writes) := by
  induction writes generalizing s ts with
  | nil =>
      exact ⟨ts, hholds.writevars_failed hfail, fun _ _ => rfl, by simp [Unnoticed]⟩
  | cons t rest ih =>
      obtain ⟨hsome, -, hcases⟩ := setvar_holds hholds (hflags t (by simp)) hcopy
      obtain ⟨hnotin, hkeys⟩ := List.nodup_cons.mp hkeys
      have hne : ∀ u ∈ rest, u.key ≠ t.key := fun u hu heq =>
        hnotin (heq ▸ List.mem_map_of_mem hu)
      rcases hcases with ⟨hfits, hok, hset⟩ | ⟨hfits, hover, hset⟩
      · -- The variable is in the RAM copy now, whatever happens next.
        rw [persist, if_neg (not_not.mpr hok)] at hfail ⊢
        obtain ⟨buf, hbuf⟩ := Option.isSome_iff_exists.mp hsome
        obtain ⟨ts', hholds', hothers, hiff⟩ := ih hset (by rw [getLocalCopy_of_some hbuf])
          (fun u hu => hflags u (by simp [hu])) hkeys hfail
        have hself : valueOf ts' t.key = some t.val := by
          rw [hothers t.key fun u hu => (hne u hu).symm, valueOf_put_self]
        refine ⟨ts', hholds', ?_, ?_⟩
        · intro key hkey
          rw [hothers key fun u hu => hkey u (by simp [hu]), valueOf_put_ne (hkey t (by simp))]
        · rw [Unnoticed, if_pos hfits, ← hiff, List.forall_mem_cons, hself]
          refine and_congr eq_comm (forall₂_congr fun u hu => ?_)
          rw [valueOf_put_ne (hne u hu)]
      · have herr : (setvar cfg io t.key (.outside t.val) s).1 ≠ ecSuccess := by
          rw [hover]
          decide
        rw [persist, if_pos herr]
        refine ⟨dropKey t.key ts, hset, ?_, ?_⟩
        · intro key hkey
          exact valueOf_dropKey_ne (hkey t (by simp))
        · rw [Unnoticed, if_neg hfits, List.forall_mem_cons, valueOf_dropKey_self]
          constructor
          · exact fun h => h.1.symm
          · exact fun h => ⟨h.symm, fun u hu => valueOf_dropKey_ne (hne u hu)⟩

end Vars
end CrosEc
