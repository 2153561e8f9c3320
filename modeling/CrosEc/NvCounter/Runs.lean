import CrosEc.NvCounter.Counter

/-!
# The counter over many calls

Two results about every sequence of calls that starts from two erased pages.  With losses
of power anywhere inside the calls, the values that are returned grow strictly until the
counter is exhausted (`returned_increasing`).  Without any, the calls count by one, in the
32 bits of their return type (`kthReturn_eq`).
-/

namespace CrosEc
namespace NvCounter

open Lib Prog

/-- Two erased pages. -/
def erasedPages : Pages := ⟨erasedPage, erasedPage⟩

/-- What `nvcounter_incr` returns when it can count no more. -/
def exhausted : UInt32 := 0xffffffff

variable {pw : Nat} {s : Pages} {v : Nat}

/-! ## Across losses of power -/

/-- The values that the completed calls return.  Every call has its own supply of power;
after a cut the next call finds the pages as the cut left them. -/
def returned (pw : Nat) : List (Supply Torn) → Pages → List UInt32
  | [], _ => []
  | supply :: supplies, s =>
      match (nvcounterIncr pw).run supply s with
      | .done r s' => r :: returned pw supplies s'
      | .cut s' => returned pw supplies s'

/-- **Step lemma.**  A call from a counter that has reached `v` returns more than `v`, and
has then reached what it returned; a cut loses nothing. -/
theorem nvcounterIncr_reached (h : Reached pw s v) :
    (nvcounterIncr pw).wp
      (fun r s' => (r = exhausted ∧ Reached pw s' v) ∨
        ∃ n, v < n ∧ n ≤ maxCount pw ∧ r = UInt32.ofNat n ∧ Reached pw s' n)
      (fun s' => Reached pw s' v) s := by
  rcases h with ⟨H, L, hready, hv⟩ | ⟨H, hbusy, hv⟩
  · refine wp_mono (nvcounterIncr_ready hready) ?_ (fun s' hs' => hs'.mono hv)
    intro r s' hends
    unfold Ends at hends
    split at hends
    · rename_i hlt
      obtain ⟨hr, H', L', hexact, hcount⟩ := hends
      refine Or.inr ⟨count pw H L + 1, by omega, by omega, hr, ?_⟩
      rw [← hcount]
      exact hexact.ready.reached
    · obtain ⟨hr, hexact⟩ := hends
      refine Or.inl ⟨hr, hexact.ready.reached.mono ?_⟩
      exact le_trans hv (count_le hready.hi_le hready.lo_le)
  · refine wp_mono (nvcounterIncr_busy hbusy) ?_ (fun s' hs' => hs'.mono hv)
    rintro r s' ⟨hr, hexact⟩
    have hcount := count_carry pw H
    have hle : count pw (H + 1) 0 ≤ maxCount pw := count_le hexact.hi_le hexact.lo_le
    refine Or.inr ⟨count pw H (8 * pw) + 1, by omega, by omega, hr, ?_⟩
    rw [← hcount]
    exact hexact.ready.reached

/-- **Run lemma.**  Everything that is returned from now on is larger than what has been
reached, and in order. -/
theorem returned_of_reached (hfits : maxCount pw < 2 ^ 32) (supplies : List (Supply Torn))
    (h : Reached pw s v) :
    (∀ r ∈ returned pw supplies s, r = exhausted ∨ v < r.toNat) ∧
      (returned pw supplies s).Pairwise fun r r' => r = exhausted ∨ r < r' := by
  induction supplies generalizing s v with
  | nil => exact ⟨fun r hr => absurd hr List.not_mem_nil, List.Pairwise.nil⟩
  | cons supply supplies ih =>
      obtain ⟨hdone, hcut⟩ := run_of_wp (nvcounterIncr_reached h) supply
      unfold returned
      cases hrun : (nvcounterIncr pw).run supply s with
      | cut s' => exact ih (hcut s' hrun)
      | done r s' =>
          rcases hdone r s' hrun with ⟨hr, hreached⟩ | ⟨n, hvn, hn, hr, hreached⟩
          · obtain ⟨hmem, hpair⟩ := ih hreached
            constructor
            · intro r' hr'
              rcases List.mem_cons.mp hr' with rfl | htail
              · exact Or.inl hr
              · exact hmem r' htail
            · exact List.Pairwise.cons (fun _ _ => Or.inl hr) hpair
          · have hval : r.toNat = n := by
              rw [hr, UInt32.toNat_ofNat', Nat.mod_eq_of_lt (by omega)]
            obtain ⟨hmem, hpair⟩ := ih hreached
            constructor
            · intro r' hr'
              rcases List.mem_cons.mp hr' with rfl | htail
              · exact Or.inr (by omega)
              · rcases hmem r' htail with hex | hlt
                · exact Or.inl hex
                · exact Or.inr (by omega)
            · refine List.Pairwise.cons ?_ hpair
              intro r' hr'
              rcases hmem r' hr' with hex | hlt
              · -- `-1` is the largest value; only another `-1` is not below it.
                by_cases hself : r = exhausted
                · exact Or.inl hself
                · right
                  have hne : r.toNat ≠ exhausted.toNat := fun heq =>
                    hself (UInt32.toNat_inj.mp heq)
                  have hlt := r.toNat_lt
                  rw [hex, UInt32.lt_iff_toNat_lt]
                  unfold exhausted at hne ⊢
                  simp only [UInt32.reduceToNat] at hne ⊢
                  omega
              · right
                rw [UInt32.lt_iff_toNat_lt, hval]
                exact hlt

theorem reached_erasedPages (pw : Nat) : Reached pw erasedPages 0 := by
  have hexact : Exact pw erasedPages 0 0 :=
    ⟨struck_erasedPage pw, struck_erasedPage pw, Nat.zero_le _, Nat.zero_le _⟩
  exact hexact.ready.reached.mono (Nat.zero_le _)

/-- **The counter never repeats a value.**  Whatever is cut, the values returned grow
strictly until the counter returns `-1`, for every page whose largest count fits the
return type. -/
theorem returned_increasing (pw : Nat) (hfits : maxCount pw < 2 ^ 32)
    (supplies : List (Supply Torn)) :
    (returned pw supplies erasedPages).Pairwise fun r r' => r = exhausted ∨ r < r' :=
  (returned_of_reached hfits supplies (reached_erasedPages pw)).2

/-- A supply of power that is cut inside the first operation and leaves `keep`. -/
def cutFirst (keep : Word) : Supply Torn := some (0, ⟨keep, erasedPage⟩)

/-- The page size of Cr50, and calls of which the second and the fourth are cut. -/
theorem returned_increasing_cr50 :
    (returned 512 [none, cutFirst 0x04000000, none, cutFirst 0, none] erasedPages).Pairwise
      fun r r' => r = exhausted ∨ r < r' :=
  returned_increasing 512 (by decide) _

/-! ## Without a loss of power -/

/-- One call with power to its end. -/
def call (pw : Nat) (s : Pages) : Option (UInt32 × Pages) :=
  match (nvcounterIncr pw).run none s with
  | .done r s' => some (r, s')
  | .cut _ => none

/-- The pages after `k` calls. -/
def pagesAfter (pw : Nat) : Nat → Pages
  | 0 => erasedPages
  | k + 1 =>
      match call pw (pagesAfter pw k) with
      | some r => r.2
      | none => pagesAfter pw k

/-- What the `k`-th call returns; the first one is call number 1. -/
def kthReturn (pw k : Nat) : Option UInt32 :=
  (call pw (pagesAfter pw (k - 1))).map Prod.fst

/-- The words of both pages agree. -/
def SamePages (pw : Nat) (s s' : Pages) : Prop :=
  ∀ i < pw, s.lo i = s'.lo i ∧ s.hi i = s'.hi i

theorem Exact.samePages {H L : Nat} {s' : Pages} (h : Exact pw s H L) (h' : Exact pw s' H L) :
    SamePages pw s s' := by
  intro i hi
  constructor
  · rw [h.lo i hi, h'.lo i hi]
  · rw [h.hi i hi, h'.hi i hi]

/-- A call from clean pages completes. -/
theorem call_exact {H L : Nat} (h : Exact pw s H L) :
    ∃ r s', call pw s = some (r, s') ∧ Ends pw (count pw H L) r s' := by
  obtain ⟨r, s', hrun⟩ := run_none (nvcounterIncr pw) s
  have hends := (run_of_wp (nvcounterIncr_ready h.ready) none).1 r s' hrun
  refine ⟨r, s', ?_, hends⟩
  rw [call, hrun]

/-- After `k` calls the pages hold the count `k`, or the largest one. -/
theorem pagesAfter_exact (pw k : Nat) :
    ∃ H L, Exact pw (pagesAfter pw k) H L ∧ count pw H L = min k (maxCount pw) := by
  induction k with
  | zero =>
      refine ⟨0, 0, ?_, by simp [count]⟩
      exact ⟨struck_erasedPage pw, struck_erasedPage pw, Nat.zero_le _, Nat.zero_le _⟩
  | succ k ih =>
      obtain ⟨H, L, hexact, hcount⟩ := ih
      obtain ⟨r, s', hcall, hends⟩ := call_exact hexact
      have hafter : pagesAfter pw (k + 1) = s' := by
        rw [pagesAfter, hcall]
      rw [hafter]
      unfold Ends at hends
      rw [hcount] at hends
      split at hends
      · obtain ⟨-, H', L', hexact', hcount'⟩ := hends
        exact ⟨H', L', hexact', by lia⟩
      · refine ⟨4 * pw, 8 * pw, hends.2, ?_⟩
        show maxCount pw = _
        lia

/-- The `k`-th call completes, from the count that the calls before it have reached. -/
theorem kthReturn_ends (pw : Nat) {k : Nat} (hpos : 0 < k) :
    ∃ r, kthReturn pw k = some r ∧ Ends pw (min (k - 1) (maxCount pw)) r (pagesAfter pw k) := by
  obtain ⟨H, L, hexact, hcount⟩ := pagesAfter_exact pw (k - 1)
  obtain ⟨r, s', hcall, hends⟩ := call_exact hexact
  rw [hcount] at hends
  refine ⟨r, ?_, ?_⟩
  · rw [kthReturn, hcall]
    rfl
  · obtain ⟨j, rfl⟩ : ∃ j, k = j + 1 := ⟨k - 1, by omega⟩
    rw [Nat.add_sub_cancel] at hcall
    rw [pagesAfter, hcall]
    exact hends

/-- **The uninterrupted counter counts by one.**  The `k`-th call returns `k`, in the 32
bits of its return type, up to the largest count; every later call returns `-1` and leaves
both pages unchanged. -/
theorem kthReturn_eq (pw k : Nat) :
    (1 ≤ k → k ≤ maxCount pw → kthReturn pw k = some (UInt32.ofNat k)) ∧
      (maxCount pw < k → kthReturn pw k = some exhausted ∧
        SamePages pw (pagesAfter pw (k - 1)) (pagesAfter pw k)) := by
  constructor
  · intro hpos hle
    obtain ⟨r, hreturn, hends⟩ := kthReturn_ends pw hpos
    rw [Ends, if_pos (by omega)] at hends
    rw [hreturn, hends.1]
    congr 2
    omega
  · intro hlt
    obtain ⟨r, hreturn, hends⟩ := kthReturn_ends pw (by omega : 0 < k)
    rw [Ends, if_neg (by omega)] at hends
    refine ⟨by rw [hreturn, hends.1]; rfl, ?_⟩
    -- Both are pages of the largest count, which is reached in one way only.
    obtain ⟨H, L, hexact, hcount⟩ := pagesAfter_exact pw (k - 1)
    have hend : H = 4 * pw ∧ L = 8 * pw := by
      by_contra hne
      have hless := (count_lt_iff hexact.hi_le hexact.lo_le).mpr hne
      omega
    rw [hend.1, hend.2] at hexact
    exact hexact.samePages hends.2

/-- On pages of 11586 words the call number `2 ^ 32` comes before the last count and
returns zero. -/
theorem kthReturn_wraps :
    1 ≤ 2 ^ 32 ∧ 2 ^ 32 ≤ maxCount 11586 ∧ kthReturn 11586 (2 ^ 32) = some 0 := by
  have hle : 2 ^ 32 ≤ maxCount 11586 := by decide
  obtain ⟨r, hreturn, hends⟩ := kthReturn_ends 11586 (by decide : 0 < 2 ^ 32)
  rw [Ends, if_pos (by omega)] at hends
  have hlast : min (2 ^ 32 - 1) (maxCount 11586) + 1 = 2 ^ 32 := by omega
  refine ⟨by decide, hle, ?_⟩
  rw [hreturn, hends.1, hlast]
  rfl

end NvCounter
end CrosEc
