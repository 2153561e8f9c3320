import CrosEc.NvCounter.Model

/-!
# What one call of `nvcounter_incr` does

Each function of the counter gets its specification: what it returns and leaves when it
ends, and what a loss of power inside it leaves.  They come together in
`nvcounterIncr_ready` and `nvcounterIncr_busy`, one for each of the two kinds of state
that a call can start from:

* `Ready`: the erase of LOW is not under way, and the count is `H * (8 * pw + 1) + L`;
* `Busy`: the guard strike of HIGH has been made, and LOW may hold anything.
-/

namespace CrosEc
namespace NvCounter

open Lib Prog

variable {pw : Nat} {s : Pages} {p : Page}

/-! ## Reads and writes -/

@[simp] theorem Pages.set_get (s : Pages) (p : Page) : s.set p (s.get p) = s := by
  cases p <;> rfl

theorem wp_write {i : Nat} {v : Word} {post : Unit → Pages → Prop} {crash : Pages → Prop} :
    (write p i v).wp post crash s ↔
      (∀ torn : Torn, crash (s.strike p i (v ||| torn.keep))) ∧ post () (s.strike p i v) :=
  wp_step _ _ _

theorem wp_erase {post : Unit → Pages → Prop} {crash : Pages → Prop} :
    (erase p).wp post crash s ↔
      (∀ torn : Torn, crash (s.set p torn.page)) ∧ post () (s.set p erasedPage) :=
  wp_step _ _ _

section Words

variable {page : Nat → Word} {c i : Nat}

/-- Clearing more bits of the strike under way does not change how the page reads. -/
theorem ReadsAs.update (h : ReadsAs pw page c) (hi : i < pw) {w : Word}
    (hlow : Within (encode (c - 8 * i)) w) (hhigh : Within w (page i)) :
    ReadsAs pw (Function.update page i w) c := by
  constructor
  · intro j hj
    by_cases hji : j = i
    · subst hji
      rw [Function.update_self]
      exact ⟨hlow, hhigh.trans (h.1 j hj).2⟩
    · rw [Function.update_of_ne hji]
      exact h.1 j hj
  · intro hpos hpred
    apply h.2 hpos
    intro j hj
    by_cases hji : j = i
    · subst hji
      have hword := hpred j hj
      rw [Function.update_self] at hword
      rw [hword] at hhigh
      exact (h.1 j hj).2.antisymm hhigh
    · have hword := hpred j hj
      rwa [Function.update_of_ne hji] at hword

/-- `_decode` returns the level of the word and affirms it. -/
theorem decode_spec (h : ReadsAs pw (s.get p) c) (hi : i < pw) :
    (decode p i).wp
      (fun r s' => r = min 8 (c - 8 * i) ∧
        s' = s.set p (Function.update (s.get p) i (encode (c - 8 * i))))
      (fun s' => ∃ page, s' = s.set p page ∧ ReadsAs pw page c) s := by
  unfold decode
  rw [wp_bind, wp_get]
  rcases h.decodes hi with ⟨hword, hclean⟩ | ⟨hgt, hle, hnone, hinter⟩
  · rw [hclean]
    refine ⟨rfl, ?_⟩
    rw [← hword, Function.update_eq_self, Pages.set_get]
  · rw [hnone, hinter]
    simp only
    rw [wp_bind, wp_write]
    have hlow := (h.1 i hi).1
    constructor
    · intro torn
      exact ⟨_, rfl, h.update hi (within_torn hlow (Within.refl _)) (within_and_left _ _)⟩
    · refine ⟨?_, ?_⟩
      · rw [Nat.min_eq_right (by omega)]
      · have hand : s.get p i &&& encode (c - 8 * i) = encode (c - 8 * i) := by
          rw [BitVec.and_comm]
          exact hlow
        rw [Pages.strike, hand]

/-- A page with its next word struck once more. -/
theorem Struck.strike (h : Struck pw page c) (hi : c / 8 = i) :
    Struck pw (Function.update page i (encode (c - 8 * i + 1))) (c + 1) := by
  intro j hj
  by_cases hji : j = i
  · subst hji
    rw [Function.update_self]
    congr 1
    lia
  · rw [Function.update_of_ne hji, h j hj]
    rcases Nat.lt_or_gt_of_ne hji with hlt | hgt
    · rw [encode_of_le (by lia), encode_of_le (by lia)]
    · congr 1
      lia

/-- The same strike, cut. -/
theorem Struck.striking_update (h : Struck pw page c) (hi : c / 8 = i) {w : Word}
    (hlow : Within (encode (c - 8 * i + 1)) w) (hhigh : Within w (encode (c - 8 * i))) :
    Striking pw (Function.update page i w) (c + 1) := by
  intro j hj
  by_cases hji : j = i
  · subst hji
    rw [Function.update_self]
    have h₁ : c + 1 - 8 * j = c - 8 * j + 1 := by lia
    have h₂ : c + 1 - 1 - 8 * j = c - 8 * j := by lia
    rw [h₁, h₂]
    exact ⟨hlow, hhigh⟩
  · have hstruck := h.strike hi j hj
    rw [Function.update_of_ne hji] at hstruck
    rw [Function.update_of_ne hji, ← hstruck]
    refine ⟨Within.refl _, ?_⟩
    rw [h j hj]
    exact Within.refl _

/-- The write of the next strike: one strike, or, if it is cut, one strike or none. -/
theorem write_strike (h : Struck pw (s.get p) c) (hlt : c < 8 * pw) (hi : c / 8 = i) :
    (write p i (encode (c - 8 * i + 1))).wp
      (fun _ s' => ∃ page, s' = s.set p page ∧ Struck pw page (c + 1))
      (fun s' => ∃ page, s' = s.set p page ∧ (ReadsAs pw page c ∨ ReadsAs pw page (c + 1))) s := by
  have hword := h i (by omega)
  have hlow := encode_succ_within (c - 8 * i)
  rw [wp_write]
  constructor
  · intro torn
    refine ⟨_, rfl, ?_⟩
    rw [hword]
    exact (h.striking_update hi (within_torn hlow (Within.refl _))
      (within_and_left _ _)).readsAs (by omega)
  · refine ⟨_, rfl, ?_⟩
    have hand : s.get p i &&& encode (c - 8 * i + 1) = encode (c - 8 * i + 1) := by
      rw [hword, BitVec.and_comm]
      exact hlow
    rw [hand]
    exact h.strike hi

/-- `_inc` on the word that is next makes this strike. -/
theorem inc_spec (h : Struck pw (s.get p) c) (hlt : c < 8 * pw) (hi : c / 8 = i) :
    (inc p i).wp
      (fun _ s' => ∃ page, s' = s.set p page ∧ Struck pw page (c + 1))
      (fun s' => ∃ page, s' = s.set p page ∧ (ReadsAs pw page c ∨ ReadsAs pw page (c + 1))) s := by
  have hipw : i < pw := by lia
  unfold inc
  rw [wp_bind]
  refine wp_mono (decode_spec (h.readsAs (by lia)) hipw) ?_ ?_
  · rintro r s' ⟨rfl, rfl⟩
    rw [← h i hipw, Function.update_eq_self, Pages.set_get, Nat.min_eq_right (by lia),
      if_neg (by lia)]
    exact write_strike h hlt hi
  · rintro s' ⟨page, rfl, hreads⟩
    exact ⟨page, rfl, Or.inl hreads⟩

end Words

/-! ## The loops -/

theorem lowSpan_eq (pw : Nat) : lowSpan pw = UInt32.ofNat (8 * pw + 1) := by
  simp [lowSpan]

/-- A page whose words up to and including the last struck one are affirmed. -/
theorem ReadsAs.struck {page : Nat → Word} {c k : Nat} (h : ReadsAs pw page c)
    (hbefore : ∀ j < k, j < pw → page j = encode (c - 8 * j)) (hk : c ≤ 8 * k) :
    Struck pw page c := by
  intro j hj
  by_cases hjk : j < k
  · exact hbefore j hjk hj
  · exact h.1.word_eq hj (Or.inl (by omega))

/-- After a word has been affirmed, so are all up to it. -/
theorem affirmed_update {page : Nat → Word} {c k : Nat}
    (hbefore : ∀ j < k, j < pw → page j = encode (c - 8 * j)) :
    ∀ j < k + 1, j < pw →
      Function.update page k (encode (c - 8 * k)) j = encode (c - 8 * j) := by
  intro j hj hjpw
  by_cases hjk : j = k
  · rw [hjk, Function.update_self]
  · rw [Function.update_of_ne hjk]
    exact hbefore j (by omega) hjpw

/-- The affirmed page reads as before. -/
theorem ReadsAs.affirm {page : Nat → Word} {c k : Nat} (h : ReadsAs pw page c) (hk : k < pw) :
    ReadsAs pw (Function.update page k (encode (c - 8 * k))) c :=
  h.update hk (Within.refl _) (h.1 k hk).1

/-- The loop over HIGH, when no erase is under way: it stops behind the full words. -/
theorem scanHigh_even {n hi H : Nat} (hsum : hi + n = pw) (hdone : 4 * hi ≤ H)
    (hH : H ≤ 4 * pw) (hreads : ReadsAs pw s.hi (2 * H))
    (hbefore : ∀ j < hi, j < pw → s.hi j = encode (2 * H - 8 * j)) :
    (scanHigh pw n hi (UInt32.ofNat (4 * hi))).wp
      (fun r s' => r = .stopped (H / 4) (UInt32.ofNat H) ∧ s'.lo = s.lo ∧
        Struck pw s'.hi (2 * H))
      (fun s' => s'.lo = s.lo ∧ ReadsAs pw s'.hi (2 * H)) s := by
  induction n generalizing hi s with
  | zero =>
      have hend : H = 4 * hi := by lia
      refine ⟨?_, rfl, hreads.struck hbefore (by lia)⟩
      rw [hend, Nat.mul_div_cancel_left _ (by lia)]
  | succ n ih =>
      have hipw : hi < pw := by lia
      unfold scanHigh
      rw [wp_bind]
      refine wp_mono (decode_spec hreads hipw) ?_ ?_
      · rintro r s' ⟨rfl, rfl⟩
        have hbefore' := affirmed_update hbefore
        have hreads' := hreads.affirm hipw
        have hcnt : UInt32.ofNat (4 * hi) + UInt32.ofNat (min 8 (2 * H - 8 * hi) / 2) =
            UInt32.ofNat (4 * hi + min 8 (2 * H - 8 * hi) / 2) := (UInt32.ofNat_add _ _).symm
        rw [if_neg (by unfold incorrectFlashCnt; lia), if_neg (by lia), hcnt]
        by_cases hfull : 4 * (hi + 1) ≤ H
        · rw [if_neg (by lia)]
          have hnext := ih (s := s.set .hi (Function.update (s.get .hi) hi
            (encode (2 * H - 8 * hi)))) (by lia) hfull hreads' hbefore'
          have hfour : 4 * hi + min 8 (2 * H - 8 * hi) / 2 = 4 * (hi + 1) := by lia
          rw [hfour]
          exact hnext
        · rw [if_pos (by lia)]
          refine ⟨?_, rfl, hreads'.struck hbefore' (by lia)⟩
          congr 2 <;> lia
      · rintro s' ⟨page, rfl, hpage⟩
        exact ⟨rfl, hpage⟩

/-- The loop over HIGH, when an erase is under way: it is made again, and the call ends. -/
theorem scanHigh_odd {n hi H : Nat} (hsum : hi + n = pw) (hdone : 4 * hi ≤ H)
    (hH : H < 4 * pw) (hreads : ReadsAs pw s.hi (2 * H + 1))
    (hbefore : ∀ j < hi, j < pw → s.hi j = encode (2 * H + 1 - 8 * j)) :
    (scanHigh pw n hi (UInt32.ofNat (4 * hi))).wp
      (fun r s' => r = .returned (UInt32.ofNat (H + 1) * lowSpan pw) ∧ s'.lo = erasedPage ∧
        Struck pw s'.hi (2 * (H + 1)))
      (fun s' => ReadsAs pw s'.hi (2 * H + 1) ∨
        (s'.lo = erasedPage ∧ ReadsAs pw s'.hi (2 * (H + 1)))) s := by
  induction n generalizing hi s with
  | zero => lia
  | succ n ih =>
      have hipw : hi < pw := by lia
      unfold scanHigh
      rw [wp_bind]
      refine wp_mono (decode_spec hreads hipw) ?_ ?_
      · rintro r s' ⟨rfl, rfl⟩
        have hbefore' := affirmed_update hbefore
        have hreads' := hreads.affirm hipw
        rw [if_neg (by unfold incorrectFlashCnt; lia)]
        by_cases hfull : 4 * (hi + 1) ≤ H
        · rw [if_neg (by lia), if_neg (by lia)]
          have hnext := ih (s := s.set .hi (Function.update (s.get .hi) hi
            (encode (2 * H + 1 - 8 * hi)))) (by lia) hfull hreads' hbefore'
          have hcnt : UInt32.ofNat (4 * hi) + UInt32.ofNat (min 8 (2 * H + 1 - 8 * hi) / 2) =
              UInt32.ofNat (4 * (hi + 1)) := by
            rw [← UInt32.ofNat_add]
            congr 1
            lia
          rw [hcnt]
          exact hnext
        · -- The guard strike is in this word: LOW is erased and HIGH struck once more.
          have hstruck := hreads'.struck hbefore' (by lia)
          have hword : (2 * H + 1) / 8 = hi := by lia
          have hlevel : min 8 (2 * H + 1 - 8 * hi) = 2 * H + 1 - 8 * hi := by lia
          rw [if_pos (by lia), hlevel, wp_bind, wp_erase]
          constructor
          · intro torn
            exact Or.inl hreads'
          · rw [wp_bind]
            refine wp_mono (write_strike (p := .hi) hstruck (by lia) hword) ?_ ?_
            · rintro _ s' ⟨page, rfl, hpage⟩
              refine ⟨?_, rfl, hpage⟩
              congr 2
              rw [← UInt32.ofNat_add]
              congr 1
              lia
            · rintro s' ⟨page, rfl, hold | hnew⟩
              · exact Or.inl hold
              · exact Or.inr ⟨rfl, hnew⟩
      · rintro s' ⟨page, rfl, hpage⟩
        exact Or.inl hpage

/-- The loop over LOW stops behind the full words, with their strikes added. -/
theorem scanLow_from {n lo L : Nat} {b : UInt32} (hsum : lo + n = pw) (hdone : 8 * lo ≤ L)
    (hL : L ≤ 8 * pw) (hreads : ReadsAs pw s.lo L)
    (hbefore : ∀ j < lo, j < pw → s.lo j = encode (L - 8 * j)) :
    (scanLow n lo (b + UInt32.ofNat (8 * lo))).wp
      (fun r s' => r = .stopped (L / 8) (b + UInt32.ofNat L) ∧ s'.hi = s.hi ∧
        Struck pw s'.lo L)
      (fun s' => s'.hi = s.hi ∧ ReadsAs pw s'.lo L) s := by
  induction n generalizing lo s with
  | zero =>
      have hend : L = 8 * lo := by lia
      refine ⟨?_, rfl, hreads.struck hbefore (by lia)⟩
      rw [hend, Nat.mul_div_cancel_left _ (by lia)]
  | succ n ih =>
      have hlopw : lo < pw := by lia
      unfold scanLow
      rw [wp_bind]
      refine wp_mono (decode_spec hreads hlopw) ?_ ?_
      · rintro r s' ⟨rfl, rfl⟩
        have hbefore' := affirmed_update hbefore
        have hreads' := hreads.affirm hlopw
        have hcnt : b + UInt32.ofNat (8 * lo) + UInt32.ofNat (min 8 (L - 8 * lo)) =
            b + UInt32.ofNat (8 * lo + min 8 (L - 8 * lo)) := by
          rw [UInt32.ofNat_add, UInt32.add_assoc]
        rw [if_neg (by unfold incorrectFlashCnt; lia), hcnt]
        by_cases hfull : 8 * (lo + 1) ≤ L
        · rw [if_neg (by lia)]
          have hnext := ih (s := s.set .lo (Function.update (s.get .lo) lo
            (encode (L - 8 * lo)))) (by lia) hfull hreads' hbefore'
          have height : 8 * lo + min 8 (L - 8 * lo) = 8 * (lo + 1) := by lia
          rw [height]
          exact hnext
        · rw [if_pos (by lia)]
          refine ⟨?_, rfl, hreads'.struck hbefore' (by lia)⟩
          congr 2
          · lia
          · congr 1
            lia
      · rintro s' ⟨page, rfl, hpage⟩
        exact ⟨rfl, hpage⟩

/-- The whole loop over LOW. -/
theorem scanLow_spec {L : Nat} (base : UInt32) (hL : L ≤ 8 * pw) (hreads : ReadsAs pw s.lo L) :
    (scanLow pw 0 base).wp
      (fun r s' => r = .stopped (L / 8) (base + UInt32.ofNat L) ∧ s'.hi = s.hi ∧
        Struck pw s'.lo L)
      (fun s' => s'.hi = s.hi ∧ ReadsAs pw s'.lo L) s := by
  have hscan := scanLow_from (b := base) (Nat.zero_add pw) (Nat.zero_le L) hL hreads
    (fun j hj => absurd hj (by omega))
  have hstart : base + UInt32.ofNat (8 * 0) = base := by simp
  rwa [hstart] at hscan

/-! ## The states between calls -/

/-- The count of `H` full LOW pages and `L` strikes. -/
def count (pw H L : Nat) : Nat := H * (8 * pw + 1) + L

/-- The largest count: both pages are struck out. -/
def maxCount (pw : Nat) : Nat := 4 * pw * (8 * pw + 1) + 8 * pw

/-- No erase is under way, and the pages read as this count. -/
structure Ready (pw : Nat) (s : Pages) (H L : Nat) : Prop where
  hi : ReadsAs pw s.hi (2 * H)
  lo : ReadsAs pw s.lo L
  hi_le : H ≤ 4 * pw
  lo_le : L ≤ 8 * pw

/-- The guard strike has been made; LOW may hold anything. -/
structure Busy (pw : Nat) (s : Pages) (H : Nat) : Prop where
  hi : ReadsAs pw s.hi (2 * H + 1)
  hi_lt : H < 4 * pw

/-- Both pages are in a clean state of this count. -/
structure Exact (pw : Nat) (s : Pages) (H L : Nat) : Prop where
  hi : Struck pw s.hi (2 * H)
  lo : Struck pw s.lo L
  hi_le : H ≤ 4 * pw
  lo_le : L ≤ 8 * pw

theorem Exact.ready {H L : Nat} (h : Exact pw s H L) : Ready pw s H L where
  hi := h.hi.readsAs (by have := h.hi_le; omega)
  lo := h.lo.readsAs h.lo_le
  hi_le := h.hi_le
  lo_le := h.lo_le

/-- The counter has got at least as far as `v`: whatever a call returns now is larger. -/
def Reached (pw : Nat) (s : Pages) (v : Nat) : Prop :=
  (∃ H L, Ready pw s H L ∧ v ≤ count pw H L) ∨
    ∃ H, Busy pw s H ∧ v ≤ count pw H (8 * pw)

theorem Ready.reached {H L : Nat} (h : Ready pw s H L) : Reached pw s (count pw H L) :=
  Or.inl ⟨H, L, h, le_refl _⟩

theorem Busy.reached {H : Nat} (h : Busy pw s H) : Reached pw s (count pw H (8 * pw)) :=
  Or.inr ⟨H, h, le_refl _⟩

theorem Reached.mono {v w : Nat} (h : Reached pw s v) (hle : w ≤ v) : Reached pw s w := by
  rcases h with ⟨H, L, hready, hv⟩ | ⟨H, hbusy, hv⟩
  · exact Or.inl ⟨H, L, hready, by omega⟩
  · exact Or.inr ⟨H, hbusy, by omega⟩

/-- One more than a full LOW page is one more count of HIGH. -/
theorem count_carry (pw H : Nat) : count pw (H + 1) 0 = count pw H (8 * pw) + 1 := by
  unfold count
  ring

theorem count_le {H L : Nat} (hH : H ≤ 4 * pw) (hL : L ≤ 8 * pw) : count pw H L ≤ maxCount pw := by
  have hmul : H * (8 * pw + 1) ≤ 4 * pw * (8 * pw + 1) := Nat.mul_le_mul_right _ hH
  unfold count maxCount
  omega

/-- Before the last count, LOW or HIGH has a strike left. -/
theorem count_lt_iff {H L : Nat} (hH : H ≤ 4 * pw) (hL : L ≤ 8 * pw) :
    count pw H L < maxCount pw ↔ ¬ (H = 4 * pw ∧ L = 8 * pw) := by
  constructor
  · rintro hlt ⟨rfl, rfl⟩
    exact absurd hlt (lt_irrefl _)
  · intro hne
    rcases Nat.lt_or_ge H (4 * pw) with hlt | hge
    · have hmul : (H + 1) * (8 * pw + 1) ≤ 4 * pw * (8 * pw + 1) := Nat.mul_le_mul_right _ hlt
      unfold count maxCount
      rw [Nat.succ_mul] at hmul
      lia
    · have heq : H = 4 * pw := by lia
      rw [heq]
      unfold count maxCount
      lia

/-! ## The whole call -/

/-- Writing zero over a word that is struck out changes nothing. -/
theorem strike_of_zero {i : Nat} (h : s.get p i = 0) (v : Word) : s.strike p i v = s := by
  have hzero : s.get p i &&& v = s.get p i := by
    rw [h]
    exact BitVec.zero_and
  rw [Pages.strike, hzero, Function.update_eq_self, Pages.set_get]

/-- LOW is struck out: the guard strike, the erase, and the strike of HIGH that counts. -/
theorem advance_carry {H : Nat} {cnt : UInt32} (h : Exact pw s H (8 * pw)) (hlt : H < 4 * pw) :
    (advance pw (H / 4) pw cnt).wp
      (fun r s' => r = cnt + 1 ∧ Exact pw s' (H + 1) 0)
      (fun s' => Reached pw s' (count pw H (8 * pw))) s := by
  have hlast : s.get .lo (pw - 1) = 0 := by
    have hword : s.lo (pw - 1) = encode (8 * pw - 8 * (pw - 1)) := h.lo (pw - 1) (by lia)
    rw [encode_of_le (by lia)] at hword
    exact hword
  unfold advance
  rw [if_neg (by lia), if_pos rfl, wp_bind, wp_write]
  constructor
  · intro torn
    rw [strike_of_zero hlast]
    exact h.ready.reached
  · rw [strike_of_zero hlast, wp_bind]
    refine wp_mono (inc_spec (p := .hi) h.hi (by lia) (by lia)) ?_ ?_
    · rintro _ s' ⟨page, rfl, hguard⟩
      have hbusy : ReadsAs pw page (2 * H + 1) := hguard.readsAs (by lia)
      rw [wp_bind, wp_erase]
      constructor
      · intro torn
        exact Busy.reached ⟨hbusy, hlt⟩
      · rw [wp_bind]
        refine wp_mono (inc_spec (p := .hi) hguard (by lia) (by lia)) ?_ ?_
        · rintro _ s' ⟨page', rfl, hdone⟩
          exact ⟨rfl, hdone, struck_erasedPage pw, by lia, by lia⟩
        · rintro s' ⟨page', rfl, hold | hnew⟩
          · exact Busy.reached ⟨hold, hlt⟩
          · have hready : Ready pw (((s.set .hi page).set .lo erasedPage).set .hi page')
                (H + 1) 0 :=
              ⟨hnew, (struck_erasedPage pw).readsAs (by lia), by lia, by lia⟩
            refine hready.reached.mono ?_
            rw [count_carry]
            lia
    · rintro s' ⟨page, rfl, hold | hnew⟩
      · have hready : Ready pw (s.set .hi page) H (8 * pw) :=
          ⟨hold, h.ready.lo, h.hi_le, h.lo_le⟩
        exact hready.reached
      · exact Busy.reached ⟨hnew, hlt⟩

/-- LOW has a strike left. -/
theorem advance_strike {H L hi : Nat} {cnt : UInt32} (h : Exact pw s H L) (hlt : L < 8 * pw) :
    (advance pw hi (L / 8) cnt).wp
      (fun r s' => r = cnt + 1 ∧ Exact pw s' H (L + 1))
      (fun s' => Reached pw s' (count pw H L)) s := by
  unfold advance
  rw [if_neg (by omega), if_neg (by omega), wp_bind]
  refine wp_mono (inc_spec (p := .lo) h.lo hlt rfl) ?_ ?_
  · rintro _ s' ⟨page, rfl, hpage⟩
    exact ⟨rfl, h.hi, hpage, h.hi_le, by omega⟩
  · rintro s' ⟨page, rfl, hold | hnew⟩
    · have hready : Ready pw (s.set .lo page) H L := ⟨h.ready.hi, hold, h.hi_le, h.lo_le⟩
      exact hready.reached
    · have hready : Ready pw (s.set .lo page) H (L + 1) :=
        ⟨h.ready.hi, hnew, h.hi_le, by omega⟩
      exact hready.reached.mono (by unfold count; omega)

/-- What a call returns and leaves when it ends: the next count, or `-1` and the same
count when there is none. -/
def Ends (pw n : Nat) (r : UInt32) (s : Pages) : Prop :=
  if n < maxCount pw then
    r = UInt32.ofNat (n + 1) ∧ ∃ H L, Exact pw s H L ∧ count pw H L = n + 1
  else r = 0xffffffff ∧ Exact pw s (4 * pw) (8 * pw)

/-- The end of the call, once both pages are affirmed. -/
theorem advance_spec {H L : Nat} (h : Exact pw s H L) :
    (advance pw (H / 4) (L / 8) (UInt32.ofNat (count pw H L))).wp (Ends pw (count pw H L))
      (fun s' => Reached pw s' (count pw H L)) s := by
  have hhi := h.hi_le
  have hlo := h.lo_le
  by_cases hlast : H = 4 * pw ∧ L = 8 * pw
  · obtain ⟨rfl, rfl⟩ := hlast
    have hmax : ¬ count pw (4 * pw) (8 * pw) < maxCount pw := by simp [count, maxCount]
    unfold advance
    rw [if_pos (by lia), wp_pure, Ends, if_neg hmax]
    exact ⟨rfl, h⟩
  · have hmore := (count_lt_iff hhi hlo).mpr hlast
    have hone : UInt32.ofNat (count pw H L) + 1 = UInt32.ofNat (count pw H L + 1) := by
      rw [UInt32.ofNat_add]
      rfl
    unfold Ends
    simp only [if_pos hmore]
    by_cases hfull : L = 8 * pw
    · subst hfull
      have hindex : 8 * pw / 8 = pw := by lia
      rw [hindex]
      refine wp_mono (advance_carry h (by lia)) ?_ (fun s' hs' => hs')
      rintro r s' ⟨rfl, hnew⟩
      exact ⟨hone, H + 1, 0, hnew, count_carry pw H⟩
    · refine wp_mono (advance_strike h (by lia)) ?_ (fun s' hs' => hs')
      rintro r s' ⟨rfl, hnew⟩
      exact ⟨hone, H, L + 1, hnew, rfl⟩

/-- **A call that finds no erase under way.** -/
theorem nvcounterIncr_ready {H L : Nat} (h : Ready pw s H L) :
    (nvcounterIncr pw).wp (Ends pw (count pw H L))
      (fun s' => Reached pw s' (count pw H L)) s := by
  have hhi := h.hi_le
  have hlo := h.lo_le
  have hscan := scanHigh_even (Nat.zero_add pw) (Nat.zero_le H) hhi h.hi
    (fun j hj => absurd hj (by omega))
  unfold nvcounterIncr
  rw [wp_bind]
  refine wp_mono hscan ?_ ?_
  · rintro r s₁ ⟨rfl, hlo₁, hhi₁⟩
    have hreads : ReadsAs pw s₁.lo L := by
      rw [hlo₁]
      exact h.lo
    simp only
    rw [wp_bind]
    refine wp_mono (scanLow_spec (UInt32.ofNat H * lowSpan pw) hlo hreads) ?_ ?_
    · rintro r s₂ ⟨rfl, hhi₂, hlo₂⟩
      have hexact : Exact pw s₂ H L := ⟨by rw [hhi₂]; exact hhi₁, hlo₂, hhi, hlo⟩
      have hcnt : UInt32.ofNat H * lowSpan pw + UInt32.ofNat L = UInt32.ofNat (count pw H L) := by
        rw [lowSpan_eq, ← UInt32.ofNat_mul, ← UInt32.ofNat_add, count]
      simp only [hcnt]
      exact advance_spec hexact
    · rintro s₂ ⟨hhi₂, hlo₂⟩
      have hready : Ready pw s₂ H L :=
        ⟨by rw [hhi₂]; exact hhi₁.readsAs (by omega), hlo₂, hhi, hlo⟩
      exact hready.reached
  · rintro s₁ ⟨hlo₁, hhi₁⟩
    have hready : Ready pw s₁ H L := ⟨hhi₁, by rw [hlo₁]; exact h.lo, hhi, hlo⟩
    exact hready.reached

/-- **A call that finds an erase under way** ends it; LOW is not read before. -/
theorem nvcounterIncr_busy {H : Nat} (h : Busy pw s H) :
    (nvcounterIncr pw).wp
      (fun r s' => r = UInt32.ofNat (count pw H (8 * pw) + 1) ∧ Exact pw s' (H + 1) 0)
      (fun s' => Reached pw s' (count pw H (8 * pw))) s := by
  have hlt := h.hi_lt
  have hscan := scanHigh_odd (Nat.zero_add pw) (Nat.zero_le H) hlt h.hi
    (fun j hj => absurd hj (by omega))
  unfold nvcounterIncr
  rw [wp_bind]
  refine wp_mono hscan ?_ ?_
  · rintro r s' ⟨rfl, hlo', hhi'⟩
    refine ⟨?_, hhi', by rw [hlo']; exact struck_erasedPage pw, by omega, by omega⟩
    rw [lowSpan_eq, ← UInt32.ofNat_mul, ← count_carry]
    rfl
  · rintro s' (hold | ⟨hlo', hhi'⟩)
    · exact Busy.reached ⟨hold, hlt⟩
    · have hready : Ready pw s' (H + 1) 0 :=
        ⟨hhi', by rw [hlo']; exact (struck_erasedPage pw).readsAs (by omega), by omega, by omega⟩
      refine hready.reached.mono ?_
      rw [count_carry]
      omega

end NvCounter
end CrosEc
