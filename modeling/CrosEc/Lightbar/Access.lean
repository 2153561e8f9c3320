import CrosEc.Lightbar.Model

/-!
# What the instructions access

Every part of the interpreter is described by the accesses that it adds to the log: a condition
under which they are all inside, and which is needed for that.  Only the fetches and the colour of
`SET_COLOR_SINGLE` have one.
-/

namespace CrosEc
namespace Lightbar

/-- An access inside of its array, and a colour in its range. -/
def Access.Inside : Access → Prop
  | fetch i => i < ecLbProgLen
  | desc led control color => led < numLeds ∧ control < lbContMax ∧ color < lbColAll
  | rgb _ r g b => (0 ≤ r ∧ r ≤ 255) ∧ (0 ≤ g ∧ g ≤ 255) ∧ 0 ≤ b ∧ b ≤ 255

/-- From `m` to `m'` there are new accesses, all inside if and only if `ok`.  The program and the
saved brightness are the same. -/
structure Logs (ok : Prop) (m m' : Machine) : Prop where
  accesses : ∃ l, m'.log = l ++ m.log ∧ ((∀ a ∈ l, a.Inside) ↔ ok)
  curProg : m'.curProg = m.curProg
  saved : m'.savedBrightness = m.savedBrightness

namespace Logs

variable {ok ok' : Prop} {m m' m'' : Machine}

theorem of_eq (hlog : m'.log = m.log) (hprog : m'.curProg = m.curProg)
    (hsaved : m'.savedBrightness = m.savedBrightness) : Logs True m m' :=
  ⟨⟨[], hlog, by simp⟩, hprog, hsaved⟩

theorem refl (m : Machine) : Logs True m m := of_eq rfl rfl rfl

theorem congr (h : Logs ok m m') (hiff : ok ↔ ok') : Logs ok' m m' := by
  rwa [← propext hiff]

theorem trans (h : Logs ok m m') (h' : Logs ok' m' m'') : Logs (ok ∧ ok') m m'' := by
  obtain ⟨l, hl, hok⟩ := h.accesses
  obtain ⟨l', hl', hok'⟩ := h'.accesses
  refine ⟨⟨l' ++ l, by rw [hl', hl, List.append_assoc], ?_⟩, h'.curProg.trans h.curProg,
    h'.saved.trans h.saved⟩
  rw [List.forall_mem_append, hok, hok']
  exact and_comm

/-- Nothing new after accesses with a condition. -/
theorem then_quiet (h : Logs ok m m') (h' : Logs True m' m'') : Logs ok m m'' :=
  (h.trans h').congr (and_iff_left trivial)

theorem note (m : Machine) (a : Access) : Logs a.Inside m (m.note a) :=
  ⟨⟨[a], rfl, by simp⟩, rfl, rfl⟩

theorem note_of_inside {a : Access} (ha : a.Inside) : Logs True m (m.note a) :=
  (note m a).congr (iff_true_intro ha)

end Logs

namespace Machine

variable {m m' : Machine}

/-! ## Loops over the LEDs -/

theorem forLedsFrom_logs {ok : Nat → Prop} {body : Nat → Machine → Machine}
    (hbody : ∀ i m, i < numLeds → Logs (ok i) m (body i m)) (n i : Nat) (m : Machine)
    (hi : i + n ≤ numLeds) :
    Logs (∀ j, i ≤ j → j < i + n → ok j) m (forLedsFrom body n i m) := by
  induction n generalizing i m with
  | zero => exact (Logs.refl m).congr (iff_of_true trivial fun j hle hlt => by lia)
  | succ n ih =>
      have hfirst := hbody i m (by lia)
      have hrest := ih (i + 1) (body i m) (by lia)
      apply (hfirst.trans hrest).congr
      constructor
      · rintro ⟨hi, hall⟩ j hle hlt
        by_cases heq : j = i
        · exact heq ▸ hi
        · exact hall j (by lia) (by lia)
      · intro hall
        exact ⟨hall i (le_refl i) (by lia), fun j hle hlt => hall j (by lia) (by lia)⟩

theorem forLeds_logs {ok : Nat → Prop} {body : Nat → Machine → Machine}
    (hbody : ∀ i m, i < numLeds → Logs (ok i) m (body i m)) (m : Machine) :
    Logs (∀ i < numLeds, ok i) m (m.forLeds body) := by
  apply (forLedsFrom_logs hbody numLeds 0 m (by simp)).congr
  simp

/-- A loop whose accesses are all inside. -/
theorem forLeds_quiet {body : Nat → Machine → Machine}
    (hbody : ∀ i m, i < numLeds → Logs True m (body i m)) (m : Machine) :
    Logs True m (m.forLeds body) :=
  (forLeds_logs hbody m).congr (by simp)

/-! ## Colours -/

theorem setDesc_logs (m : Machine) (led control color : Nat) (value : BitVec 8) :
    Logs (Access.desc led control color).Inside m (m.setDesc led control color value) :=
  ⟨⟨[.desc led control color], rfl, by simp⟩, rfl, rfl⟩

theorem setDesc_quiet {led control color : Nat} (hled : led < numLeds)
    (hcontrol : control < lbContMax) (hcolor : color < lbColAll) (value : BitVec 8) :
    Logs True m (m.setDesc led control color value) :=
  (setDesc_logs m led control color value).congr (iff_true_intro ⟨hled, hcontrol, hcolor⟩)

theorem noteDesc_quiet {led control color : Nat} (hled : led < numLeds)
    (hcontrol : control < lbContMax) (hcolor : color < lbColAll) :
    Logs True m (m.note (.desc led control color)) :=
  Logs.note_of_inside ⟨hled, hcontrol, hcolor⟩

theorem lbSetRgb_quiet {led : Nat} {r g b : Int} (hr : 0 ≤ r ∧ r ≤ 255) (hg : 0 ≤ g ∧ g ≤ 255)
    (hb : 0 ≤ b ∧ b ≤ 255) : Logs True m (m.lbSetRgb led r g b) :=
  ⟨⟨[.rgb led r g b], rfl, by simpa [Access.Inside] using ⟨hr, hg, hb⟩⟩, rfl, rfl⟩

theorem byte_range (x : BitVec 8) : (0 : Int) ≤ x.toNat ∧ (x.toNat : Int) ≤ 255 := by
  have := x.isLt
  omega

theorem cycle010_le (i : BitVec 8) : cycle010 i ≤ 10000 := by
  revert i
  decide

/-- Between two colours there are only colours. -/
theorem getInterpValue_range (m : Machine) (led color : Nat) {interp : Nat}
    (hinterp : interp ≤ 10000) :
    0 ≤ m.getInterpValue led color interp ∧ m.getInterpValue led color interp ≤ 255 := by
  obtain ⟨hbase, hbase'⟩ := byte_range (m.desc led 0 color)
  obtain ⟨hend, hend'⟩ := byte_range (m.desc led 1 color)
  unfold getInterpValue
  generalize ((m.desc led 0 color).toNat : Int) = base at *
  generalize ((m.desc led 1 color).toNat : Int) = last at *
  have hinterp' : (interp : Int) ≤ 10000 := by exact_mod_cast hinterp
  have hnonneg : (0 : Int) ≤ interp := Int.natCast_nonneg interp
  dsimp only
  rcases le_total base last with hle | hle
  · -- upward: the part is at most the whole difference
    have hpart : (last - base) * interp ≤ (last - base) * 10000 :=
      mul_le_mul_of_nonneg_left hinterp' (by lia)
    have hpos : 0 ≤ (last - base) * interp := mul_nonneg (by lia) hnonneg
    have hq : ((last - base) * interp).tdiv 10000 ≤ last - base := by
      rw [Int.tdiv_eq_ediv_of_nonneg hpos]
      lia
    have hq' : 0 ≤ ((last - base) * interp).tdiv 10000 := Int.tdiv_nonneg hpos (by decide)
    lia
  · -- downward: the same with the sign changed
    have hneg : (last - base) * interp = -((base - last) * interp) := by ring
    have hpart : (base - last) * interp ≤ (base - last) * 10000 :=
      mul_le_mul_of_nonneg_left hinterp' (by lia)
    have hpos : 0 ≤ (base - last) * interp := mul_nonneg (by lia) hnonneg
    have hq : ((base - last) * interp).tdiv 10000 ≤ base - last := by
      rw [Int.tdiv_eq_ediv_of_nonneg hpos]
      lia
    have hq' : 0 ≤ ((base - last) * interp).tdiv 10000 := Int.tdiv_nonneg hpos (by decide)
    rw [hneg, Int.neg_tdiv]
    lia

theorem noteInterp_quiet {led color : Nat} (hled : led < numLeds) (hcolor : color < lbColAll) :
    Logs True m (m.noteInterp led color) :=
  (noteDesc_quiet hled (by decide) hcolor).then_quiet (noteDesc_quiet hled (by decide) hcolor)

theorem noteInterps_quiet {led : Nat} (hled : led < numLeds) :
    Logs True m (((m.noteInterp led 0).noteInterp led 1).noteInterp led 2) :=
  ((noteInterp_quiet hled (by decide)).then_quiet (noteInterp_quiet hled (by decide))).then_quiet
    (noteInterp_quiet hled (by decide))

theorem noteDescs_quiet {led control : Nat} (hled : led < numLeds)
    (hcontrol : control < lbContMax) :
    Logs True m (((m.note (.desc led control 0)).note (.desc led control 1)).note
      (.desc led control 2)) :=
  ((noteDesc_quiet hled hcontrol (by decide)).then_quiet
    (noteDesc_quiet hled hcontrol (by decide))).then_quiet
    (noteDesc_quiet hled hcontrol (by decide))

theorem setAllLeds_quiet {control : Nat} (hcontrol : control < lbContMax) :
    Logs True m (m.setAllLeds control) :=
  forLeds_quiet (fun _ _ hi => (noteDescs_quiet hi hcontrol).then_quiet
    (lbSetRgb_quiet (byte_range _) (byte_range _) (byte_range _))) m

theorem rampLeds_quiet (m : Machine) (w : Nat) : Logs True m (m.rampLeds w) :=
  forLeds_quiet (fun _ _ hi => (noteInterps_quiet hi).then_quiet
    (lbSetRgb_quiet (getInterpValue_range _ _ _ (cycle010_le _))
      (getInterpValue_range _ _ _ (cycle010_le _)) (getInterpValue_range _ _ _ (cycle010_le _)))) m

theorem cycleLeds_quiet (m : Machine) (w : Nat) : Logs True m (m.cycleLeds w) :=
  forLeds_quiet (fun _ _ hi => ((noteDescs_quiet hi (by decide)).then_quiet
    (noteInterps_quiet hi)).then_quiet
    (lbSetRgb_quiet (getInterpValue_range _ _ _ (cycle010_le _))
      (getInterpValue_range _ _ _ (cycle010_le _)) (getInterpValue_range _ _ _ (cycle010_le _)))) m

theorem setDescs_quiet {led control : Nat} (hled : led < numLeds) (hcontrol : control < lbContMax)
    (r g b : BitVec 8) :
    Logs True m (((m.setDesc led control 0 r).setDesc led control 1 g).setDesc led control 2 b) :=
  ((setDesc_quiet hled hcontrol (by decide) r).then_quiet
    (setDesc_quiet hled hcontrol (by decide) g)).then_quiet
    (setDesc_quiet hled hcontrol (by decide) b)

theorem swapColor_quiet {i j : Nat} (hi : i < numLeds) (hj : j < lbColAll) :
    Logs True m (m.swapColor i j) :=
  (setDesc_quiet hi (by decide) hj _).then_quiet (setDesc_quiet hi (by decide) hj _)

/-! ## Decoding -/

/-- The bytes of `n` operands that are inside of the size of the program are inside of its array
as well. -/
def OperandsFit (m : Machine) (n : Nat) : Prop :=
  ∀ k < n, m.pc.toNat + k < m.curProg.size.toNat → m.pc.toNat + k < ecLbProgLen

/-- The program ends before its operands do. -/
def OperandsMissing (m : Machine) (n : Nat) : Prop := m.curProg.size.toNat < m.pc.toNat + n

theorem decode8_of_missing (h : m.curProg.size ≤ m.pc) : m.decode8 = (none, m) := if_pos h

theorem decode8_of_lt (h : m.pc.toNat < m.curProg.size.toNat) :
    m.decode8 = (some (m.curProg.data m.pc.toNat), m.fetched) :=
  if_neg (by rw [BitVec.le_def]; omega)

theorem toNat_pc_succ (h : m.pc.toNat < m.curProg.size.toNat) :
    (m.pc + 1).toNat = m.pc.toNat + 1 := by
  have := m.curProg.size.isLt
  rw [BitVec.toNat_add]
  exact Nat.mod_eq_of_lt (by simp; omega)

theorem fetched_logs (m : Machine) : Logs (m.pc.toNat < ecLbProgLen) m m.fetched :=
  ⟨⟨[.fetch m.pc.toNat], rfl, by simp [Access.Inside]⟩, rfl, rfl⟩

/-- Decoding some bytes: what it fetches, when it fails, and the bytes otherwise. -/
theorem decodeBytes_spec (n : Nat) (m : Machine) :
    ∃ r m', decodeBytes n m = (r, m') ∧ Logs (m.OperandsFit n) m m' ∧
      (r = none ↔ n ≠ 0 ∧ m.OperandsMissing n) ∧
      ∀ bytes, r = some bytes →
        bytes = (List.range n).map fun k => m.curProg.data (m.pc.toNat + k) := by
  induction n generalizing m with
  | zero =>
      refine ⟨some [], m, rfl, ?_, by simp, by simp⟩
      exact (Logs.refl m).congr (iff_of_true trivial fun k hk => absurd hk (Nat.not_lt_zero k))
  | succ n ih =>
      by_cases hend : m.pc.toNat < m.curProg.size.toNat
      · obtain ⟨r, m', hr, hlogs, hnone, hbytes⟩ := ih m.fetched
        have hpc : m.fetched.pc.toNat = m.pc.toNat + 1 := toNat_pc_succ hend
        have hsize : m.fetched.curProg = m.curProg := rfl
        have hmissing : m.fetched.OperandsMissing n ↔ m.OperandsMissing (n + 1) := by
          rw [OperandsMissing, OperandsMissing, hpc, hsize]
          lia
        have hall : Logs (m.OperandsFit (n + 1)) m m' := by
          apply (m.fetched_logs.trans hlogs).congr
          unfold OperandsFit
          rw [hpc, hsize]
          constructor
          · rintro ⟨h0, hrest⟩ k hk hlt
            cases k with
            | zero => simpa using h0
            | succ k =>
                have := hrest k (by lia) (by lia)
                lia
          · intro h
            refine ⟨h 0 (by lia) (by lia), fun k hk hlt => ?_⟩
            have := h (k + 1) (by lia) (by lia)
            lia
        rw [decodeBytes, decode8_of_lt hend]
        dsimp only
        rw [hr]
        cases r with
        | none =>
            refine ⟨none, m', rfl, hall, ?_, by simp⟩
            have := (hnone.mp rfl).2
            exact iff_of_true rfl ⟨Nat.succ_ne_zero n, hmissing.mp this⟩
        | some bytes =>
            refine ⟨_, m', rfl, hall, ?_, ?_⟩
            · refine iff_of_false (by simp) fun h => ?_
              have hthere : ¬ (n ≠ 0 ∧ m.fetched.OperandsMissing n) := fun h => by
                cases hnone.mpr h
              have hmiss := h.2
              by_cases hn : n = 0
              · subst hn
                rw [OperandsMissing] at hmiss
                lia
              · exact hthere ⟨hn, hmissing.mpr hmiss⟩
            · intro bytes' hbytes'
              obtain rfl := Option.some.inj hbytes'
              rw [hbytes bytes rfl, List.range_succ_eq_map, List.map_cons, List.map_map, hpc, hsize,
                Nat.add_zero]
              congr 1
              apply List.map_congr_left
              intro k _
              rw [Function.comp, Nat.succ_eq_add_one, Nat.add_assoc, Nat.add_comm 1]
      · refine ⟨none, m, ?_, ?_, ?_, by simp⟩
        · rw [decodeBytes, decode8_of_missing (by rw [BitVec.le_def]; lia)]
        · exact (Logs.refl m).congr (iff_of_true trivial fun k _ hlt => by lia)
        · exact iff_of_true rfl ⟨Nat.succ_ne_zero n, by rw [OperandsMissing]; lia⟩

theorem decode8_spec (m : Machine) :
    ∃ r m', m.decode8 = (r, m') ∧ Logs (m.OperandsFit 1) m m' ∧
      (r = none ↔ m.OperandsMissing 1) ∧
      ∀ byte, r = some byte → byte = m.curProg.data m.pc.toNat := by
  by_cases hend : m.pc.toNat < m.curProg.size.toNat
  · refine ⟨_, _, decode8_of_lt hend, m.fetched_logs.congr ?_, ?_, ?_⟩
    · constructor
      · intro h k hk _
        lia
      · intro h
        exact h 0 (by lia) (by lia)
    · exact iff_of_false (by simp) (by rw [OperandsMissing]; lia)
    · exact fun byte h => (Option.some.inj h).symm
  · refine ⟨none, m, decode8_of_missing (by rw [BitVec.le_def]; lia), ?_, ?_, by simp⟩
    · exact (Logs.refl m).congr (iff_of_true trivial fun k _ hlt => by lia)
    · exact iff_of_true rfl (by rw [OperandsMissing]; lia)

/-- The bytes of a word are fetched only if all of them are there. -/
def WordFits (m : Machine) : Prop := ¬ m.OperandsMissing 4 → m.OperandsFit 4

theorem decode32_spec (m : Machine) :
    ∃ r m', m.decode32 = (r, m') ∧ Logs m.WordFits m m' ∧ (r = none ↔ m.OperandsMissing 4) := by
  by_cases hmiss : m.OperandsMissing 4
  · refine ⟨none, m, ?_, ?_, iff_of_true rfl hmiss⟩
    · rw [OperandsMissing] at hmiss
      exact if_pos (by omega)
    · exact (Logs.refl m).congr (iff_of_true trivial fun h => absurd hmiss h)
  · obtain ⟨r, m', hr, hlogs, hnone, hbytes⟩ := decodeBytes_spec 4 m
    cases r with
    | none => exact absurd (hnone.mp rfl).2 hmiss
    | some bytes =>
        have hguard : ¬ (m.curProg.size.toNat : Int) - 3 ≤ m.pc.toNat := by
          rw [OperandsMissing] at hmiss
          omega
        rw [decode32, if_neg hguard, hr, hbytes bytes rfl]
        refine ⟨_, m', rfl, hlogs.congr ?_, iff_of_false (by simp) hmiss⟩
        exact ⟨fun h _ => h, fun h => h hmiss⟩

end Machine

end Lightbar
end CrosEc
