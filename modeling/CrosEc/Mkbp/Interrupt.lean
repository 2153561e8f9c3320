import CrosEc.Mkbp.Model

/-!
# The interrupt line of the events

Tasks and interrupt handlers send events, and the task of the host commands takes them, at the
same time.  A sender sets the bit of its event and then raises the line.  `mkbp_get_next_event`
reads the bits one by one until it finds one that is set, and all of them once more at its end;
if it finds none it lowers the line.  Each of these is one step.

The source of an event may send events itself, and decides whether it is asked again.  The
last two fields of a state record what has happened: they are read by no function.

A sender that sets its bit after the reader has read it, and raises the line before the reader
lowers it, is overlooked: its bit stays set and the line is low (`mkbp_interrupt_lost`).  If the
line is not lowered after such a sender has raised it, no interrupt is lost
(`mkbp_interrupt_not_lost`).
-/

namespace CrosEc
namespace Mkbp
namespace Interrupt

open Lib

/-- Where the reader is in `mkbp_get_next_event`. -/
inductive Reader where
  | idle
  /-- `event_is_set((last + i) % EC_MKBP_EVENT_COUNT)` -/
  | scanning (i : Nat)
  /-- `clear_event(evt)` -/
  | found (evt : EventType)
  /-- in `get_data` -/
  | fetching (evt : EventType)
  /-- in `get_data`, which sends an event: `set_host_interrupt(1)` -/
  | sending (evt : EventType)
  /-- `set_event(evt)`, because the source was busy -/
  | restoring (evt : EventType)
  /-- `if (!events)` -/
  | testing
  /-- `set_host_interrupt(0)` -/
  | lowering
  deriving DecidableEq

/-- The senders are any tasks and interrupt handlers. -/
structure State (ι : Type) where
  events : BitVec 32
  /-- the line to the host -/
  active : Bool
  last : Nat
  reader : Reader
  /-- the senders that have set the bit of an event, and have not raised the line yet -/
  senders : ι → Option EventType
  /-- the senders that have set a bit after the reader had read it -/
  late : ι → Bool
  /-- one of them has raised the line -/
  overlooked : Bool

def State.init (ι : Type) : State ι where
  events := 0#32
  active := false
  last := 0
  reader := .idle
  senders := fun _ => none
  late := fun _ => false
  overlooked := false

/-- The steps. -/
inductive Event (ι : Type) where
  /-- a sender calls `set_event` -/
  | send (sender : ι) (t : EventType)
  /-- and `set_host_interrupt(1)` -/
  | raise (sender : ι)
  /-- the host asks for an event -/
  | call
  /-- the next step of the reader outside of `get_data`; `source` says whether the event that was
  found has a source -/
  | read (source : Bool)
  /-- `get_data` sends an event -/
  | getDataSend (t : EventType)
  | getDataRaise
  /-- `get_data` returns, with `-EC_ERROR_BUSY` or not -/
  | getDataReturn (busy : Bool)

variable {ι : Type}

namespace State

/-- The type whose bit is read at position `i` of the search. -/
def typeAt (s : State ι) (i : Nat) : EventType := .ofCode (Fin.ofNat 10 (s.last + i))

/-- The reader has read the bit of `t` in its search, or all bits in its last test. -/
def hasRead (s : State ι) (t : EventType) : Bool :=
  match s.reader with
  | .scanning i => (List.range i).any fun j => s.typeAt j = t
  | .lowering => true
  | _ => false

/-- The reader reads the bits anew. -/
def reread (reader : Reader) (s : State ι) : State ι :=
  { s with reader := reader, late := fun _ => false, overlooked := false }

/-- The next step of the reader outside of `get_data`. -/
def readerStep (source : Bool) (s : State ι) : Option (State ι) :=
  match s.reader with
  | .scanning i =>
      let evt := s.typeAt i
      if hasEvent evt s.events then
        some { s with reader := .found evt, last := evt.code.val + 1 }
      else if i + 1 = ecMkbpEventCount then some { s with reader := .lowering }
      else some { s with reader := .scanning (i + 1) }
  | .found evt =>
      some { s with
        events := andNotEvent evt s.events
        reader := if source then .fetching evt else .idle }
  | .restoring evt => some ({ s with events := orEvent evt s.events }.reread (.scanning 0))
  | .testing => some (s.reread (if s.events = 0#32 then .lowering else .idle))
  | .lowering => some { s with active := false, reader := .idle }
  | _ => none

end State

/-- One step. -/
def step [DecidableEq ι] (s : State ι) : Event ι → Option (State ι)
  | .send sender t =>
      match s.senders sender with
      | none => some { s with
          events := orEvent t s.events
          senders := Function.update s.senders sender (some t)
          late := Function.update s.late sender (s.hasRead t) }
      | some _ => none
  | .raise sender =>
      match s.senders sender with
      | some _ => some { s with
          active := true
          senders := Function.update s.senders sender none
          overlooked := s.overlooked || s.late sender }
      | none => none
  | .call =>
      match s.reader with
      | .idle => some (s.reread (.scanning 0))
      | _ => none
  | .read source => s.readerStep source
  | .getDataSend t =>
      match s.reader with
      | .fetching evt => some { s with events := orEvent t s.events, reader := .sending evt }
      | _ => none
  | .getDataRaise =>
      match s.reader with
      | .sending evt => some { s with active := true, reader := .fetching evt }
      | _ => none
  | .getDataReturn busy =>
      match s.reader with
      | .fetching evt => some { s with reader := if busy then .restoring evt else .testing }
      | _ => none

/-- The line is not lowered when a sender has raised it for a bit that it set after the reader
had read it. -/
def lowersInTime (s : State ι) : Event ι → Bool
  | .read _ =>
      match s.reader with
      | .lowering => !s.overlooked
      | _ => true
  | _ => true

/-! ## The invariant -/

variable {s s' : State ι} {t : EventType}

namespace State

/-- A sender has set the bit of `t` and is going to raise the line. -/
def Pending (s : State ι) (t : EventType) : Prop := ∃ sender, s.senders sender = some t

/-- And it set the bit after the reader had read it. -/
def Late (s : State ι) (t : EventType) : Prop :=
  ∃ sender, s.senders sender = some t ∧ s.late sender = true

theorem Late.pending (h : s.Late t) : s.Pending t := by
  obtain ⟨sender, hsender, -⟩ := h
  exact ⟨sender, hsender⟩

/-- The line is up, or someone who has set the bit of `t` is going to raise it. -/
def Announced (s : State ι) (t : EventType) : Prop := s.active = true ∨ s.Pending t

end State

/-- Every event is announced, also the one the reader works on, unless the reader itself is
going to raise the line.  An event that is set after its bit has been read has a late sender who is
going to raise the line. -/
structure Inv (s : State ι) : Prop where
  announced : (∀ evt, s.reader ≠ .sending evt) → ∀ t, hasEvent t s.events = true → s.Announced t
  working : ∀ evt, (s.reader = .found evt ∨ s.reader = .fetching evt ∨ s.reader = .restoring evt) →
    s.Announced evt
  passed : s.overlooked = false → ∀ t, s.hasRead t = true → hasEvent t s.events = true →
    s.Late t

theorem init_inv : Inv (State.init ι) where
  announced := by
    intro _ t ht
    rw [hasEvent_eq] at ht
    simp [State.init] at ht
  working := by
    rintro evt (h | h | h) <;> cases h
  passed := by
    intro _ t hread
    cases hread

theorem Inv.send [DecidableEq ι] (h : Inv s) {sender : ι} (hidle : s.senders sender = none)
    (t : EventType) :
    Inv { s with
      events := orEvent t s.events
      senders := Function.update s.senders sender (some t)
      late := Function.update s.late sender (s.hasRead t) } := by
  -- Who was going to raise the line still is.
  have hne : ∀ i u, s.senders i = some u → i ≠ sender := by
    rintro i u hi rfl
    rw [hidle] at hi
    cases hi
  have hpending : ∀ u, s.Pending u → ∃ i, Function.update s.senders sender (some t) i = some u := by
    rintro u ⟨i, hi⟩
    exact ⟨i, by rw [Function.update_of_ne (hne i u hi), hi]⟩
  have hself : ∃ i, Function.update s.senders sender (some t) i = some t :=
    ⟨sender, Function.update_self _ _ _⟩
  have hbit : ∀ u, hasEvent u (orEvent t s.events) = true → hasEvent u s.events = true ∨ t = u := by
    intro u hu
    simpa [hasEvent_orEvent] using hu
  refine ⟨?_, ?_, ?_⟩
  · intro hreader u hu
    rcases hbit u hu with hold | rfl
    · exact (h.announced hreader u hold).imp id (hpending u)
    · exact Or.inr hself
  · intro evt hevt
    exact (h.working evt hevt).imp id (hpending evt)
  · intro hover u hread hu
    have hread' : s.hasRead u = true := hread
    rcases hbit u hu with hold | rfl
    · obtain ⟨i, hi, hlate⟩ := h.passed hover u hread' hold
      have hother := hne i u hi
      exact ⟨i, (Function.update_of_ne hother ..).trans hi,
        (Function.update_of_ne hother ..).trans hlate⟩
    · exact ⟨sender, Function.update_self .., (Function.update_self ..).trans hread'⟩

theorem Inv.raise [DecidableEq ι] (h : Inv s) (sender : ι) :
    Inv { s with
      active := true
      senders := Function.update s.senders sender none
      overlooked := s.overlooked || s.late sender } := by
  refine ⟨fun _ _ _ => Or.inl rfl, fun _ _ => Or.inl rfl, ?_⟩
  intro hover u hread hu
  obtain ⟨hold, hnot⟩ := Bool.or_eq_false_iff.mp hover
  obtain ⟨i, hi, hlate⟩ := h.passed hold u hread hu
  have hne : i ≠ sender := by
    rintro rfl
    -- A late sender who raises the line is recorded.
    rw [hnot] at hlate
    cases hlate
  exact ⟨i, (Function.update_of_ne hne ..).trans hi, hlate⟩

/-- The reader goes on, where the events are the same. -/
theorem Inv.goto (h : Inv s) {reader : Reader} {last : Nat}
    (hsending : ∀ evt, s.reader ≠ .sending evt)
    (hworking : ∀ evt, (reader = .found evt ∨ reader = .fetching evt ∨ reader = .restoring evt) →
      s.Announced evt)
    (hpassed : s.overlooked = false → ∀ t,
      State.hasRead { s with reader := reader, last := last } t = true →
        hasEvent t s.events = true → s.Late t) :
    Inv { s with reader := reader, last := last } where
  announced := fun _ => h.announced hsending
  working := hworking
  passed := hpassed

/-- The reader reads anew, from where it has read no bit that is set. -/
theorem Inv.reread (h : Inv s) {reader : Reader} (hsending : ∀ evt, s.reader ≠ .sending evt)
    (hworking : ∀ evt, reader ≠ .found evt ∧ reader ≠ .fetching evt ∧ reader ≠ .restoring evt)
    (hpassed : ∀ t, (s.reread reader).hasRead t = true → hasEvent t s.events = false) :
    Inv (s.reread reader) where
  announced := fun _ => h.announced hsending
  working := by
    intro evt heq
    obtain ⟨hfound, hfetching, hrestoring⟩ := hworking evt
    rcases heq with heq | heq | heq
    · exact absurd heq hfound
    · exact absurd heq hfetching
    · exact absurd heq hrestoring
  passed := by
    intro _ t hread hset
    have hclear := hpassed t hread
    rw [show hasEvent t s.events = true from hset] at hclear
    cases hclear

/-- The search covers all types. -/
theorem exists_typeAt (s : State ι) (t : EventType) : ∃ i < 10, s.typeAt i = t := by
  refine ⟨(t.code.val + 10 - s.last % 10) % 10, Nat.mod_lt _ (by decide), ?_⟩
  have hcode : Fin.ofNat 10 (s.last + (t.code.val + 10 - s.last % 10) % 10) = t.code := by
    apply Fin.ext
    show (s.last + (t.code.val + 10 - s.last % 10) % 10) % 10 = t.code.val
    have hlt := t.code.isLt
    omega
  rw [State.typeAt, hcode, EventType.ofCode_code]

theorem hasRead_scanning {i : Nat} (hreader : s.reader = .scanning i) :
    s.hasRead t = true ↔ ∃ j < i, s.typeAt j = t := by
  simp [State.hasRead, hreader]

theorem hasEvent_zero (t : EventType) : hasEvent t 0#32 = false := by
  rw [hasEvent_eq]
  exact BitVec.getLsbD_zero

/-- One bit is read. -/
theorem Inv.scan (h : Inv s) {i : Nat} (hreader : s.reader = .scanning i)
    (hstep : (if hasEvent (s.typeAt i) s.events then
        some { s with reader := .found (s.typeAt i), last := (s.typeAt i).code.val + 1 }
      else if i + 1 = ecMkbpEventCount then some { s with reader := .lowering }
      else some { s with reader := .scanning (i + 1) }) = some s') : Inv s' := by
  have hsending : ∀ evt, s.reader ≠ .sending evt := by
    rintro evt heq
    rw [hreader] at heq
    cases heq
  split at hstep
  case isTrue hset =>
    cases hstep
    refine h.goto hsending ?_ ?_
    · rintro evt (heq | heq | heq) <;> cases heq
      exact h.announced hsending _ hset
    · intro _ t hread
      cases hread
  case isFalse hclear =>
    have hnext : ∀ j < i + 1, s.overlooked = false → hasEvent (s.typeAt j) s.events = true →
        s.Late (s.typeAt j) := by
      intro j hj hover hset
      by_cases hlast : j = i
      · subst hlast
        exact absurd hset hclear
      · exact h.passed hover _ ((hasRead_scanning hreader).mpr ⟨j, by omega, rfl⟩) hset
    split at hstep
    case isTrue hall =>
      cases hstep
      refine h.goto hsending ?_ ?_
      · rintro evt (heq | heq | heq) <;> cases heq
      · intro hover t _ hset
        obtain ⟨j, hj, rfl⟩ := exists_typeAt s t
        exact hnext j (by rw [hall]; exact hj) hover hset
    case isFalse =>
      cases hstep
      refine h.goto hsending ?_ ?_
      · rintro evt (heq | heq | heq) <;> cases heq
      · intro hover t hread hset
        obtain ⟨j, hj, rfl⟩ := (hasRead_scanning rfl).mp hread
        exact hnext j hj hover hset

theorem Inv.readerStep (h : Inv s) {source : Bool}
    (htime : s.reader = .lowering → s.overlooked = false)
    (hstep : s.readerStep source = some s') : Inv s' := by
  unfold State.readerStep at hstep
  cases hreader : s.reader with
  | scanning i =>
      rw [hreader] at hstep
      exact h.scan hreader hstep
  | found evt =>
      rw [hreader] at hstep
      cases hstep
      have hevt := h.working evt (Or.inl hreader)
      have hbit : ∀ u, hasEvent u (andNotEvent evt s.events) = true → s.Announced u := by
        intro u hu
        rw [hasEvent_andNotEvent, Bool.and_eq_true] at hu
        exact h.announced (by simp [hreader]) u hu.1
      cases source with
      | true =>
          refine ⟨fun _ => hbit, ?_, ?_⟩
          · rintro evt' (heq | heq | heq) <;> cases heq
            exact hevt
          · intro _ t hread
            cases hread
      | false =>
          refine ⟨fun _ => hbit, ?_, ?_⟩
          · rintro evt' (heq | heq | heq) <;> cases heq
          · intro _ t hread
            cases hread
  | restoring evt =>
      rw [hreader] at hstep
      cases hstep
      have hevt := h.working evt (Or.inr (Or.inr hreader))
      refine ⟨?_, ?_, ?_⟩
      · intro _ u hu
        have hbit : hasEvent u (orEvent evt s.events) = true := hu
        rw [hasEvent_orEvent, Bool.or_eq_true, decide_eq_true_eq] at hbit
        rcases hbit with hold | rfl
        · exact h.announced (by simp [hreader]) u hold
        · exact hevt
      · rintro evt' (heq | heq | heq) <;> cases heq
      · intro _ t hread
        cases hread
  | testing =>
      rw [hreader] at hstep
      cases hstep
      by_cases hzero : s.events = 0#32
      · rw [if_pos hzero]
        refine h.reread (by simp [hreader]) (fun evt => ⟨nofun, nofun, nofun⟩) ?_
        intro t _
        rw [hzero, hasEvent_zero]
      · rw [if_neg hzero]
        refine h.reread (by simp [hreader]) (fun evt => ⟨nofun, nofun, nofun⟩) ?_
        intro t hread
        cases hread
  | lowering =>
      rw [hreader] at hstep
      cases hstep
      refine ⟨?_, ?_, ?_⟩
      · intro _ t hset
        refine Or.inr (h.passed (htime hreader) t ?_ hset).pending
        simp [State.hasRead, hreader]
      · rintro evt (heq | heq | heq) <;> cases heq
      · intro _ t hread
        cases hread
  | idle | fetching evt | sending evt =>
      rw [hreader] at hstep
      cases hstep

/-- What one step preserves. -/
theorem step_inv [DecidableEq ι] (h : Inv s) {e : Event ι} (hallowed : lowersInTime s e = true)
    (hstep : step s e = some s') : Inv s' := by
  cases e with
  | send sender t =>
      cases hsender : s.senders sender with
      | none =>
          simp only [step, hsender, Option.some.injEq] at hstep
          exact hstep ▸ h.send hsender t
      | some u => simp [step, hsender] at hstep
  | raise sender =>
      cases hsender : s.senders sender with
      | none => simp [step, hsender] at hstep
      | some u =>
          simp only [step, hsender, Option.some.injEq] at hstep
          exact hstep ▸ h.raise sender
  | call =>
      cases hreader : s.reader with
      | idle =>
          simp only [step, hreader, Option.some.injEq] at hstep
          subst hstep
          refine h.reread (by simp [hreader]) (fun evt => ⟨nofun, nofun, nofun⟩) ?_
          intro t hread
          cases hread
      | _ => simp [step, hreader] at hstep
  | read source =>
      refine h.readerStep ?_ hstep
      intro hreader
      simpa [lowersInTime, hreader] using hallowed
  | getDataSend t =>
      cases hreader : s.reader with
      | fetching evt =>
          simp only [step, hreader, Option.some.injEq] at hstep
          subst hstep
          refine ⟨fun hreader' => absurd rfl (hreader' evt), ?_, ?_⟩
          · rintro evt' (heq | heq | heq) <;> cases heq
          · intro _ t hread
            cases hread
      | _ => simp [step, hreader] at hstep
  | getDataRaise =>
      cases hreader : s.reader with
      | sending evt =>
          simp only [step, hreader, Option.some.injEq] at hstep
          subst hstep
          refine ⟨fun _ _ _ => Or.inl rfl, fun _ _ => Or.inl rfl, ?_⟩
          intro _ t hread
          cases hread
      | _ => simp [step, hreader] at hstep
  | getDataReturn busy =>
      cases hreader : s.reader with
      | fetching evt =>
          simp only [step, hreader, Option.some.injEq] at hstep
          subst hstep
          have hevt := h.working evt (Or.inr (Or.inl hreader))
          cases busy with
          | true =>
              refine h.goto (by simp [hreader]) ?_ ?_
              · rintro evt' (heq | heq | heq) <;> cases heq
                exact hevt
              · intro _ t hread
                cases hread
          | false =>
              refine h.goto (by simp [hreader]) ?_ ?_
              · rintro evt' (heq | heq | heq) <;> cases heq
              · intro _ t hread
                cases hread
      | _ => simp [step, hreader] at hstep

/-! ## Every interleaving -/

/-- Only bits of event types are set. -/
def OnlyTypes (events : BitVec 32) : Prop :=
  ∀ i, events.getLsbD i = true → ∃ t : EventType, t.code.val = i

theorem OnlyTypes.orEvent {events : BitVec 32} (h : OnlyTypes events) (t : EventType) :
    OnlyTypes (orEvent t events) := by
  intro i hi
  rw [Mkbp.orEvent, ← BitVec.twoPow_eq, BitVec.getLsbD_or, BitVec.getLsbD_twoPow] at hi
  rcases Bool.or_eq_true_iff.mp hi with hold | hnew
  · exact h i hold
  · simp only [Bool.and_eq_true, decide_eq_true_eq] at hnew
    exact ⟨t, hnew.2⟩

theorem OnlyTypes.andNotEvent {events : BitVec 32} (h : OnlyTypes events) (t : EventType) :
    OnlyTypes (andNotEvent t events) := by
  intro i hi
  rw [Mkbp.andNotEvent, BitVec.getLsbD_and] at hi
  exact h i (Bool.and_eq_true_iff.mp hi).1

theorem readerStep_onlyTypes (h : OnlyTypes s.events) {source : Bool}
    (hstep : s.readerStep source = some s') : OnlyTypes s'.events := by
  cases hreader : s.reader with
  | scanning i =>
      simp only [State.readerStep, hreader] at hstep
      split at hstep
      · exact Option.some.inj hstep ▸ h
      · split at hstep <;> exact Option.some.inj hstep ▸ h
  | found evt =>
      simp only [State.readerStep, hreader] at hstep
      exact Option.some.inj hstep ▸ h.andNotEvent evt
  | restoring evt =>
      simp only [State.readerStep, hreader] at hstep
      exact Option.some.inj hstep ▸ h.orEvent evt
  | testing | lowering =>
      simp only [State.readerStep, hreader] at hstep
      exact Option.some.inj hstep ▸ h
  | _ => simp [State.readerStep, hreader] at hstep

theorem step_onlyTypes [DecidableEq ι] (h : OnlyTypes s.events) {e : Event ι}
    (hstep : step s e = some s') : OnlyTypes s'.events := by
  cases e with
  | send sender t =>
      simp only [step] at hstep
      split at hstep
      · exact Option.some.inj hstep ▸ h.orEvent t
      · cases hstep
  | getDataSend t =>
      simp only [step] at hstep
      split at hstep
      · exact Option.some.inj hstep ▸ h.orEvent t
      · cases hstep
  | read source => exact readerStep_onlyTypes h hstep
  | raise _ | call | getDataRaise | getDataReturn _ =>
      simp only [step] at hstep
      split at hstep
      · exact Option.some.inj hstep ▸ h
      · cases hstep

/-- None of the calls is in progress. -/
def Quiescent (s : State ι) : Prop := s.reader = .idle ∧ ∀ sender, s.senders sender = none

/-- **No interrupt is lost**, in every interleaving in which the line is not lowered when a sender
has raised it for a bit that it set after the reader had read it. -/
theorem mkbp_interrupt_not_lost [DecidableEq ι]
    (h : Reachable step lowersInTime (State.init ι) s) (hquiet : Quiescent s)
    (hset : s.events ≠ 0#32) : s.active = true := by
  have hinv : Inv s := by
    refine h.invariant Inv init_inv ?_
    intro s e s' hinv hallowed hstep
    exact step_inv hinv hallowed hstep
  have htypes : OnlyTypes s.events := by
    refine h.invariant (fun s => OnlyTypes s.events) ?_ fun _ _ _ hs _ hstep => step_onlyTypes hs hstep
    intro i hi
    exact absurd hi (by simp [State.init])
  -- A bit that is set is that of a type.
  obtain ⟨t, ht⟩ : ∃ t, hasEvent t s.events = true := by
    by_contra hnone
    apply hset
    apply BitVec.eq_of_getLsbD_eq
    intro i _
    rw [BitVec.getLsbD_zero, ← Bool.not_eq_true]
    intro hi
    obtain ⟨t, rfl⟩ := htypes i hi
    exact hnone ⟨t, by rw [hasEvent_eq, hi]⟩
  have hannounced := hinv.announced (by
    intro evt heq
    rw [hquiet.1] at heq
    cases heq) t ht
  rcases hannounced with hactive | ⟨sender, hsender⟩
  · exact hactive
  · rw [hquiet.2 sender] at hsender
    cases hsender

/-- A button is sent while the host asks for an event, and before its bit is read: it is found,
and another one is sent while it is fetched. -/
theorem mkbp_interrupt_not_lost_run :
    ∃ s : State Unit, (Reachable step lowersInTime (State.init Unit) s ∧ s.reader = .idle ∧
      s.senders () = none ∧ s.events ≠ 0#32) ∧ s.active = true := by
  obtain ⟨s, hs, hP⟩ : ∃ s : State Unit, Reachable step lowersInTime (State.init Unit) s ∧
      (s.reader = .idle ∧ s.senders () = none ∧ s.events ≠ 0#32) :=
    Reachable.exists_of_runEvents
      [.call, .read true, .send () .button, .raise (), .read true, .read true, .read true, .read true,
        .send () .button, .raise (), .getDataReturn false, .read true] (by decide +kernel)
  exact ⟨s, ⟨hs, hP⟩, mkbp_interrupt_not_lost hs ⟨hP.1, fun _ => hP.2.1⟩ hP.2.2⟩

/-- **An interrupt is lost.** The host asks for an event when there is none; a button is sent
after its bit has been read and before the line is lowered. -/
theorem mkbp_interrupt_lost :
    ∃ s : State Unit, Reachable step anyEvent (State.init Unit) s ∧ Quiescent s ∧
      s.events ≠ 0#32 ∧ s.active = false := by
  obtain ⟨s, hs, hP⟩ : ∃ s : State Unit, Reachable step anyEvent (State.init Unit) s ∧
      (s.reader = .idle ∧ s.senders () = none ∧ s.events ≠ 0#32 ∧ s.active = false) :=
    Reachable.exists_of_runEvents
      (.call :: List.replicate 10 (.read true) ++ [.send () .button, .raise (), .read true])
      (by decide +kernel)
  exact ⟨s, hs, ⟨hP.1, fun _ => hP.2.1⟩, hP.2.2⟩

end Interrupt
end Mkbp
end CrosEc
