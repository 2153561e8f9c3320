import CrosEc.Mkbp.Model

/-!
# The events of the FIFO reach the host in order

`Queued b s xs` is the invariant: the entries `xs` lie in the FIFO, and the event of the first
one is set.  With the second part the loop of `mkbp_get_next_event` ends: every round that finds
a type other than that of the first entry goes on behind that type, so it comes to the type of
the first entry before it has gone round (`retryLoop_spec`).

It is kept by every call if only types are added whose source reads the FIFO (`fifoTypes`).
`get_data_size` knows two more, the host events, but their source is another one: the host then
gets the data of that source, and the entry stays in the FIFO without its event
(`mkbp_host_event_stuck`).

What a call puts into the FIFO and takes out of it is `Accounted`: it ties the reason for which an
entry is said to have left to the call that took it out.
-/

namespace CrosEc
namespace Mkbp

open Lib State

variable {b : Board} {s s' : State} {xs : List Slot}

/-! ## Events -/

theorem eventIsSet_setEvent (s : State) (t u : EventType) :
    (s.setEvent t).eventIsSet u = (s.eventIsSet u || decide (t = u)) :=
  hasEvent_orEvent t u s.events

theorem eventIsSet_clearEvent (s : State) (t u : EventType) :
    (s.clearEvent t).eventIsSet u = (s.eventIsSet u && !decide (t = u)) :=
  hasEvent_andNotEvent t u s.events

/-! ## What the FIFO holds -/

/-- The entries `xs` are in the FIFO.  With those that have left it they are all that were
accepted. -/
structure Stored (b : Board) (s : State) (xs : List Slot) : Prop where
  queue : RingQueue s.fifo.val s.fifoStart s.fifoEnd xs
  entries : s.fifoEntries = xs.length
  depth : s.config.fifoMaxDepth.toNat ≤ fifoDepth
  types : ∀ x ∈ xs, b.source x.eventType = .fifo
  conserved : s.left.map Prod.fst ++ xs.map (Slot.entry b) = s.accepted

/-- And the event of the first one is set. -/
structure Queued (b : Board) (s : State) (xs : List Slot) : Prop extends Stored b s xs where
  event : ∀ x ∈ xs.head?, s.eventIsSet x.eventType = true

/-- The host got what was fetched for it. -/
def Answered (s : State) : Prop :=
  s.responses = (s.left.filter fun e => e.2 = .fetched).map Prod.fst

/-- `mkbp_fifo_add` does not put an event of type `t` into the FIFO. -/
def State.Refuses (s : State) (t : EventType) : Prop :=
  s.config.enable = false ∧ t = .keyMatrix ∨ s.config.fifoMaxDepth.toNat ≤ s.held.length

/-- The host sleeps, and an event of type `t` does not wake it. -/
def Host.CannotBeWoken (host : Host) (t : EventType) : Prop :=
  host.sleeping = true ∧ host.wakeEvent = false ∧ t ≠ .keyMatrix

/-- A call puts these entries into the FIFO, and these leave it. -/
structure Moves (s s' : State) (put : List Entry) (gone : List (Entry × Fate)) : Prop where
  accepted : s'.accepted = s.accepted ++ put
  left : s'.left = s.left ++ gone

/-- What each call puts into the FIFO and takes out of it. -/
def Accounted (b : Board) (s s' : State) : Event → Prop
  | .fifoAdd host t buffp =>
      let entry := (t.byte, readBytes (b.getDataSize t) buffp)
      s.Refuses t ∧ Moves s s' [] [] ∨
        ¬ s.Refuses t ∧ s.held = [] ∧ host.CannotBeWoken t ∧ Moves s s' [entry] [(entry, .asleep)] ∨
        ¬ s.Refuses t ∧ ¬ (s.held = [] ∧ host.CannotBeWoken t) ∧ Moves s s' [entry] []
  | .getNextEvent _ _ =>
      Moves s s' [] [] ∨ ∃ x ∈ s.held.head?, Moves s s' [] [(x.entry b, .fetched)]
  | .clearFifo => Moves s s' [] (s.held.map fun x => (x.entry b, .cleared))
  | .setConfig _ _ | .sendEvent _ _ => Moves s s' [] []

/-- Only events, the line and the round robin have changed. -/
structure SameFifo (s s' : State) : Prop where
  start : s'.fifoStart = s.fifoStart
  stop : s'.fifoEnd = s.fifoEnd
  entries : s'.fifoEntries = s.fifoEntries
  fifo : s'.fifo = s.fifo
  config : s'.config = s.config
  accepted : s'.accepted = s.accepted
  left : s'.left = s.left
  responses : s'.responses = s.responses

theorem SameFifo.refl (s : State) : SameFifo s s := ⟨rfl, rfl, rfl, rfl, rfl, rfl, rfl, rfl⟩

theorem SameFifo.trans {s₁ : State} (h : SameFifo s s₁) (h' : SameFifo s₁ s') : SameFifo s s' :=
  ⟨h'.start.trans h.start, h'.stop.trans h.stop, h'.entries.trans h.entries, h'.fifo.trans h.fifo,
    h'.config.trans h.config, h'.accepted.trans h.accepted, h'.left.trans h.left,
    h'.responses.trans h.responses⟩

theorem SameFifo.answered (h : SameFifo s s') (hs : Answered s) : Answered s' := by
  unfold Answered
  rw [h.responses, h.left]
  exact hs

theorem SameFifo.moves (h : SameFifo s s') : Moves s s' [] [] :=
  ⟨by rw [h.accepted, List.append_nil], by rw [h.left, List.append_nil]⟩

/-- What is put into the FIFO follows from what has left it and what is still in it. -/
theorem Stored.moves {ys : List Slot} {put : List Entry} {gone : List (Entry × Fate)}
    (h : Stored b s xs) (h' : Stored b s' ys) (hleft : s'.left = s.left ++ gone)
    (hput : gone.map Prod.fst ++ ys.map (Slot.entry b) = xs.map (Slot.entry b) ++ put) :
    Moves s s' put gone := by
  refine ⟨?_, hleft⟩
  rw [← h'.conserved, ← h.conserved, hleft, List.map_append, List.append_assoc, hput,
    List.append_assoc]

theorem Stored.frame (h : Stored b s xs) (hsame : SameFifo s s') : Stored b s' xs where
  queue := by
    rw [hsame.fifo, hsame.start, hsame.stop]
    exact h.queue
  entries := hsame.entries.trans h.entries
  depth := by
    rw [hsame.config]
    exact h.depth
  types := h.types
  conserved := by
    rw [hsame.left, hsame.accepted]
    exact h.conserved

theorem setEvent_sameFifo (t : EventType) (s : State) : SameFifo s (s.setEvent t) :=
  ⟨rfl, rfl, rfl, rfl, rfl, rfl, rfl, rfl⟩

/-- Sending an event sets it, and clears none. -/
theorem mkbpSendEvent_spec (host : Host) (t : EventType) (s : State) :
    SameFifo s (s.mkbpSendEvent host t).1 ∧
      ∀ u, (s.mkbpSendEvent host t).1.eventIsSet u = (s.eventIsSet u || decide (t = u)) := by
  unfold mkbpSendEvent
  dsimp only
  split
  · exact ⟨setEvent_sameFifo t s, eventIsSet_setEvent s t⟩
  · exact ⟨⟨rfl, rfl, rfl, rfl, rfl, rfl, rfl, rfl⟩, eventIsSet_setEvent s t⟩

/-- The host is not told of the event if it cannot be woken. -/
theorem mkbpSendEvent_sent (host : Host) (t : EventType) (s : State) :
    (s.mkbpSendEvent host t).2 = false ↔ host.CannotBeWoken t := by
  unfold mkbpSendEvent Host.CannotBeWoken
  dsimp only
  split
  case isTrue hasleep => simpa using hasleep
  case isFalse hawake => simpa using hawake

theorem Queued.sendEvent (h : Queued b s xs) (host : Host) (t : EventType) :
    Queued b (s.mkbpSendEvent host t).1 xs := by
  obtain ⟨hsame, hevents⟩ := mkbpSendEvent_spec host t s
  refine ⟨h.frame hsame, ?_⟩
  intro x hx
  rw [hevents, h.event x hx, Bool.true_or]

theorem Stored.held_eq (h : Stored b s xs) : s.held = xs := by
  rw [held, h.entries]
  exact h.queue.contents

theorem Stored.slot_start {x : Slot} (h : Stored b s (x :: xs)) : s.slot s.fifoStart = x := by
  rw [slot, List.getD_eq_getElem?_getD, h.queue.front, Option.getD_some]

theorem Stored.entries_nil (h : Stored b s []) : s.fifoEntries = 0 := h.entries

theorem Stored.entries_cons {x : Slot} (h : Stored b s (x :: xs)) : s.fifoEntries ≠ 0 := by
  rw [h.entries]
  exact Nat.succ_ne_zero _

theorem init_queued : Queued b State.init [] where
  queue := RingQueue.nil (by
    rw [State.init.fifo.property]
    decide)
  entries := rfl
  depth := by decide
  types := by
    intro x hx
    cases hx
  event := by
    rintro x ⟨⟩
  conserved := rfl

/-! ## Taking an entry out -/

/-- The first entry leaves the FIFO. -/
theorem fifoRemove_spec {x : Slot} (h : Stored b s (x :: xs)) (fate : Fate) :
    (s.fifoRemove b fate).2.2 = (x.entry b).2 ∧ Stored b (s.fifoRemove b fate).1 xs ∧
      (s.fifoRemove b fate).1.left = s.left ++ [(x.entry b, fate)] ∧
      (s.fifoRemove b fate).1.responses = s.responses ∧
      (s.fifoRemove b fate).1.events = s.events := by
  have hpop := h.queue.pop
  rw [s.fifo.property] at hpop
  rw [fifoRemove, if_neg h.entries_cons, h.slot_start]
  refine ⟨rfl, ⟨hpop, ?_, h.depth, ?_, ?_⟩, rfl, rfl, rfl⟩
  · show s.fifoEntries - 1 = xs.length
    rw [h.entries, List.length_cons, Nat.add_sub_cancel]
  · intro y hy
    exact h.types y (List.mem_cons_of_mem x hy)
  · rw [← h.conserved]
    simp

/-- A type of the FIFO has data. -/
theorem getDataSize_pos {t : EventType} (h : b.source t = .fifo) : b.getDataSize t ≠ 0 := by
  have hcols := b.cols_pos
  cases t with
  | keyMatrix => exact Nat.ne_of_gt hcols
  | button | switch | sysrq => exact Nat.succ_ne_zero 3
  | _ =>
      simp only [Board.source] at h
      split at h <;> cases h

theorem busy_ne (n : Nat) : (n : Int) ≠ busy := by
  have hbusy : busy = -6 := rfl
  rw [hbusy]
  omega

/-- The source of the FIFO asked for the type of the first entry. -/
theorem getNextEvent_first {x : Slot} (h : Stored b s (x :: xs)) (host : Host) :
    ∃ s', s.getNextEvent b host x.eventType =
        (s', (b.getDataSize x.eventType : Int), (x.entry b).2) ∧
      Queued b s' xs ∧ s'.left = s.left ++ [(x.entry b, .fetched)] ∧
      s'.responses = s.responses := by
  obtain ⟨hout, hstored, hleft, hresponses, -⟩ := fifoRemove_spec h .fetched
  have hsize := getDataSize_pos (h.types x List.mem_cons_self)
  unfold getNextEvent
  dsimp only
  rw [h.slot_start, if_neg h.entries_cons, if_neg (not_not.mpr rfl), if_pos hsize, hout]
  refine ⟨_, rfl, ?_⟩
  cases xs with
  | nil =>
      rw [if_neg (not_not.mpr hstored.entries_nil)]
      exact ⟨⟨hstored, by rintro y ⟨⟩⟩, hleft, hresponses⟩
  | cons y ys =>
      obtain ⟨hsame, hevents⟩ := mkbpSendEvent_spec host y.eventType (s.fifoRemove b .fetched).1
      rw [if_pos hstored.entries_cons, hstored.slot_start]
      refine ⟨⟨hstored.frame hsame, ?_⟩, hsame.left.trans hleft, hsame.responses.trans hresponses⟩
      rintro z ⟨⟩
      rw [hevents]
      simp

theorem getNextEvent_other {x : Slot} (h : Stored b s (x :: xs)) (host : Host) {evt : EventType}
    (hne : x.eventType ≠ evt) : s.getNextEvent b host evt = (s, busy, []) := by
  unfold getNextEvent
  dsimp only
  rw [h.slot_start, if_neg h.entries_cons, if_pos hne]

theorem getNextEvent_nil (h : Stored b s []) (host : Host) (evt : EventType) :
    s.getNextEvent b host evt = (s, -1, []) := by
  unfold getNextEvent
  dsimp only
  rw [if_pos h.entries_nil]

/-! ## The loop -/

/-- The code of type `t` is found `d` steps behind `last`. -/
def Ahead (s : State) (t : EventType) (d : Nat) : Prop := Fin.ofNat 10 (s.last + d) = t.code

theorem exists_ahead (s : State) (t : EventType) : ∃ d < 10, Ahead s t d := by
  refine ⟨(t.code.val + 10 - s.last % 10) % 10, Nat.mod_lt _ (by decide), ?_⟩
  apply Fin.ext
  show (s.last + (t.code.val + 10 - s.last % 10) % 10) % 10 = t.code.val
  have hlt := t.code.isLt
  omega

/-- The search stops at an event that is set, and no later than at a given one. -/
theorem findEvent_le {t : EventType} {d : Nat} (hd : d < 10) (hahead : Ahead s t d)
    (hset : s.eventIsSet t = true) : ∃ i ≤ d, s.findEvent = some i := by
  have hfound : s.eventIsSet (.ofCode (Fin.ofNat 10 (s.last + d))) = true := by
    rw [hahead, EventType.ofCode_code]
    exact hset
  cases hfind : s.findEvent with
  | none =>
      have hnone := List.find?_eq_none.mp hfind d (List.mem_range.mpr hd)
      exact absurd hfound hnone
  | some i =>
      refine ⟨i, ?_, rfl⟩
      by_contra hlt
      have hbefore := (List.find?_range_eq_some.mp hfind).2.2 d (by omega)
      rw [hfound] at hbefore
      cases hbefore

/-- The host does not get an entry of the FIFO from this round. -/
def State.Round.Silent (b : Board) : State.Round → Prop
  | .data evt dataSize _ => dataSize ≠ busy ∧ (dataSize < 0 ∨ b.source evt ≠ .fifo)
  | _ => True

/-- How a round can go. -/
inductive RoundEffect (b : Board) (s : State) (xs : List Slot) : State × Round → Prop
  /-- the FIFO has no part in it -/
  | silent {s' : State} {r : Round} (hsame : SameFifo s s') (hqueued : Queued b s' xs)
      (hsilent : r.Silent b) : RoundEffect b s xs (s', r)
  /-- the first entry is fetched -/
  | fetched {s' : State} {x : Slot} {ys : List Slot} (hxs : xs = x :: ys)
      (hqueued : Queued b s' ys) (hleft : s'.left = s.left ++ [(x.entry b, .fetched)])
      (hresponses : s'.responses = s.responses) :
      RoundEffect b s xs
        (s', .data x.eventType (b.getDataSize x.eventType) (x.entry b).2)
  /-- the first entry is of another type, which is still ahead -/
  | again {s' : State} {x : Slot} {ys : List Slot} {evt : EventType} (hxs : xs = x :: ys)
      (hsame : SameFifo s s') (hqueued : Queued b s' xs)
      (hcloser : ∀ d < 10, Ahead s x.eventType d → ∃ d' < d, Ahead s' x.eventType d') :
      RoundEffect b s xs (s', .data evt busy [])

/-- The event that is found is cleared before its source is asked. -/
def taken (evt : EventType) (s : State) : State :=
  { s with last := evt.code.val + 1 }.clearEvent evt

theorem taken_sameFifo (evt : EventType) (s : State) : SameFifo s (taken evt s) :=
  ⟨rfl, rfl, rfl, rfl, rfl, rfl, rfl, rfl⟩

theorem eventIsSet_taken (evt u : EventType) (s : State) :
    (taken evt s).eventIsSet u = (s.eventIsSet u && !decide (evt = u)) :=
  eventIsSet_clearEvent { s with last := evt.code.val + 1 } evt u

/-- A type that is not that of the first entry. -/
theorem Queued.taken (h : Queued b s xs) (evt : EventType)
    (hne : ∀ x ∈ xs.head?, evt ≠ x.eventType) : Queued b (taken evt s) xs := by
  refine ⟨h.frame (taken_sameFifo evt s), ?_⟩
  intro x hx
  rw [eventIsSet_taken, h.event x hx, decide_eq_false (hne x hx)]
  rfl

theorem Stored.source_ne (h : Stored b s xs) (evt : EventType) (hsource : b.source evt ≠ .fifo) :
    ∀ x ∈ xs.head?, evt ≠ x.eventType := by
  rintro x hx rfl
  exact hsource (h.types x (List.mem_of_mem_head? hx))

/-- A type that was found too early is behind, and that of the first entry is closer. -/
theorem ahead_closer {x : Slot} {ys : List Slot} (h : Queued b s (x :: ys)) {i : Nat}
    (hfind : s.findEvent = some i) {evt : EventType}
    (hevt : evt = .ofCode (Fin.ofNat 10 (i + s.last))) (hne : x.eventType ≠ evt)
    (hlast : s'.last = evt.code.val + 1) :
    ∀ d < 10, Ahead s x.eventType d → ∃ d' < d, Ahead s' x.eventType d' := by
  intro d hd hahead
  obtain ⟨i', hle, hfind'⟩ := findEvent_le hd hahead (h.event x rfl)
  rw [hfind] at hfind'
  cases hfind'
  have hcode : evt.code.val = (i + s.last) % 10 := by
    rw [hevt, EventType.code_ofCode]
    rfl
  have hx : (s.last + d) % 10 = x.eventType.code.val := congrArg Fin.val hahead
  have hlt : i < d := by
    refine lt_of_le_of_ne hle ?_
    rintro rfl
    apply hne
    rw [← EventType.code_inj, hcode, ← hx, Nat.add_comm]
  refine ⟨d - i - 1, by lia, ?_⟩
  apply Fin.ext
  show (s'.last + (d - i - 1)) % 10 = x.eventType.code.val
  lia

theorem round_effect (h : Queued b s xs) (env : Env) : RoundEffect b s xs (s.round b env) := by
  unfold State.round
  cases hfind : s.findEvent with
  | none =>
      have hsame : SameFifo s (s.setHostInterrupt false) := ⟨rfl, rfl, rfl, rfl, rfl, rfl, rfl, rfl⟩
      exact .silent hsame ⟨h.frame hsame, h.event⟩ trivial
  | some i =>
      dsimp only
      generalize hevt : EventType.ofCode (Fin.ofNat 10 (i + s.last)) = evt
      have hsame := taken_sameFifo evt s
      have htaken : { s with last := evt.code.val + 1 }.clearEvent evt = taken evt s := rfl
      rw [htaken]
      cases hsource : b.source evt with
      | none =>
          have hne := h.source_ne evt (by rw [hsource]; decide)
          exact .silent hsame (h.taken evt hne) trivial
      | other =>
          have hnot : b.source evt ≠ .fifo := by
            rw [hsource]
            decide
          exact .silent hsame (h.taken evt (h.source_ne evt hnot)) ⟨busy_ne _, Or.inr hnot⟩
      | fifo =>
          have hstored : Stored b (taken evt s) xs := h.frame hsame
          cases xs with
          | nil =>
              have hbusy : (-1 : Int) ≠ busy := by decide
              rw [getNextEvent_nil hstored]
              dsimp only
              rw [if_neg hbusy]
              exact .silent hsame (h.taken evt (by rintro x ⟨⟩)) ⟨hbusy, Or.inl (by decide)⟩
          | cons x ys =>
              by_cases hfirst : x.eventType = evt
              · obtain ⟨s', heq, hqueued, hleft, hresponses⟩ := getNextEvent_first hstored env.host
                rw [hfirst] at heq
                rw [heq]
                dsimp only
                rw [if_neg (busy_ne _), ← hfirst]
                exact .fetched rfl hqueued hleft hresponses
              · rw [getNextEvent_other hstored env.host hfirst]
                dsimp only
                rw [if_pos rfl]
                have hsame' := hsame.trans (setEvent_sameFifo evt (taken evt s))
                refine .again rfl hsame' ⟨h.frame hsame', ?_⟩
                  (ahead_closer h hfind hevt.symm hfirst rfl)
                rintro y ⟨⟩
                rw [eventIsSet_setEvent, (h.taken evt (by
                  rintro y ⟨⟩
                  exact Ne.symm hfirst)).event x rfl, Bool.true_or]

/-- How the loop can end. -/
inductive LoopEffect (b : Board) (s : State) (xs : List Slot) : State × Round → Prop
  | silent {s' : State} {r : Round} (hsame : SameFifo s s') (hqueued : Queued b s' xs)
      (hsilent : r.Silent b) : LoopEffect b s xs (s', r)
  | fetched {s' : State} {x : Slot} {ys : List Slot} (hxs : xs = x :: ys)
      (hqueued : Queued b s' ys) (hleft : s'.left = s.left ++ [(x.entry b, .fetched)])
      (hresponses : s'.responses = s.responses) :
      LoopEffect b s xs (s', .data x.eventType (b.getDataSize x.eventType) (x.entry b).2)

/-- **The loop ends**, after one round more than there are types before that of the first
entry. -/
theorem retryLoop_spec (env : Env) (fuel : Nat) (h : Queued b s xs) (hfuel : 0 < fuel)
    (hahead : ∀ x ∈ xs.head?, ∃ d < 10, d < fuel ∧ Ahead s x.eventType d) :
    ∃ p, s.retryLoop b env fuel = some p ∧ LoopEffect b s xs p := by
  induction fuel generalizing s with
  | zero => cases hfuel
  | succ fuel ih =>
      have hround := round_effect h env
      unfold retryLoop
      generalize s.round b env = p at hround ⊢
      cases hround with
      | @silent s' r hsame hqueued hsilent =>
          cases r with
          | data evt dataSize out =>
              exact ⟨_, if_neg hsilent.1, .silent hsame hqueued hsilent⟩
          | unavailable => exact ⟨_, rfl, .silent hsame hqueued hsilent⟩
          | noSource => exact ⟨_, rfl, .silent hsame hqueued hsilent⟩
      | fetched hxs hqueued hleft hresponses =>
          exact ⟨_, if_neg (busy_ne _), .fetched hxs hqueued hleft hresponses⟩
      | @again s' x ys evt hxs hsame hqueued hcloser =>
          subst hxs
          obtain ⟨d, hd, hdfuel, hdahead⟩ := hahead x rfl
          obtain ⟨d', hlt, hdahead'⟩ := hcloser d hd hdahead
          have hnext := ih hqueued (by omega) (by
            rintro y ⟨⟩
            exact ⟨d', by omega, by omega, hdahead'⟩)
          dsimp only
          rw [if_pos rfl]
          obtain ⟨p, hloop, heffect⟩ := hnext
          refine ⟨p, hloop, ?_⟩
          cases heffect with
          | silent hsame' hqueued' hsilent => exact .silent (hsame.trans hsame') hqueued' hsilent
          | fetched hxs hqueued' hleft hresponses =>
              exact .fetched hxs hqueued' (by rw [hleft, hsame.left])
                (hresponses.trans hsame.responses)

/-! ## The calls -/

/-- What every call preserves. -/
structure Inv (b : Board) (s : State) (xs : List Slot) : Prop extends Queued b s xs where
  answered : Answered s

/-- The type in a response is the type of the event, with more events behind it or not. -/
theorem byte_and_mask (t : EventType) (more : Bool) :
    (if more then t.byte ||| ecMkbpHasMoreEvents else t.byte) &&& ecMkbpEventTypeMask = t.byte := by
  cases t <;> cases more <;> decide

/-- The data of an event fits a slot. -/
theorem getDataSize_le (b : Board) (t : EventType) : b.getDataSize t ≤ 13 := by
  have hcols := b.cols_le
  unfold Board.getDataSize
  split
  · exact hcols
  · split <;> decide
  all_goals decide

theorem length_entry (b : Board) (x : Slot) :
    (x.entry b).2.length = b.getDataSize x.eventType := by
  rw [Slot.entry, List.length_take, x.data.property]
  exact Nat.min_eq_left (getDataSize_le b x.eventType)

theorem Queued.respond (h : Queued b s xs) (responses : List Entry) :
    Queued b { s with responses := responses } xs :=
  ⟨⟨h.queue, h.entries, h.depth, h.types, h.conserved⟩, h.event⟩

/-- The line is lowered when there is no event. -/
def lowerLine (s : State) : State := if s.events ≠ 0#32 then s else s.setHostInterrupt false

theorem lowerLine_spec (s : State) :
    SameFifo s (lowerLine s) ∧ ∀ u, (lowerLine s).eventIsSet u = s.eventIsSet u := by
  unfold lowerLine
  split
  · exact ⟨SameFifo.refl s, fun _ => rfl⟩
  · exact ⟨⟨rfl, rfl, rfl, rfl, rfl, rfl, rfl, rfl⟩, fun _ => rfl⟩

theorem Queued.lowerLine (h : Queued b s xs) : Queued b (lowerLine s) xs := by
  obtain ⟨hsame, hevents⟩ := lowerLine_spec s
  refine ⟨h.frame hsame, ?_⟩
  intro x hx
  rw [hevents]
  exact h.event x hx

/-- **`EC_CMD_GET_NEXT_EVENT`** ends, after at most `EC_MKBP_EVENT_COUNT` rounds. -/
theorem mkbpGetNextEvent_spec (h : Inv b s xs) (env : Env) (version : Nat) {fuel : Nat}
    (hfuel : ecMkbpEventCount ≤ fuel) :
    ∃ s' r, s.mkbpGetNextEvent b env version fuel = some (s', r) ∧ ∃ ys, Inv b s' ys ∧
      (Moves s s' [] [] ∨ ∃ x ∈ xs.head?, Moves s s' [] [(x.entry b, .fetched)]) := by
  have hten : 10 ≤ fuel := hfuel
  obtain ⟨p, hloop, heffect⟩ := retryLoop_spec env fuel h.toQueued (by omega) (by
    intro x _
    obtain ⟨d, hd, hahead⟩ := exists_ahead s x.eventType
    exact ⟨d, hd, by omega, hahead⟩)
  unfold mkbpGetNextEvent
  rw [hloop]
  cases heffect with
  | @silent s' r hsame hqueued hsilent =>
      have hinv : Inv b s' xs := ⟨hqueued, hsame.answered h.answered⟩
      cases r with
      | unavailable => exact ⟨_, _, rfl, xs, hinv, Or.inl hsame.moves⟩
      | noSource => exact ⟨_, _, rfl, xs, hinv, Or.inl hsame.moves⟩
      | data evt dataSize out =>
          dsimp only
          have hline := (lowerLine_spec s').1
          have hinv' : Inv b (lowerLine s') xs :=
            ⟨hqueued.lowerLine, hline.answered hinv.answered⟩
          by_cases hneg : dataSize < 0
          · rw [if_pos hneg]
            exact ⟨_, _, rfl, xs, hinv', Or.inl (hsame.trans hline).moves⟩
          · have hsource : b.source evt ≠ .fifo := hsilent.2.resolve_left hneg
            rw [if_neg hneg, if_neg hsource]
            exact ⟨_, _, rfl, xs, hinv', Or.inl (hsame.trans hline).moves⟩
  | @fetched s' x ys hxs hqueued hleft hresponses =>
      subst hxs
      have hsource : b.source x.eventType = .fifo := h.types x List.mem_cons_self
      have hline := (lowerLine_spec s').1
      have hout : (x.entry b).2.take ((b.getDataSize x.eventType : Int)).toNat = (x.entry b).2 := by
        rw [Int.toNat_natCast, ← length_entry, List.take_length]
      dsimp only
      rw [if_neg (by omega : ¬ (b.getDataSize x.eventType : Int) < 0), if_pos hsource, hout]
      have hmoves : Moves s (lowerLine s') [] [(x.entry b, .fetched)] :=
        h.toStored.moves hqueued.lowerLine.toStored (hline.left.trans hleft) (by simp)
      refine ⟨_, _, rfl, ys, ⟨hqueued.lowerLine.respond _, ?_⟩, Or.inr ⟨x, rfl, hmoves.accepted,
        hmoves.left⟩⟩
      show (lowerLine s').responses ++ [(_ &&& ecMkbpEventTypeMask, (x.entry b).2)] =
        ((lowerLine s').left.filter fun e => e.2 = .fetched).map Prod.fst
      have hbyte := byte_and_mask x.eventType (decide (s'.events ≠ 0#32 ∧ 2 ≤ version))
      simp only [decide_eq_true_eq] at hbyte
      rw [List.headD_cons, hbyte, hline.responses, hline.left, hresponses, hleft, List.filter_append,
        List.map_append, ← h.answered]
      rfl

theorem length_newData (b : Board) (t : EventType) (buffp : Bytes) (s : State) :
    (writeAt (s.slot s.fifoEnd).data.val 0 (readBytes (b.getDataSize t) buffp)).length = 13 := by
  rw [length_writeAt, (s.slot s.fifoEnd).data.property]

/-- The slot behind the last entry, after the type and the data have been copied to it. -/
def newSlot (b : Board) (t : EventType) (buffp : Bytes) (s : State) : Slot :=
  ⟨t, writeAt (s.slot s.fifoEnd).data.val 0 (readBytes (b.getDataSize t) buffp),
    length_newData b t buffp s⟩

/-- The state after an entry has been put into the FIFO, before its event is sent. -/
def put (b : Board) (t : EventType) (buffp : Bytes) (s : State) : State :=
  { s with
    fifo := ⟨s.fifo.val.set s.fifoEnd (newSlot b t buffp s), by
      rw [List.length_set, s.fifo.property]⟩
    fifoEnd := (s.fifoEnd + 1) % fifoDepth
    fifoEntries := s.fifoEntries + 1
    accepted := s.accepted ++ [(t.byte, readBytes (b.getDataSize t) buffp)] }

/-- The entry has the bytes it was added with. -/
theorem entry_newSlot (t : EventType) (buffp : Bytes) (s : State) :
    (newSlot b t buffp s).entry b = (t.byte, readBytes (b.getDataSize t) buffp) := by
  have hdata := take_drop_writeAt_self (s.slot s.fifoEnd).data.val
    (readBytes (b.getDataSize t) buffp) (by
      rw [Nat.zero_add, length_readBytes, (s.slot s.fifoEnd).data.property]
      exact getDataSize_le b t)
  rw [length_readBytes, List.drop_zero] at hdata
  exact congrArg (Prod.mk t.byte) hdata

theorem mkbpFifoAdd_eq (host : Host) (t : EventType) (buffp : Bytes) (s : State) :
    (s.mkbpFifoAdd b host t buffp).1 =
      if !s.config.enable ∧ t = .keyMatrix then s
      else if s.fifoEntries ≥ s.config.fifoMaxDepth.toNat then s
      else
        let (s', sent) := (put b t buffp s).mkbpSendEvent host t
        if !sent ∧ s'.fifoEntries = 1 then (s'.fifoRemove b .asleep).1 else s' := by
  unfold mkbpFifoAdd
  split
  · rfl
  · split
    · rfl
    · exact apply_ite Prod.fst _ _ _

/-- The new entry is the last one. -/
theorem put_stored (h : Stored b s xs) {t : EventType} (htype : b.source t = .fifo)
    (hroom : xs.length < fifoDepth) (buffp : Bytes) :
    Stored b (put b t buffp s) (xs ++ [newSlot b t buffp s]) := by
  refine ⟨?_, ?_, h.depth, ?_, ?_⟩
  · have hpush := h.queue.push (by rw [s.fifo.property]; exact hroom) (newSlot b t buffp s)
    rw [s.fifo.property] at hpush
    exact hpush
  · show s.fifoEntries + 1 = _
    rw [h.entries, List.length_append, List.length_singleton]
  · intro y hy
    rcases List.mem_append.mp hy with hold | hnew
    · exact h.types y hold
    · rw [List.mem_singleton.mp hnew]
      exact htype
  · show s.left.map Prod.fst ++ _ = s.accepted ++ [(t.byte, readBytes (b.getDataSize t) buffp)]
    rw [← h.conserved, List.map_append, ← List.append_assoc, List.map_singleton, entry_newSlot]

/-- **`mkbp_fifo_add`.** -/
theorem mkbpFifoAdd_spec (h : Inv b s xs) (host : Host) {t : EventType}
    (htype : b.source t = .fifo) (buffp : Bytes) :
    ∃ ys, Inv b (s.mkbpFifoAdd b host t buffp).1 ys ∧
      Accounted b s (s.mkbpFifoAdd b host t buffp).1 (.fifoAdd host t buffp) := by
  have hlength : s.fifoEntries = s.held.length := by rw [h.held_eq, h.entries]
  rw [mkbpFifoAdd_eq]
  split
  case isTrue hdisabled =>
    exact ⟨xs, h, Or.inl ⟨Or.inl (by simpa using hdisabled), (SameFifo.refl s).moves⟩⟩
  case isFalse henabled =>
    split
    case isTrue hfull =>
      exact ⟨xs, h, Or.inl ⟨Or.inr (hlength ▸ hfull), (SameFifo.refl s).moves⟩⟩
    case isFalse hdepth =>
      have htaken : ¬ s.Refuses t := by
        rintro (hdisabled | hfull)
        · exact henabled (by simpa using hdisabled)
        · exact hdepth (hlength ▸ hfull)
      have hroom : xs.length < fifoDepth := by
        have hmax := h.depth
        have hentries := h.entries
        omega
      obtain ⟨hsame, hevents⟩ := mkbpSendEvent_spec host t (put b t buffp s)
      have hsent := (put_stored h.toStored htype hroom buffp).frame hsame
      have hanswered : Answered ((put b t buffp s).mkbpSendEvent host t).1 :=
        hsame.answered h.answered
      have hone : ((put b t buffp s).mkbpSendEvent host t).1.fifoEntries = 1 ↔ s.held = [] := by
        rw [hsent.entries, h.held_eq, List.length_append, List.length_singleton,
          ← List.length_eq_zero_iff]
        omega
      have hsleeps : (!((put b t buffp s).mkbpSendEvent host t).2) = true ↔
          host.CannotBeWoken t := by
        rw [Bool.not_eq_true', mkbpSendEvent_sent]
      have hentry := entry_newSlot (b := b) t buffp s
      dsimp only
      split
      case isTrue hgoes =>
        -- The FIFO was empty: the new entry is the only one, and goes.
        have hempty := hone.mp hgoes.2
        obtain rfl : xs = [] := h.held_eq.symm.trans hempty
        obtain ⟨-, hremoved, hleft, hresponses, -⟩ := fifoRemove_spec hsent .asleep
        have hgone := hleft.trans (congrArg (· ++ _) hsame.left)
        rw [hentry] at hgone
        refine ⟨[], ⟨⟨hremoved, by rintro y ⟨⟩⟩, ?_⟩, Or.inr (Or.inl ⟨htaken, hempty,
          hsleeps.mp hgoes.1, h.toStored.moves hremoved hgone rfl⟩)⟩
        unfold Answered
        rw [hresponses, hleft, List.filter_append, List.map_append, ← hanswered]
        simp
      case isFalse hkept =>
        refine ⟨xs ++ [newSlot b t buffp s], ⟨⟨hsent, ?_⟩, hanswered⟩, Or.inr (Or.inr ⟨htaken,
          fun hgone => hkept ⟨hsleeps.mpr hgone.2, hone.mpr hgone.1⟩, h.toStored.moves hsent
            (hsame.left.trans (List.append_nil _).symm) (by simp [hentry])⟩)⟩
        intro y hy
        rw [hevents]
        cases xs with
        | nil =>
            cases hy
            simp [newSlot]
        | cons z zs =>
            have hold : (put b t buffp s).eventIsSet y.eventType = true := h.event y hy
            rw [hold, Bool.true_or]

/-- **`mkbp_clear_fifo`.** -/
theorem mkbpClearFifo_spec (h : Inv b s xs) : Inv b (s.mkbpClearFifo b) [] := by
  refine ⟨⟨⟨RingQueue.nil ?_, rfl, h.depth, ?_, ?_⟩, by rintro y ⟨⟩⟩, ?_⟩
  · rw [(s.mkbpClearFifo b).fifo.property]
    show 0 < fifoDepth
    decide
  · intro y hy
    cases hy
  · show (s.left ++ s.held.map _).map Prod.fst ++ [] = s.accepted
    rw [h.held_eq, ← h.conserved, List.map_append, List.map_map, List.append_nil]
    rfl
  · show s.responses = ((s.left ++ s.held.map _).filter _).map Prod.fst
    rw [h.answered, List.filter_append, List.map_append, List.filter_map]
    simp

theorem mkbpSetConfig_spec (h : Inv b s xs) (fifoMaxDepth : Option UInt8) (enable : Option Bool) :
    Inv b (s.mkbpSetConfig fifoMaxDepth enable) xs := by
  refine ⟨⟨⟨h.queue, h.entries, ?_, h.types, h.conserved⟩, h.event⟩, h.answered⟩
  cases fifoMaxDepth with
  | none => exact h.depth
  | some depth =>
      show (if depth ≤ 16 then depth else 16).toNat ≤ 16
      split
      case isTrue hle => exact UInt8.le_iff_toNat_le.mp hle
      case isFalse => exact le_rfl

/-- What one call preserves. -/
theorem step_inv (h : Inv b s xs) {e : Event} (hallowed : fifoTypes b s e = true)
    (hstep : step b s e = some s') : ∃ ys, Inv b s' ys ∧ Accounted b s s' e := by
  have hnone : s.accepted = s.accepted ++ [] := (List.append_nil _).symm
  cases e with
  | fifoAdd host t buffp =>
      cases hstep
      exact mkbpFifoAdd_spec h host (by simpa [fifoTypes] using hallowed) buffp
  | getNextEvent env version =>
      obtain ⟨s₁, r, hget, ys, hinv, hmoves⟩ := mkbpGetNextEvent_spec h env version le_rfl
      simp only [step, hget, Option.map_some, Option.some.injEq] at hstep
      subst hstep
      rw [← h.held_eq] at hmoves
      exact ⟨ys, hinv, hmoves⟩
  | clearFifo =>
      cases hstep
      exact ⟨[], mkbpClearFifo_spec h, hnone, rfl⟩
  | setConfig fifoMaxDepth enable =>
      cases hstep
      exact ⟨xs, mkbpSetConfig_spec h fifoMaxDepth enable, hnone, (List.append_nil _).symm⟩
  | sendEvent host t =>
      cases hstep
      have hsame := (mkbpSendEvent_spec host t s).1
      exact ⟨xs, ⟨h.toQueued.sendEvent host t, hsame.answered h.answered⟩, hsame.moves⟩

/-! ## Every sequence of calls -/

/-- **MKBP events.** In every state: the indices of the FIFO agree; if it is not empty, the event
of its oldest entry is set; `EC_CMD_GET_NEXT_EVENT` ends after at most `EC_MKBP_EVENT_COUNT` rounds
of its loop; the entries that have left the FIFO and those in it are, in order, those that
were accepted; the host got those that were fetched, with their type and data; and every call
puts into the FIFO and takes out of it what `Accounted` says, so the others that have left it
were added to an empty FIFO while the host could not be woken, or removed by
`mkbp_clear_fifo`. -/
theorem mkbp_fifo_in_order (b : Board) {s : State}
    (h : Reachable (step b) (fifoTypes b) State.init s) :
    (s.fifoEnd = (s.fifoStart + s.fifoEntries) % fifoDepth ∧ s.fifoEntries ≤ fifoDepth) ∧
      (s.fifoEntries ≠ 0 → s.eventIsSet (s.slot s.fifoStart).eventType = true) ∧
      (∀ env version fuel, ecMkbpEventCount ≤ fuel →
        (s.mkbpGetNextEvent b env version fuel).isSome = true) ∧
      s.left.map Prod.fst ++ s.held.map (Slot.entry b) = s.accepted ∧
      s.responses = (s.left.filter fun e => e.2 = .fetched).map Prod.fst ∧
      ∀ e s', fifoTypes b s e = true → step b s e = some s' → Accounted b s s' e := by
  obtain ⟨xs, hinv⟩ : ∃ xs, Inv b s xs := by
    refine h.invariant (fun s => ∃ xs, Inv b s xs) ⟨[], init_queued, rfl⟩ ?_
    rintro s e s' ⟨xs, hinv⟩ hallowed hstep
    obtain ⟨ys, hnext, -⟩ := step_inv hinv hallowed hstep
    exact ⟨ys, hnext⟩
  refine ⟨⟨?_, ?_⟩, ?_, ?_, ?_, hinv.answered, ?_⟩
  · have hstop := hinv.queue.stop_eq
    rw [s.fifo.property, ← hinv.entries] at hstop
    exact hstop
  · have hle := hinv.queue.length_le
    rw [s.fifo.property, ← hinv.entries] at hle
    exact hle
  · intro hne
    cases xs with
    | nil => exact absurd hinv.entries_nil hne
    | cons x xs =>
        rw [hinv.slot_start]
        exact hinv.event x rfl
  · intro env version fuel hfuel
    obtain ⟨s', r, hget, -⟩ := mkbpGetNextEvent_spec hinv env version hfuel
    rw [hget]
    rfl
  · rw [hinv.held_eq]
    exact hinv.conserved
  · intro e s' hallowed hstep
    obtain ⟨-, -, haccounted⟩ := step_inv hinv hallowed hstep
    exact haccounted

/-- A board with the sources of the FIFO and with host events. -/
def exampleBoard : Board where
  keyboardCols := 13
  hostEvent64 := false
  emulatedSysrq := true
  otherSources := fun t => t = .hostEvent
  cols_pos := by decide
  cols_le := by decide

/-- The host is awake, and has these host events. -/
def exampleEnv : Env := ⟨⟨false, false⟩, fun _ => [0, 0, 0, 1]⟩

/-- A switch and a button, both fetched: the round robin meets the button first. -/
theorem mkbp_fifo_in_order_run :
    ∃ s, Reachable (step exampleBoard) (fifoTypes exampleBoard) State.init s ∧
      s.responses = [(4, [1, 0, 0, 0]), (3, [2, 0, 0, 0])] ∧
      s.left.map Prod.fst ++ s.held.map (Slot.entry exampleBoard) = s.accepted := by
  obtain ⟨s, hs, hresponses⟩ : ∃ s, Reachable (step exampleBoard) (fifoTypes exampleBoard)
      State.init s ∧ s.responses = [(4, [1, 0, 0, 0]), (3, [2, 0, 0, 0])] :=
    Reachable.exists_of_runEvents
      [.fifoAdd ⟨false, false⟩ .switch [1, 0, 0, 0], .fifoAdd ⟨false, false⟩ .button [2, 0, 0, 0],
        .getNextEvent exampleEnv 2, .getNextEvent exampleEnv 2] (by decide +kernel)
  exact ⟨s, hs, hresponses, (mkbp_fifo_in_order exampleBoard hs).2.2.2.1⟩

/-- **A host event in the FIFO.** `get_data_size` knows its size, but its source does not read the
FIFO: after it has been served, the FIFO has an entry whose event is not set, and the loop for a
button that comes behind it does not end in as many rounds as there are events. -/
theorem mkbp_host_event_stuck :
    ∃ s, Reachable (step exampleBoard) anyEvent State.init s ∧ s.fifoEntries ≠ 0 ∧
      s.eventIsSet (s.slot s.fifoStart).eventType = false ∧
      s.mkbpGetNextEvent exampleBoard exampleEnv 2 ecMkbpEventCount = none := by
  obtain ⟨s, hs, hP⟩ : ∃ s, Reachable (step exampleBoard) anyEvent State.init s ∧
      (s.fifoEntries ≠ 0 ∧ s.eventIsSet (s.slot s.fifoStart).eventType = false ∧
        (s.mkbpGetNextEvent exampleBoard exampleEnv 2 ecMkbpEventCount).isNone = true) :=
    Reachable.exists_of_runEvents
      [.fifoAdd ⟨false, false⟩ .hostEvent [1, 0, 0, 0], .getNextEvent exampleEnv 2,
        .fifoAdd ⟨false, false⟩ .button [2, 0, 0, 0]] (by decide +kernel)
  exact ⟨s, hs, hP.1, hP.2.1, Option.isNone_iff_eq_none.mp hP.2.2⟩

end Mkbp
end CrosEc
