import CrosEc.UsbPd.Tcpc

/-!
# The receive ring of the port controller

`State.Holds s xs` says that the messages `xs` lie in the ring between the tail and the head.
`Effect` says once what a call does to them: it keeps a message behind the others, it takes the
first one away, it fetches it, or it leaves them alone.  All invariants are derived from that.

The slot at the head is written by every reception, also by one that is dropped.  It is never a
slot of the ring that is in use, because the ring has one slot more than it may hold messages.

The tail moves on when `RX_STATUS` is cleared, fetched or not.  So the messages that come out
are those that went in for a port manager that clears `RX_STATUS` after it has fetched a
message and fetches while `RX_STATUS` is set (`retrieves`), and for no other one
(`tcpc_clear_loses_message`, `tcpc_fetch_stale_message`).
-/

namespace CrosEc
namespace UsbPd
namespace Tcpc

open Lib

variable {size : Nat} {s s' : State size} {xs xs' : List Message}

/-! ## The slots -/

namespace State

/-- The messages `xs` lie in the ring from the tail on, up to the head. -/
structure Holds (s : State size) (xs : List Message) : Prop where
  queue : RingQueue s.rxBuf.val s.rxBufTail s.rxBufHead xs
  length_le : xs.length ≤ size

theorem rxBufIncrement_eq {bufPtr : Nat} (h : bufPtr ≤ size) :
    rxBufIncrement size bufPtr = (bufPtr + 1) % (size + 1) := by
  unfold rxBufIncrement
  split
  · subst bufPtr
    exact (Nat.mod_self _).symm
  · exact (Nat.mod_eq_of_lt (by omega)).symm

theorem Holds.tail_le (h : s.Holds xs) : s.rxBufTail ≤ size := by
  have hlt := h.queue.start_lt
  rw [s.rxBuf.property] at hlt
  exact Nat.le_of_lt_succ hlt

theorem Holds.head_le (h : s.Holds xs) : s.rxBufHead ≤ size := by
  have hlt := h.queue.stop_lt
  rw [s.rxBuf.property] at hlt
  exact Nat.le_of_lt_succ hlt

theorem Holds.head_cases (h : s.Holds xs) :
    s.rxBufHead = s.rxBufTail + xs.length ∧ s.rxBufTail + xs.length ≤ size ∨
      s.rxBufHead + (size + 1) = s.rxBufTail + xs.length := by
  have htail := h.tail_le
  have hlen := h.length_le
  have hhead := h.queue.stop_eq
  rw [s.rxBuf.property] at hhead
  by_cases hturn : s.rxBufTail + xs.length < size + 1
  · rw [Nat.mod_eq_of_lt hturn] at hhead
    exact Or.inl ⟨hhead, by lia⟩
  · rw [Nat.mod_eq_sub_mod (by lia), Nat.mod_eq_of_lt (by lia)] at hhead
    exact Or.inr (by lia)

theorem Holds.rxBufIsFull_iff (h : s.Holds xs) : s.rxBufIsFull = true ↔ xs.length = size := by
  have htail := h.tail_le
  have hlen := h.length_le
  simp only [rxBufIsFull, decide_eq_true_eq]
  rcases h.head_cases with ⟨hhead, -⟩ | hhead <;> lia

theorem Holds.rxBufIsEmpty_iff (h : s.Holds xs) : s.rxBufIsEmpty = true ↔ xs = [] := by
  have htail := h.tail_le
  have hlen := h.length_le
  rw [← List.length_eq_zero_iff]
  simp only [rxBufIsEmpty, decide_eq_true_eq]
  rcases h.head_cases with ⟨hhead, -⟩ | hhead <;> omega

/-- What the ring holds is what the source finds in it. -/
theorem Holds.held_eq (h : s.Holds xs) : s.held = xs := by
  have htail := h.tail_le
  have hlen := h.length_le
  have hcount : (s.rxBufHead + (size + 1) - s.rxBufTail) % (size + 1) = xs.length := by
    rcases h.head_cases with ⟨hhead, -⟩ | hhead
    · rw [show s.rxBufHead + (size + 1) - s.rxBufTail = xs.length + (size + 1) by omega,
        Nat.add_mod_right, Nat.mod_eq_of_lt (by omega)]
    · rw [hhead, Nat.add_sub_cancel_left, Nat.mod_eq_of_lt (by omega)]
  rw [held, hcount]
  exact h.queue.contents

/-- A call that leaves the slots and both indices alone leaves the messages alone. -/
theorem Holds.frame (h : s.Holds xs) (hbuf : s'.rxBuf = s.rxBuf)
    (hhead : s'.rxBufHead = s.rxBufHead) (htail : s'.rxBufTail = s.rxBufTail) : s'.Holds xs := by
  refine ⟨?_, h.length_le⟩
  rw [hbuf, hhead, htail]
  exact h.queue

theorem init_holds : (init size).Holds [] where
  queue := RingQueue.nil (by
    rw [(init size).rxBuf.property]
    exact Nat.succ_pos size)
  length_le := Nat.zero_le _

theorem length_set_rxBuf (msg : Message) (s : State size) :
    (s.rxBuf.val.set s.rxBufHead msg).length = size + 1 := by
  rw [List.length_set, s.rxBuf.property]

/-- The state after a message has been written to the slot at the head. -/
def put (msg : Message) (s : State size) : State size :=
  { s with rxBuf := ⟨s.rxBuf.val.set s.rxBufHead msg, length_set_rxBuf msg s⟩ }

theorem Holds.room (h : s.Holds xs) : xs.length < s.rxBuf.val.length := by
  rw [s.rxBuf.property]
  exact Nat.lt_succ_of_le h.length_le

/-- A message at the head that is not kept touches nothing. -/
theorem Holds.put (h : s.Holds xs) (msg : Message) : (s.put msg).Holds xs where
  queue := h.queue.overwrite h.room msg
  length_le := h.length_le

/-- A message at the head that is kept. -/
theorem Holds.keep (h : s.Holds xs) (hroom : xs.length < size) {msg : Message}
    (hbuf : s'.rxBuf = (s.put msg).rxBuf) (htail : s'.rxBufTail = s.rxBufTail)
    (hhead : s'.rxBufHead = rxBufIncrement size s.rxBufHead) : s'.Holds (xs ++ [msg]) := by
  refine ⟨?_, ?_⟩
  · have hpush := h.queue.push h.room msg
    rw [s.rxBuf.property, ← rxBufIncrement_eq h.head_le] at hpush
    rw [hbuf, htail, hhead]
    exact hpush
  · rw [List.length_append, List.length_singleton]
    exact hroom

/-- The tail moves on. -/
theorem Holds.drop {x : Message} (h : s.Holds (x :: xs)) (hbuf : s'.rxBuf = s.rxBuf)
    (hhead : s'.rxBufHead = s.rxBufHead)
    (htail : s'.rxBufTail = rxBufIncrement size s.rxBufTail) : s'.Holds xs := by
  refine ⟨?_, Nat.le_of_succ_le h.length_le⟩
  have hpop := h.queue.pop
  rw [s.rxBuf.property, ← rxBufIncrement_eq h.tail_le] at hpop
  rw [hbuf, hhead, htail]
  exact hpop

/-- `tcpc_get_message` returns the oldest message. -/
theorem Holds.tcpcGetMessage_eq {x : Message} (h : s.Holds (x :: xs)) :
    s.tcpcGetMessage = some x := h.queue.front

end State

/-! ## What a call does -/

theorem and_alertRxStatus (x : BitVec 16) : x &&& alertRxStatus ≠ 0#16 ↔ x.getLsbD 2 = true := by
  rw [show alertRxStatus = BitVec.twoPow 16 2 by rfl, BitVec.and_twoPow]
  split
  · exact iff_of_true (by decide) ‹_›
  · exact iff_of_false (by decide) ‹_›

/-- The ring and all that belongs to it are left alone. -/
structure Quiet (s s' : State size) : Prop where
  buf : s'.rxBuf = s.rxBuf
  head : s'.rxBufHead = s.rxBufHead
  tail : s'.rxBufTail = s.rxBufTail
  rx : s'.alert.getLsbD 2 = s.alert.getLsbD 2
  kept : s'.kept = s.kept
  acknowledged : s'.acknowledged = s.acknowledged
  fetched : s'.fetched = s.fetched
  handedOut : s'.handedOut = s.handedOut

/-- What a call does to the messages `xs` in the ring, and to what the state records of them. -/
inductive Effect (s : State size) (e : Event) (s' : State size) (xs : List Message) : List Message → Prop
  /-- no message comes or goes -/
  | none (hrx : s'.alert.getLsbD 2 = s.alert.getLsbD 2) (hkept : s'.kept = s.kept)
      (hack : s'.acknowledged = s.acknowledged) (hfetched : s'.fetched = s.fetched)
      (hout : s'.handedOut = s.handedOut) : Effect s e s' xs xs
  /-- a message is kept, and acknowledged if it is not a GoodCRC itself -/
  | keep (msg : Message) (hroom : xs.length < size) (hrx : s'.alert.getLsbD 2 = true)
      (hkept : s'.kept = s.kept ++ [msg])
      (hack : s'.acknowledged = s.acknowledged ∨ s'.acknowledged = s.acknowledged ++ [msg])
      (hfetched : s'.fetched = s.fetched) (hout : s'.handedOut = s.handedOut) :
      Effect s e s' xs (xs ++ [msg])
  /-- the message at the tail is fetched -/
  | fetch (hcall : e = .getMessage) (hrx : s'.alert.getLsbD 2 = s.alert.getLsbD 2)
      (hkept : s'.kept = s.kept) (hack : s'.acknowledged = s.acknowledged)
      (hfetched : xs ≠ [] → s'.fetched = xs.head?) (hout : s'.handedOut = s.handedOut) :
      Effect s e s' xs xs
  /-- `RX_STATUS` is cleared: it stays set as long as there are messages -/
  | clear (mask : BitVec 16) (hcall : e = .alertStatusClear mask)
      (hmask : mask &&& alertRxStatus ≠ 0#16) (hrx : s'.alert.getLsbD 2 = !xs.tail.isEmpty)
      (hkept : s'.kept = s.kept) (hack : s'.acknowledged = s.acknowledged)
      (hfetched : s'.fetched = none)
      (hout : s'.handedOut = s.handedOut ++ s.fetched.toList) : Effect s e s' xs xs.tail

theorem Quiet.refl (s : State size) : Quiet s s := ⟨rfl, rfl, rfl, rfl, rfl, rfl, rfl, rfl⟩

theorem Quiet.trans {s₁ : State size} (h : Quiet s s₁) (h' : Quiet s₁ s') : Quiet s s' where
  buf := h'.buf.trans h.buf
  head := h'.head.trans h.head
  tail := h'.tail.trans h.tail
  rx := h'.rx.trans h.rx
  kept := h'.kept.trans h.kept
  acknowledged := h'.acknowledged.trans h.acknowledged
  fetched := h'.fetched.trans h.fetched
  handedOut := h'.handedOut.trans h.handedOut

/-- An alert other than `RX_STATUS`. -/
theorem quiet_raise {mask : BitVec 16} (h : mask.getLsbD 2 = false) (s : State size) :
    Quiet s (s.raise mask) where
  buf := rfl
  head := rfl
  tail := rfl
  rx := by
    show (s.alert ||| mask).getLsbD 2 = _
    rw [BitVec.getLsbD_or, h, Bool.or_false]
  kept := rfl
  acknowledged := rfl
  fetched := rfl
  handedOut := rfl

theorem quiet_transmitted (res : Int) (s : State size) : Quiet s (s.transmitted res) := by
  unfold State.transmitted
  split
  · exact quiet_raise (by decide) s
  · split
    · exact quiet_raise (by decide) s
    · exact quiet_raise (by decide) s

/-- A run without an incoming packet. -/
theorem quiet_tcpcRun_none (sent : Option Int) (ccChanged : Bool × Bool) (s : State size) :
    Quiet s (s.tcpcRun ⟨none, sent, ccChanged⟩) := by
  have hcc (b : Bool) (t : State size) : Quiet t (if b then t.raise alertCcStatus else t) := by
    cases b with
    | true => exact quiet_raise (by decide) t
    | false => exact Quiet.refl t
  unfold State.tcpcRun
  dsimp only
  split
  · exact quiet_transmitted _ s
  · exact (hcc ccChanged.1 s).trans (hcc ccChanged.2 _)

theorem Quiet.holds (h : Quiet s s') (hs : s.Holds xs) : s'.Holds xs :=
  hs.frame h.buf h.head h.tail

theorem Quiet.effect (h : Quiet s s') {e : Event} : Effect s e s' xs xs :=
  .none h.rx h.kept h.acknowledged h.fetched h.handedOut

theorem Effect.quiet {s₁ : State size} {e : Event} (h : Effect s e s₁ xs xs') (h' : Quiet s₁ s') :
    Effect s e s' xs xs' := by
  cases h with
  | none hrx hkept hack hfetched hout =>
      exact .none (h'.rx.trans hrx) (h'.kept.trans hkept) (h'.acknowledged.trans hack)
        (h'.fetched.trans hfetched) (h'.handedOut.trans hout)
  | keep msg hroom hrx hkept hack hfetched hout =>
      exact .keep msg hroom (h'.rx.trans hrx) (h'.kept.trans hkept)
        (hack.imp h'.acknowledged.trans h'.acknowledged.trans) (h'.fetched.trans hfetched)
        (h'.handedOut.trans hout)
  | fetch hcall hrx hkept hack hfetched hout =>
      exact .fetch hcall (h'.rx.trans hrx) (h'.kept.trans hkept) (h'.acknowledged.trans hack)
        (fun hne => h'.fetched.trans (hfetched hne)) (h'.handedOut.trans hout)
  | clear mask hcall hmask hrx hkept hack hfetched hout =>
      exact .clear mask hcall hmask (h'.rx.trans hrx) (h'.kept.trans hkept) (h'.acknowledged.trans hack)
        (h'.fetched.trans hfetched) (h'.handedOut.trans hout)

/-- A GoodCRC is sent for the message at most. -/
theorem handleRequest_eq (msg : Message) (collision : Bool) (s : State size) :
    s.handleRequest msg collision = s ∨
      s.handleRequest msg collision = { s with acknowledged := s.acknowledged ++ [msg] } := by
  unfold State.handleRequest
  dsimp only
  split
  · split
    · exact Or.inl rfl
    · exact Or.inr rfl
  · exact Or.inl rfl

theorem receive_eq (msg : Message) (collision : Bool) (s : State size) :
    s.receive msg collision =
      if 0 < msg.head ∧ !(s.put msg).rxBufIsFull then
        (State.handleRequest msg collision
          { s.put msg with
            rxBufHead := State.rxBufIncrement size s.rxBufHead
            kept := s.kept ++ [msg] }).raise alertRxStatus
      else if msg.head = pdRxErrHardReset then (s.put msg).raise alertRxHardRst
      else s.put msg := rfl

/-- A reception keeps the message, or writes it to a slot that is not in use. -/
theorem receive_effect (hs : s.Holds xs) (msg : Message) (collision : Bool) (e : Event) :
    ∃ xs', (s.receive msg collision).Holds xs' ∧ Effect s e (s.receive msg collision) xs xs' := by
  have hput := hs.put msg
  rw [receive_eq]
  by_cases hkeep : 0 < msg.head ∧ !(s.put msg).rxBufIsFull
  · have hroom : xs.length < size := by
      refine lt_of_le_of_ne hs.length_le ?_
      intro hfull
      rw [hput.rxBufIsFull_iff.mpr hfull] at hkeep
      exact absurd hkeep.2 (by decide)
    rw [if_pos hkeep]
    have hrx (t : State size) : (t.raise alertRxStatus).alert.getLsbD 2 = true := by
      show (t.alert ||| alertRxStatus).getLsbD 2 = true
      rw [BitVec.getLsbD_or]
      exact Bool.or_eq_true_iff.mpr (Or.inr rfl)
    rcases handleRequest_eq msg collision { s.put msg with
        rxBufHead := State.rxBufIncrement size s.rxBufHead
        kept := s.kept ++ [msg] } with heq | heq
    · rw [heq]
      exact ⟨_, hs.keep hroom rfl rfl rfl, .keep msg hroom (hrx _) rfl (Or.inl rfl) rfl rfl⟩
    · rw [heq]
      exact ⟨_, hs.keep hroom rfl rfl rfl, .keep msg hroom (hrx _) rfl (Or.inr rfl) rfl rfl⟩
  · rw [if_neg hkeep]
    split
    · have hquiet := quiet_raise (by decide : alertRxHardRst.getLsbD 2 = false) (s.put msg)
      exact ⟨xs, hquiet.holds hput, .none hquiet.rx rfl rfl rfl rfl⟩
    · exact ⟨xs, hput, .none rfl rfl rfl rfl rfl⟩

/-- **`tcpc_run`** does to the messages what its incoming packet does. -/
theorem tcpcRun_effect (hs : s.Holds xs) (r : State.Run) :
    ∃ xs', (s.tcpcRun r).Holds xs' ∧ Effect s (.run r) (s.tcpcRun r) xs xs' := by
  obtain ⟨received, sent, ccChanged⟩ := r
  cases received with
  | none =>
      have hquiet := quiet_tcpcRun_none sent ccChanged s
      exact ⟨xs, hquiet.holds hs, hquiet.effect⟩
  | some packet =>
      obtain ⟨msg, collision⟩ := packet
      rw [State.tcpcRun_some]
      split
      · obtain ⟨xs₁, hs₁, heffect⟩ := receive_effect hs msg collision
          (.run ⟨some (msg, collision), sent, ccChanged⟩)
        have hquiet := quiet_tcpcRun_none sent ccChanged (s.receive msg collision)
        exact ⟨xs₁, hquiet.holds hs₁, heffect.quiet hquiet⟩
      · have hquiet := quiet_tcpcRun_none sent ccChanged s
        exact ⟨xs, hquiet.holds hs, hquiet.effect⟩

namespace State

/-- The end of `tcpc_alert_status_clear`: the bits are cleared, and the line with the last one. -/
def clearAlert (mask : BitVec 16) (s : State size) : State size :=
  { s with
    alert := s.alert &&& ~~~mask
    alertLine := if s.alert &&& ~~~mask = 0#16 then false else s.alertLine }

/-- What is recorded when `RX_STATUS` is cleared. -/
def handOut (s : State size) : State size :=
  { s with fetched := none, handedOut := s.handedOut ++ s.fetched.toList }

/-- The start of it: the slot at the tail is given back, and `RX_STATUS` is not to be cleared if
there are more. -/
def releaseSlot (mask : BitVec 16) (s : State size) : State size × BitVec 16 :=
  if mask &&& alertRxStatus ≠ 0#16 then
    if !s.handOut.rxBufIsEmpty then
      let t := { s.handOut with rxBufTail := rxBufIncrement size s.rxBufTail }
      if !t.rxBufIsEmpty then (t, mask &&& ~~~alertRxStatus) else (t, mask)
    else (s.handOut, mask)
  else (s, mask)

theorem tcpcAlertStatusClear_eq (mask : BitVec 16) (s : State size) :
    s.tcpcAlertStatusClear mask =
      (s.releaseSlot mask).1.clearAlert (s.releaseSlot mask).2 := by
  have hlast (p : State size × BitVec 16) :
      (if p.1.alert &&& ~~~p.2 = 0#16 then
          { p.1 with alert := p.1.alert &&& ~~~p.2, alertLine := false }
        else { p.1 with alert := p.1.alert &&& ~~~p.2 }) = p.1.clearAlert p.2 := by
    unfold clearAlert
    split <;> rfl
  exact hlast (s.releaseSlot mask)

/-- The register: `RX_STATUS` goes if it is in the mask. -/
theorem clearAlert_rx (mask : BitVec 16) (s : State size) :
    (s.clearAlert mask).alert.getLsbD 2 = (s.alert.getLsbD 2 && !mask.getLsbD 2) := by
  show (s.alert &&& ~~~mask).getLsbD 2 = _
  simp

theorem Holds.clearAlert (h : s.Holds xs) (mask : BitVec 16) : (s.clearAlert mask).Holds xs :=
  h.frame rfl rfl rfl

theorem releaseSlot_nil (h : s.Holds []) {mask : BitVec 16} (hmask : mask &&& alertRxStatus ≠ 0#16) :
    s.releaseSlot mask = (s.handOut, mask) := by
  have hempty : s.handOut.rxBufIsEmpty = true := h.rxBufIsEmpty_iff.mpr rfl
  rw [releaseSlot, if_pos hmask, if_neg (by rw [hempty]; decide)]

theorem releaseSlot_cons {x : Message} (h : s.Holds (x :: xs)) {mask : BitVec 16}
    (hmask : mask &&& alertRxStatus ≠ 0#16) :
    ∃ t : State size, t = { s.handOut with rxBufTail := rxBufIncrement size s.rxBufTail } ∧
      t.Holds xs ∧
      s.releaseSlot mask = (t, if xs.isEmpty then mask else mask &&& ~~~alertRxStatus) := by
  have hne : s.handOut.rxBufIsEmpty ≠ true := by
    intro hempty
    cases h.rxBufIsEmpty_iff.mp hempty
  have ht : State.Holds { s.handOut with rxBufTail := rxBufIncrement size s.rxBufTail } xs :=
    h.drop rfl rfl rfl
  refine ⟨_, rfl, ht, ?_⟩
  rw [releaseSlot, if_pos hmask, if_pos (by simpa using hne)]
  dsimp only
  cases xs with
  | nil => rw [if_neg (by rw [ht.rxBufIsEmpty_iff.mpr rfl]; decide), List.isEmpty_nil, if_pos rfl]
  | cons y ys =>
      have hmore : ¬ State.rxBufIsEmpty
          { s.handOut with rxBufTail := rxBufIncrement size s.rxBufTail } = true := by
        intro hempty
        cases ht.rxBufIsEmpty_iff.mp hempty
      rw [if_pos (by simpa using hmore), List.isEmpty_cons, if_neg (by decide)]

end State

theorem tcpcAlertStatusClear_effect (hs : s.Holds xs) (hrx : s.alert.getLsbD 2 = !xs.isEmpty)
    (mask : BitVec 16) :
    ∃ xs', (s.tcpcAlertStatusClear mask).Holds xs' ∧
      Effect s (.alertStatusClear mask) (s.tcpcAlertStatusClear mask) xs xs' := by
  rw [State.tcpcAlertStatusClear_eq]
  by_cases hmask : mask &&& alertRxStatus ≠ 0#16
  · have hset := (and_alertRxStatus mask).mp hmask
    cases xs with
    | nil =>
        have hholds : s.handOut.Holds [] := hs.frame rfl rfl rfl
        rw [State.releaseSlot_nil hs hmask]
        refine ⟨[], hholds.clearAlert mask, .clear mask rfl hmask ?_ rfl rfl rfl rfl⟩
        rw [State.clearAlert_rx]
        show (s.alert.getLsbD 2 && _) = _
        rw [hrx]
        rfl
    | cons x xs =>
        obtain ⟨t, ht, hholds, hrelease⟩ := State.releaseSlot_cons hs hmask
        rw [hrelease]
        refine ⟨xs, hholds.clearAlert _, ?_⟩
        subst t
        refine .clear mask rfl hmask ?_ rfl rfl rfl rfl
        rw [State.clearAlert_rx]
        show (s.alert.getLsbD 2 && _) = _
        rw [hrx]
        cases xs with
        | nil => simp [hset]
        | cons y ys =>
            have hrest : (mask &&& ~~~alertRxStatus).getLsbD 2 = false := by
              rw [BitVec.getLsbD_and, show (~~~alertRxStatus).getLsbD 2 = false by decide,
                Bool.and_false]
            show (true && !(mask &&& ~~~alertRxStatus).getLsbD 2) = true
            rw [hrest]
            rfl
  · have hset : mask.getLsbD 2 = false := by
      rw [← Bool.not_eq_true, ← and_alertRxStatus]
      exact hmask
    rw [State.releaseSlot, if_neg hmask]
    refine ⟨xs, hs.clearAlert mask, .none ?_ rfl rfl rfl rfl⟩
    rw [State.clearAlert_rx, hset, Bool.not_false, Bool.and_true]

theorem step_effect (hs : s.Holds xs) (hrx : s.alert.getLsbD 2 = !xs.isEmpty) {e : Event}
    (hstep : step s e = some s') : ∃ xs', s'.Holds xs' ∧ Effect s e s' xs xs' := by
  cases e with
  | run r =>
      cases hstep
      exact tcpcRun_effect hs r
  | getMessage =>
      simp only [step, Option.bind_eq_bind, Option.bind_eq_some_iff, Option.pure_def,
        Option.some.injEq] at hstep
      obtain ⟨msg, hmsg, rfl⟩ := hstep
      refine ⟨xs, hs.frame rfl rfl rfl, .fetch rfl rfl rfl rfl ?_ rfl⟩
      intro hne
      cases xs with
      | nil => exact absurd rfl hne
      | cons x xs =>
          rw [hs.tcpcGetMessage_eq] at hmsg
          exact hmsg.symm
  | alertStatus =>
      cases hstep
      exact ⟨xs, hs, (Quiet.refl s).effect⟩
  | alertStatusClear mask =>
      cases hstep
      exact tcpcAlertStatusClear_effect hs hrx mask
  | alertMaskSet mask =>
      cases hstep
      exact ⟨xs, hs.frame rfl rfl rfl, .none rfl rfl rfl rfl rfl⟩
  | setRxEnable enable =>
      cases hstep
      exact ⟨xs, hs.frame rfl rfl rfl, .none rfl rfl rfl rfl rfl⟩

/-! ## Every sequence of calls -/

/-- The ring holds the last messages that were kept, and `RX_STATUS` says that there are some. -/
structure Inv (s : State size) (xs : List Message) : Prop where
  holds : s.Holds xs
  rx : s.alert.getLsbD 2 = !xs.isEmpty
  suffix : xs <:+ s.kept
  acknowledged : s.acknowledged.Sublist s.kept

theorem init_inv : Inv (init size) [] where
  holds := State.init_holds
  rx := by simp [init]
  suffix := List.suffix_rfl
  acknowledged := List.Sublist.refl _

/-- What one call preserves. -/
theorem step_inv (h : Inv s xs) {e : Event} (hstep : step s e = some s') :
    ∃ xs', Inv s' xs' ∧ Effect s e s' xs xs' := by
  obtain ⟨xs', hholds, heffect⟩ := step_effect h.holds h.rx hstep
  refine ⟨xs', ?_, heffect⟩
  cases heffect with
  | none hrx hkept hack hfetched hout =>
      refine ⟨hholds, hrx.trans h.rx, ?_, ?_⟩
      · rw [hkept]
        exact h.suffix
      · rw [hkept, hack]
        exact h.acknowledged
  | keep msg hroom hrx hkept hack hfetched hout =>
      refine ⟨hholds, ?_, ?_, ?_⟩
      · rw [hrx]
        cases xs <;> rfl
      · obtain ⟨before, hbefore⟩ := h.suffix
        exact ⟨before, by rw [hkept, ← hbefore, List.append_assoc]⟩
      · rw [hkept]
        rcases hack with hack | hack
        · rw [hack]
          exact h.acknowledged.trans (List.sublist_append_left _ _)
        · rw [hack]
          exact h.acknowledged.append (List.Sublist.refl [msg])
  | fetch hcall hrx hkept hack hfetched hout =>
      refine ⟨hholds, hrx.trans h.rx, ?_, ?_⟩
      · rw [hkept]
        exact h.suffix
      · rw [hkept, hack]
        exact h.acknowledged
  | clear mask hcall hmask hrx hkept hack hfetched hout =>
      refine ⟨hholds, hrx, ?_, ?_⟩
      · rw [hkept]
        exact (List.tail_suffix xs).trans h.suffix
      · rw [hkept, hack]
        exact h.acknowledged

theorem reachable_inv {allowed : State size → Event → Bool}
    (h : Reachable step allowed (init size) s) : ∃ xs, Inv s xs := by
  refine h.invariant (fun s => ∃ xs, Inv s xs) ⟨[], init_inv⟩ ?_
  rintro s e s' ⟨xs, hinv⟩ - hstep
  obtain ⟨xs', hinv', -⟩ := step_inv hinv hstep
  exact ⟨xs', hinv'⟩

/-! ## A port manager that retrieves what it clears -/

/-- The port manager fetches a message while `RX_STATUS` is set, and clears `RX_STATUS` after
it has fetched one. -/
def retrieves (s : State size) : Event → Bool
  | .getMessage => s.alert &&& alertRxStatus ≠ 0#16
  | .alertStatusClear mask => mask &&& alertRxStatus = 0#16 ∨ s.fetched.isSome
  | _ => true

/-- Nothing has been lost: the messages that are not in the ring any more were handed out, and
what was fetched is the message that goes next. -/
structure Retrieved (s : State size) (xs : List Message) : Prop where
  inv : Inv s xs
  out : s.handedOut ++ xs = s.kept
  fetched : s.fetched ≠ none → s.fetched = xs.head?

theorem step_retrieved (h : Retrieved s xs) {e : Event} (hallowed : retrieves s e = true)
    (hstep : step s e = some s') : ∃ xs', Retrieved s' xs' := by
  obtain ⟨xs', hinv', heffect⟩ := step_inv h.inv hstep
  refine ⟨xs', hinv', ?_, ?_⟩
  · cases heffect with
    | none hrx hkept hack hfetched hout =>
        rw [hout, hkept]
        exact h.out
    | keep msg hroom hrx hkept hack hfetched hout =>
        rw [hout, hkept, ← h.out, List.append_assoc]
    | fetch hcall hrx hkept hack hfetched hout =>
        rw [hout, hkept]
        exact h.out
    | clear mask hcall hmask hrx hkept hack hfetched hout =>
        subst e
        -- What is handed out is what was fetched, and that is the message that is given back.
        have hsome : s.fetched.isSome = true := by
          simpa [retrieves, hmask] using hallowed
        have hhead := h.fetched (Option.isSome_iff_ne_none.mp hsome)
        rw [hout, hkept, ← h.out, List.append_assoc, hhead]
        cases xs with
        | nil => rfl
        | cons x xs => rfl
  · intro hne
    cases heffect with
    | none hrx hkept hack hfetched hout =>
        rw [hfetched] at hne ⊢
        exact h.fetched hne
    | keep msg hroom hrx hkept hack hfetched hout =>
        rw [hfetched] at hne ⊢
        have hhead := h.fetched hne
        rw [hhead] at hne ⊢
        exact (List.head?_append_of_ne_nil _ (by
          rintro rfl
          exact hne rfl)).symm
    | fetch hcall hrx hkept hack hfetched hout =>
        subst e
        apply hfetched
        rintro rfl
        have hpending : s.alert.getLsbD 2 = true := by
          rw [← and_alertRxStatus]
          simpa [retrieves] using hallowed
        rw [h.inv.rx] at hpending
        cases hpending
    | clear mask hcall hmask hrx hkept hack hfetched hout => exact absurd hfetched hne

theorem reachable_retrieved (h : Reachable step retrieves (init size) s) : ∃ xs, Retrieved s xs := by
  refine h.invariant (fun s => ∃ xs, Retrieved s xs) ⟨[], init_inv, rfl, fun hne => absurd rfl hne⟩ ?_
  rintro s e s' ⟨xs, hret⟩ hallowed hstep
  exact step_retrieved hret hallowed hstep

/-- **The receive ring.** In every sequence of calls the ring holds the last messages that were
kept, in the order of their arrival, and no more than it may; `tcpc_get_message` returns the
first of them; a message that was acknowledged was kept; `RX_STATUS` is set while the ring is not
empty.  If the port manager retrieves what it clears, then what was handed out and what is in
the ring are together exactly what was kept. -/
theorem tcpc_ring_retrieved (h : Reachable step anyEvent (init size) s) :
    (Reachable step retrieves (init size) s → s.handedOut ++ s.held = s.kept) ∧
      s.held <:+ s.kept ∧ s.held.length ≤ size ∧
      (s.rxBufIsEmpty = false → s.tcpcGetMessage = s.held.head?) ∧
      s.acknowledged.Sublist s.kept ∧
      (s.tcpcAlertStatus &&& alertRxStatus ≠ 0#16 ↔ s.rxBufIsEmpty = false) := by
  obtain ⟨xs, hinv⟩ := reachable_inv h
  have hheld := hinv.holds.held_eq
  have hempty : s.rxBufIsEmpty = false ↔ xs ≠ [] := by
    rw [← Bool.not_eq_true, hinv.holds.rxBufIsEmpty_iff]
  refine ⟨?_, ?_, ?_, ?_, hinv.acknowledged, ?_⟩
  · intro hret
    obtain ⟨ys, hys⟩ := reachable_retrieved hret
    rw [hys.inv.holds.held_eq]
    exact hys.out
  · rw [hheld]
    exact hinv.suffix
  · rw [hheld]
    exact hinv.holds.length_le
  · intro hne
    rw [hheld]
    cases xs with
    | nil => exact absurd rfl (hempty.mp hne)
    | cons x xs => exact hinv.holds.tcpcGetMessage_eq
  · rw [hempty, and_alertRxStatus]
    show s.alert.getLsbD 2 = true ↔ _
    rw [hinv.rx]
    simp

/-- A message with a header and no data. -/
def acceptMessage : Message := ⟨0x1043, Arr.replicate _ 0#32⟩

/-- It arrives. -/
def arrival : Event := .run ⟨some (acceptMessage, false), none, (false, false)⟩

/-- A message arrives, is fetched and cleared, and another one is in the ring. -/
theorem tcpc_ring_retrieved_run :
    ∃ s : State 1, s.handedOut ++ s.held = s.kept ∧ s.handedOut = [acceptMessage] ∧
      s.held = [acceptMessage] := by
  obtain ⟨s, hs, hout, hheld⟩ : ∃ s : State 1, Reachable step retrieves (init 1) s ∧
      s.handedOut = [acceptMessage] ∧ s.held = [acceptMessage] :=
    Reachable.exists_of_runEvents
      [.setRxEnable true, arrival, .getMessage, .alertStatusClear alertRxStatus, arrival] (by decide)
  exact ⟨s, (tcpc_ring_retrieved (hs.mono fun _ _ _ => rfl)).1 hs, hout, hheld⟩

/-- **A clear without a fetch.** The message was kept and acknowledged, and is gone. -/
theorem tcpc_clear_loses_message :
    ∃ s : State 1, Reachable step anyEvent (init 1) s ∧ s.acknowledged = [acceptMessage] ∧
      s.kept = [acceptMessage] ∧ s.handedOut ++ s.held ≠ s.kept := by
  exact Reachable.exists_of_runEvents
    [.setRxEnable true, arrival, .alertStatusClear alertRxStatus] (by decide)

/-- **A fetch from an empty ring.** What is handed out was not received. -/
theorem tcpc_fetch_stale_message :
    ∃ s : State 1, Reachable step anyEvent (init 1) s ∧ s.kept = [] ∧ s.handedOut ≠ [] := by
  exact Reachable.exists_of_runEvents [.getMessage, .alertStatusClear alertRxStatus] (by decide)

end Tcpc
end UsbPd
end CrosEc
