import CrosEc.RmaAuth.Model

/-!
# RMA authorisation limits guessing

What limits guessing shows in the log of calls: how far apart the challenges are, how many codes
are compared between two of them, and which code is accepted (`GuessingLimited`).  The invariant ties
the four static variables to the last challenge request in the log.

`rma_create_challenge` writes the challenge before it encodes the auth code.  If that encoding
failed, the request would fail and leave a challenge (`rma_challenge_left`), with no auth code
and so with every try refused.  `base32_encode` does not fail there
(`not_failedInAuthcode_base32Encoder`).
-/

namespace CrosEc
namespace RmaAuth

open Lib

variable {k : Server} {s s' : System} {e : Event}

/-! ## What the log says -/

/-- A challenge request that succeeded. -/
def Entry.succeeded : Entry → Bool
  | .create _ _ rv => rv = ecSuccess
  | .tried _ _ _ => false

/-- A try that compared its code. -/
def Entry.compared : Entry → Bool
  | .create _ _ _ => false
  | .tried _ compared _ => compared

/-- A try that was accepted. -/
def Entry.accepted : Entry → Bool
  | .create _ _ _ => false
  | .tried _ _ rv => rv = ecSuccess

/-- A challenge request that failed. -/
def Entry.failed : Entry → Bool
  | .create _ _ rv => rv ≠ ecSuccess
  | .tried _ _ _ => false

/-- The times of the successful challenge requests. -/
def successTimes (log : List Entry) : List Nat :=
  log.filterMap fun
    | .create time _ rv => if rv = ecSuccess then some time else none
    | .tried _ _ _ => none

/-- The calls since the last successful challenge request. -/
def since (log : List Entry) : List Entry := log.takeWhile fun e => !e.succeeded

/-- The last challenge request, with its return code. -/
def latestCreate : List Entry → Option (Request × Code)
  | [] => none
  | .create _ request rv :: _ => some (request, rv)
  | .tried _ _ _ :: log => latestCreate log

/-- The request failed where it encodes the auth code. -/
def FailedInAuthcode (k : Server) (request : Request) (rv : Code) : Prop :=
  rv = ecErrorUnknown ∧ (encodedChallenge k request).isSome = true ∧
    computedAuthcode k request = none

/-- The tries are used up, a code was accepted, or a later request failed. -/
def Spent (log : List Entry) : Prop :=
  maxAuthcodeTries ≤ (since log).countP Entry.compared ∨ (∃ e ∈ since log, e.accepted = true) ∨
    ∃ e ∈ since log, e.failed = true

/-- **What limits guessing.** -/
structure GuessingLimited (k : Server) (s : System) : Prop where
  /-- successful challenges are apart -/
  apart : (successTimes s.log).Pairwise fun later earlier => earlier + challengeInterval ≤ later
  /-- few codes are compared without a successful challenge in between, and one is accepted -/
  tries : ∀ calls, calls <:+: s.log → (∀ e ∈ calls, e.succeeded = false) →
    calls.countP Entry.compared ≤ maxAuthcodeTries ∧ calls.countP Entry.accepted ≤ 1
  /-- an accepted code is the auth code of the latest challenge request, which succeeded -/
  accepted : ∀ later code compared earlier,
    s.log = later ++ .tried code compared ecSuccess :: earlier →
      ∃ request text, latestCreate earlier = some (request, ecSuccess) ∧
        computedAuthcode k request = some text ∧
        readBytes rmaAuthcodeChars code = readBytes rmaAuthcodeChars text
  /-- there is no auth code left, and every further try is refused -/
  refused : Spent s.log → s.rma.authcode = cleared rmaAuthcodeBufSize ∧ s.rma.compares = false ∧
    ∀ code, s.rma.tryAuthcode code = (ecErrorAccessDenied, s.rma)
  /-- and no challenge -/
  noChallenge : Spent s.log →
    (∀ request rv, latestCreate s.log = some (request, rv) → ¬ FailedInAuthcode k request rv) →
      s.rma.challenge = cleared rmaChallengeBufSize

/-! ## The functions -/

theorem foldl_or_eq_zero (l : List UInt8) (acc : UInt8) :
    l.foldl (· ||| ·) acc = 0 ↔ acc = 0 ∧ ∀ x ∈ l, x = 0 := by
  induction l generalizing acc with
  | nil => simp
  | cons x l ih =>
      rw [List.foldl_cons, ih, UInt8.or_eq_zero_iff, List.forall_mem_cons, and_assoc]

theorem zipWith_xor_eq_zero {a b : Bytes} (hlen : a.length = b.length) :
    (∀ x ∈ List.zipWith (· ^^^ ·) a b, x = 0) ↔ a = b := by
  induction a generalizing b with
  | nil =>
      rw [List.length_nil] at hlen
      rw [List.length_eq_zero_iff.mp hlen.symm]
      simp
  | cons x a ih =>
      cases b with
      | nil => simp at hlen
      | cons y b =>
          rw [List.zipWith_cons_cons, List.forall_mem_cons, ih (by simpa using hlen),
            UInt8.xor_eq_zero_iff, List.cons_eq_cons]

/-- `safe_memcmp` answers 0 exactly on equal bytes. -/
theorem safeMemcmp_eq_false {a b : Bytes} {size : Nat} :
    safeMemcmp a b size = false ↔ readBytes size a = readBytes size b := by
  rw [safeMemcmp, bne_eq_false_iff_eq, foldl_or_eq_zero, zipWith_xor_eq_zero (by simp)]
  simp

/-- What a challenge request does. -/
inductive Created (k : Server) (t : Nat) (r : Request) (s : State) : Code → State → Prop
  | tooSoon : Created k t r s ecErrorTimeout s.clear
  | fails (hinterval : challengeInterval ≤ t - s.lastChallengeTime) :
      Created k t r s ecErrorUnknown { s.clear with lastChallengeTime := t }
  | authcodeFails (text : Bytes) (hinterval : challengeInterval ≤ t - s.lastChallengeTime)
      (hfailed : FailedInAuthcode k r ecErrorUnknown) :
      Created k t r s ecErrorUnknown { s.clear with
        lastChallengeTime := t
        challenge := stringBuffer rmaChallengeBufSize text }
  | succeeds (text authcode : Bytes) (hinterval : challengeInterval ≤ t - s.lastChallengeTime)
      (hauthcode : computedAuthcode k r = some authcode) :
      Created k t r s ecSuccess {
        challenge := stringBuffer rmaChallengeBufSize text
        authcode := stringBuffer rmaAuthcodeBufSize authcode
        triesLeft := maxAuthcodeTries
        lastChallengeTime := t }

theorem createChallenge_created (k : Server) (t : Nat) (r : Request) (s : State) :
    Created k t r s (s.createChallenge k t r).1 (s.createChallenge k t r).2 := by
  unfold State.createChallenge
  dsimp only
  by_cases hsoon : t - s.clear.lastChallengeTime < challengeInterval
  · rw [if_pos hsoon]
    exact .tooSoon
  rw [if_neg hsoon]
  have hinterval : challengeInterval ≤ t - s.lastChallengeTime := Nat.not_lt.mp hsoon
  cases hchallenge : encodedChallenge k r with
  | none => exact .fails hinterval
  | some text =>
      cases hauthcode : computedAuthcode k r with
      | none =>
          exact .authcodeFails text hinterval ⟨rfl, by rw [hchallenge]; rfl, hauthcode⟩
      | some authcode => exact .succeeds text authcode hinterval hauthcode

/-- What a try does. -/
inductive Tried (code : Bytes) (s : State) : Bool → Code → State → Prop
  | refused (hcompares : s.compares = false) : Tried code s false ecErrorAccessDenied s
  | mismatch (hleft : 1 < s.triesLeft) :
      Tried code s true ecErrorInval { s with triesLeft := s.triesLeft - 1 }
  | lastMismatch (hleft : s.triesLeft = 1) :
      Tried code s true ecErrorInval { s.clear with triesLeft := 0 }
  | accepted (hleft : s.triesLeft ≠ 0) (hauthcode : s.authcode.headD 0 ≠ 0)
      (hsame : readBytes rmaAuthcodeChars code = readBytes rmaAuthcodeChars s.authcode) :
      Tried code s true ecSuccess { s.clear with triesLeft := 0 }

theorem tryAuthcode_tried (code : Bytes) (s : State) :
    Tried code s s.compares (s.tryAuthcode code).1 (s.tryAuthcode code).2 := by
  unfold State.tryAuthcode
  cases hcompares : s.compares with
  | false => exact .refused hcompares
  | true =>
      simp only [State.compares, Bool.and_eq_true, decide_eq_true_eq] at hcompares
      obtain ⟨hleft, hauthcode⟩ := hcompares
      cases hmismatch : safeMemcmp s.authcode code rmaAuthcodeChars with
      | true =>
          by_cases hlast : s.triesLeft - 1 = 0
          · simpa [hlast, hmismatch, State.clear] using @Tried.lastMismatch code s
              (show s.triesLeft = 1 by omega)
          · simpa [hlast, hmismatch] using @Tried.mismatch code s
              (show 1 < s.triesLeft by omega)
      | false =>
          simpa [hmismatch, State.clear] using
            Tried.accepted hleft hauthcode (safeMemcmp_eq_false.mp hmismatch).symm

/-! ## The invariant -/

/-- There is no auth code, and no challenge but the one that a request left which failed behind
it. -/
def Cleared (k : Server) (s : System) : Prop :=
  s.rma.authcode = cleared rmaAuthcodeBufSize ∧
    ((∀ request rv, latestCreate s.log = some (request, rv) → ¬ FailedInAuthcode k request rv) →
      s.rma.challenge = cleared rmaChallengeBufSize)

structure Inv (k : Server) (s : System) : Prop where
  time : s.rma.lastChallengeTime ≤ s.clock
  times : ∀ time ∈ successTimes s.log, time ≤ s.rma.lastChallengeTime
  apart : (successTimes s.log).Pairwise fun later earlier => earlier + challengeInterval ≤ later
  budget : (since s.log).countP Entry.compared + s.rma.triesLeft ≤ maxAuthcodeTries
  once : (since s.log).countP Entry.accepted = 0 ∨
    ((since s.log).countP Entry.accepted = 1 ∧ s.rma.triesLeft = 0)
  segments : ∀ earlier, earlier <:+ s.log →
    (since earlier).countP Entry.compared ≤ maxAuthcodeTries ∧
      (since earlier).countP Entry.accepted ≤ 1
  authcode : s.rma.authcode.headD 0 ≠ 0 →
    ∃ request text, latestCreate s.log = some (request, ecSuccess) ∧
      computedAuthcode k request = some text ∧
      s.rma.authcode = stringBuffer rmaAuthcodeBufSize text
  accepted : ∀ later code compared earlier,
    s.log = later ++ .tried code compared ecSuccess :: earlier →
      ∃ request text, latestCreate earlier = some (request, ecSuccess) ∧
        computedAuthcode k request = some text ∧
        readBytes rmaAuthcodeChars code = readBytes rmaAuthcodeChars text
  spent : s.rma.triesLeft = 0 → Cleared k s
  failed : ∀ request rv, latestCreate s.log = some (request, rv) → rv ≠ ecSuccess → Cleared k s

theorem inv_boot : Inv k System.boot where
  time := le_rfl
  times := by simp [System.boot, successTimes]
  apart := List.Pairwise.nil
  budget := Nat.zero_le _
  once := .inl rfl
  segments := by
    intro earlier hearlier
    rw [List.suffix_nil.mp hearlier]
    exact ⟨Nat.zero_le _, Nat.zero_le _⟩
  authcode := fun h => absurd rfl h
  accepted := by simp [System.boot]
  spent := fun _ => ⟨rfl, fun _ => rfl⟩
  failed := fun _ _ h => by cases h

theorem headD_cleared (size : Nat) : (cleared size).headD 0 = 0 := by
  cases size <;> rfl

theorem compares_of_cleared (h : s.rma.authcode = cleared rmaAuthcodeBufSize) :
    s.rma.compares = false := by
  rw [State.compares, h, headD_cleared]
  simp

/-- The segments of a longer log. -/
theorem segments_cons {log : List Entry} {x : Entry}
    (hlog : ∀ earlier, earlier <:+ log →
      (since earlier).countP Entry.compared ≤ maxAuthcodeTries ∧
        (since earlier).countP Entry.accepted ≤ 1)
    (hcompared : (since (x :: log)).countP Entry.compared ≤ maxAuthcodeTries)
    (haccepted : (since (x :: log)).countP Entry.accepted ≤ 1) (earlier : List Entry)
    (hearlier : earlier <:+ x :: log) :
    (since earlier).countP Entry.compared ≤ maxAuthcodeTries ∧
      (since earlier).countP Entry.accepted ≤ 1 := by
  rcases List.suffix_cons_iff.mp hearlier with rfl | hearlier
  · exact ⟨hcompared, haccepted⟩
  · exact hlog earlier hearlier

/-! ### Challenge requests -/

theorem since_create_failed {t : Nat} {r : Request} {rv : Code} {log : List Entry}
    (hrv : rv ≠ ecSuccess) : since (.create t r rv :: log) = .create t r rv :: since log := by
  simp [since, Entry.succeeded, hrv]

theorem since_create_succeeded {t : Nat} {r : Request} {log : List Entry} :
    since (.create t r ecSuccess :: log) = [] := by
  simp [since, Entry.succeeded]

/-- A request that fails clears the strings, apart from the challenge in one case. -/
theorem Inv.createFails {r : Request} {rv : Code} {rma : State} (h : Inv k s)
    (hrv : rv ≠ ecSuccess) (hleft : rma.triesLeft = s.rma.triesLeft)
    (htime : s.rma.lastChallengeTime ≤ rma.lastChallengeTime ∧ rma.lastChallengeTime ≤ s.clock)
    (hauthcode : rma.authcode = cleared rmaAuthcodeBufSize)
    (hchallenge : ¬ FailedInAuthcode k r rv → rma.challenge = cleared rmaChallengeBufSize) :
    Inv k { s with rma := rma, log := .create s.clock r rv :: s.log } := by
  have htimes : successTimes (.create s.clock r rv :: s.log) = successTimes s.log := by
    simp [successTimes, hrv]
  have hcompared : (since (.create s.clock r rv :: s.log)).countP Entry.compared =
      (since s.log).countP Entry.compared := by
    simp [since_create_failed hrv, Entry.compared]
  have haccepted : (since (.create s.clock r rv :: s.log)).countP Entry.accepted =
      (since s.log).countP Entry.accepted := by
    simp [since_create_failed hrv, Entry.accepted]
  have hcleared : Cleared k { s with rma := rma, log := .create s.clock r rv :: s.log } :=
    ⟨hauthcode, fun hnot => hchallenge (hnot r rv rfl)⟩
  exact {
    time := htime.2
    times := by
      intro time hmem
      rw [htimes] at hmem
      exact (h.times time hmem).trans htime.1
    apart := by
      rw [htimes]
      exact h.apart
    budget := by
      rw [hcompared, hleft]
      exact h.budget
    once := by
      rw [haccepted, hleft]
      exact h.once
    segments := by
      obtain ⟨h₁, h₂⟩ := h.segments s.log List.suffix_rfl
      exact segments_cons h.segments (hcompared ▸ h₁) (haccepted ▸ h₂)
    authcode := by
      intro hhead
      change rma.authcode.headD 0 ≠ 0 at hhead
      rw [hauthcode, headD_cleared] at hhead
      exact absurd rfl hhead
    accepted := by
      intro later code compared earlier hlog
      rcases List.cons_eq_append_iff.mp hlog with ⟨-, hlog⟩ | ⟨later', -, hlog⟩
      · cases hlog
      · exact h.accepted later' code compared earlier hlog
    spent := fun _ => hcleared
    failed := fun _ _ _ _ => hcleared }

/-- A request that succeeds allows the tries anew. -/
theorem Inv.createSucceeds {r : Request} {text authcode : Bytes} (h : Inv k s)
    (hinterval : challengeInterval ≤ s.clock - s.rma.lastChallengeTime)
    (hauthcode : computedAuthcode k r = some authcode) :
    Inv k { s with
      rma := {
        challenge := stringBuffer rmaChallengeBufSize text
        authcode := stringBuffer rmaAuthcodeBufSize authcode
        triesLeft := maxAuthcodeTries
        lastChallengeTime := s.clock }
      log := .create s.clock r ecSuccess :: s.log } := by
  have htimes : successTimes (.create s.clock r ecSuccess :: s.log) =
      s.clock :: successTimes s.log := by
    simp [successTimes]
  exact {
    time := le_rfl
    times := by
      intro time hmem
      rw [htimes] at hmem
      rcases List.mem_cons.mp hmem with rfl | hmem
      · exact le_rfl
      · exact (h.times time hmem).trans h.time
    apart := by
      rw [htimes]
      refine List.pairwise_cons.mpr ⟨?_, h.apart⟩
      intro time hmem
      have h₁ := h.times time hmem
      have h₂ := h.time
      have h₃ : 0 < challengeInterval := by decide
      omega
    budget := by simp [since_create_succeeded]
    once := .inl (by simp [since_create_succeeded])
    segments := segments_cons h.segments (by simp [since_create_succeeded])
      (by simp [since_create_succeeded])
    authcode := fun _ => ⟨r, authcode, rfl, hauthcode, rfl⟩
    accepted := by
      intro later code compared earlier hlog
      rcases List.cons_eq_append_iff.mp hlog with ⟨-, hlog⟩ | ⟨later', -, hlog⟩
      · cases hlog
      · exact h.accepted later' code compared earlier hlog
    spent := fun hleft => by cases hleft
    failed := by
      intro request rv hlatest hrv
      cases hlatest
      exact absurd rfl hrv }

theorem Inv.create {r : Request} {rv : Code} {rma : State} (h : Inv k s)
    (hcreated : Created k s.clock r s.rma rv rma) :
    Inv k { s with rma := rma, log := .create s.clock r rv :: s.log } := by
  cases hcreated with
  | tooSoon =>
      exact h.createFails (by decide) rfl ⟨le_rfl, h.time⟩ rfl fun _ => rfl
  | fails _ => exact h.createFails (by decide) rfl ⟨h.time, le_rfl⟩ rfl fun _ => rfl
  | authcodeFails text _ hfailed =>
      exact h.createFails (by decide) rfl ⟨h.time, le_rfl⟩ rfl fun hnot => absurd hfailed hnot
  | succeeds text authcode hinterval hauthcode => exact h.createSucceeds hinterval hauthcode

/-! ### Tries -/

theorem since_tried {code : Bytes} {c : Bool} {rv : Code} {log : List Entry} :
    since (.tried code c rv :: log) = .tried code c rv :: since log := by
  simp [since, Entry.succeeded]

/-- A read from a buffer that is as long sees what the buffer was filled from. -/
theorem readBytes_readBytes {n m : Nat} (h : n ≤ m) (bs : Bytes) :
    readBytes n (readBytes m bs) = readBytes n bs := by
  induction n generalizing m bs with
  | zero => simp
  | succ n ih =>
      obtain ⟨m, rfl⟩ := Nat.exists_eq_succ_of_ne_zero (by omega : m ≠ 0)
      cases bs with
      | nil => exact congrArg (List.cons 0) (ih (Nat.le_of_succ_le_succ h) [])
      | cons b bs => exact congrArg (List.cons b) (ih (Nat.le_of_succ_le_succ h) bs)

/-- A comparison uses up one of the tries that are left. -/
theorem Tried.budget {code : Bytes} {c : Bool} {rv : Code} {rma rma' : State} {log : List Entry}
    (htried : Tried code rma c rv rma')
    (h : (since log).countP Entry.compared + rma.triesLeft ≤ maxAuthcodeTries) :
    (since (.tried code c rv :: log)).countP Entry.compared + rma'.triesLeft ≤
      maxAuthcodeTries := by
  rw [since_tried, List.countP_cons]
  cases htried with
  | refused hcompares => simpa [Entry.compared] using h
  | mismatch hleft | lastMismatch hleft | accepted hleft _ _ =>
      simp only [Entry.compared, if_true]
      omega

/-- After an accepted code no try is left. -/
theorem Tried.once {code : Bytes} {c : Bool} {rv : Code} {rma rma' : State} {log : List Entry}
    (htried : Tried code rma c rv rma')
    (h : (since log).countP Entry.accepted = 0 ∨
      ((since log).countP Entry.accepted = 1 ∧ rma.triesLeft = 0)) :
    (since (.tried code c rv :: log)).countP Entry.accepted = 0 ∨
      ((since (.tried code c rv :: log)).countP Entry.accepted = 1 ∧ rma'.triesLeft = 0) := by
  rw [since_tried, List.countP_cons]
  have hinval : ecErrorInval ≠ ecSuccess := by decide
  cases htried with
  | refused hcompares =>
      have hdenied : ecErrorAccessDenied ≠ ecSuccess := by decide
      simpa [Entry.accepted, hdenied] using h
  | mismatch hleft | lastMismatch hleft =>
      left
      simp only [Entry.accepted, hinval, decide_false, Bool.false_eq_true, if_false]
      omega
  | accepted hleft _ _ =>
      refine .inr ⟨?_, rfl⟩
      simp only [Entry.accepted, decide_true, if_true]
      omega

theorem Inv.tried {code : Bytes} {c : Bool} {rv : Code} {rma : State} (h : Inv k s)
    (htried : Tried code s.rma c rv rma) :
    Inv k { s with rma := rma, log := .tried code c rv :: s.log } := by
  have hbudget := htried.budget h.budget
  have honce := htried.once h.once
  exact {
    time := by cases htried <;> exact h.time
    times := by cases htried <;> exact h.times
    apart := h.apart
    budget := hbudget
    once := honce
    segments := segments_cons h.segments (by omega) (by omega)
    authcode := by
      cases htried with
      | refused _ | mismatch _ => exact h.authcode
      | lastMismatch _ | accepted _ _ _ => exact fun hhead => absurd rfl hhead
    accepted := by
      intro later code' compared earlier hlog
      rcases List.cons_eq_append_iff.mp hlog with ⟨-, hlog⟩ | ⟨later', -, hlog⟩
      · cases hlog
        cases htried with
        | accepted _ hhead hsame =>
            obtain ⟨request, text, hcreate, hcomputed, hauthcode⟩ := h.authcode hhead
            rw [hauthcode, stringBuffer, readBytes_readBytes (by decide)] at hsame
            exact ⟨request, text, hcreate, hcomputed, hsame⟩
      · exact h.accepted later' code' compared earlier hlog
    spent := by
      cases htried with
      | refused _ => exact h.spent
      | mismatch hleft =>
          intro hzero
          change s.rma.triesLeft - 1 = 0 at hzero
          omega
      | lastMismatch _ | accepted _ _ _ => exact fun _ => ⟨rfl, fun _ => rfl⟩
    failed := by
      cases htried with
      | refused _ | mismatch _ => exact h.failed
      | lastMismatch _ | accepted _ _ _ => exact fun _ _ _ _ => ⟨rfl, fun _ => rfl⟩ }

/-! ## Runs -/

/-- **Step lemma.** -/
theorem inv_step (h : Inv k s) (hstep : step k s e = some s') : Inv k s' := by
  cases e with
  | elapse us =>
      obtain rfl := Option.some.inj hstep
      exact { h with time := h.time.trans (Nat.le_add_right _ _) }
  | create request =>
      obtain rfl := Option.some.inj hstep
      exact h.create (createChallenge_created k s.clock request s.rma)
  | tryCode code =>
      obtain rfl := Option.some.inj hstep
      exact h.tried (tryAuthcode_tried code s.rma)

theorem inv_of_reachable (h : Reachable (step k) anyEvent System.boot s) : Inv k s :=
  h.invariant (Inv k) inv_boot fun _ _ _ hinv _ hstep => inv_step hinv hstep

/-- Without a successful challenge request, calls are part of those since the last one. -/
theorem since_append {calls earlier : List Entry} (h : ∀ e ∈ calls, e.succeeded = false) :
    since (calls ++ earlier) = calls ++ since earlier := by
  unfold since
  rw [List.takeWhile_append_of_pos]
  intro x hx
  rw [h x hx]
  rfl

/-- A failed request since the last successful one is not followed by a successful one. -/
theorem exists_latestCreate_of_failed {log : List Entry}
    (h : ∃ e ∈ since log, e.failed = true) :
    ∃ request rv, latestCreate log = some (request, rv) ∧ rv ≠ ecSuccess := by
  induction log with
  | nil =>
      obtain ⟨_, hmem, _⟩ := h
      cases hmem
  | cons x log ih =>
      obtain ⟨e, hmem, hfailed⟩ := h
      cases x with
      | create time request rv =>
          by_cases hrv : rv = ecSuccess
          · rw [hrv, since_create_succeeded] at hmem
            cases hmem
          · exact ⟨request, rv, rfl, hrv⟩
      | tried code c rv =>
          rw [since_tried] at hmem
          rcases List.mem_cons.mp hmem with rfl | hmem
          · cases hfailed
          · exact ih ⟨e, hmem, hfailed⟩

theorem Inv.cleared_of_spent (h : Inv k s) (hspent : Spent s.log) : Cleared k s := by
  have hbudget := h.budget
  rcases hspent with hcompared | ⟨e, hmem, haccepted⟩ | hfailed
  · exact h.spent (by omega)
  · have hpos : 0 < (since s.log).countP Entry.accepted :=
      List.countP_pos_iff.mpr ⟨e, hmem, haccepted⟩
    rcases h.once with hzero | ⟨-, hleft⟩
    · omega
    · exact h.spent hleft
  · obtain ⟨request, rv, hlatest, hrv⟩ := exists_latestCreate_of_failed hfailed
    exact h.failed request rv hlatest hrv

/-- **RMA authorisation limits guessing**, in every sequence of calls at any times. -/
theorem rma_guessing_limited (h : Reachable (step k) anyEvent System.boot s) :
    GuessingLimited k s := by
  have hinv := inv_of_reachable h
  exact {
    apart := hinv.apart
    tries := by
      intro calls hcalls hnone
      obtain ⟨later, earlier, hlog⟩ := hcalls
      obtain ⟨hcompared, haccepted⟩ := hinv.segments (calls ++ earlier)
        ⟨later, by rw [← hlog, List.append_assoc]⟩
      rw [since_append hnone, List.countP_append] at hcompared haccepted
      omega
    accepted := hinv.accepted
    refused := by
      intro hspent
      obtain ⟨hauthcode, -⟩ := hinv.cleared_of_spent hspent
      have hcompares := compares_of_cleared hauthcode
      refine ⟨hauthcode, hcompares, ?_⟩
      intro code
      simp [State.tryAuthcode, hcompares]
    noChallenge := fun hspent => (hinv.cleared_of_spent hspent).2 }

/-- `base32_encode` has room for the auth code. -/
theorem not_failedInAuthcode_base32Encoder {r : Request} {rv : Code}
    (h : r.base32Encode = base32Encoder) : ¬ FailedInAuthcode k r rv := by
  intro hfailed
  obtain ⟨-, hchallenge, hauthcode⟩ := hfailed
  unfold computedAuthcode at hauthcode
  unfold encodedChallenge at hchallenge
  cases hboardId : r.boardId with
  | none =>
      rw [hboardId] at hchallenge
      cases hchallenge
  | some boardId =>
      rw [hboardId, h] at hauthcode
      simp [base32Encoder, Base32.base32Encode, rmaAuthcodeBufSize, rmaAuthcodeChars] at hauthcode

/-! ## Concrete runs -/

/-- A server whose HMAC is no more than a function of the bytes. -/
def testServer : Server := ⟨1, fun key message => checksum 32 (key ++ message)⟩

/-- A request with an encoder that writes letters. -/
def testRequest : Request where
  boardId := some (Arr.replicate 4 0x5a)
  uniqueDeviceId := [1, 2, 3, 4, 5, 6, 7, 8]
  devicePubKey := Arr.replicate 32 7
  secret := Arr.replicate 32 9
  base32Encode := fun destlenChars src _ _ =>
    some ((src.take (destlenChars - 1)).map fun b => 65 + b % 26)

/-- A challenge, a wrong code, the right one, and a request that comes too soon. -/
theorem rma_guessing_limited_run :
    ∃ s, (s.log.countP Entry.compared = 2 ∧ s.log.countP Entry.accepted = 1) ∧
      GuessingLimited testServer s := by
  obtain ⟨s, hrun, hcalls⟩ : ∃ s, Reachable (step testServer) anyEvent System.boot s ∧
      (s.log.countP Entry.compared = 2 ∧ s.log.countP Entry.accepted = 1) :=
    Reachable.exists_of_runEvents
      [.elapse 10000000, .create testRequest, .tryCode (List.replicate 8 65),
        .tryCode ((computedAuthcode testServer testRequest).getD []), .create testRequest]
      (by decide +kernel)
  exact ⟨s, hcalls, rma_guessing_limited hrun⟩

/-- **A challenge without an auth code.** The encoder fails for the auth code alone: the request
fails, and the challenge stays. -/
theorem rma_challenge_left :
    ∃ s, Reachable (step testServer) anyEvent System.boot s ∧ Spent s.log ∧
      s.rma.challenge ≠ cleared rmaChallengeBufSize := by
  obtain ⟨s, hrun, hfailed, hchallenge⟩ : ∃ s, Reachable (step testServer) anyEvent System.boot s ∧
      ((since s.log).any Entry.failed = true ∧
        s.rma.challenge ≠ cleared rmaChallengeBufSize) :=
    Reachable.exists_of_runEvents
      [.elapse 10000000, .create { testRequest with
        base32Encode := fun destlenChars src srclenBits addCrcEvery =>
          if destlenChars = rmaAuthcodeBufSize then none
          else testRequest.base32Encode destlenChars src srclenBits addCrcEvery }]
      (by decide +kernel)
  exact ⟨s, hrun, .inr (.inr (List.any_eq_true.mp hfailed)), hchallenge⟩

end RmaAuth
end CrosEc
