import CrosEc.Pinweaver.Cases

/-!
# The length of a response

Every handler reports exactly the bytes it wrote, at most 440 of them
(`handle_measured`).  `make_compatible_response` then takes the reset secret out of
the response to a try request of protocol version 0 and subtracts its size from the
length, also when there was no body to begin with: 0 becomes 65504.
-/

namespace CrosEc
namespace Pinweaver

open Lib

/-- The handler reported the bytes it wrote, and they fit. -/
def Outcome.Measured {n : Nat} (o : Outcome n) : Prop :=
  o.dataLength.toNat = o.body.length ∧ o.body.length ≤ 440

theorem measured_fail {n : Nat} (code : Code) (s : State n) : (Outcome.fail code s).Measured :=
  ⟨rfl, by simp [Outcome.fail]⟩

theorem length_wrapped (w : WrappedLeafData) :
    (WrappedLeafData.codec.encode w).length = 372 := by
  rw [WrappedLeafData.codec.length_encode]
  rfl

theorem length_tryAuthBody (result : Code) (leaf : LeafData) (wrapped : WrappedLeafData) :
    (tryAuthBody result leaf wrapped).length = 440 := by
  have hword : (Codec.uint32.encode 0).length = 4 := Codec.uint32.length_encode 0
  have hlen : ∀ secret : Secret, secret.val.length = 32 := fun secret => secret.property
  simp only [tryAuthBody, List.length_append, hword, hlen, length_wrapped]

section Handlers

variable (B : Board) (env : Env B.cfg.bufferSize) (reqSize : UInt16) (body : Bytes)
  (s : State B.cfg.bufferSize)

/-! ## Every handler counts what it writes -/

theorem handleResetTree_measured : (handleResetTree B env reqSize body s).Measured := by
  rcases handleResetTree_cases B env reqSize body s with
    ⟨code, -, h⟩ | ⟨tree, -, ⟨-, h⟩ | ⟨-, h⟩⟩
  all_goals
    rw [h]
    exact measured_fail _ _

theorem handleInsertLeaf_measured : (handleInsertLeaf B env reqSize body s).Measured := by
  rcases handleInsertLeaf_cases B env reqSize body s with
    ⟨code, -, h⟩ | ⟨wrapped, newRoot, -, logged, -, ⟨-, h⟩ | ⟨-, h⟩⟩
  · rw [h]
    exact measured_fail _ _
  · rw [h]
    exact measured_fail _ _
  · rw [h]
    exact ⟨by rw [length_wrapped]; rfl, by rw [length_wrapped]; decide⟩

theorem handleRemoveLeaf_measured : (handleRemoveLeaf B env reqSize body s).Measured := by
  rcases handleRemoveLeaf_cases B env reqSize body s with
    ⟨code, -, h⟩ | ⟨-, logged, -, ⟨-, h⟩ | ⟨-, h⟩⟩
  all_goals
    rw [h]
    exact measured_fail _ _

/-- The handler of a try request gets as far as writing a response: the leaf passes all
checks, and it is rate limited or its log entry is stored. -/
def TryAuthAnswered : Prop :=
  ∃ leaf, TryAccepted B env reqSize body s leaf ∧
    ((testRateLimit env.now s.restartCount leaf.pub).1 ≠ ecSuccess ∨
      (logAuth B.cfg B.nvmem env.io (tryAuthPub B env body s leaf).label
        (rewrapRoot B s.tree (importLeaf (leafRequestLeaf body)) (tryAuthPub B env body s leaf))
        (tryAuthResult (leafRequestHead body) leaf).1
        (tryAuthPub B env body s leaf).timestamp s.vars).1 = ecSuccess)

/-- A try request is answered with 440 bytes, or its handler left early with none. -/
theorem handleTryAuth_body :
    (handleTryAuth B env reqSize body s).Measured ∧
      ((TryAuthAnswered B env reqSize body s ∧
          (handleTryAuth B env reqSize body s).body.length = 440) ∨
        (¬ TryAuthAnswered B env reqSize body s ∧
          (handleTryAuth B env reqSize body s).body = [])) := by
  rcases handleTryAuth_cases B env reqSize body s with
    ⟨code, -, hnot, h⟩ | ⟨leaf, haccepted, ⟨hrate, h⟩ | ⟨hrate, wrapped, newRoot, logged, rfl, rfl,
      rfl, ⟨hlogged, h⟩ | ⟨hlogged, h⟩⟩⟩
  · rw [h]
    refine ⟨measured_fail _ _, Or.inr ⟨?_, rfl⟩⟩
    rintro ⟨leaf, haccepted, -⟩
    exact hnot leaf haccepted
  · rw [h]
    refine ⟨⟨by rw [length_readBytes]; rfl, by rw [length_readBytes]; decide⟩,
      Or.inl ⟨⟨leaf, haccepted, Or.inl hrate⟩, by rw [length_readBytes]; decide⟩⟩
  · rw [h]
    refine ⟨measured_fail _ _, Or.inr ⟨?_, rfl⟩⟩
    rintro ⟨leaf', haccepted', hanswered⟩
    cases haccepted.leaf_ok.unique B haccepted'.leaf_ok
    rcases hanswered with hlimited | hstored
    · exact hlimited hrate
    · exact hlogged hstored
  · rw [h]
    exact ⟨⟨by rw [length_tryAuthBody]; rfl, by rw [length_tryAuthBody]⟩,
      Or.inl ⟨⟨leaf, haccepted, Or.inr hlogged⟩, length_tryAuthBody _ _ _⟩⟩

theorem handleResetAuth_measured : (handleResetAuth B env reqSize body s).Measured := by
  rcases handleResetAuth_cases B env reqSize body s with
    ⟨code, -, h⟩ | ⟨leaf, -, wrapped, newRoot, logged, -, -, -, ⟨-, h⟩ | ⟨-, h⟩⟩
  · rw [h]
    exact measured_fail _ _
  · rw [h]
    exact measured_fail _ _
  · have hlen : (leaf.sec.highEntropySecret.val ++ WrappedLeafData.codec.encode wrapped).length =
        404 := by
      rw [List.length_append, length_wrapped, leaf.sec.highEntropySecret.property]
    rw [h]
    exact ⟨by rw [hlen]; rfl, by rw [hlen]; decide⟩

theorem findRelevantEntryFrom_lt (root : Hash) (x : Nat) (entries : List LogEntry) :
    (findRelevantEntryFrom root x entries).2 < x + entries.length := by
  induction entries generalizing x with
  | nil =>
      simp [findRelevantEntryFrom]
  | cons e rest ih =>
      have hrest := ih (x + 1)
      unfold findRelevantEntryFrom
      simp only [List.length_cons]
      push_cast at hrest ⊢
      split
      · omega
      · split
        · omega
        · omega

theorem handleGetLog_measured : (handleGetLog B env reqSize body s).Measured := by
  unfold handleGetLog
  split
  · exact measured_fail _ _
  · split
    · exact measured_fail _ _
    · simp only
      split
      · exact measured_fail _ _
      · rename_i log hlog
        split
        · exact measured_fail _ _
        · rename_i hx
          have hbound := findRelevantEntryFrom_lt (readBlob 32 body) 0 log.entries.val
          rw [log.entries.property] at hbound
          change (findRelevantEntry log (readBlob 32 body)).2 < _ at hbound
          generalize (findRelevantEntry log (readBlob 32 body)).2 = x at hx hbound
          have hsmall : x.toNat + 1 ≤ 2 := by omega
          have hlen : (LogEntry.codec.encodeList (log.entries.val.take (x.toNat + 1))).length =
              (x.toNat + 1) * 73 := by
            rw [LogEntry.codec.length_encodeList, List.length_take, log.entries.property,
              Nat.min_eq_left hsmall]
            rfl
          have hsize : LogEntry.codec.size = 73 := rfl
          refine ⟨?_, ?_⟩
          · simp only [hlen, hsize]
            rw [UInt16.toNat_ofNat', Nat.mod_eq_of_lt (by omega)]
          · simp only [hlen]
            omega

theorem handleLogReplay_measured : (handleLogReplay B env reqSize body s).Measured := by
  unfold handleLogReplay
  simp only
  repeat' split
  all_goals first | exact measured_fail _ _ | skip
  exact ⟨by rw [length_wrapped]; rfl, by rw [length_wrapped]; decide⟩

/-- **Every handler reports what it wrote**, for every request, and at most 440 bytes. -/
theorem handle_measured (r : Request) : (handle B env r s).Measured := by
  unfold handle
  split
  · exact measured_fail _ _
  · unfold dispatch
    repeat' split
    · exact handleResetTree_measured ..
    · exact handleInsertLeaf_measured ..
    · exact handleRemoveLeaf_measured ..
    · exact (handleTryAuth_body ..).1
    · exact handleResetAuth_measured ..
    · exact handleGetLog_measured ..
    · exact handleLogReplay_measured ..
    · exact measured_fail _ _

/-! ## What the command reports -/

/-- The command reports a response that fits into the message buffer, and its header
gives the number of bytes behind it. -/
def ResponseSized (buf : Bytes) : Prop :=
  ∃ resp size, (vendorSpecificCommand B env buf s).2.1 = some (resp, size) ∧
    size ≤ pwMaxMessageSize ∧ resp.dataLength.toNat = resp.body.length

/-- A try request of protocol version 0 whose handler wrote no response: the one case
in which the conversion has nothing to take away. -/
def UnansweredTry00 (r : Request) : Prop :=
  r.version = 0 ∧ r.type = pwTryAuth ∧ ¬ TryAuthAnswered B env r.dataLength r.body s

theorem handle_tryAuth00 {r : Request} (hversion : r.version = 0) (htype : r.type = pwTryAuth) :
    handle B env r s = handleTryAuth B env r.dataLength r.body s := by
  have hcompat : makeCompatibleRequest s.tree r = some r := by
    simp [makeCompatibleRequest, hversion, htype, pwTryAuth, pwInsertLeaf]
  unfold handle
  rw [hcompat]
  simp only [dispatch, htype]
  rfl

/-- The response to a request of any other kind is as its handler left it. -/
theorem makeCompatibleResponse_body {version type : UInt8} (resp : Response)
    (h : ¬ (version = 0 ∧ type = pwTryAuth)) :
    (makeCompatibleResponse version type resp).dataLength = resp.dataLength ∧
      (makeCompatibleResponse version type resp).body = resp.body := by
  unfold makeCompatibleResponse
  rw [if_neg h]
  split
  · exact ⟨rfl, rfl⟩
  · exact ⟨rfl, rfl⟩

theorem vendorSpecificCommand_response {buf : Bytes}
    (hlen : buf.length = (parseRequest buf).dataLength.toNat + requestHeaderSize) :
    (vendorSpecificCommand B env buf s).2.1 =
      some ((handleRequest B env (parseRequest buf) s).1,
        (handleRequest B env (parseRequest buf) s).1.dataLength.toNat + responseHeaderSize) := by
  unfold vendorSpecificCommand
  simp only
  rw [if_neg (by omega), if_neg (not_not.mpr hlen)]

/-- What the conversion takes away from the response to a try request of version 0. -/
theorem handleRequest_tryAuth00 {r : Request} (hversion : r.version = 0)
    (htype : r.type = pwTryAuth) :
    (handleRequest B env r s).1.dataLength =
        (handleTryAuth B env r.dataLength r.body s).dataLength - UInt16.ofNat pwSecretSize ∧
      (handleRequest B env r s).1.body =
        (handleTryAuth B env r.dataLength r.body s).body.take 36 ++
          (handleTryAuth B env r.dataLength r.body s).body.drop (36 + pwSecretSize) := by
  rw [← handle_tryAuth00 B env s hversion htype]
  simp only [handleRequest, makeCompatibleResponse, hversion, htype]
  exact ⟨rfl, rfl⟩

/-- With an answer of 440 bytes the difference is right; without one it wraps around. -/
theorem handleRequest_tryAuth00_size {r : Request} (hversion : r.version = 0)
    (htype : r.type = pwTryAuth) :
    (TryAuthAnswered B env r.dataLength r.body s ∧
        (handleRequest B env r s).1.dataLength.toNat = 408 ∧
        (handleRequest B env r s).1.body.length = 408) ∨
      (¬ TryAuthAnswered B env r.dataLength r.body s ∧
        (handleRequest B env r s).1.dataLength.toNat = 65504) := by
  have hmeasured := handle_measured B env s r
  rw [handle_tryAuth00 B env s hversion htype] at hmeasured
  obtain ⟨hlength, hbytes⟩ := handleRequest_tryAuth00 B env s hversion htype
  rcases (handleTryAuth_body B env r.dataLength r.body s).2 with
    ⟨hanswered, hbody⟩ | ⟨hunanswered, hbody⟩
  · have hsize : (handleTryAuth B env r.dataLength r.body s).dataLength = 440 := by
      apply UInt16.toNat_inj.mp
      rw [hmeasured.1, hbody]
      rfl
    left
    refine ⟨hanswered, ?_, ?_⟩
    · rw [hlength, hsize]
      rfl
    · rw [hbytes, List.length_append, List.length_take, List.length_drop, hbody]
      rfl
  · have hsize : (handleTryAuth B env r.dataLength r.body s).dataLength = 0 := by
      apply UInt16.toNat_inj.mp
      rw [hmeasured.1, hbody]
      rfl
    right
    refine ⟨hunanswered, ?_⟩
    rw [hlength, hsize]
    rfl

/-- The response to any other request is measured as its handler measured it. -/
theorem handleRequest_size {r : Request} (h : ¬ (r.version = 0 ∧ r.type = pwTryAuth)) :
    (handleRequest B env r s).1.dataLength.toNat + responseHeaderSize ≤ pwMaxMessageSize ∧
      (handleRequest B env r s).1.dataLength.toNat = (handleRequest B env r s).1.body.length := by
  obtain ⟨hlength, hbody⟩ := makeCompatibleResponse_body
    { version := pwProtocolVersion
      dataLength := (handle B env r s).dataLength
      resultCode := (handle B env r s).code
      root := (handle B env r s).state.tree.root
      body := (handle B env r s).body } h
  obtain ⟨hmeasured, hsmall⟩ := handle_measured B env s r
  rw [← hmeasured] at hsmall
  constructor
  · show (makeCompatibleResponse r.version r.type _).dataLength.toNat + _ ≤ _
    rw [hlength]
    simp only [responseHeaderSize, pwMaxMessageSize]
    omega
  · show (makeCompatibleResponse r.version r.type _).dataLength.toNat =
      (makeCompatibleResponse r.version r.type _).body.length
    rw [hlength, hbody]
    exact hmeasured

/-- **When the reported length is right.**  For every state and every request buffer of
the size that its header gives, the command reports a response that fits and whose
`data_length` is the number of response bytes, unless it is a try request of protocol
version 0 that fails before anything is written. -/
theorem responseSized_iff (buf : Bytes)
    (hlen : buf.length = (parseRequest buf).dataLength.toNat + requestHeaderSize) :
    ResponseSized B env s buf ↔ ¬ UnansweredTry00 B env s (parseRequest buf) := by
  unfold ResponseSized UnansweredTry00
  rw [vendorSpecificCommand_response B env s hlen]
  set r := parseRequest buf with hr
  by_cases htry : r.version = 0 ∧ r.type = pwTryAuth
  · obtain ⟨hversion, htype⟩ := htry
    rcases handleRequest_tryAuth00_size B env s hversion htype with
      ⟨hanswered, hlength, hbytes⟩ | ⟨hunanswered, hlength⟩
    · refine iff_of_true ⟨_, _, rfl, ?_, ?_⟩ (fun h => h.2.2 hanswered)
      · rw [hlength]
        decide
      · rw [hlength, hbytes]
    · refine iff_of_false ?_ (not_not.mpr ⟨hversion, htype, hunanswered⟩)
      rintro ⟨resp, size, heq, hmax, -⟩
      cases heq
      rw [hlength] at hmax
      exact absurd hmax (by decide)
  · obtain ⟨hsmall, hlength⟩ := handleRequest_size B env s htry
    exact iff_of_true ⟨_, _, rfl, hsmall, hlength⟩ (fun h => htry ⟨h.1, h.2.1⟩)

end Handlers

/-- A current request of an unknown type is answered with the header alone. -/
theorem responseSized_unknownType : ResponseSized testBoard testEnv blankState [1, 9, 0, 0] :=
  (responseSized_iff testBoard testEnv blankState [1, 9, 0, 0] (by decide)).mpr
    (fun h => absurd h.1 (by decide))

/-- A try request of protocol version 0 without a body is answered with a length of
65504. -/
theorem not_responseSized_try00 : ¬ ResponseSized testBoard testEnv blankState [0, 4, 0, 0] := by
  rintro ⟨resp, size, heq, hmax, -⟩
  have hsize : (vendorSpecificCommand testBoard testEnv [0, 4, 0, 0] blankState).2.1.map Prod.snd =
      some 65543 := by
    decide +kernel
  rw [heq] at hsize
  cases hsize
  exact absurd hmax (by decide)

end Pinweaver
end CrosEc
