import CrosEc.Pinweaver.Cases

/-!
# The ledger behind the root

PinWeaver keeps one root hash; the leaves themselves lie with the client.  A client
that writes down, for every slot, the leaf it was given last has a ledger, and the root
in the chip is the Merkle root of it.  This module defines the ledger, says what each
request does to it, and proves that the root follows.
-/

namespace CrosEc
namespace Pinweaver

open Lib

/-! ## Leaves as they are returned -/

/-- The layout of a wrapped leaf. -/
theorem encode_wrappedLeaf (w : WrappedLeafData) :
    WrappedLeafData.codec.encode w =
      LeafHeader.codec.encode w.head ++ (w.hmac.val ++ (w.iv.val ++
        (LeafPublicData.codec.encode w.pub ++ w.cipherText.val))) := rfl

/-- A wrapped leaf with the current header is read back as it was written. -/
theorem importLeaf_encode {w : WrappedLeafData} (hhead : w.head = currentHead) :
    (importLeaf (WrappedLeafData.codec.encode w)).head = currentHead ∧
      (importLeaf (WrappedLeafData.codec.encode w)).hmac = w.hmac ∧
      (importLeaf (WrappedLeafData.codec.encode w)).copy =
        ⟨currentHead, w.iv, LeafPublicData.codec.encode w.pub, w.cipherText.val⟩ := by
  have hlenHead : (LeafHeader.codec.encode w.head).length = 8 := LeafHeader.codec.length_encode _
  have hlenPub : (LeafPublicData.codec.encode w.pub).length = 220 :=
    LeafPublicData.codec.length_encode _
  have hlenHmac : w.hmac.val.length = 32 := w.hmac.property
  have hlenIv : w.iv.val.length = 16 := w.iv.property
  have hdecoded : LeafHeader.codec.decode (WrappedLeafData.codec.encode w) = currentHead := by
    rw [encode_wrappedLeaf, LeafHeader.codec.decode_encode, hhead]
  have hdropHead : (WrappedLeafData.codec.encode w).drop 8 =
      w.hmac.val ++ (w.iv.val ++ (LeafPublicData.codec.encode w.pub ++ w.cipherText.val)) := by
    rw [encode_wrappedLeaf, List.drop_left' hlenHead]
  have hdropHmac : (WrappedLeafData.codec.encode w).drop 40 =
      w.iv.val ++ (LeafPublicData.codec.encode w.pub ++ w.cipherText.val) := by
    rw [show 40 = 8 + 32 from rfl, ← List.drop_drop, hdropHead, List.drop_left' hlenHmac]
  have hpayload : (WrappedLeafData.codec.encode w).drop unimportedLeafSize =
      LeafPublicData.codec.encode w.pub ++ w.cipherText.val := by
    rw [show unimportedLeafSize = 40 + 16 from rfl, ← List.drop_drop, hdropHmac,
      List.drop_left' hlenIv]
  refine ⟨hdecoded, ?_, ?_⟩
  · apply Subtype.ext
    simp only [importLeaf, hdropHead]
    exact readBytes_append hlenHmac _
  · have hpubLen : currentHead.pubLen.toNat = 220 := rfl
    have hsecLen : currentHead.secLen.toNat = 96 := rfl
    have hcipher : readBytes 96 w.cipherText.val = w.cipherText.val := by
      rw [readBytes_eq_take (by rw [w.cipherText.property]), List.take_of_length_le
        (by rw [w.cipherText.property])]
    simp only [importLeaf, ImportedLeaf.copy, hdecoded, hdropHmac, hpayload, hpubLen, hsecLen,
      List.drop_left' hlenPub, hcipher, readBytes_append hlenPub]
    rw [show readBlob 16 _ = w.iv from Subtype.ext (readBytes_append hlenIv _)]

/-- The leaf that `handle_leaf_update` returns carries its own hmac. -/
theorem importLeaf_sealLeaf (C : Crypto) (tree : MerkleTree) (iv : Blob 16)
    (pub : LeafPublicData) (cipherText : Blob 96) :
    (importLeaf (WrappedLeafData.codec.encode (sealLeaf C tree iv pub cipherText))).head =
        currentHead ∧
      (importLeaf (WrappedLeafData.codec.encode (sealLeaf C tree iv pub cipherText))).hmac =
        (sealLeaf C tree iv pub cipherText).hmac ∧
      computeHmac C tree
          (importLeaf (WrappedLeafData.codec.encode (sealLeaf C tree iv pub cipherText))) =
        (sealLeaf C tree iv pub cipherText).hmac := by
  obtain ⟨hhead, hhmac, hcopy⟩ := importLeaf_encode (w := sealLeaf C tree iv pub cipherText) rfl
  refine ⟨hhead, hhmac, ?_⟩
  obtain ⟨-, -, hcopy'⟩ := importLeaf_encode
    (w := ⟨currentHead, emptyHash, iv, pub, cipherText⟩) rfl
  have hinput : hmacInput (importLeaf (WrappedLeafData.codec.encode
      (sealLeaf C tree iv pub cipherText))) =
        hmacInput (importLeaf (WrappedLeafData.codec.encode
          ⟨currentHead, emptyHash, iv, pub, cipherText⟩)) := by
    rw [hmacInput_eq_iff, hcopy, hcopy']
    exact ⟨rfl, rfl, rfl, rfl⟩
  rw [computeHmac, hinput]
  rfl

/-- The label that is checked is the label in the decrypted data, if the header is the
current one. -/
theorem presentedLeaf_label (B : Board) {r : Request} (tree : MerkleTree)
    (hhead : r.presented.head = currentHead) :
    (presentedLeaf B r tree).pub.label = r.presented.label := by
  have hread : readBytes Codec.uint64.size (readBytes 220 r.presented.pub) =
      readBytes Codec.uint64.size r.presented.pub := by
    rw [show 220 = Codec.uint64.size + 212 from rfl, readBytes_add,
      readBytes_append (length_readBytes _ _)]
  have hdecoded : (decryptedLeaf B tree r.presented).pub.label =
      Codec.uint64.decode (readBytes 220 r.presented.pub) := by
    unfold decryptedLeaf
    rw [hhead]
    rfl
  have hupgrade : presentedLeaf B r tree = decryptedLeaf B tree r.presented := by
    unfold presentedLeaf upgradeLeaf
    rw [hhead, if_neg (by decide)]
  rw [hupgrade, hdecoded, ImportedLeaf.label, Codec.uint64.decode_eq_of_readBytes hread]

/-! ## The ledger -/

/-- For every slot, the leaf that was returned last; `none` is an empty slot. -/
abbrev Ledger : Type := Nat → Option ImportedLeaf

namespace Ledger

/-- The ledger of a new tree. -/
def empty : Ledger := fun _ => none

/-- The hash in a slot of the tree. -/
def slots (L : Ledger) (i : Nat) : Hash := (L i).elim emptyHash ImportedLeaf.hmac

/-- The ledger with a new entry for one slot. -/
def write (L : Ledger) (label : UInt64) (entry : Option ImportedLeaf) : Ledger :=
  Function.update L label.toNat entry

theorem slots_empty : empty.slots = fun _ => emptyHash := rfl

/-- A new entry changes the hash in its own slot only. -/
theorem slots_write (L : Ledger) (label : UInt64) (entry : Option ImportedLeaf) :
    (L.write label entry).slots =
      Function.update L.slots label.toNat (entry.elim emptyHash ImportedLeaf.hmac) := by
  funext i
  by_cases hi : i = label.toNat
  · simp [slots, write, hi]
  · simp [slots, write, hi]

end Ledger

instance (r : Request) (resp : Response) : Decidable (AuthTookEffect r resp) :=
  inferInstanceAs (Decidable (_ ∧ _))

/-- The ledger after a request, from the request and its response alone. -/
def account (L : Ledger) (r : Request) (resp : Response) : Ledger :=
  if r.type = pwResetTree ∧ resp.resultCode = ecSuccess then Ledger.empty
  else if r.type = pwInsertLeaf ∧ resp.resultCode = ecSuccess then
    L.write (insertLeafLabel r.body) (some (importLeaf (resp.leafBytes r)))
  else if r.type = pwRemoveLeaf ∧ resp.resultCode = ecSuccess then
    L.write (removeLeafLocation r.body) none
  else if (r.type = pwTryAuth ∨ r.type = pwResetAuth) ∧ AuthTookEffect r resp then
    L.write r.presented.label (some (importLeaf (resp.leafBytes r)))
  else L

section Account

variable {L : Ledger} {r : Request} {resp : Response}

theorem account_reset (htype : r.type = pwResetTree) (hcode : resp.resultCode = ecSuccess) :
    account L r resp = Ledger.empty :=
  if_pos ⟨htype, hcode⟩

theorem account_insert (htype : r.type = pwInsertLeaf) (hcode : resp.resultCode = ecSuccess) :
    account L r resp =
      L.write (insertLeafLabel r.body) (some (importLeaf (resp.leafBytes r))) := by
  unfold account
  rw [if_neg (by rw [htype]; rintro ⟨h, -⟩; exact absurd h (by decide)), if_pos ⟨htype, hcode⟩]

theorem account_remove (htype : r.type = pwRemoveLeaf) (hcode : resp.resultCode = ecSuccess) :
    account L r resp = L.write (removeLeafLocation r.body) none := by
  unfold account
  rw [if_neg (by rw [htype]; rintro ⟨h, -⟩; exact absurd h (by decide)),
    if_neg (by rw [htype]; rintro ⟨h, -⟩; exact absurd h (by decide)), if_pos ⟨htype, hcode⟩]

theorem account_auth (htype : r.type = pwTryAuth ∨ r.type = pwResetAuth)
    (heffect : AuthTookEffect r resp) :
    account L r resp = L.write r.presented.label (some (importLeaf (resp.leafBytes r))) := by
  have hne : r.type ≠ pwResetTree ∧ r.type ≠ pwInsertLeaf ∧ r.type ≠ pwRemoveLeaf := by
    rcases htype with h | h <;> rw [h] <;> decide
  unfold account
  rw [if_neg (fun h => hne.1 h.1), if_neg (fun h => hne.2.1 h.1), if_neg (fun h => hne.2.2 h.1),
    if_pos ⟨htype, heffect⟩]

/-- A request that is rejected leaves the ledger alone: its response has an error code
and no leaf. -/
theorem account_of_rejected (hcode : resp.resultCode ≠ ecSuccess)
    (heffect : r.type = pwTryAuth ∨ r.type = pwResetAuth → ¬ AuthTookEffect r resp) :
    account L r resp = L := by
  unfold account
  rw [if_neg (fun h => hcode h.2), if_neg (fun h => hcode h.2), if_neg (fun h => hcode h.2),
    if_neg (fun h => heffect h.1 h.2)]

/-- Only five types of requests are entered. -/
theorem account_of_type (hreset : r.type ≠ pwResetTree) (hinsert : r.type ≠ pwInsertLeaf)
    (hremove : r.type ≠ pwRemoveLeaf) (htry : r.type ≠ pwTryAuth)
    (hresetAuth : r.type ≠ pwResetAuth) : account L r resp = L := by
  unfold account
  rw [if_neg (fun h => hreset h.1), if_neg (fun h => hinsert h.1), if_neg (fun h => hremove h.1),
    if_neg (fun h => h.1.elim htry hresetAuth)]

end Account

/-! ## What a request does to the tree and to the ledger -/

section Effects

variable (B : Board) (env : Env B.cfg.bufferSize) {r : Request} (s : State B.cfg.bufferSize)

/-- The request changes neither the tree nor the ledger. -/
def NoEffect (r : Request) : Prop :=
  (handleRequest B env r s).2.tree = s.tree ∧
    ∀ L, account L r (handleRequest B env r s).1 = L

variable {B env s}

theorem noEffect_of_fail {code : Code} {s' : State B.cfg.bufferSize}
    (h : handle B env r s = .fail code s') (hcode : code ≠ ecSuccess) (htree : s'.tree = s.tree) :
    NoEffect B env s r := by
  obtain ⟨hresult, -, hstate, hnil, -⟩ := handleRequest_response B env r s
  rw [h] at hresult hstate hnil
  refine ⟨by rw [hstate]; exact htree, fun L => account_of_rejected ?_ ?_⟩
  · rw [hresult]
    exact hcode
  · rintro - ⟨-, hbody⟩
    exact hbody (hnil rfl)

theorem noEffect_of_version (h : handle B env r s = .fail pwErrVersionMismatch s) :
    NoEffect B env s r :=
  noEffect_of_fail h (by decide) rfl

variable (env s)

theorem handleRequest_reset (htype : r.type = pwResetTree) :
    NoEffect B env s r ∨
      ((handleRequest B env r s).1.resultCode = ecSuccess ∧
        ∃ tree, ResetAccepted B env r.dataLength r.body tree ∧
          (handleRequest B env r s).2.tree = tree) := by
  rcases handle_cases B env r s (by rw [htype]; decide) with h | h
  · exact Or.inl (noEffect_of_version h)
  · have hdispatch : dispatch B env r s = handleResetTree B env r.dataLength r.body s := by
      rw [dispatch, if_pos htype]
    rw [hdispatch] at h
    rcases handleResetTree_cases B env r.dataLength r.body s with
      ⟨code, hne, ho⟩ | ⟨tree, haccepted, ⟨hne, ho⟩ | ⟨-, ho⟩⟩
    · exact Or.inl (noEffect_of_fail (h.trans ho) hne rfl)
    · exact Or.inl (noEffect_of_fail (h.trans ho) hne rfl)
    · obtain ⟨hresult, -, hstate, -⟩ := handleRequest_response B env r s
      rw [h, ho] at hresult hstate
      exact Or.inr ⟨hresult, tree, haccepted, by rw [hstate]; rfl⟩

theorem handleRequest_insert (htype : r.type = pwInsertLeaf) :
    NoEffect B env s r ∨
      ((handleRequest B env r s).1.resultCode = ecSuccess ∧
        ∃ r' wrapped newRoot, makeCompatibleRequest s.tree r = some r' ∧
          InsertAccepted B env r'.dataLength r'.body s wrapped newRoot ∧
          (handleRequest B env r s).1.leafBytes r = WrappedLeafData.codec.encode wrapped ∧
          (handleRequest B env r s).2.tree = { s.tree with root := newRoot }) := by
  cases hcompat : makeCompatibleRequest s.tree r with
  | none =>
      refine Or.inl (noEffect_of_version ?_)
      rw [handle, hcompat]
  | some r' =>
      have htype' := (makeCompatibleRequest_type hcompat).trans htype
      have h : handle B env r s = handleInsertLeaf B env r'.dataLength r'.body s := by
        rw [handle, hcompat]
        simp only [dispatch, htype']
        rfl
      rcases handleInsertLeaf_cases B env r'.dataLength r'.body s with
        ⟨code, hne, ho⟩ | ⟨wrapped, newRoot, haccepted, logged, -, ⟨hne, ho⟩ | ⟨-, ho⟩⟩
      · exact Or.inl (noEffect_of_fail (h.trans ho) hne rfl)
      · exact Or.inl (noEffect_of_fail (h.trans ho) hne rfl)
      · obtain ⟨hresult, -, hstate, -, hleaf⟩ := handleRequest_response B env r s
        rw [h, ho] at hresult hstate hleaf
        rw [htype] at hleaf
        exact Or.inr ⟨hresult, r', wrapped, newRoot, rfl, haccepted, hleaf, by rw [hstate]; rfl⟩

theorem handleRequest_remove (htype : r.type = pwRemoveLeaf) :
    NoEffect B env s r ∨
      ((handleRequest B env r s).1.resultCode = ecSuccess ∧
        RemoveAccepted B r.dataLength r.body s ∧
        (handleRequest B env r s).2.tree = { s.tree with root := removedRoot B r.body s }) := by
  rcases handle_cases B env r s (by rw [htype]; decide) with h | h
  · exact Or.inl (noEffect_of_version h)
  · have hdispatch : dispatch B env r s = handleRemoveLeaf B env r.dataLength r.body s := by
      simp only [dispatch, htype]
      rfl
    rw [hdispatch] at h
    rcases handleRemoveLeaf_cases B env r.dataLength r.body s with
      ⟨code, hne, ho⟩ | ⟨haccepted, logged, -, ⟨hne, ho⟩ | ⟨-, ho⟩⟩
    · exact Or.inl (noEffect_of_fail (h.trans ho) hne rfl)
    · exact Or.inl (noEffect_of_fail (h.trans ho) hne rfl)
    · obtain ⟨hresult, -, hstate, -⟩ := handleRequest_response B env r s
      rw [h, ho] at hresult hstate
      exact Or.inr ⟨hresult, haccepted, by rw [hstate]; rfl⟩

/-- A response with a leaf in it is not empty. -/
theorem authTookEffect_of_leafBytes {resp : Response} (wrapped : WrappedLeafData)
    (hcode : resp.resultCode = ecSuccess ∨
      r.type = pwTryAuth ∧ resp.resultCode = pwErrLowentAuthFailed)
    (hleaf : resp.leafBytes r = WrappedLeafData.codec.encode wrapped) :
    AuthTookEffect r resp := by
  refine ⟨hcode, fun hnil => ?_⟩
  have hlen := congrArg List.length hleaf
  rw [Response.leafBytes, hnil, List.drop_nil, WrappedLeafData.codec.length_encode] at hlen
  cases hlen

theorem tryAuthResult_code (secret : Secret) (leaf : LeafData) :
    (tryAuthResult secret leaf).1 = ecSuccess ∨
      (tryAuthResult secret leaf).1 = pwErrLowentAuthFailed := by
  unfold tryAuthResult
  split
  · exact Or.inl rfl
  · exact Or.inr rfl

theorem handleRequest_tryAuth (htype : r.type = pwTryAuth) :
    NoEffect B env s r ∨ AuthTookEffect r (handleRequest B env r s).1 := by
  rcases handle_cases B env r s (by rw [htype]; decide) with h | h
  · exact Or.inl (noEffect_of_version h)
  · have hdispatch : dispatch B env r s = handleTryAuth B env r.dataLength r.body s := by
      simp only [dispatch, htype]
      rfl
    rw [hdispatch] at h
    obtain ⟨hresult, -, hstate, -, hleaf⟩ := handleRequest_response B env r s
    rcases handleTryAuth_cases B env r.dataLength r.body s with
      ⟨code, hne, -, ho⟩ | ⟨leaf, -, ⟨hrate, ho⟩ | ⟨-, wrapped, newRoot, logged, -, -, -,
        ⟨hne, ho⟩ | ⟨-, ho⟩⟩⟩
    · exact Or.inl (noEffect_of_fail (h.trans ho) hne rfl)
    · -- the rate limit returns a body, but no code that counts as an attempt
      left
      rw [h, ho] at hresult hstate
      have hlimited : (handleRequest B env r s).1.resultCode = pwErrRateLimitReached :=
        hresult.trans ((testRateLimit_code env.now s.restartCount leaf.pub).resolve_left hrate)
      refine ⟨by rw [hstate], fun L => account_of_rejected (by rw [hlimited]; decide) ?_⟩
      rintro - ⟨hcode, -⟩
      rw [hlimited] at hcode
      exact absurd hcode (by rw [htype]; decide)
    · exact Or.inl (noEffect_of_fail (h.trans ho) hne rfl)
    · right
      rw [h, ho] at hresult hleaf
      apply authTookEffect_of_leafBytes wrapped
      · rw [hresult]
        exact (tryAuthResult_code _ _).imp id fun hcode => ⟨htype, hcode⟩
      · rw [hleaf, htype]
        exact drop_tryAuthBody _ _ _

theorem handleRequest_resetAuth (htype : r.type = pwResetAuth) :
    NoEffect B env s r ∨ AuthTookEffect r (handleRequest B env r s).1 := by
  rcases handle_cases B env r s (by rw [htype]; decide) with h | h
  · exact Or.inl (noEffect_of_version h)
  · have hdispatch : dispatch B env r s = handleResetAuth B env r.dataLength r.body s := by
      simp only [dispatch, htype]
      rfl
    rw [hdispatch] at h
    rcases handleResetAuth_cases B env r.dataLength r.body s with
      ⟨code, hne, ho⟩ | ⟨leaf, -, wrapped, newRoot, logged, -, -, -, ⟨hne, ho⟩ | ⟨-, ho⟩⟩
    · exact Or.inl (noEffect_of_fail (h.trans ho) hne rfl)
    · exact Or.inl (noEffect_of_fail (h.trans ho) hne rfl)
    · right
      obtain ⟨hresult, -, -, -, hleaf⟩ := handleRequest_response B env r s
      rw [h, ho] at hresult hleaf
      apply authTookEffect_of_leafBytes wrapped (Or.inl hresult)
      rw [hleaf, htype]
      exact List.drop_left' leaf.sec.highEntropySecret.property

/-- Requests for the log, replays and requests of an unknown type. -/
theorem handleRequest_other (hreset : r.type ≠ pwResetTree) (hinsert : r.type ≠ pwInsertLeaf)
    (hremove : r.type ≠ pwRemoveLeaf) (htry : r.type ≠ pwTryAuth)
    (hresetAuth : r.type ≠ pwResetAuth) : NoEffect B env s r := by
  have hloaded : ∀ s', LogLoaded B env s s' → s'.tree = s.tree := by
    rintro s' (rfl | rfl)
    · rfl
    · rfl
  refine ⟨?_, fun L => account_of_type hreset hinsert hremove htry hresetAuth⟩
  rw [(handleRequest_response B env r s).2.2.1]
  rcases handle_cases B env r s hinsert with h | h
  · rw [h]
    rfl
  · rw [h, dispatch, if_neg hreset, if_neg hinsert, if_neg hremove, if_neg htry,
      if_neg hresetAuth]
    split
    · exact hloaded _ (handleGetLog_state B env r.dataLength r.body s)
    · split
      · exact hloaded _ (handleLogReplay_state B env r.dataLength r.body s)
      · rfl

end Effects

end Pinweaver
end CrosEc
