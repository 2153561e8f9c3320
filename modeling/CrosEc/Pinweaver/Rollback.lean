import CrosEc.Pinweaver.Ledger

/-!
# Rollback protection

A client may send any bytes in any order.  The root in the chip still follows the
ledger, and a leaf is accepted only if it is the current one of its slot: an older copy
has another hmac, and only the current hmac climbs to the root.  The argument needs no
storage to succeed; what it rests on is that SHA-256 and HMAC have no collisions among
the inputs that one request compares.

The HMAC covers four of the sixteen bytes of the iv, so a current leaf with other bytes
behind them passes as well.
-/

namespace CrosEc
namespace Pinweaver

open Lib

/-! ## The invariant -/

/-- The root of the tree is the Merkle root of the ledger. -/
def RootOf (B : Board) (L : Ledger) (tree : MerkleTree) : Prop :=
  tree.root = Merkle.root (nodeHash B.crypto) (fanOut tree) L.slots tree.height.toNat

/-- The ledger explains the tree: it has its root, and all entries are leaves that the
chip has sealed. -/
structure Explains (B : Board) (L : Ledger) (tree : MerkleTree) : Prop where
  root : RootOf B L tree
  entries : ∀ i leaf, L i = some leaf →
    leaf.head = currentHead ∧ leaf.hmac = computeHmac B.crypto tree leaf

/-- No two byte strings that are hashed to authenticate `child` have the same SHA-256,
neither in the tree of the ledger nor on the way up. -/
def PathSound (B : Board) (L : Ledger) (tree : MerkleTree) (label : UInt64) (path : Bytes)
    (child : Hash) : Prop :=
  Set.InjOn B.crypto.sha256
    (hashedInputs B.crypto tree L.slots label (pathHashes tree path) child)

section Paths

variable {B : Board} {L : Ledger} {tree : MerkleTree}

theorem validateRequestWithPath_ok {label : UInt64} {path : Bytes} {child : Hash}
    (h : validateRequestWithPath B.crypto tree label path child = ecSuccess) :
    ValidShape tree.bitsPerLevel tree.height ∧ validateLabel tree label = ecSuccess ∧
      authenticatePath B.crypto tree label path child = ecSuccess := by
  unfold validateRequestWithPath at h
  split at h
  · rename_i hne
    exact absurd h hne
  · rename_i htree
    split at h
    · rename_i hne
      exact absurd h hne
    · rename_i hlabel
      refine ⟨validateTreeParameters_ok ?_, not_not.mp hlabel, h⟩
      by_contra hparams
      rw [validateTree, if_pos hparams] at htree
      exact htree (by decide)

/-- **A request with a valid path** names a slot of the tree and the hash in it, and the
root it computes is that of the ledger with a new entry for the slot. -/
theorem slot_of_path {label : UInt64} {path : Bytes} {child : Hash} (hroot : RootOf B L tree)
    (hsound : PathSound B L tree label path child)
    (hok : validateRequestWithPath B.crypto tree label path child = ecSuccess) :
    label.toNat < fanOut tree ^ tree.height.toNat ∧ L.slots label.toNat = child ∧
      ∀ entry, RootOf B (L.write label entry)
        { tree with root :=
            computeRootHash B.crypto tree label path (entry.elim emptyHash ImportedLeaf.hmac) } := by
  obtain ⟨hshape, hlabel, hauth⟩ := validateRequestWithPath_ok hok
  have hlt := (validateLabel_ok hshape).mp hlabel
  obtain ⟨hslot, hclimb⟩ := authenticatePath_slot hshape hroot hlt hsound hauth
  refine ⟨hlt, hslot, fun entry => ?_⟩
  rw [RootOf, Ledger.slots_write]
  exact hclimb _

/-- An entry that the chip has sealed keeps the ledger sealed. -/
theorem Explains.write (h : Explains B L tree) {label : UInt64} {entry : Option ImportedLeaf}
    {newRoot : Hash} (hroot : RootOf B (L.write label entry) { tree with root := newRoot })
    (hentry : ∀ leaf, entry = some leaf →
      leaf.head = currentHead ∧ leaf.hmac = computeHmac B.crypto tree leaf) :
    Explains B (L.write label entry) { tree with root := newRoot } := by
  refine ⟨hroot, fun i leaf hleaf => ?_⟩
  by_cases hi : i = label.toNat
  · subst hi
    rw [Ledger.write, Function.update_self] at hleaf
    exact hentry leaf hleaf
  · rw [Ledger.write, Function.update_of_ne hi] at hleaf
    exact h.entries i leaf hleaf

theorem handleLeafUpdate_ok {aesOk : Bool} {randIv : Blob 16} {leaf : LeafData} {hashes : Bytes}
    {old : Option ImportedLeaf} {wrapped : WrappedLeafData} {newRoot : Hash}
    (h : handleLeafUpdate B.crypto aesOk randIv tree leaf hashes old = .ok (wrapped, newRoot)) :
    (∃ iv cipherText, wrapped = sealLeaf B.crypto tree iv leaf.pub cipherText) ∧
      newRoot = computeRootHash B.crypto tree leaf.pub.label hashes wrapped.hmac := by
  unfold handleLeafUpdate at h
  simp only at h
  split at h
  · cases h
  · obtain ⟨hwrapped, hroot⟩ := Prod.mk.inj (Except.ok.inj h)
    exact ⟨⟨_, _, hwrapped.symm⟩, by rw [← hroot, ← hwrapped]⟩

/-- The entry for a leaf that was sealed with this tree. -/
theorem sealed_entry {wrapped : WrappedLeafData} {iv : Blob 16} {pub : LeafPublicData}
    {cipherText : Blob 96} (hwrapped : wrapped = sealLeaf B.crypto tree iv pub cipherText) :
    (importLeaf (WrappedLeafData.codec.encode wrapped)).hmac = wrapped.hmac ∧
      ∀ leaf, some (importLeaf (WrappedLeafData.codec.encode wrapped)) = some leaf →
        leaf.head = currentHead ∧ leaf.hmac = computeHmac B.crypto tree leaf := by
  subst hwrapped
  obtain ⟨hhead, hhmac, hsealed⟩ := importLeaf_sealLeaf B.crypto tree iv pub cipherText
  refine ⟨hhmac, ?_⟩
  rintro leaf ⟨⟩
  exact ⟨hhead, hhmac.trans hsealed.symm⟩

end Paths

/-! ## One request -/

/-- The label of an insert request is the same in both protocol versions. -/
theorem insertLeafLabel_compatible {tree : MerkleTree} {r r' : Request}
    (h : makeCompatibleRequest tree r = some r') :
    insertLeafLabel r'.body = insertLeafLabel r.body := by
  unfold makeCompatibleRequest at h
  split at h
  · split at h
    · cases h
      apply Codec.uint64.decode_eq_of_readBytes
      rw [show insertLeaf00Size = Codec.uint64.size + 224 from rfl, readBytes_add]
      simp only [List.append_assoc]
      exact readBytes_append (length_readBytes _ _) _
    · cases h
      rfl
  · split at h
    · cases h
      rfl
    · cases h

/-- **Collision freedom for one request**: of SHA-256 where a path is authenticated, and
of HMAC between the presented leaf and the current one, which is never the hash of an
empty slot. -/
structure CallSound (B : Board) (L : Ledger) (s : State B.cfg.bufferSize) (r : Request) :
    Prop where
  insert : r.type = pwInsertLeaf → ∀ r', makeCompatibleRequest s.tree r = some r' →
    PathSound B L s.tree (insertLeafLabel r'.body) (insertLeafPath r'.body) emptyHash
  remove : r.type = pwRemoveLeaf →
    PathSound B L s.tree (removeLeafLocation r.body) (removeLeafPath r.body)
      (removeLeafHmac r.body)
  auth : r.type = pwTryAuth ∨ r.type = pwResetAuth →
    PathSound B L s.tree r.presented.label r.presented.hashes r.presented.hmac
  hmac : r.type = pwTryAuth ∨ r.type = pwResetAuth →
    ∀ leaf, L r.presented.label.toNat = some leaf →
      Set.InjOn (B.crypto.hmacSha256 s.tree.hmacKey) {hmacInput r.presented, hmacInput leaf}
  hmac_ne : r.type = pwTryAuth ∨ r.type = pwResetAuth →
    B.crypto.hmacSha256 s.tree.hmacKey (hmacInput r.presented) ≠ emptyHash

section Step

variable {B : Board} (env : Env B.cfg.bufferSize) {L : Ledger} {r : Request}
  {s : State B.cfg.bufferSize}

/-- A leaf that is accepted agrees with the current leaf of its slot in everything that
the HMAC covers. -/
theorem current_of_accepted (h : Explains B L s.tree) (hsound : CallSound B L s r)
    (htype : r.type = pwTryAuth ∨ r.type = pwResetAuth) {payloadLen : UInt16} {data : LeafData}
    (haccepted : LeafAccepted B env.aesOk s.tree payloadLen (leafRequestLeaf r.body) data) :
    ∃ leaf, L r.presented.label.toNat = some leaf ∧ leaf.head = currentHead ∧
      r.presented.copy.SameButIvTail leaf.copy := by
  have hslot := (slot_of_path h.root (hsound.auth htype) haccepted.path).2.1
  have hhmac : computeHmac B.crypto s.tree r.presented = r.presented.hmac := haccepted.hmac
  cases hentry : L r.presented.label.toNat with
  | none =>
      have hempty : emptyHash = r.presented.hmac := by
        rw [← hslot, Ledger.slots, hentry]
        rfl
      rw [← hhmac] at hempty
      exact absurd hempty.symm (hsound.hmac_ne htype)
  | some leaf =>
      have hsame : leaf.hmac = r.presented.hmac := by
        rw [← hslot, Ledger.slots, hentry]
        rfl
      obtain ⟨hhead, hsealed⟩ := h.entries _ leaf hentry
      refine ⟨leaf, rfl, hhead, hmacInput_eq_iff.mp ?_⟩
      apply hsound.hmac htype leaf hentry (Or.inl rfl) (Or.inr rfl)
      exact hhmac.trans (hsame.symm.trans hsealed)

/-- A reset request that succeeds leaves an empty tree. -/
theorem explains_reset (htype : r.type = pwResetTree)
    (hcode : (handleRequest B env r s).1.resultCode = ecSuccess) :
    Explains B Ledger.empty (handleRequest B env r s).2.tree := by
  rcases handleRequest_reset env s htype with ⟨-, hnone⟩ | ⟨-, tree, haccepted, htree⟩
  · -- a reset with this code is entered in the ledger
    have hcleared := hnone (fun _ => some zeroLeaf)
    rw [account_reset htype hcode] at hcleared
    cases congrFun hcleared 0
  · rw [htree]
    have hshape := validateTreeParameters_ok haccepted.params
    have hcreated := congrArg Prod.snd haccepted.created
    have hroot := createMerkleTree_root (C := B.crypto) hshape env.keys env.nonce
    have hbits := congrArg MerkleTree.bitsPerLevel hcreated
    have hheight := congrArg MerkleTree.height hcreated
    rw [createMerkleTree, deriveKeys_bitsPerLevel] at hbits
    rw [createMerkleTree, deriveKeys_height] at hheight
    refine ⟨?_, fun i leaf hleaf => by cases hleaf⟩
    rw [RootOf, Ledger.slots_empty, fanOut, ← hbits, ← hheight, ← hroot, hcreated]

theorem explains_noEffect (h : Explains B L s.tree) (hnone : NoEffect B env s r) :
    Explains B (account L r (handleRequest B env r s).1) (handleRequest B env r s).2.tree := by
  rw [hnone.1, hnone.2]
  exact h

theorem explains_insert (h : Explains B L s.tree) (hsound : CallSound B L s r)
    (htype : r.type = pwInsertLeaf) :
    Explains B (account L r (handleRequest B env r s).1) (handleRequest B env r s).2.tree := by
  rcases handleRequest_insert env s htype with
    hnone | ⟨hcode, r', wrapped, newRoot, hcompat, haccepted, hleaf, htree⟩
  · exact explains_noEffect env h hnone
  · obtain ⟨⟨iv, cipherText, hwrapped⟩, hroot⟩ := handleLeafUpdate_ok haccepted.update
    obtain ⟨hhmac, hentry⟩ := sealed_entry hwrapped
    have hslot := (slot_of_path h.root (hsound.insert htype r' hcompat) haccepted.path).2.2
      (some (importLeaf (WrappedLeafData.codec.encode wrapped)))
    rw [Option.elim_some, hhmac, insertLeafLabel_compatible hcompat] at hslot
    have hlabel : (insertLeafData r'.body).pub.label = insertLeafLabel r.body :=
      insertLeafLabel_compatible hcompat
    rw [hlabel] at hroot
    rw [account_insert htype hcode, hleaf, htree, hroot]
    exact h.write hslot hentry

theorem explains_remove (h : Explains B L s.tree) (hsound : CallSound B L s r)
    (htype : r.type = pwRemoveLeaf) :
    Explains B (account L r (handleRequest B env r s).1) (handleRequest B env r s).2.tree := by
  rcases handleRequest_remove env s htype with
    hnone | ⟨hcode, haccepted, htree⟩
  · exact explains_noEffect env h hnone
  · rw [account_remove htype hcode, htree]
    apply h.write
    · exact (slot_of_path h.root (hsound.remove htype) haccepted.path).2.2 none
    · intro leaf hleaf
      cases hleaf

theorem explains_auth (h : Explains B L s.tree) (hsound : CallSound B L s r)
    (htype : r.type = pwTryAuth ∨ r.type = pwResetAuth)
    (heffect : AuthTookEffect r (handleRequest B env r s).1) :
    Explains B (account L r (handleRequest B env r s).1) (handleRequest B env r s).2.tree := by
  obtain ⟨haccepted, -, -, hleaf, htree⟩ := handleRequest_auth B env r s htype heffect
  obtain ⟨leaf, -, hhead, hsame, -⟩ := current_of_accepted env h hsound htype haccepted
  have hlabel : (authPub B env r s).label = r.presented.label :=
    (authPub_kept B env r s).1.trans (presentedLeaf_label B s.tree (hsame.trans hhead))
  have hwrapped : rewrap B s.tree r.presented (authPub B env r s) =
      sealLeaf B.crypto s.tree r.presented.iv (authPub B env r s)
        (readBlob 96 r.presented.cipherText) := rfl
  obtain ⟨hhmac, hentry⟩ := sealed_entry hwrapped
  have hslot := (slot_of_path h.root (hsound.auth htype) haccepted.path).2.2
    (some (importLeaf (WrappedLeafData.codec.encode
      (rewrap B s.tree r.presented (authPub B env r s)))))
  rw [Option.elim_some, hhmac] at hslot
  rw [account_auth htype heffect, hleaf, htree, rewrapRoot, hlabel]
  exact h.write hslot hentry

/-- **The root follows the ledger** through every request. -/
theorem explains_step (h : Explains B L s.tree) (hsound : CallSound B L s r) :
    Explains B (account L r (handleRequest B env r s).1) (handleRequest B env r s).2.tree := by
  by_cases hreset : r.type = pwResetTree
  · rcases handleRequest_reset env s hreset with hnone | ⟨hcode, -⟩
    · exact explains_noEffect env h hnone
    · rw [account_reset hreset hcode]
      exact explains_reset env hreset hcode
  · by_cases hinsert : r.type = pwInsertLeaf
    · exact explains_insert env h hsound hinsert
    · by_cases hremove : r.type = pwRemoveLeaf
      · exact explains_remove env h hsound hremove
      · by_cases htry : r.type = pwTryAuth
        · rcases handleRequest_tryAuth env s htry with hnone | heffect
          · exact explains_noEffect env h hnone
          · exact explains_auth env h hsound (Or.inl htry) heffect
        · by_cases hresetAuth : r.type = pwResetAuth
          · rcases handleRequest_resetAuth env s hresetAuth with hnone | heffect
            · exact explains_noEffect env h hnone
            · exact explains_auth env h hsound (Or.inr hresetAuth) heffect
          · exact explains_noEffect env h
              (handleRequest_other env s hreset hinsert hremove htry hresetAuth)

end Step

/-! ## Whole runs -/

/-- The rules for requests that take effect: an insert fills an empty slot, a removal and
an authentication present what the slot holds, and an authentication presents the
current copy of the leaf. -/
structure KeepsRules (L : Ledger) (tree : MerkleTree) (r : Request) (resp : Response) : Prop where
  insert : r.type = pwInsertLeaf → resp.resultCode = ecSuccess →
    (insertLeafLabel r.body).toNat < fanOut tree ^ tree.height.toNat ∧
      L.slots (insertLeafLabel r.body).toNat = emptyHash
  remove : r.type = pwRemoveLeaf → resp.resultCode = ecSuccess →
    (removeLeafLocation r.body).toNat < fanOut tree ^ tree.height.toNat ∧
      L.slots (removeLeafLocation r.body).toNat = removeLeafHmac r.body
  auth : r.type = pwTryAuth ∨ r.type = pwResetAuth → AuthTookEffect r resp →
    r.presented.label.toNat < fanOut tree ^ tree.height.toNat ∧
      L.slots r.presented.label.toNat = r.presented.hmac ∧
      ∃ leaf, L r.presented.label.toNat = some leaf ∧ leaf.copy = r.presented.copy

/-- An authentication request does not present the current leaf of its slot with other
bytes in the part of the iv that the HMAC leaves out. -/
def IvKept (L : Ledger) (r : Request) : Prop :=
  r.type = pwTryAuth ∨ r.type = pwResetAuth →
    ∀ leaf, L r.presented.label.toNat = some leaf →
      r.presented.copy.SameButIvTail leaf.copy → r.presented.iv = leaf.iv

section Runs

variable (B : Board)

/-- One request keeps the rules, and the root afterwards is that of the ledger. -/
def CallProtected (L : Ledger) (s : State B.cfg.bufferSize) (env : Env B.cfg.bufferSize)
    (r : Request) : Prop :=
  KeepsRules L s.tree r (handleRequest B env r s).1 ∧
    RootOf B (account L r (handleRequest B env r s).1) (handleRequest B env r s).2.tree

/-- `P` holds of all requests of a run, each with the ledger and the state before it. -/
def EveryCall (P : Ledger → State B.cfg.bufferSize → Env B.cfg.bufferSize → Request → Prop) :
    Ledger → State B.cfg.bufferSize → List (Env B.cfg.bufferSize × Request) → Prop
  | _, _, [] => True
  | L, s, (env, r) :: run =>
      P L s env r ∧
        EveryCall P (account L r (handleRequest B env r s).1) (handleRequest B env r s).2 run

variable {B} {env : Env B.cfg.bufferSize} {L : Ledger} {r : Request} {s : State B.cfg.bufferSize}

theorem keepsRules_step (h : Explains B L s.tree) (hsound : CallSound B L s r)
    (hiv : IvKept L r) : KeepsRules L s.tree r (handleRequest B env r s).1 := by
  refine ⟨fun htype hcode => ?_, fun htype hcode => ?_, fun htype heffect => ?_⟩
  · rcases handleRequest_insert env s htype with
      ⟨-, hnone⟩ | ⟨-, r', wrapped, newRoot, hcompat, haccepted, -⟩
    · have hfilled := hnone Ledger.empty
      rw [account_insert htype hcode] at hfilled
      have hslot := congrFun hfilled (insertLeafLabel r.body).toNat
      rw [Ledger.write, Function.update_self] at hslot
      cases hslot
    · obtain ⟨hlt, hslot, -⟩ :=
        slot_of_path h.root (hsound.insert htype r' hcompat) haccepted.path
      rw [insertLeafLabel_compatible hcompat] at hlt hslot
      exact ⟨hlt, hslot⟩
  · rcases handleRequest_remove env s htype with ⟨-, hnone⟩ | ⟨-, haccepted, -⟩
    · have hcleared := hnone (fun _ => some zeroLeaf)
      rw [account_remove htype hcode] at hcleared
      have hslot := congrFun hcleared (removeLeafLocation r.body).toNat
      rw [Ledger.write, Function.update_self] at hslot
      cases hslot
    · obtain ⟨hlt, hslot, -⟩ := slot_of_path h.root (hsound.remove htype) haccepted.path
      exact ⟨hlt, hslot⟩
  · obtain ⟨haccepted, -⟩ := handleRequest_auth B env r s htype heffect
    obtain ⟨hlt, hslot, -⟩ := slot_of_path h.root (hsound.auth htype) haccepted.path
    obtain ⟨leaf, hentry, -, hsame⟩ := current_of_accepted env h hsound htype haccepted
    exact ⟨hlt, hslot, leaf, hentry, (hsame.eq (hiv htype leaf hentry hsame)).symm⟩

/-- A run from any state that the ledger explains. -/
theorem callsProtected_of_explains {run : List (Env B.cfg.bufferSize × Request)}
    (h : Explains B L s.tree) (hsound : EveryCall B (fun L s _ r => CallSound B L s r) L s run)
    (hiv : EveryCall B (fun L _ _ r => IvKept L r) L s run) :
    EveryCall B (CallProtected B) L s run := by
  induction run generalizing L s with
  | nil => trivial
  | cons call run ih =>
      obtain ⟨env, r⟩ := call
      obtain ⟨hsound, hsoundRest⟩ := hsound
      obtain ⟨hiv, hivRest⟩ := hiv
      have hstep := explains_step env h hsound
      exact ⟨⟨keepsRules_step h hsound hiv, hstep.root⟩, ih hstep hsoundRest hivRest⟩

/-- **Rollback protection.**  After a successful reset the ledger is empty and has the
root of the tree.  For every run of requests from there, without collisions and without
a current leaf whose iv was changed behind the HMAC: every request keeps the rules, and
the root is that of the ledger after every request. -/
theorem run_protected_of_ivKept (B : Board) (env : Env B.cfg.bufferSize) (r : Request)
    (s : State B.cfg.bufferSize) (hreset : r.type = pwResetTree)
    (hcode : (handleRequest B env r s).1.resultCode = ecSuccess)
    (run : List (Env B.cfg.bufferSize × Request))
    (hsound : EveryCall B (fun L s _ r => CallSound B L s r) Ledger.empty
      (handleRequest B env r s).2 run)
    (hiv : EveryCall B (fun L _ _ r => IvKept L r) Ledger.empty (handleRequest B env r s).2 run) :
    RootOf B Ledger.empty (handleRequest B env r s).2.tree ∧
      EveryCall B (CallProtected B) Ledger.empty (handleRequest B env r s).2 run := by
  have hexplains := explains_reset env hreset hcode
  exact ⟨hexplains.root, callsProtected_of_explains hexplains hsound hiv⟩

end Runs

/-! ## Two runs on the small board -/

/-- In a tree of height one, an honest path hashes nothing but the list of all slots. -/
theorem pathSound_of_flat {B : Board} {L : Ledger} {tree : MerkleTree} {label : UInt64}
    {path : Bytes} {child : Hash} (hheight : tree.height = 1)
    (hplug : Merkle.plug ((pathHashes tree path).take (fanOut tree - 1))
      (label.toNat % fanOut tree) child =
        Merkle.children (nodeHash B.crypto) (fanOut tree) L.slots 0 0) :
    PathSound B L tree label path child := by
  have hheight' : tree.height.toNat = 1 := by
    rw [hheight]
    rfl
  have hsingle : ∀ bs ∈ hashedInputs B.crypto tree L.slots label (pathHashes tree path) child,
      bs = hashBytes (Merkle.children (nodeHash B.crypto) (fanOut tree) L.slots 0 0) := by
    rintro bs ⟨kids, hkids, rfl⟩
    rw [hheight'] at hkids
    rcases hkids with ⟨l, p, hl, hp, rfl⟩ | hkids
    · have hl0 : l = 0 := Nat.lt_one_iff.mp hl
      subst hl0
      have hp0 : p = 0 := Nat.lt_one_iff.mp hp
      subst hp0
      rfl
    · rw [List.mem_singleton.mp hkids, hplug]
  intro a ha b hb _
  rw [hsingle a ha, hsingle b hb]

/-- The device after a reset. -/
def freshState : State testBoard.cfg.bufferSize :=
  (handleRequest testBoard testEnv resetRequest blankState).2

/-- A leaf for the first slot, whose attempts are limited from the fifth on.  All secrets
are zero. -/
def insertRequest : Request where
  version := 1
  type := pwInsertLeaf
  dataLength := 332
  body := List.replicate 8 0 ++ DelayScheduleEntry.codec.encode ⟨5, 10⟩ ++ List.replicate 316 0

/-- The response to the insert and the device after it. -/
def inserted : Response × State testBoard.cfg.bufferSize :=
  handleRequest testBoard testEnv insertRequest freshState

/-- The ledger after the insert. -/
def insertedLedger : Ledger := account Ledger.empty insertRequest inserted.1

/-- A try with the right secret and these bytes for the leaf. -/
def tryLeaf (leafBytes : Bytes) : Request where
  version := 1
  type := pwTryAuth
  dataLength := 436
  body := List.replicate 32 0 ++ leafBytes ++ emptyHash.val

/-- The leaf as it was returned. -/
def honestTry : Request := tryLeaf inserted.1.body

/-- The leaf with another byte at the end of its iv. -/
def tamperedTry : Request := tryLeaf (inserted.1.body.set 55 0)

theorem fresh_facts :
    (handleRequest testBoard testEnv resetRequest blankState).1.resultCode = ecSuccess ∧
      freshState.tree.height = 1 ∧
      Merkle.plug ((pathHashes freshState.tree (insertLeafPath insertRequest.body)).take
          (fanOut freshState.tree - 1))
        ((insertLeafLabel insertRequest.body).toNat % fanOut freshState.tree) emptyHash =
          Merkle.children (nodeHash testBoard.crypto) (fanOut freshState.tree)
            Ledger.empty.slots 0 0 := by
  decide +kernel

theorem insert_sound : CallSound testBoard Ledger.empty freshState insertRequest := by
  constructor
  · intro _ r' hcompat
    cases hcompat
    exact pathSound_of_flat fresh_facts.2.1 fresh_facts.2.2
  · exact fun htype => absurd htype (by decide)
  · exact fun htype => absurd htype (by decide)
  · exact fun htype => absurd htype (by decide)
  · exact fun htype => absurd htype (by decide)

/-- What makes a try after the insert sound: its path is honest, and the HMAC sees the
bytes of the current leaf. -/
@[mk_iff tryFacts_iff]
structure TryFacts (r : Request) : Prop where
  type_eq : r.type = pwTryAuth
  height : inserted.2.tree.height = 1
  plug : Merkle.plug
    ((pathHashes inserted.2.tree r.presented.hashes).take (fanOut inserted.2.tree - 1))
    (r.presented.label.toNat % fanOut inserted.2.tree) r.presented.hmac =
      Merkle.children (nodeHash testBoard.crypto) (fanOut inserted.2.tree) insertedLedger.slots 0 0
  input : (insertedLedger r.presented.label.toNat).map hmacInput = some (hmacInput r.presented)
  hmac_ne : testBoard.crypto.hmacSha256 inserted.2.tree.hmacKey (hmacInput r.presented) ≠ emptyHash

theorem TryFacts.sound {r : Request} (h : TryFacts r) :
    CallSound testBoard insertedLedger inserted.2 r := by
  obtain ⟨htype, hheight, hplug, hinput, hne⟩ := h
  constructor
  · exact fun hinsert => absurd (htype.symm.trans hinsert) (by decide)
  · exact fun hremove => absurd (htype.symm.trans hremove) (by decide)
  · exact fun _ => pathSound_of_flat hheight hplug
  · intro _ leaf hentry
    rw [hentry] at hinput
    rw [← Option.some.inj hinput]
    intro a ha b hb _
    rw [Set.pair_eq_singleton] at ha hb
    rw [ha, hb]
  · exact fun _ => hne

theorem tries_facts :
    (TryFacts honestTry ∧
        (insertedLedger honestTry.presented.label.toNat).map ImportedLeaf.iv =
          some honestTry.presented.iv ∧
        (handleRequest testBoard testEnv honestTry inserted.2).1.resultCode = ecSuccess) ∧
      TryFacts tamperedTry ∧
        (insertedLedger tamperedTry.presented.label.toNat).map ImportedLeaf.iv ≠
          some tamperedTry.presented.iv ∧
        AuthTookEffect tamperedTry (handleRequest testBoard testEnv tamperedTry inserted.2).1 := by
  simp only [tryFacts_iff]
  decide +kernel

/-- An insert and a try with the leaf that it returned. -/
theorem run_protected_honestTry :
    (handleRequest testBoard testEnv honestTry inserted.2).1.resultCode = ecSuccess ∧
      EveryCall testBoard (CallProtected testBoard) Ledger.empty freshState
        [(testEnv, insertRequest), (testEnv, honestTry)] := by
  obtain ⟨⟨hfacts, hiv, hcode⟩, -⟩ := tries_facts
  have hkept : IvKept insertedLedger honestTry := by
    intro _ leaf hentry _
    rw [hentry] at hiv
    exact (Option.some.inj hiv).symm
  have hinsert : IvKept Ledger.empty insertRequest := fun htype => absurd htype (by decide)
  exact ⟨hcode, (run_protected_of_ivKept testBoard testEnv resetRequest blankState rfl fresh_facts.1
    [(testEnv, insertRequest), (testEnv, honestTry)] ⟨insert_sound, hfacts.sound, trivial⟩
    ⟨hinsert, hkept, trivial⟩).2⟩

/-- An insert and a try with the same leaf but for the last byte of its iv.  Nothing
collides, and the try takes effect with a leaf that the chip never returned. -/
theorem not_callsProtected_tamperedTry :
    (handleRequest testBoard testEnv resetRequest blankState).1.resultCode = ecSuccess ∧
      EveryCall testBoard (fun L s _ r => CallSound testBoard L s r) Ledger.empty freshState
        [(testEnv, insertRequest), (testEnv, tamperedTry)] ∧
      ¬ EveryCall testBoard (CallProtected testBoard) Ledger.empty freshState
        [(testEnv, insertRequest), (testEnv, tamperedTry)] := by
  obtain ⟨-, hfacts, hiv, heffect⟩ := tries_facts
  refine ⟨fresh_facts.1, ⟨insert_sound, hfacts.sound, trivial⟩, ?_⟩
  rintro ⟨-, ⟨hrules, -⟩, -⟩
  obtain ⟨-, -, leaf, hentry, hcopy⟩ := hrules.auth (Or.inl rfl) heffect
  apply hiv
  have hsame : leaf.iv = tamperedTry.presented.iv := congrArg LeafCopy.iv hcopy
  rw [← hsame, ← Option.map_some, ← hentry]
  rfl

end Pinweaver
end CrosEc
