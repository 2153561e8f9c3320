import CrosEc.Lib.MerkleTree
import CrosEc.Pinweaver.Types
import Mathlib.Data.Nat.Bitwise

/-!
# The Merkle tree of PinWeaver

`compute_hash`, `compute_root_hash`, `authenticate_path`, `create_merkle_tree` and
the checks on tree parameters and labels, followed by what they compute: a walk up a
complete tree of fan-out `2 ^ bits_per_level`.

Sibling hashes reach the code as a pointer, here the bytes from there on.
-/

namespace CrosEc
namespace Pinweaver

open Lib

/-- The cryptographic engine: SHA-256, HMAC-SHA-256, AES-CTR and the key derivation,
when they succeed, and the seed they start from. -/
structure Crypto where
  sha256 : Bytes → Hash
  hmacSha256 : Blob 32 → Bytes → Hash
  aesCtr : Blob 32 → Blob 16 → Blob 96 → Blob 96
  appkeyDerive : Blob 32 → Blob 32
  storageSeed : Blob 32

/-! ## Parameters -/

/-- `1 << bits_per_level` as the 32-bit core computes it. -/
def shiftOne (bitsPerLevel : UInt8) : UInt32 :=
  if bitsPerLevel < 32 then 1 <<< bitsPerLevel.toUInt32 else 0

/-- `get_path_auxiliary_hash_count`: the number of sibling hashes along a path. -/
def getPathAuxiliaryHashCount (tree : MerkleTree) : UInt32 :=
  (shiftOne tree.bitsPerLevel - 1) * tree.height.toUInt32

/-- `validate_tree_parameters`.  `fan_out` is an 8-bit variable. -/
def validateTreeParameters (bitsPerLevel height : UInt8) : Code :=
  let fanOut := (shiftOne bitsPerLevel).toUInt8
  if bitsPerLevel < 1 || bitsPerLevel > 5 then pwErrBitsPerLevelInvalid
  else if height < 1 || height.toNat > 64 / bitsPerLevel.toNat ||
      (fanOut.toNat - 1) * height.toNat * pwHashSize > pwMaxPathSize then pwErrHeightInvalid
  else ecSuccess

/-- `validate_tree` -/
def validateTree (tree : MerkleTree) : Code :=
  if validateTreeParameters tree.bitsPerLevel tree.height ≠ ecSuccess then pwErrTreeInvalid
  else ecSuccess

/-- `validate_label` -/
def validateLabel (tree : MerkleTree) (path : UInt64) : Code :=
  let shiftBy := tree.bitsPerLevel * tree.height
  if path >>> shiftBy.toUInt64 = 0 then ecSuccess else pwErrLabelInvalid

/-! ## Hashing -/

variable (C : Crypto)

/-- `compute_hash` -/
def computeHash (hashes : Bytes) (numHashes : UInt16) (location : UInt8) (childHash : Hash) :
    Hash :=
  let loc := location.toNat
  let num := numHashes.toNat
  let before := if 0 < loc then readBytes (pwHashSize * loc) hashes else []
  let after :=
    if loc < num then readBytes (pwHashSize * (num - loc)) (hashes.drop (pwHashSize * loc)) else []
  C.sha256 (before ++ childHash.val ++ after)

/-- One less than the fan out, as the 16-bit variables `num_aux` and
`path_suffix_mask` hold it. -/
def numAux (bitsPerLevel : UInt8) : UInt16 := (shiftOne bitsPerLevel - 1).toUInt16

/-- `(struct index_t){index & path_suffix_mask}` -/
def childIndex (bitsPerLevel : UInt8) (index : UInt64) : UInt8 :=
  (index &&& (numAux bitsPerLevel).toUInt64).toUInt8

/-- The loop of `compute_root_hash`, with the rounds left. -/
def computeRootHashFrom (bitsPerLevel : UInt8) : Nat → UInt64 → Bytes → Hash → Hash
  | 0, _, _, tempHash => tempHash
  | rounds + 1, index, hashes, tempHash =>
      let hashes := hashes.drop (pwHashSize * (numAux bitsPerLevel).toNat)
      let index := index >>> bitsPerLevel.toUInt64
      computeRootHashFrom bitsPerLevel rounds index hashes
        (computeHash C hashes (numAux bitsPerLevel) (childIndex bitsPerLevel index) tempHash)

/-- `compute_root_hash` -/
def computeRootHash (tree : MerkleTree) (path : UInt64) (hashes : Bytes) (childHash : Hash) :
    Hash :=
  computeRootHashFrom C tree.bitsPerLevel (tree.height.toNat - 1) path hashes
    (computeHash C hashes (numAux tree.bitsPerLevel) (childIndex tree.bitsPerLevel path) childHash)

/-- `authenticate_path` -/
def authenticatePath (tree : MerkleTree) (path : UInt64) (hashes : Bytes) (childHash : Hash) :
    Code :=
  if computeRootHash C tree path hashes childHash ≠ tree.root then pwErrPathAuthFailed
  else ecSuccess

/-- The loop of `create_merkle_tree` that computes the hash of the empty tree. -/
def emptyRoot (fanOut : Nat) : Nat → Hash
  | 0 => emptyHash
  | rounds + 1 =>
      C.sha256 ((List.replicate fanOut (emptyRoot fanOut rounds)).flatMap fun h => h.val)

/-- What the steps of `derive_keys` return. -/
structure KeyOutcome where
  appkeyInit : Bool
  deriveWrap : Bool
  deriveHmac : Bool

/-- The input of a key derivation: the seed with the nonce folded in, and the four
bytes of `v[6]` combined with the key type, of which every byte is `keyType`. -/
def derivationInput (nonce : Blob 16) (keyType : UInt8) : Blob 32 :=
  ⟨C.storageSeed.val.zipIdx.map fun (b, i) =>
      if i < 16 then b ^^^ nonce.val.getD i 0
      else if 24 ≤ i ∧ i < 28 then b ^^^ keyType
      else b, by rw [List.length_map, List.length_zipIdx, C.storageSeed.property]⟩

/-- `derive_keys` -/
def deriveKeys (o : KeyOutcome) (tree : MerkleTree) : Code × MerkleTree :=
  if o.appkeyInit = false || o.deriveWrap = false then (pwErrCryptoFailure, tree)
  else
    let wrapped := { tree with
      wrapKey := C.appkeyDerive (derivationInput C tree.keyDerivationNonce 0) }
    if o.deriveHmac = false then (pwErrCryptoFailure, wrapped)
    else (ecSuccess, { wrapped with
      hmacKey := C.appkeyDerive (derivationInput C tree.keyDerivationNonce 0xff) })

/-- `create_merkle_tree` into a zeroed tree, with the nonce that `rand_bytes` gives. -/
def createMerkleTree (o : KeyOutcome) (bitsPerLevel height : UInt8) (nonce : Blob 16) :
    Code × MerkleTree :=
  deriveKeys C o
    { bitsPerLevel := bitsPerLevel
      height := height
      root := emptyRoot C (shiftOne bitsPerLevel).toUInt16.toNat height.toNat
      keyDerivationNonce := nonce
      hmacKey := Arr.replicate 32 0
      wrapKey := Arr.replicate 32 0 }

/-! ## The tree behind it -/

/-- The hash of an inner node with these children. -/
def nodeHash (kids : List Hash) : Hash := C.sha256 ((Codec.blob 32).encodeList kids)

/-- The fan out of a valid tree. -/
def fanOut (tree : MerkleTree) : Nat := 2 ^ tree.bitsPerLevel.toNat

theorem bits_cases {bits : UInt8} (h₁ : 1 ≤ bits.toNat) (h₂ : bits.toNat ≤ 5) :
    bits = 1 ∨ bits = 2 ∨ bits = 3 ∨ bits = 4 ∨ bits = 5 := by
  have h : bits.toNat = 1 ∨ bits.toNat = 2 ∨ bits.toNat = 3 ∨ bits.toNat = 4 ∨ bits.toNat = 5 := by
    omega
  rcases h with h | h | h | h | h
  · exact Or.inl (UInt8.toNat_inj.mp h)
  · exact Or.inr (Or.inl (UInt8.toNat_inj.mp h))
  · exact Or.inr (Or.inr (Or.inl (UInt8.toNat_inj.mp h)))
  · exact Or.inr (Or.inr (Or.inr (Or.inl (UInt8.toNat_inj.mp h))))
  · exact Or.inr (Or.inr (Or.inr (Or.inr (UInt8.toNat_inj.mp h))))

/-- The shapes that `validate_tree_parameters` accepts. -/
structure ValidShape (bits height : UInt8) : Prop where
  bits_pos : 1 ≤ bits.toNat
  bits_le : bits.toNat ≤ 5
  height_pos : 1 ≤ height.toNat
  path_le : (2 ^ bits.toNat - 1) * height.toNat ≤ 32

theorem validateTreeParameters_ok {bits height : UInt8}
    (h : validateTreeParameters bits height = ecSuccess) : ValidShape bits height := by
  unfold validateTreeParameters at h
  simp only [Bool.or_eq_true, decide_eq_true_eq] at h
  split at h
  · cases h
  · rename_i hbits
    split at h
    · cases h
    · rename_i hheight
      simp only [not_or, UInt8.not_lt, gt_iff_lt, UInt8.le_iff_toNat_le] at hbits hheight
      obtain ⟨hlow, hhigh⟩ := hbits
      obtain ⟨⟨hheight, -⟩, hpath⟩ := hheight
      have hone : (1 : UInt8).toNat = 1 := rfl
      have hfive : (5 : UInt8).toNat = 5 := rfl
      rw [hone] at hlow hheight
      rw [hfive] at hhigh
      refine ⟨hlow, hhigh, hheight, ?_⟩
      have hfan : (shiftOne bits).toUInt8.toNat = 2 ^ bits.toNat := by
        rcases bits_cases hlow hhigh with rfl | rfl | rfl | rfl | rfl <;> rfl
      rw [hfan] at hpath
      unfold pwHashSize pwMaxPathSize at hpath
      omega

section Shape

variable {bits height : UInt8} (hshape : ValidShape bits height)

include hshape

theorem ValidShape.numAux : (numAux bits).toNat = 2 ^ bits.toNat - 1 := by
  rcases bits_cases hshape.bits_pos hshape.bits_le with rfl | rfl | rfl | rfl | rfl <;> rfl

/-- The number of bits in a label is below 64. -/
theorem ValidShape.mul_le : bits.toNat * height.toNat ≤ 32 := by
  have hlt : bits.toNat + 1 ≤ 2 ^ bits.toNat := Nat.lt_two_pow_self
  calc bits.toNat * height.toNat ≤ (2 ^ bits.toNat - 1) * height.toNat :=
        Nat.mul_le_mul_right _ (by omega)
    _ ≤ 32 := hshape.path_le

/-- Masking with `num_aux` is the remainder by the fan out. -/
theorem ValidShape.childIndex (index : UInt64) :
    (childIndex bits index).toNat = index.toNat % 2 ^ bits.toNat := by
  have hmask : ((Pinweaver.numAux bits).toUInt64).toNat = 2 ^ bits.toNat - 1 := by
    rw [UInt16.toNat_toUInt64, hshape.numAux]
  have hlt : index.toNat % 2 ^ bits.toNat < 2 ^ 8 := by
    calc index.toNat % 2 ^ bits.toNat < 2 ^ bits.toNat := Nat.mod_lt _ (Nat.two_pow_pos _)
      _ ≤ 2 ^ 5 := Nat.pow_le_pow_right (by decide) hshape.bits_le
      _ ≤ 2 ^ 8 := by decide
  rw [Pinweaver.childIndex, UInt64.toNat_toUInt8, UInt64.toNat_and, hmask,
    Nat.and_two_pow_sub_one_eq_mod, Nat.mod_eq_of_lt hlt]

/-- Shifting by `bits_per_level` is division by the fan out. -/
theorem ValidShape.shift (index : UInt64) :
    (index >>> bits.toUInt64).toNat = index.toNat / 2 ^ bits.toNat := by
  have hbits := hshape.bits_le
  rw [UInt64.toNat_shiftRight, UInt8.toNat_toUInt64, Nat.mod_eq_of_lt (by omega),
    Nat.shiftRight_eq_div_pow]

end Shape

/-- The labels that `validate_label` accepts are the slots of the tree. -/
theorem validateLabel_ok {tree : MerkleTree} (hshape : ValidShape tree.bitsPerLevel tree.height)
    {path : UInt64} :
    validateLabel tree path = ecSuccess ↔ path.toNat < fanOut tree ^ tree.height.toNat := by
  have hmul := hshape.mul_le
  have hshift : (tree.bitsPerLevel * tree.height).toUInt64.toNat % 64 =
      tree.bitsPerLevel.toNat * tree.height.toNat := by
    rw [UInt8.toNat_toUInt64, UInt8.toNat_mul, Nat.mod_eq_of_lt (by omega),
      Nat.mod_eq_of_lt (by omega)]
  have hzero : path >>> (tree.bitsPerLevel * tree.height).toUInt64 = 0 ↔
      path.toNat / 2 ^ (tree.bitsPerLevel.toNat * tree.height.toNat) = 0 := by
    rw [← UInt64.toNat_inj, UInt64.toNat_shiftRight, hshift, Nat.shiftRight_eq_div_pow]
    rfl
  rw [fanOut, ← pow_mul, ← Nat.div_eq_zero_iff_lt (Nat.two_pow_pos _), ← hzero]
  unfold validateLabel
  simp only
  split
  · simp_all
  · simp_all [pwErrLabelInvalid, ecSuccess]

/-! ## The code walks up the tree -/

/-- Hashes as they lie in memory. -/
def hashBytes (hashes : List Hash) : Bytes := (Codec.blob 32).encodeList hashes

variable {C}

/-- `compute_hash` puts the child back among its siblings and hashes them all. -/
theorem computeHash_eq {sibs : List Hash} {num : UInt16} {loc : UInt8} (rest : Bytes) (child : Hash)
    (hnum : num.toNat ≤ sibs.length) (hloc : loc.toNat ≤ num.toNat) :
    computeHash C (hashBytes sibs ++ rest) num loc child =
      nodeHash C (Merkle.plug (sibs.take num.toNat) loc.toNat child) := by
  have hsize : (Codec.blob 32).size = 32 := rfl
  have hbefore : (if 0 < loc.toNat then readBytes (pwHashSize * loc.toNat) (hashBytes sibs ++ rest)
      else []) = hashBytes (sibs.take loc.toNat) := by
    split
    · have hread := (Codec.blob 32).readBytes_encodeList (l := sibs) (m := loc.toNat) (by lia) rest
      rw [hsize, Nat.mul_comm] at hread
      exact hread
    · have hzero : loc.toNat = 0 := by lia
      rw [hzero]
      rfl
  have hafter : (if loc.toNat < num.toNat then
      readBytes (pwHashSize * (num.toNat - loc.toNat))
        ((hashBytes sibs ++ rest).drop (pwHashSize * loc.toNat)) else []) =
      hashBytes ((sibs.take num.toNat).drop loc.toNat) := by
    rw [List.drop_take]
    split
    · have hdrop := (Codec.blob 32).drop_encodeList (l := sibs) (m := loc.toNat) (by lia) rest
      have hread := (Codec.blob 32).readBytes_encodeList (l := sibs.drop loc.toNat)
        (m := num.toNat - loc.toNat) (by rw [List.length_drop]; lia) rest
      rw [hsize, Nat.mul_comm] at hdrop hread
      rw [hashBytes, pwHashSize, hdrop, hread]
      rfl
    · have hzero : num.toNat - loc.toNat = 0 := by lia
      rw [hzero]
      rfl
  have htake : (sibs.take num.toNat).take loc.toNat = sibs.take loc.toNat := by
    rw [List.take_take, Nat.min_eq_left hloc]
  unfold computeHash
  simp only [hbefore, hafter]
  rw [nodeHash, Merkle.plug, htake]
  simp [hashBytes, Codec.encodeList, Codec.blob]

theorem fanOut_pos (tree : MerkleTree) : 0 < fanOut tree := Nat.two_pow_pos _

section Climb

variable {tree : MerkleTree} (hshape : ValidShape tree.bitsPerLevel tree.height)

include hshape

theorem numAux_eq : (numAux tree.bitsPerLevel).toNat = fanOut tree - 1 := hshape.numAux

/-- One level: the first siblings in memory and the position at this level. -/
theorem computeHash_level {sibs : List Hash} (rest : Bytes) (index : UInt64) (child : Hash)
    (hlen : fanOut tree - 1 ≤ sibs.length) :
    computeHash C (hashBytes sibs ++ rest) (numAux tree.bitsPerLevel)
        (childIndex tree.bitsPerLevel index) child =
      nodeHash C (Merkle.plug (sibs.take (fanOut tree - 1)) (index.toNat % fanOut tree) child) := by
  have hnum := numAux_eq hshape
  have hidx := hshape.childIndex index
  have hmod := Nat.mod_lt index.toNat (fanOut_pos tree)
  rw [computeHash_eq rest child (by omega) (by rw [hidx, hnum]; unfold fanOut at hmod ⊢; omega),
    hnum, hidx, fanOut]

theorem computeRootHashFrom_eq {rounds : Nat} {sibs : List Hash} (rest : Bytes) (index : UInt64)
    (tempHash : Hash) (hlen : sibs.length = (rounds + 1) * (fanOut tree - 1)) :
    computeRootHashFrom C tree.bitsPerLevel rounds index (hashBytes sibs ++ rest) tempHash =
      Merkle.climb (nodeHash C) (fanOut tree) rounds (index.toNat / fanOut tree)
        (sibs.drop (fanOut tree - 1)) tempHash := by
  induction rounds generalizing sibs index tempHash with
  | zero => rfl
  | succ rounds ih =>
      have hdrop : (hashBytes sibs ++ rest).drop
          (pwHashSize * (numAux tree.bitsPerLevel).toNat) =
            hashBytes (sibs.drop (fanOut tree - 1)) ++ rest := by
        rw [numAux_eq hshape, Nat.mul_comm]
        exact (Codec.blob 32).drop_encodeList (by rw [hlen, Nat.succ_mul]; omega) rest
      have hlen' : (sibs.drop (fanOut tree - 1)).length = (rounds + 1) * (fanOut tree - 1) := by
        rw [List.length_drop, hlen, Nat.succ_mul, Nat.add_sub_cancel]
      have hshift := hshape.shift index
      rw [computeRootHashFrom]
      simp only [hdrop]
      rw [computeHash_level hshape rest _ tempHash (by rw [hlen', Nat.succ_mul]; omega),
        ih (index >>> tree.bitsPerLevel.toUInt64) _ hlen', hshift, Merkle.climb]
      rfl

/-- `compute_root_hash` climbs the tree. -/
theorem computeRootHash_eq {sibs : List Hash} (rest : Bytes) (path : UInt64) (child : Hash)
    (hlen : sibs.length = tree.height.toNat * (fanOut tree - 1)) :
    computeRootHash C tree path (hashBytes sibs ++ rest) child =
      Merkle.climb (nodeHash C) (fanOut tree) tree.height.toNat path.toNat sibs child := by
  obtain ⟨rounds, hrounds⟩ := Nat.exists_eq_succ_of_ne_zero
    (by have := hshape.height_pos; omega : tree.height.toNat ≠ 0)
  rw [hrounds] at hlen ⊢
  rw [computeRootHash, hrounds, Nat.succ_sub_one,
    computeHash_level hshape rest path child (by rw [hlen, Nat.succ_mul]; omega),
    computeRootHashFrom_eq hshape rest path _ hlen, Merkle.climb]

end Climb

theorem emptyRoot_eq (k rounds : Nat) :
    emptyRoot C k rounds = Merkle.uniformLevel (nodeHash C) emptyHash k rounds := by
  induction rounds with
  | zero => rfl
  | succ rounds ih =>
      rw [emptyRoot, ih]
      rfl

/-- No two byte strings of the set have the same SHA-256, so no two lists of
children whose layout lies in it have the same node. -/
theorem nodeHash_injOn {inputs : Set Bytes} (hinj : Set.InjOn C.sha256 inputs) :
    Set.InjOn (nodeHash C) (Set.preimage hashBytes inputs) := by
  intro kids hkids kids' hkids' heq
  exact (Codec.blob 32).encodeList_inj (by decide) (hinj hkids hkids' heq)

@[simp] theorem deriveKeys_root (o : KeyOutcome) (tree : MerkleTree) :
    (deriveKeys C o tree).2.root = tree.root := by
  unfold deriveKeys
  split
  · rfl
  · split <;> rfl

@[simp] theorem deriveKeys_bitsPerLevel (o : KeyOutcome) (tree : MerkleTree) :
    (deriveKeys C o tree).2.bitsPerLevel = tree.bitsPerLevel := by
  unfold deriveKeys
  split
  · rfl
  · split <;> rfl

@[simp] theorem deriveKeys_height (o : KeyOutcome) (tree : MerkleTree) :
    (deriveKeys C o tree).2.height = tree.height := by
  unfold deriveKeys
  split
  · rfl
  · split <;> rfl

theorem createMerkleTree_root {bits height : UInt8} (hshape : ValidShape bits height)
    (o : KeyOutcome) (nonce : Blob 16) :
    (createMerkleTree C o bits height nonce).2.root =
      Merkle.root (nodeHash C) (2 ^ bits.toNat) (fun _ => emptyHash) height.toNat := by
  have hfan : (shiftOne bits).toUInt16.toNat = 2 ^ bits.toNat := by
    rcases bits_cases hshape.bits_pos hshape.bits_le with rfl | rfl | rfl | rfl | rfl <;> rfl
  rw [createMerkleTree, deriveKeys_root, hfan, emptyRoot_eq, Merkle.root, Merkle.level_const]

theorem getPathAuxiliaryHashCount_eq {tree : MerkleTree}
    (hshape : ValidShape tree.bitsPerLevel tree.height) :
    (getPathAuxiliaryHashCount tree).toNat = tree.height.toNat * (fanOut tree - 1) := by
  have hpath := hshape.path_le
  have hone : (shiftOne tree.bitsPerLevel - 1).toNat = fanOut tree - 1 := by
    unfold fanOut
    rcases bits_cases hshape.bits_pos hshape.bits_le with h | h | h | h | h <;> rw [h] <;> rfl
  have hheight : tree.height.toUInt32.toNat = tree.height.toNat := UInt8.toNat_toUInt32 _
  rw [getPathAuxiliaryHashCount, UInt32.toNat_mul, hone, hheight, Nat.mod_eq_of_lt, Nat.mul_comm]
  unfold fanOut
  omega

/-- The byte strings hashed in the tree `T` and in one walk up from `child`. -/
def hashedInputs (C : Crypto) (tree : MerkleTree) (T : Nat → Hash) (path : UInt64)
    (sibs : List Hash) (child : Hash) : Set Bytes :=
  Set.image hashBytes
    (Merkle.nodes (nodeHash C) (fanOut tree) T tree.height.toNat ∪
      { kids | kids ∈ Merkle.climbInputs (nodeHash C) (fanOut tree) tree.height.toNat path.toNat
        sibs child })

/-- A path that `authenticate_path` accepts is the honest one, and so is its leaf. -/
theorem authenticatePath_binding (tree : MerkleTree)
    (hshape : ValidShape tree.bitsPerLevel tree.height) {T : Nat → Hash} {path : UInt64}
    (hpath : path.toNat < fanOut tree ^ tree.height.toNat) {sibs : List Hash} {rest : Bytes}
    {child : Hash} (hlen : sibs.length = tree.height.toNat * (fanOut tree - 1))
    {inputs : Set Bytes} (hinj : Set.InjOn C.sha256 inputs)
    (hinputs : hashedInputs C tree T path sibs child ⊆ inputs)
    (hroot : tree.root = Merkle.root (nodeHash C) (fanOut tree) T tree.height.toNat)
    (hauth : authenticatePath C tree path (hashBytes sibs ++ rest) child = ecSuccess) :
    sibs = Merkle.path (nodeHash C) (fanOut tree) T 0 tree.height.toNat path.toNat ∧
      child = T path.toNat := by
  have harrive : computeRootHash C tree path (hashBytes sibs ++ rest) child = tree.root := by
    by_contra hne
    rw [authenticatePath, if_pos hne] at hauth
    cases hauth
  rw [computeRootHash_eq hshape rest path child hlen, hroot] at harrive
  refine Merkle.climb_binding (nodeHash C) (fanOut_pos tree) T (nodeHash_injOn hinj) hpath hlen
    ?_ ?_ harrive
  · intro kids hkids
    exact hinputs ⟨kids, Or.inl hkids, rfl⟩
  · intro kids hkids
    exact hinputs ⟨kids, Or.inr hkids, rfl⟩

/-! ## Paths as they lie in memory -/

/-- The sibling hashes that a path of this tree has, read through a pointer. -/
def pathHashes (tree : MerkleTree) (hashes : Bytes) : List Hash :=
  (Codec.blob 32).decodeList (getPathAuxiliaryHashCount tree).toNat hashes

theorem drop_append_replicate (k m : Nat) (bs : Bytes) :
    ∃ m', (bs ++ List.replicate m 0).drop k = bs.drop k ++ List.replicate m' 0 :=
  ⟨m - (k - bs.length), by rw [List.drop_append, List.drop_replicate]⟩

theorem computeHash_pad (hashes : Bytes) (m : Nat) (num : UInt16) (loc : UInt8) (child : Hash) :
    computeHash C (hashes ++ List.replicate m 0) num loc child =
      computeHash C hashes num loc child := by
  obtain ⟨m', hdrop⟩ := drop_append_replicate (pwHashSize * loc.toNat) m hashes
  unfold computeHash
  simp only [hdrop, readBytes_append_replicate]

theorem computeRootHashFrom_pad (bits : UInt8) (rounds : Nat) (index : UInt64) (hashes : Bytes)
    (m : Nat) (tempHash : Hash) :
    computeRootHashFrom C bits rounds index (hashes ++ List.replicate m 0) tempHash =
      computeRootHashFrom C bits rounds index hashes tempHash := by
  induction rounds generalizing index hashes m tempHash with
  | zero => rfl
  | succ rounds ih =>
      obtain ⟨m', hdrop⟩ := drop_append_replicate (pwHashSize * (numAux bits).toNat) m hashes
      simp only [computeRootHashFrom, hdrop, computeHash_pad, ih]

/-- `compute_root_hash` climbs the tree, whatever is in memory. -/
theorem computeRootHash_climb {tree : MerkleTree}
    (hshape : ValidShape tree.bitsPerLevel tree.height) (path : UInt64) (hashes : Bytes)
    (child : Hash) :
    computeRootHash C tree path hashes child =
      Merkle.climb (nodeHash C) (fanOut tree) tree.height.toNat path.toNat
        (pathHashes tree hashes) child := by
  set count := (getPathAuxiliaryHashCount tree).toNat with hcount
  set padded := hashes ++ List.replicate (count * 32) 0 with hpadded
  have hpad : computeRootHash C tree path hashes child = computeRootHash C tree path padded child := by
    rw [computeRootHash, computeRootHash, hpadded, computeHash_pad, computeRootHashFrom_pad]
  have hread : readBytes (count * 32) padded = hashBytes (pathHashes tree hashes) := by
    rw [hpadded, readBytes_append_replicate, hashBytes, pathHashes, ← hcount,
      Codec.encodeList_decodeList]
    rfl
  have hsplit : padded = hashBytes (pathHashes tree hashes) ++ padded.drop (count * 32) := by
    rw [← hread, readBytes_eq_take (by rw [hpadded]; simp), List.take_append_drop]
  have hlen : (pathHashes tree hashes).length = tree.height.toNat * (fanOut tree - 1) := by
    rw [pathHashes, Codec.length_decodeList, getPathAuxiliaryHashCount_eq hshape]
  rw [hpad, hsplit, computeRootHash_eq hshape _ _ _ hlen]

/-- **A slot that authenticates.**  In a tree with these leaves, a path that is accepted
for a hash belongs to a slot with that hash, and it leads to the root of the tree with
any other hash in the slot. -/
theorem authenticatePath_slot {tree : MerkleTree}
    (hshape : ValidShape tree.bitsPerLevel tree.height) {T : Nat → Hash}
    (hroot : tree.root = Merkle.root (nodeHash C) (fanOut tree) T tree.height.toNat)
    {path : UInt64} (hpath : path.toNat < fanOut tree ^ tree.height.toNat) {hashes : Bytes}
    {child : Hash}
    (hinj : Set.InjOn C.sha256 (hashedInputs C tree T path (pathHashes tree hashes) child))
    (hauth : authenticatePath C tree path hashes child = ecSuccess) :
    T path.toNat = child ∧ ∀ h, computeRootHash C tree path hashes h =
      Merkle.root (nodeHash C) (fanOut tree) (Function.update T path.toNat h)
        tree.height.toNat := by
  have hlen : (pathHashes tree hashes).length = tree.height.toNat * (fanOut tree - 1) := by
    rw [pathHashes, Codec.length_decodeList, getPathAuxiliaryHashCount_eq hshape]
  have hsame : computeRootHash C tree path (hashBytes (pathHashes tree hashes) ++ []) child =
      computeRootHash C tree path hashes child := by
    rw [computeRootHash_eq hshape [] path child hlen, computeRootHash_climb hshape]
  have hhonest : authenticatePath C tree path (hashBytes (pathHashes tree hashes) ++ []) child =
      ecSuccess := by
    rw [authenticatePath, hsame]
    exact hauth
  obtain ⟨hsibs, hchild⟩ := authenticatePath_binding tree hshape hpath hlen hinj (subset_refl _) hroot
    hhonest
  refine ⟨hchild.symm, fun h => ?_⟩
  rw [computeRootHash_climb hshape, hsibs]
  exact Merkle.climb_path_update _ (fanOut_pos tree) T hpath h

variable (C)

/-- **The Merkle path computation.**  For every accepted shape, every assignment `T`
and every slot: the walk over the honest siblings computes the root of the updated
tree, a new tree has the root of the all-empty assignment, and, without collisions
among what is hashed, only the honest siblings and the slot's own hash authenticate. -/
theorem merklePath_correct (tree : MerkleTree)
    (hparams : validateTreeParameters tree.bitsPerLevel tree.height = ecSuccess)
    (T : Nat → Hash) (path : UInt64) (hlabel : validateLabel tree path = ecSuccess) :
    (∀ (h : Hash) (rest : Bytes),
        computeRootHash C tree path
            (hashBytes (Merkle.path (nodeHash C) (fanOut tree) T 0 tree.height.toNat path.toNat) ++
              rest) h =
          Merkle.root (nodeHash C) (fanOut tree) (Function.update T path.toNat h)
            tree.height.toNat) ∧
      (∀ o nonce,
        (createMerkleTree C o tree.bitsPerLevel tree.height nonce).2.root =
          Merkle.root (nodeHash C) (fanOut tree) (fun _ => emptyHash) tree.height.toNat) ∧
      ∀ (sibs : List Hash) (rest : Bytes) (h : Hash),
        sibs.length = (getPathAuxiliaryHashCount tree).toNat →
        Set.InjOn C.sha256 (hashedInputs C tree T path sibs h) →
        authenticatePath C
            { tree with root := Merkle.root (nodeHash C) (fanOut tree) T tree.height.toNat }
            path (hashBytes sibs ++ rest) h = ecSuccess →
          sibs = Merkle.path (nodeHash C) (fanOut tree) T 0 tree.height.toNat path.toNat ∧
            h = T path.toNat := by
  have hshape := validateTreeParameters_ok hparams
  have hslot := (validateLabel_ok hshape).mp hlabel
  refine ⟨?_, ?_, ?_⟩
  · intro h rest
    rw [computeRootHash_eq hshape rest path h (Merkle.length_path _ (fanOut_pos tree) _ _ _ _)]
    exact Merkle.climb_path_update _ (fanOut_pos tree) T hslot h
  · intro o nonce
    exact createMerkleTree_root hshape o nonce
  · intro sibs rest h hlen hinj hauth
    rw [getPathAuxiliaryHashCount_eq hshape] at hlen
    exact authenticatePath_binding
      { tree with root := Merkle.root (nodeHash C) (fanOut tree) T tree.height.toNat }
      hshape hslot hlen hinj (subset_refl _) rfl hauth

/-- A stand-in for the cryptographic engine: checksums for digests, and a cipher that
combines every byte with the key and the iv. -/
def testCrypto : Crypto where
  sha256 := checksum 32
  hmacSha256 key bs := checksum 32 (key.val ++ bs)
  aesCtr key iv data :=
    ⟨data.val.zipIdx.map fun (b, i) =>
        b ^^^ key.val.getD (i % 32) 0 ^^^ iv.val.getD (i % 16) 0, by
      rw [List.length_map, List.length_zipIdx, data.property]⟩
  appkeyDerive input := input
  storageSeed := Arr.replicate 32 7

/-- Two slots under one node, the second one taken. -/
def twoSlots (i : Nat) : Hash := if i = 1 then Arr.replicate 32 9 else emptyHash

def twoSlotTree : MerkleTree where
  bitsPerLevel := 1
  height := 1
  root := Merkle.root (nodeHash testCrypto) 2 twoSlots 1
  keyDerivationNonce := Arr.replicate 16 0
  hmacKey := Arr.replicate 32 3
  wrapKey := Arr.replicate 32 5

/-- The path of the second slot is its only sibling, and it authenticates. -/
theorem merklePath_correct_twoSlots :
    authenticatePath testCrypto twoSlotTree 1 (hashBytes [emptyHash]) (twoSlots 1) = ecSuccess ∧
      [emptyHash] = Merkle.path (nodeHash testCrypto) 2 twoSlots 0 1 1 := by
  have hauth : authenticatePath testCrypto twoSlotTree 1 (hashBytes [emptyHash] ++ [])
      (twoSlots 1) = ecSuccess := by
    decide +kernel
  have hsingle : ∀ b ∈ hashedInputs testCrypto twoSlotTree twoSlots 1 [emptyHash] (twoSlots 1),
      b = hashBytes [emptyHash, twoSlots 1] := by
    rintro b ⟨kids, hkids, rfl⟩
    rcases hkids with ⟨l, p, hl, hp, rfl⟩ | hkids
    · have hl0 : l = 0 := Nat.lt_one_iff.mp hl
      subst hl0
      have hp0 : p = 0 := Nat.lt_one_iff.mp hp
      subst hp0
      rfl
    · have hkids' : kids = [emptyHash, twoSlots 1] := List.mem_singleton.mp hkids
      rw [hkids']
  have hinj : Set.InjOn testCrypto.sha256
      (hashedInputs testCrypto twoSlotTree twoSlots 1 [emptyHash] (twoSlots 1)) := by
    intro a ha b hb _
    rw [hsingle a ha, hsingle b hb]
  have hbind := (merklePath_correct testCrypto twoSlotTree (by decide) twoSlots 1
    (by decide)).2.2 [emptyHash] [] (twoSlots 1) (by decide) hinj hauth
  exact ⟨by simpa using hauth, hbind.1⟩

end Pinweaver
end CrosEc
