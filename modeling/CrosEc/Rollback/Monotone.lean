import CrosEc.Common
import CrosEc.Lib.Crash

/-!
# `common/rollback.c`: rollback protection

Two regions of flash hold the minimum version of the image and a secret.  The region with the
larger id counts; an update goes to the other one.  A block is valid by its cookie, which is
written last.

An erase or a write of a region that is cut, or that fails, leaves the region with its old
contents, with contents that fail the cookie check, or with the new contents.
-/

namespace CrosEc
namespace Rollback

open Lib

def ecErrorAccessDenied : Code := 7
def ecErrorUnchanged : Code := 22

/-- `CROS_EC_ROLLBACK_COOKIE` -/
def cookieValue : UInt32 := 0x0b112233

/-- `struct rollback_data`, with `n` bytes of secret. -/
structure RollbackData (n : Nat) where
  id : Int32
  rollbackMinVersion : Int32
  secret : Blob n
  cookie : UInt32

structure Config where
  secretSize : Nat
  /-- `CONFIG_ROLLBACK_SECRET_SIZE` is defined. -/
  hasSecret : Bool
  /-- `add_entropy`: the new secret, or none if there is no local entropy to be had. -/
  addEntropy : Blob secretSize → Bytes → Option (Blob secretSize)

variable {n : Nat}

namespace RollbackData

def valid (d : RollbackData n) : Bool := d.cookie = cookieValue

def zero (n : Nat) : RollbackData n := ⟨0, 0, Arr.replicate n 0, 0⟩

def erased (n : Nat) : RollbackData n := ⟨-1, -1, Arr.replicate n 0xff, 0xffffffff⟩

end RollbackData

/-- The two regions. -/
abbrev Regions (n : Nat) := Fin 2 → RollbackData n

/-- What a flash operation leaves that is cut or fails. -/
inductive Torn (n : Nat) where
  | kept
  | garbage (d : RollbackData n) (bad : d.valid = false)
  | whole

def Torn.apply (new old : RollbackData n) : Torn n → RollbackData n
  | .kept => old
  | .garbage d _ => d
  | .whole => new

/-- A computation over the regions that may be cut. -/
abbrev Flash (n : Nat) := Prog (Regions n) (Torn n)

/-- `flash_erase` or `flash_write` of a region: it succeeds, or fails as `fault` says. -/
def flashOp (region : Fin 2) (new : RollbackData n) (fault : Option (Torn n)) : Flash n Bool := do
  Prog.step
    (fun s => Function.update s region ((fault.getD .whole).apply new (s region)))
    (fun torn s => Function.update s region (torn.apply new (s region)))
  pure fault.isNone

/-- What the hardware answers during a call.  `readFails` counts the reads. -/
structure Io (n : Nat) where
  /-- `EC_FLASH_PROTECT_ROLLBACK_NOW` -/
  protectedNow : Bool
  readFails : Nat → Bool
  unsafeToOverwrite : Bool
  eraseFault : Option (Torn n)
  writeFault : Option (Torn n)
  /-- the code of a failed `flash_write` -/
  writeError : { c : Code // c ≠ ecSuccess }

/-- One round of the loop of `get_latest_rollback`, with `min_region` and `max_id`. -/
def latestStep (s : Regions n) (best : Option (Fin 2) × Int32) (region : Fin 2) :
    Option (Fin 2) × Int32 :=
  if !(s region).valid then best
  else if best.2 < (s region).id then (some region, (s region).id)
  else best

/-- `get_latest_rollback`: the region and its data, or none on an error. -/
def getLatestRollback (readFails : Nat → Bool) (s : Regions n) :
    Option (Fin 2 × RollbackData n) :=
  if readFails 0 || readFails 1 then none
  else
    match ([0, 1].foldl (latestStep s) (none, -1)).1 with
    | some region => if readFails 2 then none else some (region, s region)
    | none => some (0, .zero n)

/-- `rollback_get_minimum_version` -/
def getMinimumVersion (readFails : Nat → Bool) (s : Regions n) : Int32 :=
  match getLatestRollback readFails s with
  | none => -1
  | some (_, data) => data.rollbackMinVersion

/-- The checks of `rollback_update`: the code to return at once, or the new version. -/
def nextVersion (cfg : Config) (current next : Int32) (entropy : Option Bytes) :
    Except Code Int32 :=
  if cfg.hasSecret && entropy.isSome then
    -- do not accept to decrease the value
    .ok (if next < current then current else next)
  else if next < current then .error ecErrorInval
  else if next = current then .error ecSuccess
  else .ok next

/-- The secret that `rollback_update` writes. -/
def nextSecret (cfg : Config) (secret : Blob cfg.secretSize) (entropy : Option Bytes) :
    Option (Blob cfg.secretSize) :=
  if cfg.hasSecret then
    match entropy with
    | some bytes => cfg.addEntropy secret bytes
    | none => some secret
  else some secret

/-- `rollback_update` -/
def rollbackUpdate (cfg : Config) (io : Io cfg.secretSize) (next : Int32)
    (entropy : Option Bytes) : Flash cfg.secretSize Code := do
  if io.protectedNow then return ecErrorAccessDenied
  let s ← Prog.get
  match getLatestRollback io.readFails s with
  | none => return ecErrorUnknown
  | some (latest, data) =>
      match nextVersion cfg data.rollbackMinVersion next entropy with
      | .error code => return code
      | .ok version =>
          -- use the other region
          let region := latest + 1
          match nextSecret cfg data.secret entropy with
          | none => return ecErrorUnchanged
          | some secret =>
              let block : RollbackData cfg.secretSize := ⟨data.id + 1, version, secret, cookieValue⟩
              if io.unsafeToOverwrite then return ecErrorUnknown
              if !(← flashOp region (.erased cfg.secretSize) io.eraseFault) then
                return ecErrorUnknown
              if ← flashOp region block io.writeFault then return ecSuccess
              return io.writeError

/-- A call of `rollback_update_version` or `rollback_add_entropy`; the data of the latter may be
a null pointer. -/
inductive Call where
  | updateVersion (nextMinVersion : Int32)
  | addEntropy (data : Option Bytes)

def Call.program (cfg : Config) (io : Io cfg.secretSize) : Call → Flash cfg.secretSize Code
  | .updateVersion v => rollbackUpdate cfg io v none
  | .addEntropy data => rollbackUpdate cfg io (-1) data

end Rollback

/-!
## `common/rollback.c`: the minimum version does not go back

An update writes to the region that does not count.  So as long as the new block is not complete
the latest block is the old one; and once it is complete, its larger id makes it the latest.  The
id must not have reached the largest `int32_t`, or the new one wraps around.
-/

namespace Rollback

open Lib Prog

variable {n : Nat}

/-! ### The latest block -/

/-- The region that counts and its data. -/
def latest (s : Regions n) : Fin 2 × RollbackData n :=
  match ([0, 1].foldl (latestStep s) (none, -1)).1 with
  | some region => (region, s region)
  | none => (0, .zero n)

/-- The block is valid and its id is not negative. -/
def Candidate (d : RollbackData n) : Prop := d.valid = true ∧ -1 < d.id

instance (d : RollbackData n) : Decidable (Candidate d) :=
  inferInstanceAs (Decidable (_ ∧ _))

theorem latestStep_eq (s : Regions n) (best : Option (Fin 2) × Int32) (region : Fin 2) :
    latestStep s best region =
      if (s region).valid = true ∧ best.2 < (s region).id then (some region, (s region).id)
      else best := by
  rw [latestStep]
  by_cases hvalid : (s region).valid = true <;> simp [hvalid]

/-- Region 1 counts if its block is valid and its id larger than that of a valid region 0. -/
theorem latest_eq (s : Regions n) :
    latest s =
      if Candidate (s 1) ∧ (Candidate (s 0) → (s 0).id < (s 1).id) then (1, s 1)
      else if Candidate (s 0) then (0, s 0)
      else (0, .zero n) := by
  rw [latest]
  simp only [List.foldl_cons, List.foldl_nil]
  rw [latestStep_eq s (none, -1) 0]
  by_cases h0 : Candidate (s 0)
  · have hsecond : ((s 1).valid = true ∧ (s 0).id < (s 1).id) ↔
        (Candidate (s 1) ∧ (Candidate (s 0) → (s 0).id < (s 1).id)) :=
      ⟨fun h => ⟨⟨h.1, Int32.lt_trans h0.2 h.2⟩, fun _ => h.2⟩, fun h => ⟨h.1.1, h.2 h0⟩⟩
    rw [if_pos (c := _ ∧ _) h0, latestStep_eq]
    by_cases h1 : (s 1).valid = true ∧ (s 0).id < (s 1).id
    · rw [if_pos h1, if_pos (hsecond.1 h1)]
    · rw [if_neg h1, if_neg fun h => h1 (hsecond.2 h), if_pos h0]
  · rw [if_neg (c := _ ∧ _) h0, latestStep_eq]
    by_cases h1 : Candidate (s 1)
    · rw [if_pos (c := _ ∧ _) h1, if_pos ⟨h1, fun h => absurd h h0⟩]
    · rw [if_neg (c := _ ∧ _) h1, if_neg fun h => h1 h.1, if_neg h0]

/-- Without an error, `get_latest_rollback` gives the latest block. -/
theorem getLatestRollback_eq (readFails : Nat → Bool) (s : Regions n) :
    getLatestRollback readFails s = none ∨ getLatestRollback readFails s = some (latest s) := by
  rw [getLatestRollback, latest]
  split
  · exact .inl rfl
  · cases ([0, 1].foldl (latestStep s) (none, -1)).1 with
    | none => exact .inr rfl
    | some region =>
        cases readFails 2
        · exact .inr rfl
        · exact .inl rfl

theorem getMinimumVersion_eq (s : Regions n) :
    getMinimumVersion (fun _ => false) s = (latest s).2.rollbackMinVersion := by
  rw [getMinimumVersion, getLatestRollback, latest]
  cases ([0, 1].foldl (latestStep s) (none, -1)).1 <;> rfl

/-- The id of the latest block is not negative. -/
theorem latest_id_nonneg (s : Regions n) : -1 < (latest s).2.id := by
  rw [latest_eq]
  split
  · next h => exact h.1.2
  · split
    · next h => exact h.2
    · show (-1 : Int32) < 0
      decide

theorem not_candidate_of_invalid {x : RollbackData n} (hx : x.valid = false) : ¬ Candidate x :=
  fun h => absurd h.1 (by simp [hx])

/-- A region that does not count may lose its block. -/
theorem latest_update_invalid (s : Regions n) {x : RollbackData n} (hx : x.valid = false) :
    latest (Function.update s ((latest s).1 + 1) x) = latest s := by
  have hno := not_candidate_of_invalid hx
  rw [latest_eq s]
  split
  · next h1 =>
    -- region 1 counts, region 0 is changed
    show latest (Function.update s 0 x) = _
    rw [latest_eq]
    simp only [Function.update_self, Function.update_of_ne (show (1 : Fin 2) ≠ 0 by decide)]
    rw [if_pos ⟨h1.1, fun h => absurd h hno⟩]
  · next h1 =>
    split
    · next h0 =>
      show latest (Function.update s 1 x) = _
      rw [latest_eq]
      simp only [Function.update_self, Function.update_of_ne (show (0 : Fin 2) ≠ 1 by decide)]
      rw [if_neg fun h => hno h.1, if_pos h0]
    · next h0 =>
      show latest (Function.update s 1 x) = _
      rw [latest_eq]
      simp only [Function.update_self, Function.update_of_ne (show (0 : Fin 2) ≠ 1 by decide)]
      rw [if_neg fun h => hno h.1, if_neg h0]

/-- The largest `int32_t`. -/
def int32Max : Int32 := 2147483647

theorem lt_add_one {a : Int32} (h : a < int32Max) : a < a + 1 := by
  rw [Int32.lt_iff_toInt_lt] at h ⊢
  have hle := a.le_toInt
  have hmax : int32Max.toInt = 2147483647 := by decide
  have hone : (1 : Int32).toInt = 1 := by decide
  rw [Int32.toInt_add, hone, Int.bmod_eq_of_le (by omega) (by omega)]
  omega

/-- A complete block with the next id counts. -/
theorem latest_update_next (s : Regions n) {x : RollbackData n} (hx : x.valid = true)
    (hid : x.id = (latest s).2.id + 1) (hmax : (latest s).2.id < int32Max) :
    latest (Function.update s ((latest s).1 + 1) x) = ((latest s).1 + 1, x) := by
  have hnonneg := latest_id_nonneg s
  have hlt : (latest s).2.id < x.id := hid ▸ lt_add_one hmax
  have hcand : Candidate x := ⟨hx, Int32.lt_trans hnonneg hlt⟩
  clear hid hmax hnonneg
  rw [latest_eq s] at hlt ⊢
  split at hlt
  · next h1 =>
    rw [if_pos h1]
    show latest (Function.update s 0 x) = (0, x)
    rw [latest_eq]
    simp only [Function.update_self, Function.update_of_ne (show (1 : Fin 2) ≠ 0 by decide)]
    have hnot : ¬ x.id < (s 1).id := Int32.lt_asymm hlt
    rw [if_neg fun h => hnot (h.2 hcand), if_pos hcand]
  · next h1 =>
    rw [if_neg h1]
    split at hlt
    · next h0 =>
      rw [if_pos h0]
      show latest (Function.update s 1 x) = (1, x)
      rw [latest_eq]
      simp only [Function.update_self, Function.update_of_ne (show (0 : Fin 2) ≠ 1 by decide)]
      rw [if_pos ⟨hcand, fun _ => hlt⟩]
    · next h0 =>
      rw [if_neg h0]
      show latest (Function.update s 1 x) = (1, x)
      rw [latest_eq]
      simp only [Function.update_self, Function.update_of_ne (show (0 : Fin 2) ≠ 1 by decide)]
      rw [if_pos ⟨hcand, fun h => absurd h h0⟩]

/-! ### One call -/

/-- The minimum version and the secret that count. -/
def pairOf (s : Regions n) : Int32 × Blob n :=
  ((latest s).2.rollbackMinVersion, (latest s).2.secret)

/-- The region that an update writes. -/
def other (s : Regions n) : Fin 2 := (latest s).1 + 1

theorem valid_erased (n : Nat) : (RollbackData.erased n).valid = false := by
  simp [RollbackData.valid, RollbackData.erased, cookieValue]

theorem wp_flashOp {region : Fin 2} {new : RollbackData n} {fault : Option (Torn n)}
    {post : Bool → Regions n → Prop} {crash : Regions n → Prop} {s : Regions n} :
    (flashOp region new fault).wp post crash s ↔
      (∀ torn : Torn n, crash (Function.update s region (torn.apply new (s region)))) ∧
        post fault.isNone
          (Function.update s region ((fault.getD .whole).apply new (s region))) := by
  rw [flashOp, wp_bind, wp_step]
  rfl

/-- Whatever an erase leaves in the other region, the latest block stays. -/
theorem latest_after_erase (s : Regions n) (torn : Torn n) :
    latest (Function.update s (other s) (torn.apply (.erased n) (s (other s)))) = latest s := by
  cases torn with
  | kept => rw [Torn.apply, Function.update_eq_self]
  | garbage d bad => exact latest_update_invalid s bad
  | whole => exact latest_update_invalid s (valid_erased n)

/-- Whatever a write leaves in the region that was erased, the latest block is the old one or the
new one; and the new one if the write is complete. -/
theorem latest_after_write (s : Regions n) {block : RollbackData n} (hvalid : block.valid = true)
    (hid : block.id = (latest s).2.id + 1) (hmax : (latest s).2.id < int32Max) (torn : Torn n) :
    let s' := Function.update (Function.update s (other s) (.erased n)) (other s)
      (torn.apply block (.erased n))
    latest s' = latest s ∨ (latest s').2 = block := by
  intro s'
  have hs' : s' = Function.update s (other s) (torn.apply block (.erased n)) :=
    Function.update_idem _ _ _
  rw [hs']
  cases torn with
  | kept => exact .inl (latest_update_invalid s (valid_erased n))
  | garbage d bad => exact .inl (latest_update_invalid s bad)
  | whole => exact .inr (congrArg Prod.snd (latest_update_next s hvalid hid hmax))

variable {cfg : Config}

/-- The pair that an update writes, if it gets to that. -/
def written (cfg : Config) (next : Int32) (entropy : Option Bytes) (s : Regions cfg.secretSize) :
    Option (Int32 × Blob cfg.secretSize) :=
  match nextVersion cfg (latest s).2.rollbackMinVersion next entropy with
  | .error _ => none
  | .ok version => (nextSecret cfg (latest s).2.secret entropy).map fun secret => (version, secret)

/-- The pair is the old one, or the one the update writes. -/
def OldOrNew (cfg : Config) (next : Int32) (entropy : Option Bytes)
    (s s' : Regions cfg.secretSize) : Prop :=
  pairOf s' = pairOf s ∨ written cfg next entropy s = some (pairOf s')

/-- A success: the version was right before, or the new pair is there. -/
def Updated (cfg : Config) (next : Int32) (entropy : Option Bytes)
    (s s' : Regions cfg.secretSize) : Prop :=
  (nextVersion cfg (latest s).2.rollbackMinVersion next entropy = .error ecSuccess ∧
      pairOf s' = pairOf s) ∨
    written cfg next entropy s = some (pairOf s')

/-- A state with the same latest block, or with the new block, has the old pair or the new one. -/
theorem oldOrNew_of_latest {next version : Int32} {entropy : Option Bytes}
    {s s' : Regions cfg.secretSize} {secret : Blob cfg.secretSize} {id : Int32}
    (hversion : nextVersion cfg (latest s).2.rollbackMinVersion next entropy = .ok version)
    (hsecret : nextSecret cfg (latest s).2.secret entropy = some secret)
    (h : latest s' = latest s ∨ (latest s').2 = ⟨id, version, secret, cookieValue⟩) :
    OldOrNew cfg next entropy s s' := by
  rcases h with h | h
  · left
    rw [pairOf, pairOf, h]
  · right
    rw [written, hversion, pairOf, h]
    simp only [hsecret, Option.map_some]

/-- The flash operations at the end of `rollback_update`. -/
theorem wp_writeBlock (io : Io cfg.secretSize) {next version : Int32} {entropy : Option Bytes}
    {s : Regions cfg.secretSize} {secret : Blob cfg.secretSize}
    (hmax : (latest s).2.id < int32Max)
    (hversion : nextVersion cfg (latest s).2.rollbackMinVersion next entropy = .ok version)
    (hsecret : nextSecret cfg (latest s).2.secret entropy = some secret) :
    (do
      if io.unsafeToOverwrite then return ecErrorUnknown
      if !(← flashOp (other s) (.erased cfg.secretSize) io.eraseFault) then
        return ecErrorUnknown
      if ← flashOp (other s) ⟨(latest s).2.id + 1, version, secret, cookieValue⟩ io.writeFault then
        return ecSuccess
      return io.writeError : Flash cfg.secretSize Code).wp
      (fun code s' => OldOrNew cfg next entropy s s' ∧
        (code = ecSuccess → Updated cfg next entropy s s'))
      (OldOrNew cfg next entropy s) s := by
  have hfail : ∀ {code : Code} {s' : Regions cfg.secretSize}, code ≠ ecSuccess →
      code = ecSuccess → Updated cfg next entropy s s' := fun h h' => absurd h' h
  set block : RollbackData cfg.secretSize := ⟨(latest s).2.id + 1, version, secret, cookieValue⟩
    with hblock
  have hvalid : block.valid = true := by simp [block, RollbackData.valid]
  have hold : ∀ {s'}, latest s' = latest s → OldOrNew cfg next entropy s s' := fun h =>
    .inl (by rw [pairOf, pairOf, h])
  split
  · exact ⟨hold rfl, hfail (by decide)⟩
  · rw [wp_bind, wp_flashOp]
    refine ⟨fun torn => hold (latest_after_erase s torn), ?_⟩
    cases herase : io.eraseFault with
    | some torn => exact ⟨hold (latest_after_erase s torn), hfail (by decide)⟩
    | none =>
        show Prog.wp (flashOp (other s) block io.writeFault >>= _) _ _
          (Function.update s (other s) (.erased cfg.secretSize))
        rw [wp_bind, wp_flashOp]
        simp only [Function.update_self]
        have hwrite := latest_after_write s hvalid rfl hmax
        refine ⟨fun torn => oldOrNew_of_latest hversion hsecret (hwrite torn), ?_⟩
        cases hfault : io.writeFault with
        | some torn =>
            exact ⟨oldOrNew_of_latest hversion hsecret (hwrite torn), hfail io.writeError.property⟩
        | none =>
            have hdone := latest_update_next s hvalid rfl hmax
            refine ⟨oldOrNew_of_latest hversion hsecret (hwrite .whole), fun _ => .inr ?_⟩
            show _ = some (pairOf (Function.update (Function.update s (other s) _) (other s) block))
            rw [Function.update_idem, written, hversion, pairOf, other, hdone]
            simp only [hsecret, Option.map_some, hblock]

/-- **`rollback_update`**, cut or not. -/
theorem wp_rollbackUpdate (io : Io cfg.secretSize) (next : Int32) (entropy : Option Bytes)
    (s : Regions cfg.secretSize) (hmax : (latest s).2.id < int32Max) :
    (rollbackUpdate cfg io next entropy).wp
      (fun code s' => OldOrNew cfg next entropy s s' ∧
        (code = ecSuccess → Updated cfg next entropy s s'))
      (OldOrNew cfg next entropy s) s := by
  have hsame : OldOrNew cfg next entropy s s := .inl rfl
  have hfail : ∀ {code : Code} {s' : Regions cfg.secretSize}, code ≠ ecSuccess →
      code = ecSuccess → Updated cfg next entropy s s' := fun h h' => absurd h' h
  rw [rollbackUpdate]
  split
  · exact ⟨hsame, hfail (by decide)⟩
  · rw [wp_bind, wp_get]
    rcases getLatestRollback_eq io.readFails s with hread | hread
    · rw [hread]
      exact ⟨hsame, hfail (by decide)⟩
    · have hpair : getLatestRollback io.readFails s = some ((latest s).1, (latest s).2) := hread
      rw [hpair]
      dsimp only
      cases hversion : nextVersion cfg (latest s).2.rollbackMinVersion next entropy with
      | error code => exact ⟨hsame, fun hcode => .inl ⟨hcode ▸ hversion, rfl⟩⟩
      | ok version =>
          dsimp only
          cases hsecret : nextSecret cfg (latest s).2.secret entropy with
          | none => exact ⟨hsame, hfail (by decide)⟩
          | some secret =>
              exact wp_writeBlock io hmax hversion hsecret

/-! ### Runs -/

/-- A call with what the hardware does and how long the power lasts. -/
structure Action (cfg : Config) where
  call : Call
  io : Io cfg.secretSize
  supply : Supply (Torn cfg.secretSize)

def Action.exec (a : Action cfg) (s : Regions cfg.secretSize) : End (Regions cfg.secretSize) Code :=
  (a.call.program cfg a.io).run a.supply s

/-- The regions at the end, after a return or after a cut. -/
def regionsOf {α : Type} : End (Regions n) α → Regions n
  | .done _ s => s
  | .cut s => s

def Action.step (a : Action cfg) (s : Regions cfg.secretSize) : Regions cfg.secretSize :=
  regionsOf (a.exec s)

def runActions (actions : List (Action cfg)) (s : Regions cfg.secretSize) :
    Regions cfg.secretSize :=
  actions.foldl (fun s a => a.step s) s

/-- Before each call the id of the latest block is below the largest `int32_t`. -/
def IdsBelowMax : List (Action cfg) → Regions cfg.secretSize → Prop
  | [], _ => True
  | a :: actions, s => (latest s).2.id < int32Max ∧ IdsBelowMax actions (a.step s)

/-- Hardware without faults. -/
def Io.ideal (n : Nat) : Io n where
  protectedNow := false
  readFails := fun _ => false
  unsafeToOverwrite := false
  eraseFault := none
  writeFault := none
  writeError := ⟨ecErrorUnknown, by decide⟩

/-- The pair after the same call with power and hardware without faults. -/
def Call.newPair (cfg : Config) (c : Call) (s : Regions cfg.secretSize) :
    Int32 × Blob cfg.secretSize :=
  pairOf (Action.step ⟨c, .ideal cfg.secretSize, none⟩ s)

namespace Call

/-- The two arguments of `rollback_update`. -/
def version : Call → Int32
  | .updateVersion v => v
  | .addEntropy _ => -1

def entropy : Call → Option Bytes
  | .updateVersion _ => none
  | .addEntropy data => data

theorem program_eq (io : Io cfg.secretSize) (c : Call) :
    c.program cfg io = rollbackUpdate cfg io c.version c.entropy := by
  cases c <;> rfl

end Call

/-- **Step lemma.** One call. -/
theorem Action.spec (a : Action cfg) {s : Regions cfg.secretSize}
    (hmax : (latest s).2.id < int32Max) :
    OldOrNew cfg a.call.version a.call.entropy s (a.step s) ∧
      (∀ s', a.exec s = .done ecSuccess s' →
        Updated cfg a.call.version a.call.entropy s s') := by
  have hwp := wp_rollbackUpdate a.io a.call.version a.call.entropy s hmax
  rw [← Call.program_eq] at hwp
  obtain ⟨hdone, hcut⟩ := run_of_wp hwp a.supply
  refine ⟨?_, fun s' hs' => (hdone _ s' hs').2 rfl⟩
  rw [Action.step]
  cases hexec : a.exec s with
  | done code s' => exact (hdone code s' hexec).1
  | cut s' => exact hcut s' hexec

theorem nextVersion_ok_le {current next version : Int32} {entropy : Option Bytes}
    (h : nextVersion cfg current next entropy = .ok version) : current ≤ version := by
  rw [nextVersion] at h
  split at h
  · cases h
    split
    · exact Int32.le_refl current
    · next hle => exact Int32.not_lt.1 hle
  · split at h
    · cases h
    · next hle =>
      split at h
      · cases h
      · cases h
        exact Int32.not_lt.1 hle

/-- The pair that is written has no smaller version. -/
theorem written_le {next : Int32} {entropy : Option Bytes} {s : Regions cfg.secretSize}
    {pair : Int32 × Blob cfg.secretSize} (h : written cfg next entropy s = some pair) :
    (pairOf s).1 ≤ pair.1 := by
  rw [written] at h
  split at h
  · cases h
  · next version hversion =>
    obtain ⟨secret, -, rfl⟩ := Option.map_eq_some_iff.1 h
    exact nextVersion_ok_le hversion

theorem OldOrNew.le {next : Int32} {entropy : Option Bytes} {s s' : Regions cfg.secretSize}
    (h : OldOrNew cfg next entropy s s') : (pairOf s).1 ≤ (pairOf s').1 := by
  rcases h with h | h
  · rw [h]
    exact Int32.le_refl _
  · exact written_le h

/-- After a successful `rollback_update_version` the version is the one given. -/
theorem Updated.version_eq {v : Int32} {s s' : Regions cfg.secretSize}
    (h : Updated cfg v none s s') : (pairOf s').1 = v := by
  have hnext : ∀ current : Int32, nextVersion cfg current v none =
      if v < current then .error ecErrorInval else if v = current then .error ecSuccess else .ok v := by
    intro current
    rw [nextVersion]
    simp
  rcases h with ⟨hcode, hsame⟩ | h
  · rw [hnext] at hcode
    split at hcode
    · exact absurd (Except.error.inj hcode) (by decide)
    · split at hcode
      · next heq =>
        rw [hsame]
        exact heq.symm
      · cases hcode
  · rw [written, hnext] at h
    split at h
    · cases h
    · next version hversion =>
      obtain ⟨secret, -, hpair⟩ := Option.map_eq_some_iff.1 h
      split at hversion
      · cases hversion
      · split at hversion
        · cases hversion
        · cases hversion
          rw [← hpair]

/-- Adding entropy keeps a version that is not below -1. -/
theorem Updated.version_kept {data : Option Bytes} {s s' : Regions cfg.secretSize}
    (hcur : -1 ≤ (pairOf s).1) (h : Updated cfg (-1) data s s') : (pairOf s').1 = (pairOf s).1 := by
  rcases h with ⟨-, hsame⟩ | h
  · rw [hsame]
  · rw [written] at h
    split at h
    · cases h
    · next version hversion =>
      obtain ⟨secret, -, hpair⟩ := Option.map_eq_some_iff.1 h
      have hkept : version = (pairOf s).1 := by
        change -1 ≤ (latest s).2.rollbackMinVersion at hcur
        rw [nextVersion] at hversion
        split at hversion
        · cases hversion
          split
          · rfl
          · next hnot => exact Int32.le_antisymm hcur (Int32.not_lt.1 hnot)
        · split at hversion
          · cases hversion
          · next hnot =>
            split at hversion
            · cases hversion
            · next hne => exact absurd (Int32.le_antisymm hcur (Int32.not_lt.1 hnot)) hne
      rw [← hpair, hkept]

theorem getLatestRollback_ok (s : Regions n) :
    getLatestRollback (fun _ => false) s = some (latest s) := by
  rw [getLatestRollback, latest]
  cases ([0, 1].foldl (latestStep s) (none, -1)).1 <;> rfl

/-- With power and without faults a call that has something to write succeeds. -/
theorem run_ideal {next : Int32} {entropy : Option Bytes} {s : Regions cfg.secretSize}
    {pair : Int32 × Blob cfg.secretSize} (h : written cfg next entropy s = some pair) :
    ∃ s', (rollbackUpdate cfg (.ideal cfg.secretSize) next entropy).run none s =
      .done ecSuccess s' := by
  rw [written] at h
  split at h
  · cases h
  · next version hversion =>
    obtain ⟨secret, hsecret, -⟩ := Option.map_eq_some_iff.1 h
    refine ⟨Function.update (Function.update s (other s) (.erased cfg.secretSize)) (other s)
      ⟨(latest s).2.id + 1, version, secret, cookieValue⟩, ?_⟩
    have hread : getLatestRollback (Io.ideal cfg.secretSize).readFails s =
        some ((latest s).1, (latest s).2) := getLatestRollback_ok s
    have hopen : ¬ (Io.ideal cfg.secretSize).protectedNow = true := Bool.false_ne_true
    rw [rollbackUpdate, if_neg hopen, Prog.run_get_bind, hread]
    dsimp only
    rw [hversion]
    dsimp only
    rw [hsecret]
    rfl

/-- The pair that is written is the one after the call without cut and faults. -/
theorem newPair_of_written {c : Call} {s : Regions cfg.secretSize}
    {pair : Int32 × Blob cfg.secretSize} (hmax : (latest s).2.id < int32Max)
    (h : written cfg c.version c.entropy s = some pair) : c.newPair cfg s = pair := by
  obtain ⟨s', hrun⟩ := run_ideal h
  rw [← Call.program_eq] at hrun
  have hexec : Action.exec (⟨c, .ideal cfg.secretSize, none⟩ : Action cfg) s = .done ecSuccess s' :=
    hrun
  have hstep : Action.step (⟨c, .ideal cfg.secretSize, none⟩ : Action cfg) s = s' := by
    rw [Action.step, hexec]
    rfl
  rw [Call.newPair, hstep]
  rcases (Action.spec ⟨c, .ideal cfg.secretSize, none⟩ hmax).2 s' hexec with ⟨hcode, -⟩ | hnew
  · rw [written, hcode] at h
    cases h
  · exact Option.some.inj (hnew.symm.trans h)

/-- `rollback_get_minimum_version`, when the flash can be read. -/
def minimumVersion (s : Regions n) : Int32 := getMinimumVersion (fun _ => false) s

theorem minimumVersion_eq (s : Regions n) : minimumVersion s = (pairOf s).1 :=
  getMinimumVersion_eq s

theorem idsBelowMax_append {before after : List (Action cfg)} {s : Regions cfg.secretSize} :
    IdsBelowMax (before ++ after) s ↔
      IdsBelowMax before s ∧ IdsBelowMax after (runActions before s) := by
  induction before generalizing s with
  | nil => simp [IdsBelowMax, runActions]
  | cons a before ih =>
      rw [List.cons_append, IdsBelowMax, IdsBelowMax, ih, and_assoc]
      rfl

/-- **Run lemma.** -/
theorem minimumVersion_le_run {actions : List (Action cfg)} {s : Regions cfg.secretSize}
    (hids : IdsBelowMax actions s) : minimumVersion s ≤ minimumVersion (runActions actions s) := by
  induction actions generalizing s with
  | nil => exact Int32.le_refl _
  | cons a actions ih =>
      have hstep : minimumVersion s ≤ minimumVersion (a.step s) := by
        rw [minimumVersion_eq, minimumVersion_eq]
        exact (a.spec hids.1).1.le
      exact Int32.le_trans hstep (ih hids.2)

/-- **The minimum version does not go back.**  From regions whose minimum version is not below
-1, in every run of calls, each perhaps cut or failing, that finds the latest id below the largest
`int32_t` before each call: the minimum version never decreases; a successful
`rollback_update_version` sets it; a successful `rollback_add_entropy` keeps it; and after every
call, cut or not, version and secret are the old pair or the new one. -/
theorem minimumVersion_never_back (start : Regions cfg.secretSize)
    (hstart : -1 ≤ minimumVersion start) (before : List (Action cfg)) (a : Action cfg)
    (after : List (Action cfg)) (hids : IdsBelowMax (before ++ a :: after) start) :
    let s := runActions before start
    minimumVersion s ≤ minimumVersion (runActions (a :: after) s) ∧
      (∀ v s', a.call = .updateVersion v → a.exec s = .done ecSuccess s' →
        minimumVersion s' = v) ∧
      (∀ data s', a.call = .addEntropy data → a.exec s = .done ecSuccess s' →
        minimumVersion s' = minimumVersion s) ∧
      (pairOf (a.step s) = pairOf s ∨ pairOf (a.step s) = a.call.newPair cfg s) := by
  intro s
  obtain ⟨hbefore, hids⟩ := idsBelowMax_append.1 hids
  have hmax : (latest s).2.id < int32Max := hids.1
  have hcur : -1 ≤ (pairOf s).1 := by
    rw [← minimumVersion_eq]
    exact Int32.le_trans hstart (minimumVersion_le_run hbefore)
  obtain ⟨hpair, hdone⟩ := a.spec hmax
  refine ⟨minimumVersion_le_run hids, ?_, ?_, ?_⟩
  · intro v s' hcall hexec
    have hupdated := hdone s' hexec
    rw [hcall] at hupdated
    rw [minimumVersion_eq]
    exact hupdated.version_eq
  · intro data s' hcall hexec
    have hupdated := hdone s' hexec
    rw [hcall] at hupdated
    rw [minimumVersion_eq, minimumVersion_eq]
    exact hupdated.version_kept hcur
  · exact hpair.imp_right fun h => (newPair_of_written hmax h).symm

/-- A secret of one byte, with a checksum for the digest. -/
def byteSecret : Config where
  secretSize := 1
  hasSecret := true
  addEntropy := fun secret bytes => some (checksum 1 (secret.val ++ bytes))

/-- One valid block. -/
def oneBlock (id version : Int32) : Regions byteSecret.secretSize
  | 0 => ⟨id, version, Arr.replicate 1 0x5a, cookieValue⟩
  | 1 => .erased 1

/-- A call with power and hardware without faults. -/
def plainCall (c : Call) : Action byteSecret := ⟨c, .ideal 1, none⟩

/-- An update, another one that is cut while it writes, and more entropy. -/
theorem minimumVersion_never_back_cut :
    let cut : Action byteSecret := ⟨.updateVersion 6, .ideal 1, some (1, .kept)⟩
    let s := runActions [plainCall (.updateVersion 5)] (oneBlock 1 4)
    minimumVersion s ≤ minimumVersion (runActions [cut, plainCall (.addEntropy (some [1]))] s) ∧
      (pairOf (cut.step s) = pairOf s ∨
        pairOf (cut.step s) = Call.newPair byteSecret (.updateVersion 6) s) := by
  intro cut s
  have hids : IdsBelowMax ([plainCall (.updateVersion 5)] ++
      cut :: [plainCall (.addEntropy (some [1]))]) (oneBlock 1 4) := by
    refine ⟨?_, ?_, ?_, trivial⟩ <;> decide
  have h := minimumVersion_never_back (oneBlock 1 4) (by decide) [plainCall (.updateVersion 5)] cut
    [plainCall (.addEntropy (some [1]))] hids
  exact ⟨h.1, h.2.2.2⟩

/-- Adding entropy raises a version below -1; and after the id has reached the largest `int32_t`
an update that succeeds does not count. -/
theorem not_minimumVersion_never_back :
    (∃ s', (plainCall (.addEntropy (some [1]))).exec (oneBlock 1 (-5)) = .done ecSuccess s' ∧
      minimumVersion s' ≠ minimumVersion (oneBlock 1 (-5))) ∧
    ∃ s s', (plainCall (.updateVersion 4)).exec (oneBlock 2147483646 3) = .done ecSuccess s ∧
      (plainCall (.updateVersion 5)).exec s = .done ecSuccess s' ∧ minimumVersion s' ≠ 5 :=
  ⟨⟨_, rfl, by decide⟩, _, _, rfl, rfl, by decide⟩

end Rollback
end CrosEc
