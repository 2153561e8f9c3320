import CrosEc.RmaAuth.Model
import CrosEc.Shmalloc.Restore

/-!
# `common/rma_auth.c`: the console command

`rma_auth_cmd` builds its TPM command in shared memory.  The exits of an entered auth code do not
release it: what is allocated after them is one buffer more (`rmaAuthCmd_allocated_iff`).
-/

namespace CrosEc
namespace RmaAuth

open Lib Shmalloc

def ecErrorParam1 : Code := 11
def ecErrorParamCount : Code := 20

/-- `sizeof(struct tpm_cmd_header)` -/
def tpmCmdHeaderSize : Nat := 12

/-- `RMA_CMD_BUF_SIZE` -/
def rmaCmdBufSize : Nat := tpmCmdHeaderSize + rmaChallengeBufSize

/-- A `struct tpm_cmd_header` and what follows it. -/
structure TpmCommand where
  tag : UInt16
  size : UInt32
  commandCode : UInt32
  subcommandCode : UInt16
  payload : Bytes

/-- The command for a challenge, or with the auth code. -/
def rmaCommand (authcode : Bytes) : TpmCommand where
  tag := 0x8001
  size := UInt32.ofNat (tpmCmdHeaderSize + authcode.length)
  commandCode := 0x20000000
  subcommandCode := 30
  payload := authcode

/-- What is written into the buffer: the headers of the allocator that do not overlap with it stay,
and whatever is read through the others is `contents`. -/
def fillBuffer (ptr size : Nat) (contents : Addr → ShmBuffer) (s : Shmalloc.State) :
    Shmalloc.State :=
  { s with
    mem := fun x => if x + headerSize ≤ ptr ∨ ptr + size ≤ x then s.mem x else contents x }

/-- `rma_auth_cmd`, where `tpm` is the command code that `tpm_alt_extension` leaves. -/
def rmaAuthCmd (pool : Pool) (tpm : TpmCommand → UInt32) (contents : Addr → ShmBuffer)
    (argv : List Bytes) (s : Shmalloc.State) : Option (Code × Shmalloc.State) :=
  if 2 < argv.length then some (ecErrorParamCount, s)
  else
    match sharedMemAcquire pool false rmaCmdBufSize s with
    | none => none
    | some (rv, none, s₁) => some (rv, s₁)
    | some (_, some tpmh, s₁) =>
        let s₂ := fillBuffer tpmh rmaCmdBufSize contents s₁
        match argv with
        | [_, authcode] =>
            if authcode.length ≠ rmaAuthcodeChars then some (ecErrorParam1, s₂)
            else if tpm (rmaCommand authcode) ≠ 0 then some (ecErrorParam1, s₂)
            else some (ecSuccess, s₂)
        | _ =>
            -- the status is printed, and not returned
            match sharedMemRelease pool false tpmh s₂ with
            | none => none
            | some s₃ => some (ecSuccess, s₃)

/-! ## What is allocated -/

/-- The buffers in the allocated chain -/
def allocated (pool : Pool) (s : Shmalloc.State) : Set Addr :=
  {p | p ∈ (alloccedChain pool s).map Prod.fst}

section Command

variable {pool : Pool} {s : Shmalloc.State} {live : List Allocation} {F A : List Chunk}

/-- An acquire puts one chunk in front of the allocated ones, if a free one is large enough. -/
theorem acquire_alloc (h : HeapOk pool s live F A) (size : Nat) :
    (∃ c ptr s' F', sharedMemAcquire pool false size s = some (ecSuccess, some ptr, s') ∧
        HeapOk pool s' ((ptr, size) :: live) F' (c :: A) ∧ ∃ d ∈ F, neededSize size < d.2) ∨
      sharedMemAcquire pool false size s = some (ecErrorBusy, none, s) ∧
        ∀ d ∈ F, d.2 ≤ neededSize size := by
  rcases acquire_cases h size with ⟨F₁, c, F₂, s', rfl, hlt, hcall, hok⟩ |
    ⟨F₁, a, headroom, F₂, s', rfl, hpos, hcall, hok⟩ | hbusy
  · exact Or.inl ⟨c, _, s', _, hcall, hok, c, by simp, hlt⟩
  · exact Or.inl ⟨_, _, s', _, hcall, hok, (a, neededSize size + headroom), by simp, by simp; omega⟩
  · exact Or.inr hbusy

/-- The buffer that was acquired last is the first of the allocated chain, and its release takes it
out. -/
theorem release_alloc {a : Allocation} {c : Chunk} (h : HeapOk pool s (a :: live) F (c :: A)) :
    ∃ s' F', sharedMemRelease pool false a.1 s = some s' ∧ HeapOk pool s' live F' A := by
  obtain ⟨hserves, hrest⟩ := List.forall₂_cons.mp h.serves
  obtain ⟨pre, post, rfl, hpre, hpost⟩ :=
    h.layout.spaced.split (h.notMem_free (List.mem_cons_self ..))
  obtain ⟨s', hcall, hok⟩ := release_spec [] [] h hrest hserves hpre hpost
  exact ⟨s', _, hcall, hok⟩

/-- The command writes into its buffer only. -/
theorem reachable_fillBuffer {ptr size : Nat} (contents : Addr → ShmBuffer)
    (h : Reachable pool s live) (hmem : (ptr, size) ∈ live) :
    Reachable pool (RmaAuth.fillBuffer ptr size contents s) live :=
  h.wrote hmem fun _ hout => if_pos hout

/-- The command keeps the allocated chain, or leaves its buffer in front of it. -/
theorem rmaAuthCmd_chain (h : Reachable pool s live) (tpm : TpmCommand → UInt32)
    (contents : Addr → ShmBuffer) (argv : List Bytes) :
    ∃ rv s' live', rmaAuthCmd pool tpm contents argv s = some (rv, s') ∧
      Reachable pool s' live' ∧
      ((argv.length ≠ 2 ∨ ∀ c ∈ freeChain pool s, c.2 ≤ neededSize rmaCmdBufSize) ∧
          alloccedChain pool s' = alloccedChain pool s ∨
        (argv.length = 2 ∧ ∃ c ∈ freeChain pool s, neededSize rmaCmdBufSize < c.2) ∧
          ∃ c, alloccedChain pool s' = c :: alloccedChain pool s) := by
  obtain ⟨F, A, hok⟩ := h.heapOk
  rw [hok.freeChain_eq, hok.alloccedChain_eq, rmaAuthCmd]
  by_cases hargc : 2 < argv.length
  · rw [if_pos hargc]
    exact ⟨_, s, live, rfl, h, Or.inl ⟨Or.inl (by omega), hok.alloccedChain_eq⟩⟩
  rw [if_neg hargc]
  obtain ⟨c, ptr, s₁, F', hcall, hacquired, hlarge⟩ | ⟨hcall, hsmall⟩ :=
    acquire_alloc hok rmaCmdBufSize
  · rw [hcall]
    dsimp only
    have hreach := reachable_fillBuffer contents (h.acquired hcall) (List.mem_cons_self ..)
    have hfilled : HeapOk pool (fillBuffer ptr rmaCmdBufSize contents s₁)
        ((ptr, rmaCmdBufSize) :: live) F' (c :: A) :=
      hacquired.wrote (List.mem_cons_self ..) fun _ hout => if_pos hout
    have hleft : ∃ c, alloccedChain pool (fillBuffer ptr rmaCmdBufSize contents s₁) = c :: A :=
      ⟨c, hfilled.alloccedChain_eq⟩
    obtain ⟨s₂, F₂, hrelease, hback⟩ := release_alloc hfilled
    have hreleased : Reachable pool s₂ live :=
      @Reachable.released pool _ _ [] (ptr, rmaCmdBufSize) live hreach hrelease
    have hchain := hback.alloccedChain_eq
    match argv, hargc with
    | [_, authcode], _ =>
        dsimp only
        split
        · exact ⟨_, _, _, rfl, hreach, Or.inr ⟨⟨rfl, hlarge⟩, hleft⟩⟩
        · split
          · exact ⟨_, _, _, rfl, hreach, Or.inr ⟨⟨rfl, hlarge⟩, hleft⟩⟩
          · exact ⟨_, _, _, rfl, hreach, Or.inr ⟨⟨rfl, hlarge⟩, hleft⟩⟩
    | [], _ =>
        dsimp only
        rw [hrelease]
        exact ⟨_, s₂, live, rfl, hreleased, Or.inl ⟨Or.inl (by simp), hchain⟩⟩
    | [_], _ =>
        dsimp only
        rw [hrelease]
        exact ⟨_, s₂, live, rfl, hreleased, Or.inl ⟨Or.inl (by simp), hchain⟩⟩
    | _ :: _ :: _ :: _, hargc => exact absurd (by simp) hargc
  · rw [hcall]
    exact ⟨_, s, live, rfl, h, Or.inl ⟨Or.inr hsmall, hok.alloccedChain_eq⟩⟩

/-- **What stays allocated.**  In every reachable state, for any arguments and any answer of the
TPM task, the command returns, and it leaves the allocated buffers as they were exactly when no auth
code was entered or there was no memory for the command. -/
theorem rmaAuthCmd_allocated_iff (h : Reachable pool s live) (tpm : TpmCommand → UInt32)
    (contents : Addr → ShmBuffer) (argv : List Bytes) :
    ∃ rv s' live', rmaAuthCmd pool tpm contents argv s = some (rv, s') ∧
      Reachable pool s' live' ∧
      (allocated pool s' = allocated pool s ↔
        argv.length ≠ 2 ∨ ∀ c ∈ freeChain pool s, c.2 ≤ neededSize rmaCmdBufSize) := by
  obtain ⟨rv, s', live', hcall, hreach, hcases⟩ := rmaAuthCmd_chain h tpm contents argv
  refine ⟨rv, s', live', hcall, hreach, ?_⟩
  obtain ⟨hkeeps, hchain⟩ | ⟨⟨hargc, d, hd, hlarge⟩, c, hchain⟩ := hcases
  · exact iff_of_true (by rw [allocated, allocated, hchain]) hkeeps
  · refine iff_of_false (fun heq => ?_) ?_
    · -- the new buffer is in no chain but its own
      obtain ⟨F, A, hok⟩ := hreach.heapOk
      have hnodup := hok.chains.nodup_alloc
      rw [← hok.alloccedChain_eq, hchain, List.map_cons, List.nodup_cons] at hnodup
      have hnew : c.1 ∈ allocated pool s' := by
        show c.1 ∈ (alloccedChain pool s').map Prod.fst
        rw [hchain]
        exact List.mem_cons_self ..
      rw [heq] at hnew
      exact hnodup.1 hnew
    · rintro (hne | hsmall)
      · exact hne hargc
      · exact absurd (hsmall d hd) (Nat.not_le.mpr hlarge)

/-- The command given several times -/
def rmaAuthCmds (pool : Pool) (tpm : TpmCommand → UInt32) (contents : Addr → ShmBuffer) :
    List (List Bytes) → Shmalloc.State → Option Shmalloc.State
  | [], s => some s
  | argv :: rest, s =>
      match rmaAuthCmd pool tpm contents argv s with
      | none => none
      | some (_, s') => rmaAuthCmds pool tpm contents rest s'

/-- Without an auth code the command can be repeated. -/
theorem rmaAuthCmds_allocated (h : Reachable pool s live) (tpm : TpmCommand → UInt32)
    (contents : Addr → ShmBuffer) {calls : List (List Bytes)}
    (hcalls : ∀ argv ∈ calls, argv.length ≠ 2) :
    ∃ s', rmaAuthCmds pool tpm contents calls s = some s' ∧
      allocated pool s' = allocated pool s := by
  induction calls generalizing s live with
  | nil => exact ⟨s, rfl, rfl⟩
  | cons argv rest ih =>
      obtain ⟨rv, s₁, live₁, hcall, hreach, hcases⟩ := rmaAuthCmd_chain h tpm contents argv
      obtain ⟨s', hrest, hkept⟩ :=
        ih hreach fun argv hmem => hcalls argv (List.mem_cons_of_mem _ hmem)
      refine ⟨s', ?_, ?_⟩
      · rw [rmaAuthCmds, hcall]
        exact hrest
      · obtain ⟨-, hchain⟩ | ⟨⟨hargc, -⟩, -⟩ := hcases
        · rw [hkept, allocated, allocated, hchain]
        · exact absurd hargc (hcalls argv (List.mem_cons_self ..))

end Command

def testPool : Pool := ⟨0x1000, 200, by decide, by decide, by decide⟩

theorem rmaAuthCmd_allocated_iff_challenge :
    ∃ rv s' live', rmaAuthCmd testPool (fun _ => 0) (fun _ => ⟨none, none, 0⟩) [[]]
        (sharedMemInit testPool fun _ => ⟨none, none, 0⟩) = some (rv, s') ∧
      Reachable testPool s' live' ∧
      (allocated testPool s' =
          allocated testPool (sharedMemInit testPool fun _ => ⟨none, none, 0⟩) ↔
        [([] : Bytes)].length ≠ 2 ∨
          ∀ c ∈ freeChain testPool (sharedMemInit testPool fun _ => ⟨none, none, 0⟩),
            c.2 ≤ neededSize rmaCmdBufSize) :=
  rmaAuthCmd_allocated_iff (Reachable.init _) _ _ _

/-- An auth code of one character: its buffer stays allocated. -/
theorem rmaAuthCmd_leaks :
    ∃ s, Reachable testPool s [] ∧
      ∃ s', rmaAuthCmd testPool (fun _ => 0) (fun _ => ⟨none, none, 0⟩) [[], [0x41]] s =
          some (ecErrorParam1, s') ∧
        allocated testPool s' ≠ allocated testPool s := by
  refine ⟨_, Reachable.init fun _ => ⟨none, none, 0⟩, _, rfl, fun heq => ?_⟩
  have hmem : 0x1000 ∈ allocated testPool
      (sharedMemInit testPool fun _ => ⟨none, none, 0⟩) := by
    rw [← heq]
    exact List.mem_of_elem_eq_true rfl
  cases hmem

end RmaAuth
end CrosEc
