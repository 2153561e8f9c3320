import CrosEc.Ccd.VendorBuffer

/-!
# The room of a vendor command

`ccd_vendor` on a buffer does what it does on the bytes of the command, and the bytes of its
response are at the start of the buffer, unless there is no subcommand, or the command fills the
buffer and a password has to be terminated behind it.
-/

namespace CrosEc
namespace Ccd

open Lib Codec

/-! ## Cells -/

namespace Cell

theorem load_fresh (pre post : List Cell) (bytes : Bytes) {off len : Nat} (hoff : pre.length = off)
    (hlen : bytes.length = len) :
    load (pre ++ bytes.map fresh ++ post) off len = some bytes := by
  have hcells : (bytes.map fresh).length = len := by rw [List.length_map, hlen]
  rw [load, loadAt_middle pre post hoff hcells, Option.bind_some, if_pos]
  · rw [List.map_map]
    exact congrArg some (List.map_id bytes)
  · rw [List.all_map, List.all_eq_true]
    exact fun _ _ => rfl

theorem load_cons (c : Cell) (buffer : List Cell) (len : Nat) :
    load (c :: buffer) 1 len = load buffer 0 len := by
  simp [load, loadAt, Nat.add_comm]

theorem load_fits {buffer : List Cell} {off len : Nat} {bytes : Bytes}
    (h : load buffer off len = some bytes) : off + len ≤ buffer.length := by
  obtain ⟨cells, hload, -⟩ := Option.bind_eq_some_iff.mp h
  obtain ⟨pre, post, rfl, hpre, hlen⟩ := loadAt_split hload
  simp only [List.length_append]
  omega

/-- What was written is known. -/
theorem load_store {buffer buffer' : List Cell} {off : Nat} {data : Bytes}
    (h : store buffer off data = some buffer') : load buffer' off data.length = some data := by
  obtain ⟨pre, post, rfl, hpre, -⟩ := loadAt_split (loadAt_storeAt h)
  exact load_fresh pre post data hpre rfl

theorem store_isSome {buffer : List Cell} {off : Nat} {data : Bytes}
    (h : off + data.length ≤ buffer.length) :
    ∃ buffer', store buffer off data = some buffer' ∧ buffer'.length = buffer.length :=
  storeAt_isSome (by rwa [List.length_map])

/-- A known string ends at its first zero. -/
theorem string_fresh (bytes : Bytes) (post : List Cell) :
    string (bytes.map fresh ++ fresh 0 :: post) = some (bytes.takeWhile fun c => c ≠ 0) := by
  induction bytes with
  | nil => rfl
  | cons c bytes ih =>
      by_cases hc : c = 0
      · simp [string, fresh, hc]
      · simp only [List.map_cons, List.cons_append, string, ih]
        simp [fresh, hc]

end Cell

theorem ofNat_toNat_eq_zero (c : UInt8) : Char.ofNat c.toNat = '\x00' ↔ c = 0 := by
  have hlt := c.toNat_lt
  have hvalid : c.toNat.isValidChar := Or.inl (by omega)
  constructor
  · intro h
    have hnat := congrArg Char.toNat h
    rw [Char.ofNat, dif_pos hvalid] at hnat
    apply UInt8.toNat_inj.mp
    exact hnat
  · rintro rfl
    rfl

theorem cString_chars (bytes : Bytes) :
    State.cString (chars bytes) = chars (bytes.takeWhile fun c => c ≠ 0) := by
  rw [State.cString, chars, List.takeWhile_map]
  congr 2
  funext c
  simp [ofNat_toNat_eq_zero]

theorem Response.length_bytes_le (response : Response) :
    response.bytes.length ≤ ccdInfoResponseSize := by
  cases response with
  | empty => exact Nat.zero_le _
  | code rv => exact Nat.le_of_ble_eq_true rfl
  | pp state => exact Nat.le_of_ble_eq_true rfl
  | info info => simp [bytes, InfoResponse.bytes, htobe32, ccdInfoResponseSize]

/-! ## What a command is answered with -/

/-- The result is that of the command on its bytes; the buffer keeps its size, and the response is
at its start. -/
def Answers (size : Nat) (served : Served) (r : VendorRc × Response × State) : Prop :=
  ∃ p, served = some (r.1, p, r.2.2) ∧ p.buffer.length = size ∧
    p.outSize.toNat = r.2.1.bytes.length ∧
    Cell.load p.buffer 0 r.2.1.bytes.length = some r.2.1.bytes

namespace VendorCmdParams

theorem respond_answers (p : VendorCmdParams) (hroom : ccdInfoResponseSize ≤ p.buffer.length)
    (r : VendorRc × Response × State) : Answers p.buffer.length (p.respond r) r := by
  have hlen := r.2.1.length_bytes_le
  have hfits : 0 + r.2.1.bytes.length ≤ p.buffer.length := by omega
  obtain ⟨buffer, hstore, hlength⟩ := Cell.store_isSome hfits
  refine ⟨_, by rw [respond, hstore]; rfl, hlength, ?_, Cell.load_store hstore⟩
  rw [UInt32.toNat_ofNat_of_lt']
  have hsize : ccdInfoResponseSize < UInt32.size := by decide
  omega

/-- The buffer starts with the input. -/
structure Holds (p : VendorCmdParams) (input : Bytes) (rest : List Cell) : Prop where
  buffer_eq : p.buffer = input.map Cell.fresh ++ rest
  inSize_eq : p.inSize.toNat = input.length

section Holds

variable {env : Env} {p : VendorCmdParams} {input : Bytes} {rest : List Cell} {s : State}
  {b : Build}

theorem Holds.inSize_eq_zero (h : p.Holds input rest) : p.inSize = 0 ↔ input = [] := by
  rw [← List.length_eq_zero_iff, ← h.inSize_eq, ← UInt32.toNat_inj]
  rfl

theorem Holds.chars_eq_nil (h : p.Holds input rest) : p.inSize = 0 ↔ chars input = [] := by
  rw [h.inSize_eq_zero, chars, List.map_eq_nil_iff]

/-- Nothing is behind the password for its terminator. -/
theorem terminateAndCheck_eq_none (h : p.Holds input []) : p.terminateAndCheck b env s = none := by
  have hlen : p.buffer.length = p.inSize.toNat := by simp [h.buffer_eq, h.inSize_eq]
  rw [terminateAndCheck, Cell.store, storeAt, if_neg, Option.bind_none]
  simp [hlen]

theorem terminateAndCheck_eq (b : Build) (env : Env) (h : p.Holds input rest) (hrest : rest ≠ [])
    (hpassword : s.config.rawHasPassword = true) :
    ∃ q, q.buffer.length = p.buffer.length ∧
      p.terminateAndCheck b env s = some
        ((s.checkPassword b env (State.cString (chars input))).1, q,
          (s.checkPassword b env (State.cString (chars input))).2) := by
  obtain ⟨c, post, rfl⟩ := List.exists_cons_of_ne_nil hrest
  have hstore : Cell.store p.buffer p.inSize.toNat [0] =
      some (input.map Cell.fresh ++ Cell.fresh 0 :: post) := by
    have hmiddle : storeAt (input.map Cell.fresh ++ [c] ++ post) p.inSize.toNat [Cell.fresh 0] =
        some (input.map Cell.fresh ++ [Cell.fresh 0] ++ post) :=
      storeAt_middle _ _ _ ((List.length_map _).trans h.inSize_eq.symm) rfl
    rw [List.append_assoc, List.append_assoc] at hmiddle
    rw [h.buffer_eq]
    exact hmiddle
  refine ⟨{ p with buffer := input.map Cell.fresh ++ Cell.fresh 0 :: post }, ?_, ?_⟩
  · simp [h.buffer_eq]
  · rw [terminateAndCheck, hstore, Option.bind_some]
    simp only [checkPassword, State.checkPassword, hpassword, Bool.true_eq_false, if_false,
      Cell.string_fresh, cString_chars]
    split <;> rfl

end Holds

end VendorCmdParams

/-! ## The handlers -/

namespace State

/-- `ccd_open` gets as far as to a password. -/
def OpenTakesPassword (env : Env) (s : State) : Prop :=
  s.forceDisabled = false ∧ s.ccdState ≠ .opened ∧ env.fwmpAllowsUnlock = true ∧
    s.config.rawHasPassword = true

/-- And so does `ccd_unlock`. -/
def UnlockTakesPassword (env : Env) (s : State) : Prop :=
  s.forceDisabled = false ∧ s.ccdState = .locked ∧ env.fwmpAllowsUnlock = true ∧
    s.config.rawHasPassword = true

end State

namespace VendorCmdParams

variable {env : Env} {p : VendorCmdParams} {input : Bytes} {rest : List Cell} {s : State}
  {b : Build}

theorem ccdPassword_answers (h : p.Holds input rest)
    (hroom : ccdInfoResponseSize ≤ p.buffer.length) :
    Answers p.buffer.length (p.ccdPassword b env s)
      (s.ccdPassword b env p.fromUsb (chars input)) := by
  have hlength : ccdMaxPasswordSize < p.inSize.toNat ↔
      ccdMaxPasswordSize < (chars input).length := by
    rw [h.inSize_eq, chars, List.length_map]
  have hload : Cell.load p.buffer 0 p.inSize.toNat = some input := by
    rw [h.buffer_eq]
    exact Cell.load_fresh [] rest input rfl h.inSize_eq.symm
  unfold ccdPassword State.ccdPassword
  by_cases husb : p.fromUsb = true
  · rw [if_pos husb, if_pos husb]
    exact p.respond_answers hroom _
  rw [if_neg husb, if_neg husb]
  by_cases hsize : p.inSize = 0 ∨ ccdMaxPasswordSize < p.inSize.toNat
  · rw [if_pos hsize]
    rw [h.chars_eq_nil, hlength] at hsize
    simp only [hsize, if_true]
    exact p.respond_answers hroom _
  · rw [if_neg hsize, hload, Option.bind_some]
    rw [h.chars_eq_nil, hlength] at hsize
    simp only [hsize, if_false]
    split
    · exact p.respond_answers hroom _
    · exact p.respond_answers hroom _

/-- What is left to do when the password has been checked. -/
theorem check_answers (hroom : ccdInfoResponseSize ≤ p.buffer.length)
    {q : VendorCmdParams} (hq : q.buffer.length = p.buffer.length) (r : Code × State)
    (f : State → VendorRc × Response × State) :
    Answers p.buffer.length
      (if r.1 ≠ ecSuccess then q.respond (.internalError, .code r.1, r.2) else q.respond (f r.2))
      (if r.1 ≠ ecSuccess then (.internalError, .code r.1, r.2) else f r.2) := by
  rw [← hq] at hroom ⊢
  split
  · exact q.respond_answers hroom _
  · exact q.respond_answers hroom _

theorem ccdOpen_answers (h : p.Holds input rest) (hroom : ccdInfoResponseSize ≤ p.buffer.length)
    (hrest : s.OpenTakesPassword env → input ≠ [] → rest ≠ []) :
    Answers p.buffer.length (p.ccdOpen b env s)
      (s.ccdOpen b env p.fromUsb (chars input)) := by
  have hrespond := p.respond_answers hroom
  rw [ccdOpen, State.ccdOpen]
  by_cases hforce : s.forceDisabled = true
  · rw [if_pos hforce, if_pos hforce]
    exact hrespond _
  rw [if_neg hforce, if_neg hforce]
  by_cases hopened : s.ccdState = .opened
  · rw [if_pos hopened, if_pos hopened]
    exact hrespond _
  rw [if_neg hopened, if_neg hopened]
  by_cases hfwmp : env.fwmpAllowsUnlock = false
  · rw [if_pos hfwmp, if_pos hfwmp]
    exact hrespond _
  rw [if_neg hfwmp, if_neg hfwmp]
  by_cases hpassword : s.config.rawHasPassword = true
  · rw [if_pos hpassword, if_pos hpassword]
    by_cases hempty : p.inSize = 0
    · rw [if_pos hempty, if_pos (h.chars_eq_nil.mp hempty)]
      exact hrespond _
    · have htakes : s.OpenTakesPassword env :=
        ⟨Bool.eq_false_of_not_eq_true hforce, hopened, Bool.eq_true_of_not_eq_false hfwmp, hpassword⟩
      obtain ⟨q, hq, hcheck⟩ := terminateAndCheck_eq b env h
        (hrest htakes (mt h.inSize_eq_zero.mpr hempty)) hpassword
      rw [if_neg hempty, if_neg (mt h.chars_eq_nil.mpr hempty), hcheck, Option.bind_some]
      exact check_answers hroom hq _ fun s => s.openChecked b env
  rw [if_neg hpassword, if_neg hpassword]
  by_cases hallowed : s.openAllowed b env p.fromUsb = true
  · rw [if_pos hallowed, if_pos hallowed]
    exact hrespond _
  · rw [if_neg hallowed, if_neg hallowed]
    exact hrespond _

theorem ccdUnlock_answers (h : p.Holds input rest) (hroom : ccdInfoResponseSize ≤ p.buffer.length)
    (hrest : s.UnlockTakesPassword env → input ≠ [] → rest ≠ []) :
    Answers p.buffer.length (p.ccdUnlock b env s) (s.ccdUnlock b env (chars input)) := by
  have hrespond := p.respond_answers hroom
  rw [ccdUnlock, State.ccdUnlock]
  by_cases hforce : s.forceDisabled = true
  · rw [if_pos hforce, if_pos hforce]
    exact hrespond _
  rw [if_neg hforce, if_neg hforce]
  by_cases hunlocked : s.ccdState = .unlocked
  · rw [if_pos hunlocked, if_pos hunlocked]
    exact hrespond _
  rw [if_neg hunlocked, if_neg hunlocked]
  by_cases hopened : s.ccdState = .opened
  · rw [if_pos hopened, if_pos hopened]
    exact hrespond _
  rw [if_neg hopened, if_neg hopened]
  by_cases hdenied : s.config.rawHasPassword = false ∨ env.fwmpAllowsUnlock = false
  · rw [if_pos hdenied, if_pos hdenied]
    exact hrespond _
  rw [if_neg hdenied, if_neg hdenied]
  by_cases hempty : p.inSize = 0
  · rw [if_pos hempty, if_pos (h.chars_eq_nil.mp hempty)]
    exact hrespond _
  · obtain ⟨hpassword, hfwmp⟩ := not_or.mp hdenied
    have hlocked : s.ccdState = .locked := by
      cases hstate : s.ccdState with
      | locked => rfl
      | unlocked => exact absurd hstate hunlocked
      | opened => exact absurd hstate hopened
    have htakes : s.UnlockTakesPassword env :=
      ⟨Bool.eq_false_of_not_eq_true hforce, hlocked, Bool.eq_true_of_not_eq_false hfwmp,
        Bool.eq_true_of_not_eq_false hpassword⟩
    obtain ⟨q, hq, hcheck⟩ := terminateAndCheck_eq b env h
      (hrest htakes (mt h.inSize_eq_zero.mpr hempty)) htakes.2.2.2
    rw [if_neg hempty, if_neg (mt h.chars_eq_nil.mpr hempty), hcheck, Option.bind_some]
    exact check_answers hroom hq _ (unlockChecked b env)

/-- Without room for the terminator, a password is written over the end. -/
theorem ccdOpen_eq_none (h : p.Holds input []) (hinput : input ≠ [])
    (htakes : s.OpenTakesPassword env) : p.ccdOpen b env s = none := by
  obtain ⟨hforce, hopened, hfwmp, hpassword⟩ := htakes
  rw [ccdOpen, if_neg (by simp [hforce]), if_neg hopened, if_neg (by simp [hfwmp]),
    if_pos hpassword, if_neg (mt h.inSize_eq_zero.mp hinput), terminateAndCheck_eq_none h,
    Option.bind_none]

theorem ccdUnlock_eq_none (h : p.Holds input []) (hinput : input ≠ [])
    (htakes : s.UnlockTakesPassword env) : p.ccdUnlock b env s = none := by
  obtain ⟨hforce, hlocked, hfwmp, hpassword⟩ := htakes
  rw [ccdUnlock, if_neg (by simp [hforce]), if_neg (by simp [hlocked]), if_neg (by simp [hlocked]),
    if_neg (by simp [hfwmp, hpassword]), if_neg (mt h.inSize_eq_zero.mp hinput),
    terminateAndCheck_eq_none h, Option.bind_none]

/-! ## The dispatcher -/

/-- The handler of the subcommand gets as far as to a password. -/
def TakesPassword (env : Env) (subcommand : UInt8) (s : State) : Prop :=
  (subcommand = 1 ∧ s.OpenTakesPassword env) ∨ (subcommand = 2 ∧ s.UnlockTakesPassword env)

/-- A handler does what the subcommand does. -/
theorem handler_answers {outSize : Nat} (hsize : ccdInfoResponseSize + 1 ≤ outSize)
    (h : p.Holds input rest) (hroom : ccdInfoResponseSize ≤ p.buffer.length) {subcommand : UInt8}
    (hrest : TakesPassword env subcommand s → input ≠ [] → rest ≠ [])
    {f : VendorCmdParams → State → Served} (hf : handler b env subcommand = some f) :
    Answers p.buffer.length (f p s)
      (s.ccdVendor b env p.fromUsb outSize subcommand (chars input)) := by
  have hrespond := p.respond_answers hroom
  unfold handler at hf
  rw [State.ccdVendor, if_neg (by omega)]
  split_ifs at hf ⊢
  case pos =>
    cases hf
    exact ccdPassword_answers h hroom
  case pos _ hone =>
    cases hf
    exact ccdOpen_answers h hroom fun htakes => hrest (Or.inl ⟨hone, htakes⟩)
  case pos _ _ htwo =>
    cases hf
    exact ccdUnlock_answers h hroom fun htakes => hrest (Or.inr ⟨htwo, htakes⟩)
  all_goals
    cases hf
    exact hrespond _

theorem ccdVendor_of_handler_eq_none {outSize : Nat} (hsize : ccdInfoResponseSize + 1 ≤ outSize)
    (fromUsb : Bool) (buffer : List Char) {subcommand : UInt8}
    (hf : handler b env subcommand = none) :
    s.ccdVendor b env fromUsb outSize subcommand buffer = (.noSuchSubcommand, .empty, s) := by
  unfold handler at hf
  rw [State.ccdVendor, if_neg (by omega)]
  split_ifs at hf ⊢
  rfl

/-- Where a password does not fit, the handler leaves the buffer. -/
theorem handler_eq_none (h : p.Holds input []) (hinput : input ≠ []) {subcommand : UInt8}
    (htakes : TakesPassword env subcommand s) :
    ∃ f, handler b env subcommand = some f ∧ f p s = none := by
  rcases htakes with ⟨rfl, hopen⟩ | ⟨rfl, hunlock⟩
  · exact ⟨ccdOpen b env, rfl, ccdOpen_eq_none h hinput hopen⟩
  · exact ⟨ccdUnlock b env, rfl, ccdUnlock_eq_none h hinput hunlock⟩

/-- The response is moved up behind the subcommand. -/
theorem callHandler_answers {c : Cell} {cells : List Cell} (hbuffer : p.buffer = c :: cells)
    {f : VendorCmdParams → State → Served} {r : VendorRc × Response × State}
    (h : Answers cells.length (f { p with buffer := cells, inSize := p.inSize - 1 } s) r) :
    Answers p.buffer.length (p.callHandler f s) r := by
  obtain ⟨q, hserved, hlength, hsize, hload⟩ := h
  have hresponse : Cell.load (c :: q.buffer) 1 q.outSize.toNat = some r.2.1.bytes := by
    rw [Cell.load_cons, hsize, hload]
  have hfits : 0 + r.2.1.bytes.length ≤ (c :: q.buffer).length :=
    le_trans (Cell.load_fits hload) (Nat.le_succ _)
  obtain ⟨buffer, hstore, hlength'⟩ := Cell.store_isSome hfits
  refine ⟨{ q with buffer := buffer, inSize := q.inSize + 1 }, ?_, ?_, hsize, Cell.load_store hstore⟩
  · simp only [callHandler, hbuffer, List.drop_one, List.tail_cons, hserved, Option.bind_some,
      List.take_one, List.head?_cons, Option.toList_some, List.singleton_append, hresponse, hstore,
      Option.map_some]
  · rw [hlength', hbuffer, List.length_cons, List.length_cons, hlength]

theorem callHandler_eq_none {c : Cell} {cells : List Cell} (hbuffer : p.buffer = c :: cells)
    {f : VendorCmdParams → State → Served}
    (h : f { p with buffer := cells, inSize := p.inSize - 1 } s = none) :
    p.callHandler f s = none := by
  have hdrop : p.buffer.drop 1 = cells := by
    rw [hbuffer]
    rfl
  rw [callHandler, hdrop, h]
  rfl

/-- What is left when the subcommand is taken off. -/
theorem Holds.tail {subcommand : UInt8} (h : p.Holds (subcommand :: input) rest) :
    Holds { p with buffer := input.map Cell.fresh ++ rest, inSize := p.inSize - 1, outSize := 0 }
      input rest := by
  have hlen : p.inSize.toNat = input.length + 1 := h.inSize_eq
  have hone : (1 : UInt32) ≤ p.inSize := by
    rw [UInt32.le_iff_toNat_le, hlen]
    exact Nat.le_add_left _ _
  refine ⟨rfl, ?_⟩
  show (p.inSize - 1).toNat = _
  rw [UInt32.toNat_sub_of_le _ _ hone, hlen]
  rfl

/-- A command that has a subcommand, and room for a response of any size. -/
theorem ccdVendor_answers_iff (b : Build) (env : Env) {subcommand : UInt8}
    (h : p.Holds (subcommand :: input) rest)
    (hsize : ccdInfoResponseSize + 1 ≤ p.outSize.toNat)
    (hroom : ccdInfoResponseSize + 1 ≤ p.buffer.length) :
    Answers p.buffer.length (p.ccdVendor b env s)
        (s.ccdVendor b env p.fromUsb p.outSize.toNat subcommand (chars input)) ↔
      ¬ (rest = [] ∧ TakesPassword env subcommand s) := by
  have hlength : p.buffer.length = (input.map Cell.fresh ++ rest).length + 1 := by
    rw [h.buffer_eq]
    rfl
  have hload : Cell.load p.buffer 0 1 = some [subcommand] := by
    rw [h.buffer_eq]
    exact Cell.load_fresh [] (input.map Cell.fresh ++ rest) [subcommand] rfl rfl
  have hvendor : p.ccdVendor b env s = (handler b env subcommand).elim
      (some (.noSuchSubcommand, { p with outSize := 0 }, s))
      fun f => { p with outSize := 0 }.callHandler f s := by
    rw [ccdVendor, if_neg (Nat.not_lt.mpr hsize), hload, Option.bind_some, List.headD_cons]
    cases handler b env subcommand <;> rfl
  have hbuffer : ({ p with outSize := 0 } : VendorCmdParams).buffer =
      Cell.fresh subcommand :: (input.map Cell.fresh ++ rest) := h.buffer_eq
  rw [hvendor]
  cases hf : handler b env subcommand with
  | none =>
      rw [ccdVendor_of_handler_eq_none hsize _ _ hf]
      refine iff_of_true ⟨_, rfl, rfl, rfl, rfl⟩ ?_
      rintro ⟨-, ⟨rfl, -⟩ | ⟨rfl, -⟩⟩
      · cases hf
      · cases hf
  | some f =>
      by_cases hfull : rest = [] ∧ TakesPassword env subcommand s
      · -- Nothing is stale, and the terminator is written behind the last byte of the input.
        obtain ⟨rfl, htakes⟩ := hfull
        have hinput : input ≠ [] := by
          rintro rfl
          have hpositive : 0 < ccdInfoResponseSize := by decide
          rw [List.map_nil, List.append_nil, List.length_nil] at hlength
          omega
        obtain ⟨f', hf', hnone⟩ := handler_eq_none (b := b) h.tail hinput htakes
        obtain rfl := Option.some.inj (hf.symm.trans hf')
        refine iff_of_false ?_ (not_not.mpr ⟨rfl, htakes⟩)
        rintro ⟨q, hserved, -⟩
        rw [Option.elim_some, callHandler_eq_none hbuffer hnone] at hserved
        cases hserved
      · refine iff_of_true (callHandler_answers hbuffer ?_) hfull
        refine handler_answers hsize h.tail ?_ (fun htakes _ hnil => hfull ⟨hnil, htakes⟩) hf
        show _ ≤ (input.map Cell.fresh ++ rest).length
        omega

end VendorCmdParams

/-! ## Commands -/

/-- A command in its buffer, which has room for `outSize` bytes. -/
structure Command where
  outSize : UInt32
  buffer : Blob outSize.toNat
  inSize : UInt32
  inSize_le : inSize ≤ outSize
  flags : UInt32

namespace Command

variable (b : Build) (c : Command)

/-- The bytes of the command. -/
def input : Bytes := c.buffer.val.take c.inSize.toNat

def params : VendorCmdParams where
  buffer := c.input.map Cell.fresh ++ (c.buffer.val.drop c.inSize.toNat).map Cell.stale
  inSize := c.inSize
  outSize := c.outSize
  flags := c.flags

/-- What the command does, as a function of its bytes. -/
def result (env : Env) (s : State) : VendorRc × Response × State :=
  s.ccdVendor b env c.params.fromUsb c.outSize.toNat (c.input.headD 0) (chars c.input.tail)

/-- `ccd_vendor` reads nothing but the input and what it wrote, writes nothing outside of the
buffer, and leaves the response at the start of the buffer, with its size in `out_size`. -/
def StaysInRoom (env : Env) (s : State) : Prop :=
  Answers c.outSize.toNat (c.params.ccdVendor b env s) (c.result b env s)

variable {b} {c} {env : Env} {s : State}

theorem length_input (c : Command) : c.input.length = c.inSize.toNat := by
  rw [input, List.length_take, c.buffer.property]
  exact Nat.min_eq_left c.inSize_le

theorem length_params (c : Command) : c.params.buffer.length = c.outSize.toNat := by
  have hle : c.inSize.toNat ≤ c.outSize.toNat := c.inSize_le
  simp only [params, List.length_append, List.length_map, length_input, List.length_drop,
    c.buffer.property]
  omega

/-- The response of any subcommand has to fit. -/
theorem staysInRoom_of_small (hsmall : c.outSize.toNat < ccdInfoResponseSize + 1) :
    c.StaysInRoom b env s := by
  refine ⟨{ c.params with outSize := 0 }, ?_, c.length_params, ?_, ?_⟩
  · rw [result, State.ccdVendor, if_pos hsmall]
    exact if_pos hsmall
  · rw [result, State.ccdVendor, if_pos hsmall]
    rfl
  · rw [result, State.ccdVendor, if_pos hsmall]
    simp [Response.bytes, Cell.load]

/-- Without a byte of input, the subcommand is stale. -/
theorem not_staysInRoom_of_empty (hsize : ccdInfoResponseSize + 1 ≤ c.outSize.toNat)
    (hempty : c.inSize = 0) : ¬ c.StaysInRoom b env s := by
  rintro ⟨p, hserved, -⟩
  have hstale : Cell.load c.params.buffer 0 1 = none := by
    cases hbytes : c.buffer.val with
    | nil =>
        have hlen := c.buffer.property
        rw [hbytes, List.length_nil] at hlen
        omega
    | cons byte bytes => simp [params, input, hempty, hbytes, Cell.load, Cell.stale, loadAt]
  rw [VendorCmdParams.ccdVendor, if_neg (by exact Nat.not_lt.mpr hsize), hstale] at hserved
  cases hserved

/-- Stale cells are left behind the input unless it fills the buffer. -/
theorem drop_eq_nil_iff (c : Command) : c.buffer.val.drop c.inSize.toNat = [] ↔
    c.inSize = c.outSize := by
  rw [List.drop_eq_nil_iff, c.buffer.property]
  exact ⟨fun h => UInt32.le_antisymm c.inSize_le h, fun h => UInt32.le_of_eq h.symm⟩

theorem staysInRoom_of_input (hsize : ccdInfoResponseSize + 1 ≤ c.outSize.toNat)
    (hpos : c.inSize ≠ 0) :
    c.StaysInRoom b env s ↔
      ¬ (c.inSize = c.outSize ∧ VendorCmdParams.TakesPassword env (c.input.headD 0) s) := by
  obtain ⟨subcommand, rest, hinput⟩ : ∃ subcommand rest, c.input = subcommand :: rest := by
    refine List.exists_cons_of_ne_nil fun hnil => hpos (UInt32.toNat_inj.mp ?_)
    rw [← c.length_input, hnil]
    rfl
  have hholds : c.params.Holds (subcommand :: rest)
      ((c.buffer.val.drop c.inSize.toNat).map Cell.stale) := by
    rw [← hinput]
    exact ⟨rfl, c.length_input.symm⟩
  have hroom : ccdInfoResponseSize + 1 ≤ c.params.buffer.length := hsize.trans_eq c.length_params.symm
  have hiff := VendorCmdParams.ccdVendor_answers_iff (s := s) b env hholds hsize hroom
  rw [List.map_eq_nil_iff, drop_eq_nil_iff] at hiff
  rw [StaysInRoom, result, hinput, List.headD_cons, List.tail_cons, ← hiff, c.length_params]
  rfl

/-- **A command stays in its buffer** if its room is too small for a response, or if it has a
subcommand, and does not fill the buffer up to its end with a password that is going to be
terminated. -/
theorem staysInRoom_iff (b : Build) (env : Env) (s : State) (c : Command) :
    c.StaysInRoom b env s ↔
      c.outSize.toNat < ccdInfoResponseSize + 1 ∨
        (c.inSize ≠ 0 ∧
          ¬ (c.inSize = c.outSize ∧ VendorCmdParams.TakesPassword env (c.input.headD 0) s)) := by
  by_cases hsmall : c.outSize.toNat < ccdInfoResponseSize + 1
  · exact iff_of_true (staysInRoom_of_small hsmall) (Or.inl hsmall)
  rw [or_iff_right hsmall]
  by_cases hempty : c.inSize = 0
  · exact iff_of_false (not_staysInRoom_of_empty (by omega) hempty) fun h => h.1 hempty
  · rw [staysInRoom_of_input (by omega) hempty]
    exact (and_iff_right hempty).symm

/-- **No input, and a password up to the end.** The subcommand of the first command is stale, and
the terminator of the second one is behind its buffer. -/
theorem not_staysInRoom_empty_and_full :
    ¬ Command.StaysInRoom ⟨false, false, .strict, fun _ _ => 0⟩
        ⟨24, readBlob _ [], 0, by decide, 0⟩
        ⟨0, 0, true, false, true, 0, 0, 0⟩ (.boot .zero none none) ∧
      ¬ Command.StaysInRoom ⟨false, false, .strict, fun _ _ => 0⟩
        ⟨24, ⟨2 :: List.replicate 23 97, rfl⟩, 24, by decide, 0⟩
        ⟨0, 0, true, false, true, 0, 0, 0⟩
        (.boot { Config.zero with passwordDigest := 1 } none none) := by
  refine ⟨not_staysInRoom_of_empty (by decide) rfl, ?_⟩
  rw [staysInRoom_of_input (by decide) (by decide), not_not]
  exact ⟨rfl, Or.inr ⟨rfl, rfl, rfl, rfl, by decide⟩⟩

end Command

end Ccd
end CrosEc
