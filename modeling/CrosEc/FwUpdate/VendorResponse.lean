import CrosEc.FwUpdate.VendorCommand

/-!
# What a vendor command answers

A response depends on the request and the device alone if the subcommand is in the packet, the
response is set, and nothing is queued from behind the structure it is in.  That there is one needs
room for it: a queue takes only what it has space for.
-/

namespace CrosEc
namespace FwUpdate
namespace Vendor

open Lib Uart

/-! ## What is asked of a command -/

/-- The bytes of a response -/
def Message.size (message : Message) : Nat := (message.map Piece.count).sum

/-- One response is queued, as a whole. -/
def OneResponse (r : Reaction) (space : Nat) : Prop :=
  ∃ message : Message, r.messages = [message] ∧ 0 < message.size ∧ message.size ≤ space

/-- One response is queued, and it does not depend on what the stack held; nor does what the command
does. -/
def Sound (space : Nat) (command : Stale → Exit) : Prop :=
  (∀ stale r, command stale = .returns r → OneResponse r space) ∧
  ∀ stale stale' r r', command stale = .returns r → command stale' = .returns r' →
    r.effects = r'.effects ∧ r.queued space = r'.queued space

section Sound

variable {space : Nat}

/-- A command that does not look at the stack -/
theorem sound_message_iff (effects : List Effect) (message : Message) :
    Sound space (fun _ => .returns ⟨effects, [message]⟩) ↔
      0 < message.size ∧ message.size ≤ space := by
  constructor
  · rintro ⟨hone, -⟩
    obtain ⟨_, heq, hsize⟩ :=
      hone ⟨Arr.replicate _ 0, 0, Arr.replicate _ 0⟩ ⟨effects, [message]⟩ rfl
    obtain rfl : message = _ := List.cons.inj heq |>.1
    exact hsize
  · intro hsize
    refine ⟨fun _ r heq => ?_, fun _ _ r r' heq heq' => ?_⟩
    · obtain rfl := Exit.returns.inj heq
      exact ⟨message, rfl, hsize⟩
    · obtain rfl := Exit.returns.inj heq
      obtain rfl := Exit.returns.inj heq'
      exact ⟨rfl, rfl⟩

theorem sound_answer_iff (effects : List Effect) (response : UInt8) :
    Sound space (fun _ => answer effects response) ↔ 0 < space := by
  rw [show (fun _ : Stale => answer effects response) =
    fun _ => .returns ⟨effects, [[⟨[response], 1⟩]]⟩ from rfl, sound_message_iff]
  show 0 < 1 ∧ 1 ≤ space ↔ 0 < space
  omega

/-- A response that was never set -/
theorem not_sound_stale (effects : List Effect) :
    ¬Sound space fun stale => answer effects stale.response := by
  rintro ⟨hone, hsame⟩
  obtain ⟨message, heq, -, hroom⟩ :=
    hone ⟨Arr.replicate _ 0, 0, Arr.replicate _ 0⟩ _ rfl
  obtain rfl : _ = message := List.cons.inj heq |>.1
  have hspace : 1 ≤ space := hroom
  have hqueued := (hsame ⟨Arr.replicate _ 0, 0, Arr.replicate _ 0⟩
    ⟨Arr.replicate _ 0, 1, Arr.replicate _ 0⟩ _ _ rfl rfl).2
  simp [Reaction.queued, pushed, Nat.min_eq_left hspace] at hqueued

end Sound

/-! ## The condition -/

/-- The subcommand that the bytes of a packet begin with -/
def commandOf (packet : Bytes) : Option ExtraCommand :=
  ExtraCommand.decode (subcommandOf packet)

/-- The packet has its subcommand, or a first byte of one that no subcommand has. -/
def Determined (packet : Bytes) : Prop :=
  headerSize ≤ packet.length ∨
    packet.length + 1 = headerSize ∧ packet.getD frameHeaderSize 0 ≠ 0

section Condition

variable {k : Nat} (config : Config) (device : Device k)

/-- The packet makes the device reset or jump. -/
def Leaves (packet : Bytes) : Prop :=
  headerSize ≤ packet.length ∧
    (commandOf packet = some .immediateReset ∨
      commandOf packet = some .jumpToRw ∧ config.rwsig = false ∧ device.jumpReturns = false)

/-- What the answer to a subcommand with this data needs. -/
def Answers (data : Bytes) : Option ExtraCommand → Prop
  | some .jumpToRw => config.rwsig = true ∧ 0 < device.space
  | some .injectEntropy =>
      0 < device.space ∧ ∀ secret, config.rollback = some (some secret) →
        secret.update = true → data.length < secret.size
  | some .pairChallenge =>
      0 < device.space ∧ ∀ secret, config.rollback = some (some secret) →
        secret.pairing = true → pairChallengeSize ≤ data.length → device.secret ≠ none →
          49 ≤ device.space
  | some .touchpadInfo =>
      0 < device.space ∧ (config.touchpad ≠ none → data = [] →
        0 < device.touchpadInfo.2.toNat ∧ device.touchpadInfo.2.toNat ≤ touchpadInfoSize ∧
          device.touchpadInfo.2.toNat ≤ device.space)
  | some .touchpadDebug =>
      0 < device.space ∧ (config.touchpad ≠ none →
        (device.touchpadDebug data).1.toUInt8 = ecResSuccess →
          (device.touchpadDebug data).2.length ≤ device.space)
  | _ => 0 < device.space

end Condition

/-! ## Commands on the data of the packet -/

section Commands

variable {k : Nat} (config : Config) (device : Device k) {data : Bytes}

theorem toUnsigned_natCast {n : Nat} (h : n < 2 ^ 32) : toUnsigned (n : Int) = n := by
  rw [toUnsigned]
  omega

/-- No command looks behind the data. -/
theorem runCommand_append (stale : Stale) (hdata : data.length < 2 ^ 32) (rest : Bytes)
    (command : Option ExtraCommand) :
    runCommand config device stale data.length (data ++ rest) command =
      runCommand config device stale data.length data command := by
  match command with
  | some .injectEntropy =>
      have htake : (data ++ rest).take (data.length : Int).toNat =
          data.take (data.length : Int).toNat := by
        rw [Int.toNat_natCast, List.take_left, List.take_length]
      simp only [runCommand, injectEntropy, htake]
  | some .pairChallenge =>
      simp only [runCommand, toUnsigned_natCast hdata]
      by_cases hshort : data.length < pairChallengeSize
      · simp only [if_pos hshort]
      · have hlen : 48 ≤ data.length := Nat.not_lt.mp hshort
        have hpublic : (data ++ rest).take 32 = data.take 32 :=
          List.take_append_of_le_length (by omega)
        have hnonce : ((data ++ rest).drop 32).take 16 = (data.drop 32).take 16 := by
          rw [List.drop_append_of_le_length (by omega),
            List.take_append_of_le_length (by rw [List.length_drop]; omega)]
        simp only [pairChallenge, hpublic, hnonce]
  | some .touchpadDebug =>
      have htake : (data ++ rest).take (toUnsigned data.length) =
          data.take (toUnsigned data.length) := by
        rw [toUnsigned_natCast hdata, List.take_left, List.take_length]
      simp only [runCommand, touchpadDebug, htake]
  | some .consoleReadNext =>
      simp only [runCommand, consoleReadNext]
      by_cases hone : (data.length : Int) = 1
      · obtain ⟨type, rfl⟩ := List.length_eq_one_iff.mp (Int.ofNat_inj.mp hone)
        rfl
      · simp only [if_pos hone]
  | some .immediateReset | some .jumpToRw | some .stayInRo | some .unlockRw
  | some .unlockRollback | some .touchpadInfo | some .consoleReadInit | none => rfl

theorem sound_jumpToRw_iff (hstays : config.rwsig = true ∨ device.jumpReturns = true) :
    Sound device.space (fun stale => jumpToRw config device stale.response) ↔
      config.rwsig = true ∧ 0 < device.space := by
  unfold jumpToRw
  cases hrwsig : config.rwsig with
  | true =>
      simp only [if_true, true_and]
      exact sound_answer_iff _ _
  | false =>
      have hreturns : device.jumpReturns = true :=
        hstays.resolve_left (by rw [hrwsig]; exact Bool.false_ne_true)
      simp only [Bool.false_eq_true, if_false, hreturns, if_true, false_and, iff_false]
      exact not_sound_stale _

theorem sound_injectEntropy_iff (size : Nat) :
    Sound device.space (fun stale => injectEntropy size data.length data stale.response) ↔
      0 < device.space ∧ data.length < size := by
  unfold injectEntropy
  by_cases hshort : data.length < size
  · simp only [if_pos (Int.ofNat_lt.mpr hshort), hshort, and_true]
    exact sound_answer_iff _ _
  · simp only [if_neg (mt Int.ofNat_lt.mp hshort), hshort, and_false, iff_false]
    exact not_sound_stale _

theorem sound_pairChallenge_iff (size : Nat) :
    Sound device.space (fun _ => pairChallenge device size data) ↔
      0 < device.space ∧ (device.secret ≠ none → 49 ≤ device.space) := by
  unfold pairChallenge
  cases device.secret with
  | none => simpa using sound_answer_iff [] ecResUnavailable
  | some secret =>
      rw [sound_message_iff]
      show 0 < 49 ∧ 49 ≤ device.space ↔ 0 < device.space ∧ (some secret ≠ none → 49 ≤ device.space)
      simp
      omega

/-- What is queued from the structure itself does not depend on what is behind it. -/
theorem queued_info {tp : Bytes} {n space : Nat} (hn : n ≤ tp.length) (behind : Bytes) :
    (⟨[], [[⟨tp ++ behind, n⟩]]⟩ : Reaction).queued space = tp.take (min n space) := by
  rw [Reaction.queued]
  simp only [List.flatten_cons, List.flatten_nil, List.append_nil, pushed]
  exact List.take_append_of_le_length (by omega)

/-- What is queued from behind the structure does. -/
theorem sound_info_iff {tp : Bytes} (htp : tp.length = touchpadInfoSize) (n space : Nat) :
    Sound space (fun stale => .returns ⟨[], [[⟨tp ++ stale.behindInfo.val, n⟩]]⟩) ↔
      0 < n ∧ n ≤ touchpadInfoSize ∧ n ≤ space := by
  constructor
  · rintro ⟨hone, hsame⟩
    obtain ⟨message, heq, hpos, hroom⟩ :=
      hone ⟨Arr.replicate _ 0, 0, Arr.replicate _ 0⟩ _ rfl
    obtain rfl : _ = message := List.cons.inj heq |>.1
    refine ⟨hpos, ?_, hroom⟩
    by_contra hover
    have hqueued := (hsame ⟨Arr.replicate _ 0, 0, Arr.replicate _ 0⟩
      ⟨Arr.replicate _ 0, 0, Arr.replicate _ 1⟩ _ _ rfl rfl).2
    have hmin : min n space = n := Nat.min_eq_left hroom
    simp only [Reaction.queued, List.flatten_cons, List.flatten_nil, List.append_nil, pushed,
      hmin] at hqueued
    have hbyte (behind : Bytes) : ((tp ++ behind).take n)[touchpadInfoSize]? = behind[0]? := by
      rw [List.getElem?_take_of_lt (Nat.lt_of_not_le hover), List.getElem?_append_right htp.le, htp,
        Nat.sub_self]
    have hfirst := hbyte (Arr.replicate usbMaxPacketSize 0).val
    rw [hqueued, hbyte] at hfirst
    exact absurd hfirst (by decide)
  · rintro ⟨hpos, hinside, hroom⟩
    refine ⟨fun _ r heq => ?_, fun stale stale' r r' heq heq' => ?_⟩
    · obtain rfl := Exit.returns.inj heq
      exact ⟨_, rfl, hpos, hroom⟩
    · obtain rfl := Exit.returns.inj heq
      obtain rfl := Exit.returns.inj heq'
      rw [queued_info (htp ▸ hinside), queued_info (htp ▸ hinside)]
      exact ⟨rfl, rfl⟩

theorem length_fillInfo (virtual : Option TouchpadVirtual) (tp : Bytes) :
    (fillInfo virtual tp).length = tp.length := by
  rw [fillInfo.eq_def]
  cases virtual with
  | none => rfl
  | some v =>
      dsimp only
      cases v.fullHash <;> simp

theorem sound_touchpadInfo_iff (virtual : Option TouchpadVirtual) :
    Sound device.space
        (fun stale => touchpadInfo device virtual data.length stale.behindInfo.val) ↔
      0 < device.space ∧ (data = [] →
        0 < device.touchpadInfo.2.toNat ∧ device.touchpadInfo.2.toNat ≤ touchpadInfoSize ∧
          device.touchpadInfo.2.toNat ≤ device.space) := by
  unfold touchpadInfo
  by_cases hdata : data = []
  swap
  · have hne : (data.length : Int) ≠ 0 := by
      exact_mod_cast mt List.length_eq_zero_iff.mp hdata
    simp only [if_pos hne, hdata, false_implies, and_true]
    exact sound_answer_iff _ _
  subst hdata
  obtain ⟨⟨tp, htp⟩, size⟩ := device.touchpadInfo
  simp only [List.length_nil, Nat.cast_zero, ne_eq, not_true, if_false, true_implies]
  have hfill : (fillInfo virtual tp).length = touchpadInfoSize :=
    (length_fillInfo virtual tp).trans htp
  by_cases hzero : size < 1
  · have hsize : size.toNat = 0 := by
      have := UInt32.lt_iff_toNat_lt.mp hzero
      exact Nat.lt_one_iff.mp this
    simp only [if_pos hzero, sound_message_iff, hsize]
    exact iff_of_false (fun h => Nat.lt_irrefl 0 h.1) fun h => Nat.lt_irrefl 0 h.2.1
  · simp only [if_neg hzero, sound_info_iff hfill]
    omega

theorem sound_touchpadDebug_iff (hdata : data.length < 2 ^ 32) :
    Sound device.space (fun _ => touchpadDebug device data.length data) ↔
      0 < device.space ∧ ((device.touchpadDebug data).1.toUInt8 = ecResSuccess →
        (device.touchpadDebug data).2.length ≤ device.space) := by
  rw [touchpadDebug, toUnsigned_natCast hdata, List.take_length]
  generalize device.touchpadDebug data = result
  obtain ⟨rv, written⟩ := result
  dsimp only
  by_cases hanswer : rv.toUInt8 ≠ ecResSuccess ∨ written.length = 0
  · rw [if_pos hanswer, sound_answer_iff]
    refine (and_iff_left fun hsuccess => ?_).symm
    rw [hanswer.resolve_left (not_not.mpr hsuccess)]
    exact Nat.zero_le _
  · rw [if_neg hanswer]
    push Not at hanswer
    obtain ⟨hsuccess, hsome⟩ := hanswer
    by_cases hroom : device.space < written.length
    · rw [if_pos hroom]
      refine iff_of_false ?_ fun h => absurd (h.2 hsuccess) (Nat.not_le.mpr hroom)
      rintro ⟨hone, -⟩
      obtain ⟨message, heq, -⟩ := hone ⟨Arr.replicate _ 0, 0, Arr.replicate _ 0⟩ _ rfl
      cases heq
    · rw [if_neg hroom, sound_message_iff]
      simp only [Message.size, List.map_cons, List.map_nil, List.sum_cons, List.sum_nil,
        Nat.add_zero, hsuccess, true_implies]
      omega

/-! ## The console's output -/

theorem length_copyLoop (u : TxState k) (room : Int) (rounds : Nat) (tail : Index k) (dest : Bytes)
    (hdest : (dest.length : Int) ≤ max 0 room) :
    ((u.copyLoop room rounds tail dest).2.length : Int) ≤ max 0 room := by
  induction rounds generalizing tail dest with
  | zero => exact hdest
  | succ rounds ih =>
      rw [TxState.copyLoop]
      split
      · rename_i hmore
        refine ih _ _ ?_
        split
        · rw [List.length_append, List.length_singleton]
          push_cast
          omega
        · exact hdest
      · exact hdest

/-- A read writes no more than it has room for, apart from the NUL. -/
theorem length_consoleRead (type : ConsoleRead) {size : Nat} (hsize : size < 2 ^ 16) :
    (device.uart.uartConsoleReadBuffer type (BitVec.ofNat 16 size)).1.length ≤ max 1 size := by
  have hloop (tail : Index k) := length_copyLoop device.uart ((BitVec.ofNat 16 size).toNat - 1)
    (2 ^ k) tail [] (by simp)
  have hnul {dest : Bytes}
      (hdest : (dest.length : Int) ≤ max 0 (((BitVec.ofNat 16 size).toNat : Int) - 1)) :
      (dest ++ [0]).length ≤ max 1 size := by
    rw [BitVec.toNat_ofNat, Nat.mod_eq_of_lt hsize] at hdest
    rw [List.length_append, List.length_singleton]
    omega
  rw [TxState.uartConsoleReadBuffer.eq_def]
  cases type with
  | next =>
      dsimp only
      split
      · exact Nat.zero_le _
      · exact hnul (hloop _)
  | recent =>
      dsimp only
      split
      · exact Nat.zero_le _
      · exact hnul (hloop _)

theorem length_consoleReadBuffer (type : UInt8) {size : Nat} (hsize : size < 2 ^ 16) :
    (consoleReadBuffer device type size).2.length ≤ max 1 size := by
  rw [consoleReadBuffer]
  dsimp only
  split
  · exact length_consoleRead device _ hsize
  · exact length_consoleRead device _ hsize
  · exact Nat.zero_le _

theorem sound_consoleReadNext_iff :
    Sound device.space (fun _ => consoleReadNext device data.length data) ↔ 0 < device.space := by
  rw [consoleReadNext]
  dsimp only
  split
  · exact sound_answer_iff _ _
  · have hlen := length_consoleReadBuffer device (data.headD 0)
      (Nat.lt_of_le_of_lt (Nat.min_le_left 64 device.space) (by decide))
    split
    · exact sound_answer_iff _ _
    · rename_i hsome
      have hpos := Nat.pos_of_ne_zero (not_or.mp hsome).2
      rw [sound_message_iff]
      simp only [Message.size, List.map_cons, List.map_nil, List.sum_cons, List.sum_nil]
      omega

/-- A subcommand with its data -/
theorem sound_runCommand_iff (hdata : data.length < 2 ^ 32) (command : Option ExtraCommand)
    (hreset : command ≠ some .immediateReset)
    (hjump : command = some .jumpToRw → config.rwsig = true ∨ device.jumpReturns = true) :
    Sound device.space (fun stale => runCommand config device stale data.length data command) ↔
      Answers config device data command := by
  match command with
  | none => exact sound_answer_iff _ _
  | some .immediateReset => exact absurd rfl hreset
  | some .jumpToRw => exact sound_jumpToRw_iff config device (hjump rfl)
  | some .stayInRo | some .consoleReadInit =>
      simp only [runCommand]
      split
      · exact sound_answer_iff _ _
      · exact sound_answer_iff _ _
  | some .unlockRw => exact sound_answer_iff _ _
  | some .unlockRollback =>
      simp only [runCommand]
      split
      · exact sound_answer_iff _ _
      · exact sound_answer_iff _ _
  | some .injectEntropy =>
      simp only [runCommand, Answers]
      split
      · rename_i secret hrollback
        cases hupdate : secret.update with
        | true =>
            simp only [if_true, sound_injectEntropy_iff, hrollback, Option.some.injEq,
              forall_eq', hupdate, true_implies]
        | false =>
            simp only [Bool.false_eq_true, if_false, sound_answer_iff, hrollback, Option.some.injEq,
              forall_eq', hupdate, false_implies, and_true]
      · rename_i hnone
        rw [sound_answer_iff]
        exact (and_iff_left fun secret hrollback => absurd hrollback (hnone secret)).symm
  | some .pairChallenge =>
      simp only [runCommand, Answers, toUnsigned_natCast hdata]
      split
      · rename_i secret hrollback
        cases hpairing : secret.pairing with
        | true =>
            by_cases hshort : data.length < pairChallengeSize
            · simp only [if_true, if_pos hshort, sound_answer_iff, hrollback, Option.some.injEq,
                forall_eq', hpairing, true_implies, Nat.not_le.mpr hshort, false_implies, and_true]
            · simp only [if_true, if_neg hshort, sound_pairChallenge_iff, hrollback,
                Option.some.injEq, forall_eq', hpairing, true_implies, Nat.not_lt.mp hshort]
        | false =>
            simp only [Bool.false_eq_true, if_false, sound_answer_iff, hrollback, Option.some.injEq,
              forall_eq', hpairing, false_implies, and_true]
      · rename_i hnone
        rw [sound_answer_iff]
        exact (and_iff_left fun secret hrollback => absurd hrollback (hnone secret)).symm
  | some .touchpadInfo =>
      simp only [runCommand, Answers]
      cases htouchpad : config.touchpad with
      | none => simp [sound_answer_iff]
      | some virtual =>
          rw [sound_touchpadInfo_iff]
          simp
  | some .touchpadDebug =>
      simp only [runCommand, Answers]
      cases htouchpad : config.touchpad with
      | none => simp [sound_answer_iff]
      | some virtual =>
          rw [sound_touchpadDebug_iff device hdata]
          simp
  | some .consoleReadNext =>
      simp only [runCommand]
      split
      · exact sound_consoleReadNext_iff device
      · exact sound_answer_iff _ _

end Commands

/-! ## Packets -/

section Packets

variable {k : Nat} (config : Config) (device : Device k) {packet : Bytes}

theorem decode_of_ge {n : Nat} (h : 11 ≤ n) : ExtraCommand.decode n = none := by
  unfold ExtraCommand.decode
  split <;> first | rfl | omega

/-- No subcommand has a first byte that is not zero. -/
theorem decode_subcommandOf_eq_none {buffer : Bytes} (h : buffer.getD frameHeaderSize 0 ≠ 0) :
    ExtraCommand.decode (subcommandOf buffer) = none := by
  have hpos : 0 < (buffer.getD frameHeaderSize 0).toNat :=
    Nat.pos_of_ne_zero fun hzero => h (UInt8.toNat_inj.mp hzero)
  rw [subcommandOf, decode_of_ge (by omega)]

theorem getD_commandBuffer_of_lt (stale : Stale) {i : Nat} (hi : i < packet.length) :
    (commandBuffer stale packet).getD i 0 = packet.getD i 0 := by
  rw [commandBuffer, List.getD_eq_getElem?_getD, List.getElem?_append_left hi,
    ← List.getD_eq_getElem?_getD]

theorem getD_commandBuffer_of_ge (stale : Stale) {i : Nat} (hi : packet.length ≤ i) :
    (commandBuffer stale packet).getD i 0 = stale.buffer.val.getD i 0 := by
  rw [commandBuffer, List.getD_eq_getElem?_getD, List.getElem?_append_right hi, List.getElem?_drop,
    Nat.add_sub_cancel' hi, ← List.getD_eq_getElem?_getD]

/-- The stack cannot choose the subcommand of these packets. -/
theorem decode_commandBuffer (h : Determined packet) (stale : Stale) :
    ExtraCommand.decode (subcommandOf (commandBuffer stale packet)) = commandOf packet := by
  obtain hlong | ⟨hshort, hbyte⟩ := h
  · unfold headerSize at hlong
    rw [commandOf, subcommandOf, subcommandOf, getD_commandBuffer_of_lt stale (by omega),
      getD_commandBuffer_of_lt stale (by omega)]
  · unfold headerSize at hshort
    have hfirst := getD_commandBuffer_of_lt stale (by omega : frameHeaderSize < packet.length)
    rw [commandOf, decode_subcommandOf_eq_none hbyte,
      decode_subcommandOf_eq_none (hfirst ▸ hbyte)]

/-- A stack whose bytes are zero, but for the one in the place of the subcommand's second -/
def staleWith (b : UInt8) : Stale where
  buffer := ⟨List.replicate 13 0 ++ b :: List.replicate 50 0, by simp; rfl⟩
  response := 0
  behindInfo := Arr.replicate _ 0

/-- The stack chooses the subcommand of the others. -/
theorem subcommandOf_staleWith (hlen : frameHeaderSize ≤ packet.length) (h : ¬Determined packet)
    (b : UInt8) : subcommandOf (commandBuffer (staleWith b) packet) = b.toNat := by
  unfold Determined headerSize at h
  push Not at h
  obtain ⟨hshort, hzero⟩ := h
  have hsecond : (commandBuffer (staleWith b) packet).getD (frameHeaderSize + 1) 0 = b := by
    rw [getD_commandBuffer_of_ge _ (by omega)]
    rfl
  have hfirst : (commandBuffer (staleWith b) packet).getD frameHeaderSize 0 = 0 := by
    by_cases hone : packet.length = frameHeaderSize + 1
    · rw [getD_commandBuffer_of_lt _ (by omega)]
      exact hzero (by omega)
    · rw [getD_commandBuffer_of_ge _ (by omega)]
      rfl
  rw [subcommandOf, hfirst, hsecond]
  simp

theorem not_sound_of_not_determined (hlen : frameHeaderSize ≤ packet.length)
    (h : ¬Determined packet) (space : Nat) :
    ¬Sound space fun stale => tryVendorCommand config device stale packet := by
  rintro ⟨-, hsame⟩
  have hunlock : tryVendorCommand config device (staleWith 3) packet =
      answer [.flashSetProtect ecFlashProtectRwAtBoot 0] ecResSuccess := by
    rw [tryVendorCommand, subcommandOf_staleWith hlen h]
    rfl
  have hinvalid : tryVendorCommand config device (staleWith 255) packet =
      answer [] ecResInvalidCommand := by
    rw [tryVendorCommand, subcommandOf_staleWith hlen h]
    rfl
  exact absurd (hsame _ _ _ _ hunlock hinvalid).1 (List.cons_ne_nil _ _)

/-- **The responses.**  For a vendor command that does not make the device reset or jump, exactly
one response is queued, and it and the effects do not depend on the stack, exactly when the packet
has its subcommand and that subcommand is answered. -/
theorem sound_tryVendorCommand_iff (hvendor : isVendorCommand packet = true)
    (hstays : ¬Leaves config device packet) :
    Sound device.space (fun stale => tryVendorCommand config device stale packet) ↔
      Determined packet ∧
        Answers config device (packet.drop headerSize) (commandOf packet) := by
  obtain ⟨hlen, hmax, -⟩ := of_decide_eq_true hvendor
  by_cases hdet : Determined packet
  swap
  · exact iff_of_false (not_sound_of_not_determined config device hlen hdet _) fun h => hdet h.1
  rw [and_iff_right hdet]
  have hcommand (stale : Stale) : tryVendorCommand config device stale packet =
      runCommand config device stale (packet.length - headerSize)
        ((commandBuffer stale packet).drop headerSize) (commandOf packet) := by
    rw [tryVendorCommand, decode_commandBuffer hdet]
  simp only [hcommand]
  by_cases hlong : headerSize ≤ packet.length
  · have hcount : (packet.length : Int) - headerSize = (packet.drop headerSize).length := by
      rw [List.length_drop]
      omega
    have hdata : (packet.drop headerSize).length < 2 ^ 32 := by
      rw [List.length_drop]
      unfold usbMaxPacketSize at hmax
      omega
    have hdrop (stale : Stale) : (commandBuffer stale packet).drop headerSize =
        packet.drop headerSize ++ stale.buffer.val.drop packet.length := by
      rw [commandBuffer, List.drop_append_of_le_length hlong]
    simp only [hcount, hdrop, runCommand_append config device _ hdata]
    refine sound_runCommand_iff config device hdata _ (fun hreset => ?_) fun hjump => ?_
    · exact hstays ⟨hlong, Or.inl hreset⟩
    · by_contra hnone
      rw [not_or, Bool.not_eq_true, Bool.not_eq_true] at hnone
      exact hstays ⟨hlong, Or.inr ⟨hjump, hnone⟩⟩
  · have hnone : commandOf packet = none :=
      decode_subcommandOf_eq_none (hdet.resolve_left hlong).2
    rw [hnone]
    exact sound_answer_iff _ _

end Packets

def testConfig : Config where
  rwsig := true
  rollback := none
  touchpad := none
  consoleRead := false

def testDevice : Device 7 where
  rwsigStatus := .valid
  jumpReturns := false
  secret := none
  hmacSha256 := fun _ _ => Arr.replicate 32 0
  x25519PublicFromPrivate := fun _ => Arr.replicate 32 0
  x25519 := fun _ _ => Arr.replicate 32 0
  touchpadInfo := (Arr.replicate 50 0, 50)
  touchpadDebug := fun _ => (0, [])
  uart := TxState.init 7
  space := 64

/-- A frame of these many bytes, with the subcommand `UPDATE_EXTRA_CMD_UNLOCK_RW` if it has one -/
def unlockFrame (count : UInt8) (subcommand : Bytes) : Bytes :=
  [0, 0, 0, count, 0, 0, 0, 0, 0xb0, 0x07, 0xab, 0x1f] ++ subcommand

theorem sound_tryVendorCommand_iff_unlock :
    Sound testDevice.space
        (fun stale => tryVendorCommand testConfig testDevice stale (unlockFrame 14 [0, 3])) ↔
      Determined (unlockFrame 14 [0, 3]) ∧
        Answers testConfig testDevice ((unlockFrame 14 [0, 3]).drop headerSize)
          (commandOf (unlockFrame 14 [0, 3])) :=
  sound_tryVendorCommand_iff testConfig testDevice (by decide +kernel)
    fun h => h.2.elim (fun hreset => absurd hreset (by decide))
      fun hjump => absurd hjump.1 (by decide)

/-- A frame without a subcommand: what the stack holds is the subcommand. -/
theorem unsound_unlockFrame :
    isVendorCommand (unlockFrame 12 []) = true ∧
      ¬Leaves testConfig testDevice (unlockFrame 12 []) ∧
      ¬Sound testDevice.space
        (fun stale => tryVendorCommand testConfig testDevice stale (unlockFrame 12 [])) := by
  refine ⟨by decide +kernel, fun h => absurd h.1 (by decide), ?_⟩
  refine not_sound_of_not_determined testConfig testDevice (by decide) ?_ _
  rintro (hlong | ⟨hone, -⟩)
  · exact absurd hlong (by decide)
  · exact absurd hone (by decide)

end Vendor
end FwUpdate
end CrosEc
