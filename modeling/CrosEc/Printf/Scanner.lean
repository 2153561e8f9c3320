import CrosEc.Printf.Model

/-!
# Where the format ends

Every character that the scanner takes for a part of a directive is one that it has looked at, and
none of them is the NUL: flags, widths and conversions that the format ends in are an error, and
the text of the error is put out in their place.  The exception is the character behind a `%`.  If
it is the NUL, a `%` is put out and the scanner goes on behind the NUL.
-/

namespace CrosEc
namespace Printf

open Lib Util

variable {α γ : Type} {config : Config} {va : VaList α} {addchar : γ → BitVec 32 → Bool × γ}
  {c : UInt8} {s format format' : Bytes} {args args' : α} {directive : Directive}

/-! ## Formats -/

/-- A string that ends with its NUL. -/
def Terminated (s : Bytes) : Prop := ∃ text, 0 ∉ text ∧ s = text ++ [0]

/-- The character read last, with what follows it: the NUL, or a character of the string. -/
def Live (c : UInt8) (s : Bytes) : Prop := (c = 0 ∧ s = []) ∨ (c ≠ 0 ∧ Terminated s)

theorem Live.terminated (h : Live c s) (hc : c ≠ 0) : Terminated s := by
  rcases h with ⟨hzero, -⟩ | ⟨-, hs⟩
  · exact absurd hzero hc
  · exact hs

/-- The next character of a string is there. -/
theorem Terminated.next_eq (h : Terminated s) :
    ∃ c rest, s = c :: rest ∧ next s = some (c, rest) ∧ Live c rest := by
  obtain ⟨text, hzero, rfl⟩ := h
  cases text with
  | nil => exact ⟨0, [], rfl, rfl, .inl ⟨rfl, rfl⟩⟩
  | cons c text =>
      obtain ⟨hc, htext⟩ := not_or.mp (List.mem_cons.not.mp hzero)
      exact ⟨c, text ++ [0], rfl, rfl, .inr ⟨Ne.symm hc, text, htext, rfl⟩⟩

/-! ## The parts of a directive -/

theorem scanFlag_live {flag : UInt8} (hflag : flag ≠ 0) (h : Live c s) :
    ∃ set c' s', scanFlag flag c s = some (set, c', s') ∧ Live c' s' ∧ s'.length ≤ s.length := by
  rw [scanFlag]
  split
  · rename_i hc
    obtain ⟨c', rest, rfl, hnext, hlive⟩ := (h.terminated (hc ▸ hflag)).next_eq
    exact ⟨true, c', rest, by rw [hnext]; rfl, hlive, Nat.le_succ _⟩
  · exact ⟨false, c, s, rfl, h, le_rfl⟩

theorem isDigit_zero : isDigit 0 = false := by decide

theorem scanDigits_live (width : BitVec 32) (h : Live c s) :
    ∃ width' c' s', scanDigits width c s = some (width', c', s') ∧ Live c' s' ∧
      s'.length ≤ s.length := by
  induction s generalizing c width with
  | nil =>
      have hc : c = 0 := by
        rcases h with ⟨hc, -⟩ | ⟨-, text, -, hs⟩
        · exact hc
        · exact absurd hs (List.append_ne_nil_of_right_ne_nil text (List.cons_ne_nil 0 [])).symm
      rw [scanDigits, hc, isDigit_zero, if_neg Bool.false_ne_true]
      exact ⟨width, 0, [], rfl, .inl ⟨rfl, rfl⟩, le_rfl⟩
  | cons c' rest ih =>
      rw [scanDigits]
      split
      · rename_i hdigit
        have hc : c ≠ 0 := fun hzero => by
          rw [hzero, isDigit_zero] at hdigit
          cases hdigit
        obtain ⟨_, _, heq, -, hlive⟩ := (h.terminated hc).next_eq
        obtain ⟨rfl, rfl⟩ := List.cons.inj heq
        obtain ⟨width', c', s', hscan, hlive, hlen⟩ := ih _ hlive
        exact ⟨width', c', s', hscan, hlive, hlen.trans (Nat.le_succ _)⟩
      · exact ⟨width, c, c' :: rest, rfl, h, le_rfl⟩

theorem scanWidth_live (va : VaList α) (args : α) (h : Live c s) :
    ∃ width c' s' args', scanWidth va c s args = some (width, c', s', args') ∧ Live c' s' ∧
      s'.length ≤ s.length := by
  rw [scanWidth]
  split
  · rename_i hc
    obtain ⟨c', rest, rfl, hnext, hlive⟩ := (h.terminated (hc ▸ by decide)).next_eq
    exact ⟨_, c', rest, _, by rw [hnext]; rfl, hlive, Nat.le_succ _⟩
  · obtain ⟨width, c', s', hscan, hlive, hlen⟩ := scanDigits_live 0#32 h
    exact ⟨width, c', s', args, by rw [hscan]; rfl, hlive, hlen⟩

theorem scanPrecision_live (va : VaList α) (args : α) (h : Live c s) :
    ∃ precision c' s' args', scanPrecision va c s args = some (precision, c', s', args') ∧
      Live c' s' ∧ s'.length ≤ s.length := by
  rw [scanPrecision]
  split
  · rename_i hc
    obtain ⟨c', rest, rfl, hnext, hlive⟩ := (h.terminated (hc ▸ by decide)).next_eq
    obtain ⟨precision, c', s', args', hscan, hlive, hlen⟩ := scanWidth_live va args hlive
    exact ⟨precision, c', s', args', by rw [hnext]; exact hscan, hlive, hlen.trans (Nat.le_succ _)⟩
  · exact ⟨0#32, c, s, args, rfl, h, le_rfl⟩

/-! ## A directive -/

/-- The NUL is no conversion. -/
theorem convert_zero (config : Config) (flags : Flags) (v : BitVec 64) :
    convert config 0 flags v = none := by
  have hd : ¬ (0 : UInt8) = 'd'.toUInt8 := by decide
  have hu : ¬ ((0 : UInt8) = 'u'.toUInt8 ∨ (0 : UInt8) = 'T'.toUInt8) := by decide
  have hx : ¬ ((0 : UInt8) = 'X'.toUInt8 ∨ (0 : UInt8) = 'x'.toUInt8 ∨
    (0 : UInt8) = 'p'.toUInt8) := by decide
  have hb : ¬ (0 : UInt8) = 'b'.toUInt8 := by decide
  rw [convert, if_neg (fun hi => absurd hi.2 (by decide)), if_neg hd, if_neg hu, if_neg hx,
    if_neg hb]

/-- What is left of a format after a directive that it does not end in: a part of it, or the text
of the error. -/
def Remains (s : Bytes) (result : Option (Directive × Bytes × α)) : Prop :=
  ∃ directive s' args', result = some (directive, s', args') ∧
    (Terminated s' ∧ s'.length ≤ s.length ∨ directive = .error ∧ s' = errorStr)

theorem Remains.mono {t : Bytes} {result : Option (Directive × Bytes × α)} (h : Remains t result)
    (hlen : t.length ≤ s.length) : Remains s result := by
  obtain ⟨directive, s', args', heq, hrest⟩ := h
  refine ⟨directive, s', args', heq, hrest.imp_left fun hrest => ?_⟩
  exact ⟨hrest.1, hrest.2.trans hlen⟩

theorem remains_error : Remains s (some (Directive.error, errorStr, args)) :=
  ⟨.error, errorStr, args, rfl, .inr ⟨rfl, rfl⟩⟩

theorem scanNumber_remains (config : Config) (va : VaList α) (flags : Flags)
    (padWidth precision : Nat) (args : α) (h : Live c s) :
    Remains s (scanNumber config va flags padWidth precision c s args) := by
  obtain ⟨is64bit, c', s', hflag, hlive, hlen⟩ := scanFlag_live (show 'l'.toUInt8 ≠ 0 by decide) h
  rw [scanNumber, hflag]
  dsimp only [Option.bind_eq_bind, Option.bind_some]
  split
  · rename_i n hconvert
    have hc : c' ≠ 0 := fun hzero => by
      rw [hzero, convert_zero] at hconvert
      cases hconvert
    exact ⟨_, s', _, rfl, .inl ⟨hlive.terminated hc, hlen⟩⟩
  · exact remains_error

theorem scanConversion_remains (config : Config) (va : VaList α) (flags : Flags)
    (padWidth precision : Nat) (args : α) (h : Live c s) :
    Remains s (scanConversion config va flags padWidth precision c s args) := by
  rw [scanConversion]
  split
  · rename_i hc
    exact ⟨_, s, _, rfl, .inl ⟨h.terminated (hc ▸ by decide), le_rfl⟩⟩
  · split
    · rename_i hc
      dsimp only
      split
      · exact remains_error
      · exact ⟨_, s, _, rfl, .inl ⟨h.terminated (hc ▸ by decide), le_rfl⟩⟩
    · exact scanNumber_remains config va flags padWidth precision args h

theorem scanWidths_remains (config : Config) (va : VaList α) (flags : Flags) (args : α)
    (h : Live c s) : Remains s (scanWidths config va flags c s args) := by
  obtain ⟨padWidth, c₁, s₁, args₁, hwidth, hlive₁, hlen₁⟩ := scanWidth_live va args h
  rw [scanWidths, hwidth]
  dsimp only [Option.bind_eq_bind, Option.bind_some]
  split
  · exact remains_error
  · obtain ⟨precision, c₂, s₂, args₂, hprecision, hlive₂, hlen₂⟩ :=
      scanPrecision_live va args₁ hlive₁
    rw [hprecision]
    dsimp only [Option.bind_some]
    split
    · exact remains_error
    · exact (scanConversion_remains config va flags _ _ args₂ hlive₂).mono (hlen₂.trans hlen₁)

theorem scanFlags_remains (config : Config) (va : VaList α) (args : α) (h : Live c s) :
    Remains s (scanFlags config va c s args) := by
  obtain ⟨left, c₁, s₁, hleft, hlive₁, hlen₁⟩ := scanFlag_live (show '-'.toUInt8 ≠ 0 by decide) h
  obtain ⟨sign, c₂, s₂, hsign, hlive₂, hlen₂⟩ := scanFlag_live (show '+'.toUInt8 ≠ 0 by decide) hlive₁
  obtain ⟨padzero, c₃, s₃, hpadzero, hlive₃, hlen₃⟩ :=
    scanFlag_live (show '0'.toUInt8 ≠ 0 by decide) hlive₂
  rw [scanFlags, hleft]
  dsimp only [Option.bind_eq_bind, Option.bind_some]
  rw [hsign]
  dsimp only [Option.bind_some]
  rw [hpadzero]
  exact (scanWidths_remains config va _ args hlive₃).mono (hlen₃.trans (hlen₂.trans hlen₁))

/-- **One directive.**  A part of the format or the text of the error is left, but for a `%` before
the NUL. -/
theorem scan_remains (config : Config) (va : VaList α) (args : α) (h : Terminated s)
    (hstray : ¬ (c = '%'.toUInt8 ∧ s = [0])) : Remains s (scan config va c s args) := by
  rw [scan]
  split
  · exact ⟨_, s, args, rfl, .inl ⟨h, le_rfl⟩⟩
  · rename_i hpercent
    obtain ⟨c', rest, rfl, hnext, hlive⟩ := h.next_eq
    have hc' : c' ≠ 0 := by
      rintro rfl
      rcases hlive with ⟨-, rfl⟩ | ⟨hzero, -⟩
      · exact hstray ⟨not_not.mp hpercent, rfl⟩
      · exact hzero rfl
    rw [hnext]
    dsimp only [Option.bind_eq_bind, Option.bind_some]
    split
    · exact ⟨_, rest, args, rfl, .inl ⟨hlive.terminated hc', Nat.le_succ _⟩⟩
    · split
      · exact ⟨_, rest, _, rfl, .inl ⟨hlive.terminated hc', Nat.le_succ _⟩⟩
      · exact (scanFlags_remains config va args hlive).mono (Nat.le_succ _)

/-! ## The whole format -/

/-- The scanner gets from one place to another, over directives that are scanned. -/
inductive Reaches (config : Config) (va : VaList α) : Bytes → α → Bytes → α → Prop where
  | here (s : Bytes) (args : α) : Reaches config va s args s args
  | step {c : UInt8} {s s' t : Bytes} {args args' args'' : α} {directive : Directive} (hc : c ≠ 0)
      (hscan : scan config va c s args = some (directive, s', args'))
      (hrest : Reaches config va s' args' t args'') : Reaches config va (c :: s) args t args''

/-- The scanner gets to a `%` that the format ends in. -/
def StrayPercent (config : Config) (va : VaList α) (s : Bytes) (args : α) : Prop :=
  ∃ args', Reaches config va s args ['%'.toUInt8, 0] args'

/-- A text without `%` is put out, or dropped. -/
theorem returns_of_plain (config : Config) (va : VaList α) (addchar : γ → BitVec 32 → Bool × γ)
    (text : Bytes) (hzero : 0 ∉ text) (hplain : '%'.toUInt8 ∉ text) {fuel : Nat}
    (hfuel : text.length < fuel) (context : γ) (args : α) :
    ∃ rv, (vfnprintf config va addchar fuel context (text ++ [0]) args).ending = .returned rv := by
  induction text generalizing fuel context with
  | nil =>
      obtain ⟨fuel, rfl⟩ : ∃ f, fuel = f + 1 := ⟨fuel - 1, by omega⟩
      exact ⟨ecSuccess, rfl⟩
  | cons c text ih =>
      obtain ⟨fuel, rfl⟩ : ∃ f, fuel = f + 1 := ⟨fuel - 1, by omega⟩
      obtain ⟨hc, hzero⟩ := not_or.mp (List.mem_cons.not.mp hzero)
      obtain ⟨hp, hplain⟩ := not_or.mp (List.mem_cons.not.mp hplain)
      have hscan : scan config va c (text ++ [0]) args =
          some (.plain (charInt c), text ++ [0], args) := if_pos (Ne.symm hp)
      rw [List.cons_append, vfnprintf, if_neg (Ne.symm hc), hscan]
      dsimp only
      split
      · exact ⟨ecErrorOverflow, rfl⟩
      · exact ih hzero hplain (Nat.lt_of_succ_lt_succ hfuel) _

/-- A format in which the scanner gets to no stray `%` is left with a code. -/
theorem returns_of_not_stray (addchar : γ → BitVec 32 → Bool × γ) {fuel : Nat}
    (hs : Terminated s) (hstray : ¬ StrayPercent config va s args) (hfuel : s.length + 6 ≤ fuel)
    (context : γ) :
    ∃ rv, (vfnprintf config va addchar fuel context s args).ending = .returned rv := by
  induction fuel generalizing s args context with
  | zero => exact absurd hfuel (by omega)
  | succ fuel ih =>
      obtain ⟨c, rest, rfl, -, hlive⟩ := hs.next_eq
      rw [vfnprintf]
      split
      · exact ⟨ecSuccess, rfl⟩
      rename_i hc
      have hpercent : ¬ (c = '%'.toUInt8 ∧ rest = [0]) := by
        rintro ⟨rfl, rfl⟩
        exact hstray ⟨args, .here _ _⟩
      obtain ⟨directive, s', args', hscan, hremains⟩ :=
        scan_remains config va args (hlive.terminated hc) hpercent
      rw [hscan]
      dsimp only
      split
      · exact ⟨ecErrorOverflow, rfl⟩
      rename_i context' _
      rw [List.length_cons] at hfuel
      rcases hremains with ⟨hs', hlen⟩ | ⟨-, rfl⟩
      · exact ih hs' (fun ⟨args'', hreach⟩ => hstray ⟨args'', .step hc hscan hreach⟩)
          (by omega) context'
      · exact returns_of_plain config va addchar
          ['E'.toUInt8, 'R'.toUInt8, 'R'.toUInt8, 'O'.toUInt8, 'R'.toUInt8]
          (by decide) (by decide) (show 5 < fuel by omega) context' args'

/-- A context that takes every character. -/
def takeAll (_ : Unit) (_ : BitVec 32) : Bool × Unit := (false, ())

theorem addAll_takeAll (cs : List (BitVec 32)) : addAll takeAll cs () = (false, ()) := by
  induction cs with
  | nil => rfl
  | cons c cs ih => exact ih

/-- A run that is left with a code gets from wherever the scanner comes to a code. -/
theorem Reaches.returns {t : Bytes} {fuel : Nat} {rv : Code}
    (h : Reaches config va s args t args')
    (hrun : (vfnprintf config va takeAll fuel () s args).ending = .returned rv) :
    ∃ fuel, (vfnprintf config va takeAll fuel () t args').ending = .returned rv := by
  induction h generalizing fuel with
  | here s args => exact ⟨fuel, hrun⟩
  | step hc hscan _ ih =>
      cases fuel with
      | zero => cases hrun
      | succ fuel =>
          rw [vfnprintf, if_neg hc, hscan] at hrun
          dsimp only at hrun
          rw [addAll_takeAll] at hrun
          exact ih hrun

/-- A `%` that the format ends in is put out, and the next byte is read behind the format. -/
theorem not_returns_stray (config : Config) (va : VaList α) (fuel : Nat) (args : α) (rv : Code) :
    (vfnprintf config va takeAll fuel () ['%'.toUInt8, 0] args).ending ≠ .returned rv := by
  cases fuel with
  | zero => exact Ending.noConfusion
  | succ fuel =>
      have hpast : (vfnprintf config va takeAll fuel () [] args).ending ≠ .returned rv := by
        cases fuel <;> exact Ending.noConfusion
      exact hpast

/-- A format: no character of it is the NUL. -/
abbrev Format := { text : Bytes // 0 ∉ text }

/-- The bytes of a format, with its NUL. -/
def Format.bytes (format : Format) : Bytes := format.val ++ [0]

/-- `vfnprintf` reads no byte behind the format, and is left, whatever takes its characters. -/
def StopsAtEnd (config : Config) (va : VaList α) (format : Format) (args : α) : Prop :=
  ∀ (γ : Type) (addchar : γ → BitVec 32 → Bool × γ) (context : γ) (fuel : Nat),
    format.bytes.length + 6 ≤ fuel →
      ∃ rv, (vfnprintf config va addchar fuel context format.bytes args).ending = .returned rv

/-- **The scanner stops at the end of the format**, exactly when it gets to no `%` that the format
ends in. -/
theorem stopsAtEnd_iff (config : Config) (va : VaList α) (format : Format) (args : α) :
    StopsAtEnd config va format args ↔ ¬ StrayPercent config va format.bytes args := by
  constructor
  · rintro hstops ⟨args', hreach⟩
    obtain ⟨rv, hrun⟩ := hstops Unit takeAll () _ le_rfl
    obtain ⟨fuel, hstray⟩ := hreach.returns hrun
    exact not_returns_stray config va fuel args' rv hstray
  · intro hstray γ addchar context fuel hfuel
    exact returns_of_not_stray addchar ⟨format.val, format.property, rfl⟩ hstray hfuel context

/-- The format `"%"`. -/
theorem not_stopsAtEnd_percent :
    ¬ ∀ (config : Config) (va : VaList Unit) (format : Format), StopsAtEnd config va format () := by
  intro hstops
  obtain ⟨rv, hrun⟩ := hstops ⟨false, false⟩
    ⟨fun _ => (0, ()), fun _ => (0, ()), fun _ => (0, ()), fun _ => (none, ()),
      fun _ => (fun _ => 0, ()), fun _ => (0, ())⟩
    ⟨['%'.toUInt8], by decide⟩ Unit takeAll () _ le_rfl
  exact not_returns_stray _ _ _ _ rv hrun

end Printf
end CrosEc
