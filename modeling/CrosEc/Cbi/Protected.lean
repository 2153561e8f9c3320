import CrosEc.Cbi.Reload

/-!
# `common/cbi.c`: the protected fields

On a locked system `hc_cbi_set` refuses to set `CBI_TAG_BOARD_VERSION` and `CBI_TAG_OEM_ID`.  Two
kinds of commands get around the check: `CBI_SET_INIT` with another tag throws the fields away,
and a tag whose low byte is that of a protected field passes the check of the whole tag.  And an
image that is not a sequence of items can be parsed anew when something is appended to it.

In a run that begins with a proper image and has no such command the fields stay what they are.
-/

namespace CrosEc
namespace Cbi

open Lib

/-- A bus that works. -/
def busOk : ReadIo := ⟨true, true⟩

/-- What `cbi_get_board_info` reports for a tag, given a buffer. -/
def report (s : State) (tag : Nat) (buf : Bytes) : Option GetResult :=
  (cbiGetBoardInfo busOk busOk tag buf s).map Prod.fst

/-- The tags of the protected fields. -/
def protectedTags : List Nat := [cbiTagBoardVersion.toNat, cbiTagOemId.toNat]

/-- No field with this tag is reported. -/
def absent (s : State) (tag : Nat) : Bool :=
  let (code, s) := readBoardInfo busOk busOk s
  code ≠ ecSuccess || cbiFindTag s.cbi tag = some none

/-- A command that is refused, or one that keeps to its own field: it begins a new image only if
there is no protected field, and its tag does not end in the byte of one.  The EEPROM can be
read. -/
def harmless (cfg : Config) (s : State) (p : SetParams) (io : SetIo) : Bool :=
  refused cfg p io ||
    ((p.flag &&& cbiSetInit = 0 || protectedTags.all (absent s)) &&
      !protectedTags.contains (p.tag.toNat % 256) &&
      io.read = busOk && io.retry = busOk)

/-- A run of set commands. -/
def commands (cfg : Config) : List (SetParams × SetIo) → State → Option State
  | [], s => some s
  | c :: cs, s =>
      match hcCbiSet cfg c.1 c.2 s with
      | none => none
      | some (_, s') => commands cfg cs s'

/-- Every command of the run is harmless in the state before it. -/
def harmlessRun (cfg : Config) : List (SetParams × SetIo) → State → Bool
  | [], _ => true
  | c :: cs, s =>
      harmless cfg s c.1 c.2 &&
        match hcCbiSet cfg c.1 c.2 s with
        | none => false
        | some (_, s') => harmlessRun cfg cs s'

/-- The items of a proper image: those of the protected fields have a value. -/
def FieldsNonempty (its : List Item) : Prop :=
  ∀ x ∈ its, x.tag.toNat ∈ protectedTags → x.value.val ≠ []

/-- **A proper image**, if there is one: what the board information is read from is a sequence
of items. -/
def Proper (s : State) (its : List Item) : Prop :=
  ((readBoardInfo busOk busOk s).1 ≠ ecSuccess ∧ its = []) ∨
    ((readBoardInfo busOk busOk s).1 = ecSuccess ∧ Ready (readBoardInfo busOk busOk s).2 its ∧
      FieldsNonempty its)

/-! ## What is reported -/

theorem Proper.report_eq {s : State} {its : List Item} (h : Proper s its) {tag : Nat}
    (htag : tag ∈ protectedTags) (buf : Bytes) :
    report s tag buf = some (answer buf (valueOf its tag)) := by
  rcases h with ⟨hcode, rfl⟩ | ⟨hcode, hready, hvalues⟩
  · simp only [report, cbiGetBoardInfo, if_pos hcode]
    rfl
  · simp only [report, cbiGetBoardInfo, hcode, ne_eq, not_true_eq_false, if_false]
    rw [getFromImage_eq hready.holds fun x hx hxt => hvalues x hx (hxt ▸ htag)]
    rfl

theorem Proper.valueOf_absent {s : State} {its : List Item} (h : Proper s its) {tag : Nat}
    (htag : tag ∈ protectedTags) (habsent : absent s tag = true) : valueOf its tag = none := by
  rcases h with ⟨hcode, rfl⟩ | ⟨hcode, hready, hvalues⟩
  · rfl
  · simp only [absent, hcode, ne_eq, not_true_eq_false, decide_false, Bool.false_or,
      decide_eq_true_eq] at habsent
    rcases cbiFindTag_cases hready.holds tag with ⟨-, hempty⟩ | ⟨before, it, after, -, -, -, hfind⟩
    · exact valueOf_eq_none fun x hx hxt => hvalues x hx (hxt ▸ htag) (hempty x hx hxt)
    · rw [habsent] at hfind
      cases hfind

/-! ## Reading once -/

theorem doReadBoardInfo_code_ne (io : ReadIo) (eeprom : Blob cbiEepromSize) (cbi : Image) :
    (doReadBoardInfo io eeprom cbi).1 ≠ ecErrorCbiCacheInvalid := by
  have hinval : ecErrorInval ≠ ecErrorCbiCacheInvalid := by decide
  have hoverflow : ecErrorOverflow ≠ ecErrorCbiCacheInvalid := by decide
  have hsuccess : ecSuccess ≠ ecErrorCbiCacheInvalid := by decide
  simp only [doReadBoardInfo]
  repeat' split
  all_goals assumption

/-- A second read finds the result of the first one. -/
theorem readBoardInfo_again (io io' jo jo' : ReadIo) (s : State) :
    readBoardInfo jo jo' (readBoardInfo io io' s).2 = readBoardInfo io io' s := by
  suffices hcached : (readBoardInfo io io' s).2.cachedReadResult = (readBoardInfo io io' s).1 ∧
      (readBoardInfo io io' s).1 ≠ ecErrorCbiCacheInvalid by
    rw [readBoardInfo, if_neg (hcached.1 ▸ hcached.2), hcached.1]
  rw [readBoardInfo]
  split
  · refine ⟨rfl, ?_⟩
    show (if (doReadBoardInfo io s.eeprom s.cbi).1 ≠ ecSuccess then
      doReadBoardInfo io' s.eeprom (doReadBoardInfo io s.eeprom s.cbi).2
      else doReadBoardInfo io s.eeprom s.cbi).1 ≠ _
    split <;> exact doReadBoardInfo_code_ne _ _ _
  · next h => exact ⟨rfl, h⟩

theorem Ready.proper {s : State} {its : List Item} (h : Ready s its) (hvalues : FieldsNonempty its) :
    Proper s its := by
  have hread : readBoardInfo busOk busOk s = (ecSuccess, s) := by
    rw [readBoardInfo, if_neg (by rw [h.cached]; decide), h.cached]
  rw [Proper, hread]
  exact .inr ⟨rfl, h, hvalues⟩

/-! ## Commands -/

variable {cfg : Config}

/-- The byte that a command stores as its tag is the low byte of the tag it was sent. -/
theorem toNat_cbiTag_mod (p : SetParams) : (p.cbiTag cfg).toNat % 256 = p.tag.toNat % 256 := by
  have hdvd : 256 ∣ 2 ^ cfg.tagBits := pow_dvd_pow 2 cfg.tagBits_ge
  rw [SetParams.cbiTag, BitVec.toNat_ofNat, Nat.mod_mod_of_dvd _ hdvd]

theorem protectedTags_lt {t : Nat} (h : t ∈ protectedTags) : t < 256 := by
  have hall : ∀ t ∈ protectedTags, t < 256 := by decide
  exact hall t h

/-- The call of a harmless command is about other tags. -/
theorem other_tags (cfg : Config) {p : SetParams} (h : p.tag.toNat % 256 ∉ protectedTags) {t : Nat}
    (ht : t ∈ protectedTags) :
    t ≠ (p.cbiTag cfg).toNat ∧ t ≠ (UInt8.ofNat (p.cbiTag cfg).toNat).toNat := by
  have hmod : t ≠ (p.cbiTag cfg).toNat % 256 := by
    rw [toNat_cbiTag_mod]
    rintro rfl
    exact h ht
  constructor
  · intro heq
    rw [← heq, Nat.mod_eq_of_lt (protectedTags_lt ht)] at hmod
    exact hmod rfl
  · rw [UInt8.toNat_ofNat']
    exact hmod

/-- **Step lemma.** A harmless command keeps the image proper and the fields as they are. -/
theorem Proper.hcCbiSet {s : State} {its : List Item} (h : Proper s its) {p : SetParams}
    {io : SetIo} (hharmless : harmless cfg s p io = true) :
    ∃ rc s' its', hcCbiSet cfg p io s = some (rc, s') ∧ Proper s' its' ∧
      ∀ t ∈ protectedTags, valueOf its' t = valueOf its t := by
  by_cases hgo : refused cfg p io
  · exact ⟨_, s, its, hcCbiSet_refused s hgo, h, fun _ _ => rfl⟩
  · rw [Bool.not_eq_true] at hgo
    simp only [harmless, hgo, Bool.false_or, Bool.and_eq_true, Bool.or_eq_true, decide_eq_true_eq,
      List.all_eq_true, Bool.not_eq_true', List.contains_eq_mem, decide_eq_false_iff_not] at hharmless
    obtain ⟨⟨⟨hinit, htag⟩, hread⟩, hretry⟩ := hharmless
    -- the call on the items that the command finds
    have hcall : ∀ its0, (loadOrInit p io s).1 = ecSuccess → Ready (loadOrInit p io s).2 its0 →
        FieldsNonempty its0 → (∀ t ∈ protectedTags, valueOf its0 t = valueOf its t) →
        ∃ rc s' its', Cbi.hcCbiSet cfg p io s = some (rc, s') ∧ Proper s' its' ∧
          ∀ t ∈ protectedTags, valueOf its' t = valueOf its t := by
      intro its0 hload hready hvalues hsame
      obtain ⟨code, cbi, its', rc, s', -, hout, hstep, hready', -⟩ :=
        hcCbiSet_image hgo hload hready
      refine ⟨rc, s', its', hstep, hready'.proper fun x hx hxt => ?_, fun t ht => ?_⟩
      · obtain ⟨hne, hbyte⟩ := other_tags cfg htag hxt
        exact hvalues x (hout.mem_other hx hne hbyte) hxt
      · obtain ⟨hne, hbyte⟩ := other_tags cfg htag ht
        rw [hout.valueOf_other hne hbyte, hsame t ht]
    by_cases hflag : p.flag &&& cbiSetInit = 0
    · have hload : loadOrInit p io s = readBoardInfo busOk busOk s := by
        rw [loadOrInit, if_neg (not_not.2 hflag), hread, hretry]
      rcases h with ⟨hcode, rfl⟩ | ⟨hcode, hready, hvalues⟩
      · -- the EEPROM was not accepted
        refine ⟨ecResError, (readBoardInfo busOk busOk s).2, [], ?_, ?_, fun _ _ => rfl⟩
        · rw [hcCbiSet_eq hgo, hload, if_pos hcode]
        · left
          rw [readBoardInfo_again]
          exact ⟨hcode, rfl⟩
      · exact hcall its (by rw [hload, hcode]) (by rw [hload]; exact hready) hvalues fun _ _ => rfl
    · have hload : loadOrInit p io s =
          (ecSuccess, { s with cbi := initImage, cachedReadResult := ecSuccess }) := by
        rw [loadOrInit, if_pos hflag]
      have hgone : ∀ t ∈ protectedTags, valueOf [] t = valueOf its t := fun t ht =>
        (h.valueOf_absent ht (hinit.resolve_left hflag t ht)).symm
      exact hcall [] (by rw [hload]) (by rw [hload]; exact ⟨rfl, rfl, holds_initImage⟩)
        (fun x hx => absurd hx List.not_mem_nil) hgone

/-- **Run lemma.** -/
theorem Proper.commands {cs : List (SetParams × SetIo)} {s : State} {its : List Item}
    (h : Proper s its) (hs : harmlessRun cfg cs s = true) :
    ∃ s' its', commands cfg cs s = some s' ∧ Proper s' its' ∧
      ∀ t ∈ protectedTags, valueOf its' t = valueOf its t := by
  induction cs generalizing s its with
  | nil => exact ⟨s, its, rfl, h, fun _ _ => rfl⟩
  | cons c cs ih =>
      rw [harmlessRun, Bool.and_eq_true] at hs
      obtain ⟨rc, s', its', hstep, hproper, hsame⟩ := h.hcCbiSet hs.1
      have hrest := hs.2
      rw [hstep] at hrest
      obtain ⟨s'', its'', hrun, hproper', hsame'⟩ := ih hproper hrest
      refine ⟨s'', its'', ?_, hproper', fun t ht => (hsame' t ht).trans (hsame t ht)⟩
      rw [Cbi.commands, hstep]
      exact hrun

/-- **The protected fields of a locked system stay what they are**, in every run of set commands
that begins with a proper image and has harmless commands only. -/
theorem protected_fields_kept (start : State) (its : List Item) (hstart : Proper start its)
    (cs : List (SetParams × SetIo)) (hs : harmlessRun cfg cs start = true) :
    ∃ s, commands cfg cs start = some s ∧
      ∀ t ∈ protectedTags, ∀ buf, report s t buf = report start t buf := by
  obtain ⟨s, its', hrun, hproper, hsame⟩ := hstart.commands hs
  refine ⟨s, hrun, fun t ht buf => ?_⟩
  rw [hproper.report_eq ht, hstart.report_eq ht, hsame t ht]

theorem length_erased : (List.replicate 256 (0xff : UInt8)).length = 256 := List.length_replicate

/-- An image with an OEM id and nothing else, loaded from an EEPROM that was erased since. -/
def oemState : State where
  cbi := ⟨⟨cbiMagic, 0, 0, 0, 11⟩, ⟨[1, 1, 9] ++ List.replicate 245 0, by
    rw [List.length_append, List.length_replicate]
    rfl⟩⟩
  cachedReadResult := ecSuccess
  eeprom := ⟨List.replicate 256 0xff, length_erased⟩

/-- A command that sets one byte. -/
def setByte (tag flag : UInt32) : SetParams × SetIo :=
  (⟨tag, flag, 1, fun _ => 7⟩, ⟨false, busOk, busOk, false, fun _ => ecSuccess⟩)

/-- A new SKU id, and an OEM id that is refused. -/
theorem protected_fields_kept_sku :
    let cs := [setByte 2 cbiSetNoSync, setByte 1 cbiSetNoSync]
    ∃ s, commands wordTags cs oemState = some s ∧
      ∀ t ∈ protectedTags, ∀ buf, report s t buf = report oemState t buf := by
  intro cs
  have hready : Ready oemState [⟨1, ⟨[9], by decide⟩⟩] := ⟨rfl, rfl, rfl, _, rfl⟩
  have hvalues : FieldsNonempty [⟨1, ⟨[9], by decide⟩⟩] := by simp [FieldsNonempty]
  exact protected_fields_kept oemState _ (hready.proper hvalues) cs (by decide +kernel)

/-- The command for the OEM id on its own is refused. -/
example : (commands wordTags [setByte 1 cbiSetNoSync] oemState).map
    (fun s => report s cbiTagOemId.toNat [0]) = some (report oemState cbiTagOemId.toNat [0]) := by
  decide +kernel

/-- The OEM id is gone after a command for the SKU id with `CBI_SET_INIT`, and a command for tag
256 brings a board version. -/
theorem not_protected_fields_kept :
    (commands wordTags [setByte 2 (cbiSetInit ||| cbiSetNoSync)] oemState).map
        (fun s => report s cbiTagOemId.toNat [0]) ≠ some (report oemState cbiTagOemId.toNat [0]) ∧
    (commands wordTags [setByte 0x100 cbiSetNoSync] oemState).map
        (fun s => report s cbiTagBoardVersion.toNat [0]) ≠
      some (report oemState cbiTagBoardVersion.toNat [0]) := by
  decide +kernel

end Cbi
end CrosEc
