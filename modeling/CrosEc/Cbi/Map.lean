import CrosEc.Cbi.Reload

/-!
# `common/cbi.c`: a map from tags to values

Seen through `cbi_get_board_info`, a run of `cbi_set_board_info` calls and set commands is a run
of updates of a map from tags to values.  Three things break the map, and a run that avoids them
is `Sound`:

* a value of no bytes, which `cbi_find_tag` does not see at the end of the image;
* a tag that does not fit the byte it is stored in;
* a new size for a tag when the new item does not fit: the old item is already removed when
  the call fails.
-/

namespace CrosEc
namespace Cbi

open Lib

/-! ## One call -/

/-- The items of a sound run: no tag twice, no value empty. -/
structure Distinct (its : List Item) : Prop where
  nodup : (its.map Item.tag).Nodup
  nonempty : ∀ x ∈ its, x.value.val ≠ []

/-- The call that breaks nothing.  `cbi_find_tag` and the sizes are those before the call. -/
def soundSet (cbi : Image) (tag : Nat) (buf : Value) : Bool :=
  match cbiFindTag cbi tag with
  | some (some d) =>
      match itemSize cbi d with
      | some size =>
          -- the same size, or the new item fits once the old one is removed
          size = buf.val.length ||
            (buf.val ≠ [] &&
              cbi.total - (itemHeader + size) + itemHeader + buf.val.length ≤ cbiEepromSize)
      | none => true
  | _ =>
      -- a call that is refused changes nothing
      cbiEepromSize < cbi.total + itemHeader + buf.val.length || (tag < 256 && buf.val ≠ [])

/-- The map after a call that returned `code`. -/
def record (tag : Nat) (buf : Value) (code : Code) (m : Nat → Option Bytes) :
    Nat → Option Bytes :=
  if code = ecSuccess then Function.update m tag (some buf.val) else m

theorem overflow_ne_success : ecErrorOverflow ≠ ecSuccess := by decide

theorem toNat_tag_inj {x y : Item} (h : x.tag.toNat = y.tag.toNat) : x.tag = y.tag :=
  UInt8.toNat_inj.1 h

theorem Distinct.absent_around {before after : List Item} {it : Item}
    (h : Distinct (before ++ it :: after)) :
    ∀ x ∈ before ++ after, x.tag.toNat ≠ it.tag.toNat := by
  intro x hx heq
  have hnodup := h.nodup
  rw [List.map_append, List.map_cons, List.nodup_middle, List.nodup_cons, ← List.map_append] at hnodup
  exact hnodup.1 (List.mem_map.2 ⟨x, hx, toNat_tag_inj heq⟩)

theorem Distinct.drop_middle {before after : List Item} {it : Item}
    (h : Distinct (before ++ it :: after)) : Distinct (before ++ after) := by
  refine ⟨?_, fun x hx => h.nonempty x ?_⟩
  · have hnodup := h.nodup
    rw [List.map_append, List.map_cons, List.nodup_middle, List.nodup_cons] at hnodup
    rw [List.map_append]
    exact hnodup.2
  · rcases List.mem_append.1 hx with hx | hx
    · exact List.mem_append_left _ hx
    · exact List.mem_append_right _ (List.mem_cons_of_mem _ hx)

theorem Distinct.concat {its : List Item} {it : Item} (h : Distinct its)
    (habsent : ∀ x ∈ its, x.tag.toNat ≠ it.tag.toNat) (hvalue : it.value.val ≠ []) :
    Distinct (its ++ [it]) := by
  refine ⟨?_, fun x hx => ?_⟩
  · rw [List.map_append, List.nodup_append]
    refine ⟨h.nodup, by simp, fun t ht t' ht' => ?_⟩
    obtain ⟨x, hx, rfl⟩ := List.mem_map.1 ht
    simp only [List.map_cons, List.map_nil, List.mem_singleton] at ht'
    rintro rfl
    exact habsent x hx (congrArg UInt8.toNat ht')
  · rcases List.mem_append.1 hx with hx | hx
    · exact h.nonempty x hx
    · rw [List.mem_singleton.1 hx]
      exact hvalue

theorem Distinct.replace {before after : List Item} {it : Item} {buf : Value}
    (h : Distinct (before ++ it :: after)) (hvalue : buf.val ≠ []) :
    Distinct (before ++ ⟨it.tag, buf⟩ :: after) := by
  refine ⟨by simpa using h.nodup, fun x hx => ?_⟩
  rcases List.mem_append.1 hx with hx | hx
  · exact h.nonempty x (List.mem_append_left _ hx)
  · rcases List.mem_cons.1 hx with rfl | hx
    · exact hvalue
    · exact h.nonempty x (List.mem_append_right _ (List.mem_cons_of_mem _ hx))

theorem toNat_ofNat_tag {tag : Nat} (h : tag < 256) : (UInt8.ofNat tag).toNat = tag :=
  UInt8.toNat_ofNat_of_lt' h

theorem valueOf_split {before after : List Item} {it : Item} {tag : Nat}
    (hbefore : ∀ x ∈ before, x.tag.toNat ≠ tag) (htag : it.tag.toNat = tag) :
    valueOf (before ++ it :: after) tag = some it.value.val := by
  rw [valueOf_append_of_absent hbefore, valueOf_cons_self after htag]

/-- The room left once an item is removed. -/
theorem Holds.fits_drop_middle {cbi : Image} {before after : List Item} {it : Item}
    (h : Holds cbi (before ++ it :: after)) (buf : Value) :
    Fits (before ++ after) buf ↔
      cbi.total - (itemHeader + it.size) + itemHeader + buf.val.length ≤ cbiEepromSize := by
  have htotal := h.total_eq
  simp only [encodeItems_append, encodeItems_cons, List.length_append, Item.length_encode] at htotal
  rw [Fits, encodeItems_append, List.length_append]
  constructor <;> intro hle <;> lia

/-- A sound call stores a value under a tag, or leaves the items alone. -/
theorem SetOutcome.sound {cbi : Image} {its its' : List Item} {tag : Nat} {buf : Value}
    {code : Code} (h : Holds cbi its) (hd : Distinct its) (hs : soundSet cbi tag buf = true)
    (ho : SetOutcome tag buf its code its') :
    (code = ecSuccess ∧ tag < 256 ∧ buf.val ≠ []) ∨ (code ≠ ecSuccess ∧ its' = its) := by
  rcases cbiFindTag_cases h tag with ⟨hnone, hempty⟩ | ⟨before, it, after, hits, htag, hbefore, hfind⟩
  · -- no item with this tag
    have habsent : ∀ x ∈ its, x.tag.toNat ≠ tag := fun x hx hxt =>
      hd.nonempty x hx (hempty x hx hxt)
    simp only [soundSet, hnone, Bool.or_eq_true, Bool.and_eq_true, decide_eq_true_eq] at hs
    cases ho with
    | overwritten before it after hits htag => exact absurd htag (habsent it (by simp [hits]))
    | resized before it after hits htag => exact absurd htag (habsent it (by simp [hits]))
    | lost before it after hits htag => exact absurd htag (habsent it (by simp [hits]))
    | added _ hfits =>
        rw [h.fits_iff] at hfits
        exact .inl ⟨rfl, hs.resolve_left (Nat.not_lt.2 hfits)⟩
    | refused => exact .inr ⟨overflow_ne_success, rfl⟩
  · have htagByte : tag < 256 := htag ▸ it.tag.toNat_lt
    have hit : it ∈ its := by simp [hits]
    have hvalue : valueOf its tag = some it.value.val := by rw [hits, valueOf_split hbefore htag]
    have hsize : itemSize cbi (offsetBehind before) = some it.size := by
      rw [hits] at h
      exact h.itemSize_eq
    simp only [soundSet, hfind, hsize, Bool.or_eq_true, Bool.and_eq_true, decide_eq_true_eq] at hs
    -- the item of the outcome is the item that was found
    have hsame : ∀ {before' after' : List Item} {it' : Item}, its = before' ++ it' :: after' →
        it'.tag.toNat = tag → (∀ x ∈ before', x.tag.toNat ≠ tag) → it'.value.val = it.value.val := by
      intro before' after' it' hits' htag' hbefore'
      rw [hits', valueOf_split hbefore' htag'] at hvalue
      exact Option.some.inj hvalue
    cases ho with
    | overwritten before' it' after' hits' htag' hbefore' hlen =>
        refine .inl ⟨rfl, htagByte, fun hnil => hd.nonempty it' (by simp [hits']) ?_⟩
        rw [hnil, List.length_nil] at hlen
        exact List.length_eq_zero_iff.1 hlen
    | resized before' it' after' hits' htag' hbefore' hlen hfits =>
        have hv := hsame hits' htag' hbefore'
        rw [Item.size, hv] at hlen
        exact .inl ⟨rfl, htagByte, (hs.resolve_left hlen).1⟩
    | lost before' it' after' hits' htag' hbefore' hlen hfull =>
        have hv := hsame hits' htag' hbefore'
        have hsz : it'.size = it.size := by rw [Item.size, hv, Item.size]
        rw [hits'] at h
        rw [h.fits_drop_middle, hsz] at hfull
        exact absurd (hs.resolve_left (hsz ▸ hlen)).2 hfull
    | added hempty => exact absurd (hempty it hit htag) (hd.nonempty it hit)
    | refused hempty => exact absurd (hempty it hit htag) (hd.nonempty it hit)

/-- **Step lemma.** A sound call updates the map and keeps the tags distinct. -/
theorem SetOutcome.record {cbi : Image} {its its' : List Item} {tag : Nat} {buf : Value}
    {code : Code} (h : Holds cbi its) (hd : Distinct its) (hs : soundSet cbi tag buf = true)
    (ho : SetOutcome tag buf its code its') :
    Distinct its' ∧ valueOf its' = record tag buf code (valueOf its) := by
  rcases ho.sound h hd hs with ⟨hcode, htagByte, hvalue⟩ | ⟨hcode, hsame⟩
  · have hbyte : (UInt8.ofNat tag).toNat = tag := toNat_ofNat_tag htagByte
    have hother : ∀ t, t ≠ tag → valueOf its' t = valueOf its t := fun t ht =>
      ho.valueOf_other ht (by rwa [hbyte])
    -- what is left is the value of the tag itself
    suffices hself : Distinct its' ∧ valueOf its' tag = some buf.val by
      refine ⟨hself.1, funext fun t => ?_⟩
      rw [Cbi.record, if_pos hcode]
      by_cases ht : t = tag
      · rw [ht, Function.update_self, hself.2]
      · rw [Function.update_of_ne ht, hother t ht]
    cases ho with
    | overwritten before it after hits htag hbefore =>
        rw [hits] at hd
        exact ⟨hd.replace hvalue, valueOf_split hbefore htag⟩
    | resized before it after hits htag =>
        rw [hits] at hd
        have habsent : ∀ x ∈ before ++ after, x.tag.toNat ≠ tag := htag ▸ hd.absent_around
        exact ⟨hd.drop_middle.concat (by simpa only [hbyte] using habsent) hvalue,
          valueOf_split habsent hbyte⟩
    | added hempty =>
        have habsent : ∀ x ∈ its, x.tag.toNat ≠ tag := fun x hx hxt =>
          hd.nonempty x hx (hempty x hx hxt)
        exact ⟨hd.concat (by simpa only [hbyte] using habsent) hvalue, valueOf_split habsent hbyte⟩
    | lost => exact absurd hcode overflow_ne_success
    | refused => exact absurd hcode overflow_ne_success
  · rw [hsame, Cbi.record, if_neg hcode]
    exact ⟨hd, rfl⟩

/-! ## Runs -/

variable {cfg : Config}

/-- A call of `cbi_set_board_info`, or a set command. -/
inductive Op (cfg : Config) where
  | set (tag : cfg.Tag) (buf : Value)
  | hcSet (p : SetParams) (io : SetIo)

namespace Op

/-- One operation: its return code and the state after it. -/
def step : Op cfg → State → Option (Code × State)
  | .set tag buf, s =>
      (cbiSetBoardInfo s.cbi tag.toNat buf).map fun r => (r.1, { s with cbi := r.2 })
  | .hcSet p io, s => hcCbiSet cfg p io s

/-- The call of `cbi_set_board_info` that the operation makes, if it makes one: the image before
it, the tag and the value. -/
def call : Op cfg → State → Option (Image × Nat × Value)
  | .set tag buf, s => some (s.cbi, tag.toNat, buf)
  | .hcSet p io, s =>
      if refused cfg p io then none
      else some ((loadOrInit p io s).2.cbi, (p.cbiTag cfg).toNat, p.value)

/-- The operation begins with a new image. -/
def inits : Op cfg → Bool
  | .set _ _ => false
  | .hcSet p io => !refused cfg p io && p.flag &&& cbiSetInit ≠ 0

def sound (op : Op cfg) (s : State) : Bool :=
  match op.call s with
  | none => true
  | some (cbi, tag, buf) => soundSet cbi tag buf

/-- The map after the operation.  A call counts if it returned success. -/
def record (op : Op cfg) (s : State) (m : Nat → Option Bytes) : Nat → Option Bytes :=
  let m := if op.inits then fun _ => none else m
  match op.call s with
  | none => m
  | some (cbi, tag, buf) =>
      match cbiSetBoardInfo cbi tag buf with
      | none => m
      | some (code, _) => Cbi.record tag buf code m

end Op

/-- A run of operations, with the map of the values set. -/
def mapRun : List (Op cfg) → State → (Nat → Option Bytes) → Option (State × (Nat → Option Bytes))
  | [], s, m => some (s, m)
  | op :: ops, s, m =>
      match op.step s with
      | none => none
      | some (_, s') => mapRun ops s' (op.record s m)

/-- Every operation of the run is sound in the state before it. -/
def soundRun : List (Op cfg) → State → Bool
  | [], _ => true
  | op :: ops, s =>
      op.sound s &&
        match op.step s with
        | none => false
        | some (_, s') => soundRun ops s'

/-- The image holds the map. -/
def Represents (s : State) (m : Nat → Option Bytes) : Prop :=
  ∃ its, Ready s its ∧ Distinct its ∧ valueOf its = m

theorem represents_init {s : State} (hcbi : s.cbi = initImage)
    (hcached : s.cachedReadResult = ecSuccess) : Represents s fun _ => none :=
  ⟨[], ⟨hcached, by rw [hcbi]; rfl, by rw [hcbi]; exact holds_initImage⟩, ⟨by simp, by simp⟩, rfl⟩

/-- **Step lemma.** A sound operation records its value. -/
theorem Represents.step {s : State} {m : Nat → Option Bytes} (h : Represents s m) {op : Op cfg}
    (hs : op.sound s = true) :
    ∃ rc s', op.step s = some (rc, s') ∧ Represents s' (op.record s m) := by
  obtain ⟨its, hready, hd, rfl⟩ := h
  cases op with
  | set tag buf =>
      obtain ⟨code, cbi, its', hcall, hholds, hmagic, hout⟩ :=
        cbiSetBoardInfo_outcome hready.holds tag.toNat buf
      obtain ⟨hd', hmap⟩ := hout.record hready.holds hd hs
      refine ⟨code, { s with cbi := cbi }, by simp only [Op.step, hcall, Option.map_some],
        its', ⟨hready.cached, hmagic.trans hready.magic, hholds⟩, hd', ?_⟩
      simp only [Op.record, Op.call, hcall]
      exact hmap
  | hcSet p io =>
      by_cases hgo : refused cfg p io
      · refine ⟨_, _, hcCbiSet_refused s hgo, its, hready, hd, ?_⟩
        simp [Op.record, Op.call, Op.inits, hgo]
      · obtain ⟨hload, hloaded⟩ := hready.loadOrInit p io
        rw [Bool.not_eq_true] at hgo
        obtain ⟨code, cbi, its', rc, s', hcall, hout, hstep, hready', -⟩ :=
          hcCbiSet_image hgo hload hloaded
        have hcond : soundSet (loadOrInit p io s).2.cbi (p.cbiTag cfg).toNat p.value = true := by
          simpa [Op.sound, Op.call, hgo] using hs
        -- a new image has no items, whatever the old one held
        have hd0 : Distinct (if p.flag &&& cbiSetInit ≠ 0 then [] else its) := by
          split
          · exact ⟨by simp, by simp⟩
          · exact hd
        obtain ⟨hd', hmap⟩ := hout.record hloaded.holds hd0 hcond
        refine ⟨rc, s', hstep, its', hready', hd', ?_⟩
        simp only [Op.record, Op.call, Op.inits, hgo, hcall, Bool.not_false, Bool.true_and,
          Bool.false_eq_true, if_false, decide_eq_true_eq]
        rw [hmap]
        congr 1
        split <;> rfl

/-- **Run lemma.** -/
theorem Represents.run {ops : List (Op cfg)} {s : State} {m : Nat → Option Bytes}
    (h : Represents s m) (hs : soundRun ops s = true) :
    ∃ s' m', mapRun ops s m = some (s', m') ∧ Represents s' m' := by
  induction ops generalizing s m with
  | nil => exact ⟨s, m, rfl, h⟩
  | cons op ops ih =>
      rw [soundRun, Bool.and_eq_true] at hs
      obtain ⟨rc, s', hstep, hrep⟩ := h.step hs.1
      have hrest := hs.2
      rw [hstep] at hrest
      obtain ⟨s'', m'', hrun, hrep'⟩ := ih hrep hrest
      refine ⟨s'', m'', ?_, hrep'⟩
      rw [mapRun, hstep]
      exact hrun

/-- What is read back holds what was written. -/
theorem holds_reloaded {cbi ram ram' : Image} {its : List Item} (h : Holds cbi its)
    (hhead : ram'.head = cbi.head)
    (hdata : ram'.data.val = cbi.data.val.take (cbi.total - headSize) ++
      ram.data.val.drop (cbi.total - headSize)) :
    Holds ram' its := by
  obtain ⟨rest, hrest⟩ := h.data_eq
  have hlen : cbi.total - headSize = (encodeItems its).length := by
    rw [h.total_eq, Nat.add_sub_cancel_left]
  refine ⟨by rw [Image.total, hhead, ← h.total_eq, Image.total],
    ram.data.val.drop (encodeItems its).length, ?_⟩
  rw [hdata, hlen, hrest, List.take_left]

/-- Two images with the same items answer alike. -/
theorem getFromImage_congr {cbi cbi' : Image} {its : List Item} (h : Holds cbi its)
    (h' : Holds cbi' its) (tag : Nat) (buf : Bytes) :
    getFromImage cbi' tag buf = getFromImage cbi tag buf := by
  have hfind : cbiFindTag cbi' tag = cbiFindTag cbi tag := by
    obtain ⟨rest, hrest⟩ := h.data_eq
    obtain ⟨rest', hrest'⟩ := h'.data_eq
    refine findTagFrom_congr (h'.total_eq.trans h.total_eq.symm) (fun i hi => ?_) tag 0
    have hlt : i < (encodeItems its).length := by
      rw [h.total_eq] at hi
      omega
    rw [hrest, hrest', List.getElem?_append_left hlt, List.getElem?_append_left hlt]
  rcases cbiFindTag_cases h tag with ⟨hnone, -⟩ | ⟨before, it, after, rfl, -, -, hsome⟩
  · rw [getFromImage, getFromImage, hfind, hnone]
  · rw [getFromImage_found h' (hfind.trans hsome), getFromImage_found h hsome]

/-- **Cros Board Info is a map from tags to values.**  From an initialised image, in every run
whose operations are sound, no access leaves the image; its items have distinct tags;
`cbi_get_board_info` answers for every tag with the value of its last successful set, and with an
error for a tag never set, so that a set changes no other tag; and after a set command that has
written the EEPROM, reading it back, into whatever RAM, is accepted and answers the same. -/
theorem cbi_map_of_sound (ops : List (Op cfg)) (start : State) (hcbi : start.cbi = initImage)
    (hcached : start.cachedReadResult = ecSuccess) (hs : soundRun ops start = true) :
    ∃ s m, mapRun ops start (fun _ => none) = some (s, m) ∧
      (∃ its, Holds s.cbi its ∧ (its.map Item.tag).Nodup) ∧
      (∀ (io io' : ReadIo) (tag : cfg.Tag) (buf : Bytes),
        cbiGetBoardInfo io io' tag.toNat buf s = some (answer buf (m tag.toNat), s)) ∧
      ∀ (p : SetParams) (io : SetIo) (s' : State),
        hcCbiSet cfg p io s = some (ecResSuccess, s') → p.flag &&& cbiSetNoSync = 0 →
        ∀ ram : Image, ∃ ram', doReadBoardInfo ⟨true, true⟩ s'.eeprom ram = (ecSuccess, ram') ∧
          ∀ (tag : cfg.Tag) (buf : Bytes),
            getFromImage ram' tag.toNat buf = getFromImage s'.cbi tag.toNat buf := by
  obtain ⟨s, m, hrun, its, hready, hd, rfl⟩ := (represents_init hcbi hcached).run hs
  refine ⟨s, valueOf its, hrun, ⟨its, hready.holds, hd.nodup⟩, ?_, ?_⟩
  · intro io io' tag buf
    have hcache : s.cachedReadResult ≠ ecErrorCbiCacheInvalid := by
      rw [hready.cached]
      decide
    rw [cbiGetBoardInfo, readBoardInfo, if_neg hcache]
    simp only [hready.cached, ne_eq, not_true_eq_false, if_false]
    rw [getFromImage_eq hready.holds fun x hx _ => hd.nonempty x hx]
    rfl
  · intro p io s' hset hsync ram
    by_cases hgo : refused cfg p io
    · rw [hcCbiSet_refused s hgo] at hset
      exact absurd (congrArg (fun r => r.map Prod.fst) hset) (by simp [ecResAccessDenied, ecResSuccess])
    · rw [Bool.not_eq_true] at hgo
      obtain ⟨hload, hloaded⟩ := hready.loadOrInit p io
      obtain ⟨code, cbi, its', rc, s1, -, -, hstep, hready', hwritten⟩ :=
        hcCbiSet_image hgo hload hloaded
      rw [hset, Option.some.injEq, Prod.mk.injEq] at hstep
      obtain ⟨hrc, rfl⟩ := hstep
      obtain ⟨hacc, rest, heeprom⟩ := hwritten hrc.symm hsync
      obtain ⟨ram', hread, hhead, hdata⟩ := doReadBoardInfo_written hacc heeprom ram
      have hholds := holds_reloaded hready'.holds hhead hdata
      exact ⟨ram', hread, fun tag buf => getFromImage_congr hready'.holds hholds _ buf⟩

/-- A new image, and an erased EEPROM. -/
def freshState : State := ⟨initImage, ecSuccess, ⟨List.replicate 256 0xff, List.length_replicate⟩⟩

/-- Two fields, the first one with a new size in the end. -/
theorem cbi_map_of_sound_resize :
    let ops : List (Op wordTags) :=
      [.set 2 ⟨[1], by decide⟩, .set 3 ⟨[7, 8], by decide⟩, .set 2 ⟨[4, 5, 6], by decide⟩]
    soundRun ops freshState = true ∧
      ∃ s m, mapRun ops freshState (fun _ => none) = some (s, m) ∧
        ∀ (io io' : ReadIo) (tag : wordTags.Tag) (buf : Bytes),
          cbiGetBoardInfo io io' tag.toNat buf s = some (answer buf (m tag.toNat), s) := by
  intro ops
  have hs : soundRun ops freshState = true := by decide +kernel
  obtain ⟨s, m, hrun, -, hget, -⟩ := cbi_map_of_sound ops freshState rfl rfl hs
  exact ⟨hs, s, m, hrun, hget⟩

/-- Some state of a run answers for the tag with something else than the map says. -/
def breaksMap (ops : List (Op wordTags)) (tag : Nat) : Bool :=
  (mapRun ops freshState fun _ => none).any fun r =>
    getFromImage r.1.cbi tag [] ≠ some (answer [] (r.2 tag))

/-- A value of no bytes is not found; a tag of 256 is stored as 0 and not found; and a value is
lost when its new size does not fit. -/
theorem not_cbi_map :
    breaksMap [.set 2 ⟨[], by decide⟩] 2 = true ∧
    breaksMap [.set 0x100 ⟨[1], by decide⟩] 0x100 = true ∧
    breaksMap [.set 2 ⟨[1], by decide⟩,
      .set 3 ⟨List.replicate 240 0, by rw [List.length_replicate]; decide⟩,
      .set 2 ⟨[1, 2, 3, 4, 5, 6, 7, 8], by decide⟩] 2 = true := by
  decide +kernel

end Cbi
end CrosEc
