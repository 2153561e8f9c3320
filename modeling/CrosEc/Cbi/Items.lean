import CrosEc.Cbi.Model

/-!
# `common/cbi.c`: the data items

An image holds a list of items when its data is their encoding up to the total size.  On such
an image each operation is an operation on the list.  The walk of `cbi_find_tag` stops with a
strict test, so an item without a value is not found when it is the last one.
-/

namespace CrosEc
namespace Cbi

open Lib

/-- A data item. -/
structure Item where
  tag : UInt8
  value : Value
  deriving DecidableEq

namespace Item

def size (it : Item) : Nat := it.value.val.length

def encode (it : Item) : Bytes := it.tag :: UInt8.ofNat it.size :: it.value.val

@[simp]
theorem length_encode (it : Item) : it.encode.length = itemHeader + it.size := by
  simp only [encode, size, itemHeader, List.length_cons]
  omega

theorem toNat_size (it : Item) : (UInt8.ofNat it.size).toNat = it.size :=
  UInt8.toNat_ofNat_of_lt' (Nat.lt_succ_of_le it.value.property)

end Item

def encodeItems (its : List Item) : Bytes := its.flatMap Item.encode

@[simp]
theorem encodeItems_nil : encodeItems [] = [] := rfl

@[simp]
theorem encodeItems_cons (it : Item) (its : List Item) :
    encodeItems (it :: its) = it.encode ++ encodeItems its := rfl

@[simp]
theorem encodeItems_append (its its' : List Item) :
    encodeItems (its ++ its') = encodeItems its ++ encodeItems its' :=
  List.flatMap_append

/-- **The image holds the items.** -/
structure Holds (cbi : Image) (its : List Item) : Prop where
  total_eq : cbi.total = headSize + (encodeItems its).length
  data_eq : ∃ rest, cbi.data.val = encodeItems its ++ rest

theorem Holds.length_le {cbi : Image} {its : List Item} (h : Holds cbi its) :
    (encodeItems its).length ≤ dataSize := by
  obtain ⟨rest, hdata⟩ := h.data_eq
  rw [← cbi.data.property, hdata, List.length_append]
  exact Nat.le_add_right _ _

theorem Holds.total_le {cbi : Image} {its : List Item} (h : Holds cbi its) :
    cbi.total ≤ cbiEepromSize := by
  have hlen := h.length_le
  have htotal := h.total_eq
  simp only [dataSize, headSize, cbiEepromSize] at *
  omega

theorem holds_initImage : Holds initImage [] := ⟨rfl, _, rfl⟩

/-! ## The walk -/

theorem data_isSome (cbi : Image) {i : Nat} (h : i < dataSize) : ∃ b, cbi.data.val[i]? = some b :=
  ⟨_, List.getElem?_eq_getElem (by rw [cbi.data.property]; exact h)⟩

/-- The walk stays inside an image whose total size does. -/
theorem findTagFrom_isSome {cbi : Image} (htotal : cbi.total ≤ cbiEepromSize) (tag p : Nat) :
    ∃ r, findTagFrom cbi tag p = some r ∧
      ∀ d, r = some d → headSize + d + itemHeader < cbi.total := by
  fun_induction findTagFrom cbi tag p with
  | case1 p hin => exact ⟨_, rfl, fun d hd => Option.some.inj hd ▸ hin⟩
  | case2 p hin t size htag hsize heq ih => exact ih
  | case3 p hin hno =>
      simp only [headSize, itemHeader, cbiEepromSize] at hin htotal
      obtain ⟨t, ht⟩ := data_isSome cbi (i := p) (by simp only [dataSize]; omega)
      obtain ⟨size, hsize⟩ := data_isSome cbi (i := p + 1) (by simp only [dataSize]; omega)
      exact (hno t size ht hsize).elim
  | case4 p hout => exact ⟨none, rfl, fun d hd => by cases hd⟩

/-- Either nothing is found, or an item whose tag and size are inside the image. -/
theorem cbiFindTag_isSome {cbi : Image} (htotal : cbi.total ≤ cbiEepromSize) (tag : Nat) :
    cbiFindTag cbi tag = some none ∨
      ∃ d size, cbiFindTag cbi tag = some (some d) ∧ itemSize cbi d = some size ∧
        headSize + d + itemHeader < cbi.total := by
  obtain ⟨r, hr, hbound⟩ := findTagFrom_isSome htotal tag 0
  cases r with
  | none => exact .inl hr
  | some d =>
      have hd := hbound d rfl
      simp only [headSize, itemHeader, cbiEepromSize] at hd htotal
      obtain ⟨b, hb⟩ := data_isSome cbi (i := d + 1) (by simp only [dataSize]; omega)
      exact .inr ⟨d, b.toNat, hr, by rw [itemSize, hb]; rfl, hbound d rfl⟩

/-- The walk depends on the bytes up to the total size only. -/
theorem findTagFrom_congr {cbi cbi' : Image} (htotal : cbi'.total = cbi.total)
    (hdata : ∀ i, headSize + i < cbi.total → cbi'.data.val[i]? = cbi.data.val[i]?) (tag p : Nat) :
    findTagFrom cbi' tag p = findTagFrom cbi tag p := by
  fun_induction findTagFrom cbi tag p with
  | case1 p hin t size htag hsize heq =>
      rw [findTagFrom, htotal, if_pos hin, hdata p (by omega), hdata (p + 1) (by
        simp only [itemHeader] at hin; omega), htag, hsize]
      simp [heq]
  | case2 p hin t size htag hsize heq ih =>
      rw [findTagFrom, htotal, if_pos hin, hdata p (by omega), hdata (p + 1) (by
        simp only [itemHeader] at hin; omega), htag, hsize]
      simp only [heq, if_false]
      exact ih
  | case3 p hin hno =>
      rw [findTagFrom, htotal, if_pos hin, hdata p (by omega), hdata (p + 1) (by
        simp only [itemHeader] at hin; omega)]
      split
      · next t size htag hsize => exact (hno t size htag hsize).elim
      · rfl
  | case4 p hout => rw [findTagFrom, htotal, if_neg hout]

/-! ## Finding an item -/

/-- The offset of the item behind `before`. -/
def offsetBehind (before : List Item) : Nat := (encodeItems before).length

section Split

variable {cbi : Image} {before after : List Item} {it : Item}

theorem Holds.getElem?_tag (h : Holds cbi (before ++ it :: after)) :
    cbi.data.val[offsetBehind before]? = some it.tag := by
  obtain ⟨rest, hdata⟩ := h.data_eq
  rw [hdata, offsetBehind]
  simp [Item.encode]

theorem Holds.getElem?_size (h : Holds cbi (before ++ it :: after)) :
    cbi.data.val[offsetBehind before + 1]? = some (UInt8.ofNat it.size) := by
  obtain ⟨rest, hdata⟩ := h.data_eq
  rw [hdata, offsetBehind, encodeItems_append, List.append_assoc,
    List.getElem?_append_right (Nat.le_add_right _ _), Nat.add_sub_cancel_left]
  simp [Item.encode]

theorem Holds.itemSize_eq (h : Holds cbi (before ++ it :: after)) :
    itemSize cbi (offsetBehind before) = some it.size := by
  rw [itemSize, h.getElem?_size, Option.map_some, it.toNat_size]

/-- The strict test of the walk hides one item only: an empty one at the end. -/
theorem Holds.last_of_not_visible (h : Holds cbi (before ++ it :: after))
    (hhidden : ¬headSize + offsetBehind before + itemHeader < cbi.total) :
    it.value.val = [] ∧ after = [] := by
  have htotal := h.total_eq
  rw [encodeItems_append, List.length_append, encodeItems_cons, List.length_append,
    Item.length_encode] at htotal
  have hoff : offsetBehind before = (encodeItems before).length := rfl
  have hsize : it.size = 0 := by omega
  refine ⟨List.length_eq_zero_iff.1 hsize, ?_⟩
  cases after with
  | nil => rfl
  | cons x after =>
      rw [encodeItems_cons, List.length_append, Item.length_encode] at htotal
      simp only [itemHeader] at *
      omega

end Split

/-- The walk from the items `before` on. -/
theorem findTagFrom_cases {cbi : Image} (tag : Nat) (its : List Item) :
    ∀ before : List Item, Holds cbi (before ++ its) → (∀ x ∈ before, x.tag.toNat ≠ tag) →
      (findTagFrom cbi tag (offsetBehind before) = some none ∧
        ∀ x ∈ its, x.tag.toNat = tag → x.value.val = []) ∨
      ∃ front it after, before ++ its = front ++ it :: after ∧ it.tag.toNat = tag ∧
        (∀ x ∈ front, x.tag.toNat ≠ tag) ∧
        findTagFrom cbi tag (offsetBehind before) = some (some (offsetBehind front)) := by
  induction its with
  | nil =>
      intro before h _
      left
      have htotal := h.total_eq
      rw [List.append_nil] at htotal
      rw [findTagFrom, if_neg (by rw [offsetBehind, htotal]; omega)]
      exact ⟨rfl, by simp⟩
  | cons it its ih =>
      intro before h hbefore
      by_cases hvisible : headSize + offsetBehind before + itemHeader < cbi.total
      · rw [findTagFrom, if_pos hvisible, h.getElem?_tag, h.getElem?_size]
        by_cases htag : it.tag.toNat = tag
        · right
          refine ⟨before, it, its, rfl, htag, hbefore, ?_⟩
          simp [htag]
        · -- on to the next item
          have hnext : offsetBehind before + (itemHeader + (UInt8.ofNat it.size).toNat) =
              offsetBehind (before ++ [it]) := by
            simp [offsetBehind, it.toNat_size]
          have hsplit : before ++ it :: its = (before ++ [it]) ++ its := by simp
          simp only [htag, if_false, hnext]
          rcases ih (before ++ [it]) (hsplit ▸ h) (by
            intro x hx
            rcases List.mem_append.1 hx with hx | hx
            · exact hbefore x hx
            · rw [List.mem_singleton.1 hx]
              exact htag) with ⟨hnone, hempty⟩ | ⟨front, it', after, hits, hrest⟩
          · left
            refine ⟨hnone, fun x hx hxt => ?_⟩
            rcases List.mem_cons.1 hx with rfl | hx
            · exact absurd hxt htag
            · exact hempty x hx hxt
          · right
            exact ⟨front, it', after, hsplit.trans hits, hrest⟩
      · -- The walk stops in front of an item, which is the last one and empty.
        left
        obtain ⟨hempty, hlast⟩ := h.last_of_not_visible hvisible
        rw [findTagFrom, if_neg hvisible]
        refine ⟨rfl, fun x hx _ => ?_⟩
        rw [hlast, List.mem_singleton] at hx
        rw [hx, hempty]

/-- **What `cbi_find_tag` finds**: nothing, when no item has the tag or only one without a value;
or the first item with the tag. -/
theorem cbiFindTag_cases {cbi : Image} {its : List Item} (h : Holds cbi its) (tag : Nat) :
    (cbiFindTag cbi tag = some none ∧ ∀ x ∈ its, x.tag.toNat = tag → x.value.val = []) ∨
    ∃ before it after, its = before ++ it :: after ∧ it.tag.toNat = tag ∧
      (∀ x ∈ before, x.tag.toNat ≠ tag) ∧
      cbiFindTag cbi tag = some (some (offsetBehind before)) := by
  have hwalk := findTagFrom_cases tag its [] (by simpa using h) (by simp)
  simpa [cbiFindTag, offsetBehind] using hwalk

/-! ## The operations -/

@[simp]
theorem setTotal_data (cbi : Image) (n : Nat) : (cbi.setTotal n).data = cbi.data := rfl

@[simp]
theorem setTotal_magic (cbi : Image) (n : Nat) :
    (cbi.setTotal n).head.magic = cbi.head.magic := rfl

theorem setTotal_total (cbi : Image) {n : Nat} (hn : n ≤ cbiEepromSize) :
    (cbi.setTotal n).total = n :=
  UInt16.toNat_ofNat_of_lt' (lt_of_le_of_lt hn (by decide))

/-- A store that ends inside the data. -/
theorem store_append {cbi : Image} {pre old post : Bytes} (bs : Bytes)
    (hdata : cbi.data.val = pre ++ old ++ post) (hlen : old.length = bs.length) :
    ∃ cbi', cbi.store pre.length bs = some cbi' ∧ cbi'.data.val = pre ++ bs ++ post ∧
      cbi'.head = cbi.head := by
  have hfits : pre.length + bs.length ≤ dataSize := by
    rw [← cbi.data.property, hdata, List.length_append, List.length_append, hlen]
    omega
  refine ⟨_, if_pos hfits, ?_, rfl⟩
  show writeAt cbi.data.val pre.length bs = _
  rw [hdata]
  exact writeAt_append pre old post bs rfl hlen

/-- Loading what follows `pre`. -/
theorem load_append {cbi : Image} {pre mid : Bytes} (post : Bytes)
    (hdata : cbi.data.val = pre ++ mid ++ post) :
    cbi.load pre.length mid.length = some mid := by
  have hfits : pre.length + mid.length ≤ dataSize := by
    rw [← cbi.data.property, hdata, List.length_append, List.length_append]
    omega
  rw [Image.load, if_pos hfits, hdata, List.append_assoc, List.drop_left, List.take_left]

/-- **Appending an item.** -/
theorem appendItem_cases {cbi : Image} {its : List Item} (h : Holds cbi its) (tag : Nat)
    (buf : Value) :
    (cbiEepromSize < cbi.total + itemHeader + buf.val.length ∧
      appendItem cbi tag buf = some (ecErrorOverflow, cbi)) ∨
    (cbi.total + itemHeader + buf.val.length ≤ cbiEepromSize ∧
      ∃ cbi', appendItem cbi tag buf = some (ecSuccess, cbi') ∧
        Holds cbi' (its ++ [⟨UInt8.ofNat tag, buf⟩]) ∧ cbi'.head.magic = cbi.head.magic) := by
  by_cases hfits : cbiEepromSize < cbi.total + itemHeader + buf.val.length
  · exact .inl ⟨hfits, by rw [appendItem, if_pos hfits]⟩
  · right
    obtain ⟨rest, hdata⟩ := h.data_eq
    have htotal := h.total_eq
    set it : Item := ⟨UInt8.ofNat tag, buf⟩ with hit
    have hsize : it.encode.length = itemHeader + buf.val.length := it.length_encode
    have hrest : it.encode.length ≤ rest.length := by
      have hlen := cbi.data.property
      rw [hdata, List.length_append] at hlen
      simp only [dataSize, cbiEepromSize, headSize] at *
      lia
    -- the item goes over the first bytes behind the others
    have hsplit : cbi.data.val =
        encodeItems its ++ rest.take it.encode.length ++ rest.drop it.encode.length := by
      rw [List.append_assoc, List.take_append_drop, hdata]
    obtain ⟨cbi', hstore, hdata', hhead⟩ := store_append it.encode hsplit
      (List.length_take_of_le hrest)
    refine ⟨Nat.le_of_not_lt hfits, cbi'.setTotal (cbi.total + (itemHeader + buf.val.length)),
      ?_, ⟨?_, rest.drop it.encode.length, ?_⟩, by rw [setTotal_magic, hhead]⟩
    · have hoff : cbi.total - headSize = (encodeItems its).length := by lia
      rw [appendItem, if_neg hfits, if_neg (by lia), cbiSetData, hoff]
      show Option.map _ (cbi.store _ it.encode) = _
      rw [hstore]
      rfl
    · rw [setTotal_total _ (by lia)]
      simp only [encodeItems_append, encodeItems_cons, encodeItems_nil, List.append_nil,
        List.length_append, hsize]
      lia
    · rw [setTotal_data, hdata']
      simp [List.append_assoc]

/-- **Removing an item.** -/
theorem cbiRemoveTag_holds {cbi : Image} {before after : List Item} {it : Item}
    (h : Holds cbi (before ++ it :: after)) :
    ∃ cbi', cbiRemoveTag cbi (offsetBehind before) = some cbi' ∧ Holds cbi' (before ++ after) ∧
      cbi'.head.magic = cbi.head.magic := by
  obtain ⟨rest, hdata⟩ := h.data_eq
  have htotal := h.total_eq
  have hle := h.total_le
  rw [encodeItems_append, encodeItems_cons] at hdata htotal
  simp only [List.length_append, Item.length_encode] at htotal
  have hnext : offsetBehind before + (itemHeader + it.size) =
      (encodeItems before ++ it.encode).length := by
    simp [offsetBehind]
  have hafter : cbi.total - (headSize + (offsetBehind before + (itemHeader + it.size))) =
      (encodeItems after).length := by
    rw [offsetBehind]
    lia
  have hload : cbi.load (encodeItems before ++ it.encode).length (encodeItems after).length =
      some (encodeItems after) :=
    load_append rest (by rw [hdata]; simp [List.append_assoc])
  -- the items behind it move up; as many bytes at the end are left over
  have hsplit : cbi.data.val = encodeItems before ++
      (it.encode ++ encodeItems after).take (encodeItems after).length ++
      ((it.encode ++ encodeItems after).drop (encodeItems after).length ++ rest) := by
    rw [hdata]
    simp only [List.append_assoc]
    rw [← List.append_assoc (List.take _ _), List.take_append_drop, List.append_assoc]
  obtain ⟨cbi', hstore, hdata', hhead⟩ := store_append (encodeItems after) hsplit
    (List.length_take_of_le (by simp))
  have htotal' : cbi'.total = cbi.total := by rw [Image.total, hhead, Image.total]
  refine ⟨cbi'.setTotal (cbi'.total - (itemHeader + it.size)), ?_, ⟨?_,
    (it.encode ++ encodeItems after).drop (encodeItems after).length ++ rest, ?_⟩,
      by rw [setTotal_magic, hhead]⟩
  · rw [cbiRemoveTag, h.itemSize_eq]
    simp only
    rw [if_pos (by rw [offsetBehind]; lia), hafter, hnext, hload]
    show Option.map _ (cbi.store (encodeItems before).length (encodeItems after)) = _
    rw [hstore]
    rfl
  · rw [setTotal_total _ (by lia), encodeItems_append, List.length_append]
    lia
  · rw [setTotal_data, hdata', encodeItems_append]

/-- **Overwriting a value** with one of the same size. -/
theorem store_value {cbi : Image} {before after : List Item} {it : Item} {buf : Value}
    (h : Holds cbi (before ++ it :: after)) (hsize : it.size = buf.val.length) :
    ∃ cbi', cbi.store (offsetBehind before + itemHeader) buf.val = some cbi' ∧
      Holds cbi' (before ++ ⟨it.tag, buf⟩ :: after) ∧ cbi'.head = cbi.head := by
  obtain ⟨rest, hdata⟩ := h.data_eq
  have hpre : offsetBehind before + itemHeader =
      (encodeItems before ++ [it.tag, UInt8.ofNat it.size]).length := by
    simp [offsetBehind, itemHeader]
  have hsplit : cbi.data.val = (encodeItems before ++ [it.tag, UInt8.ofNat it.size]) ++
      it.value.val ++ (encodeItems after ++ rest) := by
    rw [hdata]
    simp [Item.encode]
  obtain ⟨cbi', hstore, hdata', hhead⟩ := store_append buf.val hsplit hsize
  have hsize' : (Item.mk it.tag buf).size = it.size := hsize.symm
  refine ⟨cbi', by rw [hpre, hstore], ⟨?_, rest, ?_⟩, hhead⟩
  · have htotal := h.total_eq
    rw [Image.total, hhead]
    simp only [encodeItems_append, encodeItems_cons, List.length_append, Item.length_encode,
      hsize'] at htotal ⊢
    exact htotal
  · rw [hdata']
    simp [Item.encode, hsize']

/-- **Reading a value.** -/
theorem getFromImage_found {cbi : Image} {tag : Nat} {before after : List Item} {it : Item}
    (h : Holds cbi (before ++ it :: after))
    (hfind : cbiFindTag cbi tag = some (some (offsetBehind before))) (buf : Bytes) :
    getFromImage cbi tag buf =
      if buf.length < it.size then some ⟨ecErrorInval, buf, buf.length⟩
      else some ⟨ecSuccess, it.value.val ++ List.replicate (buf.length - it.size) 0, it.size⟩ := by
  obtain ⟨rest, hdata⟩ := h.data_eq
  have hload : cbi.load (offsetBehind before + itemHeader) it.size = some it.value.val := by
    have hpre : offsetBehind before + itemHeader =
        (encodeItems before ++ [it.tag, UInt8.ofNat it.size]).length := by
      simp [offsetBehind, itemHeader]
    rw [hpre]
    exact load_append (encodeItems after ++ rest) (by rw [hdata]; simp [Item.encode])
  simp only [getFromImage, hfind, h.itemSize_eq, hload]

/-! ## The items as a map -/

/-- The value of the first item with the tag. -/
def valueOf (its : List Item) (tag : Nat) : Option Bytes :=
  (its.find? fun it => it.tag.toNat = tag).map fun it => it.value.val

/-- What `cbi_get_board_info` answers about a value, or about none. -/
def answer (buf : Bytes) : Option Bytes → GetResult
  | none => ⟨ecErrorUnknown, buf, buf.length⟩
  | some v =>
      if buf.length < v.length then ⟨ecErrorInval, buf, buf.length⟩
      else ⟨ecSuccess, v ++ List.replicate (buf.length - v.length) 0, v.length⟩

theorem valueOf_eq_none {its : List Item} {tag : Nat} (h : ∀ x ∈ its, x.tag.toNat ≠ tag) :
    valueOf its tag = none := by
  simpa [valueOf] using h

theorem valueOf_append_of_absent {its : List Item} {tag : Nat}
    (h : ∀ x ∈ its, x.tag.toNat ≠ tag) (its' : List Item) :
    valueOf (its ++ its') tag = valueOf its' tag := by
  have hnone : its.find? (fun it => decide (it.tag.toNat = tag)) = none := by simpa using h
  rw [valueOf, List.find?_append, hnone, Option.none_or, valueOf]

theorem valueOf_cons_self {it : Item} (its : List Item) {tag : Nat} (h : it.tag.toNat = tag) :
    valueOf (it :: its) tag = some it.value.val := by
  simp [valueOf, h]

/-- An item with another tag does not count. -/
theorem valueOf_drop_middle (before : List Item) {it : Item} (after : List Item) {tag : Nat}
    (h : it.tag.toNat ≠ tag) :
    valueOf (before ++ it :: after) tag = valueOf (before ++ after) tag := by
  simp only [valueOf, List.find?_append]
  rw [List.find?_cons_of_neg (by simpa using h)]

/-- **`cbi_get_board_info` reports the value of the first item**, if the items with this tag
have one. -/
theorem getFromImage_eq {cbi : Image} {its : List Item} (h : Holds cbi its) {tag : Nat}
    (hvalue : ∀ x ∈ its, x.tag.toNat = tag → x.value.val ≠ []) (buf : Bytes) :
    getFromImage cbi tag buf = some (answer buf (valueOf its tag)) := by
  rcases cbiFindTag_cases h tag with ⟨hnone, hempty⟩ | ⟨before, it, after, rfl, htag, hbefore, hfind⟩
  · have habsent : ∀ x ∈ its, x.tag.toNat ≠ tag := fun x hx hxt =>
      hvalue x hx hxt (hempty x hx hxt)
    rw [getFromImage, hnone, valueOf_eq_none habsent]
    rfl
  · rw [getFromImage_found h hfind, valueOf_append_of_absent hbefore, valueOf_cons_self after htag]
    show _ = some (if buf.length < it.size then _ else _)
    split <;> rfl

/-! ## Setting a value -/

/-- There is room for a new item behind the items. -/
def Fits (its : List Item) (buf : Value) : Prop :=
  headSize + (encodeItems its).length + itemHeader + buf.val.length ≤ cbiEepromSize

/-- **All that `cbi_set_board_info` can do** to the items, with its return code. -/
inductive SetOutcome (tag : Nat) (buf : Value) (its : List Item) : Code → List Item → Prop
  | overwritten (before : List Item) (it : Item) (after : List Item)
      (hits : its = before ++ it :: after) (htag : it.tag.toNat = tag)
      (hbefore : ∀ x ∈ before, x.tag.toNat ≠ tag) (hsize : it.size = buf.val.length) :
      SetOutcome tag buf its ecSuccess (before ++ ⟨it.tag, buf⟩ :: after)
  | resized (before : List Item) (it : Item) (after : List Item)
      (hits : its = before ++ it :: after) (htag : it.tag.toNat = tag)
      (hbefore : ∀ x ∈ before, x.tag.toNat ≠ tag) (hsize : it.size ≠ buf.val.length)
      (hfits : Fits (before ++ after) buf) :
      SetOutcome tag buf its ecSuccess (before ++ after ++ [⟨UInt8.ofNat tag, buf⟩])
  | lost (before : List Item) (it : Item) (after : List Item)
      (hits : its = before ++ it :: after) (htag : it.tag.toNat = tag)
      (hbefore : ∀ x ∈ before, x.tag.toNat ≠ tag) (hsize : it.size ≠ buf.val.length)
      (hfull : ¬ Fits (before ++ after) buf) :
      SetOutcome tag buf its ecErrorOverflow (before ++ after)
  | added (hempty : ∀ x ∈ its, x.tag.toNat = tag → x.value.val = []) (hfits : Fits its buf) :
      SetOutcome tag buf its ecSuccess (its ++ [⟨UInt8.ofNat tag, buf⟩])
  | refused (hempty : ∀ x ∈ its, x.tag.toNat = tag → x.value.val = []) (hfull : ¬ Fits its buf) :
      SetOutcome tag buf its ecErrorOverflow its

theorem Holds.fits_iff {cbi : Image} {its : List Item} (h : Holds cbi its) (buf : Value) :
    Fits its buf ↔ cbi.total + itemHeader + buf.val.length ≤ cbiEepromSize := by
  rw [Fits, h.total_eq]

theorem cbiSetBoardInfo_outcome {cbi : Image} {its : List Item} (h : Holds cbi its) (tag : Nat)
    (buf : Value) :
    ∃ code cbi' its', cbiSetBoardInfo cbi tag buf = some (code, cbi') ∧ Holds cbi' its' ∧
      cbi'.head.magic = cbi.head.magic ∧ SetOutcome tag buf its code its' := by
  rcases cbiFindTag_cases h tag with ⟨hnone, hempty⟩ | ⟨before, it, after, rfl, htag, hbefore, hfind⟩
  · simp only [cbiSetBoardInfo, hnone]
    rcases appendItem_cases h tag buf with ⟨hfull, heq⟩ | ⟨hfits, cbi', heq, hholds, hmagic⟩
    · exact ⟨_, _, _, heq, h, rfl, .refused hempty fun hf =>
        absurd ((h.fits_iff buf).1 hf) (Nat.not_le.2 hfull)⟩
    · exact ⟨_, _, _, heq, hholds, hmagic, .added hempty ((h.fits_iff buf).2 hfits)⟩
  · simp only [cbiSetBoardInfo, hfind, h.itemSize_eq]
    by_cases hsize : it.size = buf.val.length
    · obtain ⟨cbi', hstore, hholds, hhead⟩ := store_value h hsize
      rw [if_neg (not_not.2 hsize), hstore]
      exact ⟨_, _, _, rfl, hholds, by rw [hhead],
        .overwritten before it after rfl htag hbefore hsize⟩
    · obtain ⟨cbi1, hremove, hholds1, hmagic1⟩ := cbiRemoveTag_holds h
      rw [if_pos hsize, hremove]
      simp only
      rcases appendItem_cases hholds1 tag buf with ⟨hfull, heq⟩ | ⟨hfits, cbi', heq, hholds, hmagic⟩
      · exact ⟨_, _, _, heq, hholds1, hmagic1, .lost before it after rfl htag hbefore hsize fun hf =>
          absurd ((hholds1.fits_iff buf).1 hf) (Nat.not_le.2 hfull)⟩
      · exact ⟨_, _, _, heq, hholds, hmagic.trans hmagic1,
          .resized before it after rfl htag hbefore hsize ((hholds1.fits_iff buf).2 hfits)⟩

/-- **Frame.** A set does not touch the value of a tag that is neither the one set nor the one
stored. -/
theorem SetOutcome.valueOf_other {tag t : Nat} {buf : Value} {its its' : List Item} {code : Code}
    (h : SetOutcome tag buf its code its') (ht : t ≠ tag) (hbyte : t ≠ (UInt8.ofNat tag).toNat) :
    valueOf its' t = valueOf its t := by
  have hnew : ∀ l : List Item, valueOf (l ++ [⟨UInt8.ofNat tag, buf⟩]) t = valueOf l t := by
    intro l
    rw [valueOf_drop_middle l [] hbyte.symm, List.append_nil]
  cases h with
  | overwritten before it after hits htag =>
      have hne : it.tag.toNat ≠ t := htag.trans_ne ht.symm
      rw [hits, valueOf_drop_middle before after hne]
      exact valueOf_drop_middle before after hne
  | resized before it after hits htag =>
      rw [hits, hnew, valueOf_drop_middle before after (htag.trans_ne ht.symm)]
  | lost before it after hits htag =>
      rw [hits, valueOf_drop_middle before after (htag.trans_ne ht.symm)]
  | added => exact hnew its
  | refused => rfl

/-- An item with such a tag was there before. -/
theorem SetOutcome.mem_other {tag : Nat} {buf : Value} {its its' : List Item} {code : Code}
    (h : SetOutcome tag buf its code its') {x : Item} (hx : x ∈ its') (ht : x.tag.toNat ≠ tag)
    (hbyte : x.tag.toNat ≠ (UInt8.ofNat tag).toNat) : x ∈ its := by
  have hnew : x ≠ ⟨UInt8.ofNat tag, buf⟩ := fun h => hbyte (by rw [h])
  cases h with
  | overwritten before it after hits htag =>
      have hself : x ≠ ⟨it.tag, buf⟩ := fun h => ht (by rw [h]; exact htag)
      rw [hits]
      simp only [List.mem_append, List.mem_cons, hself, false_or] at hx ⊢
      exact hx.imp_right .inr
  | resized before it after hits =>
      rw [hits]
      simp only [List.mem_append, List.mem_cons, List.not_mem_nil, or_false, hnew] at hx ⊢
      exact hx.imp_right .inr
  | lost before it after hits =>
      rw [hits]
      simp only [List.mem_append, List.mem_cons] at hx ⊢
      exact hx.imp_right .inr
  | added =>
      simpa only [List.mem_append, List.mem_cons, List.not_mem_nil, or_false, hnew] using hx
  | refused => exact hx

end Cbi
end CrosEc
