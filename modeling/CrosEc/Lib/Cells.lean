import CrosEc.Lib.Packed

/-!
# Memory of bytes and numbers

Memory from any address to any other, one cell for each.  A cell holds a byte, or one of the four
parts of a number that was stored there; a number that is loaded where all its parts still are is
the one that was stored, so that numbers have no bound here.  Bytes are read from parts and numbers
from bytes as little-endian memory would give them.
-/

namespace CrosEc
namespace Lib

inductive Cell where
  | byte (b : UInt8)
  /-- the `i`th part of a number -/
  | part (value : Int) (i : Nat)
  deriving DecidableEq

abbrev Cells := Int → Cell

/-- The byte that is read from a cell. -/
def Cell.toByte : Cell → UInt8
  | .byte b => b
  | .part value i => UInt8.ofNat (value / 256 ^ i % 256).toNat

namespace Cells

def loadByte (mem : Cells) (a : Int) : UInt8 := (mem a).toByte

def loadBytes (mem : Cells) (a : Int) (n : Nat) : Bytes :=
  (List.range n).map fun i : Nat => mem.loadByte (a + (i : Int))

/-- The number that is read from four bytes. -/
def intOfBytes (bs : Bytes) : Int := (decodeLE 4 bs : Int).bmod 4294967296

def loadInt (mem : Cells) (a : Int) : Int :=
  match mem a with
  | .part value 0 =>
      if mem (a + 1) = .part value 1 ∧ mem (a + 2) = .part value 2 ∧ mem (a + 3) = .part value 3 then
        value
      else intOfBytes (mem.loadBytes a 4)
  | _ => intOfBytes (mem.loadBytes a 4)

def storeBytes (mem : Cells) (a : Int) (bs : Bytes) : Cells := fun x =>
  if a ≤ x ∧ x < a + bs.length then .byte (bs.getD (x - a).toNat 0) else mem x

def storeInt (mem : Cells) (a : Int) (value : Int) : Cells := fun x =>
  if a ≤ x ∧ x < a + 4 then .part value (x - a).toNat else mem x

/-- `memmove(dst, src, len)`, also where the two ranges overlap -/
def memmove (mem : Cells) (dst src len : Int) : Cells := fun x =>
  if dst ≤ x ∧ x < dst + len then mem (src + (x - dst)) else mem x

/-- What is in the first memory from `lo` up to `hi` is in the second one `d` further on. -/
def Moved (mem mem' : Cells) (lo hi d : Int) : Prop := ∀ x, lo ≤ x → x < hi → mem' (x + d) = mem x

variable {mem mem' mem'' : Cells} {a lo hi d : Int}

/-! ## Loads after stores -/

theorem loadBytes_storeBytes (mem : Cells) (a : Int) (bs : Bytes) :
    (mem.storeBytes a bs).loadBytes a bs.length = bs := by
  apply List.ext_getElem
  · simp [loadBytes]
  · intro i hi hi'
    simp [loadBytes, loadByte, storeBytes, Cell.toByte, hi']

theorem loadInt_storeInt (mem : Cells) (a value : Int) : (mem.storeInt a value).loadInt a = value := by
  have hcell : ∀ i : Nat, i < 4 → mem.storeInt a value (a + i) = .part value i := by
    intro i hi
    rw [storeInt, if_pos (by omega)]
    congr 1
    omega
  have h0 := hcell 0 (by decide)
  have h1 := hcell 1 (by decide)
  have h2 := hcell 2 (by decide)
  have h3 := hcell 3 (by decide)
  simp only [Nat.cast_zero, add_zero, Nat.cast_one, Nat.cast_ofNat] at h0 h1 h2 h3
  rw [loadInt, h0]
  simp only [h1, h2, h3, and_self, if_true]

@[simp] theorem storeBytes_nil (mem : Cells) (a : Int) : mem.storeBytes a [] = mem := by
  ext x
  rw [storeBytes, if_neg]
  simp

/-! ## What a write leaves alone -/

theorem storeInt_of_ne {value x : Int} (h : x < a ∨ a + 4 ≤ x) : mem.storeInt a value x = mem x := by
  rw [storeInt, if_neg (by omega)]

theorem storeBytes_of_ne {bs : Bytes} {x : Int} (h : x < a ∨ a + bs.length ≤ x) :
    mem.storeBytes a bs x = mem x := by
  rw [storeBytes, if_neg (by omega)]

theorem memmove_of_ne {dst src len x : Int} (h : x < dst ∨ dst + len ≤ x) :
    mem.memmove dst src len x = mem x := by
  rw [memmove, if_neg (by omega)]

/-! ## What moves -/

theorem Moved.refl (mem : Cells) (lo hi : Int) : Moved mem mem lo hi 0 := by
  intro x _ _
  rw [add_zero]

theorem Moved.mono {lo' hi' : Int} (h : Moved mem mem' lo hi d) (hlo : lo ≤ lo') (hhi : hi' ≤ hi) :
    Moved mem mem' lo' hi' d := fun x hx hx' => h x (hlo.trans hx) (hx'.trans_le hhi)

theorem Moved.trans {d' : Int} (h : Moved mem mem' lo hi d)
    (h' : Moved mem' mem'' (lo + d) (hi + d) d') : Moved mem mem'' lo hi (d + d') := by
  intro x hlo hhi
  rw [← add_assoc, h' (x + d) (by omega) (by omega), h x hlo hhi]

theorem moved_memmove (mem : Cells) (dst src len : Int) :
    Moved mem (mem.memmove dst src len) src (src + len) (dst - src) := by
  intro x hlo hhi
  rw [memmove, if_pos (by omega)]
  congr 1
  omega

theorem moved_storeInt {value : Int} (h : hi ≤ a ∨ a + 4 ≤ lo) :
    Moved mem (mem.storeInt a value) lo hi 0 := by
  intro x hlo hhi
  rw [add_zero, storeInt_of_ne (by omega)]

theorem moved_storeBytes {bs : Bytes} (h : hi ≤ a ∨ a + bs.length ≤ lo) :
    Moved mem (mem.storeBytes a bs) lo hi 0 := by
  intro x hlo hhi
  rw [add_zero, storeBytes_of_ne (by omega)]

theorem Moved.loadByte (h : Moved mem mem' lo hi d) (hlo : lo ≤ a) (hhi : a < hi) :
    mem'.loadByte (a + d) = mem.loadByte a := by
  rw [Cells.loadByte, Cells.loadByte, h a hlo hhi]

theorem Moved.loadBytes {n : Nat} (h : Moved mem mem' lo hi d) (hlo : lo ≤ a) (hhi : a + n ≤ hi) :
    mem'.loadBytes (a + d) n = mem.loadBytes a n := by
  apply List.map_congr_left
  intro i hi
  have hlt := List.mem_range.mp hi
  rw [add_right_comm]
  exact h.loadByte (by omega) (by omega)

theorem Moved.loadInt (h : Moved mem mem' lo hi d) (hlo : lo ≤ a) (hhi : a + 4 ≤ hi) :
    mem'.loadInt (a + d) = mem.loadInt a := by
  have h0 := h a hlo (by omega)
  have h1 := h (a + 1) (by omega) (by omega)
  have h2 := h (a + 2) (by omega) (by omega)
  have h3 := h (a + 3) (by omega) (by omega)
  rw [add_right_comm] at h1 h2 h3
  rw [Cells.loadInt, Cells.loadInt, h0, h1, h2, h3, h.loadBytes hlo hhi]

end Cells

end Lib
end CrosEc
