import Mathlib.Tactic
import Mathlib.Data.List.Basic

/-!
# Byte buffers and packed records

C code lays its records out without padding and reads them back through a
pointer cast.  This module gives that layout once, over arbitrary field types:

* `Arr α n` is an array of exactly `n` elements, `Blob n` an array of `n` bytes;
* `readBytes n bs` is what a read of `n` bytes through a pointer to `bs` sees;
* `Codec α` is a fixed-size layout of `α` that carries its own round trips, so a
  record's layout is assembled from `Codec.prod`, `Codec.array` and the integer
  layouts, and its size and its injectivity come with it.

Integers are little-endian.
-/

namespace CrosEc
namespace Lib

/-- A run of bytes. -/
abbrev Bytes := List UInt8

/-- An array of exactly `n` elements. -/
abbrev Arr (α : Type) (n : Nat) := { l : List α // l.length = n }

/-- A byte array of exactly `n` bytes. -/
abbrev Blob (n : Nat) := Arr UInt8 n

/-- The array that holds `a` at every index. -/
def Arr.replicate {α : Type} (n : Nat) (a : α) : Arr α n :=
  ⟨List.replicate n a, List.length_replicate⟩

/-! ## Reading through a pointer -/

/-- The `n` bytes read through a pointer whose remaining memory is `bs`; memory
past the end of `bs` reads as zero. -/
def readBytes : Nat → Bytes → Bytes
  | 0, _ => []
  | n + 1, [] => 0 :: readBytes n []
  | n + 1, b :: bs => b :: readBytes n bs

@[simp] theorem readBytes_zero (bs : Bytes) : readBytes 0 bs = [] := by
  cases bs <;> rfl

@[simp] theorem length_readBytes (n : Nat) (bs : Bytes) :
    (readBytes n bs).length = n := by
  induction n generalizing bs with
  | zero => simp
  | succ n ih => cases bs <;> simp [readBytes, ih]

/-- Zeros behind the memory are what a read past its end sees anyway. -/
theorem readBytes_append_replicate (n m : Nat) (bs : Bytes) :
    readBytes n (bs ++ List.replicate m 0) = readBytes n bs := by
  induction n generalizing bs m with
  | zero => simp
  | succ n ih =>
      cases bs with
      | nil =>
          cases m with
          | zero => rfl
          | succ m => exact congrArg (List.cons 0) (ih m [])
      | cons b bs => exact congrArg (List.cons b) (ih m bs)

/-- Inside the buffer a read is a prefix of it. -/
theorem readBytes_eq_take {n : Nat} {bs : Bytes} (h : n ≤ bs.length) :
    readBytes n bs = bs.take n := by
  induction n generalizing bs with
  | zero => simp
  | succ n ih =>
      cases bs with
      | nil => simp at h
      | cons b bs =>
          simp only [List.length_cons, Nat.add_le_add_iff_right] at h
          simp [readBytes, ih h]

theorem readBytes_append {n : Nat} {as : Bytes} (h : as.length = n) (rest : Bytes) :
    readBytes n (as ++ rest) = as := by
  rw [readBytes_eq_take (by simp; omega), ← h, List.take_left]

/-- A read of `m + n` bytes is a read of `m` bytes and then of the next `n`. -/
theorem readBytes_add (m n : Nat) (bs : Bytes) :
    readBytes (m + n) bs = readBytes m bs ++ readBytes n (bs.drop m) := by
  induction m generalizing bs with
  | zero => simp
  | succ m ih =>
      rw [Nat.succ_add]
      cases bs with
      | nil =>
          have := ih []
          simp only [List.drop_nil] at this
          simp [readBytes, this]
      | cons b bs => simp [readBytes, ih]

/-- `n` bytes through a pointer, as an array. -/
def readBlob (n : Nat) (bs : Bytes) : Blob n := ⟨readBytes n bs, length_readBytes n bs⟩

/-! ## Little-endian naturals -/

/-- The `w` little-endian bytes of `n`. -/
def encodeLE : Nat → Nat → Bytes
  | 0, _ => []
  | w + 1, n => UInt8.ofNat n :: encodeLE w (n / 256)

/-- The natural number of the first `w` bytes, least significant byte first. -/
def decodeLE : Nat → Bytes → Nat
  | 0, _ => 0
  | w + 1, bs => (bs.headD 0).toNat + 256 * decodeLE w bs.tail

@[simp] theorem length_encodeLE (w n : Nat) : (encodeLE w n).length = w := by
  induction w generalizing n with
  | zero => rfl
  | succ w ih => simp [encodeLE, ih]

theorem decodeLE_encodeLE (w n : Nat) (rest : Bytes) :
    decodeLE w (encodeLE w n ++ rest) = n % 256 ^ w := by
  induction w generalizing n with
  | zero => simp [decodeLE, Nat.mod_one]
  | succ w ih =>
      have hbyte : (UInt8.ofNat n).toNat = n % 256 := by simp
      rw [encodeLE, List.cons_append, decodeLE, List.headD_cons, List.tail_cons, ih, hbyte,
        pow_succ', Nat.mod_mul]

theorem decodeLE_lt (w : Nat) (bs : Bytes) : decodeLE w bs < 256 ^ w := by
  induction w generalizing bs with
  | zero => simp [decodeLE]
  | succ w ih =>
      have hbyte := (bs.headD 0).toNat_lt
      have htail := ih bs.tail
      rw [decodeLE, pow_succ]
      omega

theorem encodeLE_decodeLE (w : Nat) (bs : Bytes) :
    encodeLE w (decodeLE w bs) = readBytes w bs := by
  induction w generalizing bs with
  | zero => simp [encodeLE]
  | succ w ih =>
      have hbyte := (bs.headD 0).toNat_lt
      have hdiv : ((bs.headD 0).toNat + 256 * decodeLE w bs.tail) / 256 = decodeLE w bs.tail := by
        omega
      have hmod : UInt8.ofNat ((bs.headD 0).toNat + 256 * decodeLE w bs.tail) = bs.headD 0 := by
        apply UInt8.toNat_inj.mp
        rw [UInt8.toNat_ofNat']
        omega
      rw [decodeLE, encodeLE, hdiv, hmod, ih]
      cases bs <;> simp [readBytes]

/-! ## Layouts -/

/-- A fixed-size packed layout of `α`.  `decode` reads through a pointer: it may
be given more memory than it needs, and less memory reads as zero. -/
structure Codec (α : Type) where
  size : Nat
  encode : α → Bytes
  decode : Bytes → α
  length_encode : ∀ a, (encode a).length = size
  decode_encode : ∀ a rest, decode (encode a ++ rest) = a
  encode_decode : ∀ bs, encode (decode bs) = readBytes size bs

namespace Codec

variable {α β : Type}

attribute [simp] length_encode decode_encode

@[simp] theorem decode_encode_self (c : Codec α) (a : α) : c.decode (c.encode a) = a := by
  simpa using c.decode_encode a []

/-- Two values with the same layout, whatever follows it, are equal. -/
theorem encode_append_inj (c : Codec α) {a b : α} {as bs : Bytes}
    (h : c.encode a ++ as = c.encode b ++ bs) : a = b ∧ as = bs := by
  have hval := congrArg c.decode h
  rw [c.decode_encode, c.decode_encode] at hval
  subst hval
  exact ⟨rfl, List.append_cancel_left h⟩

theorem encode_inj (c : Codec α) {a b : α} (h : c.encode a = c.encode b) : a = b := by
  have happend : c.encode a ++ [] = c.encode b ++ [] := by rw [h]
  exact (c.encode_append_inj happend).1

/-- `decode` looks at the first `size` bytes only. -/
theorem decode_eq_of_readBytes (c : Codec α) {as bs : Bytes}
    (h : readBytes c.size as = readBytes c.size bs) : c.decode as = c.decode bs := by
  apply c.encode_inj
  rw [c.encode_decode, c.encode_decode, h]

/-- The layout of a natural that `toNat` embeds below `256 ^ w`. -/
def ofNat (w : Nat) (toNat : α → Nat) (fromNat : Nat → α)
    (toNat_lt : ∀ a, toNat a < 256 ^ w) (from_to : ∀ a, fromNat (toNat a) = a)
    (to_from : ∀ n, n < 256 ^ w → toNat (fromNat n) = n) : Codec α where
  size := w
  encode a := encodeLE w (toNat a)
  decode bs := fromNat (decodeLE w bs)
  length_encode a := length_encodeLE w _
  decode_encode a rest := by
    rw [decodeLE_encodeLE, Nat.mod_eq_of_lt (toNat_lt a), from_to]
  encode_decode bs := by
    rw [to_from _ (decodeLE_lt w bs), encodeLE_decodeLE]

def uint8 : Codec UInt8 :=
  ofNat 1 UInt8.toNat UInt8.ofNat (fun a => a.toNat_lt) (fun a => by simp)
    (fun n h => UInt8.toNat_ofNat_of_lt' (by simpa using h))

def uint16 : Codec UInt16 :=
  ofNat 2 UInt16.toNat UInt16.ofNat (fun a => a.toNat_lt) (fun a => by simp)
    (fun n h => UInt16.toNat_ofNat_of_lt' (by simpa using h))

def uint32 : Codec UInt32 :=
  ofNat 4 UInt32.toNat UInt32.ofNat (fun a => a.toNat_lt) (fun a => by simp)
    (fun n h => UInt32.toNat_ofNat_of_lt' (by simpa using h))

def uint64 : Codec UInt64 :=
  ofNat 8 UInt64.toNat UInt64.ofNat (fun a => a.toNat_lt) (fun a => by simp)
    (fun n h => UInt64.toNat_ofNat_of_lt' (by simpa using h))

/-- An array of raw bytes is its own layout. -/
def blob (n : Nat) : Codec (Blob n) where
  size := n
  encode b := b.val
  decode bs := readBlob n bs
  length_encode b := b.property
  decode_encode b rest := Subtype.ext (readBytes_append b.property rest)
  encode_decode _ := rfl

/-- Two fields, one after the other. -/
def prod (a : Codec α) (b : Codec β) : Codec (α × β) where
  size := a.size + b.size
  encode p := a.encode p.1 ++ b.encode p.2
  decode bs := (a.decode bs, b.decode (bs.drop a.size))
  length_encode p := by simp
  decode_encode p rest := by
    have hdrop : (a.encode p.1 ++ (b.encode p.2 ++ rest)).drop a.size = b.encode p.2 ++ rest := by
      rw [List.drop_append_of_le_length (by simp), List.drop_of_length_le (by simp), List.nil_append]
    rw [List.append_assoc, a.decode_encode, hdrop, b.decode_encode]
  encode_decode bs := by
    rw [a.encode_decode, b.encode_decode, readBytes_add]

/-- The layout of a record, through its tuple of fields. -/
def ofEquiv (c : Codec α) (e : β ≃ α) : Codec β where
  size := c.size
  encode b := c.encode (e b)
  decode bs := e.symm (c.decode bs)
  length_encode b := c.length_encode _
  decode_encode b rest := by simp
  encode_decode bs := by simp [c.encode_decode]

/-- The elements of an array, one after the other. -/
def encodeList (c : Codec α) (l : List α) : Bytes := l.flatMap c.encode

def decodeList (c : Codec α) : Nat → Bytes → List α
  | 0, _ => []
  | n + 1, bs => c.decode bs :: decodeList c n (bs.drop c.size)

@[simp] theorem length_decodeList (c : Codec α) (n : Nat) (bs : Bytes) :
    (decodeList c n bs).length = n := by
  induction n generalizing bs with
  | zero => rfl
  | succ n ih => simp [decodeList, ih]

theorem length_encodeList (c : Codec α) (l : List α) :
    (encodeList c l).length = l.length * c.size := by
  induction l with
  | nil => simp [encodeList]
  | cons a l ih =>
      have hcons : encodeList c (a :: l) = c.encode a ++ encodeList c l := rfl
      rw [hcons, List.length_append, ih, c.length_encode, List.length_cons, Nat.add_mul, one_mul,
        Nat.add_comm]

theorem decodeList_encodeList (c : Codec α) (l : List α) (rest : Bytes) :
    decodeList c l.length (encodeList c l ++ rest) = l := by
  induction l with
  | nil => rfl
  | cons a l ih =>
      have hcons : encodeList c (a :: l) ++ rest = c.encode a ++ (encodeList c l ++ rest) := by
        simp [encodeList]
      have hdrop : (c.encode a ++ (encodeList c l ++ rest)).drop c.size = encodeList c l ++ rest := by
        rw [List.drop_append_of_le_length (by simp), List.drop_of_length_le (by simp),
          List.nil_append]
      rw [hcons, List.length_cons, decodeList, c.decode_encode, hdrop, ih]

theorem encodeList_decodeList (c : Codec α) (n : Nat) (bs : Bytes) :
    encodeList c (decodeList c n bs) = readBytes (n * c.size) bs := by
  induction n generalizing bs with
  | zero => simp [decodeList, encodeList]
  | succ n ih =>
      have hcons : encodeList c (decodeList c (n + 1) bs) =
          c.encode (c.decode bs) ++ encodeList c (decodeList c n (bs.drop c.size)) := rfl
      rw [hcons, c.encode_decode, ih, ← readBytes_add]
      congr 1
      ring

@[simp] theorem encodeList_append (c : Codec α) (l m : List α) :
    encodeList c (l ++ m) = encodeList c l ++ encodeList c m := by
  simp [encodeList]

/-- Dropping whole elements from the layout of a list. -/
theorem drop_encodeList (c : Codec α) {l : List α} {m : Nat} (hm : m ≤ l.length) (rest : Bytes) :
    (encodeList c l ++ rest).drop (m * c.size) = encodeList c (l.drop m) ++ rest := by
  have hfront : (encodeList c (l.take m)).length = m * c.size := by
    rw [length_encodeList, List.length_take, Nat.min_eq_left hm]
  have hsplit : encodeList c l = encodeList c (l.take m) ++ encodeList c (l.drop m) := by
    rw [← encodeList_append, List.take_append_drop]
  rw [hsplit, List.append_assoc, ← hfront, List.drop_left]

/-- Reading whole elements from the layout of a list. -/
theorem readBytes_encodeList (c : Codec α) {l : List α} {m : Nat} (hm : m ≤ l.length)
    (rest : Bytes) : readBytes (m * c.size) (encodeList c l ++ rest) = encodeList c (l.take m) := by
  have hsplit : encodeList c l = encodeList c (l.take m) ++ encodeList c (l.drop m) := by
    rw [← encodeList_append, List.take_append_drop]
  rw [hsplit, List.append_assoc]
  apply readBytes_append
  rw [length_encodeList, List.length_take, Nat.min_eq_left hm]

/-- Lists with the same layout are equal, if elements take space. -/
theorem encodeList_inj (c : Codec α) (hsize : 0 < c.size) {l m : List α}
    (h : encodeList c l = encodeList c m) : l = m := by
  have hlen : l.length = m.length := by
    have := congrArg List.length h
    rw [length_encodeList, length_encodeList] at this
    exact Nat.eq_of_mul_eq_mul_right hsize this
  have hl := decodeList_encodeList c l []
  have hm := decodeList_encodeList c m []
  rw [← hl, ← hm, h, hlen]

/-- An array field. -/
def array (c : Codec α) (n : Nat) : Codec (Arr α n) where
  size := n * c.size
  encode a := encodeList c a.val
  decode bs := ⟨decodeList c n bs, length_decodeList c n bs⟩
  length_encode a := by rw [length_encodeList, a.property]
  decode_encode a rest := by
    apply Subtype.ext
    have := decodeList_encodeList c a.val rest
    rwa [a.property] at this
  encode_decode bs := encodeList_decodeList c n bs

end Codec

end Lib
end CrosEc
