import ZephyrOS.Lib.Bytes
import ZephyrOS.Lib.Region

/-!
# Records in byte buffers

A record is written as the bytes of its fields one after the other, and read back field by
field at fixed offsets. `Holds` (from `Lib.Region`) relates the two: a buffer that holds the
concatenation holds each field at its offset, and each kind of field has one lemma that
reads it back.
-/

namespace ZephyrOS.Lib

/-! ### Buffers of files -/

/-- The buffer a file was read into. -/
def bufferOf (bytes : List UInt8) : Nat → UInt8 := fun i => bytes.getD i 0

theorem holds_bufferOf (bytes : List UInt8) : Holds (bufferOf bytes) 0 bytes := by
  intro i x hi
  rw [zero_add, bufferOf, List.getD_eq_getElem?_getD, hi]
  rfl

/-- `n` cells of a buffer. -/
def slice (buf : Nat → UInt8) (off n : Nat) : List UInt8 := (List.range n).map fun i => buf (off + i)

@[simp] theorem length_slice (buf : Nat → UInt8) (off n : Nat) : (slice buf off n).length = n := by
  simp [slice]

variable {buf : Nat → UInt8} {off n v : Nat}

theorem Holds.slice {xs : List UInt8} (h : Holds buf off xs) (hn : xs.length = n) :
    slice buf off n = xs := by
  subst hn
  apply List.ext_getElem?
  intro i
  rcases lt_or_ge i xs.length with hi | hi
  · rw [slice, List.getElem?_map, List.getElem?_range hi, Option.map_some,
      List.getElem?_eq_getElem hi, h i xs[i] (List.getElem?_eq_getElem hi)]
  · rw [List.getElem?_eq_none (by simpa using hi), List.getElem?_eq_none hi]

/-- `n` cells of a buffer, as an array of that size. -/
def vectorAt (buf : Nat → UInt8) (off n : Nat) : Vector UInt8 n := Vector.ofFn fun i => buf (off + i)

theorem Holds.vectorAt {xs : Vector UInt8 n} (h : Holds buf off xs.toList) :
    vectorAt buf off n = xs := by
  apply Vector.ext
  intro i hi
  rw [Lib.vectorAt, Vector.getElem_ofFn]
  exact h i xs[i] (by simp [hi])

/-- All of `n` cells are zero. -/
def zeros (buf : Nat → UInt8) (off n : Nat) : Bool := (slice buf off n).all fun b => b == 0

theorem Holds.zeros (h : Holds buf off (List.replicate n 0)) : zeros buf off n = true := by
  rw [Lib.zeros, h.slice (List.length_replicate ..), List.all_eq_true]
  intro b hb
  rw [List.eq_of_mem_replicate hb]
  rfl

/-! ### Numbers -/

/-- A 16-bit number, low byte first. -/
def le16 (v : Nat) : List UInt8 := [UInt8.ofNat v, UInt8.ofNat (v >>> 8)]

/-- A 32-bit number, low byte first. -/
def le32 (v : Nat) : List UInt8 :=
  [UInt8.ofNat v, UInt8.ofNat (v >>> 8), UInt8.ofNat (v >>> 16), UInt8.ofNat (v >>> 24)]

@[simp] theorem length_le16 : (le16 v).length = 2 := rfl

@[simp] theorem length_le32 : (le32 v).length = 4 := rfl

theorem Holds.read16 (h : Holds buf off (le16 v)) (hv : v < 65536) : read16 buf off = v :=
  read16_of_bytes hv (h 0 _ rfl) (h 1 _ rfl)

theorem Holds.read32 (h : Holds buf off (le32 v)) (hv : v < 4294967296) : read32 buf off = v :=
  read32_of_bytes hv (h 0 _ rfl) (h 1 _ rfl) (h 2 _ rfl) (h 3 _ rfl)

theorem Holds.byte {b : UInt8} (h : Holds buf off [b]) : buf off = b := h 0 b rfl

/-! ### Texts

A text in a field of fixed size: the text, and zeros up to the size. -/

def padded (size : Nat) (text : List UInt8) : List UInt8 :=
  text ++ List.replicate (size - text.length) 0

/-- The text of a field, up to the first zero. -/
def textOf (field : List UInt8) : List UInt8 := field.takeWhile fun b => b != 0

/-- The field holds nothing after its text. -/
def clean (field : List UInt8) : Bool := (field.drop (textOf field).length).all fun b => b == 0

/-- Such a field is its text, padded. -/
theorem padded_textOf {field : List UInt8} (h : clean field = true) :
    padded field.length (textOf field) = field := by
  have htake : field.take (textOf field).length = textOf field :=
    (List.prefix_iff_eq_take.mp (List.takeWhile_prefix _)).symm
  have hdrop : field.drop (textOf field).length = List.replicate (field.length - (textOf field).length) 0 :=
    List.eq_replicate_iff.mpr ⟨List.length_drop .., by simpa [clean] using h⟩
  rw [padded, ← hdrop]
  nth_rewrite 1 [← htake]
  exact List.take_append_drop ..

end ZephyrOS.Lib
