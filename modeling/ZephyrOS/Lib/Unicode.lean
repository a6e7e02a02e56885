import Mathlib.Data.List.Basic

/-!
# UTF-8 and UTF-16

The two encodings of a list of Unicode scalar values. `Char` is the type of scalar values, so
a byte string is well-formed UTF-8 exactly when it is `utf8` of some list: there is no
overlong form, no surrogate and nothing above `0x10FFFF` to exclude.
-/

namespace ZephyrOS.Lib

open UInt8 String

/-- The UTF-8 bytes of a text. -/
def utf8 (text : List Char) : List UInt8 := text.flatMap String.utf8EncodeChar

/-- The one or two UTF-16 units of a scalar value. -/
def utf16Char (c : Char) : List Nat :=
  if c.toNat < 0x10000 then [c.toNat]
  else [0xD800 + (c.toNat - 0x10000) / 1024, 0xDC00 + (c.toNat - 0x10000) % 1024]

/-- The UTF-16 units of a text. -/
def utf16 (text : List Char) : List Nat := text.flatMap utf16Char

@[simp] theorem utf8_nil : utf8 [] = [] := rfl

variable {c : Char} {text : List Char} {b : UInt8} {n : Nat}

@[simp] theorem utf8_cons : utf8 (c :: text) = utf8EncodeChar c ++ utf8 text := rfl

@[simp] theorem utf16_nil : utf16 [] = [] := rfl

@[simp] theorem utf16_cons : utf16 (c :: text) = utf16Char c ++ utf16 text := rfl

/-! ### Scalar values -/

theorem char_scalar (c : Char) : c.toNat < 0xD800 ∨ 0xDFFF < c.toNat ∧ c.toNat < 0x110000 :=
  c.valid

theorem toNat_ofNat_scalar (h : n < 0xD800 ∨ 0xDFFF < n ∧ n < 0x110000) :
    (Char.ofNat n).toNat = n := by
  have hv : n.isValidChar := h
  rw [Char.ofNat, dif_pos hv]
  rfl

/-- The number of bytes, by the value. -/
theorem utf8EncodeChar_cases (c : Char) :
    c.toNat < 0x80 ∧ utf8EncodeChar c = [ofNat c.toNat]
    ∨ 0x80 ≤ c.toNat ∧ c.toNat < 0x800 ∧ utf8EncodeChar c
        = [ofNat (c.toNat / 64 + 192), ofNat (c.toNat % 64 + 128)]
    ∨ 0x800 ≤ c.toNat ∧ c.toNat < 0x10000 ∧ utf8EncodeChar c
        = [ofNat (c.toNat / 4096 + 224), ofNat (c.toNat / 64 % 64 + 128),
            ofNat (c.toNat % 64 + 128)]
    ∨ 0x10000 ≤ c.toNat ∧ utf8EncodeChar c
        = [ofNat (c.toNat / 262144 + 240), ofNat (c.toNat / 4096 % 64 + 128),
            ofNat (c.toNat / 64 % 64 + 128), ofNat (c.toNat % 64 + 128)] := by
  have hc := char_scalar c
  have hval : c.val.toNat = c.toNat := rfl
  unfold utf8EncodeChar
  simp only [hval]
  by_cases h1 : c.toNat ≤ 127
  · exact .inl ⟨by omega, by rw [if_pos h1]⟩
  by_cases h2 : c.toNat ≤ 2047
  · refine .inr (.inl ⟨by omega, by omega, ?_⟩)
    rw [if_neg h1, if_pos h2, show c.toNat / 64 % 32 = c.toNat / 64 by omega]
  by_cases h3 : c.toNat ≤ 65535
  · refine .inr (.inr (.inl ⟨by omega, by omega, ?_⟩))
    rw [if_neg h1, if_neg h2, if_pos h3, show c.toNat / 4096 % 16 = c.toNat / 4096 by omega]
  · refine .inr (.inr (.inr ⟨by omega, ?_⟩))
    rw [if_neg h1, if_neg h2, if_neg h3, show c.toNat / 262144 % 8 = c.toNat / 262144 by omega]

/-! ### Bytes of a form -/

theorem ofNat_eq_of_toNat (h : b.toNat = n) : ofNat n = b := by
  rw [← h, UInt8.ofNat_toNat]

theorem toNat_ofNat_byte (h : n < 256) : (UInt8.ofNat n).toNat = n := by
  exact Nat.mod_eq_of_lt h

/-- A continuation byte, by its two upper bits. -/
theorem continuation_iff : (b &&& 0xC0 = 0x80) ↔ (128 ≤ b.toNat ∧ b.toNat < 192) := by
  have h : ∀ n : Fin 256, (ofNat n &&& 0xC0 = 0x80) ↔ (128 ≤ n.val ∧ n.val < 192) := by
    decide +kernel
  simpa using h ⟨b.toNat, b.toNat_lt⟩

/-- The low bits a mask leaves. -/
theorem and_mask_toNat :
    (b &&& 0x3F).toNat = b.toNat % 64 ∧ (b &&& 0x1F).toNat = b.toNat % 32
      ∧ (b &&& 0x0F).toNat = b.toNat % 16 ∧ (b &&& 0x07).toNat = b.toNat % 8 := by
  have h : ∀ n : Fin 256, (ofNat n &&& 0x3F).toNat = n.val % 64
      ∧ (ofNat n &&& 0x1F).toNat = n.val % 32 ∧ (ofNat n &&& 0x0F).toNat = n.val % 16
      ∧ (ofNat n &&& 0x07).toNat = n.val % 8 := by
    decide +kernel
  simpa using h ⟨b.toNat, b.toNat_lt⟩

end ZephyrOS.Lib
