import ZephyrOS.Lib.Bits

/-!
# Little-endian numbers in byte memory

Two and four bytes read as one number, by shifts and `or` as C code does it and, in
the lemmas, by their value.
-/

namespace ZephyrOS.Lib

open UInt8

/-- The two bytes at `b` as one number. -/
def read16 (mem : Nat → UInt8) (b : Nat) : Nat := (mem b).toNat ||| ((mem (b + 1)).toNat <<< 8)

/-- The four bytes at `b` as one number. -/
def read32 (mem : Nat → UInt8) (b : Nat) : Nat := read16 mem b ||| (read16 mem (b + 2) <<< 16)

/-- Store the low sixteen bits of `v` at `b`. -/
def write16 (mem : Nat → UInt8) (b v : Nat) : Nat → UInt8 :=
  Function.update (Function.update mem b (UInt8.ofNat v)) (b + 1) (UInt8.ofNat (v >>> 8))

variable {b : Nat} {mem : Nat → UInt8} {v j : Nat}

theorem or_shiftLeft_eq {a n : Nat} (h : a < 2 ^ n) : a ||| (b <<< n) = a + b * 2 ^ n := by
  rw [Nat.or_comm, Nat.shiftLeft_eq, mul_comm b, ← Nat.two_pow_add_eq_or_of_lt h, add_comm]

theorem read16_eq : read16 mem b = (mem b).toNat + (mem (b + 1)).toNat * 256 :=
  or_shiftLeft_eq (mem b).toNat_lt

theorem read16_lt (mem : Nat → UInt8) (b : Nat) : read16 mem b < 65536 := by
  rw [read16_eq]
  have h1 := (mem b).toNat_lt
  have h2 := (mem (b + 1)).toNat_lt
  omega

theorem read32_eq : read32 mem b = read16 mem b + read16 mem (b + 2) * 65536 :=
  or_shiftLeft_eq (read16_lt mem b)

theorem read32_lt (mem : Nat → UInt8) (b : Nat) : read32 mem b < 4294967296 := by
  rw [read32_eq]
  have h1 := read16_lt mem b
  have h2 := read16_lt mem (b + 2)
  omega

/-- The bytes of a number read back as that number. -/
theorem read16_of_bytes (hv : v < 65536)
    (h0 : mem b = ofNat v) (h1 : mem (b + 1) = ofNat (v >>> 8)) : read16 mem b = v := by
  rw [read16_eq, h0, h1, toNat_ofNat', toNat_ofNat']
  omega

theorem read32_of_bytes (hv : v < 4294967296)
    (h0 : mem b = ofNat v) (h1 : mem (b + 1) = ofNat (v >>> 8))
    (h2 : mem (b + 2) = ofNat (v >>> 16)) (h3 : mem (b + 3) = ofNat (v >>> 24)) :
    read32 mem b = v := by
  rw [read32_eq, read16_eq, read16_eq, h0, h1, h2, h3]
  simp only [toNat_ofNat', Nat.shiftRight_eq_div_pow]
  omega

theorem testBit_read16 (h : j < 16) :
    (read16 mem b).testBit j = bitAt mem (8 * b + j) := testBit_two_bytes b h

theorem testBit_byte (h : j < 8) : (ofNat v).toNat.testBit j = v.testBit j := by
  rw [toNat_ofNat', Nat.testBit_mod_two_pow]
  simp [h]

theorem bitAt_write16 (p : Nat) :
    bitAt (write16 mem b v) p
      = if 8 * b ≤ p ∧ p < 8 * b + 16 then v.testBit (p - 8 * b) else bitAt mem p := by
  unfold write16
  rw [bitAt_update, bitAt_update]
  by_cases hhigh : p / 8 = b + 1
  · rw [if_pos hhigh, if_pos (by omega), testBit_byte (Nat.mod_lt p (by decide)),
      Nat.testBit_shiftRight]
    congr 1; omega
  rw [if_neg hhigh]
  by_cases hlow : p / 8 = b
  · rw [if_pos hlow, if_pos (by omega), testBit_byte (Nat.mod_lt p (by decide))]
    congr 1; omega
  · rw [if_neg hlow, if_neg (by omega)]

end ZephyrOS.Lib
