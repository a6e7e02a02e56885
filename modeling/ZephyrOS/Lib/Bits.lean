import Mathlib.Data.Nat.Bitwise

/-!
# Byte memory as a string of bits

A bitmap and a table of three-bit tags are both stretches of one bit string laid
over a byte memory. Every access is described by the bits it reads or writes, and
then two accesses interfere exactly when their bit ranges meet, whatever bytes
they share.
-/

namespace ZephyrOS.Lib

open Function Nat

/-- Bit `p` of the memory: bit `p % 8` of byte `p / 8`. -/
def bitAt (mem : Nat → UInt8) (p : Nat) : Bool := (mem (p / 8)).toNat.testBit (p % 8)

variable {mem : Nat → UInt8} {j : Nat} {b : UInt8} {base : Nat}

theorem bitAt_update (a : Nat) (v : UInt8) (p : Nat) :
    bitAt (update mem a v) p = if p / 8 = a then v.toNat.testBit (p % 8) else bitAt mem p := by
  unfold bitAt
  by_cases h : p / 8 = a
  · rw [if_pos h, h, update_self]
  · rw [if_neg h, update_of_ne h]

theorem testBit_byte_of_ge (h : 8 ≤ j) : b.toNat.testBit j = false :=
  testBit_lt_two_pow (lt_of_lt_of_le b.toNat_lt (Nat.pow_le_pow_right (by decide) h))

/-- Set bit `k` of the bit string that starts at byte `base`. -/
def setBit (mem : Nat → UInt8) (base k : Nat) : Nat → UInt8 :=
  update mem (base + k / 8) (mem (base + k / 8) ||| UInt8.ofNat (1 <<< (k % 8)))

/-- Clear bit `k` of the bit string that starts at byte `base`. -/
def clearBit (mem : Nat → UInt8) (base k : Nat) : Nat → UInt8 :=
  update mem (base + k / 8) (mem (base + k / 8) &&& ~~~ (UInt8.ofNat (1 <<< (k % 8))))

theorem testBit_one_shiftLeft_byte {i : Nat} (hi : i < 8) :
    (UInt8.ofNat (1 <<< i)).toNat.testBit j = decide (i = j) := by
  have h : 1 <<< i < 256 := by
    rw [one_shiftLeft]; exact Nat.pow_lt_pow_right (show 1 < 2 by decide) hi
  rw [UInt8.toNat_ofNat', mod_eq_of_lt h, one_shiftLeft, testBit_two_pow]

theorem bitAt_setBit (k p : Nat) :
    bitAt (setBit mem base k) p = if p = 8 * base + k then true else bitAt mem p := by
  unfold setBit
  rw [bitAt_update]
  by_cases h : p / 8 = base + k / 8
  · rw [if_pos h, UInt8.toNat_or, testBit_or,
      testBit_one_shiftLeft_byte (mod_lt k (by decide)), ← h]
    by_cases hk : p = 8 * base + k
    · rw [if_pos hk, decide_eq_true (by omega), Bool.or_true]
    · rw [if_neg hk, decide_eq_false (by omega), Bool.or_false]
      rfl
  · rw [if_neg h, if_neg (by omega)]

theorem bitAt_clearBit (k p : Nat) :
    bitAt (clearBit mem base k) p = if p = 8 * base + k then false else bitAt mem p := by
  unfold clearBit
  rw [bitAt_update]
  by_cases h : p / 8 = base + k / 8
  · have hcompl : (~~~ (UInt8.ofNat (1 <<< (k % 8)))).toNat.testBit (p % 8)
        = !decide (k % 8 = p % 8) := by
      rw [UInt8.toNat_not, ← testBit_one_shiftLeft_byte (mod_lt k (by decide)),
        show UInt8.size - 1 - (UInt8.ofNat (1 <<< (k % 8))).toNat
          = 2 ^ 8 - ((UInt8.ofNat (1 <<< (k % 8))).toNat + 1) by
            rw [show UInt8.size = 2 ^ 8 from rfl]; omega,
        testBit_two_pow_sub_succ (UInt8.toNat_lt _)]
      simp [mod_lt p (show 0 < 8 by decide)]
    rw [if_pos h, UInt8.toNat_and, testBit_and, hcompl, ← h]
    by_cases hk : p = 8 * base + k
    · rw [if_pos hk, decide_eq_true (by omega), Bool.not_true, Bool.and_false]
    · rw [if_neg hk, decide_eq_false (by omega), Bool.not_false, Bool.and_true]
      rfl
  · rw [if_neg h, if_neg (by omega)]

/-- Two bytes read as one little-endian number. -/
theorem testBit_two_bytes (b : Nat) (h : j < 16) :
    ((mem b).toNat ||| ((mem (b + 1)).toNat <<< 8)).testBit j = bitAt mem (8 * b + j) := by
  rw [testBit_or]
  unfold bitAt
  rcases lt_or_ge j 8 with hj | hj
  · rw [show (8 * b + j) / 8 = b by omega, show (8 * b + j) % 8 = j by omega]
    simp [not_le.mpr hj]
  · rw [testBit_byte_of_ge hj, show (8 * b + j) / 8 = b + 1 by omega,
      show (8 * b + j) % 8 = j - 8 by omega]
    simp [hj]

end ZephyrOS.Lib
