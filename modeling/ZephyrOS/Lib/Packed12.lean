import ZephyrOS.Lib.Bytes

/-!
# Twelve-bit entries packed into byte memory

Two entries share three bytes, so an entry starts on a byte or in the middle of
one and is reached through the little-endian pair of bytes it lies in. In the bit
string of the memory entry `c` is simply the bits from `12 * c` on, and that is how
every fact about it is stated here: an update that spares those bits, in whatever
bytes, spares the entry.
-/

namespace ZephyrOS.Lib

open Nat

/-- Entry `c`. -/
def get12 (mem : Nat → UInt8) (c : Nat) : Nat :=
  let v := read16 mem (c + c / 2)
  if c % 2 = 1 then v >>> 4 else v &&& 0x0FFF

/-- The memory with entry `c` set to `v`. -/
def set12 (mem : Nat → UInt8) (c v : Nat) : Nat → UInt8 :=
  let old := read16 mem (c + c / 2)
  write16 mem (c + c / 2)
    (if c % 2 = 1 then (old &&& 0x000F) ||| (v <<< 4) else (old &&& 0xF000) ||| v)

variable {j : Nat} {mem : Nat → UInt8} {c v : Nat}

/-- Entry `c` is the twelve bits from `12 * c` on. -/
theorem testBit_get12 (c : Nat) :
    (get12 mem c).testBit j = (decide (j < 12) && bitAt mem (12 * c + j)) := by
  unfold get12
  by_cases hodd : c % 2 = 1
  · rw [if_pos hodd, testBit_shiftRight]
    by_cases hj : j < 12
    · rw [testBit_read16 (by omega), decide_eq_true hj]
      congr 1; omega
    · rw [decide_eq_false hj]
      exact testBit_lt_two_pow (Nat.lt_of_lt_of_le (read16_lt mem _)
        (show 2 ^ 16 ≤ 2 ^ (4 + j) from Nat.pow_le_pow_right (by decide) (by omega)))
  · rw [if_neg hodd, testBit_and, show (0x0FFF : Nat) = 2 ^ 12 - 1 from rfl,
      testBit_two_pow_sub_one, Bool.and_comm]
    by_cases hj : j < 12
    · rw [testBit_read16 (by omega)]
      congr 2; omega
    · rw [decide_eq_false hj, Bool.false_and, Bool.false_and]

/-- Two memories have the same bits in entry `c`. -/
def SameEntry (mem mem' : Nat → UInt8) (c : Nat) : Prop :=
  ∀ j, j < 12 → bitAt mem (12 * c + j) = bitAt mem' (12 * c + j)

theorem SameEntry.get12_eq {mem' : Nat → UInt8} (h : SameEntry mem mem' c) :
    get12 mem c = get12 mem' c := by
  apply eq_of_testBit_eq
  intro j
  rw [testBit_get12, testBit_get12]
  by_cases hj : j < 12
  · rw [h j hj]
  · rw [decide_eq_false hj, Bool.false_and, Bool.false_and]

theorem testBit_mask_high (h : j < 16) : (0xF000 : Nat).testBit j = decide (12 ≤ j) := by
  revert h j; decide

theorem testBit_mask_low : (0x000F : Nat).testBit j = decide (j < 4) := by
  rw [show (0x000F : Nat) = 2 ^ 4 - 1 from rfl, testBit_two_pow_sub_one]

/-- Setting an entry changes its own bits and no others. -/
theorem bitAt_set12 (hv : v < 4096) (p : Nat) :
    bitAt (set12 mem c v) p
      = if 12 * c ≤ p ∧ p < 12 * c + 12 then v.testBit (p - 12 * c) else bitAt mem p := by
  unfold set12
  rw [bitAt_write16]
  by_cases hin : 8 * (c + c / 2) ≤ p ∧ p < 8 * (c + c / 2) + 16
  · -- `p` is in the pair of bytes: either in the entry or in the nibble it shares
    obtain ⟨i, hi, rfl⟩ : ∃ i, i < 16 ∧ p = 8 * (c + c / 2) + i :=
      ⟨p - 8 * (c + c / 2), by omega, by omega⟩
    rw [if_pos hin, Nat.add_sub_cancel_left]
    by_cases hodd : c % 2 = 1
    · rw [if_pos hodd, testBit_or, testBit_and, testBit_mask_low, testBit_read16 hi,
        testBit_shiftLeft]
      by_cases h4 : i < 4
      · rw [if_neg (by omega)]
        simp [h4, not_le.mpr h4]
      rw [if_pos (by omega)]
      simp only [h4, not_lt.mp h4, decide_true, decide_false, Bool.and_false,
        Bool.false_or, Bool.true_and]
      congr 1; omega
    · rw [if_neg hodd, testBit_or, testBit_and, testBit_mask_high hi, testBit_read16 hi]
      by_cases h12 : 12 ≤ i
      · rw [if_neg (by omega), decide_eq_true h12, Bool.and_true,
          testBit_lt_two_pow (lt_of_lt_of_le hv
            (show 2 ^ 12 ≤ 2 ^ i from Nat.pow_le_pow_right (by decide) h12)), Bool.or_false]
      · rw [if_pos (by omega), decide_eq_false h12, Bool.and_false, Bool.false_or]
        congr 1; omega
  · rw [if_neg hin, if_neg (by omega)]

theorem get12_set12_self (hv : v < 4096) : get12 (set12 mem c v) c = v := by
  apply eq_of_testBit_eq
  intro j
  rw [testBit_get12, bitAt_set12 hv]
  by_cases hj : j < 12
  · rw [if_pos (by omega), decide_eq_true hj, Bool.true_and, Nat.add_sub_cancel_left]
  · rw [decide_eq_false hj, Bool.false_and, testBit_lt_two_pow (lt_of_lt_of_le hv
      (show 2 ^ 12 ≤ 2 ^ j from Nat.pow_le_pow_right (by decide) (by omega)))]

theorem SameEntry.trans {m m' m'' : Nat → UInt8} (h : SameEntry m m' c)
    (h' : SameEntry m' m'' c) : SameEntry m m'' c := fun j hj => (h j hj).trans (h' j hj)

theorem sameEntry_set12 {c' : Nat} (hv : v < 4096) (hne : c' ≠ c) :
    SameEntry (set12 mem c v) mem c' := by
  intro j hj
  rw [bitAt_set12 hv, if_neg (by omega)]

/-- An entry whose bytes each come from one of two memories that both have it. -/
theorem SameEntry.mix {a b ref : Nat → UInt8} (ha : SameEntry a ref c) (hb : SameEntry b ref c)
    (h : ∀ k, (12 * c) / 8 ≤ k → k ≤ (12 * c + 11) / 8 → mem k = a k ∨ mem k = b k) :
    SameEntry mem ref c := by
  intro j hj
  rcases h ((12 * c + j) / 8) (by omega) (by omega) with hk | hk
  · rw [← ha j hj]; unfold bitAt; rw [hk]
  · rw [← hb j hj]; unfold bitAt; rw [hk]

end ZephyrOS.Lib
