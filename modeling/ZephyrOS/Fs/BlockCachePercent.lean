import Mathlib.Algebra.Group.Nat.Defs
import ZephyrOS.Core.Errors

/-!
# The hit rate

`block_cache_divide_u64` divides bit by bit in 32-bit registers. The bit shifted out of the
remainder is kept as a carry: where it is set the divisor goes into the 33 bits, and the wrapped
subtraction takes it off again.
-/

namespace ZephyrOS.BlockCache

open Nat

/-- A round: the next remainder, and whether the divisor was subtracted. -/
def divideRound (divisor word bit remainder : Nat) : Nat × Bool :=
  let carry := remainder >>> 31
  let shifted := u32 (remainder <<< 1) ||| ((word >>> bit) &&& 1)
  if carry ≠ 0 ∨ divisor ≤ shifted then (sub32 shifted divisor, true) else (shifted, false)

/-- A loop with `bit` rounds left. -/
def divideLoop (divisor word : Nat) : Nat → Nat → Nat → Nat × Nat
  | 0, remainder, quotient => (remainder, quotient)
  | bit + 1, remainder, quotient =>
    let round := divideRound divisor word bit remainder
    divideLoop divisor word bit round.1 (if round.2 then quotient ||| 1 <<< bit else quotient)

def divideU64 (high low divisor : Nat) : Nat :=
  if divisor = 0 then 0
  else
    -- of the loop over `high` only the remainder is kept
    let remainder := (divideLoop divisor high 32 0 0).1
    (divideLoop divisor low 32 remainder 0).2

/-- The loop of `block_cache_percent`: the high and the low word. -/
def percentLoop (numerator : Nat) : Nat → Nat × Nat
  | 0 => (0, 0)
  | index + 1 =>
    let (high, previous) := percentLoop numerator index
    let low := u32 (previous + numerator)
    (if low < previous then u32 (high + 1) else high, low)

def percent (numerator denominator : Nat) : Nat :=
  if denominator = 0 then 0
  else
    let sum := percentLoop numerator 100
    divideU64 sum.1 sum.2 denominator

variable {divisor remainder : Nat} (hd : divisor < 4294967296)

include hd

/-- With the bit it takes in, the divisor goes into the remainder once or not at all. -/
theorem divideRound_eq (word bit : Nat) (hr : remainder < divisor) :
    let round := divideRound divisor word bit remainder
    round.1 < divisor ∧
      2 * remainder + word / 2 ^ bit % 2 = round.1 + divisor * round.2.toNat := by
  have hbit : (word >>> bit) &&& 1 = word / 2 ^ bit % 2 := by
    rw [and_one_is_mod, shiftRight_eq_div_pow]
  have hlt : word / 2 ^ bit % 2 < 2 := mod_lt _ (by decide)
  have hshift : u32 (remainder <<< 1) ||| (word / 2 ^ bit % 2)
      = 2 * remainder % 4294967296 + word / 2 ^ bit % 2 := by
    have heven : u32 (remainder <<< 1) = (2 * remainder % 4294967296 / 2) <<< 1 := by
      rw [u32, shiftLeft_eq, shiftLeft_eq]
      omega
    rw [heven, ← shiftLeft_add_eq_or_of_lt hlt, shiftLeft_eq]
    omega
  have hcarry : remainder >>> 31 = remainder / 2147483648 := shiftRight_eq_div_pow ..
  simp only [divideRound, hbit, hshift, hcarry]
  split
  · simp only [sub32, u32, Bool.toNat_true]
    omega
  · simp only [Bool.toNat_false]
    omega

/-- The bits of the quotient below the current one are still clear. -/
theorem divideLoop_eq (word bit quotient : Nat) (hr : remainder < divisor) :
    let rest := remainder * 2 ^ bit + word % 2 ^ bit
    divideLoop divisor word bit remainder (2 ^ bit * quotient)
      = (rest % divisor, 2 ^ bit * quotient + rest / divisor) := by
  induction bit generalizing remainder quotient with
  | zero => simp [divideLoop, mod_one, mod_eq_of_lt hr, div_eq_of_lt hr]
  | succ bit ih =>
    obtain ⟨hlt, hround⟩ := divideRound_eq hd word bit hr
    rw [divideLoop]
    generalize divideRound divisor word bit remainder = round at hlt hround
    have hrest : remainder * 2 ^ (bit + 1) + word % 2 ^ (bit + 1)
        = round.1 * 2 ^ bit + word % 2 ^ bit + divisor * (2 ^ bit * round.2.toNat) := by
      have := congrArg (2 ^ bit * ·) hround
      grind [mod_pow_succ]
    have hor : 2 ^ (bit + 1) * quotient ||| 1 <<< bit = 2 ^ bit * (2 * quotient + 1) := by
      have hpow : 2 ^ bit < 2 ^ (bit + 1) := Nat.pow_lt_pow_succ (by decide)
      rw [one_shiftLeft, ← two_pow_add_eq_or_of_lt hpow]
      grind
    have hquot : (if round.2 then 2 ^ (bit + 1) * quotient ||| 1 <<< bit
        else 2 ^ (bit + 1) * quotient) = 2 ^ bit * (2 * quotient + round.2.toNat) := by
      split <;> grind
    rw [hquot, ih _ hlt, hrest]
    dsimp only
    rw [add_mul_mod_self_left, add_mul_div_left _ _ (zero_lt_of_lt hr)]
    grind

theorem divideU64_eq {high low : Nat} (hhigh : high < 4294967296) (hlow : low < 4294967296)
    (h0 : divisor ≠ 0) :
    divideU64 high low divisor = (high * 4294967296 + low) / divisor % 4294967296 := by
  have hpos : 0 < divisor := Nat.pos_of_ne_zero h0
  have hr : high % divisor < divisor := mod_lt _ hpos
  have hsplit : high * 4294967296 + low
      = high % divisor * 4294967296 + low + divisor * (high / divisor * 4294967296) := by
    have := mod_add_div high divisor
    grind
  have hlt : (high % divisor * 4294967296 + low) / divisor < 4294967296 := by
    rw [div_lt_iff_lt_mul hpos]
    omega
  have hhi := divideLoop_eq hd high 32 0 hpos
  have hlo := divideLoop_eq hd low 32 0 hr
  simp only [reducePow, Nat.mul_zero, Nat.zero_mul, Nat.zero_add, mod_eq_of_lt hhigh,
    mod_eq_of_lt hlow] at hhi hlo
  simp only [divideU64, if_neg h0, hhi, hlo]
  rw [hsplit, add_mul_div_left _ _ hpos, add_mul_mod_self_right, mod_eq_of_lt hlt]

omit hd

/-- The two words hold the sum: the high one is at most the number of rounds. -/
theorem percentLoop_eq {numerator index : Nat} (hn : numerator < 4294967296)
    (hi : index < 4294967296) :
    let sum := percentLoop numerator index
    sum.2 < 4294967296 ∧ sum.1 ≤ index ∧ sum.1 * 4294967296 + sum.2 = index * numerator := by
  induction index with
  | zero => simp [percentLoop]
  | succ index ih =>
    obtain ⟨hlow, hhigh, hsum⟩ := ih (lt_of_succ_lt hi)
    simp only [percentLoop, succ_mul, ← hsum]
    split <;> simp only [u32] at * <;> omega

theorem divideU64_percent_floor :
    (∀ high low divisor, high < 4294967296 → low < 4294967296 → divisor < 4294967296 →
      divisor ≠ 0 → divideU64 high low divisor
        = (high * 4294967296 + low) / divisor % 4294967296) ∧
    ∀ numerator denominator, numerator < 4294967296 → denominator < 4294967296 →
      denominator ≠ 0 → 100 * numerator / denominator < 4294967296 →
        percent numerator denominator = 100 * numerator / denominator := by
  refine ⟨fun high low divisor hhigh hlow hd h0 => divideU64_eq hd hhigh hlow h0, ?_⟩
  intro numerator denominator hn hd h0 hfit
  obtain ⟨hlow, hhigh, hsum⟩ := percentLoop_eq hn (show 100 < 4294967296 by decide)
  rw [percent, if_neg h0]
  exact (divideU64_eq hd (by omega) hlow h0).trans (by rw [hsum, mod_eq_of_lt hfit])

/-- A divisor above `2 ^ 31`, where the carry decides. -/
theorem divideU64_percent_floor_carry :
    divideU64 4294967294 5 4294967295 = (4294967294 * 4294967296 + 5) / 4294967295 % 4294967296 ∧
      percent 2 3 = 66 :=
  ⟨divideU64_percent_floor.1 _ _ _ (by decide) (by decide) (by decide) (by decide),
    divideU64_percent_floor.2 2 3 (by decide) (by decide) (by decide) (by decide)⟩

end ZephyrOS.BlockCache
