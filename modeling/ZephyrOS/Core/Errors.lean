/-!
# Result codes and fixed-width arithmetic

`core/errors.h` gives every service one set of result codes. `OK` is the `ok`
side of an `Except`; the others are `Err`. Null-pointer guards (`ERR_NULL`) are
kept only where the argument really can be absent: a Lean value never is.

The kernel computes in `uint32_t` almost everywhere. Numbers are `Nat` here, and
`u32` marks the places where the source can wrap.
-/

namespace ZephyrOS

/-- The error codes of `core/errors.h`. -/
inductive Err where
  | null | mem | disk | notFound | overflow | invalid
  | state | timeout | unavailable | cancelled | again
  deriving DecidableEq, Repr

/-- `uint32_t` wrap-around. -/
def u32 (n : Nat) : Nat := n % 4294967296

theorem u32_of_lt {n : Nat} (h : n < 4294967296) : u32 n = n := Nat.mod_eq_of_lt h

/-- `a - b` in 32 bits. -/
def sub32 (a b : Nat) : Nat := u32 (a + (4294967296 - b))

theorem sub32_of_le {a b : Nat} (ha : a < 4294967296) (h : b ≤ a) : sub32 a b = a - b := by
  unfold sub32 u32
  omega

end ZephyrOS
