import Mathlib.Order.Interval.Finset.Nat

/-!
# A ring buffer as a sliding window

A writer that puts the `i`-th byte of a stream at `(base + i) % size` keeps the
last `size` bytes of the stream in the ring, whatever the ring held before.
`Window` states that, and `Window.push` is the only step that changes it.
-/

namespace ZephyrOS.Lib

variable {α : Type}

/-- The ring holds the last `size` items of the first `n` items of `stream`. -/
def Window (size base : Nat) (stream : Nat → α) (n : Nat) (ring : Nat → α) : Prop :=
  ∀ i, i < n → n ≤ i + size → ring ((base + i) % size) = stream i

theorem Window.zero (size base : Nat) (stream : Nat → α) (ring : Nat → α) :
    Window size base stream 0 ring := by
  intro i hi; exact absurd hi (Nat.not_lt_zero i)

/-- **Writing the next item slides the window by one.** -/
theorem Window.push {size base n : Nat} {stream ring : Nat → α}
    (h : Window size base stream n ring) :
    Window size base stream (n + 1) (Function.update ring ((base + n) % size) (stream n)) := by
  intro i hi hw
  rcases lt_or_eq_of_le (Nat.le_of_lt_succ hi) with hlt | heq
  · -- two positions less than a ring apart do not collide
    have hne : (base + i) % size ≠ (base + n) % size := by
      intro hc
      have := Nat.mod_injOn_Ico (base + i) size (by simp; omega) (by simp; omega) hc
      omega
    rw [Function.update_of_ne hne]
    exact h i hlt (by omega)
  · subst heq; exact Function.update_self ..

end ZephyrOS.Lib
