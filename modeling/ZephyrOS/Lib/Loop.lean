/-!
# Counted loops

`for (i = 0; i < n; i++)` over a state, plain and with an early error exit. A
property of the loop is a property of the number of rounds done, so the one rule
each has is the invariant indexed by that number.
-/

namespace ZephyrOS.Lib

variable {σ ε : Type}

/-- Run `step first`, `step (first + 1)`, ..., `n` rounds in all. -/
def forRange (first : Nat) (step : Nat → σ → σ) : Nat → σ → σ
  | 0, s => s
  | n + 1, s => step (first + n) (forRange first step n s)

/-- The invariant rule of `forRange`. -/
theorem forRange_induct {first n : Nat} {step : Nat → σ → σ} {s : σ} (P : Nat → σ → Prop)
    (h0 : P 0 s) (hstep : ∀ k t, k < n → P k t → P (k + 1) (step (first + k) t)) :
    P n (forRange first step n s) := by
  have key : ∀ k, k ≤ n → P k (forRange first step k s) := by
    intro k
    induction k with
    | zero => intro _; exact h0
    | succ k ih => intro hk; exact hstep k _ hk (ih (Nat.le_of_succ_le hk))
  exact key n (Nat.le_refl n)

/-- The same loop, left at the first error. -/
def forRangeE (first : Nat) (step : Nat → σ → Except ε σ) : Nat → σ → Except ε σ
  | 0, s => .ok s
  | n + 1, s =>
    match forRangeE first step n s with
    | .error e => .error e
    | .ok t => step (first + n) t

/-- A round that cannot fail under the invariant never ends the loop early. -/
theorem forRangeE_induct {first n : Nat} {step : Nat → σ → Except ε σ} {s : σ}
    (P : Nat → σ → Prop) (h0 : P 0 s)
    (hstep : ∀ k t, k < n → P k t → ∃ t', step (first + k) t = .ok t' ∧ P (k + 1) t') :
    ∃ t, forRangeE first step n s = .ok t ∧ P n t := by
  have key : ∀ k, k ≤ n → ∃ t, forRangeE first step k s = .ok t ∧ P k t := by
    intro k
    induction k with
    | zero => intro _; exact ⟨s, rfl, h0⟩
    | succ k ih =>
      intro hk
      obtain ⟨t, ht, hp⟩ := ih (Nat.le_of_succ_le hk)
      rw [forRangeE, ht]
      exact hstep k t hk hp
  exact key n (Nat.le_refl n)

end ZephyrOS.Lib
