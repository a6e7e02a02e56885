import Mathlib.Data.List.Basic

/-!
# Regions of a byte-addressed buffer

A buffer is a total function from addresses to cells, as a C pointer is to the
code that holds it. What a stretch of it contains is a list, and `Holds` says so.
The lemmas are the ones every caller needs: a region splits where its list does,
and a write outside it leaves it alone.
-/

namespace ZephyrOS.Lib

open Function

variable {α : Type} {buf : Nat → α} {off : Nat} {xs : List α}

/-- The cells of `buf` from `off` on are exactly `xs`. -/
def Holds (buf : Nat → α) (off : Nat) (xs : List α) : Prop :=
  ∀ (i : Nat) (x : α), xs[i]? = some x → buf (off + i) = x

theorem Holds.nil : Holds buf off [] := by
  intro i x h; simp at h

theorem holds_append {ys : List α} :
    Holds buf off (xs ++ ys) ↔ Holds buf off xs ∧ Holds buf (off + xs.length) ys := by
  constructor
  · intro h
    refine ⟨fun i x hi => ?_, fun i y hi => ?_⟩
    · have hlt : i < xs.length := (getElem?_eq_some_iff.mp hi).1
      exact h i x (by rw [List.getElem?_append_left hlt]; exact hi)
    · have := h (xs.length + i) y (by rw [List.getElem?_append_right (by omega)]; simpa using hi)
      rwa [← Nat.add_assoc] at this
  · rintro ⟨hx, hy⟩ i x hi
    rcases Nat.lt_or_ge i xs.length with hlt | hge
    · rw [List.getElem?_append_left hlt] at hi
      exact hx i x hi
    · rw [List.getElem?_append_right hge] at hi
      have := hy (i - xs.length) x hi
      rwa [show off + xs.length + (i - xs.length) = off + i by omega] at this

theorem holds_cons {x : α} : Holds buf off (x :: xs) ↔ buf off = x ∧ Holds buf (off + 1) xs := by
  rw [← List.singleton_append, holds_append]
  refine and_congr_left fun _ => ⟨fun h => h 0 x rfl, fun h i y hi => ?_⟩
  have h0 : i = 0 := by have := (getElem?_eq_some_iff.mp hi).1; simpa using this
  subst h0
  simpa [h] using hi

/-- A write outside the region leaves what it holds. -/
theorem Holds.update_outside {a : Nat} {v : α} (h : Holds buf off xs)
    (ha : a < off ∨ off + xs.length ≤ a) : Holds (update buf a v) off xs := by
  intro i x hi
  have hlt : i < xs.length := (getElem?_eq_some_iff.mp hi).1
  rw [update_of_ne (by omega)]
  exact h i x hi

/-- Appending one cell at the region's end. -/
theorem Holds.snoc {buf : Nat → α} {off : Nat} {xs : List α} {v : α}
    (h : Holds buf off xs) :
    Holds (update buf (off + xs.length) v) off (xs ++ [v]) := by
  rw [holds_append, holds_cons]
  exact ⟨h.update_outside (.inr (Nat.le_refl _)), update_self .., Holds.nil⟩

end ZephyrOS.Lib
