import Mathlib.Tactic.Common

/-!
# A table of slots

A table of `n` slots where 0 marks a free one, searched from the front. Whatever is put
into the first free slot, and whatever slot is cleared, the table holds the names one
expects, as long as no name is in two slots.
-/

namespace ZephyrOS.Lib

open Function List

/-- The first slot that holds `x`. -/
def slotOf (n : Nat) (slots : Nat → Nat) (x : Nat) : Option Nat :=
  (List.range n).find? fun i => slots i = x

/-- A name, which is not 0, is in the table. -/
def Listed (n : Nat) (slots : Nat → Nat) (x : Nat) : Prop := x ≠ 0 ∧ ∃ i < n, slots i = x

/-- No name is in two slots. -/
def Distinct (n : Nat) (slots : Nat → Nat) : Prop :=
  ∀ i < n, ∀ j < n, slots i = slots j → slots i ≠ 0 → i = j

variable {n k x y : Nat} {slots : Nat → Nat}

theorem slotOf_some (h : slotOf n slots x = some k) : k < n ∧ slots k = x := by
  have hmem := mem_of_find?_eq_some h
  have hx := find?_some h
  exact ⟨mem_range.mp hmem, by simpa using hx⟩

theorem slotOf_isSome : (slotOf n slots x).isSome = true ↔ ∃ i < n, slots i = x := by
  unfold slotOf
  simp [find?_isSome]

theorem slotOf_none {i : Nat} (h : slotOf n slots x = none) (hi : i < n) : slots i ≠ x := by
  intro hx
  have := slotOf_isSome.mpr ⟨i, hi, hx⟩
  rw [h] at this
  cases this

/-- The search that takes 0 for no name. -/
theorem index_isSome :
    (if x = 0 then none else slotOf n slots x).isSome = true ↔ Listed n slots x := by
  by_cases hx : x = 0
  · simp [Listed, hx]
  · rw [if_neg hx, slotOf_isSome]
    exact (and_iff_right hx).symm

/-- One place of a table of tables is written. -/
theorem update_update_apply {α : Type} (f : Nat → Nat → α) (v : α) (a b : Nat) :
    update f x (update (f x) y v) a b = if a = x ∧ b = y then v else f a b := by
  by_cases ha : a = x
  · subst ha
    by_cases hb : b = y
    · subst hb
      simp
    · simp [hb]
  · simp [ha]

/-- Filling a free slot adds one name. -/
theorem listed_fill (hk : slotOf n slots 0 = some k) (hx : x ≠ 0) :
    Listed n (update slots k x) y ↔ Listed n slots y ∨ y = x := by
  obtain ⟨hkn, hk0⟩ := slotOf_some hk
  constructor
  · intro h
    obtain ⟨hy, i, hi, he⟩ := h
    by_cases hik : i = k
    · subst hik
      rw [update_self] at he
      exact .inr he.symm
    · rw [update_of_ne hik] at he
      exact .inl ⟨hy, i, hi, he⟩
  · intro h
    rcases h with ⟨hy, i, hi, he⟩ | rfl
    · refine ⟨hy, i, hi, ?_⟩
      rw [update_of_ne _, he]
      intro hik
      rw [hik, hk0] at he
      exact hy he.symm
    · exact ⟨hx, k, hkn, update_self ..⟩

theorem distinct_fill (hd : Distinct n slots) (hx : ¬ Listed n slots x) :
    Distinct n (update slots k x) := by
  intro i hi j hj he h0
  by_cases hik : i = k
  · by_cases hjk : j = k
    · rw [hik, hjk]
    · rw [hik, update_self, update_of_ne hjk] at he
      rw [hik, update_self] at h0
      exact absurd ⟨h0, j, hj, he.symm⟩ hx
  rw [update_of_ne hik] at he h0
  by_cases hjk : j = k
  · rw [hjk, update_self] at he
    exact absurd ⟨he ▸ h0, i, hi, he⟩ hx
  · rw [update_of_ne hjk] at he
    exact hd i hi j hj he h0

/-- A name that was put into a slot is found there, and clearing it restores the table. -/
theorem slotOf_fill (hk : slotOf n slots 0 = some k) (hx0 : x ≠ 0) (hx : ¬ Listed n slots x) :
    slotOf n (update slots k x) x = some k ∧ update (update slots k x) k 0 = slots := by
  obtain ⟨hkn, hk0⟩ := slotOf_some hk
  constructor
  · obtain ⟨j, hj⟩ := Option.isSome_iff_exists.mp
      (slotOf_isSome.mpr ⟨k, hkn, update_self (f := slots) k x⟩)
    rw [hj]
    obtain ⟨hjn, hjx⟩ := slotOf_some hj
    by_cases hjk : j = k
    · rw [hjk]
    · rw [update_of_ne hjk] at hjx
      exact absurd ⟨hx0, j, hjn, hjx⟩ hx
  · rw [update_idem, ← hk0, update_eq_self]

/-- Clearing the slot of a name removes that name and no other. -/
theorem listed_clear (hd : Distinct n slots) (hk : slotOf n slots x = some k) :
    Listed n (update slots k 0) y ↔ Listed n slots y ∧ y ≠ x := by
  obtain ⟨hkn, hkx⟩ := slotOf_some hk
  constructor
  · intro h
    obtain ⟨hy, i, hi, he⟩ := h
    have hik : i ≠ k := by
      intro hik
      rw [hik, update_self] at he
      exact hy he.symm
    rw [update_of_ne hik] at he
    refine ⟨⟨hy, i, hi, he⟩, fun hyx => hik (hd i hi k hkn ?_ ?_)⟩
    · rw [he, hyx, hkx]
    · rw [he]; exact hy
  · intro h
    obtain ⟨⟨hy, i, hi, he⟩, hyx⟩ := h
    refine ⟨hy, i, hi, ?_⟩
    rw [update_of_ne _, he]
    intro hik
    exact hyx (by rw [← he, hik, hkx])

theorem distinct_clear (hd : Distinct n slots) : Distinct n (update slots k 0) := by
  intro i hi j hj he h0
  have hik : i ≠ k := by
    intro hik
    rw [hik, update_self] at h0
    exact h0 rfl
  have hjk : j ≠ k := by
    intro hjk
    rw [he, hjk, update_self] at h0
    exact h0 rfl
  rw [update_of_ne hik] at he h0
  rw [update_of_ne hjk] at he
  exact hd i hi j hj he h0

end ZephyrOS.Lib
