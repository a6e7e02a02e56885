import Mathlib.Algebra.BigOperators.Group.Finset.Piecewise
import Mathlib.Algebra.GroupWithZero.Nat
import Mathlib.Algebra.Order.BigOperators.Group.Finset

/-!
# Sums over a table

A loop that adds up one number for every entry of a table, and what becomes of the
sum when one entry changes. Counting is adding ones.
-/

namespace ZephyrOS.Lib

open Function Finset

/-- `for (i = 0; i < n; i++) sum += f(i)`. -/
def tally (n : Nat) (f : Nat → Nat) : Nat := ((List.range n).map f).sum

/-- `for (i = 0; i < n; i++) if (p(i)) sum++`. -/
def countIf (n : Nat) (p : Nat → Bool) : Nat := tally n fun i => if p i then 1 else 0

theorem tally_eq_sum (n : Nat) (f : Nat → Nat) : tally n f = ∑ i ∈ Finset.range n, f i := rfl

variable {n v k : Nat} {p : Nat → Bool} {f : Nat → Nat}

theorem tally_congr {g : Nat → Nat} (h : ∀ i < n, f i = g i) : tally n f = tally n g := by
  exact sum_congr rfl fun i hi => h i (mem_range.mp hi)

/-- One entry changes. -/
theorem tally_change {n i : Nat} {f g : Nat → Nat} (hi : i < n) (h : ∀ j < n, j ≠ i → g j = f j) :
    tally n g + f i = tally n f + g i := by
  rw [tally_eq_sum, tally_eq_sum, ← add_sum_erase _ f (mem_range.mpr hi),
    ← add_sum_erase _ g (mem_range.mpr hi)]
  have hrest : ∑ j ∈ (range n).erase i, g j = ∑ j ∈ (range n).erase i, f j :=
    sum_congr rfl fun j hj =>
      h j (mem_range.mp (mem_of_mem_erase hj)) (ne_of_mem_erase hj)
  omega

theorem le_tally {i : Nat} (f : Nat → Nat) (hi : i < n) : f i ≤ tally n f := by
  exact single_le_sum (fun _ _ => Nat.zero_le _) (mem_range.mpr hi)

theorem tally_eq_zero : tally n f = 0 ↔ ∀ i < n, f i = 0 := by
  rw [tally_eq_sum]
  simp

theorem tally_single (hk : k < n) : tally n (fun i => if i = k then v else 0) = v := by
  rw [tally_eq_sum, sum_ite_eq' (range n) k fun _ => v,
    if_pos (mem_range.mpr hk)]

/-- Adding up by rows or by columns. -/
theorem tally_comm (m : Nat) (f : Nat → Nat → Nat) :
    tally m (fun i => tally n (f i)) = tally n fun j => tally m fun i => f i j := by
  simp only [tally_eq_sum]
  exact sum_comm

theorem countIf_eq_card : countIf n p = ((Finset.range n).filter fun i => p i = true).card := by
  unfold countIf
  rw [tally_eq_sum, card_filter]

/-- A list of the entries counted has as many nodes. -/
theorem length_eq_countIf {l : List Nat} (hnd : l.Nodup) (hmem : ∀ i, i ∈ l ↔ i < n ∧ p i = true) :
    l.length = countIf n p := by
  rw [countIf_eq_card, ← List.toFinset_card_of_nodup hnd]
  congr 1
  ext i
  simp [hmem]

theorem countIf_le (n : Nat) (p : Nat → Bool) : countIf n p ≤ n := by
  rw [countIf_eq_card]
  simpa using card_filter_le (range n) fun i => p i = true

theorem countIf_add_not (n : Nat) (p : Nat → Bool) : countIf n p + countIf n (fun i => !p i) = n := by
  have h := card_filter_add_card_filter_not (s := range n) (fun i => p i = true)
  rw [countIf_eq_card, countIf_eq_card]
  simpa using h

/-- Every entry counts. -/
theorem countIf_eq_iff : countIf n p = n ↔ ∀ i < n, p i = true := by
  have h := countIf_add_not n p
  have hz : countIf n (fun i => !p i) = 0 ↔ ∀ i < n, p i = true := by
    unfold countIf
    rw [tally_eq_zero]
    simp
  rw [← hz]
  omega

theorem countIf_eq_zero : countIf n p = 0 ↔ ∀ i < n, p i = false := by
  unfold countIf
  rw [tally_eq_zero]
  simp

theorem countIf_set {n k : Nat} {p : Nat → Bool} (hk : k < n) (hp : p k = false) :
    countIf n (update p k true) = countIf n p + 1 := by
  have h := @tally_change n k (fun i => if p i then 1 else 0)
    (fun i => if update p k true i then 1 else 0) hk
    fun j _ hj => by rw [update_of_ne hj]
  simp only [hp, update_self, if_true] at h
  exact h

theorem countIf_clear (hk : k < n) (hp : p k = true) :
    countIf n (update p k false) + 1 = countIf n p := by
  have h := @countIf_set n k (update p k false) hk (update_self k false p)
  rw [update_idem, update_eq_self_iff.mpr hp.symm] at h
  exact h.symm

end ZephyrOS.Lib
