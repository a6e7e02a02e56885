import Mathlib.Data.Set.Card

/-!
# Who uses what

Users `u ∈ live` each sit at a place `at u`. They are *placed* when every place is one
that is given out and no place has two users. A user moves in at a place nobody has, others
move out, and counting users is then counting places.
-/

namespace ZephyrOS.Lib

open Finset

variable {ι α : Type} {live live' : Set ι} {place place' : ι → α} {out out' : α → Prop}

structure Placed (live : Set ι) (place : ι → α) (out : α → Prop) : Prop where
  /-- Users sit at places that are given out. -/
  out : ∀ {u}, u ∈ live → out (place u)
  /-- A place has one user. -/
  inj : ∀ {u v}, u ∈ live → v ∈ live → place u = place v → u = v

namespace Placed

/-- A user moves in at a place nobody has. -/
theorem take {u : ι} {a : α} (h : Placed live place out) (hfresh : ∀ v ∈ live, place v ≠ a)
    (hlive : ∀ v ∈ live', v ∈ live ∧ place' v = place v ∨ v = u ∧ place' v = a)
    (hout : ∀ b, out b → out' b) (ha : out' a) : Placed live' place' out' := by
  constructor
  · intro v hv
    rcases hlive v hv with ⟨hm, he⟩ | ⟨_, he⟩
    · rw [he]; exact hout _ (h.out hm)
    · rw [he]; exact ha
  · intro v w hv hw he
    rcases hlive v hv with ⟨hvm, hve⟩ | ⟨hvu, hve⟩
    · rcases hlive w hw with ⟨hwm, hwe⟩ | ⟨_, hwe⟩
      · exact h.inj hvm hwm (by rw [← hve, ← hwe, he])
      · exact absurd (by rw [← hve, he, hwe]) (hfresh v hvm)
    · rcases hlive w hw with ⟨hwm, hwe⟩ | ⟨hwu, _⟩
      · exact absurd (by rw [← hwe, ← he, hve]) (hfresh w hwm)
      · rw [hvu, hwu]

/-- Users move out, and the places of those who stay are still given out. -/
theorem shrink (h : Placed live place out)
    (hlive : ∀ v ∈ live', v ∈ live ∧ place' v = place v)
    (hout : ∀ v ∈ live', out' (place v)) : Placed live' place' out' := by
  constructor
  · intro v hv
    rw [(hlive v hv).2]
    exact hout v hv
  · intro v w hv hw he
    obtain ⟨hvm, hve⟩ := hlive v hv
    obtain ⟨hwm, hwe⟩ := hlive w hw
    exact h.inj hvm hwm (by rw [← hve, ← hwe, he])

variable {number : α → Nat}

/-- Where the places are numbered, there are no more users than numbers. -/
theorem finite_ncard_le {n : Nat} (h : Placed live place out)
    (hnumber : ∀ a b, out a → out b → number a = number b → a = b)
    (hlt : ∀ a, out a → number a < n) : live.Finite ∧ live.ncard ≤ n := by
  have hinj : Set.InjOn (fun u => number (place u)) live := by
    intro u hu v hv he
    exact h.inj hu hv (hnumber _ _ (h.out hu) (h.out hv) he)
  have hmaps : Set.MapsTo (fun u => number (place u)) live ↑(range n) := by
    intro u hu
    exact mem_coe.mpr (mem_range.mpr (hlt _ (h.out hu)))
  have hfin : (↑(range n) : Set Nat).Finite := finite_toSet _
  refine ⟨Set.Finite.of_injOn hmaps hinj hfin, ?_⟩
  have hle := Set.ncard_le_ncard_of_injOn _ hmaps hinj hfin
  rwa [Set.ncard_coe_finset, card_range] at hle

end Placed

end ZephyrOS.Lib
