import Mathlib.Data.List.Perm.Basic
import Mathlib.Tactic.Common

/-!
# Lists of intervals

A list whose elements stand for the intervals `[lo a, hi a)`. It is *spaced* when no interval
is empty and each ends before the next begins: then it is sorted, and its intervals are
disjoint. An interval may be put where there is room for it, and one of the intervals
may be replaced by smaller ones inside it.
-/

namespace ZephyrOS.Lib

open List

variable {α : Type} {lo hi : α → Nat} {a : α} {l l₁ l₂ m : List α} {x : Nat}

structure Spaced (lo hi : α → Nat) (l : List α) : Prop where
  /-- No interval is empty. -/
  pos : ∀ a ∈ l, lo a < hi a
  /-- Each ends before the next begins. -/
  apart : l.Pairwise fun a b => hi a ≤ lo b

/-- The point `x` is in one of the intervals. -/
def Covers (lo hi : α → Nat) (l : List α) (x : Nat) : Prop := ∃ a ∈ l, lo a ≤ x ∧ x < hi a

/-- No interval reaches into `[x, y)`. -/
def Clear (lo hi : α → Nat) (l : List α) (x y : Nat) : Prop := ∀ a ∈ l, y ≤ lo a ∨ hi a ≤ x

theorem spaced_nil : Spaced lo hi [] := ⟨fun _ ha => absurd ha not_mem_nil, Pairwise.nil⟩

theorem spaced_single (h : lo a < hi a) : Spaced lo hi [a] := by
  refine ⟨fun b hb => ?_, pairwise_singleton ..⟩
  rw [mem_singleton.mp hb]
  exact h

namespace Spaced

theorem cons (h : Spaced lo hi l) (ha : lo a < hi a) (hl : ∀ b ∈ l, hi a ≤ lo b) :
    Spaced lo hi (a :: l) :=
  ⟨forall_mem_cons.mpr ⟨ha, h.pos⟩, pairwise_cons.mpr ⟨hl, h.apart⟩⟩

theorem tail (h : Spaced lo hi (a :: l)) : Spaced lo hi l :=
  ⟨fun b hb => h.pos b (mem_cons_of_mem _ hb), (pairwise_cons.mp h.apart).2⟩

theorem head_le (h : Spaced lo hi (a :: l)) : ∀ b ∈ l, hi a ≤ lo b :=
  (pairwise_cons.mp h.apart).1

/-- What starts behind the first interval, or in it, is behind everything that follows too. -/
theorem tail_ge (h : Spaced lo hi (a :: l)) (hx : x ≤ lo a) : ∀ b ∈ l, x ≤ lo b := by
  intro b hb
  have := h.pos a mem_cons_self
  have := h.head_le b hb
  omega

/-- The intervals are in order. -/
theorem sorted (h : Spaced lo hi l) : l.Pairwise fun a b => lo a < lo b := by
  refine h.apart.imp_of_mem ?_
  intro b c hb _ hle
  exact Nat.lt_of_lt_of_le (h.pos b hb) hle

/-- **An interval is replaced by smaller ones inside it**: none, a part of it, or the two
ends of it. -/
theorem replace (h : Spaced lo hi (l₁ ++ a :: l₂)) (hm : Spaced lo hi m)
    (hin : ∀ b ∈ m, lo a ≤ lo b ∧ hi b ≤ hi a) : Spaced lo hi (l₁ ++ (m ++ l₂)) := by
  obtain ⟨h1, h2, h3⟩ := pairwise_append.mp h.apart
  obtain ⟨h4, h5⟩ := pairwise_cons.mp h2
  constructor
  · intro b hb
    rcases mem_append.mp hb with hb | hb
    · exact h.pos b (mem_append_left _ hb)
    rcases mem_append.mp hb with hb | hb
    · exact hm.pos b hb
    · exact h.pos b (mem_append_right _ (mem_cons_of_mem _ hb))
  · refine pairwise_append.mpr ⟨h1, pairwise_append.mpr ⟨hm.apart, h5, ?_⟩, ?_⟩
    · intro b hb c hc
      exact Nat.le_trans (hin b hb).2 (h4 c hc)
    · intro b hb c hc
      rcases mem_append.mp hc with hc | hc
      · exact Nat.le_trans (h3 b hb a mem_cons_self) (hin c hc).1
      · exact h3 b hb c (mem_cons_of_mem _ hc)

/-- There are no more intervals than points. -/
theorem length_le (h : Spaced lo hi l) {first last : Nat} (hle : first ≤ last)
    (hin : ∀ a ∈ l, first ≤ lo a ∧ hi a ≤ last) : l.length ≤ last - first := by
  induction l generalizing first with
  | nil => exact Nat.zero_le _
  | cons a l ih =>
    obtain ⟨hlo, hhi⟩ := hin a mem_cons_self
    have hpos := h.pos a mem_cons_self
    have := ih h.tail hhi fun b hb => ⟨h.head_le b hb, (hin b (mem_cons_of_mem _ hb)).2⟩
    rw [length_cons]
    omega

end Spaced

theorem Covers.mono (h : Covers lo hi l x) (hsub : ∀ b ∈ l, b ∈ m) : Covers lo hi m x := by
  obtain ⟨b, hb, hx⟩ := h
  exact ⟨b, hsub b hb, hx⟩

/-- A point stays covered unless it was in the interval that was replaced and is in none of
the new ones. -/
theorem Covers.replace (h : Covers lo hi (l₁ ++ a :: l₂) x)
    (hx : lo a ≤ x → x < hi a → Covers lo hi m x) : Covers lo hi (l₁ ++ (m ++ l₂)) x := by
  obtain ⟨b, hb, hlo, hhi⟩ := h
  rcases mem_append.mp hb with hb | hb
  · exact ⟨b, mem_append_left _ hb, hlo, hhi⟩
  rcases mem_cons.mp hb with rfl | hb
  · exact (hx hlo hhi).mono fun c hc => mem_append_right _ (mem_append_left _ hc)
  · exact ⟨b, mem_append_right _ (mem_append_right _ hb), hlo, hhi⟩

end ZephyrOS.Lib
