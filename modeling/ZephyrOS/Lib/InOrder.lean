import Mathlib.Data.List.Basic

/-!
# Reading a stream in order

What a reader of a stream `S` may be told: pieces of `S`, each starting where the one before
ended, and, after the last of them, the end. `InOrder S log ended` says that a log of notices
is of that shape. That the pieces make up a prefix and that the end comes after all of `S`
follow from the shape alone.
-/

namespace ZephyrOS.Lib

open List

variable {α : Type}

/-- What a reader is told. -/
inductive Notice (α : Type) where
  | data (chunk : List α)
  | eof

def Notice.chunk : Notice α → List α
  | .data chunk => chunk
  | .eof => []

/-- All a log has delivered. -/
def content (log : List (Notice α)) : List α := log.flatMap Notice.chunk

@[simp] theorem content_append (log log' : List (Notice α)) :
    content (log ++ log') = content log ++ content log' := flatMap_append

@[simp] theorem content_data (chunk : List α) : content [.data chunk] = chunk :=
  append_nil chunk

@[simp] theorem content_eof : content [(.eof : Notice α)] = [] := rfl

/-- **The notices a reader of `S` may get**, and whether the end was among them. -/
inductive InOrder (S : List α) : List (Notice α) → Bool → Prop where
  | nil : InOrder S [] false
  | data {log : List (Notice α)} {chunk : List α} (h : InOrder S log false)
      (hpre : content log ++ chunk <+: S) : InOrder S (log ++ [.data chunk]) false
  | eof {log : List (Notice α)} (h : InOrder S log false) (hall : content log = S) :
      InOrder S (log ++ [.eof]) true

namespace InOrder

variable {S : List α} {log : List (Notice α)} {ended : Bool}

theorem content_prefix (h : InOrder S log ended) : content log <+: S := by
  cases h with
  | nil => exact nil_prefix
  | data h hpre => simpa using hpre
  | eof h hall => simp [hall]

theorem length_le (h : InOrder S log ended) : (content log).length ≤ S.length :=
  h.content_prefix.length_le

/-- Once the end was told, everything was. -/
theorem complete (h : InOrder S log true) : content log = S := by
  cases h with
  | eof h hall => simp [hall]

/-- A piece cut out of `S` where the reader stands goes on with what it has. -/
theorem segment (h : InOrder S log false) {offset : Nat} (length : Nat)
    (hoff : offset = (content log).length) :
    InOrder S (log ++ [.data ((S.drop offset).take length)]) false := by
  refine data h ?_
  obtain ⟨rest, hrest⟩ := h.content_prefix
  subst hoff
  refine ⟨rest.drop length, ?_⟩
  rw [← hrest, drop_left, append_assoc, take_append_drop]

/-- The end is told after all of `S`, and once. -/
theorem before_eof (h : InOrder S log ended) {before after : List (Notice α)}
    (hlog : log = before ++ .eof :: after) : content before = S ∧ after = [] ∧ ended = true := by
  induction h generalizing after with
  | nil => exact absurd hlog.symm (by simp)
  | @data log chunk h hpre ih =>
    -- the end would stand in the log before the piece, which has none
    rcases eq_nil_or_concat after with rfl | ⟨after, last, rfl⟩
    · have hlast := (append_inj' hlog rfl).2
      cases hlast
    · rw [concat_eq_append, ← cons_append, ← append_assoc] at hlog
      exact absurd (ih (append_inj' hlog rfl).1).2.2 (by simp)
  | @eof log h hall ih =>
    rcases eq_nil_or_concat after with rfl | ⟨after, last, rfl⟩
    · have hbefore := (append_inj' hlog rfl).1
      exact ⟨hbefore ▸ hall, rfl, rfl⟩
    · rw [concat_eq_append, ← cons_append, ← append_assoc] at hlog
      exact absurd (ih (append_inj' hlog rfl).1).2.2 (by simp)

theorem ended_iff (h : InOrder S log ended) : ended = true ↔ Notice.eof ∈ log := by
  constructor
  · intro he
    subst he
    cases h with
    | eof h hall => simp
  · intro hmem
    obtain ⟨before, after, hlog⟩ := append_of_mem hmem
    exact (h.before_eof hlog).2.2

end InOrder

end ZephyrOS.Lib
