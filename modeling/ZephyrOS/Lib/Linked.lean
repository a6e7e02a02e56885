import Mathlib.Logic.Function.Basic
import Mathlib.Data.List.Nodup

/-!
# Intrusive lists

Nodes are indices and the links are functions from index to index, so a list is
not a value but a fact about the links: `Linked next h l` says that following
`next` from `h` visits exactly `l` and then stops. Everything below is about how
a few pointer writes change that fact.

A doubly linked list is a list that is linked forwards from its head and, read in
reverse, linked backwards from its tail. Written this way unlinking needs one
lemma, used once in each direction.
-/

namespace ZephyrOS.Lib

open List Option

variable {ι : Type}

/-- Following `next` from `h` visits `l` and stops. -/
def Linked (next : ι → Option ι) : Option ι → List ι → Prop
  | h, [] => h = none
  | h, i :: l => h = some i ∧ Linked next (next i) l

section Basic

variable {next next' : ι → Option ι} {b : List ι}

theorem Linked.head : ∀ {l : List ι} {h : Option ι}, Linked next h l → h = l.head?
  | [], _, hl => hl
  | _ :: _, _, hl => hl.1

theorem Linked.congr : ∀ {l : List ι} {h : Option ι}, (∀ i ∈ l, next' i = next i) →
    Linked next h l → Linked next' h l
  | [], _, _, hl => hl
  | i :: l, _, hc, hl => by
    refine ⟨hl.1, ?_⟩
    rw [hc i mem_cons_self]
    exact Linked.congr (fun j hj => hc j (mem_cons_of_mem i hj)) hl.2

/-- The links leave no choice of what is visited. -/
theorem Linked.unique : ∀ {l l' : List ι} {h : Option ι}, Linked next h l → Linked next h l' → l = l'
  | [], [], _, _, _ => rfl
  | [], i :: _, _, hl, hl' => by
    rw [Linked] at hl
    exact absurd (hl.symm.trans hl'.1) (by simp)
  | i :: _, [], _, hl, hl' => by
    rw [Linked] at hl'
    exact absurd (hl'.symm.trans hl.1) (by simp)
  | i :: l, j :: l', _, hl, hl' => by
    obtain rfl : i = j := some.inj (hl.1.symm.trans hl'.1)
    rw [Linked.unique hl.2 hl'.2]

theorem Linked.suffix : ∀ {a b : List ι} {i : ι} {h : Option ι}, Linked next h (a ++ i :: b) →
    Linked next (some i) (i :: b)
  | [], _, _, _, hl => ⟨rfl, hl.2⟩
  | _ :: _, _, _, _, hl => Linked.suffix hl.2

/-- A list that ends does not come back to a node. -/
theorem Linked.nodup : ∀ {l : List ι} {h : Option ι}, Linked next h l → l.Nodup
  | [], _, _ => nodup_nil
  | i :: l, _, hl => by
    refine nodup_cons.mpr ⟨fun hi => ?_, Linked.nodup hl.2⟩
    obtain ⟨a, b, rfl⟩ := append_of_mem hi
    -- from the second visit the same nodes would follow as from the first
    have hfirst : Linked next (some i) (i :: (a ++ i :: b)) := ⟨rfl, hl.2⟩
    have htwice := Linked.unique (Linked.suffix hl.2) hfirst
    have hlen := congrArg length htwice
    simp only [length_cons, length_append] at hlen
    omega

theorem Linked.next_eq {a : List ι} {i : ι} {h : Option ι} (hl : Linked next h (a ++ i :: b)) :
    next i = b.head? :=
  Linked.head (Linked.suffix hl).2

/-- What follows `a` is replaced: its last node, or the head, now points to `b'`. -/
theorem Linked.redirect {t : Option ι} {b' : List ι} (hb : Linked next' t b') :
    ∀ {a : List ι} {h : Option ι}, Linked next h (a ++ b) →
    (∀ j ∈ a, a.getLast? ≠ some j → next' j = next j) → (∀ j, a.getLast? = some j → next' j = t) →
    Linked next' (if a = [] then t else h) (a ++ b')
  | [], _, _, _, _ => by
    rw [if_pos rfl]
    exact hb
  | [x], _, hl, _, hlast => by
    rw [if_neg (cons_ne_nil _ _)]
    refine ⟨hl.1, ?_⟩
    rw [hlast x rfl]
    exact hb
  | x :: y :: a, _, hl, hsame, hlast => by
    rw [if_neg (cons_ne_nil _ _)]
    have hx : (x :: y :: a).getLast? ≠ some x := fun hc => by
      rw [getLast?_cons_cons] at hc
      exact (nodup_cons.mp hl.nodup).1 (mem_append_left _ (mem_of_getLast? hc))
    have ih := hb.redirect hl.2
      (fun j hj hne => hsame j (mem_cons_of_mem x hj) (by rwa [getLast?_cons_cons]))
      (fun j hj => hlast j (by rwa [getLast?_cons_cons]))
    rw [if_neg (cons_ne_nil _ _)] at ih
    refine ⟨hl.1, ?_⟩
    rw [hsame x mem_cons_self hx]
    exact ih

/-- Take `i` out: its predecessor, or the head, now points past it. -/
theorem Linked.unlink {a b : List ι} {i : ι} {h : Option ι} (hl : Linked next h (a ++ i :: b))
    (hsame : ∀ j, j ∈ a ++ b → a.getLast? ≠ some j → next' j = next j)
    (hlast : ∀ j, a.getLast? = some j → next' j = next i) :
    Linked next' (if a = [] then next i else h) (a ++ b) := by
  refine Linked.redirect (Linked.congr (fun j hj => ?_) (Linked.suffix hl).2) hl
    (fun j hj => hsame j (mem_append_left _ hj)) hlast
  refine hsame j (mem_append_right _ hj) fun hc => ?_
  exact (nodup_append.mp hl.nodup).2.2 j (mem_of_getLast? hc) j (mem_cons_of_mem _ hj) rfl

/-- Append `i` at the far end: the node that was last now points to it. -/
theorem Linked.snoc {l : List ι} {i : ι} {h : Option ι} (hl : Linked next h l)
    (hsame : ∀ j ∈ l, l.getLast? ≠ some j → next' j = next j)
    (hlast : ∀ j, l.getLast? = some j → next' j = some i) (hi : next' i = none) :
    Linked next' (if l = [] then some i else h) (l ++ [i]) := by
  have hb : Linked next' (some i) [i] := ⟨rfl, hi⟩
  refine hb.redirect (b := []) ?_ hsame hlast
  rwa [append_nil]

end Basic

/-! ### Walking -/

/-- The first node from `h` on that satisfies `p`. -/
def walkFind (next : ι → Option ι) (p : ι → Bool) : Nat → Option ι → Option ι
  | 0, _ => none
  | _ + 1, none => none
  | fuel + 1, some i => if p i then some i else walkFind next p fuel (next i)

theorem walkFind_eq {next : ι → Option ι} {p : ι → Bool} :
    ∀ {l : List ι} {h : Option ι} {fuel : Nat}, Linked next h l → l.length ≤ fuel →
      walkFind next p fuel h = l.find? p
  | [], h, fuel, hl, _ => by
    obtain rfl : h = none := hl
    cases fuel <;> rfl
  | i :: l, h, 0, _, hf => absurd hf (by simp)
  | i :: l, h, fuel + 1, hl, hf => by
    obtain ⟨rfl, hl⟩ := hl
    rw [walkFind, find?_cons]
    cases p i with
    | true => rfl
    | false => exact walkFind_eq hl (by simpa using hf)

/-- The node before `i`, if `i` is met: `some none` when it is the first. -/
def walkPrev [DecidableEq ι] (next : ι → Option ι) (i : ι) :
    Nat → Option ι → Option ι → Option (Option ι)
  | 0, _, _ => none
  | _ + 1, _, none => none
  | fuel + 1, prev, some j => if j = i then some prev else walkPrev next i fuel (some j) (next j)

theorem walkPrev_eq [DecidableEq ι] {next : ι → Option ι} {i : ι} :
    ∀ {a b : List ι} {h prev : Option ι} {fuel : Nat}, Linked next h (a ++ i :: b) → i ∉ a →
      a.length < fuel →
      walkPrev next i fuel prev h = some (a.getLast?.or prev)
  | [], b, h, prev, 0, _, _, hf => absurd hf (by simp)
  | [], b, h, prev, fuel + 1, hl, _, _ => by
    obtain ⟨rfl, _⟩ := hl
    rw [walkPrev, if_pos rfl]
    rfl
  | x :: a, b, h, prev, 0, _, _, hf => absurd hf (by simp)
  | x :: a, b, h, prev, fuel + 1, hl, hni, hf => by
    obtain ⟨rfl, hl⟩ := hl
    have hne : x ≠ i := fun hc => hni (by rw [hc]; exact mem_cons_self)
    rw [walkPrev, if_neg hne,
      walkPrev_eq hl (fun hc => hni (mem_cons_of_mem x hc)) (by simpa using hf)]
    cases a with
    | nil => rfl
    | cons y a => rw [getLast?_cons_cons, getLast?_cons, some_or, some_or]

/-! ### Doubly linked lists -/

/-- `l` is linked forwards from `head` and backwards from `tail`, and the nodes
off the list point nowhere. -/
structure DLinked (prev next : ι → Option ι) (head tail : Option ι) (l : List ι) : Prop where
  fwd : Linked next head l
  bwd : Linked prev tail l.reverse
  off : ∀ j, j ∉ l → prev j = none ∧ next j = none

namespace DLinked

variable {prev next prev' next' : ι → Option ι} {head tail : Option ι} {l a b : List ι} {i : ι}

theorem congr (h : DLinked prev next head tail l) (hp : ∀ j, prev' j = prev j)
    (hn : ∀ j, next' j = next j) : DLinked prev' next' head tail l := by
  obtain rfl : prev' = prev := funext hp
  obtain rfl : next' = next := funext hn
  exact h

theorem nodup (h : DLinked prev next head tail l) : l.Nodup := h.fwd.nodup

/-- The neighbours of a node. -/
theorem around (h : DLinked prev next head tail (a ++ i :: b)) :
    prev i = a.getLast? ∧ next i = b.head? := by
  have hb := h.bwd
  rw [reverse_append, reverse_cons, append_assoc, singleton_append] at hb
  have hprev := Linked.next_eq hb
  rw [head?_reverse] at hprev
  exact ⟨hprev, Linked.next_eq h.fwd⟩

/-- What the four writes of an unlink leave. -/
theorem remove (h : DLinked prev next head tail (a ++ i :: b))
    (hnext : ∀ j, j ≠ i → a.getLast? ≠ some j → next' j = next j)
    (hprev : ∀ j, j ≠ i → b.head? ≠ some j → prev' j = prev j)
    (hlast : ∀ j, a.getLast? = some j → next' j = next i)
    (hfirst : ∀ j, b.head? = some j → prev' j = prev i) (hi : prev' i = none ∧ next' i = none) :
    DLinked prev' next' (if a = [] then next i else head) (if b = [] then prev i else tail)
      (a ++ b) := by
  have hni : i ∉ a ++ b := (nodup_cons.mp (nodup_middle.mp h.nodup)).1
  have hb := h.bwd
  rw [reverse_append, reverse_cons, append_assoc, singleton_append] at hb
  constructor
  · exact Linked.unlink h.fwd (fun j hj hne => hnext j (fun hc => hni (hc ▸ hj)) hne) hlast
  · have hback := @Linked.unlink ι prev prev' b.reverse a.reverse i tail hb
      (fun j hj hne => by
        rw [getLast?_reverse] at hne
        refine hprev j (fun hc => hni (hc ▸ ?_)) hne
        rw [← reverse_append, mem_reverse] at hj
        exact hj)
      (fun j hj => hfirst j (by rwa [getLast?_reverse] at hj))
    simpa using hback
  · intro j hj
    by_cases hji : j = i
    · rw [hji]; exact hi
    have hjl : j ∉ a ++ i :: b := by simpa [hji] using hj
    have hla : a.getLast? ≠ some j := fun hc =>
      hj (mem_append_left b (mem_of_getLast? hc))
    have hhb : b.head? ≠ some j := fun hc =>
      hj (mem_append_right a (mem_of_head? hc))
    rw [hnext j hji hla, hprev j hji hhb]
    exact h.off j hjl

/-- What the writes of a push to the front leave. -/
theorem push (h : DLinked prev next head tail l) (hi : i ∉ l)
    (hnext : ∀ j, j ≠ i → next' j = next j) (hprev : ∀ j, j ≠ i → l.head? ≠ some j → prev' j = prev j)
    (hfirst : ∀ j, l.head? = some j → prev' j = some i) (hpi : prev' i = none)
    (hni : next' i = head) :
    DLinked prev' next' (some i) (if l = [] then some i else tail) (i :: l) := by
  have hne : ∀ j ∈ l, j ≠ i := fun j hj hc => hi (hc ▸ hj)
  constructor
  · refine ⟨rfl, ?_⟩
    rw [hni]
    exact Linked.congr (fun j hj => hnext j (hne j hj)) h.fwd
  · have hback := @Linked.snoc ι prev prev' l.reverse i tail h.bwd
      (fun j hj hlast => by
        rw [getLast?_reverse] at hlast
        exact hprev j (hne j (mem_reverse.mp hj)) hlast)
      (fun j hj => hfirst j (by rwa [getLast?_reverse] at hj)) hpi
    simpa using hback
  · intro j hj
    have hji : j ≠ i := fun hc => hj (hc ▸ mem_cons_self)
    have hjl : j ∉ l := fun hc => hj (mem_cons_of_mem i hc)
    rw [hnext j hji, hprev j hji (fun hc => hjl (mem_of_head? hc))]
    exact h.off j hjl

end DLinked

/-! ### Doubly linked lists known by their head -/

/-- `l` is linked forwards from `h`, and each node points back to the one before it;
the first points back to `p`. Nothing is said of nodes off the list, so several lists
may share one table of links. -/
def Threaded (prev next : ι → Option ι) : Option ι → Option ι → List ι → Prop
  | _, h, [] => h = none
  | p, h, i :: l => h = some i ∧ prev i = p ∧ Threaded prev next (some i) (next i) l

namespace Threaded

variable {prev next prev' next' : ι → Option ι} {h p : Option ι} {l : List ι} {i : ι}

theorem linked : ∀ {l : List ι} {p h : Option ι}, Threaded prev next p h l → Linked next h l
  | [], _, _, hl => hl
  | _ :: _, _, _, hl => ⟨hl.1, linked hl.2.2⟩

theorem nodup (hl : Threaded prev next p h l) : l.Nodup :=
  hl.linked.nodup

theorem congr : ∀ {l : List ι} {p h : Option ι}, (∀ i ∈ l, prev' i = prev i ∧ next' i = next i) →
    Threaded prev next p h l → Threaded prev' next' p h l
  | [], _, _, _, hl => hl
  | i :: l, _, _, hc, hl => by
    obtain ⟨hp, hn⟩ := hc i mem_cons_self
    refine ⟨hl.1, hp.trans hl.2.1, ?_⟩
    rw [hn]
    exact congr (fun j hj => hc j (mem_cons_of_mem i hj)) hl.2.2

/-- The first node gets another predecessor. -/
theorem rehead {q : Option ι} (hl : Threaded prev next p h l)
    (hnext : ∀ j ∈ l, next' j = next j) (hprev : ∀ j ∈ l, h ≠ some j → prev' j = prev j)
    (hfirst : ∀ j, h = some j → prev' j = q) : Threaded prev' next' q h l := by
  cases l with
  | nil => exact hl
  | cons i l =>
    have hnd := hl.nodup
    obtain ⟨rfl, _, hrest⟩ := hl
    refine ⟨rfl, hfirst i rfl, ?_⟩
    rw [hnext i mem_cons_self]
    refine congr (fun j hj => ⟨hprev j (mem_cons_of_mem i hj) fun hc => ?_,
      hnext j (mem_cons_of_mem i hj)⟩) hrest
    obtain rfl : i = j := some.inj hc
    exact (nodup_cons.mp hnd).1 hj

/-- A node points back to the last of those before it. -/
theorem prev_eq : ∀ {a b : List ι} {i : ι} {p h : Option ι}, Threaded prev next p h (a ++ i :: b) →
    prev i = if a = [] then p else a.getLast?
  | [], _, _, _, _, hl => hl.2.1
  | [x], _, _, _, _, hl => hl.2.2.2.1
  | x :: y :: a, b, i, _, _, hl => by
    have ih : prev i = (y :: a).getLast? := @prev_eq (y :: a) b i (some x) (next x) hl.2.2
    rw [if_neg (cons_ne_nil _ _), getLast?_cons_cons, ih]

theorem next_eq {a b : List ι} (hl : Threaded prev next p h (a ++ i :: b)) :
    next i = b.head? := hl.linked.next_eq

/-- What the writes of an unlink leave. -/
theorem remove : ∀ {a b : List ι} {i : ι} {p h : Option ι}, Threaded prev next p h (a ++ i :: b) →
    (∀ j ∈ a ++ b, a.getLast? ≠ some j → next' j = next j) →
    (∀ j, a.getLast? = some j → next' j = next i) →
    (∀ j ∈ a ++ b, next i ≠ some j → prev' j = prev j) →
    (∀ j, next i = some j → prev' j = prev i) →
    Threaded prev' next' p (if a = [] then next i else h) (a ++ b)
  | [], _, _, _, _, hl, hnext, _, hprev, hfirst => by
    rw [if_pos rfl]
    exact rehead hl.2.2 (fun j hj => hnext j hj (by simp)) hprev
      fun j hj => (hfirst j hj).trans hl.2.1
  | x :: a, b, i, p, h, hl, hnext, hlast, hprev, hfirst => by
    have hnd := hl.nodup
    have hx : x ∉ a ++ i :: b := (nodup_cons.mp hnd).1
    obtain ⟨rfl, hpx, hrest⟩ := hl
    have ih := remove (a := a) hrest
      (fun j hj hne => hnext j (mem_cons_of_mem x hj) fun hc => ?_)
      (fun j hj => hlast j ?_) (fun j hj => hprev j (mem_cons_of_mem x hj)) hfirst
    · rw [if_neg (cons_ne_nil _ _)]
      refine ⟨rfl, ?_, ?_⟩
      · -- the node after `i` comes after `x`
        rw [hprev x mem_cons_self fun hc => hx ?_, hpx]
        rw [hrest.next_eq] at hc
        exact mem_append_right a (mem_cons_of_mem i (mem_of_head? hc))
      · cases a with
        | nil => rw [hlast x rfl]; exact ih
        | cons y a =>
          rw [hnext x mem_cons_self fun hc => hx ?_]
          · exact ih
          · rw [getLast?_cons_cons] at hc
            exact mem_append_left _ (mem_of_getLast? hc)
    · cases a with
      | nil =>
        obtain rfl : x = j := some.inj hc
        exact hx (mem_append_right [] (mem_cons_of_mem i hj))
      | cons y a => rw [getLast?_cons_cons] at hc; exact hne hc
    · cases a with
      | nil => cases hj
      | cons y a => rw [getLast?_cons_cons]; exact hj

/-- What the writes of a push to the front leave. -/
theorem push (hl : Threaded prev next none h l)
    (hnext : ∀ j ∈ l, next' j = next j) (hprev : ∀ j ∈ l, h ≠ some j → prev' j = prev j)
    (hfirst : ∀ j, h = some j → prev' j = some i) (hpi : prev' i = none) (hni : next' i = h) :
    Threaded prev' next' none (some i) (i :: l) := by
  refine ⟨rfl, hpi, ?_⟩
  rw [hni]
  exact rehead hl hnext hprev hfirst

end Threaded

end ZephyrOS.Lib
