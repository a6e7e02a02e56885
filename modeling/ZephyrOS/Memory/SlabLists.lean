import ZephyrOS.Lib.Linked
import ZephyrOS.Memory.Slab

/-!
# The lists of the slab allocator

Forty-eight lists, three for a cache, run through one table of links. They are
described by a placement, which says of every slab in which list it is, if in any.
Unlinking takes a slab out of its place and linking gives it one; nothing else in the
state moves, which is said by erasing the links (`bare`) and comparing.
-/

namespace ZephyrOS.Kmem

open Function List

/-! ### What is left without the links -/

def Slab.bare (x : Slab) : Slab := { x with next := none, previous := none }

def Cache.bare (x : Cache) : Cache := { x with head := fun _ => none }

/-- The state without its links. -/
def State.bare (s : State) : State :=
  { s with slabs := fun i => (s.slabs i).bare, caches := fun c => (s.caches c).bare }

variable {i : Nat} {s : State} {x : Slab} {c : Nat} {n p h : Option Nat} {t : SlabState}
  {place : Nat → Option (Nat × SlabState)}

theorem bare_setSlab : (s.setSlab i x).bare = s.bare.setSlab i x.bare := by
  unfold State.bare State.setSlab
  congr 1
  funext j
  by_cases h : j = i <;> simp [h]

theorem bare_setCache (c : Nat) (x : Cache) : (s.setCache c x).bare = s.bare.setCache c x.bare := by
  unfold State.bare State.setCache
  congr 1
  funext d
  by_cases h : d = c <;> simp [h]

theorem setSlab_self : s.setSlab i (s.slabs i) = s := by
  unfold State.setSlab
  rw [update_eq_self]

theorem setCache_self : s.setCache c (s.caches c) = s := by
  unfold State.setCache
  rw [update_eq_self]

/-- Writing links only. -/
theorem bare_setSlab_links :
    (s.setSlab i { s.slabs i with next := n, previous := p }).bare = s.bare := by
  rw [bare_setSlab]
  exact setSlab_self

theorem bare_setHead : (s.setHead c t h).bare = s.bare := by
  unfold State.setHead
  rw [bare_setCache]
  exact setCache_self

theorem bare_listRemove : (s.listRemove c i).bare = s.bare := by
  unfold State.listRemove
  rw [bare_setSlab_links]
  cases hp : (s.slabs i).previous with
  | none =>
    cases hn : (s.slabs i).next with
    | none => exact bare_setHead
    | some n => exact bare_setSlab_links.trans bare_setHead
  | some p =>
    cases hn : (s.slabs i).next with
    | none => exact bare_setSlab_links
    | some n => exact bare_setSlab_links.trans bare_setSlab_links

theorem bare_listAdd :
    (s.listAdd c i t).bare = s.bare.setSlab i { (s.slabs i).bare with state := t } := by
  unfold State.listAdd
  rw [bare_setHead]
  cases (s.caches c).head t with
  | none => exact bare_setSlab
  | some h => exact bare_setSlab_links.trans bare_setSlab

/-! ### The links themselves -/

section

variable (s : State) (c i j d : Nat) (t u : SlabState) {h : Option Nat}

theorem setSlab_slabs (x : Slab) : (s.setSlab i x).slabs j = if j = i then x else s.slabs j :=
  update_apply _ _ _ _

theorem setCache_caches (x : Cache) : (s.setCache c x).caches d = if d = c then x else s.caches d :=
  update_apply _ _ _ _

@[simp] theorem setSlab_caches (x : Slab) : (s.setSlab i x).caches = s.caches := rfl
@[simp] theorem setHead_slabs : (s.setHead c t h).slabs = s.slabs := rfl

theorem setHead_head : ((s.setHead c t h).caches d).head u
    = if d = c ∧ u = t then h else (s.caches d).head u := by
  unfold State.setHead
  rw [setCache_caches]
  by_cases hd : d = c
  · subst hd
    by_cases hu : u = t <;> simp [hu]
  · simp [hd]

theorem listRemove_next : ((s.listRemove c i).slabs j).next
    = if j = i then none
      else if (s.slabs i).previous = some j then (s.slabs i).next else (s.slabs j).next := by
  cases hp : (s.slabs i).previous <;> cases hn : (s.slabs i).next <;>
    simp only [State.listRemove, hp, hn, setSlab_slabs, setHead_slabs, Option.some.injEq] <;>
    grind

theorem listRemove_previous : ((s.listRemove c i).slabs j).previous
    = if j = i then none
      else if (s.slabs i).next = some j then (s.slabs i).previous else (s.slabs j).previous := by
  cases hp : (s.slabs i).previous <;> cases hn : (s.slabs i).next <;>
    simp only [State.listRemove, hp, hn, setSlab_slabs, setHead_slabs, Option.some.injEq] <;>
    grind

theorem listRemove_head : ((s.listRemove c i).caches d).head u
    = if (s.slabs i).previous = none ∧ d = c ∧ u = (s.slabs i).state then (s.slabs i).next
      else (s.caches d).head u := by
  cases hp : (s.slabs i).previous <;> cases hn : (s.slabs i).next <;>
    simp [State.listRemove, hp, hn, setHead_head]

theorem listAdd_next : ((s.listAdd c i t).slabs j).next
    = if j = i then (s.caches c).head t else (s.slabs j).next := by
  cases hh : (s.caches c).head t <;>
    simp only [State.listAdd, hh, setSlab_slabs, setHead_slabs] <;> grind

theorem listAdd_previous : ((s.listAdd c i t).slabs j).previous
    = if (s.caches c).head t = some j then some i
      else if j = i then none else (s.slabs j).previous := by
  cases hh : (s.caches c).head t <;>
    simp only [State.listAdd, hh, setSlab_slabs, setHead_slabs, Option.some.injEq] <;>
    grind

theorem listAdd_head : ((s.listAdd c i t).caches d).head u
    = if d = c ∧ u = t then some i else (s.caches d).head u := by
  cases hh : (s.caches c).head t <;> simp [State.listAdd, hh, setHead_head]

end

/-! ### Placements -/

/-- Every list of every cache in use holds the slabs placed in it. -/
def Lists (s : State) (place : Nat → Option (Nat × SlabState)) : Prop :=
  ∀ c, (s.caches c).used = true → ∀ t, ∃ l,
    Lib.Threaded (fun j => (s.slabs j).previous) (fun j => (s.slabs j).next) none
      ((s.caches c).head t) l ∧ ∀ j, j ∈ l ↔ place j = some (c, t)

theorem listRemove_used (d : Nat) : ((s.listRemove c i).caches d).used = (s.caches d).used := by
  exact (congrArg (fun x : State => (x.caches d).used) bare_listRemove :)

theorem listAdd_used (d : Nat) : ((s.listAdd c i t).caches d).used = (s.caches d).used := by
  exact (congrArg (fun x : State => (x.caches d).used) bare_listAdd :)

theorem Lists.remove (h : Lists s place) (hc : (s.caches c).used = true)
    (hi : place i = some (c, (s.slabs i).state)) :
    Lists (s.listRemove c i) (update place i none) := by
  obtain ⟨l, hl, hmem⟩ := h c hc (s.slabs i).state
  obtain ⟨a, b, rfl⟩ := append_of_mem ((hmem i).mpr hi)
  have hnext : (s.slabs i).next = b.head? := hl.next_eq
  have hprev : (s.slabs i).previous = a.getLast? := by
    have := hl.prev_eq
    cases a <;> exact this
  have hni : i ∉ a ++ b := by
    have := hl.nodup
    rw [nodup_middle, nodup_cons] at this
    exact this.1
  intro d hd t
  rw [listRemove_used] at hd
  simp only [listRemove_head, listRemove_next, listRemove_previous]
  by_cases hdt : d = c ∧ t = (s.slabs i).state
  · obtain ⟨rfl, rfl⟩ := hdt
    refine ⟨a ++ b, ?_, fun j => ?_⟩
    · have hne : ∀ j ∈ a ++ b, j ≠ i := fun j hj hc => hni (hc ▸ hj)
      have hlast : ∀ j, a.getLast? = some j → j ∈ a ++ b := fun j hj =>
        mem_append_left b (mem_of_getLast? hj)
      have hhead : ∀ j, b.head? = some j → j ∈ a ++ b := fun j hj =>
        mem_append_right a (mem_of_head? hj)
      have hfirst : (if (s.slabs i).previous = none ∧ d = d ∧ (s.slabs i).state = (s.slabs i).state
          then (s.slabs i).next else (s.caches d).head (s.slabs i).state)
          = if a = [] then (s.slabs i).next else (s.caches d).head (s.slabs i).state :=
        if_congr (by rw [hprev]; simp) rfl rfl
      rw [hfirst]
      refine hl.remove (fun j hj hlt => ?_) (fun j hj => ?_) (fun j hj hlt => ?_) (fun j hj => ?_)
      · rw [if_neg (hne j hj), if_neg (by rw [hprev]; exact hlt)]
      · rw [if_neg (hne j (hlast j hj)), if_pos (by rw [hprev]; exact hj)]
      · rw [if_neg (hne j hj), if_neg hlt]
      · rw [if_neg (hne j (hhead j (hnext ▸ hj))), if_pos hj]
    · by_cases hj : j = i
      · subst hj
        exact ⟨fun h => absurd h hni, fun h => absurd h (by simp)⟩
      · rw [update_of_ne hj, ← hmem j]
        simp [hj]
  · -- the links that were written are in another list
    obtain ⟨l', hl', hmem'⟩ := h d hd t
    have hoff : ∀ j ∈ l', j ∉ a ++ i :: b := by
      intro j hj hc
      have h1 := (hmem' j).mp hj
      rw [(hmem j).mp hc, Option.some.injEq, Prod.mk.injEq] at h1
      exact hdt ⟨h1.1.symm, h1.2.symm⟩
    rw [if_neg (fun hc => hdt hc.2)]
    refine ⟨l', hl'.congr fun j hj => ?_, fun j => ?_⟩
    · have hj' := hoff j hj
      rw [mem_append, mem_cons] at hj'
      push Not at hj'
      rw [if_neg hj'.2.1, if_neg hj'.2.1, if_neg, if_neg]
      · exact ⟨rfl, rfl⟩
      · rw [hprev]; exact fun hc => hj'.1 (mem_of_getLast? hc)
      · rw [hnext]; exact fun hc => hj'.2.2 (mem_of_head? hc)
    · by_cases hj : j = i
      · subst hj
        exact ⟨fun h => absurd (mem_append_right a mem_cons_self) (hoff j h),
          fun h => absurd h (by simp)⟩
      · rw [update_of_ne hj]
        exact hmem' j

theorem Lists.add (h : Lists s place) (hc : (s.caches c).used = true) (hi : place i = none) :
    Lists (s.listAdd c i t) (update place i (some (c, t))) := by
  obtain ⟨l, hl, hmem⟩ := h c hc t
  have hni : i ∉ l := fun hc => by
    rw [hmem, hi] at hc
    cases hc
  have hnil : ∀ j ∈ l, j ≠ i := fun j hj hc => hni (hc ▸ hj)
  have hhead : ∀ j, (s.caches c).head t = some j → j ∈ l := fun j hj => by
    rw [hl.linked.head] at hj
    exact mem_of_head? hj
  intro d hd u
  rw [listAdd_used] at hd
  simp only [listAdd_head, listAdd_next, listAdd_previous]
  by_cases hdt : d = c ∧ u = t
  · obtain ⟨rfl, rfl⟩ := hdt
    rw [if_pos ⟨rfl, rfl⟩]
    -- the slab goes to the front of its list
    refine ⟨i :: l, hl.push (fun j hj => ?_) (fun j hj hne => ?_) (fun j hj => ?_) ?_ ?_, fun j => ?_⟩
    · exact if_neg (hnil j hj)
    · exact (if_neg hne).trans (if_neg (hnil j hj))
    · rw [if_pos hj]
    · rw [if_neg fun hc => hni (hhead i hc), if_pos rfl]
    · rw [if_pos rfl]
    · by_cases hj : j = i
      · subst hj; simp
      · rw [update_of_ne hj, ← hmem j]
        simp [hj]
  · rw [if_neg hdt]
    obtain ⟨l', hl', hmem'⟩ := h d hd u
    have hoff : ∀ j ∈ l', j ∉ l := by
      intro j hj hc
      have h1 := (hmem' j).mp hj
      rw [(hmem j).mp hc, Option.some.injEq, Prod.mk.injEq] at h1
      exact hdt ⟨h1.1.symm, h1.2.symm⟩
    -- any other list shares no slab with this one
    have hni' : i ∉ l' := fun hc => by
      rw [hmem', hi] at hc
      cases hc
    refine ⟨l', hl'.congr fun j hj => ?_, fun j => ?_⟩
    · have hji : j ≠ i := fun hc => hni' (hc ▸ hj)
      rw [if_neg hji, if_neg hji, if_neg fun hc => hoff j hj (hhead j hc)]
      exact ⟨rfl, rfl⟩
    · by_cases hj : j = i
      · subst hj
        rw [update_self]
        refine ⟨fun h => absurd h hni', fun h => ?_⟩
        rw [Option.some.injEq, Prod.mk.injEq] at h
        exact absurd ⟨h.1.symm, h.2.symm⟩ hdt
      · rw [update_of_ne hj]
        exact hmem' j

end ZephyrOS.Kmem
