import ZephyrOS.Memory.SlabObjects

/-!
# Slabs come and go

`kmem_cache_alloc` may set up a new slab, and `kmem_cache_destroy` gives up those of a
cache one by one. Both replace the record of one slab and move its pages between the
page allocator and the slab allocator.
-/

namespace ZephyrOS.Kmem

open ZephyrOS.Memory (pageSize pagesOf Releasable MemInfo)

open List Function

/-! ### A new slab -/

/-- The tables after slab `i` was set up for cache `c`. -/
structure Prepared (s s' : State) (c i memory : Nat) : Prop where
  initialized : s'.initialized = s.initialized
  cacheCount : s'.cacheCount = s.cacheCount
  slabCount : s'.slabCount = s.slabCount + 1
  slab : ∀ j, j ≠ i → (s'.slabs j).bare = (s.slabs j).bare
  fresh : (s'.slabs i).bare = (freshSlab c (s.caches c) memory).bare
  cache : ∀ d, (s'.caches d).bare = { (s.caches d).bare with
    slabCount := (s.caches d).slabCount + if d = c then 1 else 0
    capacity := (s.caches d).capacity + if d = c then (s.caches c).objectsPerSlab else 0 }

section Prepare

variable {s s' : State} {c i memory : Nat} (h : Inv s) (hp : Prepared s s' c i memory)
  (hcu : (s.caches c).used = true) (hi : (s.slabs i).used = false) {d : Nat}

include hp

theorem Prepared.fields (d : Nat) : SameCache (s'.caches d) (s.caches d) ∧
    (s'.caches d).activeObjects = (s.caches d).activeObjects ∧
    (s'.caches d).capacity
      = (s.caches d).capacity + (if d = c then (s.caches c).objectsPerSlab else 0) ∧
    (s'.caches d).slabCount = (s.caches d).slabCount + if d = c then 1 else 0 :=
  Cache.fields (y := { s.caches d with
    slabCount := (s.caches d).slabCount + if d = c then 1 else 0
    capacity := (s.caches d).capacity + if d = c then (s.caches c).objectsPerSlab else 0 }) (hp.cache d)

theorem Prepared.owned (hi : (s.slabs i).used = false) (d j : Nat) :
    s'.owned d j = true ↔ (j = i ∧ d = c) ∨ s.owned d j = true := by
  rw [owned_iff, owned_iff]
  by_cases hj : j = i
  · subst hj
    obtain ⟨⟨h1, h2, _⟩, _⟩ := Slab.fields hp.fresh
    rw [h1, h2, hi]
    show (true = true ∧ some c = some d) ↔ _
    simp [eq_comm]
  · obtain ⟨⟨h1, h2, _⟩, _⟩ := Slab.fields (hp.slab j hj)
    rw [h1, h2]
    simp [hj]

include h hcu hi

theorem Prepared.base (hilt : i < 128) (hpmm : Memory.Inv s'.pmm)
    (hold : ∀ j, (s.slabs j).used = true → Releasable s'.pmm (s.slabs j).memory (s.slabs j).pages)
    (hnew : Releasable s'.pmm memory (s.caches c).slabPages)
    (hfree : ∀ p ∈ pagesOf memory (s.caches c).slabPages, s.pmm.pmmPageIsFree p = true) :
    Base s' := by
  have hcok := h.base.cache c hcu
  obtain ⟨f1, f2, f3, f4, f5⟩ := (Slab.fields hp.fresh).1
  have hkeep : ∀ j, j ≠ i → SameSlab (s'.slabs j) (s.slabs j) := fun j hj =>
    (Slab.fields (hp.slab j hj)).1
  refine @Base.change s s' i h.base hp.initialized hpmm hp.cacheCount (fun d => (hp.fields d).1) hkeep
    (fun j hu => ?_) (fun j _ => hold j) ?_ fun _ => ⟨hilt, ⟨c, f2, hcu, f5, f4⟩, ?_, fun j hu p hpj => ?_⟩
  · by_cases hj : j = i
    · subst hj
      exact (slabOk_fresh hcok.objects_min hcok.objects_max).of_bare hp.fresh
    · exact (h.base.slab j ((hkeep j hj).1 ▸ hu)).of_bare (hp.slab j hj)
  · rw [hp.slabCount, h.base.slabCount, ← Lib.countIf_set hilt hi]
    congr 1
    funext j
    by_cases hj : j = i
    · subst hj; rw [update_self, f1]; rfl
    · rw [update_of_ne hj, (hkeep j hj).1]
  · rw [f3, f4]
    exact hnew
  · -- a page of an old slab is out, and those of the new one were free
    rw [f3, f4]
    intro hpi
    obtain ⟨h1, h2⟩ := Memory.mem_pagesOf.mp hpj
    obtain ⟨hlt, ho⟩ := (h.base.pages j hu).2.2 p h1 h2
    have := h.base.pmm.not_free_of_owned hlt ho
    rw [hfree p hpi] at this
    cases this

omit hcu in
theorem Prepared.books (hilt : i < 128) (hd : (s.caches d).used = true) : Books s' d := by
  have hno : ∀ e, s.owned e i = false := fun e => by
    rw [← Bool.not_eq_true, owned_iff, hi]; simp
  have hoi : s'.owned d i = decide (d = c) := by
    rw [Bool.eq_iff_iff, hp.owned hi, hno d]
    simp
  obtain ⟨_, h7, h8, h9⟩ := hp.fields d
  obtain ⟨⟨_, _, _, _, f5⟩, f6, _⟩ := Slab.fields hp.fresh
  refine (h.books d hd).change hilt hp.slab ?_ ?_ ?_
  all_goals unfold State.share
  all_goals simp only [hno d, hoi, Bool.false_eq_true, if_false, decide_eq_true_eq, Nat.add_zero]
  · rw [h7, f6]
    show _ = _ + if d = c then 0 else 0
    rw [ite_self, Nat.add_zero]
  · rw [h8, f5]
    rfl
  · exact h9

omit h hcu in
theorem Prepared.slab_of_owned {j : Nat} (hold : s.owned d j = true) :
    (s'.slabs j).bare = (s.slabs j).bare := by
  refine hp.slab j fun hc => ?_
  rw [hc, owned_iff, hi] at hold
  exact absurd hold.1 (by decide)

omit h hcu in
/-- The new slab has no object in use. -/
theorem Prepared.inUse (d p : Nat) : InUse s' d p ↔ InUse s d p := by
  refine exists_congr fun j => exists_congr fun k => ?_
  obtain ⟨_, _, _, g4, _⟩ := (hp.fields d).1
  rw [g4, hp.owned hi]
  by_cases hold : s.owned d j = true
  · obtain ⟨⟨_, _, e3, _, e5⟩, _, _, e8⟩ := Slab.fields (hp.slab_of_owned hi hold)
    simp only [hold, or_true, e3, e5, e8]
  refine iff_of_false ?_ fun hc => hold hc.1
  rintro ⟨⟨rfl, rfl⟩ | hc, _, hbit, _⟩
  · rw [(Slab.fields hp.fresh).2.2.2] at hbit
    exact absurd hbit (by simp [freshSlab])
  · exact hold hc

omit h hcu in
/-- The cache has the pages of the new slab in addition. -/
theorem Prepared.pages (d p : Nat) : p ∈ slabPagesOf s' d ↔
    p ∈ slabPagesOf s d ∨ (d = c ∧ p ∈ pagesOf memory (s.caches c).slabPages) := by
  obtain ⟨_, _, f3, f4, _⟩ := (Slab.fields hp.fresh).1
  constructor
  · rintro ⟨j, hown, hpj⟩
    rcases (hp.owned hi d j).mp hown with ⟨rfl, rfl⟩ | hold
    · rw [f3, f4] at hpj
      exact .inr ⟨rfl, hpj⟩
    · obtain ⟨_, _, e3, e4, _⟩ := (Slab.fields (hp.slab_of_owned hi hold)).1
      rw [e3, e4] at hpj
      exact .inl ⟨j, hold, hpj⟩
  · rintro (⟨j, hold, hpj⟩ | ⟨rfl, hpi⟩)
    · obtain ⟨_, _, e3, e4, _⟩ := (Slab.fields (hp.slab_of_owned hi hold)).1
      exact ⟨j, (hp.owned hi d j).mpr (.inr hold), by rw [e3, e4]; exact hpj⟩
    · exact ⟨i, (hp.owned hi d i).mpr (.inl ⟨rfl, rfl⟩), by rw [f3, f4]; exact hpi⟩

omit h hcu hi in
theorem Prepared.placeOf : placeOf s' = update (placeOf s) i (some (c, .stateEmpty)) := by
  funext j
  unfold Kmem.placeOf
  by_cases hj : j = i
  · subst hj
    obtain ⟨⟨f1, f2, _⟩, _, f7, _⟩ := Slab.fields hp.fresh
    rw [update_self, f1, f2, f7]
    rfl
  · obtain ⟨⟨e1, e2, _⟩, _, e7, _⟩ := Slab.fields (hp.slab j hj)
    rw [update_of_ne hj, e1, e2, e7]

end Prepare

variable {s : State} {i memory c : Nat} {pmm : MemInfo}

theorem findFreeRecord_some (h : s.findFreeRecord = some i) :
    i < 128 ∧ (s.slabs i).used = false := by
  have hmem := mem_of_find?_eq_some h
  have hp := find?_some h
  exact ⟨mem_range.mp hmem, by simpa using hp⟩

/-- The state `slab_prepare_record` leaves once it has its pages. -/
def State.prepared (s : State) (c i memory : Nat) (pmm : MemInfo) : State :=
  let s₁ := ({ s with pmm }.setSlab i (freshSlab c (s.caches c) memory)).listAdd c i .stateEmpty
  { s₁.setCache c { s₁.caches c with
      slabCount := (s₁.caches c).slabCount + 1
      capacity := (s₁.caches c).capacity + (s₁.caches c).objectsPerSlab } with
    slabCount := s₁.slabCount + 1 }

theorem prepared_bare :
    Prepared s (s.prepared c i memory pmm) c i memory ∧ (s.prepared c i memory pmm).pmm = pmm := by
  obtain ⟨s₀, hs₀⟩ : ∃ s₀, s₀ = { s with pmm }.setSlab i (freshSlab c (s.caches c) memory) := ⟨_, rfl⟩
  obtain ⟨s₁, hs₁⟩ : ∃ s₁, s₁ = s₀.listAdd c i .stateEmpty := ⟨_, rfl⟩
  have hb : s₁.bare = ({ s with pmm }.setSlab i (freshSlab c (s.caches c) memory)).bare := by
    rw [hs₁, bare_listAdd]
    have hi : s₀.slabs i = freshSlab c (s.caches c) memory := by
      rw [hs₀, setSlab_slabs, if_pos rfl]
    rw [hi, hs₀, bare_setSlab]
    unfold State.setSlab
    simp only [update_idem]
    rfl
  have heq : s.prepared c i memory pmm = { s₁.setCache c { s₁.caches c with
      slabCount := (s₁.caches c).slabCount + 1
      capacity := (s₁.caches c).capacity + (s₁.caches c).objectsPerSlab } with
    slabCount := s₁.slabCount + 1 } := by rw [hs₁, hs₀]; rfl
  have hc : ∀ d, (s₁.caches d).bare = (s.caches d).bare := fun d => bare_cache hb d
  rw [heq]
  refine ⟨⟨?_, ?_, ?_, fun j hj => ?_, ?_, fun d => ?_⟩, ?_⟩
  · exact (congrArg State.initialized hb :)
  · exact (congrArg State.cacheCount hb :)
  · exact (congrArg (fun z : State => z.slabCount + 1) hb :)
  · exact (bare_slab hb j).trans (by rw [setSlab_slabs, if_neg hj])
  · exact (bare_slab hb i).trans (by rw [setSlab_slabs, if_pos rfl])
  · rw [setCache_caches, ← hc d]
    by_cases hd : d = c
    · subst hd
      obtain ⟨⟨_, _, _, _, g5, _⟩, _, g8, g9⟩ := Cache.fields (hc d)
      rw [if_pos rfl, if_pos rfl, if_pos rfl, ← g9, ← g8, ← g5]
      rfl
    · rw [if_neg hd, if_neg hd, if_neg hd, ← (Cache.fields (hc d)).2.2.1, ← (Cache.fields (hc d)).2.2.2]
      rfl
  · exact congrArg State.pmm hb

theorem prepared_lists (h : Inv s) (hcu : (s.caches c).used = true)
    (hi : (s.slabs i).used = false) (memory : Nat) (pmm : MemInfo) :
    Lists (s.prepared c i memory pmm) (update (placeOf s) i (some (c, .stateEmpty))) := by
  have hstart : Lists ({ s with pmm }.setSlab i (freshSlab c (s.caches c) memory)) (placeOf s) := by
    intro d hd u
    obtain ⟨l, hl, hmem⟩ := h.lists d hd u
    refine ⟨l, hl.congr fun j hj => ?_, hmem⟩
    have hji : j ≠ i := fun hc => by
      have := (placeOf_eq_some.mp ((hmem j).mp hj)).1
      rw [hc, owned_iff, hi] at this
      exact absurd this.1 (by decide)
    rw [setSlab_slabs, if_neg hji]
    exact ⟨rfl, rfl⟩
  have hadd := hstart.add (t := .stateEmpty) hcu (by unfold placeOf; rw [hi]; rfl)
  refine hadd.links (fun j => ⟨rfl, rfl⟩) fun d => ?_
  show ((State.setCache _ c _).caches d).used = _ ∧ ((State.setCache _ c _).caches d).head = _
  rw [setCache_caches]
  by_cases hd : d = c
  · rw [if_pos hd, hd]; exact ⟨rfl, rfl⟩
  · rw [if_neg hd]; exact ⟨rfl, rfl⟩

theorem CacheOk.pages_pos {x : Cache} (h : CacheOk x) : 0 < x.slabPages := by
  have hmin := h.objects_min
  have hsize := h.size_pos
  have hle := h.size_le
  have hmul := Nat.mul_pos (show 0 < x.objectsPerSlab by omega) (show 0 < x.objectStride by omega)
  have hfit := h.fits
  omega

/-- What a call for cache `c` does to the pages of the caches: what the page allocator lost
is the cache's. -/
def PagesMove (s s' : State) (c : Nat) : Prop :=
  ∀ d p, p ∈ slabPagesOf s' d ↔
    p ∈ slabPagesOf s d ∨ (d = c ∧ p ∈ s.pmm.freeSet ∧ p ∉ s'.pmm.freeSet)

theorem pagesMove_of_same {s' : State} (hp : ∀ d, slabPagesOf s' d = slabPagesOf s d)
    (hf : s'.pmm.freeSet = s.pmm.freeSet) : PagesMove s s' c := by
  intro d p
  rw [hp, hf]
  simp

theorem cacheRegistered_of
    (h : ¬ (s.initialized = false ∨ s.cacheRegistered c = false)) : (s.caches c).used = true := by
  rw [not_or, Bool.not_eq_false, Bool.not_eq_false] at h
  unfold State.cacheRegistered at h
  rw [Bool.and_eq_true] at h
  exact h.2.2

/-- **A new slab.** -/
theorem prepareRecord_spec (h : Inv s) (hcu : (s.caches c).used = true) :
    ∃ r s', s.prepareRecord c = (r, s') ∧ Inv s' ∧ (s'.caches c).used = true ∧ PagesMove s s' c ∧
      (∀ d p, InUse s' d p ↔ InUse s d p) ∧
      (r = .ok () → ∃ i, s'.owned c i = true ∧ (s'.slabs i).state = .stateEmpty) := by
  unfold State.prepareRecord
  cases hrec : s.findFreeRecord with
  | none =>
    exact ⟨_, _, rfl, h, hcu, pagesMove_of_same (fun _ => rfl) rfl, fun _ _ => .rfl, nofun⟩
  | some i =>
    obtain ⟨hilt, hi⟩ := findFreeRecord_some hrec
    dsimp only
    rcases Memory.alloc_cases h.base.pmm (s.caches c).slabPages .slab with
      he | ⟨first, t, he, ht, hin, hfree⟩
    · rw [he]
      refine ⟨_, _, rfl, ⟨?_, fun d hd => ?_, h.lists⟩, hcu, pagesMove_of_same (fun _ => rfl) rfl,
        fun _ _ => .rfl, nofun⟩
      · exact { h.base with pmm := { h.base.pmm with } }
      · exact ⟨(h.books d hd).active, (h.books d hd).capacity, (h.books d hd).slabs⟩
    rw [he]
    obtain ⟨hp, hpmm⟩ := prepared_bare
    have hlists := prepared_lists h hcu hi (first * pageSize)
      (s.pmm.pmmClaimPages first (s.caches c).slabPages t)
    -- the pages that were claimed are those of the new slab
    have hrun : ∀ p, p ∈ pagesOf (first * pageSize) (s.caches c).slabPages ↔
        first ≤ p ∧ p < first + (s.caches c).slabPages := fun p => by
      rw [Memory.mem_pagesOf, Nat.mul_div_cancel first (by decide)]
    refine ⟨.ok (), s.prepared c i (first * pageSize) _, rfl, ⟨hp.base h hcu hi hilt ?_ ?_ ?_ ?_,
      fun d hd => hp.books h hi hilt ((hp.fields d).1.1 ▸ hd), by rw [hp.placeOf]; exact hlists⟩,
      (hp.fields c).1.1.trans hcu, fun d p => ?_, hp.inUse hi,
      fun _ => ⟨i, (hp.owned hi c i).mpr (.inl ⟨rfl, rfl⟩), (Slab.fields hp.fresh).2.2.1⟩⟩
    · rw [hpmm]; exact Memory.claim_inv h.base.pmm ht hin hfree
    · intro j hu; rw [hpmm]; exact Memory.releasable_claim h.base.pmm ht hin (h.base.pages j hu)
    · rw [hpmm]; exact Memory.releasable_claimed h.base.pmm ht hin (h.base.cache c hcu).pages_pos
    · exact fun p hpp => hfree p ((hrun p).mp hpp).1 ((hrun p).mp hpp).2
    · rw [hp.pages hi, hpmm, Memory.mem_freeSet_claim h.base.pmm ht hin, hrun]
      refine or_congr_right (and_congr_right fun _ => ⟨fun hr => ⟨?_, fun hc => hc.2 hr⟩, fun hf => ?_⟩)
      · exact Memory.mem_freeSet.mpr ⟨by omega, hfree p hr.1 hr.2⟩
      · by_contra hc
        exact hf.2 ⟨hf.1, hc⟩

/-! ### `kmem_cache_alloc` -/

/-- The first slab of a list. -/
theorem Inv.of_head (h : Inv s) {t : SlabState}
    (hcu : (s.caches c).used = true) (hh : (s.caches c).head t = some i) :
    s.owned c i = true ∧ (s.slabs i).state = t := by
  obtain ⟨l, hl, hmem⟩ := h.lists c hcu t
  rw [hl.linked.head] at hh
  exact placeOf_eq_some.mp ((hmem i).mp (mem_of_head? hh))

/-- A slab that is not full is known by its state. -/
theorem SlabOk.not_full {x : Slab} (h : SlabOk x) (hst : x.state ≠ .stateFull) :
    x.activeObjects < x.objectCount := by
  have hle := h.active_le
  have hmin := h.count_min
  exact lt_of_le_of_ne hle fun heq => hst (h.state.trans (stateOf_full (by omega) heq))

/-- The slab an object is taken from has one. -/
theorem chooseSlab_spec (h : Inv s) (hcu : (s.caches c).used = true) :
    ∃ r s', s.chooseSlab c = (r, s') ∧ Inv s' ∧ PagesMove s s' c ∧
      (∀ d p, InUse s' d p ↔ InUse s d p) ∧
      ∀ i, r = some i → i < 128 ∧ s'.owned c i = true ∧
        (s'.slabs i).activeObjects < (s'.slabs i).objectCount := by
  -- the first slab of the partial or the empty list has room
  have hpick : ∀ s' : State, Inv s' → (s'.caches c).used = true → ∀ t, t ≠ .stateFull →
      ∀ i, (s'.caches c).head t = some i → i < 128 ∧ s'.owned c i = true ∧
        (s'.slabs i).activeObjects < (s'.slabs i).objectCount := by
    intro s' h' hcu' t ht i hi
    obtain ⟨hown, rfl⟩ := h'.of_head hcu' hi
    have hu := (owned_iff.mp hown).1
    exact ⟨h'.base.slab_lt i hu, hown, (h'.base.slab i hu).not_full ht⟩
  have hsame : PagesMove s s c := pagesMove_of_same (fun _ => rfl) rfl
  unfold State.chooseSlab
  cases hpart : (s.caches c).head .statePartial with
  | some i =>
    refine ⟨_, _, rfl, h, hsame, fun _ _ => .rfl, fun j hj => ?_⟩
    exact hpick s h hcu _ (by decide) j (hpart.trans hj)
  | none =>
    cases hempty : (s.caches c).head .stateEmpty with
    | some i =>
      refine ⟨_, _, rfl, h, hsame, fun _ _ => .rfl, fun j hj => ?_⟩
      exact hpick s h hcu _ (by decide) j (hempty.trans hj)
    | none =>
      obtain ⟨r, s', hprep, hinv, hcu', hmove, huse, hok⟩ := prepareRecord_spec h hcu
      rw [hprep]
      cases r with
      | error e => exact ⟨_, _, rfl, hinv, hmove, huse, fun i hi => absurd hi (by simp)⟩
      | ok u =>
        exact ⟨_, _, rfl, hinv, hmove, huse, hpick s' hinv hcu' _ (by decide)⟩

/-- **Allocating.** Either nothing is allocated, or the object returned was not in use and is
now; the pages the page allocator lost are the cache's. -/
theorem kmemCacheAlloc_spec (h : Inv s) (ready : Bool) (c : Nat) :
    ∃ p s', kmemCacheAlloc ready c s = (p, s') ∧ Inv s' ∧ PagesMove s s' c ∧
      ((p = 0 ∧ ∀ d q, InUse s' d q ↔ InUse s d q) ∨
        (p ≠ 0 ∧ ¬ InUse s c p ∧ ∀ d q, InUse s' d q ↔ (d, q) = (c, p) ∨ InUse s d q)) := by
  -- where it fails, only counters move
  have hfail : ∀ s₁ s₂ : State, s₂.uncounted = s₁.uncounted → Inv s₁ → PagesMove s s₁ c →
      (∀ d q, InUse s₁ d q ↔ InUse s d q) →
      ∃ p s', (0, s₂) = (p, s') ∧ Inv s' ∧ PagesMove s s' c ∧
        ((p = 0 ∧ ∀ d q, InUse s' d q ↔ InUse s d q) ∨
          (p ≠ 0 ∧ ¬ InUse s c p ∧ ∀ d q, InUse s' d q ↔ (d, q) = (c, p) ∨ InUse s d q)) := by
    intro s₁ s₂ hu hinv hmove huse
    obtain ⟨k1, k2, k3, k4⟩ := counts_of_uncounted hu
    refine ⟨_, _, rfl, k1 hinv, fun d p => ?_, .inl ⟨rfl, fun d q => (k2 d q).trans (huse d q)⟩⟩
    rw [k3, k4]
    exact hmove d p
  have hsame : PagesMove s s c := pagesMove_of_same (fun _ => rfl) rfl
  unfold kmemCacheAlloc
  by_cases hreg : s.initialized = false ∨ s.cacheRegistered c = false
  · rw [if_pos hreg]
    exact hfail s _ rfl h hsame fun _ _ => .rfl
  rw [if_neg hreg]
  by_cases hready : ready = false
  · rw [if_pos hready]
    exact hfail s _ uncounted_allocationFailure h hsame fun _ _ => .rfl
  rw [if_neg hready]
  obtain ⟨r, s₁, hchoose, hinv, hmove, huse, hi⟩ := chooseSlab_spec h (cacheRegistered_of hreg)
  rw [hchoose]
  cases r with
  | none => exact hfail s₁ _ uncounted_allocationFailure hinv hmove huse
  | some i =>
    obtain ⟨hlt, hown, hroom⟩ := hi i rfl
    dsimp only
    rw [if_neg (by unfold slabMax; omega)]
    obtain ⟨s', htake, hinv', hb⟩ := takeObject_spec hinv hown hroom
    obtain ⟨hnot, hafter⟩ := inUse_take hinv hown hroom hb rfl
    have hframe := frame_of_edit hb ⟨rfl, rfl, rfl, rfl, rfl⟩
    obtain ⟨hmem, _⟩ := hinv.base.range (owned_iff.mp hown).1
    refine ⟨_, s', htake, hinv', fun d p => ?_, .inr ⟨by omega, ?_, fun d q => ?_⟩⟩
    · rw [hframe.slabPagesOf, hframe.pmm]
      exact hmove d p
    · exact fun hc => hnot ((huse _ _).mpr hc)
    · rw [hafter, huse]

end ZephyrOS.Kmem
