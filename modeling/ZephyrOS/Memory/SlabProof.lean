import ZephyrOS.Memory.PmmPages
import ZephyrOS.Memory.SlabLists

/-!
# The invariant of the slab allocator

In three layers that do not know of each other: what one slab keeps about its objects
(`SlabOk`), where slabs and caches stand in the tables and which pages they have
(`Base`, with the counters of a cache in `Books`), and the lists (`Lists`). The
allocator's own check asks for nothing that these do not give.
-/

namespace ZephyrOS.Kmem

open ZephyrOS.Memory (pageSize pagesOf Releasable)

open Lib List Function

/-! ### One slab -/

/-- The end of a free list is the number after the last object there can be. -/
def node (k : Nat) : Option Nat := if k = maxObjects then none else some k

theorem node_of_lt {k count : Nat} (h : k < count) (hmax : count ≤ 128) : node k = some k :=
  if_neg fun hc => by unfold maxObjects at hc; omega

/-- The list a slab belongs in. -/
def stateOf (active count : Nat) : SlabState :=
  if active = 0 then .stateEmpty else if active = count then .stateFull else .statePartial

/-- What a slab keeps about its objects is right: the free list holds those whose bit is
clear, and the counter and the state follow from the bits. -/
structure SlabOk (x : Slab) : Prop where
  count_min : 8 ≤ x.objectCount
  count_max : x.objectCount ≤ 128
  active : x.activeObjects = countIf x.objectCount x.allocationBitmap
  free : ∃ l, Linked (fun k => node (x.freeNext k)) (node x.freeHead) l ∧
    ∀ k, k ∈ l ↔ k < x.objectCount ∧ x.allocationBitmap k = false
  state : x.state = stateOf x.activeObjects x.objectCount

/-- The first free object is put in use. -/
def Slab.take (x : Slab) : Slab :=
  { x with
    freeHead := x.freeNext x.freeHead
    allocationBitmap := update x.allocationBitmap x.freeHead true
    activeObjects := x.activeObjects + 1
    state := stateOf (x.activeObjects + 1) x.objectCount }

/-- Object `k` is put back. -/
def Slab.put (x : Slab) (k : Nat) : Slab :=
  { x with
    freeHead := k
    allocationBitmap := update x.allocationBitmap k false
    freeNext := update x.freeNext k x.freeHead
    activeObjects := x.activeObjects - 1
    state := stateOf (x.activeObjects - 1) x.objectCount }

variable {x : Slab} {c i : Nat} {s : State} {t : SlabState} {d : Nat}

theorem SlabOk.active_le (h : SlabOk x) : x.activeObjects ≤ x.objectCount := by
  rw [h.active]
  exact countIf_le _ _

/-- A slab that is not full has a free object at hand. -/
theorem SlabOk.freeHead_lt (h : SlabOk x) (hlt : x.activeObjects < x.objectCount) :
    x.freeHead < x.objectCount ∧ x.allocationBitmap x.freeHead = false := by
  obtain ⟨l, hl, hmem⟩ := h.free
  have hnode : node x.freeHead = some x.freeHead := by
    cases l with
    | nil =>
      -- with an empty free list every bit would be set
      have hall : ∀ k < x.objectCount, x.allocationBitmap k = true := fun k hk => by
        have := mt (hmem k).mpr (by simp)
        simpa [hk] using this
      have := h.active
      rw [countIf_eq_iff.mpr hall] at this
      omega
    | cons k l =>
      have := hl.1
      unfold node at this ⊢
      split at this
      · cases this
      · rename_i hne; exact if_neg hne
  have hhead := hl.head
  rw [hnode] at hhead
  exact (hmem _).mp (mem_of_head? hhead.symm)

theorem SlabOk.take (h : SlabOk x) (hlt : x.activeObjects < x.objectCount) : SlabOk x.take := by
  obtain ⟨hk, hbit⟩ := h.freeHead_lt hlt
  obtain ⟨l, hl, hmem⟩ := h.free
  refine ⟨h.count_min, h.count_max, ?_, ?_, rfl⟩
  · show x.activeObjects + 1 = countIf x.objectCount (update _ _ true)
    rw [countIf_set hk hbit, h.active]
  · have hnode := node_of_lt hk h.count_max
    have hnd := hl.nodup
    rw [hnode] at hl
    cases l with
    | nil => exact absurd hl (by simp [Linked])
    | cons k l =>
      obtain ⟨hk', hl⟩ := hl
      obtain rfl := Option.some.inj hk'
      refine ⟨l, hl, fun j => ?_⟩
      show j ∈ l ↔ j < x.objectCount ∧ update x.allocationBitmap x.freeHead true j = false
      have hj := hmem j
      by_cases hje : j = x.freeHead
      · rw [hje]
        simp [(nodup_cons.mp hnd).1]
      · rw [update_of_ne hje, ← hj]
        simp [hje]

theorem SlabOk.put (h : SlabOk x) {k : Nat} (hk : k < x.objectCount)
    (hbit : x.allocationBitmap k = true) : SlabOk (x.put k) := by
  obtain ⟨l, hl, hmem⟩ := h.free
  have hkl : k ∉ l := fun hc => by
    have := ((hmem k).mp hc).2
    rw [hbit] at this
    cases this
  refine ⟨h.count_min, h.count_max, ?_, ⟨k :: l, ⟨?_, ?_⟩, fun j => ?_⟩, rfl⟩
  · show x.activeObjects - 1 = countIf x.objectCount (update _ _ false)
    have := countIf_clear hk hbit
    have := h.active
    omega
  · exact node_of_lt hk h.count_max
  · show Linked (fun j => node (update x.freeNext k x.freeHead j))
      (node (update x.freeNext k x.freeHead k)) l
    rw [update_self]
    refine Linked.congr (fun j hj => ?_) hl
    have hjk : j ≠ k := fun hc => hkl (hc ▸ hj)
    rw [update_of_ne hjk]
  · show j ∈ k :: l ↔ j < x.objectCount ∧ update x.allocationBitmap k false j = false
    by_cases hj : j = k
    · subst hj; simp [hk]
    · rw [update_of_ne hj, ← hmem j]
      simp [hj]

/-- A new slab is all free. -/
theorem slabOk_fresh {memory : Nat} {cache : Cache} (hmin : 8 ≤ cache.objectsPerSlab)
    (hmax : cache.objectsPerSlab ≤ 128) : SlabOk (freshSlab c cache memory) := by
  refine ⟨hmin, hmax, ?_, ?_, rfl⟩
  · exact (countIf_eq_zero.mpr fun _ _ => rfl).symm
  · -- from any object on, the list runs to the last one
    have hrun : ∀ m k, k + m = cache.objectsPerSlab → 0 < m → Linked
        (fun k => node ((freshSlab c cache memory).freeNext k)) (node k) (range' k m) := by
      intro m
      induction m with
      | zero => intro k _ h; exact absurd h (lt_irrefl 0)
      | succ m ih =>
        intro k hk _
        refine ⟨node_of_lt (by omega) hmax, ?_⟩
        show Linked _ (node (if k < cache.objectsPerSlab then
          if k + 1 < cache.objectsPerSlab then k + 1 else maxObjects else 0)) _
        rw [if_pos (by omega)]
        cases m with
        | zero =>
          rw [if_neg (by omega)]
          exact if_pos rfl
        | succ m =>
          rw [if_pos (by omega)]
          exact ih (k + 1) (by omega) (Nat.succ_pos m)
    refine ⟨_, hrun cache.objectsPerSlab 0 (zero_add _) (by omega), fun k => ?_⟩
    show _ ↔ k < cache.objectsPerSlab ∧ false = false
    simp

/-! ### Tables and pages -/

/-- The layout `kmem_cache_create` settles on. -/
structure CacheOk (x : Cache) : Prop where
  size_pos : 0 < x.objectSize
  size_le : x.objectSize ≤ x.objectStride
  align_stride : x.alignment ∣ x.objectStride
  align_page : x.alignment ∣ 4096
  objects_min : 8 ≤ x.objectsPerSlab
  objects_max : x.objectsPerSlab ≤ 128
  fits : x.objectsPerSlab * x.objectStride ≤ x.slabPages * 4096

/-- Slabs and caches, without the lists. -/
structure Base (s : State) : Prop where
  initialized : s.initialized = true
  pmm : Memory.Inv s.pmm
  slab_lt : ∀ i, (s.slabs i).used = true → i < 128
  cache_lt : ∀ c, (s.caches c).used = true → c < 16
  slab : ∀ i, (s.slabs i).used = true → SlabOk (s.slabs i)
  cache : ∀ c, (s.caches c).used = true → CacheOk (s.caches c)
  /-- A slab belongs to a cache in use and is laid out as the cache says. -/
  owner : ∀ i, (s.slabs i).used = true → ∃ c, (s.slabs i).owner = some c ∧
    (s.caches c).used = true ∧ (s.slabs i).objectCount = (s.caches c).objectsPerSlab ∧
    (s.slabs i).pages = (s.caches c).slabPages
  /-- Its pages are out. -/
  pages : ∀ i, (s.slabs i).used = true → Releasable s.pmm (s.slabs i).memory (s.slabs i).pages
  /-- No page is in two slabs. -/
  apart : ∀ i j, (s.slabs i).used = true → (s.slabs j).used = true → i ≠ j →
    ∀ p ∈ pagesOf (s.slabs i).memory (s.slabs i).pages,
      p ∉ pagesOf (s.slabs j).memory (s.slabs j).pages
  cacheCount : s.cacheCount = countIf 16 fun c => (s.caches c).used
  slabCount : s.slabCount = countIf 128 fun i => (s.slabs i).used

/-- The counters of a cache. -/
structure Books (s : State) (c : Nat) : Prop where
  active : (s.caches c).activeObjects
    = tally 128 fun i => if s.owned c i then (s.slabs i).activeObjects else 0
  capacity : (s.caches c).capacity
    = tally 128 fun i => if s.owned c i then (s.slabs i).objectCount else 0
  slabs : (s.caches c).slabCount = countIf 128 (s.owned c)

/-- Where a slab in use belongs. -/
def placeOf (s : State) (i : Nat) : Option (Nat × SlabState) :=
  if (s.slabs i).used then (s.slabs i).owner.map (·, (s.slabs i).state) else none

/-- **The invariant of the slab allocator.** -/
structure Inv (s : State) : Prop where
  base : Base s
  books : ∀ c, (s.caches c).used = true → Books s c
  lists : Lists s (placeOf s)

theorem owned_iff : s.owned c i = true ↔ (s.slabs i).used = true ∧ (s.slabs i).owner = some c := by
  unfold State.owned
  rw [Bool.and_eq_true, beq_iff_eq]

theorem placeOf_eq_some :
    placeOf s i = some (c, t) ↔ s.owned c i = true ∧ (s.slabs i).state = t := by
  unfold placeOf
  rw [owned_iff]
  by_cases hu : (s.slabs i).used = true
  · rw [if_pos hu, Option.map_eq_some_iff]
    simp only [Prod.mk.injEq, hu, true_and]
    constructor
    · rintro ⟨a, h1, rfl, h2⟩; exact ⟨h1, h2⟩
    · rintro ⟨h1, h2⟩; exact ⟨c, h1, rfl, h2⟩
  · simp [hu]

theorem Base.owned_facts (h : Base s) (hown : s.owned c i = true) :
    (s.slabs i).used = true ∧ (s.caches c).used = true ∧
      (s.slabs i).objectCount * (s.caches c).objectStride ≤ (s.slabs i).pages * 4096 ∧
      0 < (s.caches c).objectStride := by
  obtain ⟨hu, ho⟩ := owned_iff.mp hown
  obtain ⟨d, hd, hcu, hcount, hpages⟩ := h.owner i hu
  obtain rfl : c = d := Option.some.inj (ho.symm.trans hd)
  have hc := h.cache c hcu
  have := hc.size_pos
  have := hc.size_le
  exact ⟨hu, hcu, by rw [hcount, hpages]; exact hc.fits, by omega⟩

theorem owned_unique (hc : s.owned c i = true) (hd : s.owned d i = true) : c = d :=
  Option.some.inj ((owned_iff.mp hc).2.symm.trans (owned_iff.mp hd).2)

theorem not_owned (hc : s.owned c i = true) (hne : d ≠ c) : s.owned d i = false := by
  rw [← Bool.not_eq_true]
  exact fun hd => hne (owned_unique hd hc)

/-! ### The allocator's own check -/

theorem any_false {n : Nat} {p q : Nat → Bool} (h : ∀ k < n, p k = true → q k = true) :
    ¬ ((List.range n).any fun k => p k && !q k) = true := by
  rw [any_eq_true]
  rintro ⟨k, hk, hb⟩
  rw [Bool.and_eq_true] at hb
  rw [h k (mem_range.mp hk) hb.1] at hb
  exact absurd hb.2 (by decide)

theorem walkFree_spec {x : Slab} : ∀ (l : List Nat) {rounds current count : Nat} {seen : Nat → Bool},
    Linked (fun k => node (x.freeNext k)) (node current) l → l.Nodup → l.length < rounds →
    (∀ k ∈ l, k < x.objectCount ∧ x.allocationBitmap k = false ∧ seen k = false) →
    ∃ seen', x.walkFree rounds current count seen = some (maxObjects, count + l.length, seen') ∧
      ∀ k, seen' k = true ↔ seen k = true ∨ k ∈ l
  | [], rounds + 1, current, count, seen, hl, _, _, _ => by
    have hcur : current = maxObjects := by
      have : node current = none := hl
      unfold node at this
      split at this
      · assumption
      · cases this
    exact ⟨seen, by rw [Slab.walkFree, hcur]; rfl, by simp⟩
  | k :: l, rounds + 1, current, count, seen, hl, hnd, hlen, hok => by
    obtain ⟨hk, hl⟩ := hl
    have hcur : current ≠ maxObjects ∧ current = k := by
      unfold node at hk
      split at hk
      · cases hk
      · rename_i hne; exact ⟨hne, Option.some.inj hk⟩
    obtain ⟨hne, rfl⟩ := hcur
    obtain ⟨hlt, hbit, hseen⟩ := hok current mem_cons_self
    obtain ⟨hnot, hnd⟩ := nodup_cons.mp hnd
    obtain ⟨seen', hwalk, hmem⟩ := @walkFree_spec x l rounds (x.freeNext current) (count + 1)
      (update seen current true) hl hnd (Nat.lt_of_succ_lt_succ hlen) fun j hj => by
        obtain ⟨h1, h2, h3⟩ := hok j (mem_cons_of_mem _ hj)
        have hjc : j ≠ current := fun hc => hnot (hc ▸ hj)
        exact ⟨h1, h2, by rw [update_of_ne hjc]; exact h3⟩
    refine ⟨seen', ?_, fun j => ?_⟩
    · rw [Slab.walkFree, if_neg hne, if_neg (by simp [hbit, hlt]), if_neg (by simp [hseen]), hwalk,
        length_cons]
      congr 3
      omega
    · rw [hmem j]
      by_cases hj : j = current
      · subst hj; simp
      · simp [hj]

theorem SlabOk.valid (h : SlabOk x) (hused : x.used = true) (howner : x.owner ≠ none)
    (hmem : x.memory ≠ 0) (hpages : x.pages ≠ 0) : x.valid = true := by
  obtain ⟨l, hl, hfree⟩ := h.free
  have hlen : l.length = countIf x.objectCount fun k => !x.allocationBitmap k :=
    length_eq_countIf hl.nodup fun k => by rw [hfree k, Bool.not_eq_true']
  have hsum := countIf_add_not x.objectCount x.allocationBitmap
  obtain ⟨seen, hwalk, hseen⟩ := @walkFree_spec x l (x.objectCount + 1) x.freeHead 0 (fun _ => false)
    hl hl.nodup (by omega) fun k hk => ⟨((hfree k).mp hk).1, ((hfree k).mp hk).2, rfl⟩
  have hmin := h.count_min
  have hmax := h.count_max
  unfold Slab.valid
  rw [if_neg (by simp [hused, howner, hmem, hpages, minObjects, maxObjects]; omega), hwalk]
  dsimp only
  rw [if_neg (by simp only [ne_eq, not_true_eq_false, false_or, not_or, not_not]
                 exact ⟨by omega, h.active.symm⟩), if_neg]
  · have hst := h.state
    rw [← h.active, hst]
    unfold stateOf
    by_cases h0 : x.activeObjects = 0
    · simp [h0]; omega
    · by_cases hn : x.activeObjects = x.objectCount
      · simp [hn]; omega
      · simp [h0, hn]
  · refine any_false fun k hk hb => (hseen k).mpr (.inr ((hfree k).mpr ⟨hk, ?_⟩))
    rwa [Bool.not_eq_true'] at hb

theorem validList_spec {expected : Nat} : ∀ (l : List Nat) {rounds count : Nat} {p h : Option Nat},
    Threaded (fun j => (s.slabs j).previous) (fun j => (s.slabs j).next) p h l →
    l.length ≤ rounds → (∀ i ∈ l, i < 128 ∧ s.owned c i = true ∧ (s.slabs i).state = t) →
    s.validList c t expected rounds p h count = (count + l.length == expected)
  | [], rounds, count, p, h, hl, _, _ => by
    obtain rfl : h = none := hl
    cases rounds <;> rfl
  | i :: l, 0, _, _, _, _, hlen, _ => absurd hlen (by simp)
  | i :: l, rounds + 1, count, p, h, hl, hlen, hok => by
    obtain ⟨rfl, hp, hl⟩ := hl
    obtain ⟨hlt, hown, hst⟩ := hok i mem_cons_self
    obtain ⟨hu, ho⟩ := owned_iff.mp hown
    rw [State.validList, if_neg (by unfold slabMax; omega)]
    rw [if_neg (by simp [hu, ho, hst, hp]), validList_spec l hl (Nat.le_of_succ_le_succ hlen)
      fun j hj => hok j (mem_cons_of_mem i hj), length_cons]
    congr 1
    omega

/-- The stretch of memory a slab has. -/
theorem Base.range (h : Base s) (hu : (s.slabs i).used = true) :
    0 < (s.slabs i).memory ∧ (s.slabs i).memory % 4096 = 0 ∧ 0 < (s.slabs i).pages ∧
      (s.slabs i).memory + (s.slabs i).pages * 4096 < 4294967296 := by
  obtain ⟨hmod, hpos, hall⟩ := h.pages i hu
  have htot := h.pmm.total
  have hlt := h.pmm.total_lt
  rw [show pageSize = 4096 from rfl] at hmod hall htot
  have hfirst := hall ((s.slabs i).memory / 4096) (le_refl _) (by omega)
  have hlast := (hall ((s.slabs i).memory / 4096 + ((s.slabs i).pages - 1)) (Nat.le_add_right _ _)
    (by omega)).1
  have husable := (h.pmm.usable _ hfirst.1 (.inr hfirst.2)).1
  unfold Memory.physicalIdentityStart Memory.heapStart Memory.heapSize pageSize at husable
  omega

theorem Base.slab_valid (h : Base s) (hu : (s.slabs i).used = true) : (s.slabs i).valid = true := by
  obtain ⟨hmem, _, hpages, _⟩ := h.range hu
  obtain ⟨c, ho, _⟩ := h.owner i hu
  exact (h.slab i hu).valid hu (by simp [ho]) (by omega) (by omega)

theorem Inv.cache_valid (h : Inv s) (hu : (s.caches c).used = true) : s.validCache c = true := by
  have hlist : ∀ t, s.validList c t
      (countIf 128 fun i => s.owned c i && (s.slabs i).state == t) 129 none
      ((s.caches c).head t) 0 = true := by
    intro t
    obtain ⟨l, hl, hmem⟩ := h.lists c hu t
    have hok : ∀ i, i ∈ l ↔ i < 128 ∧ (s.owned c i && (s.slabs i).state == t) = true := by
      intro i
      rw [hmem, placeOf_eq_some, Bool.and_eq_true, beq_iff_eq]
      exact ⟨fun hi => ⟨h.base.slab_lt i (owned_iff.mp hi.1).1, hi⟩, fun hi => hi.2⟩
    have hlen := length_eq_countIf hl.nodup hok
    have hle := countIf_le 128 fun i => s.owned c i && (s.slabs i).state == t
    rw [validList_spec l hl (by omega) fun i hi => ?_, zero_add, hlen, beq_self_eq_true]
    obtain ⟨h1, h2⟩ := (hok i).mp hi
    rw [Bool.and_eq_true, beq_iff_eq] at h2
    exact ⟨h1, h2⟩
  obtain ⟨hactive, hcap, hslabs⟩ := h.books c hu
  unfold State.validCache
  simp only [Bool.and_eq_true, beq_iff_eq]
  exact ⟨⟨⟨⟨⟨hlist _, hlist _⟩, hlist _⟩, hactive.symm⟩, hcap.symm⟩, hslabs.symm⟩

/-- Every slab is counted by exactly one cache. -/
theorem Base.slabs_counted (h : Base s) :
    tally 16 (fun c => if (s.caches c).used then countIf 128 (s.owned c) else 0)
      = countIf 128 fun i => (s.slabs i).used := by
  have hpush : ∀ c, (if (s.caches c).used then countIf 128 (s.owned c) else 0)
      = tally 128 fun i => if (s.caches c).used && s.owned c i then 1 else 0 := by
    intro c
    cases (s.caches c).used with
    | true => rfl
    | false => exact (tally_eq_zero.mpr fun i _ => rfl).symm
  simp only [hpush]
  rw [tally_comm]
  refine tally_congr fun i hi => ?_
  by_cases hu : (s.slabs i).used = true
  · obtain ⟨c, ho, hc, _⟩ := h.owner i hu
    rw [if_pos hu]
    refine Eq.trans (tally_congr fun d _ => if_congr ?_ rfl rfl)
      (tally_single (h.cache_lt c hc))
    rw [Bool.and_eq_true, owned_iff, ho, Option.some.injEq]
    exact ⟨fun hd => hd.2.2.symm, fun hd => by subst hd; exact ⟨hc, hu, rfl⟩⟩
  · rw [if_neg hu]
    refine tally_eq_zero.mpr fun c _ => if_neg ?_
    rw [Bool.and_eq_true, owned_iff]
    exact fun hc => hu hc.2.1

/-- **The check passes.** -/
theorem Inv.validate (h : Inv s) : kmemCacheValidate s = .ok () := by
  unfold kmemCacheValidate
  rw [if_neg (by simp [h.base.initialized]), if_neg, if_neg, if_neg]
  · rw [not_or, not_not, not_not]
    exact ⟨h.base.cacheCount.symm, h.base.slabs_counted.trans h.base.slabCount.symm⟩
  · exact any_false fun c _ hc => h.cache_valid hc
  · exact any_false fun i _ hi => h.base.slab_valid hi

end ZephyrOS.Kmem
