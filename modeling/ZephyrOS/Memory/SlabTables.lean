import ZephyrOS.Memory.SlabPages

/-!
# Caches come and go

`kmem_cache_create` enters a cache without slabs in the table. `kmem_cache_destroy`
refuses while an object is in use; otherwise it gives up the slabs of the cache one
after the other and strikes the cache. While it runs, the counters of that cache are
already wrong, and nothing but those.
-/

namespace ZephyrOS.Kmem

open ZephyrOS.Memory (pageSize pagesOf Releasable MemInfo)

open Lib Nat Function

/-! ### `kmem_cache_create` -/

theorem slabGeometry_some {stride objects pages : Nat} (h : slabGeometry stride = some (objects, pages)) :
    8 ≤ objects ∧ objects ≤ 128 ∧ objects * stride ≤ pages * 4096 ∧ 0 < stride := by
  unfold slabGeometry at h
  split at h
  · cases h
  dsimp only at h
  split at h
  · cases h
  split at h
  · cases h
  split at h
  · cases h
  rename_i hmin
  cases h
  refine ⟨not_lt.mp hmin, min_le_right _ _, ?_, by omega⟩
  exact le_trans (mul_le_mul_right stride (min_le_left _ _)) (div_mul_le_self _ _)

variable {alignment : Nat} {s s' : State} {i c d : Nat} {t : State} {p : Nat}

theorem alignUp_spec {value : Nat} (h : 0 < alignUp value alignment) :
    value ≤ alignUp value alignment ∧ alignment ∣ alignUp value alignment := by
  unfold alignUp at h ⊢
  split at h
  · exact absurd h (lt_irrefl 0)
  rename_i hne
  rw [if_neg hne]
  rw [not_or] at hne
  have hpos : 0 < alignment := pos_of_ne_zero hne.1
  refine ⟨?_, Dvd.intro_left _ rfl⟩
  have hdiv := div_add_mod (value + alignment - 1) alignment
  have hmod := mod_lt (value + alignment - 1) hpos
  rw [mul_comm] at hdiv
  omega

theorem powerOfTwo_dvd (h : powerOfTwo alignment = true) (hle : alignment ≤ 4096) :
    alignment ∣ 4096 := by
  unfold powerOfTwo at h
  rw [Bool.and_eq_true, decide_eq_true_eq, beq_iff_eq] at h
  obtain ⟨k, rfl⟩ := (Nat.and_sub_one_eq_zero_iff_isPowerOfTwo h.1).mp h.2
  have hk : k ≤ 12 := (Nat.pow_le_pow_iff_right (by decide)).mp hle
  exact pow_dvd_pow 2 hk

/-- The record of a cache without slabs is written. -/
theorem Base.recache {slot n : Nat} {x : Cache} (h : Base s)
    (hbooks : ∀ d, d ≠ slot → (s.caches d).used = true → Books s d) (hl : Lists s (placeOf s))
    (hno : ∀ i, s.owned slot i = false)
    (hx : x.used = true → slot < 16 ∧ CacheOk x ∧ x.activeObjects = 0 ∧ x.capacity = 0 ∧
      x.slabCount = 0 ∧ ∀ t, x.head t = none)
    (hn : n = countIf 16 (update (fun c => (s.caches c).used) slot x.used)) :
    Inv { s.setCache slot x with cacheCount := n } := by
  have hself : (s.setCache slot x).caches slot = x := update_self ..
  have hother : ∀ {c}, c ≠ slot → (s.setCache slot x).caches c = s.caches c :=
    fun hc => update_of_ne hc ..
  have hbase : Base { s.setCache slot x with cacheCount := n } := by
    refine { h with
      cache_lt := (forall_update_iff s.caches fun c y => y.used = true → c < 16).mpr
        ⟨fun hu => (hx hu).1, fun c _ => h.cache_lt c⟩
      cache := (forall_update_iff s.caches fun _ y => y.used = true → CacheOk y).mpr
        ⟨fun hu => (hx hu).2.1, fun c _ => h.cache c⟩
      owner := fun i hu => ?_
      cacheCount := ?_ }
    · obtain ⟨c, k1, k⟩ := h.owner i hu
      have hne : c ≠ slot := fun heq =>
        Bool.false_ne_true ((hno i).symm.trans (owned_iff.mpr ⟨hu, heq ▸ k1⟩))
      refine ⟨c, k1, ?_⟩
      rw [hother hne]
      exact k
    · refine hn.trans (congrArg (countIf 16) (funext fun c => ?_))
      exact (apply_update (fun _ => Cache.used) s.caches slot x c).symm
  refine ⟨hbase, fun c hc => ?_, fun c hc t => ?_⟩
  · by_cases heq : c = slot
    · subst heq
      rw [hself] at hc
      obtain ⟨_, _, h7, h8, h9, _⟩ := hx hc
      have hsum : ∀ f : Nat → Nat, tally 128 (fun i => if s.owned c i then f i else 0) = 0 :=
        fun f => tally_eq_zero.mpr fun i _ => by rw [hno i]; rfl
      exact ⟨(congrArg Cache.activeObjects hself).trans (h7.trans (hsum _).symm),
        (congrArg Cache.capacity hself).trans (h8.trans (hsum _).symm),
        (congrArg Cache.slabCount hself).trans (h9.trans (countIf_eq_zero.mpr fun i _ => hno i).symm)⟩
    · have hold := hother heq
      obtain ⟨b1, b2, b3⟩ := hbooks c heq (hold ▸ hc)
      exact ⟨(congrArg Cache.activeObjects hold).trans b1, (congrArg Cache.capacity hold).trans b2,
        (congrArg Cache.slabCount hold).trans b3⟩
  · by_cases heq : c = slot
    · subst heq
      rw [hself] at hc ⊢
      rw [(hx hc).2.2.2.2.2]
      refine ⟨[], rfl, fun j => ⟨nofun, fun hj => ?_⟩⟩
      exact absurd ((hno j).symm.trans (placeOf_eq_some.mp hj).1) Bool.false_ne_true
    · rw [hother heq] at hc ⊢
      exact hl c hc t

/-- No slab belongs to a cache that is not in use. -/
theorem Base.unused_owned (h : Base s) (hfree : (s.caches c).used = false) (i : Nat) :
    s.owned c i = false := by
  rw [← Bool.not_eq_true]
  intro hown
  exact Bool.false_ne_true (hfree.symm.trans (h.owned_facts hown).2.1)

/-- **Creating a cache** touches no slab, object or page. -/
theorem kmemCacheCreate_spec (h : Inv s) (name : List UInt8) (objectSize alignment : Nat) :
    ∃ r s', kmemCacheCreate name objectSize alignment s = (r, s') ∧ Inv s' ∧ s'.pmm = s.pmm ∧
      (∀ d p, InUse s' d p ↔ InUse s d p) ∧ ∀ d, slabPagesOf s' d = slabPagesOf s d := by
  have hsame : ∀ r, ∃ r' s', ((r : Option Nat), s) = (r', s') ∧ Inv s' ∧ s'.pmm = s.pmm ∧
      (∀ d p, InUse s' d p ↔ InUse s d p) ∧ ∀ d, slabPagesOf s' d = slabPagesOf s d :=
    fun r => ⟨_, _, rfl, h, rfl, fun _ _ => .rfl, fun _ => rfl⟩
  unfold kmemCacheCreate
  split
  · exact hsame _
  split
  · exact hsame _
  rename_i hargs
  split
  · exact hsame _
  dsimp only
  split
  · exact hsame _
  rename_i objects pages hgeo
  split
  · exact hsame _
  rename_i slot hslot
  split
  · exact hsame _
  split
  · exact hsame _
  rw [not_or, not_or, not_or, Bool.not_eq_false, not_lt] at hargs
  obtain ⟨_, hsize, hpow, hle⟩ := hargs
  obtain ⟨hmin, hmax, hfit, hpos⟩ := slabGeometry_some hgeo
  obtain ⟨hge, hdvd⟩ := alignUp_spec hpos
  obtain ⟨hslt, hfree⟩ : slot < 16 ∧ (s.caches slot).used = false := by
    have hp := List.find?_some hslot
    exact ⟨List.mem_range.mp (List.mem_of_find?_eq_some hslot), by simpa using hp⟩
  refine ⟨_, _, rfl, h.base.recache (fun d _ => h.books d) h.lists (h.base.unused_owned hfree)
    (fun _ => ⟨hslt, ⟨pos_of_ne_zero hsize, hge, hdvd, powerOfTwo_dvd hpow hle, hmin, hmax, hfit⟩,
      rfl, rfl, rfl, fun _ => rfl⟩) ?_, rfl, fun d p => ?_, fun d => rfl⟩
  · exact (congrArg (· + 1) h.base.cacheCount).trans (countIf_set hslt hfree).symm
  -- the stride of a cache matters only to slabs, and the new one has none
  refine exists_congr fun i => exists_congr fun k => and_congr_right fun hown => ?_
  have hd : d ≠ slot := fun heq =>
    Bool.false_ne_true ((h.base.unused_owned (heq ▸ hfree) i).symm.trans hown)
  rw [setCache_caches, if_neg hd]
  rfl

/-! ### `kmem_cache_destroy` -/

/-- The tables and the pages after slab `i` was given up. -/
structure Dropped (s s' : State) (i : Nat) : Prop where
  initialized : s'.initialized = s.initialized
  cacheCount : s'.cacheCount = s.cacheCount
  slabCount : s'.slabCount = s.slabCount - 1
  pmm : s'.pmm = s.pmm.pmmReleasePages ((s.slabs i).memory / pageSize) (s.slabs i).pages
  slab : ∀ j, j ≠ i → (s'.slabs j).bare = (s.slabs j).bare
  unused : (s'.slabs i).used = false
  cache : ∀ d, (s'.caches d).bare = (s.caches d).bare

theorem Base.last_page (h : Base s) (hu : (s.slabs i).used = true) :
    (s.slabs i).memory / pageSize + (s.slabs i).pages ≤ s.pmm.totalPages := by
  obtain ⟨_, hpos, hall⟩ := h.pages i hu
  have := (hall ((s.slabs i).memory / pageSize + ((s.slabs i).pages - 1)) (le_add_right _ _)
    (by omega)).1
  omega

theorem Dropped.base (hd : Dropped s s' i) (h : Base s) (hu : (s.slabs i).used = true) :
    Base s' := by
  have hin := h.last_page hu
  have hkeep : ∀ j, j ≠ i → SameSlab (s'.slabs j) (s.slabs j) := fun j hj =>
    (Slab.fields (hd.slab j hj)).1
  refine @Base.change s s' i h hd.initialized ?_ hd.cacheCount
    (fun d => (Cache.fields (hd.cache d)).1) hkeep (fun j hj => ?_) (fun j hji hju => ?_) ?_ fun hc => ?_
  · rw [hd.pmm]
    exact Memory.release_inv h.pmm hin fun p h1 h2 => ((h.pages i hu).2.2 p h1 h2).2
  · have hji : j ≠ i := fun hc => by rw [hc, hd.unused] at hj; cases hj
    exact (h.slab j ((hkeep j hji).1 ▸ hj)).of_bare (hd.slab j hji)
  · rw [hd.pmm]
    refine Memory.releasable_release h.pmm hin (h.pages j hju) fun p hp hc => ?_
    exact h.apart j i hju hu hji p hp (Memory.mem_pagesOf.mpr hc)
  · have hcount := countIf_clear (h.slab_lt i hu) (p := fun j => (s.slabs j).used) hu
    have hnew : update (fun j => (s.slabs j).used) i false = fun j => (s'.slabs j).used := by
      funext j
      by_cases hj : j = i
      · rw [hj, update_self, hd.unused]
      · rw [update_of_ne hj, (hkeep j hj).1]
    rw [hnew] at hcount
    rw [hd.slabCount, h.slabCount]
    omega
  · exact absurd (hd.unused.symm.trans hc) Bool.false_ne_true

/-- The counters of the other caches do not see the slab. -/
theorem Dropped.books (hd : Dropped s s' i) (hi : i < 128) (hown : s.owned c i = true) (hdc : d ≠ c)
    (hb : Books s d) : Books s' d := by
  have hno : s.owned d i = false := not_owned hown hdc
  have hno' : s'.owned d i = false := by
    unfold State.owned
    rw [hd.unused]
    rfl
  obtain ⟨_, g7, g8, g9⟩ := Cache.fields (hd.cache d)
  refine hb.change hi hd.slab ?_ ?_ ?_
  all_goals
    unfold State.share
    simpa only [hno, hno', Bool.false_eq_true, if_false]

/-- One round of the loop on a slab of the cache. -/
theorem destroySlab_spec (h : Base s) (hl : Lists s (placeOf s)) (hown : s.owned c i = true) :
    Dropped s (s.destroySlab c i) i ∧ Lists (s.destroySlab c i) (placeOf (s.destroySlab c i)) := by
  obtain ⟨hu, hcu, _⟩ := h.owned_facts hown
  have ho := (owned_iff.mp hown).2
  obtain ⟨s₁, hs₁⟩ : ∃ s₁, s₁ = s.listRemove c i := ⟨_, rfl⟩
  have hb : s₁.bare = s.bare := by rw [hs₁]; exact bare_listRemove
  have hpmm : s₁.pmm = s.pmm := (congrArg State.pmm hb :)
  have hfree : s.pmm.pmmFreePages (s.slabs i).memory (s.slabs i).pages
      = s.pmm.pmmReleasePages ((s.slabs i).memory / pageSize) (s.slabs i).pages := by
    rcases Memory.freePages_cases h.pmm (s.slabs i).memory (s.slabs i).pages with
      ⟨_, _, heq, _⟩ | ⟨hno, _⟩
    · exact heq
    · exact absurd (h.pages i hu) hno
  have heq : s.destroySlab c i = { ({ s₁ with
      pmm := s₁.pmm.pmmFreePages (s₁.slabs i).memory (s₁.slabs i).pages }.setSlab i Slab.zero) with
      slabCount := s₁.slabCount - 1 } := by
    unfold State.destroySlab
    rw [if_neg (by simp [hu, ho]), hs₁]
    rfl
  have hd : Dropped s (s.destroySlab c i) i := by
    rw [heq]
    obtain ⟨_, _, e3, e4, _⟩ := (Slab.fields (bare_slab hb i)).1
    refine ⟨?_, ?_, ?_, ?_, fun j hj => ?_, ?_, fun d => ?_⟩
    · exact (congrArg State.initialized hb :)
    · exact (congrArg State.cacheCount hb :)
    · exact (congrArg (fun z : State => z.slabCount - 1) hb :)
    · show s₁.pmm.pmmFreePages (s₁.slabs i).memory (s₁.slabs i).pages = _
      rw [hpmm, e3, e4, hfree]
    · rw [setSlab_slabs, if_neg hj]
      exact bare_slab hb j
    · rw [setSlab_slabs, if_pos rfl]
      rfl
    · exact bare_cache hb d
  refine ⟨hd, ?_⟩
  have hplace : placeOf (s.destroySlab c i) = update (placeOf s) i none := by
    funext j
    unfold placeOf
    by_cases hj : j = i
    · rw [hj, hd.unused, update_self]; rfl
    · obtain ⟨⟨e1, e2, _⟩, _, e7, _⟩ := Slab.fields (hd.slab j hj)
      rw [e1, e2, e7, update_of_ne hj]
  rw [hplace]
  have hrem : Lists s₁ (update (placeOf s) i none) := by
    rw [hs₁]
    exact hl.remove hcu (placeOf_eq_some.mpr ⟨hown, rfl⟩)
  -- the record that is cleared is in no list any more
  intro d hdu t
  rw [heq] at hdu ⊢
  obtain ⟨l, hl', hmem⟩ := hrem d hdu t
  refine ⟨l, hl'.congr fun j hj => ?_, hmem⟩
  have hji : j ≠ i := fun hc => by
    have := (hmem j).mp hj
    rw [hc, update_self] at this
    cases this
  rw [setSlab_slabs, if_neg hji]
  exact ⟨rfl, rfl⟩

/-- Cache `c` after `k` rounds of the loop: its slabs below `k` are gone and their pages are
free again. -/
structure Drained (s t : State) (c k : Nat) : Prop where
  base : Base t
  books : ∀ d, d ≠ c → (t.caches d).used = true → Books t d
  lists : Lists t (placeOf t)
  cache : ∀ d, (t.caches d).bare = (s.caches d).bare
  slab : ∀ i, ¬ (i < k ∧ s.owned c i = true) → (t.slabs i).bare = (s.slabs i).bare
  gone : ∀ i, i < k → s.owned c i = true → (t.slabs i).used = false
  free : ∀ p, p ∈ t.pmm.freeSet ↔ p ∈ s.pmm.freeSet ∨
    ∃ i, i < k ∧ s.owned c i = true ∧ p ∈ pagesOf (s.slabs i).memory (s.slabs i).pages

theorem Drained.step {k : Nat} (h : Drained s t c k) : Drained s (t.destroySlab c k) c (k + 1) := by
  have hsame : (t.slabs k).bare = (s.slabs k).bare := h.slab k fun hc => lt_irrefl k hc.1
  obtain ⟨e1, e2, e3, e4, _⟩ := (Slab.fields hsame).1
  have hok : t.owned c k = s.owned c k := by unfold State.owned; rw [e1, e2]
  by_cases hown : s.owned c k = true
  · rw [hown] at hok
    obtain ⟨hd, hl⟩ := destroySlab_spec h.base h.lists hok
    have hu := (owned_iff.mp hok).1
    refine ⟨hd.base h.base hu, fun d hdc hdu => ?_, hl, fun d => (hd.cache d).trans (h.cache d),
      fun i hi => ?_, fun i hi howni => ?_, fun p => ?_⟩
    · exact hd.books (h.base.slab_lt k hu) hok hdc (h.books d hdc ((Cache.fields (hd.cache d)).1.1 ▸ hdu))
    · have hik : i ≠ k := fun hc => hi ⟨by omega, hc ▸ hown⟩
      rw [hd.slab i hik]
      exact h.slab i fun hc => hi ⟨by omega, hc.2⟩
    · by_cases hik : i = k
      · rw [hik]; exact hd.unused
      · rw [(Slab.fields (hd.slab i hik)).1.1]
        exact h.gone i (by omega) howni
    · rw [hd.pmm, Memory.mem_freeSet_release h.base.pmm (h.base.last_page hu), h.free, or_assoc]
      refine or_congr_right ⟨?_, ?_⟩
      · rintro (⟨i, hi, hi'⟩ | hr)
        · exact ⟨i, by omega, hi'⟩
        · refine ⟨k, lt_succ_self k, hown, ?_⟩
          rw [← e3, ← e4]
          exact Memory.mem_pagesOf.mpr hr
      · rintro ⟨i, hi, howni, hp⟩
        by_cases hik : i = k
        · subst hik
          rw [← e3, ← e4] at hp
          exact .inr (Memory.mem_pagesOf.mp hp)
        · exact .inl ⟨i, by omega, howni, hp⟩
  · have heq : t.destroySlab c k = t := by
      unfold State.destroySlab
      rw [if_pos]
      rw [← hok, owned_iff, not_and_or, Bool.not_eq_true] at hown
      exact hown
    have hk : ∀ i, (i < k + 1 ∧ s.owned c i = true) ↔ (i < k ∧ s.owned c i = true) := fun i => by
      refine ⟨fun hi => ⟨?_, hi.2⟩, fun hi => ⟨by omega, hi.2⟩⟩
      have : i ≠ k := fun hc => hown (hc ▸ hi.2)
      omega
    rw [heq]
    refine ⟨h.base, h.books, h.lists, h.cache, fun i hi => h.slab i (mt (hk i).mpr hi),
      fun i hi ho => ?_, fun p => ?_⟩
    · exact h.gone i ((hk i).mp ⟨hi, ho⟩).1 ho
    · rw [h.free]
      refine or_congr_right (exists_congr fun i => ?_)
      rw [← and_assoc, ← and_assoc, hk i]

theorem drained_loop (h : Inv s) (c : Nat) :
    Drained s (forRange 0 (State.destroySlab c) slabMax s) c 128 := by
  refine forRange_induct (fun k t => Drained s t c k) ?_ fun k t _ ht => ?_
  · refine ⟨h.base, fun d _ hd => h.books d hd, h.lists, fun _ => rfl, fun _ _ => rfl,
      fun i hi => absurd hi (not_lt_zero i), fun p => ⟨.inl, ?_⟩⟩
    rintro (hp | ⟨i, hi, _⟩)
    · exact hp
    · exact absurd hi (not_lt_zero i)
  · rw [zero_add]
    exact ht.step

/-- A cache with no object in use has none in any slab. -/
theorem Inv.none_inUse (h : Inv s) (hcu : (s.caches c).used = true)
    (h0 : (s.caches c).activeObjects = 0) : ¬ InUse s c p := by
  rintro ⟨i, k, hown, hk, hbit, _⟩
  have hu := (owned_iff.mp hown).1
  have hpos := (h.base.slab i hu).active_pos hk hbit
  have hge := (h.books c hcu).active_ge (h.base.slab_lt i hu) hown
  omega

/-- The slabs of the cache are gone, and those of the others are as they were. -/
theorem Drained.owned (ht : Drained s t c 128) (h : Inv s) :
    (∀ i, t.owned c i = false) ∧ ∀ d i, d ≠ c → t.owned d i = s.owned d i ∧
      (s.owned d i = true → (t.slabs i).bare = (s.slabs i).bare) := by
  have hsame : ∀ d i, s.owned c i = false → t.owned d i = s.owned d i := fun d i hi => by
    obtain ⟨e1, e2, _⟩ := (Slab.fields (ht.slab i (by simp [hi]))).1
    unfold State.owned
    rw [e1, e2]
  have hgone : ∀ d i, s.owned c i = true → t.owned d i = false := fun d i hi => by
    unfold State.owned
    rw [ht.gone i (h.base.slab_lt i (owned_iff.mp hi).1) hi]
    rfl
  refine ⟨fun i => ?_, fun d i hd => ⟨?_, fun hown => ht.slab i ?_⟩⟩
  · by_cases hi : s.owned c i = true
    · exact hgone c i hi
    · rw [Bool.not_eq_true] at hi
      rw [hsame c i hi, hi]
  · by_cases hi : s.owned c i = true
    · rw [hgone d i hi, not_owned hi hd]
    · exact hsame d i (by simpa using hi)
  · exact fun hc => hd (owned_unique hown hc.2)

/-- **Destroying a cache.** It fails and changes nothing, or all its pages go back, none of
which was free, and nothing else moves. -/
theorem kmemCacheDestroy_spec (h : Inv s) (c : Nat) :
    ∃ r s', kmemCacheDestroy c s = (r, s') ∧ Inv s' ∧ (∀ d p, InUse s' d p ↔ InUse s d p) ∧
      ((r ≠ .ok () ∧ s' = s) ∨
        (r = .ok () ∧ (∀ p, p ∈ s'.pmm.freeSet ↔ p ∈ s.pmm.freeSet ∨ p ∈ slabPagesOf s c) ∧
          ∀ d, slabPagesOf s' d = if d = c then ∅ else slabPagesOf s d)) := by
  unfold kmemCacheDestroy
  by_cases hreg : s.initialized = false ∨ s.cacheRegistered c = false
  · rw [if_pos hreg]
    exact ⟨_, _, rfl, h, fun _ _ => .rfl, .inl ⟨by simp, rfl⟩⟩
  rw [if_neg hreg]
  by_cases hact : (s.caches c).activeObjects ≠ 0
  · rw [if_pos hact]
    exact ⟨_, _, rfl, h, fun _ _ => .rfl, .inl ⟨by simp, rfl⟩⟩
  rw [if_neg hact]
  have hcu := cacheRegistered_of hreg
  have ht := drained_loop h c
  obtain ⟨hno, hkeep⟩ := ht.owned h
  have hstrike : Inv { (forRange 0 (State.destroySlab c) slabMax s).setCache c Cache.zero with
      cacheCount := (forRange 0 (State.destroySlab c) slabMax s).cacheCount - 1 } := by
    refine ht.base.recache ht.books ht.lists hno (nofun) ?_
    have := countIf_clear (p := fun d => ((forRange 0 (State.destroySlab c) slabMax s).caches d).used)
      (h.base.cache_lt c hcu) ((Cache.fields (ht.cache c)).1.1.trans hcu)
    have := ht.base.cacheCount
    show _ = countIf 16 (update _ c false)
    omega
  generalize forRange 0 (State.destroySlab c) slabMax s = t at ht hno hkeep hstrike ⊢
  refine ⟨.ok (), { t.setCache c Cache.zero with cacheCount := t.cacheCount - 1 }, rfl, hstrike,
    fun d p => ?_, .inr ⟨rfl, fun p => ?_, fun d => ?_⟩⟩
  · -- the slabs that are left are as they were, and those that went had no object in use
    by_cases hd : d = c
    · subst hd
      refine iff_of_false ?_ (h.none_inUse hcu (not_not.mp hact))
      rintro ⟨i, k, hown, _⟩
      exact Bool.false_ne_true ((hno i).symm.trans hown)
    · have hstride : ((t.setCache c Cache.zero).caches d).objectStride = (s.caches d).objectStride := by
        rw [setCache_caches, if_neg hd]
        exact (Cache.fields (ht.cache d)).1.2.2.2.1
      refine exists_congr fun i => exists_congr fun k => ?_
      show t.owned d i = true ∧ k < (t.slabs i).objectCount ∧ (t.slabs i).allocationBitmap k = true ∧
        p = (t.slabs i).memory + k * ((t.setCache c Cache.zero).caches d).objectStride ↔ _
      rw [hstride, (hkeep d i hd).1]
      refine and_congr_right fun hown => ?_
      obtain ⟨⟨_, _, e3, _, e5⟩, _, _, e8⟩ := Slab.fields ((hkeep d i hd).2 hown)
      rw [e3, e5, e8]
  · show p ∈ t.pmm.freeSet ↔ _
    rw [ht.free]
    refine or_congr_right ⟨?_, ?_⟩
    · rintro ⟨i, _, hown, hp⟩; exact ⟨i, hown, hp⟩
    · rintro ⟨i, hown, hp⟩; exact ⟨i, h.base.slab_lt i (owned_iff.mp hown).1, hown, hp⟩
  · by_cases hd : d = c
    · rw [if_pos hd]
      subst hd
      ext p
      simp only [Set.mem_empty_iff_false, iff_false]
      rintro ⟨i, hown, _⟩
      exact Bool.false_ne_true ((hno i).symm.trans hown)
    · rw [if_neg hd]
      ext p
      refine exists_congr fun i => ?_
      show t.owned d i = true ∧ p ∈ pagesOf (t.slabs i).memory (t.slabs i).pages ↔ _
      rw [(hkeep d i hd).1]
      refine and_congr_right fun hown => ?_
      obtain ⟨_, _, e3, e4, _⟩ := (Slab.fields ((hkeep d i hd).2 hown)).1
      rw [e3, e4]

end ZephyrOS.Kmem
