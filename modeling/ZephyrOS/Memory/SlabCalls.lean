import ZephyrOS.Memory.SlabProof

/-!
# The calls of the slab allocator

Each call is an edit of the tables at one slab and one cache, and a move of the slab
between lists. What a call does is stated without the links; that the lists are right
afterwards is stated apart.
-/

namespace ZephyrOS.Kmem

open ZephyrOS.Memory (pageSize pagesOf Releasable)
open Function

variable {s s' : State} {c i active : Nat} {x : Slab} {place : Nat → Option (Nat × SlabState)}
  {y : Slab} {t : State} {a n k : Nat} {s₁ : State}

/-! ### Records that agree -/

/-- The slab has the pages it had, cut as they were. -/
def SameSlab (x y : Slab) : Prop :=
  x.used = y.used ∧ x.owner = y.owner ∧ x.memory = y.memory ∧ x.pages = y.pages ∧
    x.objectCount = y.objectCount

/-- The cache is laid out as it was. -/
def SameCache (x y : Cache) : Prop :=
  x.used = y.used ∧ x.objectSize = y.objectSize ∧ x.alignment = y.alignment ∧
    x.objectStride = y.objectStride ∧ x.objectsPerSlab = y.objectsPerSlab ∧ x.slabPages = y.slabPages

theorem SameSlab.trans {z : Slab} (h : SameSlab x y) (g : SameSlab y z) : SameSlab x z := by
  obtain ⟨h1, h2, h3, h4, h5⟩ := h
  obtain ⟨g1, g2, g3, g4, g5⟩ := g
  exact ⟨h1.trans g1, h2.trans g2, h3.trans g3, h4.trans g4, h5.trans g5⟩

theorem SameCache.trans {x y z : Cache} (h : SameCache x y) (g : SameCache y z) : SameCache x z := by
  obtain ⟨h1, h2, h3, h4, h5, h6⟩ := h
  obtain ⟨g1, g2, g3, g4, g5, g6⟩ := g
  exact ⟨h1.trans g1, h2.trans g2, h3.trans g3, h4.trans g4, h5.trans g5, h6.trans g6⟩

theorem Slab.fields (h : x.bare = y.bare) : SameSlab x y ∧
    x.activeObjects = y.activeObjects ∧ x.state = y.state ∧ x.allocationBitmap = y.allocationBitmap := by
  have h' := h
  unfold Slab.bare at h'
  simp only [Slab.mk.injEq] at h'
  obtain ⟨h1, h2, h3, h4, h5, _, _, _, h9, h10, h11, _⟩ := h'
  exact ⟨⟨h10, h1, h2, h3, h4⟩, h5, h9, h11⟩

theorem Cache.fields {x y : Cache} (h : x.bare = y.bare) : SameCache x y ∧
    x.activeObjects = y.activeObjects ∧ x.capacity = y.capacity ∧ x.slabCount = y.slabCount := by
  have h' := h
  unfold Cache.bare at h'
  simp only [Cache.mk.injEq] at h'
  obtain ⟨_, h2, h3, h4, h5, h6, h7, h8, h9, _, _, _, _, h14⟩ := h'
  exact ⟨⟨h14, h2, h3, h4, h5, h6⟩, h7, h8, h9⟩

theorem SlabOk.of_bare (h : SlabOk x) (hb : y.bare = x.bare) : SlabOk y := by
  have hx : SlabOk x.bare := { h with }
  rw [← hb] at hx
  exact { hx with }

theorem CacheOk.of_same {x y : Cache} (h : CacheOk x) (hs : SameCache y x) : CacheOk y := by
  obtain ⟨_, h2, h3, h4, h5, h6⟩ := hs
  obtain ⟨k1, k2, k3, k4, k5, k6, k7⟩ := h
  constructor <;> simpa only [h2, h3, h4, h5, h6]

/-- Slab `i` is another one, and everything else stands where it stood. -/
theorem Base.change {i : Nat} (h : Base s) (hinit : s'.initialized = s.initialized)
    (hpmm : Memory.Inv s'.pmm) (hcount : s'.cacheCount = s.cacheCount)
    (hcache : ∀ d, SameCache (s'.caches d) (s.caches d))
    (hkeep : ∀ j, j ≠ i → SameSlab (s'.slabs j) (s.slabs j))
    (hok : ∀ j, (s'.slabs j).used = true → SlabOk (s'.slabs j))
    (hpages : ∀ j, j ≠ i → (s.slabs j).used = true →
    Releasable s'.pmm (s.slabs j).memory (s.slabs j).pages)
    (hslabs : s'.slabCount = Lib.countIf 128 fun j => (s'.slabs j).used)
    (hnew : (s'.slabs i).used = true → i < 128 ∧ (∃ c, (s'.slabs i).owner = some c ∧
    (s.caches c).used = true ∧ (s'.slabs i).objectCount = (s.caches c).objectsPerSlab ∧
    (s'.slabs i).pages = (s.caches c).slabPages) ∧
    Releasable s'.pmm (s'.slabs i).memory (s'.slabs i).pages ∧
    ∀ j, (s.slabs j).used = true → ∀ p ∈ pagesOf (s.slabs j).memory (s.slabs j).pages,
    p ∉ pagesOf (s'.slabs i).memory (s'.slabs i).pages) : Base s' := by
  have hold : ∀ j, j ≠ i → (s'.slabs j).used = true → (s.slabs j).used = true := fun j hj hu =>
    (hkeep j hj).1 ▸ hu
  refine ⟨hinit.trans h.initialized, hpmm, fun j hu => ?_,
    fun d hu => h.cache_lt d ((hcache d).1 ▸ hu), hok,
    fun d hu => (h.cache d ((hcache d).1 ▸ hu)).of_same (hcache d), fun j hu => ?_, fun j hu => ?_,
    fun j k huj huk hjk p hpj => ?_, ?_, hslabs⟩
  · by_cases hj : j = i
    · subst hj; exact (hnew hu).1
    · exact h.slab_lt j (hold j hj hu)
  · obtain ⟨c, k1, k2, k3, k4⟩ : ∃ c, (s'.slabs j).owner = some c ∧ (s.caches c).used = true ∧
        (s'.slabs j).objectCount = (s.caches c).objectsPerSlab ∧
        (s'.slabs j).pages = (s.caches c).slabPages := by
      by_cases hj : j = i
      · subst hj; exact (hnew hu).2.1
      · obtain ⟨_, e2, _, e4, e5⟩ := hkeep j hj
        rw [e2, e4, e5]
        exact h.owner j (hold j hj hu)
    obtain ⟨g1, _, _, _, g5, g6⟩ := hcache c
    exact ⟨c, k1, g1.trans k2, k3.trans g5.symm, k4.trans g6.symm⟩
  · by_cases hj : j = i
    · subst hj; exact (hnew hu).2.2.1
    · obtain ⟨_, _, e3, e4, _⟩ := hkeep j hj
      rw [e3, e4]
      exact hpages j hj (hold j hj hu)
  · by_cases hj : j = i
    · have hk : k ≠ i := fun hc => hjk (hj.trans hc.symm)
      subst hj
      obtain ⟨_, _, e3, e4, _⟩ := hkeep k hk
      rw [e3, e4]
      exact fun hpk => (hnew huj).2.2.2 k (hold k hk huk) p hpk hpj
    obtain ⟨_, _, e3, e4, _⟩ := hkeep j hj
    rw [e3, e4] at hpj
    by_cases hk : k = i
    · subst hk
      exact (hnew huk).2.2.2 j (hold j hj huj) p hpj
    · obtain ⟨_, _, e3', e4', _⟩ := hkeep k hk
      rw [e3', e4']
      exact h.apart j k (hold j hj huj) (hold k hk huk) hjk p hpj
  · rw [hcount, h.cacheCount]
    exact congrArg _ (funext fun d => (hcache d).1.symm)

/-- What slab `i` adds to a sum over the slabs of cache `c`. -/
def State.share (s : State) (c : Nat) (f : Slab → Nat) (i : Nat) : Nat :=
  if s.owned c i then f (s.slabs i) else 0

/-- Slab `i` is another one, and the counters of a cache follow what it adds to them. -/
theorem Books.change {i : Nat} (h : Books s c) (hi : i < 128)
    (hslab : ∀ j, j ≠ i → (s'.slabs j).bare = (s.slabs j).bare)
    (hactive : (s'.caches c).activeObjects + s.share c Slab.activeObjects i
      = (s.caches c).activeObjects + s'.share c Slab.activeObjects i)
    (hcapacity : (s'.caches c).capacity + s.share c Slab.objectCount i
      = (s.caches c).capacity + s'.share c Slab.objectCount i)
    (hslabs : (s'.caches c).slabCount + s.share c (fun _ => 1) i
      = (s.caches c).slabCount + s'.share c (fun _ => 1) i) : Books s' c := by
  have hsum : ∀ (f : Slab → Nat) {a b : Nat}, (∀ x : Slab, f x.bare = f x) →
      a = Lib.tally 128 (s.share c f) → b + s.share c f i = a + s'.share c f i →
      b = Lib.tally 128 (s'.share c f) := by
    intro f a b hf ha hb
    have hchange := @Lib.tally_change 128 i (s.share c f) (s'.share c f) hi fun j _ hj => ?_
    · rw [← ha, ← hb] at hchange
      exact (Nat.add_right_cancel hchange).symm
    obtain ⟨⟨h1, h2, _⟩, _⟩ := Slab.fields (hslab j hj)
    unfold State.share State.owned
    rw [h1, h2, ← hf, hslab j hj, hf]
  exact ⟨hsum Slab.activeObjects (fun _ => rfl) h.active hactive,
    hsum Slab.objectCount (fun _ => rfl) h.capacity hcapacity,
    hsum (fun _ => 1) (fun _ => rfl) h.slabs hslabs⟩

/-! ### Objects change hands -/

/-- Only objects change hands: nothing moves in the tables, and no pages come or go. -/
structure Frame (s s' : State) : Prop where
  initialized : s'.initialized = s.initialized
  pmm : s'.pmm = s.pmm
  cacheCount : s'.cacheCount = s.cacheCount
  slabCount : s'.slabCount = s.slabCount
  slab : ∀ i, SameSlab (s'.slabs i) (s.slabs i)
  cache : ∀ c, SameCache (s'.caches c) (s.caches c)
  books : ∀ c, (s'.caches c).capacity = (s.caches c).capacity ∧
    (s'.caches c).slabCount = (s.caches c).slabCount

theorem Frame.owned (h : Frame s s') (c i : Nat) : s'.owned c i = s.owned c i := by
  obtain ⟨hu, ho, _⟩ := h.slab i
  unfold State.owned
  rw [hu, ho]

theorem Base.frame (h : Base s) (hf : Frame s s')
    (hslab : ∀ i, (s.slabs i).used = true → SlabOk (s'.slabs i)) : Base s' := by
  -- the record after the last stands for the slab that changes
  refine @Base.change s s' 128 h hf.initialized (hf.pmm ▸ h.pmm) hf.cacheCount hf.cache
    (fun j _ => hf.slab j) (fun j hu => hslab j ((hf.slab j).1 ▸ hu))
    (fun j _ hu => by rw [hf.pmm]; exact h.pages j hu) ?_ fun hu => ?_
  · rw [hf.slabCount, h.slabCount]
    exact congrArg _ (funext fun i => (hf.slab i).1.symm)
  · exact absurd (h.slab_lt 128 ((hf.slab 128).1 ▸ hu)) (by decide)

/-- One slab and its cache change. -/
def State.edit (s : State) (c i : Nat) (x : Slab) (active : Nat) : State :=
  (s.setSlab i x).setCache c { s.caches c with activeObjects := active }

theorem edit_slab (j : Nat) :
    (s.edit c i x active).slabs j = if j = i then x else s.slabs j := setSlab_slabs s i j x

theorem edit_cache (d : Nat) :
    (s.edit c i x active).caches d
      = if d = c then { s.caches c with activeObjects := active } else s.caches d :=
  setCache_caches _ _ _ _

theorem bare_slab (hb : s'.bare = t.bare) (j : Nat) :
    (s'.slabs j).bare = (t.slabs j).bare := congrFun (congrArg State.slabs hb) j

theorem bare_cache (hb : s'.bare = t.bare) (d : Nat) :
    (s'.caches d).bare = (t.caches d).bare := congrFun (congrArg State.caches hb) d

theorem bare_edit_slab (hb : s'.bare = (s.edit c i x active).bare) (j : Nat) :
    (s'.slabs j).bare = if j = i then x.bare else (s.slabs j).bare := by
  rw [bare_slab hb, edit_slab]
  split <;> rfl

theorem Frame.of_bare (h : Frame s t) (hb : s'.bare = t.bare) : Frame s s' where
  initialized := (congrArg State.initialized hb).trans h.initialized
  pmm := (congrArg State.pmm hb).trans h.pmm
  cacheCount := (congrArg State.cacheCount hb).trans h.cacheCount
  slabCount := (congrArg State.slabCount hb).trans h.slabCount
  slab i := (Slab.fields (bare_slab hb i)).1.trans (h.slab i)
  cache c := (Cache.fields (bare_cache hb c)).1.trans (h.cache c)
  books c := by
    obtain ⟨_, _, h8, h9⟩ := Cache.fields (bare_cache hb c)
    exact ⟨h8.trans (h.books c).1, h9.trans (h.books c).2⟩

theorem frame_of_edit (hb : s'.bare = (s.edit c i x active).bare) (hx : SameSlab x (s.slabs i)) :
    Frame s s' := by
  refine Frame.of_bare (t := s.edit c i x active) ⟨rfl, rfl, rfl, rfl, fun j => ?_, fun d => ?_,
    fun d => ?_⟩ hb
  · rw [edit_slab]
    by_cases hj : j = i
    · rw [if_pos hj, hj]; exact hx
    · rw [if_neg hj]; exact ⟨rfl, rfl, rfl, rfl, rfl⟩
  · rw [edit_cache]
    by_cases hd : d = c
    · rw [if_pos hd, hd]; exact ⟨rfl, rfl, rfl, rfl, rfl, rfl⟩
    · rw [if_neg hd]; exact ⟨rfl, rfl, rfl, rfl, rfl, rfl⟩
  · rw [edit_cache]
    by_cases hd : d = c
    · rw [if_pos hd, hd]; exact ⟨rfl, rfl⟩
    · rw [if_neg hd]; exact ⟨rfl, rfl⟩

/-! ### Moving a slab between lists -/

theorem Lists.links (h : Lists s place)
    (hslab : ∀ j, (s'.slabs j).next = (s.slabs j).next ∧ (s'.slabs j).previous = (s.slabs j).previous)
    (hcache : ∀ d, (s'.caches d).used = (s.caches d).used ∧ (s'.caches d).head = (s.caches d).head) :
    Lists s' place := by
  intro d hd t
  obtain ⟨hu, hh⟩ := hcache d
  rw [hu] at hd
  rw [hh]
  obtain ⟨l, hl, hmem⟩ := h d hd t
  exact ⟨l, hl.congr fun j _ => ⟨(hslab j).2, (hslab j).1⟩, hmem⟩

theorem lists_edit (h : Lists s place)
    (hx : x.next = (s.slabs i).next ∧ x.previous = (s.slabs i).previous) :
    Lists (s.edit c i x active) place := by
  refine h.links (fun j => ?_) fun d => ?_
  · rw [edit_slab]
    by_cases hj : j = i
    · rw [if_pos hj, hj]; exact hx
    · rw [if_neg hj]; exact ⟨rfl, rfl⟩
  · rw [edit_cache]
    by_cases hd : d = c
    · rw [if_pos hd, hd]; exact ⟨rfl, rfl⟩
    · rw [if_neg hd]; exact ⟨rfl, rfl⟩

/-- The places after an edit: only the slab that was edited may have another. -/
theorem placeOf_edit (hb : s'.bare = (s.edit c i x active).bare) (hown : s.owned c i = true)
    (hx : SameSlab x (s.slabs i)) : placeOf s' = update (placeOf s) i (some (c, x.state)) := by
  obtain ⟨hu, ho⟩ := owned_iff.mp hown
  funext j
  obtain ⟨⟨h1, h2, _⟩, _, h3, _⟩ := Slab.fields (bare_slab hb j)
  unfold placeOf
  rw [h1, h2, h3, edit_slab]
  by_cases hj : j = i
  · subst hj
    rw [if_pos rfl, update_self, hx.1, hx.2.1, hu, ho]
    rfl
  · rw [if_neg hj, update_of_ne hj]

theorem bare_edit : (s.edit c i x active).bare = s.bare.edit c i x.bare active := by
  unfold State.edit
  rw [bare_setCache, bare_setSlab]
  rfl

theorem edit_setSlab : (s.edit c i x active).setSlab i y = s.edit c i y active := by
  unfold State.edit State.setCache State.setSlab
  simp

section Edit

variable (h : Inv s) (hown : s.owned c i = true) (hx : SameSlab x (s.slabs i)) (hok : SlabOk x)
  (hactive : active + (s.slabs i).activeObjects = (s.caches c).activeObjects + x.activeObjects)

include h hown hx hok hactive

/-- **An edit of one slab.** The books are kept if the slab and its cache count alike. -/
theorem Inv.edit (hb : s'.bare = (s.edit c i x active).bare) (hl : Lists s' (placeOf s')) :
    Inv s' := by
  have hf : Frame s s' := frame_of_edit hb hx
  have hslab := bare_edit_slab hb
  refine ⟨h.base.frame hf fun j hu => ?_, fun d hd => ?_, hl⟩
  · by_cases hj : j = i
    · exact hok.of_bare (by rw [hslab j, if_pos hj])
    · exact (h.base.slab j hu).of_bare (by rw [hslab j, if_neg hj])
  · obtain ⟨hcapacity, hslabs⟩ := hf.books d
    have hself : (s'.slabs i).bare = x.bare := by rw [hslab, if_pos rfl]
    refine (h.books d ((hf.cache d).1 ▸ hd)).change (h.base.slab_lt i (owned_iff.mp hown).1)
      (fun j hj => by rw [hslab, if_neg hj]) ?_ ?_ ?_
    all_goals unfold State.share
    all_goals rw [hf.owned]
    · rw [(Cache.fields (bare_cache hb d)).2.1, edit_cache, (Slab.fields hself).2.1]
      by_cases hd' : d = c
      · subst hd'
        rw [if_pos rfl, if_pos hown, if_pos hown]
        exact hactive
      · rw [if_neg hd', not_owned hown hd']
        rfl
    · rw [hcapacity, (hf.slab i).2.2.2.2]
    · rw [hslabs]

/-- The slab leaves its list, is edited and gets the place its new state calls for. -/
theorem Inv.moved (hy : { y with state := x.state } = x) (hb : t.bare = (s.edit c i y active).bare)
    (hl : Lists t (update (placeOf s) i none)) : Inv (t.listAdd c i x.state) ∧
      (t.listAdd c i x.state).bare = (s.edit c i x active).bare := by
  have hused : (t.caches c).used = true := by
    rw [(Cache.fields (bare_cache hb c)).1.1, edit_cache, if_pos rfl]
    exact (h.base.owned_facts hown).2.1
  have hbare : (t.listAdd c i x.state).bare = (s.edit c i x active).bare := by
    have hybare : { y.bare with state := x.state } = x.bare := congrArg Slab.bare hy
    rw [bare_listAdd, bare_edit_slab hb, if_pos rfl, hb, bare_edit, edit_setSlab, bare_edit, hybare]
  refine ⟨h.edit hown hx hok hactive hbare ?_, hbare⟩
  rw [placeOf_edit hbare hown hx]
  have hadd := hl.add (t := x.state) hused (update_self _ _ _)
  rwa [update_idem] at hadd

/-- The slab stays where it is. -/
theorem Inv.stays (hst : x.state = (s.slabs i).state)
    (hlink : x.next = (s.slabs i).next ∧ x.previous = (s.slabs i).previous) :
    Inv (s.edit c i x active) := by
  refine h.edit hown hx hok hactive rfl ?_
  have hplace : placeOf s i = some (c, x.state) := placeOf_eq_some.mpr ⟨hown, hst.symm⟩
  rw [placeOf_edit rfl hown hx, ← hplace, update_eq_self]
  exact lists_edit h.lists hlink

end Edit

/-! ### Taking an object -/

theorem stateOf_pos (h0 : a ≠ 0) (hn : a ≠ n) : stateOf a n = .statePartial := by
  unfold stateOf
  rw [if_neg h0, if_neg hn]

theorem stateOf_full (h0 : a ≠ 0) (hn : a = n) : stateOf a n = .stateFull := by
  unfold stateOf
  rw [if_neg h0, if_pos hn]

/-- What `takeObject` does, in the terms of the slab. -/
theorem takeObject_spec (h : Inv s) (hown : s.owned c i = true)
    (hlt : (s.slabs i).activeObjects < (s.slabs i).objectCount) : ∃ s', s.takeObject c i
        = ((s.slabs i).memory + (s.slabs i).freeHead * (s.caches c).objectStride, s') ∧ Inv s' ∧
      s'.bare = (s.edit c i (s.slabs i).take ((s.caches c).activeObjects + 1)).bare := by
  obtain ⟨hu, hcu, _⟩ := h.base.owned_facts hown
  have hok := h.base.slab i hu
  obtain ⟨hk, _⟩ := hok.freeHead_lt hlt
  have hmin := hok.count_min
  have hx : SameSlab (s.slabs i).take (s.slabs i) := ⟨rfl, rfl, rfl, rfl, rfl⟩
  have hactive : (s.caches c).activeObjects + 1 + (s.slabs i).activeObjects
      = (s.caches c).activeObjects + (s.slabs i).take.activeObjects := by
    show _ = _ + ((s.slabs i).activeObjects + 1)
    omega
  -- the body is edited first, and the state with the move
  obtain ⟨y, hy⟩ : ∃ y : Slab, y = { (s.slabs i).take with state := (s.slabs i).state } := ⟨_, rfl⟩
  obtain ⟨s₁, hs₁⟩ : ∃ s₁, s₁ = s.edit c i y ((s.caches c).activeObjects + 1) := ⟨_, rfl⟩
  have hmove : ∀ t, stateOf ((s.slabs i).activeObjects + 1) (s.slabs i).objectCount = t →
      Inv ((s₁.listRemove c i).listAdd c i t) ∧ ((s₁.listRemove c i).listAdd c i t).bare
        = (s.edit c i (s.slabs i).take ((s.caches c).activeObjects + 1)).bare := by
    rintro t rfl
    refine h.moved hown hx (hok.take hlt) hactive (y := y) (by rw [hy])
      (bare_listRemove.trans (by rw [hs₁])) ?_
    have hl₁ : Lists s₁ (placeOf s) := by
      rw [hs₁]
      exact lists_edit h.lists (by rw [hy]; exact ⟨rfl, rfl⟩)
    refine hl₁.remove ?_ ?_
    · rw [hs₁, edit_cache, if_pos rfl]; exact hcu
    · rw [hs₁, edit_slab, if_pos rfl, hy]; exact placeOf_eq_some.mpr ⟨hown, rfl⟩
  have hstride : ∀ s' : State,
      s'.bare = (s.edit c i (s.slabs i).take ((s.caches c).activeObjects + 1)).bare →
      (s'.caches c).objectStride = (s.caches c).objectStride := fun s' hb =>
    ((frame_of_edit hb hx).cache c).2.2.2.1
  have hbody : (s.setSlab i { (s.slabs i) with
      freeHead := (s.slabs i).freeNext (s.slabs i).freeHead
      allocationBitmap := update (s.slabs i).allocationBitmap (s.slabs i).freeHead true
      activeObjects := (s.slabs i).activeObjects + 1 }).setCache c
        { s.caches c with activeObjects := (s.caches c).activeObjects + 1 } = s₁ := by
    rw [hs₁, hy]; rfl
  unfold State.takeObject
  rw [if_neg (not_le.mpr hk)]
  dsimp only [setSlab_caches]
  rw [hbody]
  by_cases h1 : (s.slabs i).activeObjects + 1 = 1
  · obtain ⟨hinv, hb⟩ := hmove .statePartial (stateOf_pos (by omega) (by omega))
    rw [if_pos h1, if_neg (by omega)]
    exact ⟨_, by rw [hstride _ hb], hinv, hb⟩
  rw [if_neg h1]
  by_cases h2 : (s.slabs i).activeObjects + 1 = (s.slabs i).objectCount
  · obtain ⟨hinv, hb⟩ := hmove .stateFull (stateOf_full (by omega) h2)
    rw [if_pos h2]
    exact ⟨_, by rw [hstride _ hb], hinv, hb⟩
  -- a slab that is partly used stays where it is
  rw [if_neg h2]
  have hst : (s.slabs i).take.state = (s.slabs i).state := by
    show stateOf ((s.slabs i).activeObjects + 1) (s.slabs i).objectCount = _
    rw [hok.state, stateOf_pos (by omega) (by omega), stateOf_pos (by omega) (by omega)]
  have hs : s₁ = s.edit c i (s.slabs i).take ((s.caches c).activeObjects + 1) := by
    rw [hs₁, hy, ← hst]
  refine ⟨_, by rw [hstride s₁ (by rw [hs])], ?_, by rw [hs]⟩
  rw [hs]
  exact h.stays hown hx (hok.take hlt) hactive hst ⟨rfl, rfl⟩

/-! ### Putting one back -/

/-- The writes of `putObject` to the slab, apart from its state. -/
def Slab.clear (x : Slab) (k : Nat) : Slab :=
  { x with
    allocationBitmap := update x.allocationBitmap k false
    freeNext := update x.freeNext k x.freeHead
    freeHead := k
    activeObjects := x.activeObjects - 1 }

theorem SlabOk.active_pos (h : SlabOk x) (hk : k < x.objectCount)
    (hbit : x.allocationBitmap k = true) : 0 < x.activeObjects := by
  have := Lib.countIf_clear hk hbit
  have := h.active
  omega

theorem Books.active_ge (h : Books s c) (hi : i < 128) (hown : s.owned c i = true) :
    (s.slabs i).activeObjects ≤ (s.caches c).activeObjects := by
  have := Lib.le_tally (fun j => if s.owned c j then (s.slabs j).activeObjects else 0) hi
  rw [if_pos hown, ← h.active] at this
  exact this

theorem listRemove_activeObjects :
    ((s.listRemove c i).slabs i).activeObjects = (s.slabs i).activeObjects := by
  exact (congrArg (fun z : State => (z.slabs i).activeObjects) bare_listRemove :)

theorem putObject_eq
    (hs₁ : s₁ = if (s.slabs i).state = .stateFull ∨
      ((s.slabs i).state = .statePartial ∧ (s.slabs i).activeObjects = 1) then s.listRemove c i
      else s) :
    s.putObject c i k =
      let s₂ := s₁.edit c i ((s₁.slabs i).clear k) ((s₁.caches c).activeObjects - 1)
      if (s₁.slabs i).activeObjects - 1 = 0 then s₂.listAdd c i .stateEmpty
      else if (s.slabs i).state = .stateFull then s₂.listAdd c i .statePartial else s₂ := by
  subst hs₁
  rfl

/-- What `putObject` does, in the terms of the slab. -/
theorem putObject_spec (h : Inv s) (hown : s.owned c i = true)
    (hk : k < (s.slabs i).objectCount) (hbit : (s.slabs i).allocationBitmap k = true) :
    Inv (s.putObject c i k) ∧ (s.putObject c i k).bare
      = (s.edit c i ((s.slabs i).put k) ((s.caches c).activeObjects - 1)).bare := by
  obtain ⟨hu, hcu, _⟩ := h.base.owned_facts hown
  have hok := h.base.slab i hu
  have hmin := hok.count_min
  have hpos := hok.active_pos hk hbit
  have hle := hok.active_le
  have hge := (h.books c hcu).active_ge (h.base.slab_lt i hu) hown
  have hx : SameSlab ((s.slabs i).put k) (s.slabs i) := ⟨rfl, rfl, rfl, rfl, rfl⟩
  have hactive : (s.caches c).activeObjects - 1 + (s.slabs i).activeObjects
      = (s.caches c).activeObjects + ((s.slabs i).put k).activeObjects := by
    show _ = _ + ((s.slabs i).activeObjects - 1)
    omega
  -- the slab leaves its list before it is written and gets a place after that
  have hmove : ∀ t, stateOf ((s.slabs i).activeObjects - 1) (s.slabs i).objectCount = t →
      ∀ s₁, s₁ = s.listRemove c i → ∀ s', s' = (s₁.edit c i ((s₁.slabs i).clear k)
        ((s₁.caches c).activeObjects - 1)).listAdd c i t →
      Inv s' ∧ s'.bare = (s.edit c i ((s.slabs i).put k) ((s.caches c).activeObjects - 1)).bare := by
    rintro t rfl s₁ hs₁ s' rfl
    have hb₁ : s₁.bare = s.bare := by rw [hs₁]; exact bare_listRemove
    refine h.moved hown hx (hok.put hk hbit) hactive (y := (s.slabs i).clear k) rfl ?_
      (lists_edit ?_ ⟨rfl, rfl⟩)
    · rw [bare_edit, bare_edit, hb₁, (Cache.fields (bare_cache hb₁ c)).2.1]
      have hclear : ((s₁.slabs i).clear k).bare = (s₁.slabs i).bare.clear k := rfl
      rw [hclear, bare_slab hb₁]
      rfl
    · rw [hs₁]
      exact h.lists.remove hcu (placeOf_eq_some.mpr ⟨hown, rfl⟩)
  by_cases hfull : (s.slabs i).activeObjects = (s.slabs i).objectCount
  · have hst : (s.slabs i).state = .stateFull := hok.state.trans (stateOf_full (by omega) hfull)
    rw [putObject_eq (if_pos (.inl hst)).symm]
    rw [listRemove_activeObjects, if_neg (by omega), if_pos hst]
    exact hmove .statePartial (stateOf_pos (by omega) (by omega)) _ rfl _ rfl
  have hst : (s.slabs i).state = .statePartial := hok.state.trans (stateOf_pos (by omega) hfull)
  by_cases hone : (s.slabs i).activeObjects = 1
  · rw [putObject_eq (if_pos (.inr ⟨hst, hone⟩)).symm]
    rw [listRemove_activeObjects, if_pos (by omega)]
    exact hmove .stateEmpty (if_pos (by omega)) _ rfl _ rfl
  -- neither full nor about to be empty: it stays where it is
  rw [putObject_eq (if_neg (by rw [hst]; simp [hone])).symm]
  rw [if_neg (by omega), if_neg (by rw [hst]; decide)]
  have hst' : ((s.slabs i).put k).state = (s.slabs i).state := by
    show stateOf ((s.slabs i).activeObjects - 1) (s.slabs i).objectCount = _
    rw [hst, stateOf_pos (by omega) (by omega)]
  have hput : (s.slabs i).clear k = (s.slabs i).put k := by
    have : { (s.slabs i).put k with state := (s.slabs i).state } = (s.slabs i).put k := by rw [← hst']
    exact this
  rw [hput]
  exact ⟨h.stays hown hx (hok.put hk hbit) hactive hst' ⟨rfl, rfl⟩, rfl⟩

end ZephyrOS.Kmem
