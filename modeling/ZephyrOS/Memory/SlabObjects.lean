import ZephyrOS.Memory.SlabCalls

/-!
# The objects of the slab allocator

Which objects are in use is read off the bitmaps, and which pages a cache has off the
records of its slabs. An address in one of these pages belongs to one slab, so an
object is known by its address; taking one adds it to those in use, freeing removes
it, and freeing anything that is not in use changes nothing but a counter.
-/

namespace ZephyrOS.Kmem

open ZephyrOS.Memory (pageSize pagesOf Releasable MemInfo)

open List Nat

/-! ### Objects and pages -/

/-- Object `k` of slab `i` of cache `c` is in use, at address `p`. -/
def InUse (s : State) (c p : Nat) : Prop :=
  ∃ i k, s.owned c i = true ∧ k < (s.slabs i).objectCount ∧
    (s.slabs i).allocationBitmap k = true ∧ p = (s.slabs i).memory + k * (s.caches c).objectStride

/-- The pages of the slabs of a cache. -/
def slabPagesOf (s : State) (c : Nat) : Set Nat :=
  { p | ∃ i, s.owned c i = true ∧ p ∈ pagesOf (s.slabs i).memory (s.slabs i).pages }

variable {s s' : State} {c i k p : Nat}

/-- An object lies in the memory of its slab. -/
theorem Base.object_range (h : Base s) (hown : s.owned c i = true)
    (hk : k < (s.slabs i).objectCount) :
    k * (s.caches c).objectStride + (s.caches c).objectStride ≤ (s.slabs i).pages * 4096 := by
  obtain ⟨_, _, hfit, _⟩ := h.owned_facts hown
  have := mul_le_mul_right (s.caches c).objectStride (succ_le_of_lt hk)
  rw [succ_mul] at this
  omega

/-- An address belongs to at most one slab. -/
theorem Base.slab_unique (h : Base s) {i j p : Nat} (hi : (s.slabs i).used = true)
    (hj : (s.slabs j).used = true) (hpi : (s.slabs i).memory ≤ p)
    (hpi' : p < (s.slabs i).memory + (s.slabs i).pages * 4096) (hpj : (s.slabs j).memory ≤ p)
    (hpj' : p < (s.slabs j).memory + (s.slabs j).pages * 4096) : i = j := by
  by_contra hij
  obtain ⟨_, hmi, _⟩ := h.range hi
  obtain ⟨_, hmj, _⟩ := h.range hj
  refine h.apart i j hi hj hij (p / 4096) ?_ ?_
  · rw [Memory.mem_pagesOf, show pageSize = 4096 from rfl]; omega
  · rw [Memory.mem_pagesOf, show pageSize = 4096 from rfl]; omega

/-- Two objects that share a byte are one. -/
theorem Base.object_unique (h : Base s) {c d i j k m : Nat} (hi : s.owned c i = true)
    (hj : s.owned d j = true) (hk : k < (s.slabs i).objectCount) (hm : m < (s.slabs j).objectCount)
    {p : Nat} (hpi : (s.slabs i).memory + k * (s.caches c).objectStride ≤ p)
    (hpi' : p < (s.slabs i).memory + k * (s.caches c).objectStride + (s.caches c).objectStride)
    (hpj : (s.slabs j).memory + m * (s.caches d).objectStride ≤ p)
    (hpj' : p < (s.slabs j).memory + m * (s.caches d).objectStride + (s.caches d).objectStride) :
    c = d ∧ i = j ∧ k = m := by
  have hri := h.object_range hi hk
  have hrj := h.object_range hj hm
  obtain ⟨hui, _, _, hpos⟩ := h.owned_facts hi
  obtain ⟨huj, _⟩ := h.owned_facts hj
  obtain rfl : i = j :=
    @Base.slab_unique s h i j p hui huj (by omega) (by omega) (by omega) (by omega)
  obtain rfl := owned_unique hi hj
  refine ⟨rfl, rfl, ?_⟩
  -- the quotient of the offset by the stride is the index of both
  have hquot : ∀ n, n * (s.caches c).objectStride ≤ p - (s.slabs i).memory →
      p - (s.slabs i).memory < n * (s.caches c).objectStride + (s.caches c).objectStride →
      (p - (s.slabs i).memory) / (s.caches c).objectStride = n := by
    intro n h1 h2
    rw [Nat.div_eq_iff hpos]
    omega
  rw [← hquot k (by omega) (by omega), ← hquot m (by omega) (by omega)]

/-- **Finding an object.** The location of an address is the object that starts there. -/
theorem objectLocation_iff (h : Base s) : s.objectLocation c p = some (i, k) ↔
      s.owned c i = true ∧ k < (s.slabs i).objectCount ∧
        p = (s.slabs i).memory + k * (s.caches c).objectStride := by
  have hinside : ∀ j, s.owned c j = true →
      u32 ((s.slabs j).memory + u32 ((s.caches c).objectStride * (s.slabs j).objectCount))
        = (s.slabs j).memory + (s.slabs j).objectCount * (s.caches c).objectStride := by
    intro j hj
    obtain ⟨hu, _, hfit, _⟩ := h.owned_facts hj
    obtain ⟨_, _, _, hlt⟩ := h.range hu
    have hbytes : u32 ((s.slabs j).objectCount * (s.caches c).objectStride)
        = (s.slabs j).objectCount * (s.caches c).objectStride := u32_of_lt (by omega)
    rw [mul_comm (s.caches c).objectStride, hbytes, u32_of_lt (by omega)]
  unfold State.objectLocation
  dsimp only
  constructor
  · intro hloc
    split at hloc
    · cases hloc
    split at hloc
    · cases hloc
    rename_i j hfind
    have hj := find?_some hfind
    simp only [Bool.and_eq_true, beq_iff_eq, decide_eq_true_eq] at hj
    split at hloc
    · cases hloc
    rename_i hmod
    rw [not_not] at hmod
    split at hloc
    · rename_i hlt
      obtain ⟨rfl, rfl⟩ := hloc
      refine ⟨owned_iff.mpr hj.1.1, hlt, ?_⟩
      rw [Nat.div_mul_cancel (dvd_of_mod_eq_zero hmod)]
      omega
    · cases hloc
  · rintro ⟨hown, hk, rfl⟩
    obtain ⟨hu, _, _, hpos⟩ := h.owned_facts hown
    obtain ⟨hmem, _⟩ := h.range hu
    have hfull := mul_le_mul_right (s.caches c).objectStride (succ_le_of_lt hk)
    rw [succ_mul] at hfull
    rw [if_neg (by omega)]
    split
    · rename_i hnone
      rw [find?_eq_none] at hnone
      refine absurd ?_ (hnone i (mem_range.mpr (h.slab_lt i hu)))
      obtain ⟨h1, h2⟩ := owned_iff.mp hown
      simp only [Bool.and_eq_true, beq_iff_eq, decide_eq_true_eq, h1, h2, hinside i hown]
      refine ⟨⟨⟨trivial, trivial⟩, by omega⟩, by omega⟩
    · rename_i j hfind
      have hj := find?_some hfind
      simp only [Bool.and_eq_true, beq_iff_eq, decide_eq_true_eq] at hj
      have hownj : s.owned c j = true := owned_iff.mpr hj.1.1
      obtain ⟨huj, _, hfitj, _⟩ := h.owned_facts hownj
      have hlt := hj.2
      rw [hinside j hownj] at hlt
      obtain rfl : i = j := h.slab_unique hu huj (le_add_right _ _) (by omega) hj.1.2 (by omega)
      rw [Nat.add_sub_cancel_left, if_neg (by simp),
        Nat.mul_div_cancel _ hpos, if_pos hk]

theorem Frame.slabPagesOf (h : Frame s s') (c : Nat) : slabPagesOf s' c = slabPagesOf s c := by
  ext p
  refine exists_congr fun i => ?_
  obtain ⟨_, _, hm, hp, _⟩ := h.slab i
  rw [h.owned, hm, hp]

/-- After an edit of one bit, that object is in use if the bit is set, and every other one as
before. -/
theorem inUse_edit {active : Nat} {x : Slab} {v : Bool} (h : Inv s) (hown : s.owned c i = true)
    (hb : s'.bare = (s.edit c i x active).bare) (hx : SameSlab x (s.slabs i))
    (hbits : x.allocationBitmap = Function.update (s.slabs i).allocationBitmap k v)
    (hk : k < (s.slabs i).objectCount)
    (hp : p = (s.slabs i).memory + k * (s.caches c).objectStride) (d q : Nat) :
    InUse s' d q ↔ if (d, q) = (c, p) then v = true else InUse s d q := by
  have hf : Frame s s' := frame_of_edit hb hx
  have hread : InUse s' d q ↔ ∃ j m, s.owned d j = true ∧ m < (s.slabs j).objectCount ∧
      (if j = i ∧ m = k then v else (s.slabs j).allocationBitmap m) = true ∧
      q = (s.slabs j).memory + m * (s.caches d).objectStride := by
    refine exists_congr fun j => exists_congr fun m => ?_
    obtain ⟨_, _, hm, _, hn⟩ := hf.slab j
    rw [hf.owned, hn, hm, (hf.cache d).2.2.2.1, (Slab.fields (bare_slab hb j)).2.2.2, edit_slab]
    by_cases hj : j = i
    · subst hj
      rw [if_pos rfl, hbits, Function.update_apply]
      simp
    · simp [hj]
  obtain ⟨_, _, _, hpos⟩ := h.base.owned_facts hown
  rw [hread]
  by_cases hdq : (d, q) = (c, p)
  · obtain ⟨rfl, rfl⟩ := Prod.mk.inj hdq
    rw [if_pos rfl]
    constructor
    · rintro ⟨j, m, hj, hm, hset, hq⟩
      obtain ⟨_, rfl, rfl⟩ := @Base.object_unique s h.base d d i j k m hown hj hk hm q (by omega)
        (by omega) (by omega) (by omega)
      rwa [if_pos ⟨rfl, rfl⟩] at hset
    · exact fun hv => ⟨i, k, hown, hk, by rw [if_pos ⟨rfl, rfl⟩, hv], hp⟩
  · rw [if_neg hdq]
    refine exists_congr fun j => exists_congr fun m => and_congr_right fun hj =>
      and_congr_right fun _ => and_congr_left fun hq => ?_
    rw [if_neg]
    rintro ⟨rfl, rfl⟩
    obtain rfl := owned_unique hj hown
    exact hdq (by rw [hq, hp])

/-- Taking adds one object that was not in use. -/
theorem inUse_take (h : Inv s) (hown : s.owned c i = true)
    (hlt : (s.slabs i).activeObjects < (s.slabs i).objectCount)
    (hb : s'.bare = (s.edit c i (s.slabs i).take ((s.caches c).activeObjects + 1)).bare)
    (hp : p = (s.slabs i).memory + (s.slabs i).freeHead * (s.caches c).objectStride) :
    ¬ InUse s c p ∧ ∀ d q, InUse s' d q ↔ (d, q) = (c, p) ∨ InUse s d q := by
  obtain ⟨hk, hbit⟩ := (h.base.slab i (owned_iff.mp hown).1).freeHead_lt hlt
  obtain ⟨_, _, _, hpos⟩ := h.base.owned_facts hown
  constructor
  · rintro ⟨j, k, hj, hkj, hset, hq⟩
    obtain ⟨_, rfl, rfl⟩ := @Base.object_unique s h.base c c i j _ k hown hj hk hkj p (by omega)
      (by omega) (by omega) (by omega)
    rw [hbit] at hset
    cases hset
  · intro d q
    rw [inUse_edit h hown hb ⟨rfl, rfl, rfl, rfl, rfl⟩ rfl hk hp]
    by_cases hdq : (d, q) = (c, p) <;> simp [hdq]

/-- Putting back removes one. -/
theorem inUse_put (h : Inv s) (hown : s.owned c i = true) (hk : k < (s.slabs i).objectCount)
    (hb : s'.bare = (s.edit c i ((s.slabs i).put k) ((s.caches c).activeObjects - 1)).bare)
    (hp : p = (s.slabs i).memory + k * (s.caches c).objectStride) (d q : Nat) :
    InUse s' d q ↔ InUse s d q ∧ (d, q) ≠ (c, p) := by
  rw [inUse_edit h hown hb ⟨rfl, rfl, rfl, rfl, rfl⟩ rfl hk hp]
  by_cases hdq : (d, q) = (c, p) <;> simp [hdq]

/-! ### Counters of failures -/

/-- The state without its counters of failures. -/
def State.uncounted (s : State) : State :=
  { s with
    caches := fun c =>
      { s.caches c with allocationFailures := 0, invalidFrees := 0, doubleFrees := 0 }
    globalAllocationFailures := 0
    globalInvalidFrees := 0
    globalDoubleFrees := 0 }

/-- Only counters of failures differ. -/
structure Counts (s s' : State) : Prop where
  inv : Inv s → Inv s'
  inUse : ∀ c p, InUse s' c p ↔ InUse s c p
  pages : ∀ c, slabPagesOf s' c = slabPagesOf s c
  pmm : s'.pmm = s.pmm

theorem counts_of_uncounted (hu : s'.uncounted = s.uncounted) : Counts s s' := by
  refine ⟨fun h => ?_, fun c p => ?_, fun c => ?_, (congrArg State.pmm hu :)⟩
  · have h' : Inv s.uncounted := ⟨{ h.base with cache := fun c hc => { h.base.cache c hc with } },
      fun c hc => { h.books c hc with }, h.lists⟩
    rw [← hu] at h'
    exact ⟨{ h'.base with cache := fun c hc => { h'.base.cache c hc with } },
      fun c hc => { h'.books c hc with }, h'.lists⟩
  · show InUse s'.uncounted c p ↔ InUse s.uncounted c p
    rw [hu]
  · show slabPagesOf s'.uncounted c = slabPagesOf s.uncounted c
    rw [hu]

theorem uncounted_setCache {c : Nat} {x : Cache}
    (hx : { x with allocationFailures := 0, invalidFrees := 0, doubleFrees := 0 }
    = { s.caches c with allocationFailures := 0, invalidFrees := 0, doubleFrees := 0 }) :
    (s.setCache c x).uncounted = s.uncounted := by
  unfold State.uncounted
  congr 1
  funext d
  rw [setCache_caches]
  by_cases hd : d = c
  · rw [if_pos hd, hd]; exact hx
  · rw [if_neg hd]

theorem uncounted_allocationFailure : (s.countAllocationFailure c).uncounted = s.uncounted := by
  have h := @uncounted_setCache s c
    { s.caches c with allocationFailures := u32 ((s.caches c).allocationFailures + 1) } rfl
  exact h

theorem uncounted_invalidFree : (s.countInvalidFree c).uncounted = s.uncounted := by
  have h := @uncounted_setCache s c
    { s.caches c with invalidFrees := u32 ((s.caches c).invalidFrees + 1) } rfl
  exact h

theorem uncounted_doubleFree : (s.countDoubleFree c).uncounted = s.uncounted := by
  have h := @uncounted_setCache s c
    { s.caches c with doubleFrees := u32 ((s.caches c).doubleFrees + 1) } rfl
  exact h

/-! ### `kmem_cache_free` -/

theorem Inv.registered_of_inUse (h : Inv s) (hp : InUse s c p) :
    s.cacheRegistered c = true ∧ p ≠ 0 := by
  obtain ⟨i, k, hown, _, _, hq⟩ := hp
  obtain ⟨hu, hcu, _⟩ := h.base.owned_facts hown
  obtain ⟨hmem, _⟩ := h.base.range hu
  refine ⟨?_, by omega⟩
  unfold State.cacheRegistered
  rw [hcu, Bool.and_true, decide_eq_true_eq]
  exact h.base.cache_lt c hcu

/-- **Freeing what is in use.** -/
theorem kmemCacheFree_live (h : Inv s) (hp : InUse s c p) : Inv (kmemCacheFree c p s) ∧
      (∀ d q, InUse (kmemCacheFree c p s) d q ↔ InUse s d q ∧ (d, q) ≠ (c, p)) ∧
      (∀ d, slabPagesOf (kmemCacheFree c p s) d = slabPagesOf s d) := by
  obtain ⟨hreg, hp0⟩ := h.registered_of_inUse hp
  obtain ⟨i, k, hown, hk, hbit, hq⟩ := hp
  have hok := h.base.slab i (owned_iff.mp hown).1
  have hpos := hok.active_pos hk hbit
  have hle := hok.active_le
  have heq : kmemCacheFree c p s = s.putObject c i k := by
    unfold kmemCacheFree
    rw [if_neg (by simp [h.base.initialized, hreg, hp0]),
      (objectLocation_iff h.base).mpr ⟨hown, hk, hq⟩]
    dsimp only
    rw [if_neg (by omega), if_neg (by simp [hbit])]
  obtain ⟨hinv, hb⟩ := putObject_spec h hown hk hbit
  rw [heq]
  exact ⟨hinv, inUse_put h hown hk hb hq, (frame_of_edit hb ⟨rfl, rfl, rfl, rfl, rfl⟩).slabPagesOf⟩

/-- **Freeing anything else.** Only a counter of failures changes. -/
theorem kmemCacheFree_dead (h : Inv s) (hp : ¬ InUse s c p) :
    (kmemCacheFree c p s).uncounted = s.uncounted := by
  unfold kmemCacheFree
  split
  · rfl
  split
  · exact uncounted_invalidFree
  rename_i i k hloc
  obtain ⟨hown, hk, hq⟩ := (objectLocation_iff h.base).mp hloc
  dsimp only
  split
  · exact uncounted_invalidFree
  split
  · exact uncounted_doubleFree
  · rename_i hbit
    exact absurd ⟨i, k, hown, hk, by simpa using hbit, hq⟩ hp

end ZephyrOS.Kmem
