import ZephyrOS.Memory.SlabTables

/-!
# Every history of the slab allocator

What the clients hold and what the caches have taken from the page allocator are
recorded beside the state, from the results of the calls alone: an object is held from
the call that returned it to the call that frees it, and a page is taken if the page
allocator no longer has it after an allocation. Other users of the page allocator come
and go; they free anything but what a slab has.
-/

namespace ZephyrOS.Kmem

open ZephyrOS.Memory (pageSize pagesOf Releasable MemInfo)

open List Function

/-! ### Other users of the page allocator -/

/-- A call that frees no page a cache has taken. -/
def Foreign (taken : Nat → Set Nat) : Memory.Op → Prop
  | .allocPagesInZone _ _ => True
  | .freePage address => ∀ c, ∀ p ∈ taken c, p ∉ pagesOf address.toNat 1
  | .freePages address count => ∀ c, ∀ p ∈ taken c, p ∉ pagesOf address.toNat count.toNat

/-- The page allocator after a call. -/
def pmmStep (m : MemInfo) (op : Memory.Op) : MemInfo := (Memory.History.step ⟨m, []⟩ op).pmm

variable {s : State} {held : List (Nat × Nat)} {taken : Nat → Set Nat}

theorem Inv.with_pmm (h : Inv s) {m : MemInfo} (hm : Memory.Inv m)
    (hpages : ∀ i, (s.slabs i).used = true → Releasable m (s.slabs i).memory (s.slabs i).pages) :
    Inv { s with pmm := m } := by
  refine ⟨{ h.base with pmm := hm, pages := hpages }, fun d hd => ?_, h.lists⟩
  obtain ⟨b1, b2, b3⟩ := h.books d hd
  exact ⟨b1, b2, b3⟩

theorem Inv.pmmFreePages (h : Inv s) {address count : Nat}
    (hf : ∀ i, (s.slabs i).used = true → ∀ p ∈ pagesOf (s.slabs i).memory (s.slabs i).pages,
      p ∉ pagesOf address count) : Inv { s with pmm := s.pmm.pmmFreePages address count } := by
  refine h.with_pmm (Memory.free_inv h.base.pmm) fun i hu => ?_
  rcases Memory.freePages_cases h.base.pmm address count with ⟨_, _, heq, hin⟩ | ⟨_, _, heq⟩
  · rw [heq]
    refine Memory.releasable_release h.base.pmm hin (h.base.pages i hu) fun p hp hc => ?_
    exact hf i hu p hp (Memory.mem_pagesOf.mpr hc)
  · rw [heq]
    exact h.base.pages i hu

theorem Inv.other {s : State} (h : Inv s) {op : Memory.Op} (hf : Foreign (slabPagesOf s) op) :
    Inv { s with pmm := pmmStep s.pmm op } := by
  have hmem : ∀ i, (s.slabs i).used = true → ∀ p ∈ pagesOf (s.slabs i).memory (s.slabs i).pages,
      ∃ c, p ∈ slabPagesOf s c := fun i hu p hp => by
    obtain ⟨c, ho, _⟩ := h.base.owner i hu
    exact ⟨c, i, owned_iff.mpr ⟨hu, ho⟩, hp⟩
  cases op with
  | allocPagesInZone count zone =>
    refine h.with_pmm (Memory.alloc_inv h.base.pmm) fun i hu => ?_
    show Releasable (s.pmm.pmmAllocPagesInZone count.toNat zone).2 _ _
    rcases Memory.alloc_cases h.base.pmm count.toNat zone with he | ⟨first, t, he, ht, hin, _⟩
    · rw [he]; exact h.base.pages i hu
    · rw [he]; exact Memory.releasable_claim h.base.pmm ht hin (h.base.pages i hu)
  | freePage address =>
    refine h.pmmFreePages fun i hu p hp => ?_
    obtain ⟨c, hc⟩ := hmem i hu p hp
    exact hf c p hc
  | freePages address count =>
    refine h.pmmFreePages fun i hu p hp => ?_
    obtain ⟨c, hc⟩ := hmem i hu p hp
    exact hf c p hc

/-! ### Histories -/

/-- What is held after an allocation that returned `p`. -/
def hold (c p : Nat) (held : List (Nat × Nat)) : List (Nat × Nat) :=
  if p = 0 then held else (c, p) :: held

/-- The pages that went from the page allocator to cache `c`. -/
def take (before after : MemInfo) (c : Nat) (taken : Nat → Set Nat) : Nat → Set Nat :=
  update taken c (taken c ∪ { p | p ∈ before.freeSet ∧ p ∉ after.freeSet })

/-- A cache that was destroyed has no pages. -/
def giveBack (r : Except Err Unit) (c : Nat) (taken : Nat → Set Nat) : Nat → Set Nat :=
  match r with
  | .ok _ => update taken c ∅
  | .error _ => taken

/-- The states of the slab allocator, with what the clients hold (a cache and an address)
and what the caches have taken. Any cache and any pointer may be passed to any call. -/
inductive Run : State → List (Nat × Nat) → (Nat → Set Nat) → Prop
  | start {s : State} {mmap : List Memory.MmapEntry} {mem : Nat → UInt8} :
      Memory.memoryInit mmap mem = .ok s.pmm → s.initialized = false →
      Run (kmemCacheInit s) [] fun _ => ∅
  | create {s : State} {held : List (Nat × Nat)} {taken : Nat → Set Nat} (name : List UInt8)
      (objectSize alignment : Nat) : Run s held taken →
      Run (kmemCacheCreate name objectSize alignment s).2 held taken
  | alloc {s : State} {held : List (Nat × Nat)} {taken : Nat → Set Nat} (pagingReady : Bool)
      (c : Nat) : Run s held taken →
      Run (kmemCacheAlloc pagingReady c s).2 (hold c (kmemCacheAlloc pagingReady c s).1 held)
        (take s.pmm (kmemCacheAlloc pagingReady c s).2.pmm c taken)
  | free {s : State} {held : List (Nat × Nat)} {taken : Nat → Set Nat} (c p : Nat) :
      Run s held taken → Run (kmemCacheFree c p s) (held.erase (c, p)) taken
  | destroy {s : State} {held : List (Nat × Nat)} {taken : Nat → Set Nat} (c : Nat) :
      Run s held taken →
      Run (kmemCacheDestroy c s).2 held (giveBack (kmemCacheDestroy c s).1 c taken)
  | other {s : State} {held : List (Nat × Nat)} {taken : Nat → Set Nat} (op : Memory.Op) :
      Run s held taken → Foreign taken op →
      Run { s with pmm := pmmStep s.pmm op } held taken

/-- The record beside the state is right. -/
structure Recorded (s : State) (held : List (Nat × Nat)) (taken : Nat → Set Nat) : Prop where
  inv : Inv s
  nodup : held.Nodup
  held : ∀ c p, (c, p) ∈ held ↔ InUse s c p
  taken : ∀ c, taken c = slabPagesOf s c

theorem recorded_start (hpmm : Memory.Inv s.pmm) (h0 : s.initialized = false) :
    Recorded (kmemCacheInit s) [] fun _ => ∅ := by
  have heq : kmemCacheInit s = ⟨true, fun _ => Cache.zero, fun _ => Slab.zero, 0, 0, 0, 0, 0, s.pmm⟩ := by
    unfold kmemCacheInit
    rw [if_neg (by simp [h0])]
  rw [heq]
  -- no record is in use
  have hnone : ∀ {P : Prop}, false = true → P := fun h => absurd h Bool.false_ne_true
  refine ⟨⟨⟨rfl, hpmm, fun _ => hnone, fun _ => hnone, fun _ => hnone, fun _ => hnone, fun _ => hnone,
    fun _ => hnone, fun _ _ => hnone, (Lib.countIf_eq_zero.mpr fun _ _ => rfl).symm,
    (Lib.countIf_eq_zero.mpr fun _ _ => rfl).symm⟩, fun _ => hnone, fun _ => hnone⟩, nodup_nil,
    fun c p => iff_of_false (by simp) ?_, fun c => ?_⟩
  · rintro ⟨i, k, hown, _⟩
    exact hnone hown
  · ext p
    refine iff_of_false (by simp) ?_
    rintro ⟨i, hown, _⟩
    exact hnone hown

theorem Recorded.alloc (h : Recorded s held taken) (ready : Bool) (c : Nat) :
    Recorded (kmemCacheAlloc ready c s).2 (hold c (kmemCacheAlloc ready c s).1 held)
      (take s.pmm (kmemCacheAlloc ready c s).2.pmm c taken) := by
  obtain ⟨p, s', heq, hinv, hmove, hcases⟩ := kmemCacheAlloc_spec h.inv ready c
  rw [heq]
  have htaken : ∀ d, take s.pmm s'.pmm c taken d = slabPagesOf s' d := by
    intro d
    ext q
    rw [hmove d q]
    unfold take
    by_cases hd : d = c
    · subst hd
      rw [h.taken]
      simp
    · rw [update_of_ne hd, h.taken]
      simp [hd]
  rcases hcases with ⟨hp, huse⟩ | ⟨hp, hnot, huse⟩
  · refine ⟨hinv, ?_, fun d q => ?_, htaken⟩
    · unfold hold; rw [if_pos hp]; exact h.nodup
    · unfold hold; rw [if_pos hp, h.held, huse]
  refine ⟨hinv, ?_, fun d q => ?_, htaken⟩
  · unfold hold
    rw [if_neg hp]
    exact nodup_cons.mpr ⟨fun hc => hnot ((h.held c p).mp hc), h.nodup⟩
  · unfold hold
    rw [if_neg hp, mem_cons, h.held, huse]

theorem Recorded.free (h : Recorded s held taken) (c p : Nat) :
    Recorded (kmemCacheFree c p s) (held.erase (c, p)) taken := by
  by_cases huse : InUse s c p
  · obtain ⟨hinv, hafter, hpages⟩ := kmemCacheFree_live h.inv huse
    refine ⟨hinv, h.nodup.erase _, fun d q => ?_, fun d => by rw [h.taken, hpages]⟩
    rw [hafter, ← h.held, h.nodup.mem_erase_iff, and_comm]
  · obtain ⟨k1, k2, k3, _⟩ := counts_of_uncounted (kmemCacheFree_dead h.inv huse)
    rw [erase_of_not_mem fun hc => huse ((h.held c p).mp hc)]
    exact ⟨k1 h.inv, h.nodup, fun d q => by rw [h.held, k2], fun d => by rw [h.taken, k3]⟩

theorem Run.recorded (h : Run s held taken) : Recorded s held taken := by
  induction h with
  | start hinit h0 => exact recorded_start (Memory.memoryInit_inv hinit) h0
  | @create s held taken name objectSize alignment _ ih =>
    obtain ⟨r, s', heq, hinv, _, huse, hpages⟩ :=
      kmemCacheCreate_spec ih.inv name objectSize alignment
    rw [heq]
    exact ⟨hinv, ih.nodup, fun d p => by rw [ih.held, huse], fun d => by rw [ih.taken, hpages]⟩
  | alloc ready c _ ih => exact ih.alloc ready c
  | free c p _ ih => exact ih.free c p
  | @destroy s held taken c _ ih =>
    obtain ⟨r, s', heq, hinv, huse, hcases⟩ := kmemCacheDestroy_spec ih.inv c
    rw [heq]
    refine ⟨hinv, ih.nodup, fun d p => by rw [ih.held, huse], fun d => ?_⟩
    rcases hcases with ⟨hr, rfl⟩ | ⟨rfl, _, hpages⟩
    · cases r with
      | ok u => exact absurd rfl hr
      | error e => exact ih.taken d
    rw [hpages d]
    show update taken c ∅ d = _
    by_cases hd : d = c
    · rw [if_pos hd, hd, update_self]
    · rw [if_neg hd, update_of_ne hd, ih.taken]
  | @other s held taken op _ hf ih =>
    have hforeign : Foreign (slabPagesOf s) op := by
      have : taken = slabPagesOf s := funext ih.taken
      rw [← this]
      exact hf
    exact ⟨ih.inv.other hforeign, ih.nodup, ih.held, ih.taken⟩

/-- An address that a cache may hand out: aligned, and inside one of its slabs. -/
def Placed (s : State) (c p : Nat) : Prop :=
  (s.caches c).alignment ∣ p ∧ ∃ i < slabMax, s.owned c i = true ∧ (s.slabs i).memory ≤ p ∧
    p + (s.caches c).objectSize ≤ (s.slabs i).memory + (s.slabs i).pages * pageSize

theorem Inv.placed (h : Inv s) {c p : Nat} (hp : InUse s c p) : Placed s c p := by
  obtain ⟨i, k, hown, hk, _, rfl⟩ := hp
  obtain ⟨hu, hcu, _⟩ := h.base.owned_facts hown
  have hrange := h.base.object_range hown hk
  have hcok := h.base.cache c hcu
  have hsize := hcok.size_le
  obtain ⟨_, hmod, _⟩ := h.base.range hu
  refine ⟨?_, i, h.base.slab_lt i hu, hown, Nat.le_add_right _ _, ?_⟩
  · exact Nat.dvd_add (hcok.align_page.trans (Nat.dvd_of_mod_eq_zero hmod))
      (Nat.dvd_mul_left_of_dvd hcok.align_stride k)
  · rw [show pageSize = 4096 from rfl]
    omega

/-- A machine with the page allocator up and the slab allocator not. -/
def booted (m : MemInfo) : State :=
  ⟨false, fun _ => Cache.zero, fun _ => Slab.zero, 0, 0, 0, 0, 0, m⟩

/-- The same with the slab allocator up, and a cache for objects of 24 bytes. -/
def opened (m : MemInfo) : State := (kmemCacheCreate [97] 24 8 (kmemCacheInit (booted m))).2

/-- Its first two objects are the first of a new slab. -/
theorem alloc_opened {m m' : MemInfo} {a : Nat} (h : m.pmmAllocPagesInZone 1 .slab = (some a, m')) :
    (kmemCacheAlloc true 0 (opened m)).1 = a
      ∧ (kmemCacheAlloc true 0 (kmemCacheAlloc true 0 (opened m)).2).1 = a + 24 := by
  have hready : ¬ ((opened m).initialized = false ∨ (opened m).cacheRegistered 0 = false) :=
    not_or.mpr ⟨Bool.noConfusion, Bool.noConfusion⟩
  -- Both sides are the call; what the page allocator answers is put into the second.
  have hrecord := Eq.refl ((opened m).prepareRecord 0)
  nth_rewrite 2 [State.prepareRecord] at hrecord
  rw [show (opened m).findFreeRecord = some 0 from rfl] at hrecord
  dsimp only at hrecord
  rw [show (opened m).pmm.pmmAllocPagesInZone ((opened m).caches 0).slabPages .slab = (some a, m')
    from h] at hrecord
  have halloc := Eq.refl (kmemCacheAlloc true 0 (opened m))
  nth_rewrite 2 [kmemCacheAlloc] at halloc
  rw [if_neg hready, if_neg (by decide), State.chooseSlab,
    show ((opened m).caches 0).head .statePartial = none from rfl,
    show ((opened m).caches 0).head .stateEmpty = none from rfl, hrecord] at halloc
  rw [halloc]
  constructor
  · rfl
  · with_unfolding_all rfl

end ZephyrOS.Kmem
