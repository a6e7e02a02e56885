import ZephyrOS.Memory.PmmProof

/-!
# From the firmware's map to every history of the allocator

`memory_init` builds the tables from an arbitrary E820 map: entries may overlap,
wrap, be unaligned or lie beyond 4 GiB. What it accepts satisfies the invariant of
`PmmProof.lean`, and from there the invariant is carried along any sequence of
calls. A history also remembers which pages each caller still holds, which is
what the allocator itself does not know: `live` is the list of runs handed out,
each without the pages that have been given back since.
-/

namespace ZephyrOS.Memory

open Nat Finset

/-! ### What `memory_init` leaves behind -/

/-- The whole page `p` lies in the usable entry `e`, below 4 GiB. -/
def MmapEntry.CoversPage (e : MmapEntry) (p : Nat) : Prop :=
  e.type = 1 ∧ e.base ≤ maxPhysicalAddress ∧ e.base < e.end ∧ e.base ≤ p * pageSize
    ∧ (p + 1) * pageSize ≤ min e.end maxPhysicalAddress

instance (e : MmapEntry) (p : Nat) : Decidable (e.CoversPage p) :=
  inferInstanceAs (Decidable (_ ∧ _ ∧ _ ∧ _ ∧ _))

/-- The end of an entry that is not empty did not wrap. -/
theorem MmapEntry.end_eq (e : MmapEntry) (h : e.base < e.end) : e.end = e.base + e.length := by
  unfold MmapEntry.end at h ⊢
  have hl : e.length < 18446744073709551616 := by
    have h1 := e.lengthHigh.toNat_lt
    have h2 := e.lengthLow.toNat_lt
    unfold MmapEntry.length
    omega
  omega

section Init

variable {bitmap owner total p : Nat} {e : MmapEntry} {mem : Nat → UInt8}

theorem pageBit_markEntryUsable (hp : p < total) :
    pageBit (markEntryUsable bitmap total mem e) bitmap p
      = (pageBit mem bitmap p && !decide (e.CoversPage p)) := by
  have hP : pageSize = 4096 := rfl
  have hskip : ¬ e.CoversPage p →
      pageBit mem bitmap p = (pageBit mem bitmap p && !decide (e.CoversPage p)) := fun hn => by
    rw [decide_eq_false hn, Bool.not_false, Bool.and_true]
  unfold markEntryUsable
  by_cases htype : e.type = 1
  · rw [if_neg (not_not.mpr htype)]
    by_cases hempty : maxPhysicalAddress < e.base ∨ e.end ≤ e.base
    · rw [if_pos hempty]
      exact hskip fun hc => by obtain ⟨_, h1, h2, _⟩ := hc; omega
    rw [if_neg hempty]
    by_cases hnone : min e.end maxPhysicalAddress / pageSize * pageSize
        ≤ (e.base + pageSize - 1) / pageSize * pageSize
    · rw [if_pos hnone]
      exact hskip fun hc => by
        obtain ⟨_, _, _, h1, h2⟩ := hc
        rw [hP] at hnone h1 h2
        omega
    · rw [if_neg hnone, pageBit_range (fun m => Lib.bitAt_clearBit)]
      have hite : ∀ c [Decidable c] b, (if c then false else b) = (b && !decide c) :=
        fun c _ b => by split <;> simp [*]
      rw [hite]
      congr 2
      apply decide_eq_decide.mpr
      unfold MmapEntry.CoversPage
      rw [hP]
      rw [not_or, not_lt, not_le] at hempty
      generalize min e.end maxPhysicalAddress = top at hnone ⊢
      constructor
      · intro hr
        exact ⟨htype, hempty.1, hempty.2, by omega, by omega⟩
      · omega
  · rw [if_pos htype]
    exact hskip fun hc => htype hc.1

theorem pageBit_markUsable (hp : p < total) : ∀ (mmap : List MmapEntry) (mem : Nat → UInt8),
    pageBit (memoryMarkUsable bitmap total mmap mem) bitmap p
      = (pageBit mem bitmap p && !mmap.any fun e => decide (e.CoversPage p))
  | [], mem => by simp [memoryMarkUsable]
  | e :: mmap, mem => by
    have ih := pageBit_markUsable hp mmap (markEntryUsable bitmap total mem e)
    unfold memoryMarkUsable at ih ⊢
    rw [List.foldl_cons, ih, pageBit_markEntryUsable hp, List.any_cons, Bool.not_or,
      Bool.and_assoc]

/-- The tags of a fresh table: the heap's own, else by the page's bit. -/
def initialTag (bit : Nat → Bool) (p : Nat) : Nat :=
  if heapStart / pageSize ≤ p ∧ p < (heapStart + heapSize) / pageSize then pmmZoneTagReservedHeap
  else if bit p then pmmZoneTagReservedKernel else pmmZoneTagFree

theorem shows_initializePageZones (hsep : 8 * bitmap + total ≤ 8 * owner) :
    Shows bitmap owner total (memoryInitializePageZones bitmap owner total mem)
      (pageBit mem bitmap) (initialTag (pageBit mem bitmap)) := by
  -- after the first loop every page is tagged by its bit
  have hfirst := @Lib.forRange_induct _ 0 total (fun page m => setPageTag m owner page
      (if pageBit m bitmap page then pmmZoneTagReservedKernel else pmmZoneTagFree)) mem
    (fun k m => ∀ p, p < total → pageBit m bitmap p = pageBit mem bitmap p
      ∧ (p < k → getPageTag m owner p
        = if pageBit mem bitmap p then pmmZoneTagReservedKernel else pmmZoneTagFree))
    (fun p _ => ⟨rfl, fun hp => absurd hp (not_lt_zero p)⟩)
    (fun k m hk ih p hp => by
      rw [zero_add, pageBit_setPageTag hsep _ _ _ hp,
        getPageTag_setPageTag (by split <;> decide), (ih k hk).1]
      refine ⟨(ih p hp).1, fun hpk => ?_⟩
      by_cases hpe : p = k
      · rw [if_pos hpe, hpe]
      · rw [if_neg hpe]
        exact (ih p hp).2 (by omega))
  -- the second overwrites the heap's pages
  unfold memoryInitializePageZones
  generalize Lib.forRange 0 _ total mem = m' at hfirst ⊢
  have hloop := @Lib.forRange_induct _ (heapStart / pageSize)
    (min ((heapStart + heapSize) / pageSize) total - heapStart / pageSize)
    (fun page m => setPageTag m owner page pmmZoneTagReservedHeap) m'
    (fun k m => Shows bitmap owner total m (pageBit mem bitmap) (fun p =>
      if heapStart / pageSize ≤ p ∧ p < heapStart / pageSize + k then pmmZoneTagReservedHeap
      else if pageBit mem bitmap p then pmmZoneTagReservedKernel else pmmZoneTagFree))
    (fun p hp => ⟨(hfirst p hp).1, ((hfirst p hp).2 hp).trans (if_neg (by omega)).symm⟩)
    (fun k m _ ih p hp => ⟨by rw [pageBit_setPageTag hsep _ _ _ hp, (ih p hp).1], by
      rw [getPageTag_setPageTag (by decide), (ih p hp).2]
      exact ite_range_succ _ _⟩)
  intro p hp
  refine ⟨(hloop p hp).1, (hloop p hp).2.trans ?_⟩
  exact if_congr (by omega) rfl rfl

end Init

/-! ### The invariant holds after `memory_init` -/

variable {e : MmapEntry} {mmap : List MmapEntry} {bitmap total p address : Nat} {mem : Nat → UInt8}
  {bit : Nat → Bool} {count : UInt32} {zone : MemoryZone} {s : MemInfo}

theorem findTotalEntry_spec (h1 : total % pageSize = 0) (h2 : total < 4294967296) :
    findTotalEntry total e % pageSize = 0 ∧ findTotalEntry total e < 4294967296 := by
  unfold findTotalEntry
  split
  · exact ⟨h1, h2⟩
  dsimp only
  split
  · have h3 : min e.end maxPhysicalAddress ≤ 4294967295 := min_le_right _ _
    have h4 := div_mul_le_self (min e.end maxPhysicalAddress) pageSize
    exact ⟨mul_mod_left _ _, lt_of_le_of_lt (le_trans h4 h3) (by decide)⟩
  · exact ⟨h1, h2⟩

theorem foldl_findTotal : ∀ (mmap : List MmapEntry) (total : Nat),
    total % pageSize = 0 → total < 4294967296 →
    mmap.foldl findTotalEntry total % pageSize = 0 ∧ mmap.foldl findTotalEntry total < 4294967296
  | [], _, h1, h2 => ⟨h1, h2⟩
  | _ :: mmap, _, h1, h2 =>
    foldl_findTotal mmap _ (findTotalEntry_spec h1 h2).1 (findTotalEntry_spec h1 h2).2

theorem memoryFindTotal_spec :
    memoryFindTotal mmap % pageSize = 0 ∧ memoryFindTotal mmap < 4294967296 :=
  foldl_findTotal mmap 0 (by decide) (by decide)

theorem countFreePages_eq (h : total < 4294967296) :
    countFreePages bitmap total mem = Nat.count (fun p => pageBit mem bitmap p = false) total := by
  refine Lib.forRange_induct (fun k free => free
    = count (fun p => pageBit mem bitmap p = false) k) (count_zero _).symm ?_
  intro k free hk ih
  have hle := @count_le (fun p => pageBit mem bitmap p = false) _ k
  rw [count_succ, zero_add, ih]
  cases pageBit mem bitmap k with
  | true => simp
  | false => exact u32_of_lt (by omega)

/-- The bits of a fresh table: a page is free exactly when it lies above the reserved memory
and in a usable entry. -/
def initialBit (mmap : List MmapEntry) (p : Nat) : Bool :=
  !(mmap.any fun e => decide (e.CoversPage p)) || decide (p < 5120)

/-- What the tables show before the first allocation. -/
theorem shows_initTables {mmap : List MmapEntry} {total bitmap bitmapSize owner ownerSize : Nat}
    (mem : Nat → UInt8) (howner : owner = bitmap + bitmapSize) (hsize : total ≤ 8 * bitmapSize) :
    Shows bitmap owner total
      (memoryInitTables mmap total bitmap bitmapSize owner ownerSize mem)
      (initialBit mmap) (initialTag (initialBit mmap)) := by
  unfold memoryInitTables
  generalize hm : kmemset (kmemset mem bitmap 0xFF bitmapSize) owner 0 ownerSize = m
  have hset : ∀ p, p < total → pageBit m bitmap p = true := fun p hp => by
    rw [← hm]
    unfold pageBit kmemset
    rw [if_neg (by omega), if_pos (by omega)]
    have h8 : p % 8 < 8 := mod_lt p (by decide)
    rw [show (0xFF : UInt8).toNat = 2 ^ 8 - 1 from rfl, testBit_two_pow_sub_one, decide_eq_true h8]
  dsimp only
  generalize hm' : memoryReserveRange bitmap total 0 physicalIdentityStart _ = m'
  have hmark : ∀ p, p < total → pageBit m' bitmap p = initialBit mmap p := fun p hp => by
    rw [← hm']
    unfold memoryReserveRange initialBit
    rw [if_neg (by decide), pageBit_range (fun m => Lib.bitAt_setBit),
      pageBit_markUsable hp, hset p hp, Bool.true_and,
      show alignUp physicalIdentityStart pageSize / pageSize = 5120 by decide,
      show 0 / pageSize = 0 by decide]
    by_cases hlow : p < 5120
    · rw [if_pos (by omega), decide_eq_true hlow, Bool.or_true]
    · rw [if_neg (by omega), decide_eq_false hlow, Bool.or_false]
  intro p hp
  have hsep : 8 * bitmap + total ≤ 8 * owner := by omega
  obtain ⟨hb, ht⟩ := shows_initializePageZones hsep p hp
  refine ⟨hb.trans (hmark p hp), ht.trans ?_⟩
  unfold initialTag
  rw [hmark p hp]

theorem alignUp_ge {v : Nat} (h : alignUp v pageSize ≠ 0) : v ≤ alignUp v pageSize := by
  unfold alignUp at h ⊢
  split at h
  · exact absurd rfl h
  rename_i hn
  rw [if_neg hn]
  rw [show pageSize = 4096 from rfl] at hn ⊢
  omega

/-- The free pages of a fresh table are whole usable RAM. -/
theorem usable_of_initialBit (h : initialBit mmap p = false) : Usable mmap p := by
  rw [initialBit, Bool.or_eq_false_iff, Bool.not_eq_false', decide_eq_false_iff_not] at h
  obtain ⟨hany, hp⟩ := h
  obtain ⟨e, he, hc⟩ := List.any_eq_true.mp hany
  obtain ⟨htype, _, hlt, hbase, hend⟩ := of_decide_eq_true hc
  refine ⟨?_, e, he, htype, hbase, ?_⟩
  · rw [show physicalIdentityStart = 5120 * pageSize by decide]
    exact mul_le_mul_right _ (not_lt.mp hp)
  · rw [← e.end_eq hlt]
    exact le_trans hend (min_le_left _ _)

theorem initialTag_le : initialTag bit p ≤ pmmZoneTagReservedHeap := by
  unfold initialTag
  split
  · exact le_refl _
  · split <;> decide

theorem initialTag_free (h : p < 5120 → bit p = true) :
    bit p = false ↔ initialTag bit p = pmmZoneTagFree := by
  unfold initialTag
  rw [show heapStart / pageSize = 4096 by decide, show (heapStart + heapSize) / pageSize = 5120
    by decide]
  by_cases hr : 4096 ≤ p ∧ p < 5120
  · rw [if_pos hr, h hr.2]; decide
  · rw [if_neg hr]
    cases bit p <;> decide

/-- Everything an accepted map gives. -/
theorem memoryInit_spec (h : memoryInit mmap mem = .ok s) :
    s.mmap = mmap ∧ s.bitmap = pmmBitmapStorageStart ∧ s.pmmOwnerBitmap = s.bitmap + s.bitmapSize
      ∧ s.pmmOwnerBitmapSize ≠ 0 ∧ s.totalPages ≤ 8 * s.bitmapSize
      ∧ s.totalMemory = memoryFindTotal mmap ∧ s.totalPages = s.totalMemory / pageSize
      ∧ s.mem = memoryInitTables mmap s.totalPages s.bitmap s.bitmapSize s.pmmOwnerBitmap
        s.pmmOwnerBitmapSize mem
      ∧ s.freePages = countFreePages s.bitmap s.totalPages s.mem
      ∧ s.freeMemory = u32 (s.freePages * pageSize)
      ∧ s.usedMemory = sub32 s.totalMemory s.freeMemory ∧ s.pmmOwnedPages = 0 := by
  unfold memoryInit at h
  split at h
  · cases h
  dsimp only at h
  split at h
  · cases h
  split at h
  · cases h
  split at h
  · cases h
  rename_i hsize
  split at h
  · cases h
  obtain ⟨hb0, hz0, _, _⟩ : _ ∧ _ ∧ _ ∧ _ := by simpa only [not_or] using hsize
  have hge := alignUp_ge hb0
  obtain rfl := Except.ok.inj h
  dsimp only
  refine ⟨rfl, rfl, rfl, hz0, ?_, rfl, rfl, rfl, rfl, rfl, rfl, rfl⟩
  omega

theorem memoryInit_inv (h : memoryInit mmap mem = .ok s) : Inv s := by
  obtain ⟨hmmap, hbitmap, howner, hosize, hsize, htotm, htotp, hmem, hfree, hfm, hum, hown⟩ :=
    memoryInit_spec h
  obtain ⟨hmod, hlt⟩ := memoryFindTotal_spec
  rw [← htotm] at hmod hlt
  rw [show pageSize = 4096 from rfl] at hmod htotp
  have hshows := @shows_initTables mmap s.totalPages s.bitmap s.bitmapSize s.pmmOwnerBitmap
    s.pmmOwnerBitmapSize mem howner hsize
  rw [← hmem] at hshows
  have htag : ∀ p, p < s.totalPages → s.pmmGetPageTag p ≤ pmmZoneTagReservedHeap := fun p hp => by
    rw [MemInfo.pmmGetPageTag, (hshows p hp).2]
    exact initialTag_le
  -- no page starts out owned
  have hnone : ∀ p, p < s.totalPages → s.pmmPageIsOwned p = false := fun p hp => by
    rw [← Bool.not_eq_true, MemInfo.pmmPageIsOwned, ownedTag_iff]
    have := htag p hp
    unfold pmmZoneTagReservedHeap at this
    omega
  have hcount : s.freePages = s.freeSet.card := by
    rw [hfree, countFreePages_eq (by omega), count_eq_card_filter_range]
    congr 1
    refine Finset.filter_congr fun p _ => ?_
    rw [MemInfo.pmmPageIsFree, Bool.not_eq_true']
  have hle := card_freeSet_le s
  have hfm' : s.freeMemory = s.freePages * 4096 := by
    rw [hfm, show pageSize = 4096 from rfl, u32_of_lt (by omega)]
  exact
    { ready := by
        unfold MemInfo.pmmIsReady
        rw [howner, hbitmap]
        refine decide_eq_true ⟨by decide, ?_, hosize⟩
        rw [show pmmBitmapStorageStart = 557056 from rfl]
        omega
      sep := by omega
      total := by rw [show pageSize = 4096 from rfl]; omega
      total_lt := hlt
      agree := fun p hp => by
        rw [MemInfo.pmmPageIsFree, MemInfo.pmmGetPageTag, (hshows p hp).1, (hshows p hp).2,
          Bool.not_eq_true']
        exact initialTag_free fun hlow => by rw [initialBit, decide_eq_true hlow, Bool.or_true]
      tag_le := fun p hp => le_trans (htag p hp) (by decide)
      free := hcount
      owned := by
        rw [hown, eq_comm, Finset.card_eq_zero, MemInfo.ownedSet, Finset.filter_eq_empty_iff]
        intro p hp
        rw [hnone p (Finset.mem_range.mp hp)]
        decide
      freeMemory := hfm'
      usedMemory := by rw [hum, sub32_of_le hlt (by omega)]
      usable := fun p hp hor => by
        rcases hor with hf | ho
        · rw [MemInfo.pmmPageIsFree, (hshows p hp).1, Bool.not_eq_true'] at hf
          exact hmmap ▸ usable_of_initialBit hf
        · rw [hnone p hp] at ho
          cases ho }

/-! ### Histories -/

/-- A call into the allocator, with arbitrary arguments. -/
inductive Op where
  | allocPagesInZone (count : UInt32) (zone : MemoryZone)
  | freePage (address : UInt32)
  | freePages (address count : UInt32)

/-- The allocator and the runs of pages its callers still hold. -/
structure History where
  pmm : MemInfo
  live : List (List Nat)

/-- The pages of a run. -/
def pagesOf (address count : Nat) : List Nat :=
  (List.range count).map fun i => address / pageSize + i

/-- The callers after a free: if it was accepted they no longer hold its pages. -/
def History.released (w : History) (address count : Nat) : List (List Nat) :=
  if w.pmm.pmmValidateRelease address count then
    w.live.map fun run => run.filter fun p => p ∉ pagesOf address count
  else w.live

def History.step (w : History) : Op → History
  | .allocPagesInZone count zone =>
    let r := w.pmm.pmmAllocPagesInZone count.toNat zone
    { pmm := r.2
      live := match r.1 with
        | some address => pagesOf address count.toNat :: w.live
        | none => w.live }
  | .freePage address =>
    { pmm := w.pmm.pmmFreePage address.toNat, live := w.released address.toNat 1 }
  | .freePages address count =>
    { pmm := w.pmm.pmmFreePages address.toNat count.toNat,
      live := w.released address.toNat count.toNat }

def History.run (w : History) (ops : List Op) : History := ops.foldl History.step w

variable {op : Op} {w : History}

theorem mem_pagesOf {count : Nat} :
    p ∈ pagesOf address count ↔ address / pageSize ≤ p ∧ p < address / pageSize + count := by
  unfold pagesOf
  simp only [List.mem_map, List.mem_range]
  constructor
  · omega
  · intro h; exact ⟨p - address / pageSize, by omega, by omega⟩

/-- Every page a caller holds is out, and no two callers hold the same page. -/
structure LiveInv (w : History) : Prop where
  owned : ∀ run ∈ w.live, ∀ p ∈ run, p < w.pmm.totalPages ∧ w.pmm.pmmPageIsOwned p = true
  disjoint : w.live.Pairwise List.Disjoint

theorem step_alloc_live (h : Inv w.pmm) (hl : LiveInv w) :
    LiveInv (w.step (.allocPagesInZone count zone)) := by
  simp only [History.step]
  rcases alloc_cases h count.toNat zone with he | ⟨i, t, he, ht, hin, hfree⟩
  · rw [he]
    exact ⟨hl.owned, hl.disjoint⟩
  rw [he]
  have hdiv : i * pageSize / pageSize = i := Nat.mul_div_cancel i (by decide)
  have hrun : ∀ p, p ∈ pagesOf (i * pageSize) count.toNat ↔ i ≤ p ∧ p < i + count.toNat :=
    fun p => by rw [mem_pagesOf, hdiv]
  constructor
  · intro run hr p hp
    rw [claim_totalPages]
    rcases List.mem_cons.mp hr with rfl | hr
    · have hp' := (hrun p).mp hp
      exact ⟨by omega, by rw [claim_owned h ht hin p (by omega), if_pos hp']⟩
    obtain ⟨hlt, ho⟩ := hl.owned run hr p hp
    exact ⟨hlt, by rw [claim_owned h ht hin p hlt, ho, ite_self]⟩
  · refine List.Pairwise.cons (fun run hr => ?_) hl.disjoint
    -- a page someone holds is not free, and the new run is made of free pages
    intro p hp hq
    obtain ⟨hlt, ho⟩ := hl.owned run hr p hq
    have hp' := (hrun p).mp hp
    exact absurd (hfree p hp'.1 hp'.2) (by rw [h.not_free_of_owned hlt ho]; decide)

theorem pmmFreePage_eq : s.pmmFreePage address = s.pmmFreePages address 1 := rfl

theorem free_live (h : Inv w.pmm) (hl : LiveInv w) (count : Nat) :
    LiveInv ⟨w.pmm.pmmFreePages address count, w.released address count⟩ := by
  unfold History.released
  rcases freePages_cases h address count with ⟨_, hv, he, hin⟩ | ⟨_, hv, he⟩
  · rw [he, hv]
    constructor
    · intro run hr p hp
      obtain ⟨run', hr', rfl⟩ := List.mem_map.mp hr
      obtain ⟨hp', hout⟩ := List.mem_filter.mp hp
      obtain ⟨hlt, ho⟩ := hl.owned run' hr' p hp'
      have hne : ¬ (address / pageSize ≤ p ∧ p < address / pageSize + count) := fun hc =>
        of_decide_eq_true hout (mem_pagesOf.mpr hc)
      exact ⟨hlt, (release_owned h hin p hlt).trans (by rw [if_neg hne, ho])⟩
    · refine List.Pairwise.map _ (fun run run' hd p hp hq => ?_) hl.disjoint
      exact hd (List.mem_of_mem_filter hp) (List.mem_of_mem_filter hq)
  · rw [he, hv]
    exact ⟨hl.owned, hl.disjoint⟩

theorem step_inv (h : Inv w.pmm) (hl : LiveInv w) : Inv (w.step op).pmm ∧ LiveInv (w.step op) := by
  cases op with
  | allocPagesInZone count zone => exact ⟨alloc_inv h, step_alloc_live h hl⟩
  | freePage address => exact ⟨free_inv h, free_live h hl 1⟩
  | freePages address count =>
    exact ⟨free_inv h, free_live h hl count.toNat⟩

theorem run_inv : ∀ (ops : List Op) {w : History}, Inv w.pmm → LiveInv w →
    Inv (w.run ops).pmm ∧ LiveInv (w.run ops)
  | [], _, h, hl => ⟨h, hl⟩
  | op :: ops, w, h, hl =>
    @run_inv ops (w.step op) (step_inv h hl).1 (step_inv h hl).2

/-- The map is never rewritten. -/
theorem step_mmap (w : History) : (w.step op).pmm.mmap = w.pmm.mmap := by
  have hfree : ∀ address count, (w.pmm.pmmFreePages address count).mmap = w.pmm.mmap := by
    intro address count
    unfold MemInfo.pmmFreePages
    split <;> rfl
  cases op with
  | allocPagesInZone count zone =>
    show (w.pmm.pmmAllocPagesInZone count.toNat zone).2.mmap = _
    unfold MemInfo.pmmAllocPagesInZone
    split
    · rfl
    split
    · rfl
    split
    · rfl
    split <;> rfl
  | freePage address => exact hfree address.toNat 1
  | freePages address count => exact hfree address.toNat count.toNat

theorem run_mmap : ∀ (ops : List Op) (w : History), (w.run ops).pmm.mmap = w.pmm.mmap
  | [], _ => rfl
  | op :: ops, w => (run_mmap ops (w.step op)).trans (step_mmap w)

/-- **The allocator after any history.** Whatever the firmware's map and the calls
so far: bits, tags and counters agree, the statistics scan passes, what is handed
out is usable RAM above the reserved memory, no page has two holders, and a free
that is not of a whole run of pages that are out changes only its counter. -/
theorem pmm_sound_in_every_history (mmap : List MmapEntry) (mem : Nat → UInt8) (s₀ : MemInfo)
    (hinit : memoryInit mmap mem = .ok s₀) (ops : List Op) :
    let w := History.run ⟨s₀, []⟩ ops
    let s := w.pmm
    (∀ p, p < s.totalPages → (s.pmmPageIsFree p = true ↔ s.pmmGetPageTag p = pmmZoneTagFree))
      ∧ s.freePages = s.freeSet.card ∧ s.pmmOwnedPages = s.ownedSet.card
      ∧ s.freeMemory = s.freeSet.card * pageSize
      ∧ s.usedMemory = (s.totalPages - s.freeSet.card) * pageSize
      ∧ (∃ stats, s.memoryGetDetailedStats = .ok stats)
      ∧ (∀ count zone address, (s.pmmAllocPagesInZone count zone).1 = some address →
          ∀ p ∈ pagesOf address count, Usable mmap p ∧ ∀ run ∈ w.live, p ∉ run)
      ∧ (∀ run ∈ w.live, ∀ p ∈ run, Usable mmap p) ∧ w.live.Pairwise List.Disjoint
      ∧ (∀ address count, ¬ Releasable s address count →
          s.pmmFreePages address count = s.countInvalidFree)
      ∧ (∀ address, ¬ Releasable s address 1 → s.pmmFreePage address = s.countInvalidFree) := by
  intro w s
  have hinv := memoryInit_inv hinit
  obtain ⟨h, hl⟩ : Inv s ∧ LiveInv w :=
    run_inv ops hinv ⟨fun _ hr => absurd hr List.not_mem_nil, List.Pairwise.nil⟩
  have hmmap : s.mmap = mmap := (run_mmap ops _).trans (memoryInit_spec hinit).1
  have hrefused : ∀ address count, ¬ Releasable s address count →
      s.pmmFreePages address count = s.countInvalidFree := by
    intro address count hn
    rcases freePages_cases h address count with ⟨hr, _⟩ | ⟨_, _, he⟩
    · exact absurd hr hn
    · exact he
  refine ⟨h.agree, h.free, h.owned, by rw [h.freeMemory, h.free], ?_, detailedStats_ok h, ?_, ?_,
    hl.disjoint, hrefused, fun address hn => hrefused address 1 hn⟩
  · rw [h.usedMemory, h.freeMemory, h.total, h.free, Nat.sub_mul]
  · intro count zone address halloc p hp
    rcases alloc_cases h count zone with he | ⟨i, t, he, ht, hin, hfree⟩
    · rw [he] at halloc
      cases halloc
    rw [he] at halloc
    obtain rfl := Option.some.inj halloc
    rw [mem_pagesOf, Nat.mul_div_cancel i (by decide)] at hp
    have hpf := hfree p hp.1 hp.2
    refine ⟨hmmap ▸ h.usable p (by omega) (.inl hpf), fun run hr hpr => ?_⟩
    obtain ⟨hlt, ho⟩ := hl.owned run hr p hpr
    exact absurd hpf (by rw [h.not_free_of_owned hlt ho]; decide)
  · intro run hr p hp
    obtain ⟨hlt, ho⟩ := hl.owned run hr p hp
    exact hmmap ▸ h.usable p hlt (.inr ho)

/-- One usable entry from 0 to 64 MiB. -/
def oneEntry : List MmapEntry := [⟨0, 0, 0x4000000, 0, 1⟩]

theorem memoryInit_oneEntry (mem : Nat → UInt8) : ∃ s, memoryInit oneEntry mem = .ok s := by
  have hshows := @shows_initTables oneEntry 16384 pmmBitmapStorageStart 4096
    (pmmBitmapStorageStart + 4096) 8192 mem rfl (by decide)
  have hfree : countFreePages pmmBitmapStorageStart 16384
      (memoryInitTables oneEntry 16384 pmmBitmapStorageStart 4096
        (pmmBitmapStorageStart + 4096) 8192 mem) ≠ 0 := by
    rw [countFreePages_eq (by decide), count_eq_card_filter_range]
    refine card_ne_zero_of_mem (mem_filter.mpr
      ⟨mem_range.mpr (show 5120 < 16384 by decide), ?_⟩)
    rw [(hshows 5120 (by decide)).1]
    decide
  unfold memoryInit
  have htotal : memoryFindTotal oneEntry / pageSize = 16384 := by decide
  have hbitmap : alignUp ((16384 + 7) / 8) pageSize = 4096 := by decide
  have howner : alignUp (pmmZoneStorageBytes 16384) pageSize = 8192 := by decide
  rw [if_neg (by decide), if_neg (by decide), if_neg (by decide), htotal, hbitmap, howner,
    if_neg (by decide), if_neg hfree]
  exact ⟨_, rfl⟩

/-- All pages from the 20 MiB on are free after it. -/
theorem memoryInit_oneEntry_free (h : memoryInit oneEntry mem = .ok s) :
    1029 ≤ s.freeSet.card ∧ physicalIdentityStart < s.totalMemory := by
  obtain ⟨_, _, howner, _, hsize, htotm, htotp, hmem, _⟩ := memoryInit_spec h
  have htotal : s.totalMemory = 0x4000000 := by
    rw [htotm]
    decide
  have hpages : s.totalPages = 16384 := by
    rw [htotp, htotal]
    decide
  have hshows := @shows_initTables oneEntry s.totalPages s.bitmap s.bitmapSize s.pmmOwnerBitmap
    s.pmmOwnerBitmapSize mem howner hsize
  rw [← hmem] at hshows
  constructor
  · have hsub : Finset.Ico 5120 6149 ⊆ s.freeSet := by
      intro p hp
      obtain ⟨hlo, hhi⟩ := mem_Ico.mp hp
      have hcover : (⟨0, 0, 0x4000000, 0, 1⟩ : MmapEntry).CoversPage p := by
        refine ⟨by decide, by decide, by decide, zero_le _, ?_⟩
        rw [show min (⟨0, 0, 0x4000000, 0, 1⟩ : MmapEntry).end maxPhysicalAddress = 0x4000000
          by decide, show pageSize = 4096 from rfl]
        omega
      rw [mem_freeSet]
      refine ⟨by omega, ?_⟩
      rw [MemInfo.pmmPageIsFree, (hshows p (by omega)).1]
      simp [initialBit, oneEntry, hcover, hlo]
    have := card_le_card hsub
    rwa [card_Ico] at this
  · rw [htotal]
    decide

/-- Two allocations, a free of the first, and a free of it again. -/
theorem pmm_sound_after_double_free : ∃ s₀, memoryInit oneEntry (fun _ => 0) = .ok s₀ ∧
    (History.run ⟨s₀, []⟩ [.allocPagesInZone 2 .slab, .allocPagesInZone 1 .process,
      .freePages 0x1400000 2, .freePages 0x1400000 2]).live.Pairwise List.Disjoint := by
  obtain ⟨s₀, h⟩ := memoryInit_oneEntry fun _ => 0
  obtain ⟨_, _, _, _, _, _, _, _, hlive, _⟩ := pmm_sound_in_every_history oneEntry (fun _ => 0) s₀ h
    [.allocPagesInZone 2 .slab, .allocPagesInZone 1 .process, .freePages 0x1400000 2,
      .freePages 0x1400000 2]
  exact ⟨s₀, h, hlive⟩

end ZephyrOS.Memory
