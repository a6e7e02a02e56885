import ZephyrOS.Memory.PmmRuns

/-!
# The page allocator, one page at a time

What `pmm_alloc_page_in_zone` and `pmm_free_page` do, for users that take single pages:
a page is *out* or it is not. Freeing a list of pages that are out and all different
returns each of them.
-/

namespace ZephyrOS.Memory

open Nat List

/-! ### Runs of pages after a claim and after a release -/

variable {m : MemInfo} {first count t a n address p b : Nat} {m' : MemInfo}

theorem releasable_claim (h : Inv m) (ht : ownedTag t = true)
    (hin : first + count ≤ m.totalPages) (hr : Releasable m address n) :
    Releasable (m.pmmClaimPages first count t) address n := by
  refine ⟨hr.1, hr.2.1, fun p h1 h2 => ?_⟩
  obtain ⟨hlt, ho⟩ := hr.2.2 p h1 h2
  exact ⟨hlt, by rw [claim_owned h ht hin p hlt, ho, ite_self]⟩

theorem releasable_claimed (h : Inv m) (ht : ownedTag t = true)
    (hin : first + count ≤ m.totalPages) (hpos : 0 < count) :
    Releasable (m.pmmClaimPages first count t) (first * pageSize) count := by
  have hdiv : first * pageSize / pageSize = first := Nat.mul_div_cancel first (by decide)
  refine ⟨mul_mod_left _ _, hpos, fun p h1 h2 => ?_⟩
  rw [hdiv] at h1 h2
  exact ⟨by rw [claim_totalPages]; omega, by rw [claim_owned h ht hin p (by omega), if_pos ⟨h1, h2⟩]⟩

theorem releasable_release (h : Inv m) (hin : first + count ≤ m.totalPages)
    (hr : Releasable m address n)
    (hdis : ∀ p ∈ pagesOf address n, ¬ (first ≤ p ∧ p < first + count)) :
    Releasable (m.pmmReleasePages first count) address n := by
  refine ⟨hr.1, hr.2.1, fun p h1 h2 => ?_⟩
  obtain ⟨hlt, ho⟩ := hr.2.2 p h1 h2
  exact ⟨hlt, by rw [release_owned h hin p hlt, if_neg (hdis p (mem_pagesOf.mpr ⟨h1, h2⟩)), ho]⟩

theorem mem_freeSet_claim (h : Inv m) (ht : ownedTag t = true)
    (hin : first + count ≤ m.totalPages) : p ∈ (m.pmmClaimPages first count t).freeSet ↔
      p ∈ m.freeSet ∧ ¬ (first ≤ p ∧ p < first + count) := by
  rw [mem_freeSet, mem_freeSet, and_assoc]
  refine and_congr_right fun hp => ?_
  rw [(claim_page h ht hin p hp).1]
  split <;> simp [*]

theorem mem_freeSet_release (h : Inv m) (hin : first + count ≤ m.totalPages) :
    p ∈ (m.pmmReleasePages first count).freeSet ↔
      p ∈ m.freeSet ∨ (first ≤ p ∧ p < first + count) := by
  rw [mem_freeSet, mem_freeSet, release_totalPages]
  by_cases hp : p < m.totalPages
  · rw [(release_page h hin p hp).1]
    split <;> simp [*]
  · omega

/-! ### Single pages -/

/-- The page at `a` is with a user of the allocator. -/
def Out (m : MemInfo) (a : Nat) : Prop := Releasable m a 1

theorem out_iff :
    Out m a ↔ a % pageSize = 0 ∧ a / pageSize < m.totalPages ∧ m.pmmPageIsOwned (a / pageSize) = true := by
  constructor
  · intro h
    obtain ⟨h1, h2⟩ := h.2.2 (a / pageSize) (le_refl _) (lt_succ_self _)
    exact ⟨h.1, h1, h2⟩
  · intro h
    refine ⟨h.1, one_pos, fun p h1 h2 => ?_⟩
    have hp : p = a / pageSize := by omega
    rw [hp]
    exact h.2

theorem eq_of_div_eq (ha : a % pageSize = 0) (hb : b % pageSize = 0)
    (h : a / pageSize = b / pageSize) : a = b := by
  rw [← div_add_mod a pageSize, ← div_add_mod b pageSize, ha, hb, h]

theorem Out.inj (ha : Out m a) (hb : Out m b) (h : a / pageSize = b / pageSize) :
    a = b := eq_of_div_eq ha.1 hb.1 h

/-- A page that is out lies above what the kernel keeps for itself. -/
theorem Out.ge (hm : Inv m) (h : Out m a) : physicalIdentityStart ≤ a := by
  obtain ⟨h1, h2, h3⟩ := out_iff.mp h
  have hu := (hm.usable _ h2 (.inr h3)).1
  have := div_mul_le_self a pageSize
  omega

theorem Out.ne_zero (hm : Inv m) (h : Out m a) : a ≠ 0 := by
  have := h.ge hm
  unfold physicalIdentityStart heapStart heapSize at this
  omega

theorem Out.notMem_freeSet (hm : Inv m) (h : Out m a) : a / pageSize ∉ m.freeSet := by
  obtain ⟨_, h2, h3⟩ := out_iff.mp h
  intro hc
  rw [mem_freeSet, hm.not_free_of_owned h2 h3] at hc
  exact absurd hc.2 (by decide)

/-- The allocator `m` handed out the page at `a` and became `m'`. -/
structure Gives (m m' : MemInfo) (a : Nat) : Prop where
  inv : Inv m'
  fresh : ¬ Out m a
  aligned : a % pageSize = 0
  out : ∀ b, Out m' b ↔ Out m b ∨ b = a
  free : a / pageSize ∈ m.freeSet
  freeSet : m'.freeSet = m.freeSet.erase (a / pageSize)
  invalidFrees : m'.pmmInvalidFrees = m.pmmInvalidFrees
  totalMemory : m'.totalMemory = m.totalMemory

theorem Gives.given (h : Gives m m' a) : Out m' a := (h.out a).mpr (.inr rfl)

theorem Gives.keeps (h : Gives m m' a) (b : Nat) (hb : Out m b) : Out m' b :=
  (h.out b).mpr (.inl hb)

theorem Gives.ne_zero (h : Gives m m' a) : a ≠ 0 := h.given.ne_zero h.inv

theorem Gives.card_freeSet (h : Gives m m' a) : m'.freeSet.card = m.freeSet.card - 1 := by
  rw [h.freeSet, Finset.card_erase_of_mem h.free]

/-- The page at `a` came back to the allocator `m`, which became `m'`. -/
structure Takes (m m' : MemInfo) (a : Nat) : Prop where
  inv : Inv m'
  out : ∀ b, Out m' b ↔ Out m b ∧ b ≠ a
  freeSet : m'.freeSet = insert (a / pageSize) m.freeSet
  invalidFrees : m'.pmmInvalidFrees = m.pmmInvalidFrees
  totalMemory : m'.totalMemory = m.totalMemory

theorem claim_counts :
    (m.pmmClaimPages first count t).pmmInvalidFrees = m.pmmInvalidFrees ∧
      (m.pmmClaimPages first count t).totalMemory = m.totalMemory := ⟨rfl, rfl⟩

theorem release_counts :
    (m.pmmReleasePages first count).pmmInvalidFrees = m.pmmInvalidFrees ∧
      (m.pmmReleasePages first count).totalMemory = m.totalMemory := ⟨rfl, rfl⟩

theorem out_claim (h : Inv m) {i : Nat} (ht : ownedTag t = true) (hin : i + 1 ≤ m.totalPages)
    (b : Nat) : Out (m.pmmClaimPages i 1 t) b ↔ Out m b ∨ b = i * pageSize := by
  have hdiv : i * pageSize / pageSize = i := Nat.mul_div_cancel i (by decide)
  constructor
  · intro hb
    obtain ⟨h1, h2, h3⟩ := out_iff.mp hb
    rw [claim_totalPages] at h2
    by_cases hbi : b / pageSize = i
    · exact .inr (eq_of_div_eq h1 (mul_mod_left i pageSize) (by rw [hdiv, hbi]))
    · refine .inl (out_iff.mpr ⟨h1, h2, ?_⟩)
      rwa [claim_owned h ht hin _ h2, if_neg (by omega)] at h3
  · intro hb
    rcases hb with hb | rfl
    · exact releasable_claim h ht hin hb
    · exact releasable_claimed h ht hin one_pos

/-- An allocation fails when no page is free, and only then. -/
theorem freeSet_of_failed (h : Inv m) {zone : MemoryZone} (hz : pmmZoneIsAllocatable zone = true)
    (he : m.pmmAllocPagesInZone 1 zone = (none, m.countAllocationFailure)) : m.freeSet = ∅ := by
  rw [Finset.eq_empty_iff_forall_notMem]
  intro p hp
  obtain ⟨hlt, hpf⟩ := mem_freeSet.mp hp
  unfold MemInfo.pmmAllocPagesInZone at he
  rw [if_neg (by rw [h.ready]; decide), if_neg (by rw [hz]; decide), if_neg (by omega)] at he
  cases hfind : m.findFreeRun 1 with
  | some i =>
    rw [hfind] at he
    cases he
  | none =>
    have := find?_eq_none.mp hfind p (mem_range.mpr (by omega))
    simp [hpf] at this

/-- **All an allocation of one page can do.** -/
theorem allocPage_cases (h : Inv m) (zone : MemoryZone) (hz : pmmZoneIsAllocatable zone = true) :
    (m.pmmAllocPagesInZone 1 zone = (none, m.countAllocationFailure) ∧ m.freeSet = ∅) ∨
    ∃ a m', m.pmmAllocPagesInZone 1 zone = (some a, m') ∧ Gives m m' a := by
  rcases alloc_cases h 1 zone with he | ⟨i, t, he, ht, hin, hfree⟩
  · exact .inl ⟨he, freeSet_of_failed h hz he⟩
  refine .inr ⟨_, _, he, ?_⟩
  have hdiv : i * pageSize / pageSize = i := Nat.mul_div_cancel i (by decide)
  have hf : i ∈ m.freeSet := mem_freeSet.mpr ⟨by omega, hfree i (le_refl _) (by omega)⟩
  refine ⟨claim_inv h ht hin hfree, fun ho => ?_, mul_mod_left i pageSize, out_claim h ht hin,
    by rw [hdiv]; exact hf, ?_, (claim_counts ..).1, (claim_counts ..).2⟩
  · exact ho.notMem_freeSet h (by rw [hdiv]; exact hf)
  · ext p
    rw [mem_freeSet_claim h ht hin, Finset.mem_erase, and_comm]
    refine and_congr_left fun _ => ?_
    omega

/-- A page that is out comes back when it is freed. -/
theorem freePage_takes (h : Inv m) (ho : Out m a) : Takes m (m.pmmFreePage a) a := by
  rw [pmmFreePage_eq]
  rcases freePages_cases h a 1 with ⟨_, _, he, hin⟩ | ⟨hn, _, _⟩
  · rw [he]
    refine ⟨by rw [← he]; exact free_inv h, fun b => ?_, ?_, (release_counts ..).1,
      (release_counts ..).2⟩
    · constructor
      · intro hb
        obtain ⟨h1, h2, h3⟩ := out_iff.mp hb
        rw [release_totalPages] at h2
        rw [release_owned h hin _ h2] at h3
        by_cases hba : b / pageSize = a / pageSize
        · rw [if_pos (by omega)] at h3
          cases h3
        · rw [if_neg (by omega)] at h3
          exact ⟨out_iff.mpr ⟨h1, h2, h3⟩, fun hc => hba (by rw [hc])⟩
      · intro hb
        refine releasable_release h hin hb.1 fun p hp hc => hb.2 (hb.1.inj ho ?_)
        have := mem_pagesOf.mp hp
        omega
    · ext p
      rw [mem_freeSet_release h hin, Finset.mem_insert, or_comm]
      refine or_congr_left ?_
      omega
  · exact absurd ho hn

/-- A page handed out and freed at once leaves the pages of everyone else as they were. -/
theorem Gives.takes (h : Gives m m' a) :
    Inv (m'.pmmFreePage a) ∧ ∀ b, Out (m'.pmmFreePage a) b ↔ Out m b := by
  have ht := freePage_takes h.inv h.given
  refine ⟨ht.inv, fun b => ?_⟩
  rw [ht.out, h.out]
  constructor
  · intro hb
    exact hb.1.resolve_right hb.2
  · intro hb
    exact ⟨.inl hb, fun hc => h.fresh (hc ▸ hb)⟩

/-- Free the pages of a list, first to last. -/
def freeAll (pages : List Nat) (m : MemInfo) : MemInfo := pages.foldl MemInfo.pmmFreePage m

/-- **Pages that are out and all different come back, each once.** -/
theorem freeAll_takes : ∀ {pages : List Nat} {m : MemInfo}, Inv m → pages.Nodup →
    (∀ a ∈ pages, Out m a) →
    Inv (freeAll pages m) ∧ (∀ b, Out (freeAll pages m) b ↔ Out m b ∧ b ∉ pages)
      ∧ (∀ p, p ∈ (freeAll pages m).freeSet ↔ p ∈ m.freeSet ∨ ∃ a ∈ pages, p = a / pageSize)
      ∧ (freeAll pages m).pmmInvalidFrees = m.pmmInvalidFrees := by
  intro pages
  induction pages with
  | nil => intro m h _ _; exact ⟨h, by simp [freeAll], by simp [freeAll], rfl⟩
  | cons a pages ih =>
    intro m h hnd hout
    obtain ⟨hna, hnd⟩ := nodup_cons.mp hnd
    have ht := freePage_takes h (hout a mem_cons_self)
    -- what is still to be freed is out, because it is not `a`
    have hrest : ∀ b ∈ pages, Out (m.pmmFreePage a) b := by
      intro b hb
      exact (ht.out b).mpr ⟨hout b (mem_cons_of_mem _ hb), fun hc => hna (hc ▸ hb)⟩
    obtain ⟨h1, h2, h3, h4⟩ := ih ht.inv hnd hrest
    have heq : freeAll (a :: pages) m = freeAll pages (m.pmmFreePage a) := rfl
    rw [heq]
    refine ⟨h1, fun b => ?_, fun p => ?_, h4.trans ht.invalidFrees⟩
    · rw [h2, ht.out, mem_cons, not_or, and_assoc]
    · rw [h3, ht.freeSet, Finset.mem_insert]
      simp only [mem_cons, exists_eq_or_imp]
      rw [or_comm (a := p = a / pageSize), or_assoc]

/-! ### Other users of the allocator -/

/-- The allocator after a call. -/
def MemInfo.step (m : MemInfo) (op : Op) : MemInfo := (History.step ⟨m, []⟩ op).pmm

/-- A call that frees the page at `a`. -/
def Op.Frees (a : Nat) : Op → Prop
  | .allocPagesInZone _ _ => False
  | .freePage address => a / pageSize ∈ pagesOf address.toNat 1
  | .freePages address count => a / pageSize ∈ pagesOf address.toNat count.toNat

/-- Pages that a call does not free stay out. -/
theorem out_step (h : Inv m) (op : Op) :
    Inv (m.step op) ∧ ∀ b, Out m b → ¬ op.Frees b → Out (m.step op) b := by
  have hfree : ∀ address count b, Out m b → b / pageSize ∉ pagesOf address count →
      Out (m.pmmFreePages address count) b := by
    intro address count b hb hn
    rcases freePages_cases h address count with ⟨_, _, he, hin⟩ | ⟨_, _, he⟩
    · rw [he]
      refine releasable_release h hin hb fun p hp hc => hn ?_
      have hpb := mem_pagesOf.mp hp
      have : p = b / pageSize := by omega
      exact mem_pagesOf.mpr (this ▸ hc)
    · rw [he]
      exact hb
  cases op with
  | allocPagesInZone count zone =>
    refine ⟨alloc_inv h, fun b hb _ => ?_⟩
    show Out (m.pmmAllocPagesInZone count.toNat zone).2 b
    rcases alloc_cases h count.toNat zone with he | ⟨first, t, he, ht, hin, _⟩
    · rw [he]
      exact hb
    · rw [he]
      exact releasable_claim h ht hin hb
  | freePage address => exact ⟨free_inv h, fun b hb hn => hfree _ _ b hb hn⟩
  | freePages address count =>
    exact ⟨free_inv h, fun b hb hn => hfree _ _ b hb hn⟩

end ZephyrOS.Memory
