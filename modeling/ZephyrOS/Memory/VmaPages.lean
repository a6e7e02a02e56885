import ZephyrOS.Memory.Vma
import ZephyrOS.Memory.PagingRuns

/-!
# The pages of one directory

The user pages of a directory as a set, how the searches of `vma.c` see it, what unmapping a
range and mapping one page do to it, and that `paging_get_user_page_count` counts it.
-/

namespace ZephyrOS.Vma

open ZephyrOS.Memory (pageSize MemInfo Out)

open List Nat
open ZephyrOS.Paging (tableEntries tableIndex pageIndex userSpaceStart userSpaceEnd frames
  DirEntry PageEntry tableIndex_lt pageIndex_lt)

variable {p : Paging.State} {v : Nat} {x : Nat × Nat} {d : Nat} {p' : Paging.State} {i j : Nat}

/-- The user pages of `d`: the entry of the directory and the entry of the table. -/
def residents (p : Paging.State) (d : Nat) : Set (Nat × Nat) := { x | (d, x.1, x.2) ∈ frames p }

/-- The address a page is at. -/
def pageAddress (x : Nat × Nat) : Nat := (x.1 * tableEntries + x.2) * pageSize

theorem pageAddress_index (h : v % pageSize = 0) : pageAddress (tableIndex v, pageIndex v) = v := by
  unfold pageAddress tableIndex pageIndex tableEntries pageSize at *
  omega

theorem pageAddress_inj {y : Nat × Nat} (hx : x.2 < tableEntries) (hy : y.2 < tableEntries)
    (h : pageAddress x = pageAddress y) : x = y := by
  unfold pageAddress tableEntries pageSize at *
  exact Prod.ext (by omega) (by omega)

theorem residents_lt (hx : x ∈ residents p d) : x.2 < tableEntries := hx.2.2.2.1

theorem residents_finite (h : Paging.Inv p) (d : Nat) : (residents p d).Finite := by
  refine Set.Finite.of_finite_image (h.frames_finite.1.subset ?_)
    (f := fun x : Nat × Nat => (d, x.1, x.2)) ?_
  · intro x hx
    obtain ⟨y, hy, rfl⟩ := hx
    exact hy
  · intro x _ y _ he
    exact Prod.ext (by simpa using congrArg (·.2.1) he) (by simpa using congrArg (·.2.2) he)

/-- One page more in the directory. -/
theorem residents_insert (h : frames p' = insert (d, i, j) (frames p)) :
    residents p' d = insert (i, j) (residents p d) := by
  ext x
  show (d, x.1, x.2) ∈ frames p' ↔ _
  rw [h]
  refine or_congr_left ?_
  simp [Prod.ext_iff]

/-- One page less. -/
theorem residents_remove (h : frames p' = frames p \ {(d, i, j)}) :
    residents p' d = residents p d \ {(i, j)} := by
  ext x
  show (d, x.1, x.2) ∈ frames p' ↔ _
  rw [h]
  refine and_congr_right fun _ => not_congr ?_
  simp [Prod.ext_iff]

section Lookup

variable (h : Paging.Inv p) {d v : Nat} (hd : p.User d) (hv : v < 4294967296)

include h hd hv

theorem pageAt_eq : pageAt d v p =
    if (p.entries d (tableIndex v)).present then
      some (p.pages (p.entries d (tableIndex v)).table (pageIndex v))
    else none := by
  unfold pageAt
  rw [Paging.getPage_lookup h (h.managed_of_user hd) hv]
  split <;> rfl

theorem isPresent_iff : isPresent d v p = true ↔ (p.entries d (tableIndex v)).present = true ∧
    (p.pages (p.entries d (tableIndex v)).table (pageIndex v)).present = true := by
  unfold isPresent
  rw [pageAt_eq h hd hv]
  by_cases hp : (p.entries d (tableIndex v)).present = true
  · rw [if_pos hp]
    exact (and_iff_right hp).symm
  · rw [if_neg hp]
    exact iff_of_false (by simp) fun hc => hp hc.1

theorem isSupervisor_iff : isSupervisor d v p = true ↔
    (p.entries d (tableIndex v)).present = true ∧
      (p.pages (p.entries d (tableIndex v)).table (pageIndex v)).present = true ∧
      (p.pages (p.entries d (tableIndex v)).table (pageIndex v)).user = false := by
  unfold isSupervisor
  rw [pageAt_eq h hd hv]
  by_cases hp : (p.entries d (tableIndex v)).present = true
  · rw [if_pos hp, and_iff_right hp]
    simp
  · rw [if_neg hp]
    exact iff_of_false (by simp) fun hc => hp hc.1

/-- A page that is there and is not the kernel's is one of the user pages. -/
theorem mem_residents_of_present (hp : isPresent d v p = true) (hs : isSupervisor d v p = false) :
    (tableIndex v, pageIndex v) ∈ residents p d := by
  obtain ⟨hp1, hp2⟩ := (isPresent_iff h hd hv).mp hp
  have hu : (p.pages (p.entries d (tableIndex v)).table (pageIndex v)).user = true := by
    by_contra hc
    have := (isSupervisor_iff h hd hv).mpr ⟨hp1, hp2, by simpa using hc⟩
    rw [hs] at this
    cases this
  have hmd := h.managed_of_user hd
  exact ⟨hmd, tableIndex_lt hv, (h.userPage hmd (tableIndex_lt hv) hp1 ⟨hp2, hu⟩).2.1,
    pageIndex_lt v, hp2, hu⟩

/-- A user page is found. -/
theorem isPresent_of_mem (hm : (tableIndex v, pageIndex v) ∈ residents p d) :
    isPresent d v p = true :=
  (isPresent_iff h hd hv).mpr ⟨hm.2.2.1.1, hm.2.2.2.2.1⟩

end Lookup

/-! ### Unmapping a range -/

/-- **One page is unmapped**, and no page of the kernel's shows up for it. -/
theorem unmap_step (h : Paging.Inv p) (hd : p.User d)
    (hal : v % pageSize = 0) (hlo : userSpaceStart ≤ v) (hhi : v < userSpaceEnd)
    (hp : isPresent d v p = true) (hs : isSupervisor d v p = false) :
    ∃ p', Paging.unmapUserPageInDirectory d v p = (.ok (), p') ∧ Paging.Inv p' ∧ p'.User d ∧
      residents p' d = residents p d \ {(tableIndex v, pageIndex v)} ∧
      ∀ w < 4294967296, isSupervisor d w p = false → isSupervisor d w p' = false := by
  have hv : v < 4294967296 := lt_trans hhi (by decide)
  have hmem := mem_residents_of_present h hd hv hp hs
  obtain ⟨hmd, hi, hown, hj, hup⟩ := hmem
  have hopen := (h.entry d hmd _ hi).supervisor hown _ hup.2
  have heq := Paging.unmap_eq hd hal hlo hhi hown.1 hopen ((h.table_out hmd hi hown).ne_zero h.pmm)
    hup
  have hinv := (Paging.unmap_inv h d v).1
  rw [heq] at hinv
  have hud : (p.dropPage d (tableIndex v) (p.entries d (tableIndex v)).table (pageIndex v)).User d := by
    unfold Paging.State.User
    rw [Paging.dropPage_users]
    exact hd
  refine ⟨_, heq, hinv, hud, ?_, fun w hw hno => ?_⟩
  · exact residents_remove (Paging.frames_dropPage h hd hi hown hj hup)
  · -- what is found in the new state was found in the old one
    by_contra hc
    rw [Bool.not_eq_false] at hc
    obtain ⟨h1, h2, h3⟩ := (isSupervisor_iff hinv hud hw).mp hc
    rcases Paging.dropPage_entries p d (tableIndex v) (p.entries d (tableIndex v)).table
      (pageIndex v) d (tableIndex w) with he | he
    swap
    · rw [he] at h1
      cases h1
    rw [he] at h1 h2 h3
    rcases Paging.dropPage_pages p d (tableIndex v) (p.entries d (tableIndex v)).table
      (pageIndex v) (p.entries d (tableIndex w)).table (pageIndex w) with hpg | hpg
    swap
    · rw [hpg] at h2
      cases h2
    rw [hpg] at h2 h3
    have := (isSupervisor_iff h hd hw).mpr ⟨h1, h2, h3⟩
    rw [hno] at this
    cases this

/-- **A range of pages is unmapped**: every user page in it goes, and no other. Without user
pages nothing changes at all. -/
theorem unmapLoop_spec : ∀ (n : Nat) {start : Nat} {p : Paging.State}, Paging.Inv p →
    p.User d → start % pageSize = 0 → userSpaceStart ≤ start → start + n * pageSize ≤ userSpaceEnd →
    (∀ k < n, isSupervisor d (start + k * pageSize) p = false) →
    ∃ p', unmapLoop d n start p = (.ok (), p') ∧ Paging.Inv p' ∧ p'.User d ∧
      (∀ x, x ∈ residents p' d ↔ x ∈ residents p d ∧
        ¬ (start ≤ pageAddress x ∧ pageAddress x < start + n * pageSize)) ∧
      (residents p d = ∅ → p' = p) := by
  intro n
  induction n with
  | zero =>
    intro start p h hd _ _ _ _
    exact ⟨p, rfl, h, hd, fun x => (and_iff_left (by omega)).symm, fun _ => rfl⟩
  | succ n ih =>
    intro start p h hd hal hlo hhi hsup
    have hP : pageSize = 4096 := rfl
    have hmul : ∀ k, (k + 1) * pageSize = k * pageSize + pageSize := fun k => succ_mul k _
    have hn := hmul n
    have hal4096 : start % 4096 = 0 := hal
    have hnext : (start + pageSize) % pageSize = 0 := by rw [add_mod_right]; exact hal
    have hstart : start < userSpaceEnd := by omega
    have hv : start < 4294967296 := lt_trans hstart (by decide)
    have hsup0 : isSupervisor d start p = false := by simpa using hsup 0 (succ_pos n)
    -- the pages of the range are the first one and those of the rest
    have hsplit : ∀ x : Nat × Nat, x.2 < tableEntries →
        (start ≤ pageAddress x ∧ pageAddress x < start + (n + 1) * pageSize ↔
          x = (tableIndex start, pageIndex start) ∨
          start + pageSize ≤ pageAddress x ∧ pageAddress x < start + pageSize + n * pageSize) := by
      intro x hx
      have hfirst : x = (tableIndex start, pageIndex start) ↔ pageAddress x = start := by
        constructor
        · intro he
          rw [he, pageAddress_index hal]
        · intro he
          exact pageAddress_inj hx (pageIndex_lt start) (by rw [he, pageAddress_index hal])
      have hmod : pageAddress x % 4096 = 0 := mul_mod_left _ _
      rw [hfirst]
      omega
    have hrest : ∀ k < n, isSupervisor d (start + pageSize + k * pageSize) p = false := by
      intro k hk
      have := hsup (k + 1) (by omega)
      rwa [hmul, add_comm (k * pageSize), ← add_assoc] at this
    rw [unmapLoop]
    by_cases hp : isPresent d start p = true
    · rw [if_pos hp]
      obtain ⟨p₁, he, h1, hd1, hres, hkeep⟩ := unmap_step h hd hal hlo hstart hp hsup0
      rw [he]
      obtain ⟨p₂, he2, h2, hd2, hres2, _⟩ := @ih (start + pageSize) p₁ h1 hd1 hnext (by omega)
        (by omega) fun k hk => by
          refine hkeep _ (lt_of_lt_of_le ?_ (by decide : userSpaceEnd ≤ 4294967296)) (hrest k hk)
          have hle := mul_le_mul_right pageSize (succ_le_of_lt hk)
          rw [hmul] at hle
          omega
      refine ⟨p₂, he2, h2, hd2, fun x => ?_, fun hnone => ?_⟩
      swap
      · have hmem := mem_residents_of_present h hd hv hp hsup0
        rw [hnone] at hmem
        exact hmem.elim
      rw [hres2, hres]
      constructor
      · intro hx
        obtain ⟨⟨hx1, hx2⟩, hx3⟩ := hx
        refine ⟨hx1, fun hc => ?_⟩
        rcases (hsplit x (residents_lt hx1)).mp hc with hc | hc
        · exact hx2 hc
        · exact hx3 hc
      · intro hx
        obtain ⟨hx1, hx2⟩ := hx
        rw [hsplit x (residents_lt hx1), not_or] at hx2
        exact ⟨⟨hx1, hx2.1⟩, hx2.2⟩
    · rw [if_neg hp]
      obtain ⟨p₂, he2, h2, hd2, hres2, hsame⟩ := @ih (start + pageSize) p h hd hnext (by omega)
        (by omega) hrest
      refine ⟨p₂, he2, h2, hd2, fun x => ?_, hsame⟩
      rw [hres2]
      refine and_congr_right fun hx => not_congr ?_
      rw [hsplit x (residents_lt hx), or_iff_right]
      intro hc
      rw [hc] at hx
      exact hp (isPresent_of_mem h hd hv hx)

/-- **All that `process_vma_unmap_pages` can do**: refuse, and leave everything as it is, or
unmap the user pages of the range. -/
theorem unmapPages_cases (h : Paging.Inv p) (hd : p.User d) (x y : Nat) :
    (∃ e, unmapPages d x y p = (.error e, p)) ∨
    ∃ p', unmapPages d x y p = (.ok (), p') ∧ Paging.Inv p' ∧ p'.User d ∧
      (∀ z, z ∈ residents p' d ↔ z ∈ residents p d ∧ ¬ (x ≤ pageAddress z ∧ pageAddress z < y)) ∧
      (residents p d = ∅ → p' = p) := by
  unfold unmapPages
  split
  · exact .inl ⟨_, rfl⟩
  dsimp only
  split
  · exact .inl ⟨_, rfl⟩
  rename_i hnone
  have hend : x + (y - x) / pageSize * pageSize = y := by
    unfold pageSize at *
    omega
  have hsup : ∀ k < (y - x) / pageSize, isSupervisor d (x + k * pageSize) p = false := by
    intro k hk
    by_contra hc
    rw [Bool.not_eq_false] at hc
    exact hnone (any_eq_true.mpr ⟨k, mem_range.mpr hk, hc⟩)
  obtain ⟨p', he, h1, h2, h3⟩ := @unmapLoop_spec d ((y - x) / pageSize) x p h hd (by omega)
    (by omega) (by omega) hsup
  rw [hend] at h3
  exact .inr ⟨p', he, h1, h2, h3⟩

/-! ### Counting -/

/-- A table of the directory is counted right: shared and closed tables have no user page. -/
theorem countEntry_eq (h : Paging.Inv p) (hd : p.User d) (hi : i < tableEntries) :
    p.countEntry d i = .ok { j | (i, j) ∈ residents p d }.ncard := by
  have hmd := h.managed_of_user hd
  have hnone : ¬ (p.Own d i ∧ (p.entries d i).user = true) →
      ({ j | (i, j) ∈ residents p d } : Set Nat).ncard = 0 := by
    intro hno
    have hempty : ({ j | (i, j) ∈ residents p d } : Set Nat) = ∅ := by
      rw [Set.eq_empty_iff_forall_notMem]
      intro j hj
      obtain ⟨_, _, ho, _, hup⟩ := hj
      exact hno ⟨ho, (h.entry d hmd i hi).supervisor ho j hup.2⟩
    rw [hempty, Set.ncard_empty]
  unfold Paging.State.countEntry
  dsimp only
  rw [Paging.sharedEntry_eq h.registry]
  split
  · rename_i hshared
    rw [hnone fun hc => ?_]
    rcases hshared with hp | hs
    · rw [hc.1.1] at hp
      cases hp
    · exact hc.1.2.elim (h.ne_kernel hd) fun hne => hne hs
  rename_i hown
  have ho : p.Own d i := by
    rw [not_or] at hown
    exact ⟨by simpa using hown.1, .inr hown.2⟩
  split
  · rename_i hclosed
    rw [hnone fun hc => ?_]
    rw [hc.2] at hclosed
    cases hclosed
  rw [if_neg ((h.table_out hmd hi ho).ne_zero h.pmm)]
  have hset : ({ j | (i, j) ∈ residents p d } : Set Nat) = ((range tableEntries).filter fun j =>
      (p.pages (p.entries d i).table j).present &&
        (p.pages (p.entries d i).table j).user).toFinset := by
    ext j
    rw [Finset.mem_coe, mem_toFinset, mem_filter, mem_range, Bool.and_eq_true]
    constructor
    · intro hj
      exact ⟨hj.2.2.2.1, hj.2.2.2.2⟩
    · intro hj
      exact ⟨hmd, hi, ho, hj.1, hj.2⟩
  rw [hset, Set.ncard_coe_finset, toFinset_card_of_nodup (nodup_range.filter _)]
  rfl

/-- **`paging_get_user_page_count` counts the user pages.** -/
theorem getUserPageCount_eq (h : Paging.Inv p) (hd : p.User d) :
    p.getUserPageCount d = .ok (residents p d).ncard := by
  have hready : p.isReady = true := by
    simp [Paging.State.isReady, h.registry.ready, h.registry.current.1]
  have hfin := residents_finite h d
  unfold Paging.State.getUserPageCount
  rw [if_neg hd.1, if_neg (by simp [hready]),
    if_neg (fun hc => by simp [Paging.isRegisteredUserDirectory_iff.mpr hd] at hc)]
  -- after `k` entries the pages under them are counted
  obtain ⟨n, he, hn⟩ := @Lib.forRangeE_induct Nat Err 0 tableEntries
    (fun i n => (p.countEntry d i).map (n + ·)) 0 (fun k n => n = { x ∈ residents p d | x.1 < k }.ncard)
    (by simp)
    (by
      intro k n hk hn
      rw [zero_add, countEntry_eq h hd hk]
      refine ⟨_, rfl, ?_⟩
      have hsplit : { x ∈ residents p d | x.1 < k + 1 } = { x ∈ residents p d | x.1 < k } ∪
          (fun j => (k, j)) '' { j | (k, j) ∈ residents p d } := by
        ext ⟨i, j⟩
        simp only [Set.mem_union, Set.mem_image, Set.mem_ofPred_eq, Prod.mk.injEq]
        constructor
        · intro hx
          by_cases hik : i = k
          · exact .inr ⟨j, hik ▸ hx.1, hik.symm, rfl⟩
          · exact .inl ⟨hx.1, by omega⟩
        · intro hx
          rcases hx with hx | ⟨j', hx, rfl, rfl⟩
          · exact ⟨hx.1, by omega⟩
          · exact ⟨hx, lt_succ_self _⟩
      rw [hsplit, Set.ncard_union_eq ?_ (hfin.subset fun x hx => hx.1) ?_, hn,
        Set.ncard_image_of_injective _ fun a b hab => (Prod.ext_iff.mp hab).2]
      · rw [Set.disjoint_left]
        intro x hx hc
        obtain ⟨j, _, rfl⟩ := hc
        exact absurd hx.2 (lt_irrefl _)
      · refine hfin.subset fun x hx => ?_
        obtain ⟨j, hj, rfl⟩ := hx
        exact hj)
  have hall : { x ∈ residents p d | x.1 < tableEntries } = residents p d := by
    ext x
    exact and_iff_left_of_imp fun hx => hx.2.1
  rw [he, hn, hall]

end ZephyrOS.Vma
