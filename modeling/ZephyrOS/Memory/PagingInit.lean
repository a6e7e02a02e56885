import ZephyrOS.Memory.PagingDirectories

/-!
# The directory paging starts with

`paging_init` fills the kernel's directory one table at a time with pages that are mapped
to themselves. The invariant holds from the moment there is a directory, except for the
flag that paging is on; `Boot` is that. A range is only refused when the page allocator
has no page left for a table.
-/

namespace ZephyrOS.Paging

open ZephyrOS.Memory (pageSize MemInfo MemoryZone Out Gives Takes)

open List Nat Function

/-- The state while paging is being set up. -/
structure Boot (s : State) : Prop where
  inv : Inv { s with pagingInitialized := true }
  /-- There is the kernel's directory only. -/
  alone : ∀ d, ¬ s.User d
  /-- A page that is mapped is mapped to itself. -/
  identity : ∀ i < tableEntries, (s.entries s.kernelDirectory i).present = true →
    ∀ j, (s.pages (s.entries s.kernelDirectory i).table j).present = true →
      (s.pages (s.entries s.kernelDirectory i).table j).frame = i * tableEntries + j

/-- The entries without a table. -/
def absent (s : State) : Finset Nat :=
  (Finset.range tableEntries).filter fun i => (s.entries s.kernelDirectory i).present = false

/-- There are pages for all the tables that may still come, and `c` more. -/
def Spare (c : Nat) (s : State) : Prop := (absent s).card + c ≤ s.pmm.freeSet.card

/-- Between `s` and `s'` tables came, under entries `lo` to `hi`. -/
structure Grown (lo hi : Nat) (s s' : State) : Prop where
  keeps : Keeps s s'
  outside : ∀ i, i < lo ∨ hi < i → s'.entries s.kernelDirectory i = s.entries s.kernelDirectory i
  spare : ∀ c, Spare c s → Spare c s'

theorem Grown.refl (lo hi : Nat) (s : State) : Grown lo hi s s :=
  ⟨.refl, fun _ _ => rfl, fun _ h => h⟩

variable {s s' : State} {lo hi i «end» start : Nat} {mode : Option VesaMode} {d total : Nat}

theorem Grown.trans {s'' : State} (h : Grown lo hi s s') (h' : Grown lo hi s' s'') :
    Grown lo hi s s'' := by
  refine ⟨h.keeps.trans h'.keeps, fun i hi => ?_, fun c hc => h'.spare c (h.spare c hc)⟩
  have := h'.outside i hi
  rw [h.keeps.kernel] at this
  rw [this, h.outside i hi]

theorem Grown.mono {lo' hi' : Nat} (h : Grown lo hi s s') (hlo : lo' ≤ lo) (hhi : hi ≤ hi') :
    Grown lo' hi' s s' :=
  ⟨h.keeps, fun i hi => h.outside i (by omega), h.spare⟩

/-- The kernel's tables are closed to the user. -/
theorem Boot.closed (h : Boot s) (hi : i < tableEntries) :
    (s.entries s.kernelDirectory i).user = false := by
  by_contra hc
  exact h.alone _ ((h.inv.entry _ h.inv.registry.kernel i hi).window (by simpa using hc)).1

/-- **`paging_bootstrap_get_table`** finds or adds the table under an entry, and fails only
when no page is free. -/
theorem bootstrapGetTable_spec (h : Boot s) (hi : i < tableEntries) :
    (∃ m, bootstrapGetTable i s = (none, { s with pmm := m }) ∧ Boot { s with pmm := m } ∧
      Grown i i s { s with pmm := m } ∧ s.pmm.freeSet = ∅ ∧ i ∈ absent s) ∨
    ∃ s₁, bootstrapGetTable i s = (some (s₁.entries s.kernelDirectory i).table, s₁) ∧ Boot s₁ ∧
      Grown i i s s₁ ∧ (s₁.entries s.kernelDirectory i).present = true := by
  have hker := h.inv.registry.kernel
  have hk0 : s.kernelDirectory ≠ 0 := hker.1
  unfold bootstrapGetTable
  rw [if_neg (by omega)]
  by_cases hp : (s.entries s.kernelDirectory i).present = true
  · rw [if_pos hp, if_neg (by rw [h.closed hi]; decide)]
    exact .inr ⟨s, rfl, h, Grown.refl i i s, hp⟩
  rw [if_neg hp]
  have hp : (s.entries s.kernelDirectory i).present = false := by simpa using hp
  have habs : i ∈ absent s := Finset.mem_filter.mpr ⟨Finset.mem_range.mpr hi, hp⟩
  have hpmm : Memory.Inv s.pmm := h.inv.pmm
  rcases newTable_spec hpmm .kernel rfl s.kernelDirectory i with ⟨he, hfree⟩ | ⟨t, m, he, hg⟩
  · left
    refine ⟨_, he, ⟨h.inv.failed, h.alone, h.identity⟩, ⟨⟨rfl, rfl, fun _ _ => rfl⟩, fun _ _ => rfl,
      fun c hc => hc⟩, hfree, habs⟩
  right
  have hent : (s.withTable s.kernelDirectory i t m).entries s.kernelDirectory i =
      ⟨t, true, true, false⟩ := by
    rw [withTable_entries, if_pos ⟨rfl, rfl⟩]
  have hother : ∀ i', i' ≠ i → (s.withTable s.kernelDirectory i t m).entries s.kernelDirectory i' =
      s.entries s.kernelDirectory i' := by
    intro i' hne
    rw [withTable_entries, if_neg (fun hc => hne hc.2)]
  have hnew := h.inv.newTable hker hi hp hg
  have hkeep : Keeps s (s.withTable s.kernelDirectory i t m) := keeps_withTable hp
  have halone : ∀ d, ¬ (s.withTable s.kernelDirectory i t m).User d := h.alone
  have hpages := withTable_pages s s.kernelDirectory i t m
  have hfs : (s.withTable s.kernelDirectory i t m).pmm.freeSet = s.pmm.freeSet.erase (t / pageSize) :=
    hg.freeSet
  change Inv { s.withTable s.kernelDirectory i t m with pagingInitialized := true } at hnew
  generalize s.withTable s.kernelDirectory i t m = s₁ at *
  refine ⟨s₁, by rw [hent]; exact he, ⟨hnew, halone, ?_⟩, ⟨hkeep, ?_, ?_⟩, by rw [hent]⟩
  · -- the new table is empty, the others are as they were
    intro i' hi' hp' j hj
    rw [hkeep.kernel] at hp' hj ⊢
    by_cases hii : i' = i
    · rw [hii, hent, hpages, if_pos rfl] at hj
      cases hj
    rw [hother i' hii] at hp' hj ⊢
    have hne : (s.entries s.kernelDirectory i').table ≠ t := h.inv.ne_new hg hker hi' hp'
    rw [hpages, if_neg hne] at hj ⊢
    exact h.identity i' hi' hp' j hj
  · intro i' hne
    exact hother i' (by omega)
  · intro c hc
    have herase : absent s₁ = (absent s).erase i := by
      ext i'
      unfold absent
      rw [Finset.mem_erase, Finset.mem_filter, hkeep.kernel]
      by_cases hii : i' = i
      · rw [hii, hent]
        simp
      · rw [hother i' hii]
        simp [hii]
    unfold Spare at hc ⊢
    rw [herase, hfs, Finset.card_erase_of_mem habs, Finset.card_erase_of_mem hg.free]
    have := Finset.card_pos.mpr ⟨i, habs⟩
    omega

/-- The pages of one table, once it is there: nothing can go wrong. -/
theorem mapIdentityPages_spec (hi : i < tableEntries) : ∀ (n j : Nat) {s : State}, Boot s →
    (s.entries s.kernelDirectory i).present = true → j + n ≤ tableEntries →
    ∃ s', mapIdentityPages (s.entries s.kernelDirectory i).table n j
        ((i * tableEntries + j) * pageSize) s = (.ok (), s') ∧ Boot s' ∧
      s'.entries = s.entries ∧ s'.pmm = s.pmm ∧ s'.kernelDirectory = s.kernelDirectory ∧
      s'.currentDirectory = s.currentDirectory := by
  intro n
  induction n with
  | zero => intro j s h _ _; exact ⟨s, rfl, h, rfl, rfl, rfl, rfl⟩
  | succ n ih =>
    intro j s h hp hj
    have hker := h.inv.registry.kernel
    have hown : State.Own { s with pagingInitialized := true } s.kernelDirectory i := ⟨hp, .inl rfl⟩
    have hclosed := h.closed hi
    have hframe : (i * tableEntries + j) * pageSize / pageSize = i * tableEntries + j :=
      Nat.mul_div_cancel _ (by decide)
    -- the page is free or mapped to itself already
    have hok : ¬ ((s.pages (s.entries s.kernelDirectory i).table j).present = true ∧
        ((s.pages (s.entries s.kernelDirectory i).table j).frame ≠ i * tableEntries + j ∨
          (s.pages (s.entries s.kernelDirectory i).table j).user = true)) := by
      intro hc
      rcases hc.2 with hf | hu
      · exact hf (h.identity i hi hp j hc.1)
      · have := (h.inv.entry _ hker i hi).supervisor hown j hu
        rw [hclosed] at this
        cases this
    have hset := h.inv.setSupervisorPage hker hi hown hclosed (j := j)
      (p := ⟨i * tableEntries + j, true, true, false⟩) rfl
    have hboot : Boot (s.setPage (s.entries s.kernelDirectory i).table j
        ⟨i * tableEntries + j, true, true, false⟩) := by
      refine ⟨hset, h.alone, fun i' hi' hp' j' hj' => ?_⟩
      change ((s.setPage _ _ _).pages (s.entries s.kernelDirectory i').table j').present = true at hj'
      show ((s.setPage _ _ _).pages (s.entries s.kernelDirectory i').table j').frame = _
      rw [setPage_pages] at hj' ⊢
      by_cases hc : (s.entries s.kernelDirectory i').table = (s.entries s.kernelDirectory i).table ∧ j' = j
      · have hii : i' = i := (h.inv.table_unique hker hi' ⟨hp', .inl rfl⟩ hker hi hown hc.1).2
        rw [if_pos hc, hii, hc.2]
      · rw [if_neg hc] at hj' ⊢
        exact h.identity i' hi' hp' j' hj'
    obtain ⟨s', he, hb, h1, h2, h3, h4⟩ := ih (j + 1) hboot hp (by omega)
    refine ⟨s', ?_, hb, h1, h2, h3, h4⟩
    rw [mapIdentityPages, hframe, if_neg hok]
    have hnext : (i * tableEntries + (j + 1)) * pageSize = (i * tableEntries + j) * pageSize + pageSize := by
      rw [← add_assoc, add_mul _ 1, one_mul]
    rw [hnext] at he
    exact he

/-- A result that is an error only when there was no page to spare. -/
def FailsOnlyWithout (s : State) (r : Except Err Unit) : Prop := Spare 0 s → r = .ok ()

/-- **The walk over the tables of a range.** -/
theorem mapIdentityLoop_spec (hend : «end» ≤ 4294967296) :
    ∀ (fuel address : Nat) {s : State}, Boot s → address % pageSize = 0 →
    ∃ r s', mapIdentityLoop «end» fuel address s = (r, s') ∧ Boot s' ∧
      Grown (tableIndex address) (tableIndex («end» - 1)) s s' ∧ FailsOnlyWithout s r ∧
      (r = .ok () → address < «end» → 0 < fuel →
        (s'.entries s.kernelDirectory (tableIndex address)).present = true) := by
  intro fuel
  induction fuel with
  | zero =>
    intro address s h _
    exact ⟨_, s, rfl, h, Grown.refl _ _ s, fun _ => rfl, fun _ _ hc => absurd hc (lt_irrefl 0)⟩
  | succ fuel ih =>
    intro address s h hal
    rw [mapIdentityLoop]
    by_cases hdone : «end» ≤ address
    · rw [if_pos hdone]
      exact ⟨_, s, rfl, h, Grown.refl _ _ s, fun _ => rfl, fun _ hc => absurd hc (by omega)⟩
    rw [if_neg hdone]
    have hi : tableIndex address < tableEntries := tableIndex_lt (by omega)
    have hle : tableIndex address ≤ tableIndex («end» - 1) := by
      exact Nat.div_le_div_right (by omega)
    rcases bootstrapGetTable_spec h hi with ⟨m, he, hb, hg, hfree, habs⟩ | ⟨s₁, he, hb, hg, hp⟩
    · rw [he]
      refine ⟨_, _, rfl, hb, hg.mono (le_refl _) hle, fun hs => ?_, fun hc => ?_⟩
      · -- the missing table was accounted for, so there was a page for it
        have := Finset.card_pos.mpr ⟨_, habs⟩
        unfold Spare at hs
        rw [hfree, Finset.card_empty] at hs
        omega
      · cases hc
    · have hk := hg.keeps.kernel
      have ht0 : (s₁.entries s.kernelDirectory (tableIndex address)).table ≠ 0 := by
        have hker := hb.inv.registry.kernel
        rw [← hk] at hp ⊢
        exact (hb.inv.entry _ hker _ hi).table_ne_zero hp
      have haddr : address = (tableIndex address * tableEntries + pageIndex address) * pageSize := by
        unfold tableIndex pageIndex tableEntries pageSize at *
        omega
      obtain ⟨n, hn⟩ : ∃ n, n = min (tableEntries - pageIndex address) ((«end» - address) / pageSize) :=
        ⟨_, rfl⟩
      have hj := pageIndex_lt address
      obtain ⟨s₂, he₂, hb₂, h1, h2, h3, h4⟩ := mapIdentityPages_spec hi n (pageIndex address) hb
        (by rw [hk]; exact hp) (by omega)
      rw [← haddr, hk] at he₂
      -- the pages of the table change no entry
      have hg₂ : Grown (tableIndex address) (tableIndex address) s₁ s₂ := by
        refine ⟨⟨h3, h4, fun i _ => by rw [h1]⟩, fun i _ => by rw [h1], fun c hc => ?_⟩
        unfold Spare absent at hc ⊢
        rw [h1, h2, h3]
        exact hc
      have hg02 := hg.trans hg₂
      have hnext : (address + n * pageSize) % pageSize = 0 := by
        rw [add_mul_mod_self_right]
        exact hal
      obtain ⟨r, s', he', hb', hg', hf', hp'⟩ := ih (address + n * pageSize) hb₂ hnext
      have hlo : tableIndex address ≤ tableIndex (address + n * pageSize) := by
        exact Nat.div_le_div_right (le_add_right _ _)
      have hall := (hg02.mono (le_refl _) hle).trans (hg'.mono hlo (le_refl _))
      refine ⟨r, s', ?_, hb', hall, fun hs => hf' (hg02.spare 0 hs), fun _ _ _ => ?_⟩
      · rw [he]
        dsimp only
        rw [if_neg ht0, ← hn, he₂]
        exact he'
      · -- the entry was filled in this round, and nothing takes it away
        have hp₂ : (s₂.entries s₂.kernelDirectory (tableIndex address)).present = true := by
          rw [h1, h3, hk]
          exact hp
        have := hg'.keeps.tables _ hp₂
        rw [h3, hk] at this
        rw [this, h1]
        exact hp

/-- **`paging_map_identity_range_fast`.** -/
theorem mapIdentityRangeFast_spec (hend : «end» ≤ 4294967296)
    (h : Boot s) : ∃ r s', mapIdentityRangeFast start «end» s = (r, s') ∧ Boot s' ∧
      Grown (tableIndex start) (tableIndex («end» - 1)) s s' ∧
      (start < «end» → start % pageSize = 0 → «end» % pageSize = 0 → FailsOnlyWithout s r) ∧
      (r = .ok () → (s'.entries s.kernelDirectory (tableIndex start)).present = true) := by
  unfold mapIdentityRangeFast
  by_cases hbad : «end» ≤ start ∨ start % pageSize ≠ 0 ∨ «end» % pageSize ≠ 0
  · rw [if_pos hbad]
    refine ⟨_, s, rfl, h, Grown.refl _ _ s, fun h1 h2 h3 => ?_, fun hc => ?_⟩
    · exact absurd hbad (by omega)
    · cases hc
  rw [if_neg hbad]
  obtain ⟨h1, h2, h3⟩ : start < «end» ∧ start % pageSize = 0 ∧ «end» % pageSize = 0 := by omega
  obtain ⟨r, s', he, hb, hg, hf, hp⟩ :=
    mapIdentityLoop_spec hend ((«end» - start) / pageSize) start h h2
  refine ⟨r, s', he, hb, hg, fun _ _ _ => hf, fun hr => hp hr h1 ?_⟩
  unfold pageSize at *
  omega

/-- A range `paging_map_identity_range_fast` has nothing against. -/
def ValidRange (x : Nat × Nat) : Prop := x.1 < x.2 ∧ x.1 % pageSize = 0 ∧ x.2 % pageSize = 0

/-- **Ranges one after the other.** -/
theorem mapRanges_spec : ∀ (ranges : List (Nat × Nat)) {s : State}, Boot s →
    (∀ x ∈ ranges, x.2 ≤ 4294967296) →
    ∃ r s', mapRanges ranges s = (r, s') ∧ Boot s' ∧ Keeps s s' ∧ (∀ c, Spare c s → Spare c s') ∧
      (∀ i, (∀ x ∈ ranges, i < tableIndex x.1 ∨ tableIndex (x.2 - 1) < i) →
        s'.entries s.kernelDirectory i = s.entries s.kernelDirectory i) ∧
      ((∀ x ∈ ranges, ValidRange x) → FailsOnlyWithout s r) ∧
      (r = .ok () → ∀ x ∈ ranges, (s'.entries s.kernelDirectory (tableIndex x.1)).present = true) := by
  intro ranges
  induction ranges with
  | nil =>
    intro s h _
    exact ⟨_, s, rfl, h, .refl, fun _ hc => hc, fun _ _ => rfl, fun _ _ => rfl,
      fun _ x hx => absurd hx (by simp)⟩
  | cons x ranges ih =>
    intro s h hle
    obtain ⟨r₁, s₁, he₁, hb₁, hg₁, hf₁, hp₁⟩ :=
      mapIdentityRangeFast_spec (hle x mem_cons_self) h
    have hk := hg₁.keeps.kernel
    rw [mapRanges, he₁]
    cases r₁ with
    | error e =>
      refine ⟨_, s₁, rfl, hb₁, hg₁.keeps, hg₁.spare, fun i hi => ?_, fun hv => ?_, fun hc => ?_⟩
      · exact hg₁.outside i (hi x mem_cons_self)
      · obtain ⟨h1, h2, h3⟩ := hv x mem_cons_self
        exact hf₁ h1 h2 h3
      · cases hc
    | ok _ =>
      obtain ⟨r, s', he, hb, hkeep, hsp, hout, hf, hp⟩ :=
        ih hb₁ fun y hy => hle y (mem_cons_of_mem _ hy)
      refine ⟨r, s', he, hb, hg₁.keeps.trans hkeep, fun c hc => hsp c (hg₁.spare c hc),
        fun i hi => ?_, fun hv hs => ?_, fun hr y hy => ?_⟩
      · have h2 := hout i fun y hy => hi y (mem_cons_of_mem _ hy)
        rw [hk] at h2
        rw [h2, hg₁.outside i (hi x mem_cons_self)]
      · exact hf (fun y hy => hv y (mem_cons_of_mem _ hy)) (hg₁.spare 0 hs)
      · rcases mem_cons.mp hy with rfl | hy
        · have h1 := hp₁ rfl
          have h2 := hkeep.tables _ (by rw [hk]; exact h1)
          rw [hk] at h2
          rw [h2]
          exact h1
        · have := hp hr y hy
          rw [hk] at this
          exact this

/-- **The kernel's directory, before it has a table.** -/
theorem boot_start (hpmm : Memory.Inv s.pmm) (hout : Out s.pmm d)
    (hslots : s.pagingDirectories = update (fun _ => 0) 0 d)
    (husers : s.userDirectories = fun _ => 0) (hactive : s.stats.activePages = 0)
    (hkernel : s.kernelDirectory = d) (hcurrent : s.currentDirectory = d)
    (hentries : s.entries d = fun _ => DirEntry.zero) : Boot s := by
  have hd0 : d ≠ 0 := hout.ne_zero hpmm
  have hslot : Lib.slotOf maxDirectories (fun _ => 0) 0 = some 0 := rfl
  have hempty : ∀ n x, ¬ Lib.Listed n (fun _ => 0) x := by
    intro n x hc
    obtain ⟨hx, _, _, he⟩ := hc
    exact hx he.symm
  have hdist : ∀ n, Lib.Distinct n fun _ => 0 := fun _ _ _ _ _ _ hc => absurd rfl hc
  have hm : ∀ x, s.Managed x ↔ x = d := by
    intro x
    unfold State.Managed
    rw [hslots, Lib.listed_fill hslot hd0, or_iff_right (hempty _ _)]
  have hu : ∀ x, ¬ s.User x := by
    intro x
    unfold State.User
    rw [husers]
    exact hempty _ _
  have hzero : ∀ x i, s.Managed x → s.entries x i = DirEntry.zero := by
    intro x i hx
    rw [(hm x).mp hx, hentries]
  have hown : ∀ x i, s.Managed x → ¬ s.Own x i := by
    intro x i hx hc
    have := hc.1
    rw [hzero x i hx] at this
    cases this
  have hlive : ∀ u ∈ live s, u = .directory d := by
    intro u hl
    cases u with
    | directory x => rw [(hm x).mp hl]
    | table x i => exact absurd hl.2.2 (hown x i hl.1)
    | frame x i j => exact absurd hl.2.2.1 (hown x i hl.1)
  have hker : s.Managed s.kernelDirectory := (hm _).mpr hkernel
  refine ⟨⟨hpmm, ⟨?_, ?_, hker, hu _, ?_, (hm _).mpr hcurrent, rfl⟩, ?_, ⟨?_, ?_⟩, ?_⟩, hu, ?_⟩
  · rw [hslots]
    exact Lib.distinct_fill (hdist _) (hempty _ _)
  · rw [husers]
    exact hdist _
  · intro x
    refine (hm x).trans ?_
    rw [hkernel]
    exact (or_iff_left (hu x)).symm
  · intro x hx i _
    refine ⟨.inl (hzero x i hx), fun hc => ?_, fun ho => absurd ho (hown x i hx)⟩
    rw [hzero x i hx] at hc
    cases hc
  · intro u hl
    rw [hlive u hl]
    exact hout
  · intro u v hl hl' _
    rw [hlive u hl, hlive v hl']
  · have hnone : frames s = ∅ := by
      rw [Set.eq_empty_iff_forall_notMem]
      intro x hx
      have := hlive (.frame x.1 x.2.1 x.2.2) hx
      cases this
    show s.stats.activePages = (frames s).ncard
    rw [hnone, Set.ncard_empty]
    exact hactive
  · intro i _ hc
    rw [hzero _ i hker] at hc
    cases hc

/-- The statics before `paging_init`: nothing is set up yet. -/
structure Off (s : State) : Prop where
  pmm : Memory.Inv s.pmm
  off : ¬ (s.pagingInitialized = true ∧ s.currentDirectory ≠ 0)

/-- What `paging_init` leaves behind. -/
structure Started (s : State) : Prop where
  inv : Inv s
  alone : ∀ d, ¬ s.User d
  current : s.currentDirectory = s.kernelDirectory

theorem Boot.switch_eq (h : Boot s) : switchDirectory s.kernelDirectory s =
    { s with currentDirectory := s.kernelDirectory, pagingInitialized := true } := by
  have hker := h.inv.registry.kernel
  have hm : s.isManagedDirectory s.kernelDirectory = true := isManagedDirectory_iff.mpr hker
  have hk0 : s.kernelDirectory ≠ 0 := hker.1
  unfold switchDirectory
  rw [if_neg hk0, if_neg (by rw [hm]; decide)]

theorem Boot.started (h : Boot s) : Started (switchDirectory s.kernelDirectory s) := by
  have hker := h.inv.registry.kernel
  rw [h.switch_eq]
  exact ⟨⟨h.inv.pmm, { h.inv.registry with current := hker, ready := rfl },
    fun d hd i hi => { h.inv.entry d hd i hi with }, h.inv.placed, h.inv.active⟩, h.alone, rfl⟩

/-- One of the ranges `paging_init` maps depends on the memory there is. -/
theorem mem_bootRanges {x : Nat × Nat} (hx : x ∈ bootRanges total) :
    x = (Memory.physicalIdentityStart, total) ∨ x ∈ (bootRanges 0).eraseIdx 5 := by
  simp only [bootRanges, eraseIdx, mem_cons] at hx ⊢
  tauto

/-- The ranges end in 32 bits. -/
theorem bootRanges_le (h : total < 4294967296) : ∀ x ∈ bootRanges total, x.2 ≤ 4294967296 := by
  intro x hx
  rcases mem_bootRanges hx with rfl | hx
  · exact le_of_lt h
  · exact (by decide : ∀ x ∈ (bootRanges 0).eraseIdx 5, x.2 ≤ 4294967296) x hx

/-- The state in which `paging_init` starts to map, once it has a directory. -/
def State.bootState (s : State) (d : Nat) (m : MemInfo) : State :=
  { s with
    currentDirectory := d
    kernelDirectory := d
    userDirectories := fun _ => 0
    pagingDirectories := update (fun _ => 0) 0 d
    stats := { UserStats.zero with ready := true }
    entries := update s.entries d fun _ => DirEntry.zero
    pmm := m }

theorem boot_bootState {m : MemInfo} (hg : Gives s.pmm m d) : Boot (s.bootState d m) := by
  exact boot_start hg.inv hg.given rfl rfl rfl rfl rfl (update_self ..)

/-- `paging_init` once a page for the directory is there. -/
theorem pagingInit_eq (h : Off s) :
    (∃ s', pagingInit mode s = (.error .mem, s') ∧ s.pmm.freeSet = ∅) ∨
    ∃ d m, Gives s.pmm m d ∧ pagingInit mode s =
      match mapRanges (bootRanges m.totalMemory) (s.bootState d m) with
      | (.error _, s) => abortInit d .mem s
      | (.ok _, s) => (.ok (), switchDirectory d (match mode with
          | some mode => (mapFramebuffer mode s).2
          | none => s)) := by
  unfold pagingInit
  rw [if_neg h.off]
  dsimp only [createDirectory]
  rcases Memory.allocPage_cases h.pmm .kernel rfl with ⟨ha, hfree⟩ | ⟨d, m, ha, hg⟩
  · rw [ha]
    exact .inl ⟨_, rfl, hfree⟩
  right
  refine ⟨d, m, hg, ?_⟩
  rw [ha]
  dsimp only [State.registerDirectory]
  rw [if_neg hg.ne_zero]
  rfl

theorem boot_mapFramebuffer (h : Boot s) (mode : VesaMode) :
    Boot (mapFramebuffer mode s).2 ∧ (mapFramebuffer mode s).2.kernelDirectory = s.kernelDirectory := by
  unfold mapFramebuffer
  dsimp only
  split
  · exact ⟨h, rfl⟩
  split
  · exact ⟨h, rfl⟩
  split
  · exact ⟨h, rfl⟩
  have hend : (mode.framebuffer + mode.pitch * mode.height + pageSize - 1) / pageSize * pageSize
      ≤ 4294967296 := by
    unfold Memory.maxPhysicalAddress pageSize at *
    omega
  obtain ⟨r, s', he, hb, hg, _⟩ :=
    mapIdentityRangeFast_spec hend h
  rw [he]
  exact ⟨hb, hg.keeps.kernel⟩

/-- **Whatever the memory and the video mode, `paging_init` that succeeds leaves the invariant
behind.** -/
theorem pagingInit_started (h : Off s) (hok : pagingInit mode s = (.ok (), s')) : Started s' := by
  rcases pagingInit_eq h with ⟨s₁, he, _⟩ | ⟨d, m, hg, he⟩
  · rw [he] at hok
    cases hok
  rw [he] at hok
  obtain ⟨r, s₁, hr, hb, hk, _⟩ := mapRanges_spec (bootRanges m.totalMemory) (boot_bootState hg)
    (bootRanges_le hg.inv.total_lt)
  have hd : s₁.kernelDirectory = d := hk.kernel
  rw [hr] at hok
  cases r with
  | error e => exact absurd (congrArg Prod.fst hok) (by simp [abortInit])
  | ok _ =>
    have hs' := congrArg Prod.snd hok
    dsimp only at hs'
    rw [← hs']
    cases mode with
    | none =>
      rw [← hd]
      exact hb.started
    | some mode =>
      obtain ⟨hb', hk'⟩ := boot_mapFramebuffer hb mode
      rw [← hd, ← hk']
      exact hb'.started

/-- **With enough pages for every table, `paging_init` succeeds**: entry 0 has a table, entry
2 has none, and what the tables can not have taken is left. -/
theorem pagingInit_of_free {n : Nat} (h : Off s) (hfree : 1025 + n ≤ s.pmm.freeSet.card)
    (htotal : Memory.physicalIdentityStart < s.pmm.totalMemory) :
    ∃ s', pagingInit none s = (.ok (), s') ∧ Started s' ∧
      (s'.entries s'.kernelDirectory 0).present = true ∧
      s'.entries s'.kernelDirectory 2 = DirEntry.zero ∧ n ≤ s'.pmm.freeSet.card := by
  rcases pagingInit_eq h with ⟨s₁, _, hno⟩ | ⟨d, m, hg, he⟩
  · rw [hno, Finset.card_empty] at hfree
    omega
  have hb₀ := boot_bootState hg
  have htot : m.totalMemory = s.pmm.totalMemory := hg.totalMemory
  have hmod := hg.inv.total
  have hspare : Spare n (s.bootState d m) := by
    have h1 : (absent (s.bootState d m)).card ≤ 1024 := by
      have := Finset.card_filter_le (Finset.range tableEntries)
        fun i => ((s.bootState d m).entries (s.bootState d m).kernelDirectory i).present = false
      rwa [Finset.card_range] at this
    have h2 : (s.bootState d m).pmm.freeSet.card = s.pmm.freeSet.card - 1 := hg.card_freeSet
    unfold Spare
    omega
  obtain ⟨r, s₁, hr, hb, hk, hsp, hout, hf, hp⟩ := mapRanges_spec (bootRanges m.totalMemory) hb₀
    (bootRanges_le hg.inv.total_lt)
  have hvalid : ∀ x ∈ bootRanges m.totalMemory, ValidRange x := by
    intro x hx
    rcases mem_bootRanges hx with rfl | hx
    · refine ⟨by rw [htot]; exact htotal, (by decide : Memory.physicalIdentityStart % pageSize = 0), ?_⟩
      rw [hmod, mul_mod_left]
    · exact (by decide : ∀ x ∈ (bootRanges 0).eraseIdx 5,
        x.1 < x.2 ∧ x.1 % pageSize = 0 ∧ x.2 % pageSize = 0) x hx
  have hrok : r = .ok () := hf hvalid (by unfold Spare at *; omega)
  subst hrok
  have hd : s₁.kernelDirectory = d := hk.kernel
  have hcounted := hsp n hspare
  have hkernel : (Memory.kernelStart, Memory.kernelEnd) ∈ bootRanges m.totalMemory := by
    simp [bootRanges]
  refine ⟨switchDirectory s₁.kernelDirectory s₁, ?_, hb.started, ?_, ?_, ?_⟩
  · rw [he, hr, hd]
  · rw [hb.switch_eq]
    have := hp rfl _ hkernel
    rwa [← hk.kernel] at this
  · -- no range of memory reaches into the window kept for the user
    have hwin : ∀ x ∈ bootRanges m.totalMemory, 2 < tableIndex x.1 ∨ tableIndex (x.2 - 1) < 2 := by
      intro x hx
      rcases mem_bootRanges hx with rfl | hx
      · exact .inl (by decide : 2 < tableIndex Memory.physicalIdentityStart)
      · exact (by decide : ∀ x ∈ (bootRanges 0).eraseIdx 5,
          2 < tableIndex x.1 ∨ tableIndex (x.2 - 1) < 2) x hx
    have := hout 2 hwin
    rw [hb.switch_eq]
    rw [hk.kernel, this]
    show update s.entries d (fun _ => DirEntry.zero) d 2 = _
    rw [update_self]
  · rw [hb.switch_eq]
    unfold Spare at hcounted
    show n ≤ s₁.pmm.freeSet.card
    omega

end ZephyrOS.Paging
