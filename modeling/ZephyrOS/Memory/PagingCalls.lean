import ZephyrOS.Memory.PagingProof

/-!
# What each call does

One lemma for each call of `paging.c`, in terms of the changes of `PagingProof`: a page
is looked up or a table added for it, a page is mapped, a page is unmapped, a user
directory comes. What the calls never do is part of the lemmas: no call takes an entry
away from the kernel's directory.
-/

namespace ZephyrOS.Paging

open ZephyrOS.Memory (pageSize MemInfo MemoryZone Out Gives Takes)

open List

variable {v i virtual d : Nat} {s : State} {j : Nat} {c : Bool} {e : DirEntry} {m : MemInfo} {t : Nat}
  {create : Int} {flags physical : Nat} {s₁ : State}

theorem tableIndex_lt (h : v < 4294967296) : tableIndex v < tableEntries := by
  unfold tableIndex tableEntries pageSize
  omega

theorem tableIndex_lt_of_user (h : v < userSpaceEnd) : tableIndex v < tableEntries :=
  tableIndex_lt (lt_trans h (by decide))

theorem pageIndex_lt (v : Nat) : pageIndex v < tableEntries := Nat.mod_lt _ (by decide)

/-- The user's window is entries 2 and 3 of a directory. -/
theorem window_iff (hj : j < tableEntries) :
    (userSpaceStart ≤ (i * tableEntries + j) * pageSize
      ∧ (i * tableEntries + j) * pageSize < userSpaceEnd) ↔ i = 2 ∨ i = 3 := by
  unfold userSpaceStart userSpaceEnd tableEntries pageSize at *
  omega

theorem tableIndex_window (h1 : userSpaceStart ≤ v) (h2 : v < userSpaceEnd) :
    tableIndex v = 2 ∨ tableIndex v = 3 := by
  unfold tableIndex userSpaceStart userSpaceEnd tableEntries pageSize at *
  omega

/-- What a call keeps for everyone: the kernel's tables stay where they are, the kernel's
directory and the current one stay the same. -/
structure Keeps (s s' : State) : Prop where
  kernel : s'.kernelDirectory = s.kernelDirectory
  current : s'.currentDirectory = s.currentDirectory
  tables : ∀ i, (s.entries s.kernelDirectory i).present = true →
    s'.entries s.kernelDirectory i = s.entries s.kernelDirectory i

theorem Keeps.refl : Keeps s s := ⟨rfl, rfl, fun _ _ => rfl⟩

theorem Keeps.trans {s' s'' : State} (h : Keeps s s') (h' : Keeps s' s'') : Keeps s s'' := by
  refine ⟨h'.kernel.trans h.kernel, h'.current.trans h.current, fun i hi => ?_⟩
  have h1 := h.tables i hi
  have h2 := h'.tables i (by rw [h.kernel, h1]; exact hi)
  rw [h.kernel] at h2
  rw [h2, h1]

/-! ### Looking a page up -/

/-- An allocation that failed, or a page handed out and freed at once. -/
theorem Inv.failed (h : Inv s) : Inv { s with pmm := s.pmm.countAllocationFailure } :=
  h.with_pmm { h.pmm with } fun _ hu => h.placed.out hu

/-- **All that looking up a new table's page can do.** -/
theorem newTable_spec (h : Memory.Inv s.pmm) (zone : MemoryZone)
    (hz : Memory.pmmZoneIsAllocatable zone = true) (d i : Nat) :
    (newTable zone d i s = (none, { s with pmm := s.pmm.countAllocationFailure }) ∧
      s.pmm.freeSet = ∅) ∨
    ∃ t m, newTable zone d i s = (some t, s.withTable d i t m) ∧ Gives s.pmm m t := by
  unfold newTable
  rcases Memory.allocPage_cases h zone hz with ⟨ha, hfree⟩ | ⟨t, m, ha, hg⟩
  · left
    rw [ha]
    exact ⟨rfl, hfree⟩
  right
  refine ⟨t, m, ?_, hg⟩
  have hmul : t / pageSize * pageSize = t := Nat.div_mul_cancel (Nat.dvd_of_mod_eq_zero hg.aligned)
  rw [ha]
  simp only [buildTableEntry, hmul, if_neg hg.ne_zero]
  rfl

/-- All that `paging_get_page_in_directory` can do: nothing but count a failed allocation,
find the page's table, make one. -/
inductive Got (s : State) (d virtual : Nat) (create : Int) : Option (Nat × Nat) × State → Prop
  | refused : Got s d virtual create (none, s)
  | failed : Got s d virtual create (none, { s with pmm := s.pmm.countAllocationFailure })
  | found : s.Managed d → (s.entries d (tableIndex virtual)).present = true →
      Got s d virtual create (some ((s.entries d (tableIndex virtual)).table, pageIndex virtual), s)
  | made {t : Nat} {m : MemInfo} : s.Managed d →
      (s.entries d (tableIndex virtual)).present = false → Gives s.pmm m t →
      Got s d virtual create (some (t, pageIndex virtual), s.withTable d (tableIndex virtual) t m)

theorem zone_allocatable :
    Memory.pmmZoneIsAllocatable (if c then MemoryZone.process else MemoryZone.kernel) = true := by
  split <;> rfl

theorem getPage_cases (h : Inv s) (d : Nat) (create : Int) (hv : virtual < 4294967296) :
    Got s d virtual create (getPageInDirectory d virtual create s) := by
  refine iteInduction (fun _ => .refused) fun _ => ?_
  refine iteInduction (fun _ => .refused) fun hm => ?_
  have hmd : s.Managed d := isManagedDirectory_iff.mp (by simpa using hm)
  refine iteInduction (fun _ => .refused) fun _ => ?_
  refine iteInduction (fun _ => .refused) fun _ => ?_
  dsimp only
  refine iteInduction (fun hp => ?_) fun hp => ?_
  · -- the table is there, and is not null
    rw [if_neg ((h.entry d hmd _ (tableIndex_lt hv)).table_ne_zero hp)]
    exact .found hmd hp
  refine iteInduction (fun _ => .refused) fun _ => ?_
  rcases newTable_spec h.pmm _ zone_allocatable d (tableIndex virtual) with
    ⟨he, _⟩ | ⟨t, m, he, hg⟩
  · rw [he]
    exact .failed
  · rw [he]
    exact .made hmd (by simpa using hp) hg

/-- Looking a page up without making a table for it. -/
theorem getPage_lookup (h : Inv s) (hd : s.Managed d) (hv : virtual < 4294967296) :
    (getPageInDirectory d virtual 0 s).1 =
      if (s.entries d (tableIndex virtual)).present then
        some ((s.entries d (tableIndex virtual)).table, pageIndex virtual)
      else none := by
  unfold getPageInDirectory
  rw [if_neg hd.1, if_neg (by simpa using isManagedDirectory_iff.mpr hd), if_neg (by decide),
    if_neg (by omega)]
  by_cases hp : (s.entries d (tableIndex virtual)).present = true
  · rw [if_pos hp, if_pos hp, if_neg ((h.present_out hd (tableIndex_lt hv) hp).ne_zero h.pmm)]
  · rw [if_neg hp, if_neg hp, if_pos rfl]

/-- A missing table is made, as long as a page is free. -/
theorem getPage_new (h : Memory.Inv s.pmm) (hd : s.Managed d) (hv : userSpaceStart ≤ virtual)
    (hp : (s.entries d (tableIndex virtual)).present = false) (hfree : s.pmm.freeSet.Nonempty) :
    ∃ t m, getPageInDirectory d virtual 1 s =
        (some (t, pageIndex virtual), s.withTable d (tableIndex virtual) t m) ∧
      Gives s.pmm m t := by
  unfold getPageInDirectory
  rw [if_neg hd.1, if_neg (by simpa using isManagedDirectory_iff.mpr hd), if_neg (by decide),
    if_neg (by omega)]
  dsimp only
  rw [hp]
  rcases newTable_spec h _ zone_allocatable d (tableIndex virtual) with
    ⟨_, hnone⟩ | ⟨t, m, he, hg⟩
  · exact absurd hnone hfree.ne_empty
  · rw [he]
    exact ⟨t, m, rfl, hg⟩

theorem keeps_withTable (he : (s.entries d i).present = false) : Keeps s (s.withTable d i t m) := by
  refine ⟨rfl, rfl, fun i' hi' => ?_⟩
  rw [withTable_entries, if_neg (withTable_keep he hi')]

/-- **`paging_get_page_in_directory` keeps the invariant.** -/
theorem getPage_inv (h : Inv s) (hv : virtual < 4294967296) :
    Inv (getPageInDirectory d virtual create s).2
      ∧ Keeps s (getPageInDirectory d virtual create s).2 := by
  have hcases := getPage_cases h d create hv
  generalize getPageInDirectory d virtual create s = r at hcases ⊢
  cases hcases with
  | refused => exact ⟨h, .refl⟩
  | failed => exact ⟨h.failed, rfl, rfl, fun _ _ => rfl⟩
  | found _ _ => exact ⟨h, .refl⟩
  | made hd hp hg => exact ⟨h.newTable hd (tableIndex_lt hv) hp hg, keeps_withTable hp⟩

/-! ### Mapping -/

/-- The state with a user page added to the table under `d`'s entry for it. -/
def State.withUserPage (s : State) (d virtual physical : Nat) (w : Bool) : State :=
  (s.setPage (s.entries d (tableIndex virtual)).table (pageIndex virtual)
    ⟨physical / pageSize, true, w, true⟩).countPage

/-- `s₁` is `s` with a table under entry `i` of `d` that is open to the user: it was there,
or it is new. -/
inductive Opened (s : State) (d i : Nat) : State → Prop
  | old : (s.entries d i).present = true → (s.entries d i).user = true → Opened s d i s
  | new {t : Nat} {m : MemInfo} : (s.entries d i).present = false → Gives s.pmm m t →
      Opened s d i ((s.withTable d i t m).openEntry d i)

/-- All a mapping can do: nothing but count a failed allocation, map a user page, map a
supervisor page. -/
inductive Mapped (s : State) (d virtual physical flags : Nat) :
    Except Err Unit × State → Prop
  | refused (e : Err) : Mapped s d virtual physical flags (.error e, s)
  | failed : Mapped s d virtual physical flags
      (.error .mem, { s with pmm := s.pmm.countAllocationFailure })
  | user {s₁ : State} : hasFlag flags flagUser = true → s.User d → userSpaceStart ≤ virtual →
      virtual < userSpaceEnd → Opened s d (tableIndex virtual) s₁ →
      (s₁.pages (s₁.entries d (tableIndex virtual)).table (pageIndex virtual)).present = false →
      Mapped s d virtual physical flags
        (.ok (), s₁.withUserPage d virtual physical (hasFlag flags flagWrite))
  | supervisor (w : Bool) {s₁ : State} : hasFlag flags flagUser = false → ¬ s.User d →
      s.Managed d →
      (s₁ = s ∧ (s.entries d (tableIndex virtual)).present = true ∨
        ∃ t m, (s.entries d (tableIndex virtual)).present = false ∧ Gives s.pmm m t ∧
          s₁ = s.withTable d (tableIndex virtual) t m) →
      Mapped s d virtual physical flags
        (.ok (), s₁.setPage (s₁.entries d (tableIndex virtual)).table (pageIndex virtual)
          ⟨physical / pageSize, true, w, false⟩)

/-- A user page in a table that is new: the entry is opened. -/
theorem finishMap_new
    (hf : hasFlag flags flagUser = true) (hp : (s.entries d (tableIndex virtual)).present = false) :
    finishMap d (tableIndex virtual) (s.entries d (tableIndex virtual)) t (pageIndex virtual)
        physical flags (s.withTable d (tableIndex virtual) t m) =
      (.ok (), ((s.withTable d (tableIndex virtual) t m).openEntry d (tableIndex virtual)).withUserPage
        d virtual physical (hasFlag flags flagWrite)) := by
  have hz : (s.withTable d (tableIndex virtual) t m).pages t (pageIndex virtual) = PageEntry.zero := by
    rw [withTable_pages, if_pos rfl]
  have htab : (((s.withTable d (tableIndex virtual) t m).openEntry d (tableIndex virtual)).entries
      d (tableIndex virtual)).table = t := by
    rw [(openEntry_entries ..).1, withTable_entries, if_pos ⟨rfl, rfl⟩]
  unfold finishMap State.withUserPage
  rw [if_neg (fun hc => by rw [hz] at hc; exact absurd hc.2 (by decide)), htab]
  dsimp only
  rw [if_pos hf, if_pos ⟨by rw [hp]; rfl, hf⟩, hf]

theorem mapPage_cases (h : Inv s) (d : Nat) (physical flags : Nat) (hv : virtual < 4294967296) :
    Mapped s d virtual physical flags (mapPageInDirectory d virtual physical flags s) := by
  refine iteInduction (fun _ => .refused _) fun _ => ?_
  refine iteInduction (fun _ => .refused _) fun _ => ?_
  refine iteInduction (fun _ => .refused _) fun _ => ?_
  refine iteInduction (fun _ => .refused _) fun hwin => ?_
  refine iteInduction (fun _ => .refused _) fun hreg => ?_
  refine iteInduction (fun _ => .refused _) fun hsup => ?_
  refine iteInduction (fun _ => .refused _) fun hclosed => ?_
  have hget := getPage_cases h d 1 hv
  generalize getPageInDirectory d virtual 1 s = r at hget ⊢
  by_cases hf : hasFlag flags flagUser = true
  · -- a user page: the entry is empty or open, so the table is new or open
    have hud : s.User d := by
      rw [← isRegisteredUserDirectory_iff]
      by_contra hc
      exact hreg ⟨hf, by simpa using hc⟩
    have hlo : userSpaceStart ≤ virtual ∧ virtual < userSpaceEnd := by
      by_contra hc
      exact hwin ⟨hf, by omega⟩
    cases hget with
    | refused => exact .refused _
    | failed => exact .failed
    | found hmd hp =>
      refine iteInduction (fun _ => .refused _) fun hpp => ?_
      have hopen : (s.entries d (tableIndex virtual)).user = true := by
        by_contra hc
        refine hclosed ⟨hf, fun hz => ?_, by simpa using hc⟩
        rw [hz] at hp
        cases hp
      dsimp only
      rw [if_pos hf, if_neg (by rw [hp]; simp), hf]
      exact .user hf hud hlo.1 hlo.2 (.old hp hopen) (by simpa [hf] using hpp)
    | @made t m hmd hp hg =>
      dsimp only
      rw [finishMap_new hf hp]
      refine .user hf hud hlo.1 hlo.2 (Opened.new hp hg) ?_
      rw [(openEntry_entries ..).1, withTable_entries, if_pos ⟨rfl, rfl⟩]
      show ((s.withTable d (tableIndex virtual) t m).pages t (pageIndex virtual)).present = false
      rw [withTable_pages, if_pos rfl]
      rfl
  · -- a supervisor page, in a directory that is not a user's
    have hfalse : hasFlag flags flagUser = false := by simpa using hf
    have hnu : ¬ s.User d := by
      intro hc
      exact hsup ⟨isRegisteredUserDirectory_iff.mpr hc, by rw [hfalse]; rfl⟩
    have hfin : ∀ s₁ t j,
        finishMap d (tableIndex virtual) (s.entries d (tableIndex virtual)) t j physical flags s₁ =
          (.ok (), s₁.setPage t j ⟨physical / pageSize, true, hasFlag flags flagWrite, false⟩) := by
      intro s₁ t j
      unfold finishMap
      rw [if_neg (fun hc => hf hc.1)]
      dsimp only
      rw [if_neg hf, if_neg (fun hc => hf hc.2), hfalse]
    cases hget with
    | refused => exact .refused _
    | failed => exact .failed
    | found hmd hp =>
      dsimp only
      rw [hfin]
      exact .supervisor _ hfalse hnu hmd (.inl ⟨rfl, hp⟩)
    | @made t m hmd hp hg =>
      dsimp only
      rw [hfin]
      have hmapped : Mapped s d virtual physical flags _ :=
        .supervisor (hasFlag flags flagWrite) hfalse hnu hmd (.inr ⟨t, m, hp, hg, rfl⟩)
      rw [withTable_entries, if_pos ⟨rfl, rfl⟩] at hmapped
      exact hmapped

/-- The first user page under an empty entry is mapped, as long as a page is free for the
table, whatever the frame. -/
theorem mapPage_new (h : Inv s) (hd : s.User d) (hal : virtual % pageSize = 0)
    (hpal : physical % pageSize = 0) (hlo : userSpaceStart ≤ virtual)
    (hhi : virtual < userSpaceEnd) (he : s.entries d (tableIndex virtual) = DirEntry.zero)
    (hfree : s.pmm.freeSet.Nonempty) : ∃ t m, mapPageInDirectory d virtual physical 7 s =
        (.ok (), ((s.withTable d (tableIndex virtual) t m).openEntry d
          (tableIndex virtual)).withUserPage d virtual physical true) ∧
      Gives s.pmm m t := by
  have hp : (s.entries d (tableIndex virtual)).present = false := by
    rw [he]
    rfl
  obtain ⟨t, m, hget, hg⟩ := getPage_new h.pmm (h.managed_of_user hd) hlo hp hfree
  have hreg := isRegisteredUserDirectory_iff.mpr hd
  refine ⟨t, m, ?_, hg⟩
  unfold mapPageInDirectory
  rw [if_neg hd.1, if_neg (by omega), if_neg (by decide), if_neg (by omega),
    if_neg (by simp [hreg]), if_neg (fun hc => absurd hc.2 (by decide))]
  rw [if_neg (fun hc => hc.2.1 he), hget]
  exact finishMap_new (by decide) hp

/-- **A table open to the user**, old or new, keeps the invariant; the frame the caller
lends is still nobody's. -/
theorem Opened.inv (h : Inv s) (hd : s.User d) (hw : i = 2 ∨ i = 3) (ho : Opened s d i s₁) :
    Inv s₁ ∧ Keeps s s₁ ∧ s₁.User d ∧ s₁.Own d i ∧ (s₁.entries d i).user = true ∧
      (∀ b, Out s.pmm b → Out s₁.pmm b) ∧
      ∀ a, Out s.pmm a → (∀ u ∈ live s, address s u ≠ a) → ∀ u ∈ live s₁, address s₁ u ≠ a := by
  have hi : i < tableEntries := by
    unfold tableEntries
    omega
  have hmd := h.managed_of_user hd
  cases ho with
  | old hp hu =>
    exact ⟨h, .refl, hd, ((h.entry d hmd i hi).window hu).2.1, hu, fun _ hb => hb,
      fun _ _ hown => hown⟩
  | @new t m hp hg =>
    have hnew := h.newTable hmd hi hp hg
    have hown := (withTable_own h hmd hi hp hg hmd hi).mpr (.inr ⟨rfl, rfl⟩)
    have hopen := hnew.openTable hd hown hw
    have hkeep : Keeps (s.withTable d i t m) ((s.withTable d i t m).openEntry d i) := by
      refine ⟨rfl, rfl, fun i' _ => ?_⟩
      unfold State.openEntry
      rw [setEntry_entries, if_neg]
      exact fun hc => h.ne_kernel hd hc.1.symm
    refine ⟨hopen, (keeps_withTable hp).trans hkeep, hd, (openEntry_own ..).mpr hown, ?_,
      hg.keeps, fun a ha hfree v hv => ?_⟩
    · rw [(openEntry_entries ..).2.2]
      simp
    · -- the table's page is new, the frame is not
      rw [openEntry_live] at hv
      rw [openEntry_address]
      rcases (withTable_live h hmd hi hp hg v).mp hv with hv | rfl
      · rw [withTable_address h hmd hi hp hg hv]
        exact hfree v hv
      show ((s.withTable d i t m).entries d i).table ≠ a
      rw [withTable_entries, if_pos ⟨rfl, rfl⟩]
      intro hc
      have hc : t = a := hc
      exact hg.fresh (hc ▸ ha)

/-- The page at `a` is the caller's: it is out, and paging uses it for nothing. -/
def Lent (s : State) (a : Nat) : Prop := Out s.pmm a ∧ ∀ u ∈ live s, address s u ≠ a

/-- **`paging_map_page_in_directory` keeps the invariant**, if the frame of a user page is the
caller's to give. -/
theorem mapPage_inv (h : Inv s) (d : Nat) (physical flags : Nat) (hv : virtual < 4294967296)
    (hlent : hasFlag flags flagUser = true → Lent s physical) :
    Inv (mapPageInDirectory d virtual physical flags s).2 ∧
      Keeps s (mapPageInDirectory d virtual physical flags s).2 := by
  have hi := tableIndex_lt hv
  have hcases := mapPage_cases h d physical flags hv
  generalize mapPageInDirectory d virtual physical flags s = r at hcases ⊢
  cases hcases with
  | refused e => exact ⟨h, .refl⟩
  | failed => exact ⟨h.failed, rfl, rfl, fun _ _ => rfl⟩
  | user hf hud hlo hhi hopen hfree =>
    obtain ⟨h1, hk, hud', hown, hopened, hout, hmine⟩ := hopen.inv h hud (tableIndex_window hlo hhi)
    obtain ⟨ho, hu⟩ := hlent hf
    have hres := h1.mapFrame (h1.managed_of_user hud') hi hown hopened
      (w := hasFlag flags flagWrite) (pageIndex_lt virtual) hfree (hout _ ho) (hmine _ ho hu)
    exact ⟨hres, hk.trans ⟨rfl, rfl, fun _ _ => rfl⟩⟩
  | supervisor w hf hnu hmd hs₁ =>
    have hdk : d = s.kernelDirectory := ((h.registry.all d).mp hmd).resolve_right hnu
    have hclosed : ∀ {s₁ : State}, Inv s₁ → s₁.kernelDirectory = s.kernelDirectory →
        s₁.userDirectories = s.userDirectories → s₁.Managed d →
        (s₁.entries d (tableIndex virtual)).present = true →
        Inv (s₁.setPage (s₁.entries d (tableIndex virtual)).table (pageIndex virtual)
          ⟨physical / pageSize, true, w, false⟩) := by
      intro s₁ h1 hk hus hm hp
      have hcl : (s₁.entries d (tableIndex virtual)).user = false := by
        by_contra hc
        have := ((h1.entry d hm _ hi).window (by simpa using hc)).1
        unfold State.User at this
        rw [hus] at this
        exact hnu this
      exact h1.setSupervisorPage hm hi ⟨hp, .inl (by rw [hk]; exact hdk)⟩ hcl rfl
    rcases hs₁ with ⟨rfl, hp⟩ | ⟨t, m, hp, hg, rfl⟩
    · exact ⟨hclosed h rfl rfl hmd hp, rfl, rfl, fun _ _ => rfl⟩
    · have hnew := h.newTable hmd hi hp hg
      refine ⟨hclosed hnew rfl rfl hmd ?_, (keeps_withTable hp).trans ⟨rfl, rfl, fun _ _ => rfl⟩⟩
      rw [withTable_entries, if_pos ⟨rfl, rfl⟩]

theorem Opened.frames_eq (h : Inv s) (hd : s.Managed d) (hi : i < tableEntries)
    (ho : Opened s d i s₁) : frames s₁ = frames s := by
  cases ho with
  | old _ _ => rfl
  | new hp hg =>
    unfold frames
    rw [openEntry_live]
    exact frames_withTable h hd hi hp hg

/-- **A user mapping adds its page and no other, or it changes no table.** -/
theorem mapUserPage_effect (h : Inv s) (d : Nat) {a : Nat} (hv : virtual < 4294967296)
    (hf : hasFlag flags flagUser = true) (hlent : Lent s a) :
    (∃ e m, mapPageInDirectory d virtual a flags s = (.error e, { s with pmm := m }) ∧
      Memory.Inv m ∧ ∀ b, Out m b ↔ Out s.pmm b) ∨
    ∃ s', mapPageInDirectory d virtual a flags s = (.ok (), s') ∧ Inv s' ∧
      s'.userDirectories = s.userDirectories ∧
      frames s' = insert (d, tableIndex virtual, pageIndex virtual) (frames s) := by
  have hinv := (mapPage_inv h d a flags hv fun _ => hlent).1
  have hcases := mapPage_cases h d a flags hv
  generalize mapPageInDirectory d virtual a flags s = r at hcases hinv ⊢
  cases hcases with
  | refused e => exact .inl ⟨e, s.pmm, rfl, h.pmm, fun _ => .rfl⟩
  | failed => exact .inl ⟨_, _, rfl, { h.pmm with }, fun _ => .rfl⟩
  | user _ hud hlo hhi hopen _ =>
    have hi := tableIndex_lt hv
    obtain ⟨h1, _, hud', hown, _⟩ := hopen.inv h hud (tableIndex_window hlo hhi)
    refine .inr ⟨_, rfl, hinv, ?_, ?_⟩
    · cases hopen <;> rfl
    · rw [← hopen.frames_eq h (h.managed_of_user hud) hi]
      exact h1.frames_setPage (h1.managed_of_user hud') hi hown (pageIndex_lt virtual) _ _
  | supervisor w hnf => exact absurd hf (by rw [hnf]; decide)

/-! ### Unmapping -/

/-- All an unmapping can do: nothing, or take a user page away, and with the last one its
table. -/
inductive Unmapped (s : State) (d virtual : Nat) : Except Err Unit × State → Prop
  | refused (e : Err) : Unmapped s d virtual (.error e, s)
  | page {t : Nat} : s.User d → userSpaceStart ≤ virtual → virtual < userSpaceEnd →
      t = (s.entries d (tableIndex virtual)).table → s.Own d (tableIndex virtual) →
      s.UserPage t (pageIndex virtual) →
      Unmapped s d virtual (.ok (), s.withoutPage t (pageIndex virtual))
  | table {t : Nat} : s.User d → userSpaceStart ≤ virtual → virtual < userSpaceEnd →
      t = (s.entries d (tableIndex virtual)).table → s.Own d (tableIndex virtual) →
      s.UserPage t (pageIndex virtual) →
      (∀ j < tableEntries, ((s.withoutPage t (pageIndex virtual)).pages t j).present = false) →
      Unmapped s d virtual (.ok (), ((s.withoutPage t (pageIndex virtual)).setEntry d
        (tableIndex virtual) DirEntry.zero).freePage t)

/-- The end of `paging_unmap_user_page_in_directory`, once the page is found. -/
def State.dropPage (s : State) (d i t j : Nat) : State :=
  if t ≠ ((s.withoutPage t j).sharedEntry i).table ∧ (s.withoutPage t j).tableIsEmpty t then
    ((s.withoutPage t j).setEntry d i DirEntry.zero).freePage t
  else s.withoutPage t j

theorem unmap_eq (hd : s.User d) (hal : virtual % pageSize = 0) (hlo : userSpaceStart ≤ virtual)
    (hhi : virtual < userSpaceEnd) (hp : (s.entries d (tableIndex virtual)).present = true)
    (hu : (s.entries d (tableIndex virtual)).user = true)
    (ht : (s.entries d (tableIndex virtual)).table ≠ 0)
    (hup : s.UserPage (s.entries d (tableIndex virtual)).table (pageIndex virtual)) :
    unmapUserPageInDirectory d virtual s = (.ok (), s.dropPage d (tableIndex virtual)
      (s.entries d (tableIndex virtual)).table (pageIndex virtual)) := by
  unfold unmapUserPageInDirectory
  rw [if_neg hd.1, if_neg (by simpa using isRegisteredUserDirectory_iff.mpr hd), if_neg (by omega)]
  rw [if_neg (by rw [hp, hu]; decide), if_neg ht, if_neg (by rw [hup.1, hup.2]; decide)]
  unfold State.dropPage
  rw [apply_ite (Prod.mk (.ok () : Except Err Unit))]
  rfl

theorem unmap_cases (h : Inv s) (d virtual : Nat) :
    Unmapped s d virtual (unmapUserPageInDirectory d virtual s) := by
  refine iteInduction (fun _ => .refused _) fun _ => ?_
  refine iteInduction (fun _ => .refused _) fun hreg => ?_
  refine iteInduction (fun _ => .refused _) fun hbad => ?_
  dsimp only
  refine iteInduction (fun _ => .refused _) fun hent => ?_
  refine iteInduction (fun _ => .refused _) fun _ => ?_
  refine iteInduction (fun _ => .refused _) fun hup => ?_
  -- the page is there, in a table that is open to the user and so the directory's own
  rw [not_or, Bool.not_eq_true', Bool.not_eq_true', Bool.not_eq_false, Bool.not_eq_false] at hent hup
  have hd : s.User d := isRegisteredUserDirectory_iff.mp (by simpa using hreg)
  have hlo : userSpaceStart ≤ virtual := by omega
  have hhi : virtual < userSpaceEnd := by omega
  have hown := ((h.entry d (h.managed_of_user hd) _ (tableIndex_lt_of_user hhi)).window hent.2).2.1
  refine iteInduction (fun hlast => ?_) fun _ => .page hd hlo hhi rfl hown hup
  refine .table hd hlo hhi rfl hown hup fun j hj => ?_
  simpa [State.withoutPage] using all_eq_true.mp hlast.2 j (mem_range.mpr hj)

theorem keeps_setEntry (hd : d ≠ s.kernelDirectory) : Keeps s ((s.setEntry d i e).freePage t) := by
  refine ⟨rfl, rfl, fun i' _ => ?_⟩
  show (s.setEntry d i e).entries _ i' = _
  rw [setEntry_entries, if_neg (fun hc => hd hc.1.symm)]

/-- A table without a page in it is taken away. -/
theorem Inv.dropEmpty (h : Inv s₁) (hk : Keeps s s₁) (hd : s₁.User d) (hi : i < tableEntries)
    (ho : s₁.Own d i) (he : ∀ j < tableEntries, (s₁.pages (s₁.entries d i).table j).present = false) :
    Inv ((s₁.setEntry d i DirEntry.zero).freePage (s₁.entries d i).table) ∧
      Keeps s ((s₁.setEntry d i DirEntry.zero).freePage (s₁.entries d i).table) := by
  refine ⟨h.dropTable hd hi ho fun j hj hc => ?_, hk.trans (keeps_setEntry (h.ne_kernel hd))⟩
  rw [State.UserPage, he j hj] at hc
  exact absurd hc.1 (by decide)

/-- **`paging_unmap_user_page_in_directory` keeps the invariant.** -/
theorem unmap_inv (h : Inv s) (d virtual : Nat) : Inv (unmapUserPageInDirectory d virtual s).2 ∧
      Keeps s (unmapUserPageInDirectory d virtual s).2 := by
  have hcases := unmap_cases h d virtual
  generalize unmapUserPageInDirectory d virtual s = r at hcases ⊢
  cases hcases with
  | refused e => exact ⟨h, .refl⟩
  | page hud hlo hhi ht hown hup =>
    subst ht
    have hi := tableIndex_lt_of_user hhi
    exact ⟨h.unmapFrame (h.managed_of_user hud) hi hown (pageIndex_lt virtual) hup, rfl, rfl,
      fun _ _ => rfl⟩
  | table hud hlo hhi ht hown hup hempty =>
    subst ht
    have hi := tableIndex_lt_of_user hhi
    have h1 := h.unmapFrame (h.managed_of_user hud) hi hown (pageIndex_lt virtual) hup
    exact h1.dropEmpty ⟨rfl, rfl, fun _ _ => rfl⟩ hud hi hown hempty

/-- An unmapping empties entries, and fills none. -/
theorem dropPage_entries (s : State) (d i t j d' i' : Nat) :
    (s.dropPage d i t j).entries d' i' = s.entries d' i' ∨
      (s.dropPage d i t j).entries d' i' = DirEntry.zero := by
  unfold State.dropPage
  split
  · show ((s.withoutPage t j).setEntry d i DirEntry.zero).entries d' i' = _ ∨
      ((s.withoutPage t j).setEntry d i DirEntry.zero).entries d' i' = _
    rw [setEntry_entries]
    split
    · exact .inr rfl
    · exact .inl rfl
  · exact .inl rfl

theorem dropPage_pages (s : State) (d i t j t' j' : Nat) :
    (s.dropPage d i t j).pages t' j' = s.pages t' j' ∨
      (s.dropPage d i t j).pages t' j' = PageEntry.zero := by
  have hset : (s.dropPage d i t j).pages t' j' = (s.setPage t j PageEntry.zero).pages t' j' := by
    unfold State.dropPage
    split <;> rfl
  rw [hset, setPage_pages]
  split
  · exact .inr rfl
  · exact .inl rfl

theorem dropPage_users : (s.dropPage d i t j).userDirectories = s.userDirectories := by
  unfold State.dropPage
  split <;> rfl

/-- **An unmapping takes its page away and no other.** -/
theorem frames_dropPage (h : Inv s) (hd : s.User d) (hi : i < tableEntries)
    (ho : s.Own d i) (hj : j < tableEntries) (hup : s.UserPage (s.entries d i).table j) :
    frames (s.dropPage d i (s.entries d i).table j) = frames s \ {(d, i, j)} := by
  have hmd := h.managed_of_user hd
  have hclear : frames (s.withoutPage (s.entries d i).table j) = frames s \ {(d, i, j)} :=
    h.frames_clearPage hmd hi ho j
  unfold State.dropPage
  split
  · rename_i hlast
    have h1 := h.unmapFrame hmd hi ho hj hup
    rw [← hclear]
    refine h1.frames_clearEntry hd fun j' hj' hc => ?_
    have hall := all_eq_true.mp hlast.2 j' (mem_range.mpr hj')
    have hp : ((s.withoutPage (s.entries d i).table j).pages (s.entries d i).table j').present
      = true := hc.1
    rw [hp] at hall
    cases hall
  · exact hclear

end ZephyrOS.Paging
