import ZephyrOS.Memory.PagingInit

/-!
# Every history of the page tables

After `paging_init` any directory, any address and any flags may be passed to any call;
other users of the page allocator come and go, and free anything but what paging uses.
The one thing a caller has to keep to is whose frames it maps for the user: they are its
own, so each is mapped at most once and is not a page paging itself uses. Without that
the tables of the kernel are not safe, as the last theorem shows.
-/

namespace ZephyrOS.Paging

open ZephyrOS.Memory (pageSize MemInfo MemoryZone Out Gives Takes)

open List

/-- A call into paging, with arbitrary arguments. -/
inductive Call where
  | createUserDirectory
  | mapPageInDirectory (d : Nat) (virtual physical flags : UInt32)
  | unmapUserPageInDirectory (d : Nat) (virtual : UInt32)
  | getPageInDirectory (d : Nat) (virtual : UInt32) (create : Int)
  | freeUserDirectory (d : Nat)

def Call.run (s : State) : Call → State
  | .createUserDirectory => (Paging.createUserDirectory s).2
  | .mapPageInDirectory d virtual physical flags =>
    (Paging.mapPageInDirectory d virtual.toNat physical.toNat flags.toNat s).2
  | .unmapUserPageInDirectory d virtual =>
    (Paging.unmapUserPageInDirectory d virtual.toNat s).2
  | .getPageInDirectory d virtual create => (Paging.getPageInDirectory d virtual.toNat create s).2
  | .freeUserDirectory d => Paging.freeUserDirectory d s

/-- The frame a call maps for the user is one the caller may map. -/
def Call.Allowed (may : State → Nat → Prop) (s : State) : Call → Prop
  | .mapPageInDirectory _ _ physical flags =>
    hasFlag flags.toNat flagUser = true → may s physical.toNat
  | _ => True

/-- The states after `paging_init`, where frames are mapped that `may` allows. -/
inductive Run (may : State → Nat → Prop) : State → Prop
  | start {s s' : State} {m : MemInfo} {mmap : List Memory.MmapEntry} {mem : Nat → UInt8}
      {ops : List Memory.Op} {mode : Option VesaMode} :
      Memory.memoryInit mmap mem = .ok m → s.pmm = (Memory.History.run ⟨m, []⟩ ops).pmm →
      s.pagingInitialized = false → pagingInit mode s = (.ok (), s') → Run may s'
  | call {s : State} (c : Call) : Run may s → c.Allowed may s → Run may (c.run s)
  | other {s : State} (op : Memory.Op) : Run may s → (∀ u ∈ live s, ¬ op.Frees (address s u)) →
      Run may { s with pmm := s.pmm.step op }

/-- What holds of every state, with the kernel's directory the current one. -/
structure Reached (s : State) : Prop where
  inv : Inv s
  current : s.currentDirectory = s.kernelDirectory

variable {s : State} {d : Nat}

theorem Call.keeps (h : Inv s) (c : Call) (hc : c.Allowed Lent s) :
    Inv (c.run s) ∧ Keeps s (c.run s) := by
  cases c with
  | createUserDirectory => exact createUserDirectory_inv h
  | mapPageInDirectory d virtual physical flags =>
    exact mapPage_inv h d physical.toNat flags.toNat virtual.toNat_lt hc
  | unmapUserPageInDirectory d virtual => exact unmap_inv h d virtual.toNat
  | getPageInDirectory d virtual create => exact getPage_inv h virtual.toNat_lt
  | freeUserDirectory d => exact freeUserDirectory_inv h d

/-- **Every state has the invariant.** -/
theorem Run.reached (h : Run Lent s) : Reached s := by
  induction h with
  | @start s s' m mmap mem ops mode hm hp hoff hok =>
    have hinv := Memory.memoryInit_inv hm
    have hpmm : Memory.Inv s.pmm := by
      rw [hp]
      exact (Memory.run_inv ops hinv ⟨fun _ hr => absurd hr (by simp), Pairwise.nil⟩).1
    have hst := pagingInit_started ⟨hpmm, fun hc => by rw [hoff] at hc; exact absurd hc.1 (by decide)⟩ hok
    exact ⟨hst.inv, hst.current⟩
  | call c _ hc ih =>
    obtain ⟨h1, h2⟩ := c.keeps ih.inv hc
    exact ⟨h1, by rw [h2.current, h2.kernel, ih.current]⟩
  | other op _ hfree ih =>
    obtain ⟨h1, h2⟩ := Memory.out_step ih.inv.pmm op
    exact ⟨ih.inv.with_pmm h1 fun u hu => h2 _ (ih.inv.placed.out hu) (hfree u hu), ih.current⟩

/-! ### Freeing all the directories -/

/-- What freeing one directory that is not in use does. -/
theorem freeUserDirectory_effect (h : Reached s) (hd : s.User d) :
    Reached (freeUserDirectory d s) ∧
      (∀ d', (freeUserDirectory d s).User d' ↔ s.User d' ∧ d' ≠ d) ∧
      (∀ u, u ∈ live (freeUserDirectory d s) ↔ u ∈ live s ∧ u.owner ≠ d) ∧
      (∀ u ∈ live (freeUserDirectory d s), address (freeUserDirectory d s) u = address s u) ∧
      (∀ p, p ∈ (freeUserDirectory d s).pmm.freeSet ↔ p ∈ s.pmm.freeSet ∨
        ∃ u ∈ live s, u.owner = d ∧ p = address s u / pageSize) ∧
      (freeUserDirectory d s).pmm.pmmInvalidFrees = s.pmm.pmmInvalidFrees := by
  have hne : d ≠ s.currentDirectory := by
    rw [h.current]
    exact h.inv.ne_kernel hd
  obtain ⟨hinv, hkeep⟩ := freeUserDirectory_inv h.inv d
  refine ⟨⟨hinv, by rw [hkeep.current, hkeep.kernel, h.current]⟩, ?_⟩
  rcases freeUserDirectory_cases h.inv d with ⟨_, hc⟩ | ⟨k, k', stats, he, _, _, hk, hk', _⟩
  · rcases hc with hc | hc
    · exact absurd hd hc
    · exact absurd hc hne
  rw [he]
  have hlive : ∀ u, u ∈ live (s.withoutDirectory d k k' stats) ↔ u ∈ live s ∧ u.owner ≠ d :=
    withoutDirectory_live h.inv hd hk'
  obtain ⟨_, _, h3, h4⟩ := @withoutDirectory_pmm s d k k' stats h.inv hd
  exact ⟨withoutDirectory_user h.inv hk, hlive,
    fun u hu => withoutDirectory_address h.inv hd ((hlive u).mp hu).1 ((hlive u).mp hu).2, h3, h4⟩

/-- Free a list of directories, first to last. -/
def freeDirectories (ds : List Nat) (s : State) : State :=
  ds.foldl (fun s d => freeUserDirectory d s) s

/-- **The directories of a list go, and with them their pages.** -/
theorem freeDirectories_effect : ∀ (ds : List Nat) {s : State}, Reached s → ds.Nodup →
    (∀ d ∈ ds, s.User d) →
    Reached (freeDirectories ds s) ∧
      (∀ d, (freeDirectories ds s).User d ↔ s.User d ∧ d ∉ ds) ∧
      (∀ p, p ∈ (freeDirectories ds s).pmm.freeSet ↔ p ∈ s.pmm.freeSet ∨
        ∃ u ∈ live s, u.owner ∈ ds ∧ p = address s u / pageSize) ∧
      (freeDirectories ds s).pmm.pmmInvalidFrees = s.pmm.pmmInvalidFrees := by
  intro ds
  induction ds with
  | nil => intro s h _ _; exact ⟨h, by simp [freeDirectories], by simp [freeDirectories], rfl⟩
  | cons d ds ih =>
    intro s h hnd hall
    obtain ⟨hnot, hnd⟩ := nodup_cons.mp hnd
    obtain ⟨hr, hu, hl, ha, hf, hi⟩ := freeUserDirectory_effect h (hall d mem_cons_self)
    have hall' : ∀ d' ∈ ds, (freeUserDirectory d s).User d' := by
      intro d' hd'
      exact (hu d').mpr ⟨hall d' (mem_cons_of_mem _ hd'), fun hc => hnot (hc ▸ hd')⟩
    obtain ⟨h1, h2, h3, h4⟩ := ih hr hnd hall'
    have heq : freeDirectories (d :: ds) s = freeDirectories ds (freeUserDirectory d s) := rfl
    rw [heq]
    refine ⟨h1, fun d' => ?_, fun p => ?_, h4.trans hi⟩
    · rw [h2, hu, mem_cons, not_or, and_assoc]
    · rw [h3, hf, or_assoc]
      refine or_congr_right ?_
      constructor
      · intro hp
        rcases hp with ⟨u, hu, ho, rfl⟩ | ⟨u, hu, ho, rfl⟩
        · exact ⟨u, hu, by rw [ho]; exact mem_cons_self, rfl⟩
        · exact ⟨u, ((hl u).mp hu).1, mem_cons_of_mem _ ho, by rw [ha u hu]⟩
      · intro hp
        obtain ⟨u, hul, ho, rfl⟩ := hp
        rcases mem_cons.mp ho with ho | ho
        · exact .inl ⟨u, hul, ho, rfl⟩
        -- a use of a later directory is still there
        have hmem : u ∈ live (freeUserDirectory d s) :=
          (hl u).mpr ⟨hul, fun hc => hnot (hc ▸ ho)⟩
        exact .inr ⟨u, hmem, ho, by rw [ha u hmem]⟩

/-! ### The result -/

/-- The user pages that can be reached through any directory: the directory, the entry of it
and the entry of the table. -/
def userPages (s : State) : Set (Nat × Nat × Nat) :=
  { x | s.Managed x.1 ∧ x.2.1 < tableEntries ∧ x.2.2 < tableEntries ∧
    (s.entries x.1 x.2.1).present = true ∧ s.UserPage (s.entries x.1 x.2.1).table x.2.2 }

/-- A user page is reached through a table of its directory's own, in the window. -/
theorem Inv.userPage (h : Inv s) {i j : Nat} (hd : s.Managed d) (hi : i < tableEntries)
    (hp : (s.entries d i).present = true) (hu : s.UserPage (s.entries d i).table j) :
    s.User d ∧ s.Own d i ∧ (i = 2 ∨ i = 3) := by
  by_cases ho : s.Own d i
  · exact (h.entry d hd i hi).window ((h.entry d hd i hi).supervisor ho j hu.2)
  -- a shared table is the kernel's, which has no user page
  obtain ⟨hsame, hown⟩ := h.shared hd hi hp ho
  have hok := h.entry _ h.registry.kernel i hi
  have hopen := hok.supervisor hown j (hsame ▸ hu.2)
  exact absurd (hok.window hopen).1 h.registry.notUser

theorem userPages_eq (h : Inv s) : userPages s = frames s := by
  ext ⟨d, i, j⟩
  constructor
  · intro hx
    obtain ⟨hd, hi, hj, hp, hu⟩ := hx
    exact ⟨hd, hi, (h.userPage hd hi hp hu).2.1, hj, hu⟩
  · intro hx
    obtain ⟨hd, hi, ho, hj, hu⟩ := hx
    exact ⟨hd, hi, hj, ho.1, hu⟩

/-- **User pages stay in the user's window, and what user directories take comes back.**
Whatever was called before, with frames of the callers' own: a user page is present only in
a user directory, in the window, through a table of the directory's own. A table shared
with the kernel is closed to the user, and no call frees a table of the kernel. The count of
active pages is the number of user pages there are. Freeing all user directories returns
their pages, each of which was out, and no other page; no release is refused, so none was
made twice. -/
theorem paging_isolated {s : State} (h : Run Lent s) :
    (∀ d i j, s.Managed d → i < tableEntries → j < tableEntries →
      (s.entries d i).present = true → s.UserPage (s.entries d i).table j →
      s.User d ∧ s.Own d i ∧ userSpaceStart ≤ (i * tableEntries + j) * pageSize ∧
        (i * tableEntries + j) * pageSize < userSpaceEnd) ∧
    (∀ d i, s.User d → i < tableEntries →
      (s.entries d i).table = (s.entries s.kernelDirectory i).table →
      (s.entries d i).user = false) ∧
    (∀ c : Call, c.Allowed Lent s → ∀ i < tableEntries,
      (s.entries s.kernelDirectory i).present = true →
      (c.run s).entries s.kernelDirectory i = s.entries s.kernelDirectory i ∧
        Out s.pmm (s.entries s.kernelDirectory i).table ∧
        Out (c.run s).pmm (s.entries s.kernelDirectory i).table) ∧
    s.stats.activePages = (userPages s).ncard ∧
    ∀ ds : List Nat, ds.Nodup → (∀ d, d ∈ ds ↔ s.User d) →
      (∀ d, ¬ (freeDirectories ds s).User d) ∧ (freeDirectories ds s).stats.activePages = 0 ∧
      (∀ u ∈ live s, s.User u.owner → address s u / pageSize ∉ s.pmm.freeSet) ∧
      (∀ u ∈ live s, ∀ v ∈ live s, address s u = address s v → u = v) ∧
      (∀ p, p ∈ (freeDirectories ds s).pmm.freeSet ↔ p ∈ s.pmm.freeSet ∨
        ∃ u ∈ live s, s.User u.owner ∧ p = address s u / pageSize) ∧
      (freeDirectories ds s).pmm.pmmInvalidFrees = s.pmm.pmmInvalidFrees := by
  have hr := h.reached
  have hinv := hr.inv
  have hker := hinv.registry.kernel
  refine ⟨fun d i j hd hi hj hp hu => ?_, fun d i hd hi hsame => ?_, fun c hc i hi hp => ?_, ?_,
    fun ds hnd hall => ?_⟩
  · obtain ⟨h1, h2, h3⟩ := hinv.userPage hd hi hp hu
    exact ⟨h1, h2, (window_iff hj).mpr h3⟩
  · by_contra hc
    obtain ⟨_, ho, _⟩ := (hinv.entry d (hinv.managed_of_user hd) i hi).window (by simpa using hc)
    rcases ho.2 with hk | hne
    · exact hinv.ne_kernel hd hk
    · exact hne hsame
  · obtain ⟨h1, h2⟩ := c.keeps hinv hc
    have he := h2.tables i hp
    refine ⟨he, hinv.table_out hker hi ⟨hp, .inl rfl⟩, ?_⟩
    have hker' := h1.registry.kernel
    have hout := h1.present_out hker' hi (by rw [h2.kernel, he]; exact hp)
    rw [h2.kernel, he] at hout
    exact hout
  · rw [userPages_eq hinv]
    exact hinv.active
  · obtain ⟨h1, h2, h3, h4⟩ := freeDirectories_effect ds hr hnd fun d hd => (hall d).mp hd
    have hnone : ∀ d, ¬ (freeDirectories ds s).User d := by
      intro d hd
      obtain ⟨hu, hn⟩ := (h2 d).mp hd
      exact hn ((hall d).mpr hu)
    refine ⟨hnone, ?_, fun u hu _ => (hinv.placed.out hu).notMem_freeSet hinv.pmm,
      fun u hu v hv he => hinv.placed.inj hu hv he, fun p => ?_, h4⟩
    · have hempty : frames (freeDirectories ds s) = ∅ := by
        rw [← userPages_eq h1.inv, Set.eq_empty_iff_forall_notMem]
        intro x hx
        obtain ⟨hd, hi, _, hp, hu⟩ := hx
        exact hnone _ (h1.inv.userPage hd hi hp hu).1
      rw [h1.inv.active, hempty, Set.ncard_empty]
    · rw [h3]
      simp only [hall]

/-! ### A start, and what a frame of the kernel's does -/

/-- Paging off, over the page allocator `m`. -/
def coldState (m : MemInfo) : State where
  currentDirectory := 0
  kernelDirectory := 0
  pagingInitialized := false
  userDirectories := fun _ => 0
  pagingDirectories := fun _ => 0
  stats := UserStats.zero
  entries := fun _ _ => DirEntry.zero
  pages := fun _ _ => PageEntry.zero
  pmm := m

/-- With 64 MiB paging starts. -/
theorem run_start (may : State → Nat → Prop) : ∃ s, Run may s ∧ Started s ∧
    (s.entries s.kernelDirectory 0).present = true ∧
    s.entries s.kernelDirectory 2 = DirEntry.zero ∧ 4 ≤ s.pmm.freeSet.card := by
  obtain ⟨m, hm⟩ := Memory.memoryInit_oneEntry fun _ => 0
  obtain ⟨hfree, htotal⟩ := Memory.memoryInit_oneEntry_free hm
  have hoff : Off (coldState m) :=
    ⟨Memory.memoryInit_inv hm, fun hc => absurd hc.1 Bool.false_ne_true⟩
  obtain ⟨s, hok, hst, h0, h2, hcard⟩ := @pagingInit_of_free _ 4 hoff hfree htotal
  exact ⟨s, @Run.start may (coldState m) s m Memory.oneEntry (fun _ => 0) [] none hm rfl rfl hok,
    hst, h0, h2, hcard⟩

/-- The first user directory has its slots and its page. -/
theorem Started.create (h : Started s) (hfree : s.pmm.freeSet.Nonempty) :
    ∃ d k k' m, createUserDirectory s = (some d, s.withDirectory d k k' m) ∧ Gives s.pmm m d ∧
      Lib.slotOf maxDirectories s.pagingDirectories 0 = some k ∧
      Lib.slotOf maxUserDirectories s.userDirectories 0 = some k' := by
  have hreg := h.inv.registry
  rcases createUserDirectory_cases h.inv with ⟨_, _, _, _, _, _, hc⟩ | hok
  swap
  · exact hok
  exfalso
  rcases hc with hc | hc | hc
  · exact hfree.ne_empty hc
  · -- the kernel's directory cannot fill two slots
    have hfull : ∀ i < maxDirectories, s.pagingDirectories i = s.kernelDirectory := by
      intro i hi
      exact ((hreg.all _).mp ⟨Lib.slotOf_none hc hi, i, hi, rfl⟩).resolve_right (h.alone _)
    have h0 := hfull 0 (by decide)
    have h1 := hfull 1 (by decide)
    have := hreg.managed 0 (by decide) 1 (by decide) (h0.trans h1.symm)
      (by rw [h0]; exact hreg.kernel.1)
    cases this
  · exact h.alone _ ⟨Lib.slotOf_none hc (by decide), 0, by decide, rfl⟩

theorem withDirectory_isUser {k' : Nat} (k : Nat) {m : MemInfo} (hg : Gives s.pmm m d)
    (hk' : Lib.slotOf maxUserDirectories s.userDirectories 0 = some k') :
    (s.withDirectory d k k' m).User d :=
  (Lib.listed_fill hk' hg.ne_zero).mpr (.inr rfl)

/-- The directory `d` is new: entry 0 is the kernel's, and entry 2, the first of the user's
window, is empty. -/
structure Fresh (may : State → Nat → Prop) (s : State) (d : Nat) : Prop where
  run : Run may s
  inv : Inv s
  user : s.User d
  present : (s.entries s.kernelDirectory 0).present = true
  shared : (s.entries d 0).table = (s.entries s.kernelDirectory 0).table
  empty : s.entries d 2 = DirEntry.zero

/-- The first directory after the start. -/
theorem exists_fresh (may : State → Nat → Prop) : ∃ p s d, Run may p ∧
    createUserDirectory p = (some d, s) ∧ Fresh may s d ∧ 3 ≤ s.pmm.freeSet.card := by
  obtain ⟨p, hrun, hst, hpres, hzero, hcard⟩ := run_start may
  obtain ⟨d, k, k', m, he, hg, hk, hk'⟩ := hst.create (Finset.card_pos.mp (by omega))
  have hkernel : (p.withDirectory d k k' m).entries p.kernelDirectory 0 =
      p.entries p.kernelDirectory 0 := withDirectory_entries hst.inv hg hst.inv.registry.kernel
  refine ⟨p, _, d, hrun, he, ⟨?_, hst.inv.newDirectory hg hk hk', withDirectory_isUser k hg hk',
    ?_, ?_, ?_⟩, ?_⟩
  · have := Run.call .createUserDirectory hrun trivial
    rwa [Call.run, he] at this
  · show ((p.withDirectory d k k' m).entries p.kernelDirectory 0).present = true
    rw [hkernel]
    exact hpres
  · show _ = ((p.withDirectory d k k' m).entries p.kernelDirectory 0).table
    rw [hkernel, withDirectory_inherited (by decide)]
  · rw [withDirectory_inherited (by decide), hzero]
    rfl
  · show 3 ≤ m.freeSet.card
    rw [hg.card_freeSet]
    omega

/-- Whatever page is mapped under an empty entry is freed when it is unmapped again, and no
other entry changes. -/
theorem map_unmap_frees (h : Inv s) {d virtual a : Nat} (hd : s.User d)
    (hal : virtual % pageSize = 0) (hlo : userSpaceStart ≤ virtual) (hhi : virtual < userSpaceEnd)
    (he : s.entries d (tableIndex virtual) = DirEntry.zero) (hfree : s.pmm.freeSet.Nonempty)
    (ha : Out s.pmm a) :
    ∃ s₁ s₂, mapPageInDirectory d virtual a 7 s = (.ok (), s₁) ∧
      unmapUserPageInDirectory d virtual s₁ = (.ok (), s₂) ∧
      s₁.kernelDirectory = s.kernelDirectory ∧ s₁.User d ∧
      (s₁.entries d (tableIndex virtual)).present = true ∧
      s₁.UserPage (s₁.entries d (tableIndex virtual)).table (pageIndex virtual) ∧
      (∀ d' i, ¬ (d' = d ∧ i = tableIndex virtual) →
        s₁.entries d' i = s.entries d' i ∧ s₂.entries d' i = s.entries d' i) ∧
      Out s₁.pmm a ∧ ¬ Out s₂.pmm a := by
  obtain ⟨t, m, hmap, hg⟩ := mapPage_new h hd hal ha.1 hlo hhi he hfree
  have hta : t ≠ a := fun hc => hg.fresh (hc ▸ ha)
  have hout := hg.keeps a ha
  generalize hs₁ : ((s.withTable d (tableIndex virtual) t m).openEntry d
    (tableIndex virtual)).withUserPage d virtual a true = s₁ at hmap
  -- the entry of the new table, and the page in it
  have hent : s₁.entries d (tableIndex virtual) = ⟨t, true, true, true⟩ := by
    rw [← hs₁]
    show ((s.withTable d (tableIndex virtual) t m).openEntry d (tableIndex virtual)).entries d _ = _
    rw [State.openEntry, setEntry_entries, if_pos ⟨rfl, rfl⟩, withTable_entries, if_pos ⟨rfl, rfl⟩]
  have hother : ∀ d' i, ¬ (d' = d ∧ i = tableIndex virtual) → s₁.entries d' i = s.entries d' i := by
    intro d' i hne
    rw [← hs₁]
    show ((s.withTable d (tableIndex virtual) t m).openEntry d (tableIndex virtual)).entries d' i = _
    rw [State.openEntry, setEntry_entries, if_neg hne, withTable_entries, if_neg hne]
  have hpage : s₁.pages t (pageIndex virtual) = ⟨a / pageSize, true, true, true⟩ := by
    rw [← hs₁]
    unfold State.withUserPage
    rw [(openEntry_entries ..).1, withTable_entries, if_pos ⟨rfl, rfl⟩]
    show (State.setPage _ t _ _).pages t _ = _
    rw [setPage_self]
  have hpmm : s₁.pmm = m := by
    rw [← hs₁]
    rfl
  have hker : s₁.kernelDirectory = s.kernelDirectory := by
    rw [← hs₁]
    rfl
  have hud : s₁.User d := by
    rw [← hs₁]
    exact hd
  have hmapped : s₁.UserPage (s₁.entries d (tableIndex virtual)).table (pageIndex virtual) := by
    rw [hent]
    exact ⟨by rw [hpage], by rw [hpage]⟩
  have hun := unmap_eq hud hal hlo hhi (by rw [hent]) (by rw [hent])
    (by rw [hent]; exact hg.ne_zero) hmapped
  rw [hent] at hun
  refine ⟨s₁, _, hmap, hun, hker, hud, by rw [hent], hmapped,
    fun d' i hne => ⟨hother d' i hne, ?_⟩, hpmm ▸ hout, ?_⟩
  · unfold State.dropPage
    split
    · show ((s₁.withoutPage t (pageIndex virtual)).setEntry d _ DirEntry.zero).entries d' i = _
      rw [setEntry_entries, if_neg hne]
      exact hother d' i hne
    · exact hother d' i hne
  · -- the frame went back, and then perhaps the table
    have hback : (s₁.withoutPage t (pageIndex virtual)).pmm = m.pmmFreePage a := by
      show s₁.pmm.pmmFreePage _ = _
      rw [hpage, hpmm, Nat.div_mul_cancel (Nat.dvd_of_mod_eq_zero ha.1)]
    have ht := Memory.freePage_takes hg.inv hout
    intro hc
    unfold State.dropPage at hc
    split at hc
    · have ht' := Memory.freePage_takes ht.inv ((ht.out t).mpr ⟨hg.given, hta⟩)
      rw [← hback] at ht'
      exact absurd rfl ((ht.out a).mp (hback ▸ ((ht'.out a).mp hc).1)).2
    · rw [hback] at hc
      exact absurd rfl ((ht.out a).mp hc).2

/-- The same in a run, at the first page of the window in a new directory. -/
theorem Fresh.map_unmap {may : State → Nat → Prop} (h : Fresh may s d)
    (hfree : s.pmm.freeSet.Nonempty) {a : Nat} (ha : Out s.pmm a) (hmay : may s a) :
    ∃ s₁, Run may s₁ ∧ s₁.kernelDirectory = s.kernelDirectory ∧ s₁.User d ∧
      (s₁.entries d 2).present = true ∧ s₁.UserPage (s₁.entries d 2).table 0 ∧
      (∀ d' i, ¬ (d' = d ∧ i = 2) → s₁.entries d' i = s.entries d' i ∧
        ((Call.unmapUserPageInDirectory d 0x00800000).run s₁).entries d' i = s.entries d' i) ∧
      Out s₁.pmm a ∧ ¬ Out ((Call.unmapUserPageInDirectory d 0x00800000).run s₁).pmm a := by
  obtain ⟨s₁, s₂, hmap, hun, hrest⟩ := @map_unmap_frees s h.inv d 0x00800000 a h.user (by decide)
    (by decide) (by decide) h.empty hfree ha
  have hlt : a < 2 ^ 32 := by
    have h1 := (Memory.out_iff.mp ha).2.1
    have h2 := h.inv.pmm.total
    have h3 := h.inv.pmm.total_lt
    unfold pageSize at h1 h2
    omega
  have hrun : Run may s₁ := by
    have := Run.call (.mapPageInDirectory d 0x00800000 (UInt32.ofNat a) 7) h.run fun _ => by
      rwa [UInt32.toNat_ofNat_of_lt' hlt]
    rw [Call.run, UInt32.toNat_ofNat_of_lt' hlt, show UInt32.toNat 0x00800000 = 0x00800000 from rfl,
      show UInt32.toNat 7 = 7 from rfl, hmap] at this
    exact this
  have hcall : (Call.unmapUserPageInDirectory d 0x00800000).run s₁ = s₂ := by
    rw [Call.run, show UInt32.toNat 0x00800000 = 0x00800000 from rfl, hun]
  refine ⟨s₁, hrun, ?_⟩
  rw [hcall]
  exact hrest

/-- A frame of the process zone is mapped in the first directory, and unmapped again. -/
theorem paging_isolated_user_page : ∃ s d a, Run Lent s ∧ s.User d ∧ (d, 2, 0) ∈ userPages s ∧
    s.stats.activePages = (userPages s).ncard ∧ Out s.pmm a ∧
    let s' := (Call.unmapUserPageInDirectory d 0x00800000).run s
    Run Lent s' ∧ s'.stats.activePages = (userPages s').ncard ∧ ¬ Out s'.pmm a := by
  obtain ⟨_, s, d, _, _, h, hcard⟩ := exists_fresh Lent
  rcases Memory.allocPage_cases h.inv.pmm .process rfl with ⟨_, hno⟩ | ⟨a, m, halloc, hg⟩
  · rw [hno] at hcard
    cases hcard
  -- the frame is taken from the allocator, as a caller of paging would
  have hrun : Run Lent { s with pmm := m } := by
    have := Run.other (.allocPagesInZone 1 .process) h.run fun u _ hc => hc
    rwa [show s.pmm.step (.allocPagesInZone 1 .process) = m from congrArg Prod.snd halloc] at this
  have hlent : Lent { s with pmm := m } a :=
    ⟨hg.given, fun u hu hc => hg.fresh (hc ▸ h.inv.placed.out hu)⟩
  have hfree : m.freeSet.Nonempty := by
    refine Finset.card_pos.mp ?_
    rw [hg.card_freeSet]
    omega
  have hfresh : Fresh Lent { s with pmm := m } d :=
    ⟨hrun, hrun.reached.inv, h.user, h.present, h.shared, h.empty⟩
  obtain ⟨s₁, hrun₁, _, hud, hp, hu, _, hout, hgone⟩ := hfresh.map_unmap hfree hg.given hlent
  have hrun₂ := Run.call (.unmapUserPageInDirectory d 0x00800000) hrun₁ trivial
  obtain ⟨_, _, _, hactive, _⟩ := paging_isolated hrun₁
  obtain ⟨_, _, _, hactive', _⟩ := paging_isolated hrun₂
  have hmem : (d, 2, 0) ∈ userPages s₁ :=
    ⟨hrun₁.reached.inv.managed_of_user hud, (by decide : 2 < tableEntries),
      (by decide : 0 < tableEntries), hp, hu⟩
  exact ⟨s₁, d, a, hrun₁, hud, hmem, hactive, hout, hrun₂, hactive', hgone⟩

/-- **A frame of the kernel's is freed with the page that maps it.** Mapped for the user, the
table under entry 0 of the kernel's directory, which the user directory shares, goes back
to the page allocator when the page is unmapped; the kernel's entry still points to it. -/
theorem unmap_frees_kernel_table : ∃ s d, Run (fun _ _ => True) s ∧ s.User d ∧
    (s.entries s.kernelDirectory 0).present = true ∧
    (s.entries d 0).table = (s.entries s.kernelDirectory 0).table ∧
    Out s.pmm (s.entries s.kernelDirectory 0).table ∧
    ((Call.unmapUserPageInDirectory d 0x00800000).run s).entries s.kernelDirectory 0 =
      s.entries s.kernelDirectory 0 ∧
    ¬ Out ((Call.unmapUserPageInDirectory d 0x00800000).run s).pmm
      (s.entries s.kernelDirectory 0).table := by
  obtain ⟨_, s, d, _, _, h, hcard⟩ := exists_fresh fun _ _ => True
  have hout : Out s.pmm (s.entries s.kernelDirectory 0).table :=
    h.inv.present_out h.inv.registry.kernel (by decide) h.present
  obtain ⟨s₁, hrun, hk, hud, _, _, hent, hout₁, hgone⟩ :=
    h.map_unmap (Finset.card_pos.mp (by omega)) hout trivial
  obtain ⟨hk0, hk0'⟩ := hent s.kernelDirectory 0 fun hc => absurd hc.2 (by decide)
  obtain ⟨hd0, _⟩ := hent d 0 fun hc => absurd hc.2 (by decide)
  refine ⟨s₁, d, hrun, hud, ?_, ?_, ?_, ?_, ?_⟩
  · rw [hk, hk0]
    exact h.present
  · rw [hd0, hk, hk0]
    exact h.shared
  · rw [hk, hk0]
    exact hout₁
  · rw [hk, hk0, hk0']
  · rw [hk, hk0]
    exact hgone

end ZephyrOS.Paging
