import ZephyrOS.Memory.VmaCalls

/-!
# Every history of an address space

A process starts with a fresh user directory and no area. Then any call may come, with any
arguments, with and without memory for its metadata; the process may be scheduled away and
back, and everything else that runs does what it likes but map or unmap pages of this
directory.
-/

namespace ZephyrOS.Vma

open ZephyrOS.Memory (pageSize Gives)
open ZephyrOS.Paging (tableEntries userSpaceStart userSpaceEnd userPages userPages_eq tableIndex
  pageIndex)

/-- A call on the process, with arbitrary arguments. -/
inductive Call where
  | registerImage (heap : List Bool) (codeSize : UInt32)
  | mmap (heap : Bool) (length protection flags : UInt32) (addressOut : Bool)
  | munmap (heap : Bool) (address length : UInt32)
  | ensurePage (address : UInt32) (write : Int)
  | handlePageFault (address error : UInt32)

def Call.run (s : State) : Call → Except Err Unit × State
  | .registerImage heap codeSize => Vma.registerImage heap codeSize.toNat s
  | .mmap heap length protection flags addressOut =>
    let r := Vma.mmap heap length.toNat protection.toNat flags.toNat addressOut s
    (r.1.map fun _ => (), r.2)
  | .munmap heap address length => Vma.munmap heap address.toNat length.toNat s
  | .ensurePage address write => Vma.ensurePage address.toNat write s
  | .handlePageFault address error => Vma.handlePageFault address.toNat error.toNat s

/-- What happens elsewhere: the page tables keep their invariant, and the process keeps its
directory, its areas and its pages. -/
structure Elsewhere (s s' : State) : Prop where
  paging : Paging.Inv s'.paging
  user : s'.paging.User s'.proc.pageDirectory
  directory : s'.proc.pageDirectory = s.proc.pageDirectory
  vmaList : s'.proc.vmaList = s.proc.vmaList
  vmaCount : s'.proc.vmaCount = s.proc.vmaCount
  pages : residents s'.paging s.proc.pageDirectory = residents s.paging s.proc.pageDirectory

inductive Run : State → Prop
  | start {s : State} {p : Paging.State} : Paging.Run Paging.Lent p →
      Paging.createUserDirectory p = (some s.proc.pageDirectory, s.paging) →
      s.proc.vmaList = [] → s.proc.vmaCount = 0 → Run s
  | call {s : State} (c : Call) : Run s → Run (c.run s).2
  | other {s s' : State} : Run s → Elsewhere s s' → Run s'

variable {s : State}

theorem Call.sound (h : Inv s) (c : Call) : Sound s (c.run s) := by
  cases c with
  | registerImage heap codeSize => exact registerImage_sound h heap
  | mmap heap length protection flags addressOut =>
    obtain ⟨h1, h2⟩ := mmap_sound h heap length.toNat protection.toNat flags.toNat addressOut
    refine ⟨h1, fun e he => ?_⟩
    unfold Call.run at he ⊢
    dsimp only at he ⊢
    generalize Vma.mmap heap length.toNat protection.toNat flags.toNat addressOut s = r at he h2 ⊢
    obtain ⟨r₁, s'⟩ := r
    cases r₁ with
    | ok a => exact absurd he (by simp [Except.map])
    | error e' => exact h2 e' rfl
  | munmap heap address length => exact munmap_sound h
  | ensurePage address write => exact ensurePage_sound h
  | handlePageFault address error => exact handlePageFault_sound h

/-- A new directory has no user page. -/
theorem residents_create {p p' : Paging.State} (h : Paging.Inv p) {d : Nat}
    (hc : Paging.createUserDirectory p = (some d, p')) :
    Paging.Inv p' ∧ p'.User d ∧ residents p' d = ∅ := by
  rcases Paging.createUserDirectory_cases h with ⟨m, e, he, _⟩ | ⟨d', k, k', m, he, hg, hk, hk'⟩
  · rw [he] at hc
    cases hc
  rw [he] at hc
  obtain ⟨h1, h2⟩ := Prod.mk.inj hc
  obtain rfl := Option.some.inj h1
  obtain rfl := h2
  refine ⟨h.newDirectory hg hk hk', Paging.withDirectory_isUser k hg hk', ?_⟩
  rw [Set.eq_empty_iff_forall_notMem]
  intro x hx
  exact Paging.withDirectory_own_new h hg hx.2.1 hx.2.2.1

/-- **Every state has the invariant.** -/
theorem Run.inv (h : Run s) : Inv s := by
  induction h with
  | start hp hc hl hn =>
    obtain ⟨h1, h2, h3⟩ := residents_create hp.reached.inv hc
    refine ⟨h1, h2, by rw [hl]; exact areas_nil, by rw [hl, hn]; rfl, fun x hx => ?_, ?_⟩
    · rw [h3] at hx
      exact absurd hx (Set.notMem_empty x)
    · rw [h3, Set.ncard_empty]
      exact Nat.zero_le _
  | call c _ ih => exact (c.sound ih).1
  | other _ he ih =>
    refine ⟨he.paging, he.user, by rw [he.vmaList]; exact ih.areas,
      by rw [he.vmaList, he.vmaCount]; exact ih.count, fun x hx => ?_, ?_⟩
    · rw [he.directory, he.pages] at hx
      rw [he.vmaList]
      exact ih.covered x hx
    · rw [he.directory, he.pages]
      exact ih.resident

/-- **The address space of a process.** After any history the list is strictly sorted, its
areas are aligned, not empty, disjoint and in the user's window, and they are counted.
Every user page of the directory lies in an area. The dynamic areas are at most 16 and
hold at most 1 MiB, and at most 128 pages are there. A call that returns an error leaves
the list and the page tables as they were. -/
theorem address_space_sound {s : State} (h : Run s) :
    (s.proc.vmaList.Pairwise fun a b => a.startAddr < b.startAddr) ∧
    (s.proc.vmaList.Pairwise fun a b => a.endAddr ≤ b.startAddr) ∧
    (∀ a ∈ s.proc.vmaList, a.startAddr % pageSize = 0 ∧ a.endAddr % pageSize = 0 ∧
      userSpaceStart ≤ a.startAddr ∧ a.startAddr < a.endAddr ∧ a.endAddr ≤ userSpaceEnd) ∧
    s.proc.vmaCount = s.proc.vmaList.length ∧
    (∀ i j, (s.proc.pageDirectory, i, j) ∈ userPages s.paging → ∃ a ∈ s.proc.vmaList,
      a.startAddr ≤ (i * tableEntries + j) * pageSize ∧
        (i * tableEntries + j) * pageSize + pageSize ≤ a.endAddr) ∧
    dynamicCount s.proc.vmaList ≤ 16 ∧ dynamicBytes s.proc.vmaList ≤ 1024 * 1024 ∧
    { x : Nat × Nat | (s.proc.pageDirectory, x.1, x.2) ∈ userPages s.paging }.ncard ≤ 128 ∧
    ∀ (c : Call) (e : Err), (c.run s).1 = .error e → Unchanged s (c.run s).2 := by
  have hinv := h.inv
  have hareas := hinv.areas
  have hpages := userPages_eq hinv.paging
  refine ⟨hareas.spaced.sorted, hareas.spaced.apart, fun a ha => ?_, hinv.count,
    fun i j hm => ?_, hareas.few, hareas.small, ?_, fun c e he => (c.sound hinv).2 e he⟩
  · have hok := hareas.ok a ha
    exact ⟨hok.startAligned, hok.endAligned, hok.window.1, hareas.spaced.pos a ha, hok.window.2⟩
  · rw [hpages] at hm
    obtain ⟨a, ha, hlo, hhi⟩ := hinv.covered (i, j) hm
    refine ⟨a, ha, hlo, ?_⟩
    -- the page and the end of the area are both aligned
    have hend := (hareas.ok a ha).endAligned
    unfold pageAddress at hhi
    dsimp only at hhi
    unfold pageSize at *
    omega
  · rw [hpages]
    exact hinv.resident

/-- A process without areas over a new directory `d`. -/
def newProcess (d : Nat) : Process where
  pageDirectory := d
  userMode := true
  vmaList := []
  vmaCount := 0
  userCodeImage := some [0xC3]
  userCodeSize := 1
  userDataImage := none
  userDataSize := 0
  userLaunch := []

/-- The process of a new directory runs, with the areas of its image and its record in the
resource table. -/
def running (p : Paging.State) (d : Nat) : State where
  paging := { p with currentDirectory := d }
  proc := { newProcess d with
    vmaList := imageAreas.map fun f => ⟨f.1, f.1 + pageSize, f.2, 0, 0⟩
    vmaCount := 4 }
  current := true
  valid := true
  entry := some ⟨0, .none, none, 0⟩
  faults := ⟨0, 0⟩
  memory := fun _ _ => 0

/-- It was started, its image was registered, and it was scheduled. -/
theorem run_running {p p' : Paging.State} {d : Nat} (hrun : Paging.Run Paging.Lent p)
    (hc : Paging.createUserDirectory p = (some d, p')) : Run (running p' d) := by
  obtain ⟨hinv, hd, _⟩ := residents_create hrun.reached.inv hc
  have hstart : Run { running p' d with paging := p', proc := newProcess d, current := false } :=
    .start hrun hc rfl rfl
  have himage := Run.call (.registerImage [true, true, true, true] 1) hstart
  exact .other himage ⟨hinv.switch (hinv.managed_of_user hd), hd, rfl, rfl, rfl, rfl⟩

theorem running_current {p : Paging.State} {d : Nat} (hd : d ≠ 0) :
    isCurrentUser (running p d) = .ok () := by
  simp [isCurrentUser, running, newProcess, hd]

/-- **The first write to an area makes a page**, if there is a frame for it and one for its
table. -/
theorem ensurePage_first (h : Inv s) {address : Nat} {area : VmArea} {bytes : Nat → UInt8}
    (hcur : isCurrentUser s = .ok ()) (hentry : s.entry.isNone = false)
    (hal : address % pageSize = 0) (harea : findPage address s.proc.vmaList = some area)
    (hwrite : area.flags &&& vmWrite ≠ 0) (hbytes : populatePage s.proc area = .ok bytes)
    (hempty : s.paging.entries s.proc.pageDirectory (tableIndex address) = Paging.DirEntry.zero)
    (hroom : (residents s.paging s.proc.pageDirectory).ncard < maxResidentPages)
    (hfree : 2 ≤ s.paging.pmm.freeSet.card) :
    ∃ s', ensurePage address 1 s = (.ok (), s') ∧ s'.proc = s.proc ∧ s'.entry = s.entry ∧
      (s'.paging.entries s.proc.pageDirectory (tableIndex address)).present = true ∧
      s'.paging.UserPage (s'.paging.entries s.proc.pageDirectory (tableIndex address)).table
        (pageIndex address) := by
  obtain ⟨hmem, hlo, hhi⟩ := findPage_some harea
  obtain ⟨hwlo, hwhi⟩ := (h.areas.ok area hmem).window
  have hpage : pageAt s.proc.pageDirectory address s.paging = none := by
    rw [pageAt_eq h.paging h.user (by unfold userSpaceEnd at hwhi; omega), hempty]
    rfl
  have hcheck : checkPage s = (.ok (), s) := by
    unfold checkPage currentPages
    rw [if_neg (by simp [hentry]), if_neg (by simp [userMode_of_current hcur]), if_neg h.user.1,
      getUserPageCount_eq h.paging h.user]
    exact if_neg (by omega)
  -- the frame, then the table it is mapped under
  rcases Memory.allocPage_cases h.paging.pmm .process rfl with ⟨_, hno⟩ | ⟨a, m, halloc, hg⟩
  · rw [hno] at hfree
    cases hfree
  have hleft : m.freeSet.Nonempty := by
    refine Finset.card_pos.mp ?_
    rw [hg.card_freeSet]
    omega
  have hinv : Paging.Inv { s.paging with pmm := m } :=
    h.paging.with_pmm hg.inv fun u hu => hg.keeps _ (h.paging.placed.out hu)
  obtain ⟨p, _, hmap, _, _, _, hpres, huser, _⟩ := @Paging.map_unmap_frees
    { s.paging with pmm := m } hinv s.proc.pageDirectory address a h.user hal (by omega) (by omega)
    hempty hleft hg.given
  refine ⟨{ s.setFrame a bytes with paging := p }, ?_, rfl, rfl, hpres, huser⟩
  have hround : address / pageSize * pageSize = address :=
    Nat.div_mul_cancel (Nat.dvd_of_mod_eq_zero hal)
  have hallowed : accessAllowed area 1 0 = true := by
    unfold accessAllowed
    rw [if_neg (by decide), if_pos (by decide)]
    simpa using hwrite
  unfold ensurePage
  rw [hcur]
  dsimp only
  rw [if_neg (by decide), if_neg (by omega), hround, harea]
  dsimp only
  unfold materializePage
  rw [hpage]
  dsimp only
  unfold takePage
  rw [if_neg (by simp [hallowed]), hcheck]
  dsimp only
  rw [halloc]
  dsimp only
  unfold fillPage State.withPmm State.setFrame
  dsimp only
  rw [hbytes]
  dsimp only
  have hflags : pagingFlags area = 7 := if_pos hwrite
  rw [hflags, hmap]

/-- The process maps a page of memory and writes to it. -/
theorem address_space_sound_resident : ∃ s, Run s ∧ s.entry.isSome = true ∧
    s.proc.vmaList.length = 5 ∧ s.proc.vmaCount = s.proc.vmaList.length ∧
    (s.proc.vmaList.Pairwise fun a b => a.startAddr < b.startAddr) ∧
    (s.proc.pageDirectory, 2, 3) ∈ userPages s.paging ∧
    ∃ a ∈ s.proc.vmaList, a.startAddr ≤ 0x00803000 ∧ 0x00804000 ≤ a.endAddr := by
  obtain ⟨p, p', d, hrun, hc, hfresh, hcard⟩ := Paging.exists_fresh Paging.Lent
  have hrunning := run_running hrun hc
  have hcur := @running_current p' d hfresh.user.1
  have hmapped := Run.call (.mmap true 4096 3 16 true) hrunning
  have hlist : (Call.run (running p' d) (.mmap true 4096 3 16 true)).2 =
      (running p' d).setAreas ((running p' d).proc.vmaList.take 3 ++
        ⟨0x00803000, 0x00804000, 19, 0, 0⟩ :: (running p' d).proc.vmaList.drop 3) 5 := by
    show (mmap true 4096 3 16 true (running p' d)).2 = _
    unfold mmap
    rw [hcur]
    rfl
  rw [hlist] at hmapped
  have hnone : residents p' d = ∅ := (residents_create hrun.reached.inv hc).2.2
  obtain ⟨s', he, hproc, hentry, hpres, huser⟩ := ensurePage_first hmapped.inv hcur rfl
    (by decide : 0x00803000 % pageSize = 0) rfl (by decide : 19 &&& vmWrite ≠ 0) rfl hfresh.empty
    (by
      show (residents p' d).ncard < _
      rw [hnone, Set.ncard_empty]
      decide)
    (show 2 ≤ p'.pmm.freeSet.card by omega)
  have hfinal : Run s' := by
    have := Run.call (.ensurePage 0x00803000 1) hmapped
    rwa [Call.run, show UInt32.toNat 0x00803000 = 0x00803000 from rfl, he] at this
  obtain ⟨hsorted, _, _, hcount, hcovered, _⟩ := address_space_sound hfinal
  have hmem : (s'.proc.pageDirectory, 2, 3) ∈ userPages s'.paging := by
    refine ⟨hfinal.inv.paging.managed_of_user hfinal.inv.user, (by decide : 2 < tableEntries),
      (by decide : 3 < tableEntries), ?_, ?_⟩
    · rw [hproc]
      exact hpres
    · rw [hproc]
      exact huser
  exact ⟨s', hfinal, by rw [hentry]; rfl, by rw [hproc]; rfl, hcount, hsorted, hmem,
    hcovered 2 3 hmem⟩

end ZephyrOS.Vma
