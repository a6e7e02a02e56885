import ZephyrOS.Memory.VmaAreas
import ZephyrOS.Memory.VmaPages

/-!
# What the calls keep

The invariant ties the list to the page tables and both to the limits. A call either
succeeds and keeps it, or it is *refused*: then at most the page allocator and the
statistics moved, and the list and the tables are as they were.
-/

namespace ZephyrOS.Vma

open ZephyrOS.Memory (pageSize MemInfo Out Gives)

open Nat List
open ZephyrOS.Paging (tableEntries tableIndex pageIndex userSpaceStart userSpaceEnd frames
  hasFlag flagUser)

structure Inv (s : State) : Prop where
  paging : Paging.Inv s.paging
  user : s.paging.User s.proc.pageDirectory
  areas : Areas s.proc.vmaList
  count : s.proc.vmaCount = s.proc.vmaList.length
  /-- Every user page is in an area. -/
  covered : ∀ x ∈ residents s.paging s.proc.pageDirectory,
    Lib.Covers VmArea.startAddr VmArea.endAddr s.proc.vmaList (pageAddress x)
  resident : (residents s.paging s.proc.pageDirectory).ncard ≤ maxResidentPages

/-- The list and the page tables are as they were. -/
def Unchanged (s s' : State) : Prop :=
  s'.proc.vmaList = s.proc.vmaList ∧ s'.proc.vmaCount = s.proc.vmaCount ∧
    s'.paging.entries = s.paging.entries ∧ s'.paging.pages = s.paging.pages

/-- At most the page allocator and the statistics moved, and no page that was out came back. -/
structure Refused (s s' : State) : Prop where
  proc : s'.proc = s.proc
  paging : ∃ m, s'.paging = { s.paging with pmm := m } ∧ Memory.Inv m ∧
    ∀ b, Out s.paging.pmm b → Out m b

/-- The result of a call that started in `s`: the invariant holds, and an error changed
nothing. -/
def Sound {α : Type} (s : State) (r : Except Err α × State) : Prop :=
  Inv r.2 ∧ ∀ e, r.1 = .error e → Unchanged s r.2

variable {s s' : State} {α : Type} {area a : VmArea} {v x n : Nat} {faults : PageFaultStats}
  {address error length codeSize y : Nat} {write : Int} {heap : Bool} {β : Type}

theorem Refused.inv (hr : Refused s s') (h : Inv s) : Inv s' := by
  obtain ⟨hproc, m, hp, hm, hout⟩ := hr
  have hres : residents s'.paging s.proc.pageDirectory = residents s.paging s.proc.pageDirectory := by
    rw [hp]
    rfl
  refine ⟨?_, ?_, by rw [hproc]; exact h.areas, by rw [hproc]; exact h.count, ?_, ?_⟩
  · rw [hp]
    exact h.paging.with_pmm hm fun u hu => hout _ (h.paging.placed.out hu)
  · rw [hproc, hp]
    exact h.user
  · rw [hproc, hres]
    exact h.covered
  · rw [hproc, hres]
    exact h.resident

theorem Refused.sound (hr : Refused s s') (h : Inv s) (e : Err) :
    Sound s ((.error e, s') : Except Err α × State) := by
  refine ⟨hr.inv h, fun _ _ => ?_⟩
  obtain ⟨hproc, m, hp, _⟩ := hr
  exact ⟨by rw [hproc], by rw [hproc], by rw [hp], by rw [hp]⟩

theorem Inv.refused_self (h : Inv s) : Refused s s :=
  ⟨rfl, s.paging.pmm, rfl, h.paging.pmm, fun _ hb => hb⟩

/-- A call that returns at once with an error. -/
theorem Inv.sound_error (h : Inv s) (e : Err) :
    Sound s ((.error e, s) : Except Err α × State) := h.refused_self.sound h e

theorem Refused.record (hr : Refused s s') (f : ResourceFailure) (e : Err) (n : Nat) :
    Refused s (recordFailure f e n s') := ⟨hr.proc, hr.paging⟩

/-! ### Limits -/

theorem checkVma_cases (h : Inv s) :
    (∃ e s', checkVma n s = (.error e, s') ∧ Refused s s') ∨
    checkVma n s = (.ok (), s) ∧ dynamicCount s.proc.vmaList < maxDynamicVmas ∧
      dynamicBytes s.proc.vmaList + n ≤ maxAnonymousBytes := by
  have hself := h.refused_self
  unfold checkVma
  split
  · exact .inl ⟨_, _, rfl, hself⟩
  split
  · exact .inl ⟨_, _, rfl, hself⟩
  split
  · exact .inl ⟨_, _, rfl, hself⟩
  split
  · exact .inl ⟨_, _, rfl, hself⟩
  rename_i bytes vmas husage
  obtain ⟨hb, hv⟩ := dynamicUsage_ok husage
  split
  · exact .inl ⟨_, _, rfl, hself.record ..⟩
  split
  · exact .inl ⟨_, _, rfl, hself.record ..⟩
  split
  · exact .inl ⟨_, _, rfl, hself.record ..⟩
  · exact .inr ⟨rfl, by omega, by omega⟩

theorem checkVmaSplit_cases (h : Inv s) :
    (∃ e s', checkVmaSplit s = (.error e, s') ∧ Refused s s') ∨
    checkVmaSplit s = (.ok (), s) ∧ dynamicCount s.proc.vmaList < maxDynamicVmas := by
  have hself := h.refused_self
  unfold checkVmaSplit
  split
  · exact .inl ⟨_, _, rfl, hself⟩
  split
  · exact .inl ⟨_, _, rfl, hself⟩
  rename_i bytes vmas husage
  obtain ⟨_, hv⟩ := dynamicUsage_ok husage
  split
  · exact .inl ⟨_, _, rfl, hself.record ..⟩
  · exact .inr ⟨rfl, by omega⟩

/-- The check for one more page; a process that runs in the kernel is not counted. -/
theorem checkPage_cases (h : Inv s) (hu : s.proc.userMode = true) :
    (∃ e s', checkPage s = (.error e, s') ∧ Refused s s') ∨
    checkPage s = (.ok (), s) ∧
      (residents s.paging s.proc.pageDirectory).ncard < maxResidentPages := by
  have hself := h.refused_self
  have hpages : currentPages s = .ok (residents s.paging s.proc.pageDirectory).ncard := by
    unfold currentPages
    rw [if_neg (by simp [hu]), if_neg h.user.1]
    exact getUserPageCount_eq h.paging h.user
  unfold checkPage
  split
  · exact .inl ⟨_, _, rfl, hself⟩
  rw [hpages]
  dsimp only
  split
  · exact .inl ⟨_, _, rfl, hself.record ..⟩
  · exact .inr ⟨rfl, by omega⟩

/-! ### A page comes -/

theorem pagingFlags_user : hasFlag (pagingFlags area) flagUser = true := by
  unfold pagingFlags
  split <;> decide

/-- **A frame just taken becomes a page of an area**, or goes back. -/
theorem fillPage_sound (h : Inv s) {a : Nat} {m : MemInfo} (harea : area ∈ s.proc.vmaList)
    (hin : area.startAddr ≤ v ∧ v < area.endAddr) (hal : v % pageSize = 0)
    (hg : Gives s.paging.pmm m a)
    (hroom : (residents s.paging s.proc.pageDirectory).ncard < maxResidentPages) :
    Sound s (fillPage area v a (s.withPmm m)) := by
  have hwin := (h.areas.ok area harea).window
  have hv : v < 4294967296 :=
    lt_of_lt_of_le hin.2 (le_trans hwin.2 (by decide))
  -- the frame is nobody's: it was not out before
  have hp : Paging.Inv (s.withPmm m).paging :=
    h.paging.with_pmm hg.inv fun u hu => (hg.out _).mpr (.inl (h.paging.placed.out hu))
  have hlent : Paging.Lent (s.withPmm m).paging a := by
    refine ⟨(hg.out a).mpr (.inr rfl), fun u hu hc => hg.fresh ?_⟩
    rw [← hc]
    exact h.paging.placed.out hu
  have hback : ∀ m' : MemInfo, Memory.Inv m' → (∀ b, Out m' b ↔ Out m b) →
      Memory.Inv (m'.pmmFreePage a) ∧ ∀ b, Out s.paging.pmm b → Out (m'.pmmFreePage a) b := by
    intro m' hm' hsame
    have ht := Memory.freePage_takes hm' ((hsame a).mpr hlent.1)
    refine ⟨ht.inv, fun b hb => (ht.out b).mpr ⟨(hsame b).mpr ((hg.out b).mpr (.inl hb)), ?_⟩⟩
    intro hc
    exact hg.fresh (hc ▸ hb)
  unfold fillPage
  split
  · obtain ⟨h1, h2⟩ := hback m hg.inv fun _ => .rfl
    refine Refused.sound ?_ h _
    exact ⟨rfl, m.pmmFreePage a, rfl, h1, h2⟩
  rename_i bytes _
  have hframe : ((s.withPmm m).setFrame a bytes).paging = (s.withPmm m).paging := rfl
  have hproc : ((s.withPmm m).setFrame a bytes).proc = s.proc := rfl
  dsimp only
  rw [hframe, hproc]
  rcases Paging.mapUserPage_effect hp s.proc.pageDirectory hv pagingFlags_user hlent with
    ⟨e, m', he, hm', hsame⟩ | ⟨p', he, hp', husers, hframes⟩
  · rw [he]
    obtain ⟨h1, h2⟩ := hback m' hm' hsame
    refine Refused.sound ?_ h _
    exact ⟨rfl, m'.pmmFreePage a, rfl, h1, h2⟩
  rw [he]
  have hres : residents p' s.proc.pageDirectory =
      insert (tableIndex v, pageIndex v) (residents s.paging s.proc.pageDirectory) :=
    residents_insert hframes
  refine ⟨⟨hp', ?_, h.areas, h.count, ?_, ?_⟩, fun e hc => absurd hc (by simp)⟩
  · show Lib.Listed _ p'.userDirectories _
    rw [husers]
    exact h.user
  · intro x hx
    rw [hres] at hx
    rcases hx with rfl | hx
    · rw [pageAddress_index hal]
      exact ⟨area, harea, hin⟩
    · exact h.covered x hx
  · rw [hres]
    have := Set.ncard_insert_le (tableIndex v, pageIndex v)
      (residents s.paging s.proc.pageDirectory)
    omega

section

variable (h : Inv s) (hu : s.proc.userMode = true) (harea : area ∈ s.proc.vmaList)
  (hin : area.startAddr ≤ v ∧ v < area.endAddr) (hal : v % pageSize = 0) (write instruction : Int)
include h hu harea hin hal

theorem takePage_sound : Sound s (takePage area v write instruction s) := by
  unfold takePage
  split
  · exact h.sound_error _
  rcases checkPage_cases h hu with ⟨e, s', he, hr⟩ | ⟨he, hroom⟩
  · rw [he]
    exact hr.sound h e
  rw [he]
  dsimp only
  rcases Memory.allocPage_cases h.paging.pmm .process rfl with ⟨ha, _⟩ | ⟨a, m, ha, hg⟩
  · rw [ha]
    refine Refused.sound (Refused.record ?_ ..) h _
    exact ⟨rfl, _, rfl, { h.paging.pmm with }, fun _ hb => hb⟩
  · rw [ha]
    exact fillPage_sound h harea hin hal hg hroom

/-- **`process_vma_materialize_page`** for a page of an area. -/
theorem materializePage_sound :
    Sound s (materializePage area v write instruction s) := by
  unfold materializePage
  split
  · split
    · split
      · exact h.sound_error _
      · exact ⟨h, fun e hc => absurd hc (by simp)⟩
    · exact takePage_sound h hu harea hin hal write instruction
  · exact takePage_sound h hu harea hin hal write instruction

end

theorem userMode_of_current {u : Unit} (h : isCurrentUser s = .ok u) : s.proc.userMode = true := by
  unfold isCurrentUser at h
  split at h
  · cases h
  rename_i hc
  simp only [Bool.not_eq_true', Bool.and_eq_false_imp, not_or, Bool.not_eq_false] at hc
  by_contra hm
  exact hc.2 fun _ => by simpa using hm

/-- **`process_vma_ensure_page`.** -/
theorem ensurePage_sound (h : Inv s) : Sound s (ensurePage address write s) := by
  unfold ensurePage
  split
  · exact h.sound_error _
  rename_i hcur
  split
  · exact h.sound_error _
  split
  · exact h.sound_error _
  dsimp only
  split
  · exact h.sound_error _
  · rename_i area hfind
    obtain ⟨h1, h2⟩ := findPage_some hfind
    exact materializePage_sound h (userMode_of_current hcur) h1 h2 (mul_mod_left _ _) write 0

/-- The statistics of page faults are no part of the invariant. -/
theorem Sound.count_fault {r : Except Err α} {r' : Except Err β} (h : Sound s (r, s'))
    (hr : ∀ e, r' = .error e → ∃ e', r = .error e') :
    Sound s (r', { s' with faults := faults }) := by
  refine ⟨{ h.1 with }, fun e he => ?_⟩
  obtain ⟨e', he'⟩ := hr e he
  exact h.2 e' he'

theorem pageFaultFailure_sound {e e' : Err}
    (h : Sound s ((.error e, s') : Except Err Unit × State)) :
    Sound s (pageFaultFailure e' s') := h.count_fault (fun _ _ => ⟨e, rfl⟩)

/-- **`process_vma_handle_page_fault`.** -/
theorem handlePageFault_sound (h : Inv s) : Sound s (handlePageFault address error s) := by
  have herr : ∀ e, Sound s (pageFaultFailure e s) := fun e => pageFaultFailure_sound (h.sound_error e)
  unfold handlePageFault
  split
  · exact herr _
  rename_i hcur
  split
  · exact herr _
  dsimp only
  split
  · exact herr _
  rename_i area hfind
  split
  · exact herr _
  split
  · exact herr _
  split
  · exact herr _
  obtain ⟨h1, h2⟩ := findPage_some hfind
  have hmat := materializePage_sound h (userMode_of_current hcur) h1 h2 (mul_mod_left _ _)
    (ofBool (hasFlag error faultWrite)) (ofBool (hasFlag error faultInstruction))
  split
  · rename_i e s' he
    rw [he] at hmat
    exact pageFaultFailure_sound hmat
  · rename_i s' he
    rw [he] at hmat
    exact hmat.count_fault (fun e hc => absurd hc (by simp))

/-! ### Areas come and go -/

theorem aligned_add (hx : x % pageSize = 0) (hy : y % pageSize = 0) : (x + y) % pageSize = 0 := by
  rw [add_mod, hx, hy, zero_mod]

theorem validateLength_ok {r : Nat} (h : validateLength n = .ok r) : 0 < r ∧ r % pageSize = 0 := by
  unfold validateLength at h
  split at h
  · cases h
  split at h
  · cases h
  dsimp only at h
  split at h
  · cases h
  · rename_i hne
    cases h
    exact ⟨pos_of_ne_zero hne, mul_mod_left _ _⟩

theorem create_some {f : Nat} (h : create heap x y f = some a) : a = ⟨x, y, f, 0, 0⟩ := by
  unfold create at h
  split at h
  · exact (Option.some.inj h).symm
  · cases h

/-- **An area more, within the limits**, where the list has room for it. -/
theorem Inv.addArea (h : Inv s) {l : List VmArea} (hins : insertSorted a s.proc.vmaList = .ok l)
    (ha : AreaOk a) (hfew : dynamicCount (a :: s.proc.vmaList) ≤ maxDynamicVmas)
    (hsmall : dynamicBytes (a :: s.proc.vmaList) ≤ maxAnonymousBytes) :
    Inv (s.setAreas l (u32 (s.proc.vmaCount + 1))) := by
  obtain ⟨_, hperm⟩ := insertSorted_ok hins h.areas.spaced
  have hlt := h.areas.length_lt
  refine ⟨h.paging, h.user, h.areas.insert hins ha hfew hsmall, ?_, fun x hx => ?_, h.resident⟩
  · show u32 (s.proc.vmaCount + 1) = l.length
    rw [hperm.length_eq, length_cons, h.count, u32_of_lt (by omega)]
  · exact (h.covered x hx).mono fun b hb => hperm.mem_iff.mpr (mem_cons_of_mem _ hb)

/-- **`process_vma_mmap`.** -/
theorem mmap_sound (h : Inv s) (heap : Bool) (length protection flags : Nat) (addressOut : Bool) :
    Sound s (mmap heap length protection flags addressOut s) := by
  unfold mmap
  split
  · exact h.sound_error _
  split
  · exact h.sound_error _
  split
  · exact h.sound_error _
  split
  · exact h.sound_error _
  split
  · exact h.sound_error _
  rename_i rounded hlen
  obtain ⟨hpos, hround⟩ := validateLength_ok hlen
  split
  · exact h.sound_error _
  split
  · exact h.sound_error _
  rename_i address hgap
  obtain ⟨⟨hlo, hhi, _⟩, hal⟩ := findGap_ok h.areas.valid hgap
  rcases checkVma_cases h with ⟨e, s', he, hr⟩ | ⟨he, hfew, hsmall⟩
  · rw [he]
    exact hr.sound h e
  rw [he]
  dsimp only
  split
  · exact h.sound_error _
  split
  · exact h.sound_error _
  rename_i area harea
  obtain rfl := create_some harea
  have hdyn : (⟨address, address + rounded, protection ||| flags, 0, 0⟩ : VmArea).isDynamic
      = true := isDynamic_iff.mpr ⟨hlo, hhi⟩
  split
  · exact h.sound_error _
  rename_i list hins
  refine ⟨h.addArea hins ⟨hal, ?_, .inl hdyn⟩ ?_ ?_, fun e hc => absurd hc (by simp)⟩
  · exact aligned_add hal hround
  · rw [dynamicCount_cons, if_pos hdyn]
    omega
  · rw [dynamicBytes_cons, if_pos hdyn]
    unfold VmArea.size
    dsimp only
    omega

/-- **An area is cut**, with the pages in the cut. -/
theorem cutArea_sound (h : Inv s) {l₁ l₂ : List VmArea} {right : Option VmArea}
    (hlist : s.proc.vmaList = l₁ ++ a :: l₂) (hlo : a.startAddr ≤ x) (hn : 0 < n)
    (hhi : x + n ≤ a.endAddr) (hx : x % pageSize = 0) (hround : n % pageSize = 0)
    (hmin : mmapStart ≤ x) (hmax : x + n ≤ mmapEnd)
    (hright : a.startAddr < x → x + n < a.endAddr →
      (∃ r, right = some r ∧ r.startAddr = x + n ∧ r.endAddr = a.endAddr) ∧
        dynamicCount s.proc.vmaList < maxDynamicVmas) :
    Sound s (cutArea l₁ a l₂ x (x + n) n right s) := by
  have hok := h.areas.ok a (by rw [hlist]; exact mem_append_right _ mem_cons_self)
  have hdyn := hok.dynamic_of_reach (by omega) (by omega)
  have hpieces : Pieces a x (x + n) (remains a x (x + n) n right) := by
    exact remains_pieces hok hlo (by omega) hhi hx (aligned_add hx hround)
      fun h1 h2 => (hright h1 h2).1
  generalize hr : remains a x (x + n) n right = r at hpieces
  have hareas := h.areas
  have hcount := h.count
  have hlt := h.areas.length_lt
  rw [hlist] at hareas hcount hlt
  have hcut : Areas (l₁ ++ (r ++ l₂)) := by
    refine hareas.cut hdyn hpieces fun h2 => ?_
    rcases hpieces.length with h1 | ⟨_, h3, h4⟩
    · omega
    · rw [← hlist]
      exact (hright h3 h4).2
  unfold cutArea
  rw [hr]
  rcases unmapPages_cases h.paging h.user x (x + n) with ⟨e, he⟩ | ⟨p', he, hp', hud, hres, _⟩
  · rw [he]
    exact h.sound_error e
  rw [he]
  refine ⟨⟨hp', hud, hcut, ?_, fun y hy => ?_, ?_⟩, fun e hc => absurd hc (by simp)⟩
  · -- the count follows the number of pieces
    rw [length_append, length_cons] at hcount hlt
    show (if r.length = 0 then _ else if r.length = 2 then _ else _) = (l₁ ++ (r ++ l₂)).length
    rw [length_append, length_append]
    rcases hpieces.length with h1 | ⟨h2, _⟩
    · split
      · omega
      · rw [if_neg (by omega)]
        omega
    · rw [if_neg (by omega), if_pos h2, u32_of_lt (by omega)]
      omega
  · obtain ⟨hy1, hy2⟩ := (hres y).mp hy
    have hcov := h.covered y hy1
    rw [hlist] at hcov
    exact hcov.replace fun h1 h2 => hpieces.covers _ h1 h2 hy2
  · refine le_trans (Set.ncard_le_ncard (fun y hy => ((hres y).mp hy).1) ?_) h.resident
    exact residents_finite h.paging _

/-- **`process_vma_munmap`**: the whole area, its beginning, its end, or a hole in it. -/
theorem munmap_sound (h : Inv s) : Sound s (munmap heap address length s) := by
  unfold munmap
  split
  · exact h.sound_error _
  split
  · exact h.sound_error _
  rename_i hal
  split
  · exact h.sound_error _
  rename_i rounded hlen
  obtain ⟨hpos, hround⟩ := validateLength_ok hlen
  split
  · exact h.sound_error _
  split
  · exact h.sound_error _
  dsimp only
  split
  · exact h.sound_error _
  rename_i before area after hfind
  obtain ⟨hlist, hlo, hhi⟩ := findContaining_some hfind
  split
  · exact h.sound_error _
  have hx : address % pageSize = 0 := by simpa using hal
  split
  · rcases checkVmaSplit_cases h with ⟨e, s', he, hr⟩ | ⟨he, hfew⟩
    · rw [he]
      exact hr.sound h e
    rw [he]
    dsimp only
    split
    · exact h.sound_error _
    rename_i right hright
    obtain rfl := create_some hright
    exact cutArea_sound h hlist hlo hpos hhi hx hround (by omega) (by omega)
      fun _ _ => ⟨⟨_, rfl, rfl, rfl⟩, hfew⟩
  · rename_i hno
    exact cutArea_sound h hlist hlo hpos hhi hx hround (by omega) (by omega)
      fun h1 h2 => absurd ⟨h1, h2⟩ hno

/-! ### The image -/

/-- Without user pages there is nothing to unmap. -/
theorem unmapPages_none {p : Paging.State} (h : Paging.Inv p) {d : Nat} (hd : p.User d)
    (hnone : residents p d = ∅) : (unmapPages d x y p).2 = p := by
  rcases unmapPages_cases h hd x y with ⟨e, he⟩ | ⟨p', he, _, _, _, hsame⟩
  · rw [he]
  · rw [he]
    exact hsame hnone

theorem release_none (h : Inv s) (hnone : residents s.paging s.proc.pageDirectory = ∅) :
    release s = s.setAreas [] 0 := by
  have hfold : ∀ l : List VmArea, l.foldl (fun p area =>
      (unmapPages s.proc.pageDirectory area.startAddr area.endAddr p).2) s.paging = s.paging := by
    intro l
    induction l with
    | nil => rfl
    | cons a l ih => rw [foldl_cons, unmapPages_none h.paging h.user hnone, ih]
  unfold release
  rw [if_neg h.user.1, hfold]

/-- The loop over the areas of an image: it inserts them all, or none is left. -/
theorem registerLoop_sound : ∀ (fs : List (Nat × Nat)) (heap : List Bool) {s : State}, Inv s →
    residents s.paging s.proc.pageDirectory = ∅ → (∀ f ∈ fs, f ∈ imageAreas) →
    Inv (registerLoop fs heap s).2 ∧ ∀ e, (registerLoop fs heap s).1 = .error e →
      (registerLoop fs heap s).2 = s.setAreas [] 0 := by
  intro fs
  induction fs with
  | nil => intro heap s h _ _; exact ⟨h, fun e hc => absurd hc (by simp [registerLoop])⟩
  | cons f fs ih =>
    intro heap s h hnone hsub
    have hrel := release_none h hnone
    have hempty : Inv (s.setAreas [] 0) := by
      refine ⟨h.paging, h.user, areas_nil, rfl, fun x hx => ?_, h.resident⟩
      have hx : x ∈ residents s.paging s.proc.pageDirectory := hx
      rw [hnone] at hx
      exact absurd hx (Set.notMem_empty x)
    rw [registerLoop]
    split
    · rw [hrel]
      exact ⟨hempty, fun _ _ => rfl⟩
    rename_i area harea
    obtain rfl := create_some harea
    split
    · rw [hrel]
      exact ⟨hempty, fun _ _ => rfl⟩
    rename_i list hins
    obtain ⟨hal, hlo, hwhere⟩ := imageAreas_start (hsub f mem_cons_self)
    have hok : AreaOk ⟨f.1, f.1 + pageSize, f.2, 0, 0⟩ := by
      refine ⟨hal, ?_, .inr ⟨⟨f, hsub f mem_cons_self, rfl⟩, rfl⟩⟩
      rw [add_mod_right]
      exact hal
    have hstatic : ¬ (⟨f.1, f.1 + pageSize, f.2, 0, 0⟩ : VmArea).isDynamic = true := by
      rw [isDynamic_iff]
      dsimp only
      have hP : pageSize = 4096 := rfl
      omega
    have hadd := h.addArea hins hok
      (by rw [dynamicCount_cons, if_neg hstatic, zero_add]; exact h.areas.few)
      (by rw [dynamicBytes_cons, if_neg hstatic, zero_add]; exact h.areas.small)
    exact ih heap.tail hadd hnone fun g hg => hsub g (mem_cons_of_mem _ hg)

/-- **`process_vma_register_image`.** -/
theorem registerImage_sound (h : Inv s) (heap : List Bool) :
    Sound s (registerImage heap codeSize s) := by
  unfold registerImage
  split
  · exact h.sound_error _
  split
  · exact h.sound_error _
  rename_i hfirst
  rw [not_or, not_not, not_not] at hfirst
  -- without areas there are no user pages
  have hnone : residents s.paging s.proc.pageDirectory = ∅ := by
    rw [Set.eq_empty_iff_forall_notMem]
    intro x hx
    obtain ⟨a, ha, _⟩ := h.covered x hx
    rw [hfirst.1] at ha
    exact absurd ha not_mem_nil
  obtain ⟨h1, h2⟩ := registerLoop_sound imageAreas heap h hnone fun _ hf => hf
  refine ⟨h1, fun e he => ?_⟩
  rw [h2 e he]
  exact ⟨hfirst.1.symm, hfirst.2.symm, rfl, rfl⟩

end ZephyrOS.Vma
