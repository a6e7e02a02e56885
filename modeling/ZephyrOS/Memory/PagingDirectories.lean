import ZephyrOS.Memory.PagingCalls

/-!
# User directories come and go

A new user directory starts with the kernel's tables and nothing of its own. Freeing one
walks its entries, and gives back the frames of each own table, the table, and at the end
the directory: every use the directory has, once. The walk is compared with the list of
those uses.
-/

namespace ZephyrOS.Paging

open ZephyrOS.Memory (pageSize MemInfo MemoryZone Out Gives Takes freeAll)

open Lib List Function

variable {s : State} {i d k k' : Nat} {m : MemInfo} {d' t : Nat} {u : Use}

/-! ### A new directory -/

/-- The state with a new user directory `d`, in slot `k` of all directories and in slot `k'`
of the users'. -/
def State.withDirectory (s : State) (d k k' : Nat) (m : MemInfo) : State :=
  { s with
    pmm := m
    pagingDirectories := update s.pagingDirectories k d
    userDirectories := update s.userDirectories k' d
    entries := (s.inheritEntries d).entries
    stats := { s.stats with
      activeDirectories := u32 (s.stats.activeDirectories + 1)
      directoriesCreated := u32 (s.stats.directoriesCreated + 1) } }

theorem withDirectory_inherited (hi : i < tableEntries) :
    (s.withDirectory d k k' m).entries d i = { s.entries s.kernelDirectory i with user := false } := by
  show update s.entries d _ d i = _
  rw [update_self, if_pos hi]

section NewDirectory

variable {d k k' : Nat} {m : MemInfo} (h : Inv s) (hg : Gives s.pmm m d)

include h hg

theorem Inv.new_not_managed : ¬ s.Managed d := fun hc => hg.fresh (h.directory_out hc)

theorem withDirectory_entries (hd' : s.Managed d') :
    (s.withDirectory d k k' m).entries d' i = s.entries d' i := by
  have hne : d' ≠ d := fun hc => h.new_not_managed hg (hc ▸ hd')
  show update s.entries d _ d' i = _
  rw [update_of_ne hne]

/-- The other directories are what they were. -/
theorem withDirectory_same (hd' : s.Managed d') : SameEntry s (s.withDirectory d k k' m) d' i := by
  refine ⟨withDirectory_entries h hg hd', ?_, fun _ _ => rfl⟩
  unfold State.Own
  rw [withDirectory_entries h hg hd',
    show (s.withDirectory d k k' m).kernelDirectory = s.kernelDirectory from rfl,
    withDirectory_entries h hg h.registry.kernel]

/-- The new directory has nothing of its own. -/
theorem withDirectory_own_new (hi : i < tableEntries) : ¬ (s.withDirectory d k k' m).Own d i := by
  intro hc
  rcases hc.2 with hdk | hne
  · exact h.new_not_managed hg (hdk ▸ h.registry.kernel)
  · apply hne
    rw [show (s.withDirectory d k k' m).kernelDirectory = s.kernelDirectory from rfl,
      withDirectory_entries h hg h.registry.kernel, withDirectory_inherited hi]

theorem withDirectory_live
    (hm : ∀ d', (s.withDirectory d k k' m).Managed d' ↔ s.Managed d' ∨ d' = d) (u : Use) :
    u ∈ live (s.withDirectory d k k' m) ↔ u ∈ live s ∨ u = .directory d := by
  cases u with
  | directory d' =>
    rw [Use.directory.injEq]
    exact hm d'
  | table d' i =>
    rw [or_iff_left (by simp)]
    refine (and_congr_left' (hm d')).trans (or_and_right.trans ((or_iff_left ?_).trans
      (and_congr_right fun hd' => and_congr_right fun _ => (withDirectory_same h hg hd').own)))
    rintro ⟨rfl, hi, ho⟩
    exact withDirectory_own_new h hg hi ho
  | frame d' i j =>
    rw [or_iff_left (by simp)]
    refine (and_congr_left' (hm d')).trans (or_and_right.trans ((or_iff_left ?_).trans
      (and_congr_right fun hd' => and_congr_right fun _ => (withDirectory_same h hg hd').frame j)))
    rintro ⟨rfl, hi, ho, _⟩
    exact withDirectory_own_new h hg hi ho

/-- **A new user directory keeps the invariant.** -/
theorem Inv.newDirectory (hk : slotOf maxDirectories s.pagingDirectories 0 = some k)
    (hk' : slotOf maxUserDirectories s.userDirectories 0 = some k') :
    Inv (s.withDirectory d k k' m) := by
  have hm : ∀ d', (s.withDirectory d k k' m).Managed d' ↔ s.Managed d' ∨ d' = d :=
    fun d' => listed_fill hk hg.ne_zero
  have hu : ∀ d', (s.withDirectory d k k' m).User d' ↔ s.User d' ∨ d' = d :=
    fun d' => listed_fill hk' hg.ne_zero
  have hnew := h.new_not_managed hg
  have hlive := withDirectory_live h hg hm
  refine ⟨hg.inv, ⟨?_, ?_, ?_, ?_, ?_, ?_, h.registry.ready⟩, ?_, ?_, ?_⟩
  · exact distinct_fill h.registry.managed hnew
  · exact distinct_fill h.registry.users fun hc => hnew (h.managed_of_user hc)
  · exact (hm _).mpr (.inl h.registry.kernel)
  · intro hc
    rcases (hu _).mp hc with hc | hc
    · exact h.registry.notUser hc
    · exact hnew (hc ▸ h.registry.kernel)
  · intro d'
    rw [hm, hu, h.registry.all, or_assoc]
    exact .rfl
  · exact (hm _).mpr (.inl h.registry.current)
  · intro d' hd' i hi
    rcases (hm d').mp hd' with hold | rfl
    · exact (withDirectory_same h hg hold).entryOk (h.entry d' hold i hi) fun hc =>
        (hu d').mpr (.inl hc)
    refine ⟨?_, fun huser => ?_, fun ho => absurd ho (withDirectory_own_new h hg hi)⟩
    · rw [withDirectory_inherited hi]
      rcases (h.entry _ h.registry.kernel i hi).filled with hz | hp
      · left
        rw [hz]
        rfl
      · exact .inr hp
    · rw [withDirectory_inherited hi] at huser
      exact absurd huser Bool.false_ne_true
  · refine h.place hg (.directory d) fun v hv => ?_
    rcases (hlive v).mp hv with hv | rfl
    · exact .inl ⟨hv, same_address hv fun _ _ _ hd' _ _ => withDirectory_same h hg hd'⟩
    · exact .inr ⟨rfl, rfl⟩
  · rw [frames_congr fun _ _ _ => (hlive _).trans (or_iff_left (by simp))]
    exact h.active

end NewDirectory

/-- **All `paging_create_user_directory` can do**: fail and change no one's pages, or add a
directory. -/
theorem createUserDirectory_cases (h : Inv s) :
    (∃ m e, createUserDirectory s = (none, { s with pmm := m, entries := e }) ∧ Memory.Inv m ∧
      (∀ b, Out m b ↔ Out s.pmm b) ∧ (∀ d, s.Managed d → e d = s.entries d) ∧
      (s.pmm.freeSet = ∅ ∨ slotOf maxDirectories s.pagingDirectories 0 = none ∨
        slotOf maxUserDirectories s.userDirectories 0 = none)) ∨
    ∃ d k k' m, createUserDirectory s = (some d, s.withDirectory d k k' m) ∧ Gives s.pmm m d ∧
      slotOf maxDirectories s.pagingDirectories 0 = some k ∧
      slotOf maxUserDirectories s.userDirectories 0 = some k' := by
  have hcur : s.currentDirectory ≠ 0 := h.registry.current.1
  have hker : s.kernelDirectory ≠ 0 := h.registry.kernel.1
  unfold createUserDirectory
  rw [if_neg (by simp [State.isReady, h.registry.ready, hcur, hker])]
  rcases Memory.allocPage_cases h.pmm .process rfl with ⟨ha, hnone⟩ | ⟨d, m, ha, hg⟩
  · rw [ha]
    exact .inl ⟨_, s.entries, rfl, { h.pmm with }, fun _ => .rfl, fun _ _ => rfl, .inl hnone⟩
  rw [ha]
  have hd0 := hg.ne_zero
  have hnew := h.new_not_managed hg
  dsimp only [State.registerDirectory]
  rw [if_neg hd0]
  cases hk : slotOf maxDirectories s.pagingDirectories 0 with
  | none =>
    exact .inl ⟨_, s.entries, rfl, hg.takes.1, hg.takes.2, fun _ _ => rfl, .inr (.inl rfl)⟩
  | some k =>
    dsimp only [State.registerUserDirectory, State.inheritEntries]
    rw [if_neg hd0]
    cases hk' : slotOf maxUserDirectories s.userDirectories 0 with
    | some k' => exact .inr ⟨d, k, k', m, rfl, hg, rfl, rfl⟩
    | none =>
      -- the slot that was filled is found again and cleared
      obtain ⟨hslot, hback⟩ := slotOf_fill hk hd0 hnew
      left
      dsimp only [State.unregisterDirectory, State.directoryIndex, State.freePage]
      rw [if_neg hd0, hslot]
      dsimp only
      rw [hback]
      refine ⟨_, _, rfl, hg.takes.1, hg.takes.2, fun d' hd' => ?_, .inr (.inr rfl)⟩
      have hne : d' ≠ d := by
        intro hc
        exact hnew (hc ▸ hd')
      exact update_of_ne hne ..

/-- Only pages that are no directory changed. -/
theorem Inv.with_entries (h : Inv s) {e : Nat → Nat → DirEntry}
    (he : ∀ d, s.Managed d → e d = s.entries d) : Inv { s with entries := e } := by
  have hsame : ∀ d i, s.Managed d → SameEntry s { s with entries := e } d i := by
    intro d i hd
    refine ⟨congrFun (he d hd) i, ?_, fun _ _ => rfl⟩
    unfold State.Own
    dsimp only
    rw [he d hd, he _ h.registry.kernel]
  have hlive : ∀ u, u ∈ live { s with entries := e } ↔ u ∈ live s := by
    refine fun u => (live_iff (P := fun _ => True) ?_ (fun d i hd _ => hsame d i hd) u).trans
      (and_iff_left trivial)
    exact fun _ => (and_iff_left trivial).symm
  refine ⟨h.pmm, { h.registry with }, fun d hd i hi => ?_, ?_, ?_⟩
  · exact (hsame d i hd).entryOk (h.entry d hd i hi) id
  · refine h.placed.shrink (fun v hv => ?_) fun v hv => h.placed.out ((hlive v).mp hv)
    have hv := (hlive v).mp hv
    exact ⟨hv, same_address hv fun d i _ hd _ _ => hsame d i hd⟩
  · rw [frames_congr fun _ _ _ => hlive _]
    exact h.active

/-- **`paging_create_user_directory` keeps the invariant.** -/
theorem createUserDirectory_inv (h : Inv s) :
    Inv (createUserDirectory s).2 ∧ Keeps s (createUserDirectory s).2 := by
  rcases createUserDirectory_cases h with ⟨m, e, he, hm, hout, hold, _⟩ | ⟨d, k, k', m, he, hg, hk, hk'⟩
  · rw [he]
    refine ⟨(h.with_pmm hm fun u hu => ?_).with_entries hold, rfl, rfl, fun i _ => ?_⟩
    · exact (hout _).mpr (h.placed.out hu)
    · exact congrFun (hold _ h.registry.kernel) i
  · rw [he]
    exact ⟨h.newDirectory hg hk hk', rfl, rfl,
      fun i _ => withDirectory_entries h hg h.registry.kernel⟩

/-! ### A directory goes -/

/-- The user pages among the first `k` of table `t`. -/
def State.userPagesBelow (s : State) (t k : Nat) : List Nat :=
  (List.range k).filter fun j => (s.pages t j).present && (s.pages t j).user

theorem mem_userPagesBelow {j : Nat} : j ∈ s.userPagesBelow t k ↔ j < k ∧ s.UserPage t j := by
  unfold State.userPagesBelow State.UserPage
  rw [mem_filter, mem_range, Bool.and_eq_true]

theorem userPagesBelow_succ : s.userPagesBelow t (k + 1) =
    s.userPagesBelow t k ++
      if (s.pages t k).present = true ∧ (s.pages t k).user = true then [k] else [] := by
  unfold State.userPagesBelow
  rw [range_succ]
  by_cases hp : (s.pages t k).present = true ∧ (s.pages t k).user = true
  · simp [hp]
  · rw [if_neg hp]
    simpa using hp

/-- The uses under entry `i` of a user directory, in the order they are freed. -/
def State.tableUses (s : State) (d i : Nat) : List Use :=
  if (s.entries d i).present ∧ (s.entries d i).table ≠ (s.entries s.kernelDirectory i).table then
    (s.userPagesBelow (s.entries d i).table tableEntries).map (Use.frame d i) ++ [.table d i]
  else []

/-- The uses of a user directory, in the order they are freed. -/
def State.uses (s : State) (d : Nat) : List Use :=
  (List.range tableEntries).flatMap (s.tableUses d) ++ [.directory d]

def Use.isFrame : Use → Bool
  | .frame _ _ _ => true
  | _ => false

theorem mem_tableUses (hk : d ≠ s.kernelDirectory) :
    u ∈ s.tableUses d i ↔ s.Own d i ∧ (u = .table d i ∨
      ∃ j < tableEntries, s.UserPage (s.entries d i).table j ∧ u = .frame d i j) := by
  unfold State.tableUses State.Own
  rw [or_iff_right hk]
  split
  · rename_i ho
    rw [and_iff_right ho, mem_append, mem_singleton, or_comm]
    refine or_congr_right ?_
    simp only [mem_map, mem_userPagesBelow]
    constructor
    · intro hu
      obtain ⟨j, ⟨hj, hp⟩, rfl⟩ := hu
      exact ⟨j, hj, hp, rfl⟩
    · intro hu
      obtain ⟨j, hj, hp, rfl⟩ := hu
      exact ⟨j, ⟨hj, hp⟩, rfl⟩
  · rename_i ho
    simp [ho]

/-- **The list has every use of the directory.** -/
theorem mem_uses (h : Inv s) (hd : s.User d) (u : Use) :
    u ∈ s.uses d ↔ u ∈ live s ∧ u.owner = d := by
  have hk := h.ne_kernel hd
  have hm := h.managed_of_user hd
  unfold State.uses
  rw [mem_append, mem_singleton, mem_flatMap]
  simp only [mem_range, mem_tableUses hk]
  constructor
  · intro hu
    rcases hu with ⟨i, hi, ho, rfl | ⟨j, hj, hp, rfl⟩⟩ | rfl
    · exact ⟨⟨hm, hi, ho⟩, rfl⟩
    · exact ⟨⟨hm, hi, ho, hj, hp⟩, rfl⟩
    · exact ⟨hm, rfl⟩
  · intro hu
    obtain ⟨hu, rfl⟩ := hu
    cases u with
    | directory d => exact .inr rfl
    | table d i =>
      obtain ⟨_, hi, ho⟩ := hu
      exact .inl ⟨i, hi, ho, .inl rfl⟩
    | frame d i j =>
      obtain ⟨_, hi, ho, hj, hp⟩ := hu
      exact .inl ⟨i, hi, ho, .inr ⟨j, hj, hp, rfl⟩⟩

theorem tableUses_nodup : (s.tableUses d i).Nodup := by
  unfold State.tableUses
  split
  · refine Nodup.append ?_ (nodup_singleton _) ?_
    · refine (nodup_range.filter _).map fun a b hab => ?_
      exact (Use.frame.inj hab).2.2
    · intro u hu hc
      rw [mem_singleton] at hc
      subst hc
      simp at hu
  · exact nodup_nil

/-- **No use is in it twice.** -/
theorem uses_nodup (hk : d ≠ s.kernelDirectory) : (s.uses d).Nodup := by
  refine Nodup.append ?_ (nodup_singleton _) ?_
  · rw [nodup_flatMap]
    refine ⟨fun i _ => tableUses_nodup, ?_⟩
    refine nodup_range.imp fun {i i'} hne u hu hu' => hne ?_
    -- a use says which entry it is under
    rcases ((mem_tableUses hk).mp hu).2 with rfl | ⟨j, _, _, rfl⟩
    · rcases ((mem_tableUses hk).mp hu').2 with he | ⟨j, _, _, he⟩
      · exact (Use.table.inj he).2
      · cases he
    · rcases ((mem_tableUses hk).mp hu').2 with he | ⟨j', _, _, he⟩
      · cases he
      · exact (Use.frame.inj he).2.1
  · intro u hu hc
    rw [mem_singleton] at hc
    subst hc
    obtain ⟨i, _, hi⟩ := mem_flatMap.mp hu
    rcases ((mem_tableUses hk).mp hi).2 with he | ⟨j, _, _, he⟩
    · cases he
    · cases he

/-- The inner loop frees the frames of a table, and counts them. -/
theorem releaseTablePages_eq (released : Nat) :
    releaseTablePages t s released =
      ({ s with pmm := freeAll ((s.userPagesBelow t tableEntries).map fun j =>
          (s.pages t j).frame * pageSize) s.pmm },
        released + (s.userPagesBelow t tableEntries).length) := by
  refine forRange_induct (fun k a => a =
    ({ s with pmm := freeAll ((s.userPagesBelow t k).map fun j =>
        (s.pages t j).frame * pageSize) s.pmm },
      released + (s.userPagesBelow t k).length)) rfl ?_
  intro k a _ ha
  subst ha
  rw [userPagesBelow_succ, zero_add]
  by_cases hp : (s.pages t k).present = true ∧ (s.pages t k).user = true
  · rw [if_pos hp, if_pos hp, map_append, length_append]
    unfold freeAll
    rw [foldl_append]
    rfl
  · rw [if_neg hp, if_neg hp, append_nil]

/-- The entries after the first `k` rounds of the walk over those of `d`. -/
def State.walkedEntries (s : State) (d k : Nat) : Nat → Nat → DirEntry := fun d' i =>
  if d' = d ∧ i < k ∧ s.tableUses d i ≠ [] then DirEntry.zero else s.entries d' i

/-- The state after the first `k` rounds. -/
def State.walked (s : State) (d k : Nat) : State :=
  { s with
    entries := s.walkedEntries d k
    pmm := freeAll (((List.range k).flatMap (s.tableUses d)).map (address s)) s.pmm }

theorem walkedEntries_skip (h : s.tableUses d k = []) :
    s.walkedEntries d (k + 1) = s.walkedEntries d k := by
  funext d' i
  refine if_congr ?_ rfl rfl
  refine and_congr_right fun _ => ?_
  constructor
  · intro hc
    have hne : i ≠ k := fun he => hc.2 (he ▸ h)
    exact ⟨by omega, hc.2⟩
  · intro hc
    exact ⟨by omega, hc.2⟩

theorem walkedEntries_clear (h : s.tableUses d k ≠ []) :
    s.walkedEntries d (k + 1) = update (s.walkedEntries d k) d
      (update (s.walkedEntries d k d) k DirEntry.zero) := by
  funext d' i
  by_cases hd : d' = d
  · subst hd
    rw [update_self]
    by_cases hi : i = k
    · subst hi
      rw [update_self]
      exact if_pos ⟨rfl, by omega, h⟩
    · rw [update_of_ne hi]
      refine if_congr (and_congr_right fun _ => and_congr_left fun _ => ?_) rfl rfl
      omega
  · rw [update_of_ne hd]
    unfold State.walkedEntries
    rw [if_neg (fun hc => hd hc.1), if_neg (fun hc => hd hc.1)]

theorem walked_zero : s.walked d 0 = s := by
  have he : s.walkedEntries d 0 = s.entries := by
    funext d' i
    exact if_neg fun hc => Nat.not_lt_zero _ hc.2.1
  unfold State.walked
  rw [he]
  rfl

theorem range_tableUses : (List.range (k + 1)).flatMap (s.tableUses d) =
    (List.range k).flatMap (s.tableUses d) ++ s.tableUses d k := by
  rw [range_succ, flatMap_append, flatMap_singleton]

/-- One round that frees the table under entry `k`, after its user pages `js`. -/
theorem walked_succ {js : List Nat} (h : s.tableUses d k = js.map (Use.frame d k) ++ [.table d k]) :
    (State.setEntry { s.walked d k with pmm := freeAll (js.map fun j =>
        (s.pages (s.entries d k).table j).frame * pageSize) (s.walked d k).pmm }
      d k DirEntry.zero).freePage (s.entries d k).table = s.walked d (k + 1) := by
  have hclear := walkedEntries_clear (by rw [h]; simp)
  have hpmm : freeAll (((range (k + 1)).flatMap (s.tableUses d)).map (address s)) s.pmm =
      (freeAll (js.map fun j => (s.pages (s.entries d k).table j).frame * pageSize)
        (freeAll (((range k).flatMap (s.tableUses d)).map (address s)) s.pmm)).pmmFreePage
        (s.entries d k).table := by
    rw [range_tableUses, h]
    unfold freeAll
    rw [map_append, map_append, foldl_append, foldl_append, map_map]
    rfl
  unfold State.walked
  rw [hclear, hpmm]
  rfl

theorem countP_isFrame (js : List Nat) :
    (js.map (Use.frame d k) ++ [Use.table d k]).countP Use.isFrame = js.length := by
  have hall : (Use.isFrame ∘ Use.frame d k) = fun _ => true := rfl
  rw [countP_append, countP_map, hall, countP_true]
  rfl

/-- **The walk frees the uses of the entries**, one entry after the other. -/
theorem releaseTables_eq (h : Inv s) (hd : s.User d) :
    forRange 0 (releaseTable d) tableEntries (s, 0) =
      (s.walked d tableEntries,
        ((List.range tableEntries).flatMap (s.tableUses d)).countP Use.isFrame) := by
  have hk := h.ne_kernel hd
  refine forRange_induct (fun k a => a =
    (s.walked d k, ((range k).flatMap (s.tableUses d)).countP Use.isFrame)) ?_ ?_
  · rw [walked_zero]
    rfl
  intro k a hkt ha
  subst ha
  have hentry : (s.walked d k).entries d k = s.entries d k :=
    if_neg fun hc => lt_irrefl _ hc.2.1
  have hshared : (s.walked d k).sharedEntry k = s.entries s.kernelDirectory k := by
    unfold State.sharedEntry
    rw [if_neg (show (s.walked d k).kernelDirectory ≠ 0 from h.registry.kernel.1)]
    exact if_neg fun hc => hk hc.1.symm
  rw [zero_add]
  unfold releaseTable
  rw [hentry, hshared, range_tableUses, countP_append]
  by_cases ho : (s.entries d k).present = true ∧
      (s.entries d k).table ≠ (s.entries s.kernelDirectory k).table
  · have hne : (s.entries d k).table ≠ 0 :=
      (h.table_out (h.managed_of_user hd) hkt ⟨ho.1, .inr ho.2⟩).ne_zero h.pmm
    have huses : s.tableUses d k =
        (s.userPagesBelow (s.entries d k).table tableEntries).map (Use.frame d k) ++ [.table d k] :=
      if_pos ho
    rw [if_neg (by simp [ho.1, ho.2]), if_neg hne, releaseTablePages_eq,
      show (s.walked d k).userPagesBelow = s.userPagesBelow from rfl]
    exact Prod.ext (walked_succ huses) (by rw [huses, countP_isFrame])
  · -- an entry that is empty or the kernel's is passed over
    have hnil : s.tableUses d k = [] := if_neg ho
    rw [if_pos (by simpa [or_iff_not_imp_left] using ho), hnil]
    refine Prod.ext ?_ rfl
    unfold State.walked
    rw [walkedEntries_skip hnil, range_tableUses, hnil, append_nil]

/-- The state without user directory `d`, which was in slot `k` of the users' and in slot
`k'` of all directories. -/
def State.withoutDirectory (s : State) (d k k' : Nat) (stats : UserStats) : State :=
  { s with
    pmm := freeAll ((s.uses d).map (address s)) s.pmm
    entries := s.walkedEntries d tableEntries
    userDirectories := update s.userDirectories k 0
    pagingDirectories := update s.pagingDirectories k' 0
    stats := stats }

section

variable {k k' : Nat} (hd0 : d ≠ 0) (hk : slotOf maxUserDirectories s.userDirectories d = some k)
  (hk' : slotOf maxDirectories s.pagingDirectories d = some k')
include hd0 hk hk'

theorem unregister_both :
    (s.unregisterUserDirectory k).unregisterDirectory d =
      { s with
        userDirectories := update s.userDirectories k 0
        pagingDirectories := update s.pagingDirectories k' 0
        stats := s.stats.dropDirectory } := by
  obtain ⟨hkn, hkd⟩ := slotOf_some hk
  unfold State.unregisterUserDirectory
  rw [if_neg]
  · unfold State.unregisterDirectory State.directoryIndex
    rw [if_neg hd0]
    rw [hk']
  · intro hc
    rcases hc with hc | hc
    · omega
    · exact hd0 (hkd.symm.trans hc)

/-- The end of `paging_free_user_directory`, after `n` rounds of the walk. -/
theorem drop_walked (n c : Nat) :
    (((((s.walked d n).freePage d).discountPages c).unregisterUserDirectory k).unregisterDirectory d) =
      { s with
        pmm := (freeAll (((List.range n).flatMap (s.tableUses d)).map (address s)) s.pmm).pmmFreePage d
        entries := s.walkedEntries d n
        userDirectories := update s.userDirectories k 0
        pagingDirectories := update s.pagingDirectories k' 0
        stats := UserStats.dropDirectory
          { s.stats with activePages := s.stats.activePages - c } } := by
  rw [@unregister_both (((s.walked d n).freePage d).discountPages c) d k k' hd0 hk hk']
  rfl

end

/-- **All `paging_free_user_directory` can do**: refuse, or free every use the directory
has. -/
theorem freeUserDirectory_cases (h : Inv s) (d : Nat) :
    (freeUserDirectory d s = s.reject ∧ (¬ s.User d ∨ d = s.currentDirectory)) ∨
    ∃ k k' stats, freeUserDirectory d s = s.withoutDirectory d k k' stats ∧ s.User d ∧
      d ≠ s.currentDirectory ∧ slotOf maxUserDirectories s.userDirectories d = some k ∧
      slotOf maxDirectories s.pagingDirectories d = some k' ∧
      stats.activePages = s.stats.activePages - (s.uses d).countP Use.isFrame := by
  unfold freeUserDirectory
  by_cases hbad : d = 0 ∨ d = s.currentDirectory ∨ d = s.kernelDirectory
  · rw [if_pos hbad]
    refine .inl ⟨rfl, ?_⟩
    rcases hbad with rfl | hc | rfl
    · exact .inl fun hc => hc.1 rfl
    · exact .inr hc
    · exact .inl h.registry.notUser
  rw [if_neg hbad]
  have hd0 : d ≠ 0 := fun hc => hbad (.inl hc)
  have hcur : d ≠ s.currentDirectory := fun hc => hbad (.inr (.inl hc))
  have hindex : s.userDirectoryIndex d = slotOf maxUserDirectories s.userDirectories d := if_neg hd0
  rw [hindex]
  cases hk : slotOf maxUserDirectories s.userDirectories d with
  | none =>
    refine .inl ⟨rfl, .inl fun hc => ?_⟩
    obtain ⟨_, i, hi, hdi⟩ := hc
    exact slotOf_none hk hi hdi
  | some k =>
    right
    obtain ⟨hkn, hkd⟩ := slotOf_some hk
    have hud : s.User d := ⟨hd0, k, hkn, hkd⟩
    obtain ⟨k', hk'⟩ := Option.isSome_iff_exists.mp
      (slotOf_isSome.mpr (h.managed_of_user hud).2)
    have hcount : (s.uses d).countP Use.isFrame =
        ((range tableEntries).flatMap (s.tableUses d)).countP Use.isFrame := by
      unfold State.uses
      generalize (range tableEntries).flatMap (s.tableUses d) = us
      rw [countP_append]
      rfl
    have hpmm : freeAll ((s.uses d).map (address s)) s.pmm =
        (freeAll (((range tableEntries).flatMap (s.tableUses d)).map (address s)) s.pmm).pmmFreePage d := by
      unfold State.uses freeAll
      generalize (range tableEntries).flatMap (s.tableUses d) = us
      rw [map_append, foldl_append]
      rfl
    dsimp only
    rw [releaseTables_eq h hud, ← hcount]
    refine ⟨k, k', UserStats.dropDirectory { s.stats with
      activePages := s.stats.activePages - (s.uses d).countP Use.isFrame }, ?_, hud, hcur, rfl, hk', ?_⟩
    · unfold State.withoutDirectory
      rw [hpmm, drop_walked hd0 hk hk']
    · rfl

section DropDirectory

variable {s : State} {d k k' : Nat} {stats : UserStats} (h : Inv s) (hd : s.User d)
  (hk : slotOf maxUserDirectories s.userDirectories d = some k)
  (hk' : slotOf maxDirectories s.pagingDirectories d = some k')

theorem withoutDirectory_entries (hne : d' ≠ d) :
    (s.withoutDirectory d k k' stats).entries d' i = s.entries d' i :=
  if_neg fun hc => hne hc.1

include h hd

theorem withoutDirectory_same (hne : d' ≠ d) (i : Nat) :
    SameEntry s (s.withoutDirectory d k k' stats) d' i := by
  refine ⟨withoutDirectory_entries hne, ?_, fun _ _ => rfl⟩
  unfold State.Own
  rw [withoutDirectory_entries hne,
    show (s.withoutDirectory d k k' stats).kernelDirectory = s.kernelDirectory from rfl,
    withoutDirectory_entries (h.ne_kernel hd).symm]

/-- What freeing the uses of `d` does to the page allocator. -/
theorem withoutDirectory_pmm :
    Memory.Inv (s.withoutDirectory d k k' stats).pmm ∧
      (∀ b, Out (s.withoutDirectory d k k' stats).pmm b ↔
        Out s.pmm b ∧ ∀ u ∈ live s, u.owner = d → address s u ≠ b) ∧
      (∀ p, p ∈ (s.withoutDirectory d k k' stats).pmm.freeSet ↔
        p ∈ s.pmm.freeSet ∨ ∃ u ∈ live s, u.owner = d ∧ p = address s u / pageSize) ∧
      (s.withoutDirectory d k k' stats).pmm.pmmInvalidFrees = s.pmm.pmmInvalidFrees := by
  have hmem := mem_uses h hd
  have hnodup : ((s.uses d).map (address s)).Nodup := by
    refine (uses_nodup (h.ne_kernel hd)).map_on fun u hu v hv he => ?_
    exact h.placed.inj ((hmem u).mp hu).1 ((hmem v).mp hv).1 he
  have hout : ∀ a ∈ (s.uses d).map (address s), Out s.pmm a := by
    intro a ha
    obtain ⟨u, hu, rfl⟩ := mem_map.mp ha
    exact h.placed.out ((hmem u).mp hu).1
  obtain ⟨h1, h2, h3, h4⟩ := Memory.freeAll_takes h.pmm hnodup hout
  have hpmm : (s.withoutDirectory d k k' stats).pmm = freeAll ((s.uses d).map (address s)) s.pmm := by
    simp only [State.withoutDirectory]
  rw [hpmm]
  refine ⟨h1, fun b => (h2 b).trans ?_, fun p => (h3 p).trans ?_, h4⟩
  · refine and_congr_right fun _ => ?_
    rw [mem_map]
    constructor
    · intro hb u hu ho he
      exact hb ⟨u, (hmem u).mpr ⟨hu, ho⟩, he⟩
    · intro hb hc
      obtain ⟨u, hu, he⟩ := hc
      exact hb u ((hmem u).mp hu).1 ((hmem u).mp hu).2 he
  · refine or_congr_right ?_
    constructor
    · intro hp
      obtain ⟨a, ha, rfl⟩ := hp
      obtain ⟨u, hu, rfl⟩ := mem_map.mp ha
      exact ⟨u, ((hmem u).mp hu).1, ((hmem u).mp hu).2, rfl⟩
    · intro hp
      obtain ⟨u, hu, ho, rfl⟩ := hp
      exact ⟨_, mem_map.mpr ⟨u, (hmem u).mpr ⟨hu, ho⟩, rfl⟩, rfl⟩

/-- The user pages of one directory, counted. -/
theorem ncard_frames_split : (frames s).ncard =
    { x ∈ frames s | x.1 ≠ d }.ncard + (s.uses d).countP Use.isFrame := by
  have hfin := h.frames_finite.1
  have hsplit : frames s = { x ∈ frames s | x.1 ≠ d } ∪ { x ∈ frames s | x.1 = d } := by
    ext x
    by_cases hx : x.1 = d <;> simp [hx]
  have hmine : { x ∈ frames s | x.1 = d }.ncard = (s.uses d).countP Use.isFrame := by
    -- the frames in the list of uses, as a set
    have hset : (fun x : Nat × Nat × Nat => Use.frame x.1 x.2.1 x.2.2) '' { x ∈ frames s | x.1 = d } =
        ↑((s.uses d).filter Use.isFrame).toFinset := by
      ext u
      simp only [Set.mem_image, coe_toFinset, Set.mem_ofPred_eq, mem_filter, mem_uses h hd]
      constructor
      · intro hu
        obtain ⟨x, ⟨hx, hxd⟩, rfl⟩ := hu
        exact ⟨⟨hx, hxd⟩, rfl⟩
      · intro hu
        obtain ⟨⟨hl, ho⟩, hf⟩ := hu
        cases u with
        | directory d' => exact absurd hf Bool.false_ne_true
        | table d' i => exact absurd hf Bool.false_ne_true
        | frame d' i j => exact ⟨(d', i, j), ⟨hl, ho⟩, rfl⟩
    rw [← Set.ncard_image_of_injective _ frame_injective, hset, Set.ncard_coe_finset,
      toFinset_card_of_nodup ((uses_nodup (h.ne_kernel hd)).filter _),
      countP_eq_length_filter]
  rw [← hmine, ← Set.ncard_union_eq _ (hfin.subset fun x hx => hx.1) (hfin.subset fun x hx => hx.1),
    ← hsplit]
  rw [Set.disjoint_left]
  intro x hx hx'
  exact hx.2 hx'.2

omit hd in
include hk' in
theorem withoutDirectory_managed (d' : Nat) :
    (s.withoutDirectory d k k' stats).Managed d' ↔ s.Managed d' ∧ d' ≠ d :=
  listed_clear h.registry.managed hk'

omit hd in
include hk in
theorem withoutDirectory_user (d' : Nat) :
    (s.withoutDirectory d k k' stats).User d' ↔ s.User d' ∧ d' ≠ d :=
  listed_clear h.registry.users hk

include hk'

/-- What is left are the uses of the other directories, -/
theorem withoutDirectory_live (u : Use) :
    u ∈ live (s.withoutDirectory d k k' stats) ↔ u ∈ live s ∧ u.owner ≠ d :=
  live_iff (withoutDirectory_managed h hk') (fun _ i _ hne => withoutDirectory_same h hd hne i) u

omit hk' in
/-- where they were. -/
theorem withoutDirectory_address (hu : u ∈ live s) (hne : u.owner ≠ d) :
    address (s.withoutDirectory d k k' stats) u = address s u :=
  same_address hu fun _ i hunder _ _ _ => withoutDirectory_same h hd (hunder.owner ▸ hne) i

include hk

/-- **Without a directory and all its uses, the invariant holds.** -/
theorem Inv.dropDirectory (hcur : d ≠ s.currentDirectory)
    (hstats : stats.activePages = s.stats.activePages - (s.uses d).countP Use.isFrame) :
    Inv (s.withoutDirectory d k k' stats) := by
  have hker := (h.ne_kernel hd).symm
  have hm : ∀ d', (s.withoutDirectory d k k' stats).Managed d' ↔ s.Managed d' ∧ d' ≠ d :=
    withoutDirectory_managed h hk'
  have hu : ∀ d', (s.withoutDirectory d k k' stats).User d' ↔ s.User d' ∧ d' ≠ d :=
    withoutDirectory_user h hk
  have hlive : ∀ u, u ∈ live (s.withoutDirectory d k k' stats) ↔ u ∈ live s ∧ u.owner ≠ d :=
    withoutDirectory_live h hd hk'
  obtain ⟨hinv, hout, _, _⟩ := @withoutDirectory_pmm s d k k' stats h hd
  refine ⟨hinv, ⟨distinct_clear h.registry.managed, distinct_clear h.registry.users,
    (hm _).mpr ⟨h.registry.kernel, hker⟩, fun hc => h.registry.notUser ((hu _).mp hc).1, fun d' => ?_,
    (hm _).mpr ⟨h.registry.current, hcur.symm⟩, h.registry.ready⟩, fun d' hd' i hi => ?_, ?_, ?_⟩
  · rw [hm, hu, h.registry.all, or_and_right]
    refine or_congr_left (and_iff_left_of_imp fun hc => ?_)
    rw [hc]
    exact hker
  · obtain ⟨hd', hne⟩ := (hm d').mp hd'
    exact (withoutDirectory_same h hd hne i).entryOk (h.entry d' hd' i hi) fun hc =>
      (hu d').mpr ⟨hc, hne⟩
  · refine h.placed.shrink (fun v hv => ?_) fun v hv => ?_
    · obtain ⟨hv, hne⟩ := (hlive v).mp hv
      exact ⟨hv, withoutDirectory_address h hd hv hne⟩
    · obtain ⟨hv, hne⟩ := (hlive v).mp hv
      refine (hout _).mpr ⟨h.placed.out hv, fun u hu ho he => hne ?_⟩
      rw [← h.placed.inj hu hv he]
      exact ho
  · have hframes : frames (s.withoutDirectory d k k' stats) = { x ∈ frames s | x.1 ≠ d } := by
      ext ⟨d', i, j⟩
      exact hlive (.frame d' i j)
    have hsplit := ncard_frames_split h hd
    have hst : (s.withoutDirectory d k k' stats).stats = stats := rfl
    rw [hst, hframes, hstats, h.active, hsplit, Nat.add_sub_cancel]

end DropDirectory

/-- **`paging_free_user_directory` keeps the invariant.** -/
theorem freeUserDirectory_inv (h : Inv s) (d : Nat) :
    Inv (freeUserDirectory d s) ∧ Keeps s (freeUserDirectory d s) := by
  rcases freeUserDirectory_cases h d with ⟨he, _⟩ | ⟨k, k', stats, he, hd, hcur, hk, hk', hstats⟩
  · rw [he]
    exact ⟨⟨h.pmm, { h.registry with }, fun d hd i hi => { h.entry d hd i hi with }, h.placed,
      h.active⟩, rfl, rfl, fun _ _ => rfl⟩
  · rw [he]
    refine ⟨h.dropDirectory hd hk hk' hcur hstats, rfl, rfl, fun i _ => ?_⟩
    exact withoutDirectory_entries (h.ne_kernel hd).symm

end ZephyrOS.Paging
