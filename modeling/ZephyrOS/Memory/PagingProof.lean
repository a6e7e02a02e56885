import ZephyrOS.Lib.Placement
import ZephyrOS.Memory.Paging
import ZephyrOS.Memory.PmmPages

/-!
# What a directory has to itself

Every page the paging code has taken from the page allocator has one use: it is a
directory, the table of one entry of one directory, or the frame of one user page. A
table under a user directory is that directory's own unless the kernel's directory has
the same table under the same entry, which is how the source tells the two apart.

The invariant says that no page has two uses, that the user flags stay where they may
be, and that the count of active pages is right. The lemmas here are one for each thing
a call can do to the tables: a table is added, opened to the user, filled, emptied,
dropped; a directory is added, dropped.
-/

namespace ZephyrOS.Paging

open ZephyrOS.Memory (pageSize MemInfo MemoryZone Out Gives Takes)
open Function

variable {s : State} {d i j t : Nat} {p : PageEntry} {d' i' : Nat} {m : MemInfo}

/-- What a page of the page allocator is used for. -/
inductive Use where
  | directory (d : Nat)
  | table (d i : Nat)
  | frame (d i j : Nat)
  deriving DecidableEq

variable {u : Use}

def State.Managed (s : State) (d : Nat) : Prop := Lib.Listed maxDirectories s.pagingDirectories d
def State.User (s : State) (d : Nat) : Prop := Lib.Listed maxUserDirectories s.userDirectories d

/-- Entry `i` of `d` is a table that is not the kernel's, or `d` is the kernel's. -/
def State.Own (s : State) (d i : Nat) : Prop :=
  (s.entries d i).present = true ∧
    (d = s.kernelDirectory ∨ (s.entries d i).table ≠ (s.entries s.kernelDirectory i).table)

/-- Page `j` of the table is a user page. -/
def State.UserPage (s : State) (t j : Nat) : Prop :=
  (s.pages t j).present = true ∧ (s.pages t j).user = true

/-- The uses there are. -/
def live (s : State) : Set Use := fun u =>
  match u with
  | .directory d => s.Managed d
  | .table d i => s.Managed d ∧ i < tableEntries ∧ s.Own d i
  | .frame d i j => s.Managed d ∧ i < tableEntries ∧ s.Own d i ∧ j < tableEntries
      ∧ s.UserPage (s.entries d i).table j

/-- Where a use has its page. -/
def address (s : State) : Use → Nat
  | .directory d => d
  | .table d i => (s.entries d i).table
  | .frame d i j => (s.pages (s.entries d i).table j).frame * pageSize

/-- The user pages: a directory, an entry of it and an entry of the table. -/
def frames (s : State) : Set (Nat × Nat × Nat) :=
  { x | Use.frame x.1 x.2.1 x.2.2 ∈ live s }

/-- Entry `i` of the managed directory `d` is as it should be. -/
structure EntryOk (s : State) (d i : Nat) : Prop where
  /-- An entry is empty or has a table. -/
  filled : s.entries d i = DirEntry.zero ∨
    (s.entries d i).present = true ∧ (s.entries d i).table ≠ 0
  /-- Only an own table of a user directory, in the user's window, is open to the user. -/
  window : (s.entries d i).user = true → s.User d ∧ s.Own d i ∧ (i = 2 ∨ i = 3)
  /-- Other tables have no user page. -/
  supervisor : s.Own d i → ∀ j, (s.pages (s.entries d i).table j).user = true →
    (s.entries d i).user = true

/-- The registries of directories. -/
structure Registry (s : State) : Prop where
  managed : Lib.Distinct maxDirectories s.pagingDirectories
  users : Lib.Distinct maxUserDirectories s.userDirectories
  kernel : s.Managed s.kernelDirectory
  notUser : ¬ s.User s.kernelDirectory
  all : ∀ d, s.Managed d ↔ d = s.kernelDirectory ∨ s.User d
  current : s.Managed s.currentDirectory
  ready : s.pagingInitialized = true

structure Inv (s : State) : Prop where
  pmm : Memory.Inv s.pmm
  registry : Registry s
  entry : ∀ d, s.Managed d → ∀ i < tableEntries, EntryOk s d i
  /-- No page has two uses, and all of them are out. -/
  placed : Lib.Placed (live s) (address s) (Out s.pmm)
  active : s.stats.activePages = (frames s).ncard

/-! ### Reading the state -/

theorem address_frame :
    address s (.frame d i j) = (s.pages (s.entries d i).table j).frame * pageSize := rfl

theorem mem_frames : (d, i, j) ∈ frames s ↔ .frame d i j ∈ live s :=
  .rfl

@[simp] theorem setEntry_entries (e : DirEntry) (d' i' : Nat) :
    (s.setEntry d i e).entries d' i' = if d' = d ∧ i' = i then e else s.entries d' i' :=
  Lib.update_update_apply s.entries e d' i'

@[simp] theorem setPage_pages (t' j' : Nat) :
    (s.setPage t j p).pages t' j' = if t' = t ∧ j' = j then p else s.pages t' j' :=
  Lib.update_update_apply s.pages p t' j'

theorem setPage_self : (s.setPage t j p).pages t j = p := by
  rw [setPage_pages, if_pos ⟨rfl, rfl⟩]

theorem setPage_entries : (s.setPage t j p).entries = s.entries := rfl

theorem isManagedDirectory_iff : s.isManagedDirectory d = true ↔ s.Managed d := Lib.index_isSome

theorem isRegisteredUserDirectory_iff :
    s.isRegisteredUserDirectory d = true ↔ s.User d := Lib.index_isSome

theorem frames_congr {s' : State}
    (h : ∀ d i j, .frame d i j ∈ live s' ↔ .frame d i j ∈ live s) : frames s' = frames s :=
  Set.ext fun x => h x.1 x.2.1 x.2.2

theorem EntryOk.table_ne_zero (h : EntryOk s d i)
    (hp : (s.entries d i).present = true) : (s.entries d i).table ≠ 0 := by
  refine (h.filled.resolve_left fun hz => ?_).2
  rw [hz] at hp
  cases hp

theorem sharedEntry_eq (h : Registry s) : s.sharedEntry i = s.entries s.kernelDirectory i := by
  unfold State.sharedEntry
  rw [if_neg h.kernel.1]

section Facts

variable (h : Inv s)

include h

theorem Inv.managed_of_user (hd : s.User d) : s.Managed d :=
  (h.registry.all d).mpr (.inr hd)

theorem Inv.ne_kernel (hd : s.User d) : d ≠ s.kernelDirectory := by
  intro hc
  exact h.registry.notUser (hc ▸ hd)

theorem Inv.table_out (hd : s.Managed d) (hi : i < tableEntries) (ho : s.Own d i) :
    Out s.pmm (s.entries d i).table :=
  h.placed.out (u := .table d i) ⟨hd, hi, ho⟩

theorem Inv.directory_out (hd : s.Managed d) : Out s.pmm d :=
  h.placed.out (u := .directory d) hd

/-- A table that is not the directory's own is the kernel's, under the same entry. -/
theorem Inv.shared (hd : s.Managed d) (hi : i < tableEntries)
    (hp : (s.entries d i).present = true) (ho : ¬ s.Own d i) :
    (s.entries d i).table = (s.entries s.kernelDirectory i).table ∧ s.Own s.kernelDirectory i := by
  have hsame : (s.entries d i).table = (s.entries s.kernelDirectory i).table := by
    by_contra hne
    exact ho ⟨hp, .inr hne⟩
  have hne := (h.entry d hd i hi).table_ne_zero hp
  rcases (h.entry _ h.registry.kernel i hi).filled with hz | ⟨hk, _⟩
  · rw [hsame, hz] at hne
    exact absurd rfl hne
  · exact ⟨hsame, hk, .inl rfl⟩

/-- The table under a present entry is out. -/
theorem Inv.present_out (hd : s.Managed d) (hi : i < tableEntries)
    (hp : (s.entries d i).present = true) : Out s.pmm (s.entries d i).table := by
  by_cases ho : s.Own d i
  · exact h.table_out hd hi ho
  · obtain ⟨hsame, hk⟩ := h.shared hd hi hp ho
    rw [hsame]
    exact h.table_out h.registry.kernel hi hk

/-- An own table has one place. -/
theorem Inv.table_unique (hd : s.Managed d) (hi : i < tableEntries)
    (ho : s.Own d i) (hd' : s.Managed d') (hi' : i' < tableEntries) (ho' : s.Own d' i')
    (ht : (s.entries d i).table = (s.entries d' i').table) : d = d' ∧ i = i' := by
  have := h.placed.inj (u := .table d i) (v := .table d' i') ⟨hd, hi, ho⟩ ⟨hd', hi', ho'⟩ ht
  exact Use.table.inj this

omit h in
theorem frame_injective :
    Injective fun x : Nat × Nat × Nat => Use.frame x.1 x.2.1 x.2.2 := by
  intro x y he
  obtain ⟨h1, h2, h3⟩ := Use.frame.inj he
  exact Prod.ext h1 (Prod.ext h2 h3)

theorem Inv.frames_finite : (frames s).Finite ∧ (frames s).ncard < 1048576 := by
  have hpmm := h.pmm
  have hfin : (live s).Finite ∧ (live s).ncard ≤ s.pmm.totalPages := by
    refine h.placed.finite_ncard_le (fun a b ha hb => ha.inj hb) ?_
    intro a ha
    exact (Memory.out_iff.mp ha).2.1
  have hinj := frame_injective.injOn (s := frames s)
  have hmaps : Set.MapsTo (fun x : Nat × Nat × Nat => Use.frame x.1 x.2.1 x.2.2) (frames s)
      (live s) := fun x hx => hx
  refine ⟨Set.Finite.of_injOn hmaps hinj hfin.1, ?_⟩
  have hle := Set.ncard_le_ncard_of_injOn _ hmaps hinj hfin.1
  have htot := hpmm.total
  have hlt := hpmm.total_lt
  unfold pageSize at htot
  omega

end Facts

/-! ### What a change leaves alone -/

/-- Entry `i` of `d` is the same in both states, and so are the pages of its own table. -/
structure SameEntry (s s' : State) (d i : Nat) : Prop where
  entry : s'.entries d i = s.entries d i
  own : s'.Own d i ↔ s.Own d i
  pages : s.Own d i → ∀ j, s'.pages (s.entries d i).table j = s.pages (s.entries d i).table j

section Same

variable {s s' : State} {d i : Nat}

theorem SameEntry.entryOk (h : SameEntry s s' d i) (hok : EntryOk s d i)
    (hu : s.User d → s'.User d) : EntryOk s' d i := by
  refine ⟨by rw [h.entry]; exact hok.filled, fun huser => ?_, fun ho j hp => ?_⟩
  · rw [h.entry] at huser
    obtain ⟨h1, h2, h3⟩ := hok.window huser
    exact ⟨hu h1, h.own.mpr h2, h3⟩
  · have ho := h.own.mp ho
    rw [h.entry] at hp ⊢
    rw [h.pages ho] at hp
    exact hok.supervisor ho j hp

/-- The own table has the user pages it had. -/
theorem SameEntry.frame (h : SameEntry s s' d i) (j : Nat) :
    (s'.Own d i ∧ j < tableEntries ∧ s'.UserPage (s'.entries d i).table j) ↔
      (s.Own d i ∧ j < tableEntries ∧ s.UserPage (s.entries d i).table j) := by
  rw [h.own, h.entry]
  refine and_congr_right fun ho => and_congr_right fun _ => ?_
  unfold State.UserPage
  rw [h.pages ho]

/-- The directory a use belongs to. -/
def Use.owner : Use → Nat
  | .directory d => d
  | .table d _ => d
  | .frame d _ _ => d

/-- The use is the table of entry `i` of `d`, or one of its frames. -/
def Use.Under (d i : Nat) : Use → Prop
  | .directory _ => False
  | .table d' i' => d' = d ∧ i' = i
  | .frame d' i' _ => d' = d ∧ i' = i

theorem Use.Under.owner : ∀ {u : Use}, u.Under d i → u.owner = d
  | .table _ _, h => h.1
  | .frame _ _ _, h => h.1

theorem same_address (hl : u ∈ live s)
    (h : ∀ d i, u.Under d i → s.Managed d → i < tableEntries → s.Own d i → SameEntry s s' d i) :
    address s' u = address s u := by
  cases u with
  | directory d => rfl
  | table d i => exact congrArg DirEntry.table (h d i ⟨rfl, rfl⟩ hl.1 hl.2.1 hl.2.2).entry
  | frame d i j =>
    have hs := h d i ⟨rfl, rfl⟩ hl.1 hl.2.1 hl.2.2.1
    rw [address_frame, address_frame, hs.entry, hs.pages hl.2.2.1]

/-- The uses after a change to the directories outside `P`, which are no longer managed. -/
theorem live_iff {P : Nat → Prop} (hm : ∀ d, s'.Managed d ↔ s.Managed d ∧ P d)
    (h : ∀ d i, s.Managed d → P d → SameEntry s s' d i) (u : Use) :
    u ∈ live s' ↔ u ∈ live s ∧ P u.owner := by
  cases u with
  | directory d => exact hm d
  | table d i =>
    refine (and_congr_left' (hm d)).trans ((and_congr_right fun hd => ?_).trans and_right_comm)
    exact and_congr_right fun _ => (h d i hd.1 hd.2).own
  | frame d i j =>
    refine (and_congr_left' (hm d)).trans ((and_congr_right fun hd => ?_).trans and_right_comm)
    exact and_congr_right fun _ => (h d i hd.1 hd.2).frame j

end Same

/-! ### One change at a time -/

/-- Only the page allocator changed, and kept what is in use. -/
theorem Inv.with_pmm (h : Inv s) (hm : Memory.Inv m)
    (ho : ∀ u ∈ live s, Out m (address s u)) : Inv { s with pmm := m } where
  pmm := hm
  registry := { h.registry with }
  entry := fun d hd i hi => { h.entry d hd i hi with }
  placed := h.placed.shrink (fun _ hv => ⟨hv, rfl⟩) ho
  active := h.active

/-- Another managed directory is the current one. -/
theorem Inv.switch (h : Inv s) (hd : s.Managed d) : Inv { s with currentDirectory := d } where
  pmm := h.pmm
  registry := { h.registry with current := hd }
  entry := fun d hd i hi => { h.entry d hd i hi with }
  placed := h.placed.shrink (fun _ hv => ⟨hv, rfl⟩) fun _ hu => h.placed.out hu
  active := h.active

/-- The state with a new, empty table `t` under entry `i` of `d`. -/
def State.withTable (s : State) (d i t : Nat) (m : MemInfo) : State :=
  State.setEntry { s with pmm := m, pages := update s.pages t fun _ => PageEntry.zero }
    d i ⟨t, true, true, false⟩

theorem Inv.entry_zero (h : Inv s) (hd : s.Managed d)
    (hi : i < tableEntries) (hp : (s.entries d i).present = false) :
    s.entries d i = DirEntry.zero := by
  rcases (h.entry d hd i hi).filled with hz | ⟨hc, _⟩
  · exact hz
  · rw [hp] at hc
    cases hc

/-- The tables that were there are not the new one. -/
theorem Inv.ne_new (h : Inv s) (hg : Gives s.pmm m t) (hd : s.Managed d) (hi : i < tableEntries)
    (hp : (s.entries d i).present = true) : (s.entries d i).table ≠ t := by
  intro hc
  exact hg.fresh (hc ▸ h.present_out hd hi hp)

theorem withTable_entries (s : State) (d i t : Nat) (m : MemInfo) (d' i' : Nat) :
    (s.withTable d i t m).entries d' i' =
      if d' = d ∧ i' = i then ⟨t, true, true, false⟩ else s.entries d' i' :=
  setEntry_entries ..

/-- An entry that has a table is not the one that gets it. -/
theorem withTable_keep (he : (s.entries d i).present = false)
    (hp : (s.entries d' i').present = true) : ¬ (d' = d ∧ i' = i) := by
  intro hc
  rw [hc.1, hc.2, he] at hp
  cases hp

theorem withTable_pages (s : State) (d i t : Nat) (m : MemInfo) (t' j : Nat) :
    (s.withTable d i t m).pages t' j = if t' = t then PageEntry.zero else s.pages t' j := by
  show update s.pages t (fun _ => PageEntry.zero) t' j = _
  by_cases ht : t' = t
  · rw [ht, update_self, if_pos rfl]
  · rw [update_of_ne ht, if_neg ht]

section NewTable

variable {s : State} {d i t : Nat} {m : MemInfo} (h : Inv s) (hd : s.Managed d)
  (hi : i < tableEntries) (he : (s.entries d i).present = false) (hg : Gives s.pmm m t)

include h hd hi he hg

theorem withTable_own (hd' : s.Managed d') (hi' : i' < tableEntries) :
    (s.withTable d i t m).Own d' i' ↔ s.Own d' i' ∨ d' = d ∧ i' = i := by
  have hk : (s.withTable d i t m).kernelDirectory = s.kernelDirectory := rfl
  unfold State.Own
  rw [hk, withTable_entries, withTable_entries]
  by_cases hnew : d' = d ∧ i' = i
  · -- the new table is not the kernel's old one, which is out or 0
    rw [if_pos hnew]
    refine iff_of_true ⟨rfl, ?_⟩ (.inr hnew)
    by_cases hdk : d' = s.kernelDirectory
    · exact .inl hdk
    right
    rw [if_neg (fun hc => hdk (hnew.1.trans hc.1.symm))]
    by_cases hp : (s.entries s.kernelDirectory i').present = true
    · exact (h.ne_new hg h.registry.kernel hi' hp).symm
    · rw [h.entry_zero h.registry.kernel hi' (by simpa using hp)]
      exact hg.ne_zero
  · rw [if_neg hnew, or_iff_left hnew]
    refine and_congr_right fun hp => or_congr_right ?_
    by_cases hkd : s.kernelDirectory = d ∧ i' = i
    · -- the kernel's entry was empty, so whoever had a table there had it to itself
      rw [if_pos hkd, hkd.1, hkd.2, h.entry_zero hd hi he]
      exact iff_of_true (hkd.2 ▸ h.ne_new hg hd' hi' hp)
        (hkd.2 ▸ (h.entry d' hd' i' hi').table_ne_zero hp)
    · rw [if_neg hkd]

/-- The other entries are what they were. -/
theorem withTable_same (hd' : s.Managed d') (hi' : i' < tableEntries)
    (hne : ¬ (d' = d ∧ i' = i)) : SameEntry s (s.withTable d i t m) d' i' := by
  refine ⟨?_, (withTable_own h hd hi he hg hd' hi').trans (or_iff_left hne), fun ho j => ?_⟩
  · rw [withTable_entries, if_neg hne]
  · rw [withTable_pages, if_neg (h.ne_new hg hd' hi' ho.1)]

theorem withTable_live (u : Use) : u ∈ live (s.withTable d i t m) ↔
    u ∈ live s ∨ u = .table d i := by
  cases u with
  | directory d' => exact (or_iff_left (by simp)).symm
  | table d' i' =>
    by_cases hne : d' = d ∧ i' = i
    · obtain ⟨rfl, rfl⟩ := hne
      exact iff_of_true ⟨hd, hi, (withTable_own h hd hi he hg hd hi).mpr (.inr ⟨rfl, rfl⟩)⟩
        (.inr rfl)
    · rw [or_iff_left (fun hc => hne (Use.table.inj hc))]
      exact and_congr_right fun hd' => and_congr_right fun hi' =>
        (withTable_same h hd hi he hg hd' hi' hne).own
  | frame d' i' j =>
    rw [or_iff_left (by simp)]
    by_cases hne : d' = d ∧ i' = i
    · -- the new table is empty
      obtain ⟨rfl, rfl⟩ := hne
      refine iff_of_false (fun hu => ?_) fun hu => withTable_keep he hu.2.2.1.1 ⟨rfl, rfl⟩
      have := hu.2.2.2.2.1
      rw [withTable_entries, if_pos ⟨rfl, rfl⟩, withTable_pages, if_pos rfl] at this
      exact absurd this Bool.false_ne_true
    · exact and_congr_right fun hd' => and_congr_right fun hi' =>
        (withTable_same h hd hi he hg hd' hi' hne).frame j

/-- The uses that were there are where they were. -/
theorem withTable_address (hu : u ∈ live s) : address (s.withTable d i t m) u = address s u :=
  same_address hu fun _ _ _ hd' hi' ho =>
    withTable_same h hd hi he hg hd' hi' (withTable_keep he ho.1)

theorem frames_withTable : frames (s.withTable d i t m) = frames s :=
  frames_congr fun _ _ _ => (withTable_live h hd hi he hg _).trans (or_iff_left (by simp))

omit hd hi he in
/-- A new user sits in the page just given out. -/
theorem Inv.place {live' : Set Use} {place' : Use → Nat} (u : Use)
    (hlive : ∀ v ∈ live', v ∈ live s ∧ place' v = address s v ∨ v = u ∧ place' v = t) :
    Lib.Placed live' place' (Out m) :=
  h.placed.take (a := t) (fun _ hv hc => hg.fresh (hc ▸ h.placed.out hv)) hlive hg.keeps hg.given

/-- **A new table keeps the invariant.** -/
theorem Inv.newTable : Inv (s.withTable d i t m) := by
  refine ⟨hg.inv, { h.registry with }, ?_, ?_, ?_⟩
  · intro d' hd' i' hi'
    by_cases hnew : d' = d ∧ i' = i
    · obtain ⟨rfl, rfl⟩ := hnew
      have hz : (s.withTable d' i' t m).entries d' i' = ⟨t, true, true, false⟩ := by
        rw [withTable_entries, if_pos ⟨rfl, rfl⟩]
      refine ⟨.inr ?_, fun hu => ?_, fun _ j hu => ?_⟩
      · rw [hz]
        exact ⟨rfl, hg.ne_zero⟩
      · rw [hz] at hu
        exact absurd hu Bool.false_ne_true
      · rw [hz] at hu
        rw [withTable_pages, if_pos rfl] at hu
        cases hu
    · exact (withTable_same h hd hi he hg hd' hi' hnew).entryOk (h.entry d' hd' i' hi') id
  · refine h.place hg (.table d i) fun v hv => ?_
    rcases (withTable_live h hd hi he hg v).mp hv with hv | rfl
    · exact .inl ⟨hv, withTable_address h hd hi he hg hv⟩
    · refine .inr ⟨rfl, ?_⟩
      show ((s.withTable d i t m).entries d i).table = t
      rw [withTable_entries, if_pos ⟨rfl, rfl⟩]
  · rw [frames_withTable h hd hi he hg]
    exact h.active

end NewTable

/-! ### Pages of one table -/

/-- The state with page `j` of table `t` emptied and its frame freed. -/
def State.withoutPage (s : State) (t j : Nat) : State :=
  ((s.setPage t j PageEntry.zero).freePage ((s.pages t j).frame * pageSize)).discountPages 1

section Pages

variable {s : State} {d i : Nat} (h : Inv s) (hd : s.Managed d) (hi : i < tableEntries) (ho : s.Own d i)
  {j : Nat} {p : PageEntry}

include h hd hi ho

/-- Writing the table of one entry leaves the other own tables alone. -/
theorem Inv.setPage_other {j' : Nat} (hd' : s.Managed d') (hi' : i' < tableEntries)
    (ho' : s.Own d' i') (hne : Use.frame d' i' j' ≠ .frame d i j) :
    (s.setPage (s.entries d i).table j p).pages (s.entries d' i').table j' =
      s.pages (s.entries d' i').table j' := by
  rw [setPage_pages, if_neg]
  intro hc
  obtain ⟨h1, h2⟩ := h.table_unique hd' hi' ho' hd hi ho hc.1
  exact hne (by rw [h1, h2, hc.2])

/-- The uses after a page of an own table was written. -/
theorem Inv.setPage_live (hu : u ≠ .frame d i j) :
    u ∈ live (s.setPage (s.entries d i).table j p) ↔ u ∈ live s := by
  cases u with
  | directory d' => exact .rfl
  | table d' i' => exact .rfl
  | frame d' i' j' =>
    refine and_congr_right fun hd' => and_congr_right fun hi' => and_congr_right fun ho' =>
      and_congr_right fun _ => ?_
    unfold State.UserPage
    rw [setPage_entries, h.setPage_other hd hi ho hd' hi' ho' hu]

theorem Inv.setPage_address (hu : u ≠ .frame d i j) (hl : u ∈ live s) :
    address (s.setPage (s.entries d i).table j p) u = address s u := by
  cases u with
  | directory d' => rfl
  | table d' i' => rfl
  | frame d' i' j' =>
    obtain ⟨hd', hi', ho', _⟩ := hl
    rw [address_frame, address_frame, setPage_entries, h.setPage_other hd hi ho hd' hi' ho' hu]

/-- The entries after a page of an own table was written: a user page may only go into a
table that is open to the user. -/
theorem Inv.setPage_entry (hp : p.user = true → (s.entries d i).user = true)
    (hd' : s.Managed d') (hi' : i' < tableEntries) :
    EntryOk (s.setPage (s.entries d i).table j p) d' i' := by
  have hold := h.entry d' hd' i' hi'
  refine ⟨hold.filled, hold.window, fun ho' j' hu => ?_⟩
  by_cases hsame : Use.frame d' i' j' = .frame d i j
  · obtain ⟨rfl, rfl, rfl⟩ := Use.frame.inj hsame
    apply hp
    rwa [setPage_entries, setPage_self] at hu
  · apply hold.supervisor ho' j'
    rw [← h.setPage_other hd hi ho hd' hi' ho' hsame]
    exact hu

/-- **A page of an own table is written**, beside a change of the page allocator and of the
statistics. -/
theorem Inv.editPage {stats : UserStats}
    (hp : p.user = true → (s.entries d i).user = true) (hm : Memory.Inv m)
    (hplaced : Lib.Placed (live (s.setPage (s.entries d i).table j p))
    (address (s.setPage (s.entries d i).table j p)) (Out m))
    (hactive : stats.activePages = (frames (s.setPage (s.entries d i).table j p)).ncard) :
    Inv { s.setPage (s.entries d i).table j p with pmm := m, stats := stats } := by
  refine ⟨hm, { h.registry with }, fun d' hd' i' hi' => ?_, hplaced, hactive⟩
  exact { h.setPage_entry hd hi ho hp hd' hi' with }

/-- **A supervisor page may be written at will** into a table that is closed to the user. -/
theorem Inv.setSupervisorPage (hc : (s.entries d i).user = false) (hp : p.user = false) :
    Inv (s.setPage (s.entries d i).table j p) := by
  -- no user page comes or goes: there is none in a table closed to the user
  have hno : Use.frame d i j ∉ live s := by
    intro hu
    have := (h.entry d hd i hi).supervisor ho j hu.2.2.2.2.2
    rw [hc] at this
    cases this
  have hno' : Use.frame d i j ∉ live (s.setPage (s.entries d i).table j p) := by
    intro hu
    have := hu.2.2.2.2.2
    rw [setPage_entries, setPage_self, hp] at this
    cases this
  have hlive : ∀ u, u ∈ live (s.setPage (s.entries d i).table j p) ↔ u ∈ live s := by
    intro u
    by_cases hu : u = .frame d i j
    · rw [hu]
      exact iff_of_false hno' hno
    · exact h.setPage_live hd hi ho hu
  have hsame : frames (s.setPage (s.entries d i).table j p) = frames s :=
    frames_congr fun _ _ _ => hlive _
  refine h.editPage hd hi ho (fun hu => ?_) h.pmm ?_ (by rw [hsame]; exact h.active)
  · rw [hp] at hu
    cases hu
  · refine h.placed.shrink (fun v hv => ?_) fun v hv => h.placed.out ((hlive v).mp hv)
    have hv := (hlive v).mp hv
    exact ⟨hv, h.setPage_address hd hi ho (fun he => hno (he ▸ hv)) hv⟩

theorem Inv.frames_setPage (hj : j < tableEntries) (f : Nat) (w : Bool) :
    frames (s.setPage (s.entries d i).table j ⟨f, true, w, true⟩) = insert (d, i, j) (frames s) := by
  ext ⟨d', i', j'⟩
  rw [Set.mem_insert_iff]
  by_cases hu : Use.frame d' i' j' = .frame d i j
  · obtain ⟨rfl, rfl, rfl⟩ := Use.frame.inj hu
    refine iff_of_true ⟨hd, hi, ho, hj, ?_⟩ (.inl rfl)
    unfold State.UserPage
    rw [setPage_entries, setPage_self]
    exact ⟨rfl, rfl⟩
  rw [mem_frames, h.setPage_live hd hi ho hu, mem_frames, or_iff_right]
  intro hc
  obtain ⟨rfl, rfl, rfl⟩ := by simpa using hc
  exact hu rfl

theorem Inv.frames_clearPage (j : Nat) :
    frames (s.setPage (s.entries d i).table j PageEntry.zero) = frames s \ {(d, i, j)} := by
  ext ⟨d', i', j'⟩
  rw [Set.mem_sdiff]
  by_cases hu : Use.frame d' i' j' = .frame d i j
  · obtain ⟨rfl, rfl, rfl⟩ := Use.frame.inj hu
    refine iff_of_false (fun hc => ?_) fun hc => hc.2 rfl
    have := hc.2.2.2.2.1
    rw [setPage_entries, setPage_self] at this
    cases this
  rw [mem_frames, h.setPage_live hd hi ho hu, mem_frames, and_iff_left]
  intro hc
  obtain ⟨rfl, rfl, rfl⟩ := by simpa using hc
  exact hu rfl

/-- **A frame of the caller's own becomes a user page.** -/
theorem Inv.mapFrame (hopen : (s.entries d i).user = true) {a : Nat} {w : Bool}
    (hj : j < tableEntries) (hfree : (s.pages (s.entries d i).table j).present = false)
    (hout : Out s.pmm a) (hown : ∀ u ∈ live s, address s u ≠ a) :
    Inv (s.setPage (s.entries d i).table j ⟨a / pageSize, true, w, true⟩).countPage := by
  have hnot : (d, i, j) ∉ frames s := by
    intro hc
    have := hc.2.2.2.2.1
    rw [hfree] at this
    cases this
  have hcount := h.frames_finite
  refine h.editPage hd hi ho (fun _ => hopen) h.pmm ?_ ?_
  · refine h.placed.take (u := .frame d i j) hown (fun v hv => ?_) (fun _ hb => hb) hout
    by_cases hu : v = .frame d i j
    · right
      refine ⟨hu, ?_⟩
      rw [hu, address_frame, setPage_entries, setPage_self]
      exact Nat.div_mul_cancel (Nat.dvd_of_mod_eq_zero hout.1)
    · have hv := (h.setPage_live hd hi ho hu).mp hv
      exact .inl ⟨hv, h.setPage_address hd hi ho hu hv⟩
  · show u32 (s.stats.activePages + 1) = _
    rw [h.frames_setPage hd hi ho hj, Set.ncard_insert_of_notMem hnot hcount.1, h.active,
      u32_of_lt (by omega)]

/-- **A user page goes, and its frame goes back.** -/
theorem Inv.unmapFrame (hj : j < tableEntries) (hp : s.UserPage (s.entries d i).table j) :
    Inv (s.withoutPage (s.entries d i).table j) := by
  have hold : Use.frame d i j ∈ live s := ⟨hd, hi, ho, hj, hp⟩
  have hgone : Use.frame d i j ∉ live (s.setPage (s.entries d i).table j PageEntry.zero) := by
    rw [← mem_frames, h.frames_clearPage hd hi ho]
    exact fun hc => hc.2 rfl
  have hrest : ∀ v ∈ live (s.setPage (s.entries d i).table j PageEntry.zero),
      v ≠ .frame d i j ∧ v ∈ live s := by
    intro v hv
    have hu : v ≠ .frame d i j := fun he => hgone (he ▸ hv)
    exact ⟨hu, (h.setPage_live hd hi ho hu).mp hv⟩
  have htakes := Memory.freePage_takes h.pmm (h.placed.out hold)
  refine h.editPage hd hi ho (nofun) htakes.inv ?_ ?_
  · refine h.placed.shrink (fun v hv => ?_) fun v hv => ?_
    · obtain ⟨hu, hv⟩ := hrest v hv
      exact ⟨hv, h.setPage_address hd hi ho hu hv⟩
    · -- what stays in use is another page than the one freed
      obtain ⟨hu, hv⟩ := hrest v hv
      exact (htakes.out _).mpr ⟨h.placed.out hv, fun hc => hu (h.placed.inj hv hold hc)⟩
  · show s.stats.activePages - 1 = _
    rw [h.frames_clearPage hd hi ho, Set.ncard_sdiff_singleton_of_mem (mem_frames.mpr hold), h.active]

end Pages

/-! ### Entries of one directory -/

theorem openEntry_entries (s : State) (d i d' i' : Nat) :
    ((s.openEntry d i).entries d' i').table = (s.entries d' i').table ∧
      ((s.openEntry d i).entries d' i').present = (s.entries d' i').present ∧
      ((s.openEntry d i).entries d' i').user =
        (decide (d' = d ∧ i' = i) || (s.entries d' i').user) := by
  unfold State.openEntry
  rw [setEntry_entries]
  by_cases hc : d' = d ∧ i' = i
  · rw [hc.1, hc.2]
    simp
  · simp [hc]

theorem openEntry_own : (s.openEntry d i).Own d' i' ↔ s.Own d' i' := by
  unfold State.Own
  rw [(openEntry_entries ..).1, (openEntry_entries ..).2.1, (openEntry_entries ..).1]
  exact .rfl

theorem openEntry_live : live (s.openEntry d i) = live s := by
  ext u
  cases u with
  | directory d' => exact .rfl
  | table d' i' => exact and_congr_right fun _ => and_congr_right fun _ => openEntry_own ..
  | frame d' i' j =>
    refine and_congr_right fun _ => and_congr_right fun _ => and_congr (openEntry_own ..) ?_
    rw [(openEntry_entries ..).1]
    exact .rfl

theorem openEntry_address : address (s.openEntry d i) = address s := by
  ext u
  cases u with
  | directory d' => rfl
  | table d' i' => exact (openEntry_entries ..).1
  | frame d' i' j =>
    rw [address_frame, (openEntry_entries ..).1]
    rfl

section Entries

variable {s : State} {d i : Nat} (h : Inv s) (hd : s.User d) (hi : i < tableEntries)
  (ho : s.Own d i)

include h hd hi ho

omit hi in
/-- **A table is opened to the user**, in a user directory's window. -/
theorem Inv.openTable (hw : i = 2 ∨ i = 3) : Inv (s.openEntry d i) := by
  refine ⟨h.pmm, { h.registry with }, fun d' hd' i' hi' => ?_, ?_, ?_⟩
  · have hold := h.entry d' hd' i' hi'
    obtain ⟨htable, hpresent, huser⟩ := openEntry_entries s d i d' i'
    refine ⟨?_, fun hu => ?_, fun ho' j hu => ?_⟩
    · by_cases hsame : d' = d ∧ i' = i
      · rw [htable, hpresent, hsame.1, hsame.2]
        exact .inr ⟨ho.1, (h.entry d (hsame.1 ▸ hd') i (hsame.2 ▸ hi')).table_ne_zero ho.1⟩
      · unfold State.openEntry
        rw [setEntry_entries, if_neg hsame]
        exact hold.filled
    · rw [huser, Bool.or_eq_true, decide_eq_true_eq] at hu
      rcases hu with ⟨rfl, rfl⟩ | hu
      · exact ⟨hd, (openEntry_own ..).mpr ho, hw⟩
      · obtain ⟨h1, h2, h3⟩ := hold.window hu
        exact ⟨h1, (openEntry_own ..).mpr h2, h3⟩
    · rw [htable] at hu
      rw [huser, hold.supervisor ((openEntry_own ..).mp ho') j hu, Bool.or_true]
  · rw [openEntry_live, openEntry_address]
    exact h.placed
  · show s.stats.activePages = (frames _).ncard
    unfold frames
    rw [openEntry_live]
    exact h.active

omit h hd hi ho in
theorem clearEntry_other (hne : ¬ (d' = d ∧ i' = i)) :
    (s.setEntry d i DirEntry.zero).entries d' i' = s.entries d' i' := by
  rw [setEntry_entries, if_neg hne]

omit h hd hi ho in
theorem clearEntry_not_own : ¬ (s.setEntry d i DirEntry.zero).Own d i := by
  intro hc
  have := hc.1
  rw [setEntry_entries, if_pos ⟨rfl, rfl⟩] at this
  cases this

omit hi ho in
theorem Inv.clearEntry_own (hne : ¬ (d' = d ∧ i' = i)) :
    (s.setEntry d i DirEntry.zero).Own d' i' ↔ s.Own d' i' := by
  unfold State.Own
  rw [clearEntry_other hne, show (s.setEntry d i DirEntry.zero).kernelDirectory =
    s.kernelDirectory from rfl, clearEntry_other fun hc => h.ne_kernel hd hc.1.symm]

omit hi ho in
theorem Inv.clearEntry_same (hne : ¬ (d' = d ∧ i' = i)) :
    SameEntry s (s.setEntry d i DirEntry.zero) d' i' :=
  ⟨clearEntry_other hne, h.clearEntry_own hd hne, fun _ _ => rfl⟩

omit hi ho in
/-- Every use but the table's own is what it was. -/
theorem Inv.clearEntry_live (hempty : ∀ j < tableEntries, ¬ s.UserPage (s.entries d i).table j)
    (u : Use) : u ∈ live (s.setEntry d i DirEntry.zero) ↔ u ∈ live s ∧ u ≠ .table d i := by
  cases u with
  | directory d' => exact (and_iff_left (by simp)).symm
  | table d' i' =>
    by_cases hne : d' = d ∧ i' = i
    · obtain ⟨rfl, rfl⟩ := hne
      exact iff_of_false (fun hc => clearEntry_not_own hc.2.2) fun hc => hc.2 rfl
    · rw [and_iff_left (fun hc => hne (Use.table.inj hc))]
      exact and_congr_right fun _ => and_congr_right fun _ => h.clearEntry_own hd hne
  | frame d' i' j =>
    rw [and_iff_left (by simp)]
    by_cases hne : d' = d ∧ i' = i
    · obtain ⟨rfl, rfl⟩ := hne
      exact iff_of_false (fun hc => clearEntry_not_own hc.2.2.1)
        fun hc => hempty j hc.2.2.2.1 hc.2.2.2.2
    · exact and_congr_right fun _ => and_congr_right fun _ => (h.clearEntry_same hd hne).frame j

omit hi ho in
theorem Inv.frames_clearEntry
    (hempty : ∀ j < tableEntries, ¬ s.UserPage (s.entries d i).table j) :
    frames (s.setEntry d i DirEntry.zero) = frames s :=
  frames_congr fun _ _ _ => (h.clearEntry_live hd hempty _).trans (and_iff_left (by simp))

/-- **An own table without user pages goes back.** -/
theorem Inv.dropTable (hempty : ∀ j < tableEntries, ¬ s.UserPage (s.entries d i).table j) :
    Inv ((s.setEntry d i DirEntry.zero).freePage (s.entries d i).table) := by
  have hdm := h.managed_of_user hd
  have hlive := h.clearEntry_live hd hempty
  have htable : Use.table d i ∈ live s := ⟨hdm, hi, ho⟩
  have htakes := Memory.freePage_takes h.pmm (h.table_out hdm hi ho)
  refine ⟨htakes.inv, { h.registry with }, fun d' hd' i' hi' => ?_, ?_, ?_⟩
  · by_cases hne : d' = d ∧ i' = i
    · obtain ⟨rfl, rfl⟩ := hne
      have hz : (s.setEntry d' i' DirEntry.zero).entries d' i' = DirEntry.zero := by
        rw [setEntry_entries, if_pos ⟨rfl, rfl⟩]
      refine ⟨.inl hz, fun hu => ?_, fun hc => absurd hc clearEntry_not_own⟩
      have hu : ((s.setEntry d' i' DirEntry.zero).entries d' i').user = true := hu
      rw [hz] at hu
      cases hu
    · exact { (h.clearEntry_same hd hne).entryOk (h.entry d' hd' i' hi') id with }
  · refine h.placed.shrink (fun v hv => ?_) fun v hv => ?_
    · have hv' := (hlive v).mp hv
      refine ⟨hv'.1, same_address hv'.1 fun d' i' hu _ _ _ => ?_⟩
      refine { h.clearEntry_same hd (fun hne => ?_) with }
      obtain ⟨rfl, rfl⟩ := hne
      cases v with
      | directory _ => exact hu
      | table d' i' => exact hv'.2 (by rw [hu.1, hu.2])
      | frame d' i' j =>
        obtain ⟨rfl, rfl⟩ := hu
        exact hempty j hv'.1.2.2.2.1 hv'.1.2.2.2.2
    · have hv' := (hlive v).mp hv
      exact (htakes.out _).mpr ⟨h.placed.out hv'.1, fun hc => hv'.2 (h.placed.inj hv'.1 htable hc)⟩
  · show s.stats.activePages = (frames (s.setEntry d i DirEntry.zero)).ncard
    rw [h.frames_clearEntry hd hempty]
    exact h.active

end Entries

end ZephyrOS.Paging
