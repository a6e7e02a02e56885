import ZephyrOS.Memory.Pmm
import ZephyrOS.Lib.Slots

/-!
# Page directories and page tables

The paging of `paging.c`: the kernel's directory, the user directories that share its
tables, and the private tables of each. A directory or a table is a page of the page
allocator and is named by its address, as the source names it by a pointer; `entries`
and `pages` are what those pages hold, read as the source's two types. Pages of
directories and tables are overwritten as a whole when they are allocated, so what one
held under the other type never shows.

The processor's own part (`cr3`, `cr0`, `invlpg`) has no state here beyond the current
directory.
-/

namespace ZephyrOS.Paging

open ZephyrOS.Memory (pageSize MemInfo MemoryZone)
open Function

def userSpaceStart : Nat := 0x00800000
def userSpaceEnd : Nat := 0x01000000
def tableEntries : Nat := 1024
def maxUserDirectories : Nat := 64
def maxDirectories : Nat := 128
def flagPresent : Nat := 1
def flagWrite : Nat := 2
def flagUser : Nat := 4

/-- An entry of `page_directory_t`: the table's address (`entry & 0xFFFFF000`) and the
flags under it. -/
structure DirEntry where
  table : Nat
  present : Bool
  write : Bool
  user : Bool
  deriving DecidableEq, Repr

/-- `page_entry_t`, without the bits the kernel never reads. -/
structure PageEntry where
  frame : Nat
  present : Bool
  rw : Bool
  user : Bool
  deriving DecidableEq, Repr

def DirEntry.zero : DirEntry := ⟨0, false, false, false⟩
def PageEntry.zero : PageEntry := ⟨0, false, false, false⟩

/-- `paging_user_stats_t`. -/
structure UserStats where
  activeDirectories : Nat
  activePages : Nat
  directoriesCreated : Nat
  directoriesReleased : Nat
  rejectedReleases : Nat
  ready : Bool
  deriving DecidableEq, Repr

def UserStats.zero : UserStats := ⟨0, 0, 0, 0, 0, false⟩

/-- The statics of `paging.c`, and the pages of the directories and the tables. -/
structure State where
  currentDirectory : Nat
  kernelDirectory : Nat
  pagingInitialized : Bool
  userDirectories : Nat → Nat
  pagingDirectories : Nat → Nat
  stats : UserStats
  entries : Nat → Nat → DirEntry
  pages : Nat → Nat → PageEntry
  pmm : MemInfo

def State.setEntry (s : State) (d i : Nat) (e : DirEntry) : State :=
  { s with entries := update s.entries d (update (s.entries d) i e) }

/-- `dir->entries[i] |= PAGING_FLAG_USER`. -/
def State.openEntry (s : State) (d i : Nat) : State :=
  s.setEntry d i { s.entries d i with user := true }

def State.setPage (s : State) (t j : Nat) (p : PageEntry) : State :=
  { s with pages := update s.pages t (update (s.pages t) j p) }

/-- `pmm_free_page` on an address. -/
def State.freePage (s : State) (address : Nat) : State :=
  { s with pmm := s.pmm.pmmFreePage address }

/-! ### The registries -/

def State.userDirectoryIndex (s : State) (d : Nat) : Option Nat :=
  if d = 0 then none else Lib.slotOf maxUserDirectories s.userDirectories d

def State.directoryIndex (s : State) (d : Nat) : Option Nat :=
  if d = 0 then none else Lib.slotOf maxDirectories s.pagingDirectories d

def State.isManagedDirectory (s : State) (d : Nat) : Bool := (s.directoryIndex d).isSome

def State.isRegisteredUserDirectory (s : State) (d : Nat) : Bool :=
  (s.userDirectoryIndex d).isSome

/-- `none` where the source returns 0. -/
def State.registerDirectory (s : State) (d : Nat) : Option State :=
  if d = 0 then none
  else match Lib.slotOf maxDirectories s.pagingDirectories 0 with
    | some k => some { s with pagingDirectories := update s.pagingDirectories k d }
    | none => none

def State.unregisterDirectory (s : State) (d : Nat) : State :=
  match s.directoryIndex d with
  | some k => { s with pagingDirectories := update s.pagingDirectories k 0 }
  | none => s

def State.registerUserDirectory (s : State) (d : Nat) : Option State :=
  if d = 0 then none
  else match Lib.slotOf maxUserDirectories s.userDirectories 0 with
    | some k => some { s with
        userDirectories := update s.userDirectories k d
        stats := { s.stats with
          activeDirectories := u32 (s.stats.activeDirectories + 1)
          directoriesCreated := u32 (s.stats.directoriesCreated + 1) } }
    | none => none

def UserStats.dropDirectory (st : UserStats) : UserStats :=
  { st with
    activeDirectories :=
      if 0 < st.activeDirectories then st.activeDirectories - 1 else st.activeDirectories
    directoriesReleased := u32 (st.directoriesReleased + 1) }

def State.unregisterUserDirectory (s : State) (k : Nat) : State :=
  if maxUserDirectories ≤ k ∨ s.userDirectories k = 0 then s
  else { s with
    userDirectories := update s.userDirectories k 0
    stats := s.stats.dropDirectory }

def State.reject (s : State) : State :=
  { s with stats := { s.stats with rejectedReleases := u32 (s.stats.rejectedReleases + 1) } }

/-! ### Directories, pages and mappings -/

/-- `paging_create_directory`. -/
def createDirectory (s : State) : Option Nat × State :=
  match s.pmm.pmmAllocPagesInZone 1 .kernel with
  | (none, m) => (none, { s with pmm := m })
  | (some d, m) =>
    match State.registerDirectory { s with pmm := m } d with
    | none => (none, State.freePage { s with pmm := m } d)
    | some s => (some d, { s with entries := update s.entries d fun _ => DirEntry.zero })

/-- `paging_build_table_entry`. -/
def buildTableEntry (table : Nat) : Option DirEntry :=
  if table / pageSize * pageSize = 0 then none
  else some ⟨table / pageSize * pageSize, true, true, false⟩

def tableIndex (virtual : Nat) : Nat := virtual / (pageSize * tableEntries)
def pageIndex (virtual : Nat) : Nat := virtual / pageSize % tableEntries

/-- A new table under entry `i` of `d`: the tail of `paging_get_page_in_directory` and of
`paging_bootstrap_get_table`. -/
def newTable (zone : MemoryZone) (d i : Nat) (s : State) : Option Nat × State :=
  match s.pmm.pmmAllocPagesInZone 1 zone with
  | (none, m) => (none, { s with pmm := m })
  | (some t, m) =>
    let s := { s with pmm := m, pages := update s.pages t fun _ => PageEntry.zero }
    match buildTableEntry t with
    | none => (none, s.freePage t)
    | some e => (some t, s.setEntry d i e)

/-- `paging_get_page_in_directory`; the entry a pointer would point to is named by its
table and its index there. -/
def getPageInDirectory (d virtual : Nat) (create : Int) (s : State) : Option (Nat × Nat) × State :=
  if d = 0 then (none, s)
  else if !s.isManagedDirectory d then (none, s)
  else if create ≠ 0 ∧ create ≠ 1 then (none, s)
  else if create = 1 ∧ s.isRegisteredUserDirectory d ∧ virtual < userSpaceStart then (none, s)
  else
    let e := s.entries d (tableIndex virtual)
    if e.present then
      if e.table = 0 then (none, s) else (some (e.table, pageIndex virtual), s)
    else if create = 0 then (none, s)
    else
      let zone := if s.isRegisteredUserDirectory d then MemoryZone.process else MemoryZone.kernel
      match newTable zone d (tableIndex virtual) s with
      | (none, s) => (none, s)
      | (some t, s) => (some (t, pageIndex virtual), s)

def hasFlag (flags flag : Nat) : Bool := flags &&& flag ≠ 0

/-- `active_pages -= n`, stopped at 0. -/
def State.discountPages (s : State) (n : Nat) : State :=
  { s with stats := { s.stats with activePages := s.stats.activePages - n } }

def State.countPage (s : State) : State :=
  { s with stats := { s.stats with activePages := u32 (s.stats.activePages + 1) } }

/-- The end of `paging_map_page_in_directory`, once page `j` of table `t` is found; `e` is
what the directory's entry was before. -/
def finishMap (d i : Nat) (e : DirEntry) (t j physical flags : Nat) (s : State) :
    Except Err Unit × State :=
  if hasFlag flags flagUser ∧ (s.pages t j).present then (.error .state, s)
  else
    let s := if !e.present ∧ hasFlag flags flagUser then s.openEntry d i else s
    let s := s.setPage t j
      ⟨physical / pageSize, true, hasFlag flags flagWrite, hasFlag flags flagUser⟩
    (.ok (), if hasFlag flags flagUser then s.countPage else s)

/-- `paging_map_page_in_directory`. -/
def mapPageInDirectory (d virtual physical flags : Nat) (s : State) : Except Err Unit × State :=
  if d = 0 then (.error .null, s)
  else if virtual % pageSize ≠ 0 ∨ physical % pageSize ≠ 0 then (.error .invalid, s)
  else if 7 < flags then (.error .invalid, s)
  else if hasFlag flags flagUser ∧ (virtual < userSpaceStart ∨ userSpaceEnd ≤ virtual) then
    (.error .invalid, s)
  else if hasFlag flags flagUser ∧ !s.isRegisteredUserDirectory d then (.error .state, s)
  else if s.isRegisteredUserDirectory d ∧ !hasFlag flags flagUser then (.error .state, s)
  else
    let e := s.entries d (tableIndex virtual)
    if hasFlag flags flagUser ∧ e ≠ DirEntry.zero ∧ !e.user then (.error .state, s)
    else
      match getPageInDirectory d virtual 1 s with
      | (none, s) => (.error .mem, s)
      | (some (t, j), s) => finishMap d (tableIndex virtual) e t j physical flags s

def State.tableIsEmpty (s : State) (t : Nat) : Bool :=
  (List.range tableEntries).all fun j => !(s.pages t j).present

/-- The kernel directory's entry, as the places that look for shared tables read it. -/
def State.sharedEntry (s : State) (i : Nat) : DirEntry :=
  if s.kernelDirectory = 0 then DirEntry.zero else s.entries s.kernelDirectory i

/-- `paging_unmap_user_page_in_directory`. -/
def unmapUserPageInDirectory (d virtual : Nat) (s : State) : Except Err Unit × State :=
  if d = 0 then (.error .null, s)
  else if !s.isRegisteredUserDirectory d then (.error .state, s)
  else if virtual % pageSize ≠ 0 ∨ virtual < userSpaceStart ∨ userSpaceEnd ≤ virtual then
    (.error .invalid, s)
  else
    let i := tableIndex virtual
    let e := s.entries d i
    if !e.present ∨ !e.user then (.error .notFound, s)
    else if e.table = 0 then (.error .state, s)
    else
      let page := s.pages e.table (pageIndex virtual)
      if !page.present ∨ !page.user then (.error .notFound, s)
      else
        let s := ((s.setPage e.table (pageIndex virtual) PageEntry.zero).freePage
          (page.frame * pageSize)).discountPages 1
        if e.table ≠ (s.sharedEntry i).table ∧ s.tableIsEmpty e.table then
          (.ok (), (s.setEntry d i DirEntry.zero).freePage e.table)
        else (.ok (), s)

def State.isReady (s : State) : Bool := s.pagingInitialized ∧ s.currentDirectory ≠ 0

/-- The copying loop of `paging_create_user_directory`: the kernel's tables are shared,
and stay out of the user's reach. -/
def State.inheritEntries (s : State) (d : Nat) : State :=
  { s with entries := update s.entries d fun i =>
      if i < tableEntries then ⟨(s.entries s.kernelDirectory i).table,
        (s.entries s.kernelDirectory i).present, (s.entries s.kernelDirectory i).write, false⟩
      else s.entries d i }

/-- `paging_create_user_directory`. -/
def createUserDirectory (s : State) : Option Nat × State :=
  if !s.isReady ∨ s.kernelDirectory = 0 then (none, s)
  else
    match s.pmm.pmmAllocPagesInZone 1 .process with
    | (none, m) => (none, { s with pmm := m })
    | (some d, m) =>
      match State.registerDirectory { s with pmm := m } d with
      | none => (none, State.freePage { s with pmm := m } d)
      | some s =>
        let s := s.inheritEntries d
        match s.registerUserDirectory d with
        | none => (none, (s.unregisterDirectory d).freePage d)
        | some s => (some d, s)

/-- The inner loop of `paging_free_user_directory`, with `released_pages`. -/
def releaseTablePages (t : Nat) (s : State) (released : Nat) : State × Nat :=
  Lib.forRange 0 (fun j (a : State × Nat) =>
    let page := a.1.pages t j
    if page.present ∧ page.user then (a.1.freePage (page.frame * pageSize), a.2 + 1) else a)
    tableEntries (s, released)

/-- One round of its outer loop. -/
def releaseTable (d i : Nat) (a : State × Nat) : State × Nat :=
  let e := a.1.entries d i
  if !e.present ∨ e.table = (a.1.sharedEntry i).table then a
  else if e.table = 0 then a
  else
    let a := releaseTablePages e.table a.1 a.2
    ((a.1.setEntry d i DirEntry.zero).freePage e.table, a.2)

/-- `paging_free_user_directory`. -/
def freeUserDirectory (d : Nat) (s : State) : State :=
  if d = 0 ∨ d = s.currentDirectory ∨ d = s.kernelDirectory then s.reject
  else match s.userDirectoryIndex d with
    | none => s.reject
    | some k =>
      let a := Lib.forRange 0 (releaseTable d) tableEntries (s, 0)
      (((a.1.freePage d).discountPages a.2).unregisterUserDirectory k).unregisterDirectory d

/-- `paging_free_directory`, which the error exits of `paging_init` use. -/
def freeDirectory (d : Nat) (s : State) : State :=
  if d = 0 ∨ d = s.currentDirectory then s
  else if s.isRegisteredUserDirectory d then s.reject
  else if !s.isManagedDirectory d then s
  else
    let s := Lib.forRange 0 (fun i (s : State) =>
      if (s.entries d i).present then
        (s.freePage (s.entries d i).table).setEntry d i DirEntry.zero
      else s) tableEntries s
    let s := s.freePage d
    let s :=
      if d = s.kernelDirectory then { s with kernelDirectory := 0, pagingInitialized := false }
      else s
    s.unregisterDirectory d

/-- `paging_switch_directory`. -/
def switchDirectory (d : Nat) (s : State) : State :=
  if d = 0 then s
  else if !s.isManagedDirectory d then s
  else { s with currentDirectory := d, pagingInitialized := true }

/-- The loop of `paging_get_user_page_count` over the pages of one table. -/
def State.countTable (s : State) (t : Nat) : Nat :=
  ((List.range tableEntries).filter fun j => (s.pages t j).present && (s.pages t j).user).length

/-- One round of its loop over the tables. -/
def State.countEntry (s : State) (d i : Nat) : Except Err Nat :=
  let e := s.entries d i
  if !e.present ∨ e.table = (s.sharedEntry i).table then .ok 0
  else if !e.user then .ok 0
  else if e.table = 0 then .error .state
  else .ok (s.countTable e.table)

/-- `paging_get_user_page_count`. Its guard against a count of `2^32` is not reached:
a directory has `2^20` pages. -/
def State.getUserPageCount (s : State) (d : Nat) : Except Err Nat :=
  if d = 0 then .error .null
  else if !s.isReady then .error .state
  else if d ≠ s.kernelDirectory ∧ !s.isRegisteredUserDirectory d then .error .state
  else Lib.forRangeE 0 (fun i n => (s.countEntry d i).map (n + ·)) tableEntries 0

/-! ### `paging_init` -/

/-- `paging_bootstrap_get_table`. -/
def bootstrapGetTable (i : Nat) (s : State) : Option Nat × State :=
  if s.kernelDirectory = 0 ∨ tableEntries ≤ i then (none, s)
  else
    let e := s.entries s.kernelDirectory i
    if e.present then
      if e.user then (none, s) else (some e.table, s)
    else newTable .kernel s.kernelDirectory i s

/-- The loop of `paging_map_identity_range_fast` over the pages of one table. -/
def mapIdentityPages (t : Nat) : Nat → Nat → Nat → State → Except Err Unit × State
  | 0, _, _, s => (.ok (), s)
  | n + 1, j, address, s =>
    let page := s.pages t j
    if page.present ∧ (page.frame ≠ address / pageSize ∨ page.user) then (.error .state, s)
    else mapIdentityPages t n (j + 1) (address + pageSize)
      (s.setPage t j ⟨address / pageSize, true, true, false⟩)

/-- Its loop over the tables; a round maps at least one page, so `fuel` is the number of
pages. -/
def mapIdentityLoop («end» : Nat) : Nat → Nat → State → Except Err Unit × State
  | 0, _, s => (.ok (), s)
  | fuel + 1, address, s =>
    if «end» ≤ address then (.ok (), s)
    else
      let tablePages := min (tableEntries - pageIndex address) ((«end» - address) / pageSize)
      match bootstrapGetTable (tableIndex address) s with
      | (none, s) => (.error .mem, s)
      | (some t, s) =>
        if t = 0 then (.error .mem, s)
        else
          match mapIdentityPages t tablePages (pageIndex address) address s with
          | (.error e, s) => (.error e, s)
          | (.ok _, s) => mapIdentityLoop «end» fuel (address + tablePages * pageSize) s

/-- `paging_map_identity_range_fast`. -/
def mapIdentityRangeFast (start «end» : Nat) (s : State) : Except Err Unit × State :=
  if «end» ≤ start ∨ start % pageSize ≠ 0 ∨ «end» % pageSize ≠ 0 then (.error .invalid, s)
  else mapIdentityLoop «end» ((«end» - start) / pageSize) start s

/-- What `paging_map_framebuffer` reads of a `vesa_mode_t` that is initialized. -/
structure VesaMode where
  framebuffer : Nat
  pitch : Nat
  height : Nat

/-- `paging_map_framebuffer`. -/
def mapFramebuffer (mode : VesaMode) (s : State) : Except Err Unit × State :=
  if mode.height ≠ 0 ∧ 4294967295 / mode.height < mode.pitch then (.error .overflow, s)
  else
    let size := mode.pitch * mode.height
    if size = 0 ∨ 4294967295 - size < mode.framebuffer then (.error .overflow, s)
    else
      let fbEnd := mode.framebuffer + size
      if Memory.maxPhysicalAddress < fbEnd + pageSize - 1 then (.error .overflow, s)
      else mapIdentityRangeFast (mode.framebuffer / pageSize * pageSize)
        ((fbEnd + pageSize - 1) / pageSize * pageSize) s

/-- `paging_abort_init`. -/
def abortInit (d : Nat) (e : Err) (s : State) : Except Err Unit × State :=
  (.error e, freeDirectory d
    { s with currentDirectory := 0, kernelDirectory := 0, pagingInitialized := false })

/-- The ranges `paging_init` maps one to one, in its order; the sixth ends where memory
does. -/
def bootRanges (physicalEnd : Nat) : List (Nat × Nat) :=
  [(0x00002000, 0x00003000), (0x00004000, 0x00010000),
   (Memory.pmmBitmapStorageStart, Memory.kernelStackTop),
   (Memory.kernelStart, Memory.kernelEnd),
   (Memory.heapStart, Memory.heapStart + Memory.heapSize),
   (Memory.physicalIdentityStart, physicalEnd), (0xB8000, 0xC0000)]

/-- Map ranges one after the other, and stop at the first that fails. A range that is
empty fails, which for the sixth is the check `paging_init` makes on its own. -/
def mapRanges : List (Nat × Nat) → State → Except Err Unit × State
  | [], s => (.ok (), s)
  | r :: rs, s =>
    match mapIdentityRangeFast r.1 r.2 s with
    | (.error e, s) => (.error e, s)
    | (.ok _, s) => mapRanges rs s

/-- `paging_init`, with the video mode `vesa_get_mode` reports. A framebuffer that cannot
be mapped is given up, and with it nothing but the video mode. -/
def pagingInit (mode : Option VesaMode) (s : State) : Except Err Unit × State :=
  if s.pagingInitialized ∧ s.currentDirectory ≠ 0 then (.ok (), s)
  else
    let s := { s with
      userDirectories := fun _ => 0
      pagingDirectories := fun _ => 0
      stats := { UserStats.zero with ready := true } }
    match createDirectory s with
    | (none, s) => (.error .mem, s)
    | (some d, s) =>
      let s := { s with currentDirectory := d, kernelDirectory := d }
      match mapRanges (bootRanges s.pmm.totalMemory) s with
      | (.error _, s) => abortInit d .mem s
      | (.ok _, s) =>
        let s := match mode with
          | some mode => (mapFramebuffer mode s).2
          | none => s
        (.ok (), switchDirectory d s)

end ZephyrOS.Paging
