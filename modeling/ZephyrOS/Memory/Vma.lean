import ZephyrOS.Memory.Paging

/-!
# The address space of a process

The areas of `vma.c` and the limits of `resource.c`, for one process and the directory it
owns. An area is a promise of pages; a page is only there once it was touched
(`process_vma_ensure_page`, a page fault). The list of areas is a list here, in the order
the source links it, and an area is found, cut and linked as the source does.

What the calls take from elsewhere is an argument or a field: whether `kmalloc` has memory
for the metadata, whether the process is the running one, and its record in the resource
table.
-/

namespace ZephyrOS.Vma

open ZephyrOS.Memory (pageSize MemInfo MemoryZone)
open ZephyrOS.Paging (userSpaceStart userSpaceEnd flagPresent flagWrite flagUser hasFlag)

def vmRead : Nat := 0x01
def vmWrite : Nat := 0x02
def vmExec : Nat := 0x04
def vmAnonymous : Nat := 0x10

def userCodeBase : Nat := 0x00800000
def userDataBase : Nat := 0x00801000
def userLaunchBase : Nat := 0x00802000
def userStackBase : Nat := 0x00C00000

def mmapStart : Nat := userLaunchBase + pageSize
def mmapEnd : Nat := userStackBase

def maxResidentPages : Nat := 128
def maxAnonymousBytes : Nat := 1024 * 1024
def maxDynamicVmas : Nat := 16

/-- `vm_area_t`, without its link. -/
structure VmArea where
  startAddr : Nat
  endAddr : Nat
  flags : Nat
  file : Nat
  offset : Nat
  deriving DecidableEq, Repr

/-- What `vma.c` and `resource.c` read of a `process_t`. An image is a pointer that may be
null; `userLaunch` is the bytes of an `app_launch_info_t`. -/
structure Process where
  pageDirectory : Nat
  userMode : Bool
  vmaList : List VmArea
  vmaCount : Nat
  userCodeImage : Option (List UInt8)
  userCodeSize : Nat
  userDataImage : Option (List UInt8)
  userDataSize : Nat
  userLaunch : List UInt8

/-- The failures of `process_resource_failure_t` that memory has. -/
inductive ResourceFailure where
  | none | anonymousBytes | dynamicVmas | residentPages | oom
  deriving DecidableEq, Repr

/-- The record of a failure in a `process_resource_entry_t`. -/
structure ResourceEntry where
  allocationFailures : Nat
  lastFailure : ResourceFailure
  lastError : Option Err
  lastRequested : Nat

/-- `page_fault_stats_t`. -/
structure PageFaultStats where
  handled : Nat
  invalid : Nat

structure State where
  paging : Paging.State
  proc : Process
  /-- `process_get_current()` is the process. -/
  current : Bool
  /-- `process_pointer_valid` of the process. -/
  valid : Bool
  /-- What `resource_find_process` finds. -/
  entry : Option ResourceEntry
  faults : PageFaultStats
  /-- The bytes of the frames, by address. -/
  memory : Nat → Nat → UInt8

/-! ### Checks -/

/-- `process_vma_is_current_user`. -/
def isCurrentUser (s : State) : Except Err Unit :=
  if !s.current ∨ !(s.valid && s.proc.userMode) then .error .state
  else if s.proc.pageDirectory = 0 then .error .state
  else if s.proc.pageDirectory ≠ s.paging.currentDirectory then .error .state
  else .ok ()

/-- `process_vma_validate_length`. -/
def validateLength (length : Nat) : Except Err Nat :=
  if length = 0 then .error .invalid
  else if 4294967295 - (pageSize - 1) < length then .error .overflow
  else
    let rounded := (length + pageSize - 1) / pageSize * pageSize
    if rounded = 0 then .error .overflow else .ok rounded

/-- `process_vma_create`; `heap` is whether `kmalloc` succeeds. -/
def create (heap : Bool) (startAddr endAddr flags : Nat) : Option VmArea :=
  if heap then some ⟨startAddr, endAddr, flags, 0, 0⟩ else none

/-! ### The list -/

/-- The search of `process_vma_insert_sorted` behind the first area, and the insertion. -/
def insertAfter (area : VmArea) : List VmArea → Except Err (List VmArea)
  | [] => .ok [area]
  | [current] =>
    if area.startAddr < current.endAddr then .error .state else .ok [current, area]
  | current :: next :: rest =>
    if next.startAddr < area.startAddr then
      (insertAfter area (next :: rest)).map (current :: ·)
    else if area.startAddr < current.endAddr ∨ next.startAddr < area.endAddr then .error .state
    else .ok (current :: area :: next :: rest)

/-- `process_vma_insert_sorted`, on the list. -/
def insertSorted (area : VmArea) (list : List VmArea) : Except Err (List VmArea) :=
  if area.endAddr ≤ area.startAddr ∨ area.startAddr % pageSize ≠ 0 ∨ area.endAddr % pageSize ≠ 0
      ∨ area.startAddr < userSpaceStart ∨ userSpaceEnd < area.endAddr then .error .invalid
  else
    match list with
    | [] => .ok [area]
    | head :: rest =>
      if area.startAddr < head.startAddr then
        if head.startAddr < area.endAddr then .error .state else .ok (area :: head :: rest)
      else insertAfter area (head :: rest)

/-- The end of `process_vma_find_gap`: the room behind the last area. -/
def lastGap (length candidate : Nat) : Except Err Nat :=
  if candidate ≤ mmapEnd ∧ length ≤ mmapEnd - candidate then .ok candidate else .error .mem

/-- The loop of `process_vma_find_gap`. -/
def findGapLoop (length : Nat) : List VmArea → Nat → Except Err Nat
  | [], candidate => lastGap length candidate
  | current :: rest, candidate =>
    if current.endAddr ≤ mmapStart then findGapLoop length rest candidate
    else if mmapEnd ≤ current.startAddr then lastGap length candidate
    else if candidate < current.startAddr ∧ length ≤ current.startAddr - candidate then
      .ok candidate
    else findGapLoop length rest
      (if candidate < current.endAddr then current.endAddr else candidate)

/-- `process_vma_find_gap`. -/
def findGap (list : List VmArea) (length : Nat) : Except Err Nat :=
  if length = 0 then .error .null else findGapLoop length list mmapStart

/-- `process_vma_find_containing`: the areas before the one that is found (the last of them is
`previous`), the area, and those behind it. -/
def findContaining (startAddr endAddr : Nat) :
    List VmArea → Option (List VmArea × VmArea × List VmArea)
  | [] => none
  | current :: rest =>
    if current.startAddr ≤ startAddr ∧ endAddr ≤ current.endAddr then some ([], current, rest)
    else if startAddr < current.startAddr then none
    else (findContaining startAddr endAddr rest).map fun r => (current :: r.1, r.2)

/-- `process_vma_find_page`. -/
def findPage (pageAddr : Nat) : List VmArea → Option VmArea
  | [] => none
  | area :: rest =>
    if area.startAddr ≤ pageAddr ∧ pageAddr < area.endAddr then some area
    else if pageAddr < area.startAddr then none
    else findPage pageAddr rest

/-! ### Limits -/

def VmArea.isDynamic (area : VmArea) : Bool :=
  mmapStart ≤ area.startAddr ∧ area.endAddr ≤ mmapEnd

/-- `resource_dynamic_usage`: the bytes and the number of the dynamic areas. -/
def dynamicUsage : List VmArea → Nat → Nat → Except Err (Nat × Nat)
  | [], bytes, vmas => .ok (bytes, vmas)
  | area :: rest, bytes, vmas =>
    if area.isDynamic then
      if area.endAddr < area.startAddr then .error .state
      else if 4294967295 - bytes < area.endAddr - area.startAddr then .error .overflow
      else if vmas = 4294967295 then .error .overflow
      else dynamicUsage rest (bytes + (area.endAddr - area.startAddr)) (vmas + 1)
    else dynamicUsage rest bytes vmas

/-- `resource_current_pages`. -/
def currentPages (s : State) : Except Err Nat :=
  if !s.proc.userMode then .ok 0
  else if s.proc.pageDirectory = 0 then .error .state
  else s.paging.getUserPageCount s.proc.pageDirectory

/-- `process_resource_record_failure`. -/
def recordFailure (failure : ResourceFailure) (error : Err) (requested : Nat) (s : State) : State :=
  { s with entry := s.entry.map fun e =>
      { allocationFailures :=
          if e.allocationFailures ≠ 4294967295 then e.allocationFailures + 1
          else e.allocationFailures
        lastFailure := failure
        lastError := some error
        lastRequested := requested } }

/-- `process_resource_check_vma`. -/
def checkVma (length : Nat) (s : State) : Except Err Unit × State :=
  if s.entry.isNone then (.error .state, s)
  else if !s.proc.userMode then (.error .state, s)
  else if length = 0 ∨ length % pageSize ≠ 0 then (.error .invalid, s)
  else
    match dynamicUsage s.proc.vmaList 0 0 with
    | .error e => (.error e, s)
    | .ok (bytes, vmas) =>
      if maxAnonymousBytes < bytes then
        (.error .overflow, recordFailure .anonymousBytes .overflow length s)
      else if maxDynamicVmas ≤ vmas then
        (.error .overflow, recordFailure .dynamicVmas .overflow 1 s)
      else if maxAnonymousBytes - bytes < length then
        (.error .overflow, recordFailure .anonymousBytes .overflow length s)
      else (.ok (), s)

/-- `process_resource_check_vma_split`. -/
def checkVmaSplit (s : State) : Except Err Unit × State :=
  if s.entry.isNone then (.error .state, s)
  else
    match dynamicUsage s.proc.vmaList 0 0 with
    | .error e => (.error e, s)
    | .ok (_, vmas) =>
      if maxDynamicVmas ≤ vmas then
        (.error .overflow, recordFailure .dynamicVmas .overflow 1 s)
      else (.ok (), s)

/-- `process_resource_check_page`. -/
def checkPage (s : State) : Except Err Unit × State :=
  if s.entry.isNone then (.error .state, s)
  else
    match currentPages s with
    | .error e => (.error e, s)
    | .ok pages =>
      if maxResidentPages ≤ pages then
        (.error .overflow, recordFailure .residentPages .overflow 1 s)
      else (.ok (), s)

/-! ### Pages -/

/-- The entry `paging_get_page_in_directory` finds without making a table. -/
def pageAt (d address : Nat) (p : Paging.State) : Option Paging.PageEntry :=
  (Paging.getPageInDirectory d address 0 p).1.map fun place => p.pages place.1 place.2

/-- A page is there that is the kernel's. -/
def isSupervisor (d address : Nat) (p : Paging.State) : Bool :=
  match pageAt d address p with
  | some page => page.present && !page.user
  | none => false

def isPresent (d address : Nat) (p : Paging.State) : Bool :=
  match pageAt d address p with
  | some page => page.present
  | none => false

/-- The second loop of `process_vma_unmap_pages`, over `n` pages. -/
def unmapLoop (d : Nat) : Nat → Nat → Paging.State → Except Err Unit × Paging.State
  | 0, _, p => (.ok (), p)
  | n + 1, address, p =>
    if isPresent d address p then
      match Paging.unmapUserPageInDirectory d address p with
      | (.error e, p) => (.error e, p)
      | (.ok _, p) => unmapLoop d n (address + pageSize) p
    else unmapLoop d n (address + pageSize) p

/-- `process_vma_unmap_pages`. -/
def unmapPages (d startAddr endAddr : Nat) (p : Paging.State) : Except Err Unit × Paging.State :=
  if endAddr ≤ startAddr ∨ startAddr % pageSize ≠ 0 ∨ endAddr % pageSize ≠ 0
      ∨ startAddr < userSpaceStart ∨ userSpaceEnd < endAddr then (.error .invalid, p)
  else
    let pages := (endAddr - startAddr) / pageSize
    if (List.range pages).any fun k => isSupervisor d (startAddr + k * pageSize) p then
      (.error .state, p)
    else unmapLoop d pages startAddr p

/-- `process_vma_access_allowed`. -/
def accessAllowed (area : VmArea) (write instruction : Int) : Bool :=
  if (write ≠ 0 ∧ write ≠ 1) ∨ (instruction ≠ 0 ∧ instruction ≠ 1) then false
  else if write ≠ 0 then area.flags &&& vmWrite ≠ 0
  else if instruction ≠ 0 then area.flags &&& vmExec ≠ 0
  else area.flags &&& vmRead ≠ 0

/-- A page that starts with the bytes of `image` and is 0 behind them. -/
def imagePage (image : List UInt8) : Nat → UInt8 := fun k => image.getD k 0

/-- `process_vma_populate_page`: the bytes of the new page. The launch record is smaller
than a page, which the source checks when it is compiled. -/
def populatePage (proc : Process) (area : VmArea) : Except Err (Nat → UInt8) :=
  if area.startAddr = userCodeBase then
    match proc.userCodeImage with
    | none => .error .state
    | some image =>
      if pageSize < proc.userCodeSize then .error .state
      else .ok (imagePage (image.take proc.userCodeSize))
  else if area.startAddr = userDataBase then
    if pageSize < proc.userDataSize ∨ (proc.userDataSize ≠ 0 ∧ proc.userDataImage = none) then
      .error .state
    else .ok (imagePage ((proc.userDataImage.getD []).take proc.userDataSize))
  else if area.startAddr = userLaunchBase then .ok (imagePage proc.userLaunch)
  else .ok fun _ => 0

def State.withPmm (s : State) (m : MemInfo) : State :=
  { s with paging := { s.paging with pmm := m } }

/-- Give a frame back. -/
def State.freeFrame (s : State) (frame : Nat) : State :=
  { s with paging := s.paging.freePage frame }

def State.setFrame (s : State) (frame : Nat) (bytes : Nat → UInt8) : State :=
  { s with memory := Function.update s.memory frame bytes }

/-- The flags a page of the area is mapped with. -/
def pagingFlags (area : VmArea) : Nat :=
  if area.flags &&& vmWrite ≠ 0 then flagPresent + flagUser + flagWrite
  else flagPresent + flagUser

/-- The end of `process_vma_materialize_page`, with the frame it got. -/
def fillPage (area : VmArea) (pageAddr frame : Nat) (s : State) : Except Err Unit × State :=
  match populatePage s.proc area with
  | .error e => (.error e, (s.setFrame frame fun _ => 0).freeFrame frame)
  | .ok bytes =>
    let s := s.setFrame frame bytes
    match Paging.mapPageInDirectory s.proc.pageDirectory pageAddr frame (pagingFlags area)
        s.paging with
    | (.error e, p) => (.error e, State.freeFrame { s with paging := p } frame)
    | (.ok _, p) => (.ok (), { s with paging := p })

/-- The middle of `process_vma_materialize_page`: the page is not there, and a frame is
taken for it. -/
def takePage (area : VmArea) (pageAddr : Nat) (write instruction : Int) (s : State) :
    Except Err Unit × State :=
  if !accessAllowed area write instruction then (.error .unavailable, s)
  else
    match checkPage s with
    | (.error e, s) => (.error e, s)
    | (.ok _, s) =>
      match s.paging.pmm.pmmAllocPagesInZone 1 .process with
      | (none, m) =>
        (.error .mem, recordFailure .oom .mem pageSize (s.withPmm m))
      | (some frame, m) => fillPage area pageAddr frame (s.withPmm m)

/-- `process_vma_materialize_page`. -/
def materializePage (area : VmArea) (pageAddr : Nat) (write instruction : Int) (s : State) :
    Except Err Unit × State :=
  match pageAt s.proc.pageDirectory pageAddr s.paging with
  | some page =>
    if page.present then
      if !page.user ∨ (write ≠ 0 ∧ !page.rw) then (.error .unavailable, s) else (.ok (), s)
    else takePage area pageAddr write instruction s
  | none => takePage area pageAddr write instruction s

/-! ### The calls -/

/-- `process_vma_ensure_page`. -/
def ensurePage (address : Nat) (write : Int) (s : State) : Except Err Unit × State :=
  match isCurrentUser s with
  | .error e => (.error e, s)
  | .ok _ =>
    if write ≠ 0 ∧ write ≠ 1 then (.error .invalid, s)
    else if address < userSpaceStart ∨ userSpaceEnd ≤ address then (.error .invalid, s)
    else
      let pageAddr := address / pageSize * pageSize
      match findPage pageAddr s.proc.vmaList with
      | none => (.error .unavailable, s)
      | some area => materializePage area pageAddr write 0 s

/-- `process_vma_page_fault_failure`. -/
def pageFaultFailure (e : Err) (s : State) : Except Err Unit × State :=
  (.error e, { s with faults := { s.faults with invalid := u32 (s.faults.invalid + 1) } })

def faultPresent : Nat := 0x01
def faultWrite : Nat := 0x02
def faultUser : Nat := 0x04
def faultReserved : Nat := 0x08
def faultInstruction : Nat := 0x10

def ofBool (b : Bool) : Int := if b then 1 else 0

/-- `process_vma_handle_page_fault`. -/
def handlePageFault (address error : Nat) (s : State) : Except Err Unit × State :=
  match isCurrentUser s with
  | .error e => pageFaultFailure e s
  | .ok _ =>
    if !hasFlag error faultUser ∨ hasFlag error faultReserved ∨ address < userSpaceStart
        ∨ userSpaceEnd ≤ address then pageFaultFailure .invalid s
    else
      let pageAddr := address / pageSize * pageSize
      match findPage pageAddr s.proc.vmaList with
      | none => pageFaultFailure .notFound s
      | some area =>
        if hasFlag error faultPresent ∨ isPresent s.proc.pageDirectory pageAddr s.paging then
          pageFaultFailure .invalid s
        else
          let write := hasFlag error faultWrite
          let instruction := hasFlag error faultInstruction
          if write ∧ instruction then pageFaultFailure .invalid s
          else if !accessAllowed area (ofBool write) (ofBool instruction) then
            pageFaultFailure .invalid s
          else
            match materializePage area pageAddr (ofBool write) (ofBool instruction) s with
            | (.error e, s) => pageFaultFailure e s
            | (.ok _, s) =>
              (.ok (), { s with faults :=
                { s.faults with handled := u32 (s.faults.handled + 1) } })

def State.setAreas (s : State) (list : List VmArea) (count : Nat) : State :=
  { s with proc := { s.proc with vmaList := list, vmaCount := count } }

/-- `process_vma_release`: the pages of every area go, whether or not that succeeds. -/
def release (s : State) : State :=
  let p :=
    if s.proc.pageDirectory = 0 then s.paging
    else s.proc.vmaList.foldl
      (fun p area => (unmapPages s.proc.pageDirectory area.startAddr area.endAddr p).2) s.paging
  State.setAreas { s with paging := p } [] 0

/-- The four areas of an image, with their flags. -/
def imageAreas : List (Nat × Nat) :=
  [(userCodeBase, vmRead + vmExec + vmAnonymous), (userDataBase, vmRead + vmWrite + vmAnonymous),
   (userLaunchBase, vmRead + vmWrite + vmExec + vmAnonymous),
   (userStackBase, vmRead + vmWrite + vmAnonymous)]

/-- The loop of `process_vma_register_image`; `heap` says which `kmalloc` succeeds. -/
def registerLoop : List (Nat × Nat) → List Bool → State → Except Err Unit × State
  | [], _, s => (.ok (), s)
  | (start, flags) :: rest, heap, s =>
    match create (heap.headD false) start (start + pageSize) flags with
    | none => (.error .mem, release s)
    | some area =>
      match insertSorted area s.proc.vmaList with
      | .error _ => (.error .state, release s)
      | .ok list => registerLoop rest heap.tail (s.setAreas list (u32 (s.proc.vmaCount + 1)))

/-- `process_vma_register_image`. -/
def registerImage (heap : List Bool) (codeSize : Nat) (s : State) : Except Err Unit × State :=
  if codeSize = 0 ∨ pageSize < codeSize then (.error .invalid, s)
  else if s.proc.vmaList ≠ [] ∨ s.proc.vmaCount ≠ 0 then (.error .state, s)
  else registerLoop imageAreas heap s

/-- `process_vma_mmap`; `addressOut` is whether the caller gave a place for the address. -/
def mmap (heap : Bool) (length protection flags : Nat) (addressOut : Bool) (s : State) :
    Except Err Nat × State :=
  match isCurrentUser s with
  | .error e => (.error e, s)
  | .ok _ =>
    if !addressOut then (.error .null, s)
    else if vmRead + vmWrite + vmExec < protection then (.error .invalid, s)
    else if flags ≠ vmAnonymous then (.error .unavailable, s)
    else
      match validateLength length with
      | .error e => (.error e, s)
      | .ok rounded =>
        if mmapEnd - mmapStart < rounded then (.error .overflow, s)
        else
          match findGap s.proc.vmaList rounded with
          | .error e => (.error e, s)
          | .ok address =>
            match checkVma rounded s with
            | (.error e, s) => (.error e, s)
            | (.ok _, s) =>
              if 4294967295 - address < rounded then (.error .overflow, s)
              else
                match create heap address (address + rounded) (protection ||| flags) with
                | none => (.error .mem, s)
                | some area =>
                  match insertSorted area s.proc.vmaList with
                  | .error e => (.error e, s)
                  | .ok list =>
                    (.ok address, s.setAreas list (u32 (s.proc.vmaCount + 1)))

/-- What `process_vma_munmap` leaves of an area: nothing, its end, its beginning, or both;
`right` is the new area for the end in the last case. -/
def remains (area : VmArea) (address endAddr rounded : Nat) (right : Option VmArea) : List VmArea :=
  if address = area.startAddr ∧ endAddr = area.endAddr then []
  else if address = area.startAddr then
    [{ area with startAddr := endAddr, offset := u32 (area.offset + rounded) }]
  else if endAddr = area.endAddr then [{ area with endAddr := address }]
  else { area with endAddr := address } :: right.toList

/-- The end of `process_vma_munmap`, with the area that is cut and those around it. -/
def cutArea (before : List VmArea) (area : VmArea) (after : List VmArea)
    (address endAddr rounded : Nat) (right : Option VmArea) (s : State) :
    Except Err Unit × State :=
  match unmapPages s.proc.pageDirectory address endAddr s.paging with
  | (.error e, p) => (.error e, { s with paging := p })
  | (.ok _, p) =>
    let rest := remains area address endAddr rounded right
    let count :=
      if rest.length = 0 then s.proc.vmaCount - 1
      else if rest.length = 2 then u32 (s.proc.vmaCount + 1)
      else s.proc.vmaCount
    (.ok (), State.setAreas { s with paging := p } (before ++ (rest ++ after)) count)

/-- `process_vma_munmap`. -/
def munmap (heap : Bool) (address length : Nat) (s : State) : Except Err Unit × State :=
  match isCurrentUser s with
  | .error e => (.error e, s)
  | .ok _ =>
    if address % pageSize ≠ 0 then (.error .invalid, s)
    else
      match validateLength length with
      | .error e => (.error e, s)
      | .ok rounded =>
        if address < mmapStart ∨ mmapEnd ≤ address ∨ mmapEnd - address < rounded then
          (.error .invalid, s)
        else if 4294967295 - address < rounded then (.error .overflow, s)
        else
          let endAddr := address + rounded
          match findContaining address endAddr s.proc.vmaList with
          | none => (.error .invalid, s)
          | some (before, area, after) =>
            if area.flags &&& vmAnonymous = 0 ∨ area.file ≠ 0 then (.error .invalid, s)
            else if area.startAddr < address ∧ endAddr < area.endAddr then
              match checkVmaSplit s with
              | (.error e, s) => (.error e, s)
              | (.ok _, s) =>
                match create heap endAddr area.endAddr area.flags with
                | none => (.error .mem, s)
                | some right =>
                  cutArea before area after address endAddr rounded (some { right with
                    offset := u32 (area.offset + (endAddr - area.startAddr)) }) s
            else cutArea before area after address endAddr rounded none s

end ZephyrOS.Vma
